import MathMarkup.Text
import MathMarkup.Text.Case
import MathMarkup.Text.Digits
import MathMarkup.Token
import MathMarkup.Alphabet
import MathMarkup.Spacing
import MathMarkup.Assembly
import MathMarkup.Group
import MathMarkup.Group.Cache
import MathMarkup.Argument
import MathMarkup.Macro
import MathMarkup.Notice
import MathMarkup.Script
import MathMarkup.Registry
import MathMarkup.Literal
import MathMarkup.Settings
import MathMarkup.Expansion.State
import MathMarkup.Expansion.Step
import MathMarkup.Expansion.Progress
import MathMarkup.Expansion
import MathMarkup.Standard
import MathMarkup.Segment
import MathMarkup.Value
import MathMarkup.Value.Double
import MathMarkup.Value.Encoding
import MathMarkup.Value.Json
import MathMarkup.Settings.Sources
import MathMarkup.Service.Address
import MathMarkup.Service
import MathMarkup.Proofs.BraceIndex
import MathMarkup.Proofs.Course
import MathMarkup.Proofs.Budget
import MathMarkup.Proofs.BraceCache
import MathMarkup.Proofs.ExactFinder
import MathMarkup.Proofs.SoundMemory
import MathMarkup.Proofs.Agreement
import MathMarkup.Proofs.ArgumentSpans
import MathMarkup.Proofs.Ceilings
import MathMarkup.Proofs.Comparison
import MathMarkup.Proofs.Descent
import MathMarkup.Proofs.FailingMacro
import MathMarkup.Proofs.InPlace
import MathMarkup.Proofs.Invariant
import MathMarkup.Proofs.Moments
import MathMarkup.Proofs.Raising
import MathMarkup.Proofs.Item
import MathMarkup.Proofs.ItemExpansion
import MathMarkup.Proofs.Uncaught
import MathMarkup.Proofs.SpentBudget
import MathMarkup.Proofs.SettledAtoms
import MathMarkup.Proofs.ScriptStyle
import MathMarkup.Proofs.CharacterMaps
import MathMarkup.Proofs.RegistrySession
import MathMarkup.Proofs.StandardMacros
import MathMarkup.Proofs.PlainLetters
import MathMarkup.Proofs.LetterStyles
import MathMarkup.Proofs.NestingDepth
import MathMarkup.Proofs.Blanks
import MathMarkup.Proofs.CallCount
import MathMarkup.Proofs.SegmentBounds
import MathMarkup.Proofs.ArgumentEnds
import MathMarkup.Proofs.CollectedArguments
import MathMarkup.Proofs.Clusters
import MathMarkup.Proofs.BinaryOperators
import MathMarkup.Proofs.Cuts
import MathMarkup.Proofs.SpelledOut
import MathMarkup.Proofs.AccentBases
import MathMarkup.Proofs.EnclosedArguments
import MathMarkup.Proofs.Unspaced
import MathMarkup.Proofs.ScriptRuns
import MathMarkup.Proofs.NestedFonts
import MathMarkup.Proofs.UnknownWords
