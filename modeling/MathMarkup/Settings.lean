import MathMarkup.Alphabet
import MathMarkup.Spacing

/-!
# Settings

What a host can choose: how letters and spaces are set, and how far expansion may go.
-/

namespace MathMarkup

/-- The settings of an application that typesets markup. -/
structure Settings where
  appName : Text := "Unimath".toList
  appVersion : Text := "0.3.0".toList
  debug : Bool := false
  logLevel : Text := "INFO".toList
  letterStyle : LetterStyle := .italic
  thinSpace : Text := ['\u2006']
  mediumSpace : Text := ['\u205F']
  thickSpace : Text := ['\u2005']
  /-- How many levels of markup may be nested. There is no other bound: the stack that nested
  markup is expanded on is taken as unbounded, and no macro fails for want of it. -/
  maxDepth : Nat := 100
  /-- How often text may be spliced into the markup. -/
  maxExpansions : Nat := 10000
  deriving DecidableEq, Repr

def Settings.spaces (settings : Settings) : Spaces :=
  ⟨settings.thinSpace, settings.mediumSpace, settings.thickSpace⟩

end MathMarkup
