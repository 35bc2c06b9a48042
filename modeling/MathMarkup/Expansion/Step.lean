import MathMarkup.Argument
import MathMarkup.Assembly
import MathMarkup.Expansion.State
import MathMarkup.Literal
import MathMarkup.Registry
import MathMarkup.Settings

/-!
# One step of expansion

Expansion reads markup from left to right. A step looks at the first character: either it starts a
macro that expands, or the character alone is taken off and set as a literal. What a macro leaves
in the state stays there even if the macro does not expand in the end. Markup nested in arguments
is expanded by a `Nested` that is given from outside.
-/

namespace MathMarkup

structure Typesetter where
  registry : Registry
  settings : Settings := {}

/-- A way of expanding nested markup. It may be refused, and it never gives splices back. -/
structure Nested (F : GroupFinder) where
  expand : Style → Text → ExpansionState F → Except Refusal (List Token) × ExpansionState F
  remaining_le : ∀ style text s, (expand style text s).2.remaining ≤ s.remaining

structure Expanded where
  tokens : List Token
  rest : Text

/-- A brace group is set as one ordinary atom. -/
def groupMacro : FunctionMacro := .ofClass .ord

namespace Typesetter

variable {F : GroupFinder} (T : Typesetter)

/-- The macro that a character and the text after it start: where it is expanded, what it is, and
the text in which its arguments are looked for. -/
def start? (c : Char) (rest : Text) : Option (Site × Macro × Text) :=
  match c with
  | '\\' => do
    let (name, after) ← controlName? rest
    let m ← T.registry.lookup name
    return (.command name, m, after)
  | '^' => some (.superscript, .function superscript, rest)
  | '_' => some (.subscript, .function subscript, rest)
  | '{' => some (.group, .function groupMacro, '{' :: rest)
  | _ => none

def setArguments (nested : Nested F) (style : Style) :
    List Text → ExpansionState F → Except Refusal (List Text) × ExpansionState F
  | [], s => (.ok [], s)
  | argument :: arguments, s =>
    match nested.expand style argument s with
    | (.error refusal, s) => (.error refusal, s)
    | (.ok tokens, s) =>
      match setArguments nested style arguments s with
      | (.error refusal, s) => (.error refusal, s)
      | (.ok texts, s) => (.ok (typeset T.settings.spaces style tokens :: texts), s)

/-- The arguments as the handler gets them, and the text after them. -/
def takeArguments (nested : Nested F) (level : Nat) (style : Style) (site : Site)
    (f : FunctionMacro) (after : Text) (s : ExpansionState F) :
    Except Refusal (Option (List Text × Text)) × ExpansionState F :=
  let (collected, memory) := collectArguments F f.arity after (s.memory level)
  let s := s.setMemory level memory
  match collected with
  | .error _ => (.ok none, s.report (.missingArguments site.name f.arity))
  | .ok (arguments, length) =>
    if f.preparse then
      match T.setArguments nested (style.max f.style) arguments s with
      | (.error refusal, s) => (.error refusal, s)
      | (.ok texts, s) => (.ok (some (texts, after.drop length)), s)
    else (.ok (some (arguments, after.drop length)), s)

def splice (site : Site) (text rest : Text) (s : ExpansionState F) :
    Except Refusal (Option Expanded) × ExpansionState F :=
  match s.spend site text with
  | (.error refusal, s) => (.error refusal, s)
  | (.ok (), s) => (.ok (some ⟨[], text ++ rest⟩), s)

def call (site : Site) (f : FunctionMacro) (arguments : List Text) (rest : Text)
    (s : ExpansionState F) : Except Refusal (Option Expanded) × ExpansionState F :=
  let s := s.record (.called site arguments)
  match f.handler arguments with
  | .tokens tokens => (.ok (some ⟨tokens, rest⟩), s)
  | .text text => splice site text rest s
  | .nothing => (.ok none, s)
  | .failed => (.ok none, s.report (.handlerFailed site.name))
  | .other kind _ => (.ok none, s.report (.unsupportedReply site.name kind))

/-- An attempt is refused for want of splices or of levels only. That the stack runs out under
nested markup is left out, as it is taken as unbounded. -/
def attempt (nested : Nested F) (level : Nat) (style : Style) (site : Site) (m : Macro)
    (after : Text) (s : ExpansionState F) : Except Refusal (Option Expanded) × ExpansionState F :=
  match m with
  | .token token => (.ok (some ⟨[token], after⟩), s)
  | .text text => splice site text after s
  | .function f =>
    match T.takeArguments nested level style site f after s with
    | (.error refusal, s) => (.error refusal, s)
    | (.ok none, s) => (.ok none, s)
    | (.ok (some (arguments, rest)), s) => call site f arguments rest s

/-- What a macro expands to, if it does. A refused attempt is one that does not expand. -/
def expandMacro? (nested : Nested F) (level : Nat) (style : Style) (site : Site) (m : Macro)
    (after : Text) (s : ExpansionState F) : Option Expanded × ExpansionState F :=
  match T.attempt nested level style site m after s with
  | (.ok expanded, s) => (expanded, s)
  | (.error _, s) => (none, s)

def literal (c : Char) (rest : Text) : Expanded := ⟨T.settings.letterStyle.literal c, rest⟩

/-- Expands the macro that the first character starts, or else sets the character as it is. -/
def step (nested : Nested F) (level : Nat) (style : Style) (c : Char) (rest : Text)
    (s : ExpansionState F) : Expanded × ExpansionState F :=
  match T.start? c rest with
  | none => (T.literal c rest, s)
  | some (site, m, after) =>
    match T.expandMacro? nested level style site m after s with
    | (some expanded, s) => (expanded, s)
    | (none, s) => (T.literal c rest, s)

end Typesetter

end MathMarkup
