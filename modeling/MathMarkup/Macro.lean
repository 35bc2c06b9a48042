import MathMarkup.Token

/-!
# Macros

A macro stands for one token, for text that is read in its place, or for a function of the
arguments that follow it. What a function gives back is a `Reply`, which tells apart the ways in
which it can fail to expand.
-/

namespace MathMarkup

inductive Reply where
  | tokens (tokens : List Token)
  /-- Text that is put in front of the rest of the markup and read again. -/
  | text (text : Text)
  | nothing
  | failed
  /-- Some other value, by the name of its kind and by the text it is shown as. -/
  | other (kind : String) (shown : Text)
  deriving DecidableEq, Repr

/-- A value that is no reply of its own stands for the text it is shown as. -/
def Reply.shown : Reply → Reply
  | .other _ shownAs => .text shownAs
  | reply => reply

/-- A macro that takes arguments. With `preparse` each of them is expanded and set before the
handler sees it, in `style` or in the style around the macro if that is the smaller one. -/
structure FunctionMacro where
  arity : Nat
  handler : List Text → Reply
  preparse : Bool := false
  style : Style := .text

def FunctionMacro.ofFunction (arity : Nat) (preparse : Bool) (f : List Text → Reply) :
    FunctionMacro where
  arity := arity
  handler arguments := (f arguments).shown
  preparse := preparse

def FunctionMacro.unary (preparse : Bool) (f : Text → Reply) : FunctionMacro where
  arity := 1
  handler
    | argument :: _ => f argument
    | [] => .failed
  preparse := preparse

def FunctionMacro.ofClass (atom : AtomClass) : FunctionMacro :=
  FunctionMacro.unary true fun argument => .tokens [⟨atom, argument⟩]

inductive Macro where
  | token (token : Token)
  | text (text : Text)
  | function (function : FunctionMacro)

def Macro.kind : Macro → String
  | .token _ => "TokenMacro"
  | .text _ => "TextMacro"
  | .function _ => "FuncMacro"

def Macro.takesArguments : Macro → Bool
  | .function f => 0 < f.arity
  | _ => false

end MathMarkup
