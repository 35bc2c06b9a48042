import MathMarkup.Alphabet
import MathMarkup.Macro

/-!
# Standard functions

The macros that take an argument: those that set it with a given class or font, those that put a
mark on it, and those that spell out something built around it.
-/

namespace MathMarkup

def commandText (name : String) : Text := '\\' :: name.toList

def groupText (body : Text) : Text := '{' :: body ++ ['}']

def operatorText (name : Text) : Text :=
  commandText "mathop" ++ groupText (commandText "textrm" ++ groupText name)

def modulusText : Text :=
  commandText "textrm" ++ groupText "mod".toList ++ commandText "," ++ commandText ","

namespace FunctionMacro

/-- A relation that does not hold, struck out by a long solidus. -/
def negated : FunctionMacro :=
  unary true fun argument => .tokens [⟨.rel, argument ++ ['\u0338']⟩]

/-- The argument as it is written, as one ordinary atom. -/
def verbatim : FunctionMacro := unary false fun argument => .tokens [⟨.ord, argument⟩]

/-- The argument in a font, each character an ordinary atom of its own. -/
def font (alphabet : Alphabet) : FunctionMacro :=
  unary true fun argument => .tokens (argument.map fun c => ⟨.ord, [alphabet.restyle c]⟩)

def upright : FunctionMacro := unary true fun argument => .tokens [⟨.ord, argument.map plain⟩]

/-- The argument with a combining mark on every character that is no blank. -/
def overlay (mark : Char) : FunctionMacro :=
  unary true fun argument =>
    .tokens [⟨.ord, argument.flatMap fun c => if isBlank c then [c] else [c, mark]⟩]

def operatorName : FunctionMacro := unary false fun argument => .text (operatorText argument)

def squareRoot : FunctionMacro :=
  unary false fun argument => .text (commandText "surd" ++ ['('] ++ argument ++ [')'])

def modulus : FunctionMacro :=
  unary false fun argument => .text (commandText "quad" ++ modulusText ++ argument)

def parenthesizedModulus : FunctionMacro :=
  unary false fun argument =>
    .text (commandText "quad" ++ ['('] ++ modulusText ++ argument ++ [')'])

end FunctionMacro

end MathMarkup
