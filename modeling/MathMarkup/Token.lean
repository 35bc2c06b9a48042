import MathMarkup.Text

/-!
# Tokens

Expanded markup is a list of tokens. A token is a piece of text with the class that decides
which space is set around it. Scripts and accents are tokens too until they are folded into
their neighbours.
-/

namespace MathMarkup

/-- The class of a token. The first eight are the classes that spacing knows; a script belongs
to the atom before it and an accent to the atom after it. -/
inductive AtomClass where
  | ord
  | op
  | bin
  | rel
  | opening
  | closing
  | punct
  | inner
  | script
  | accent
  deriving DecidableEq, Repr

inductive Style where
  | text
  | script
  deriving DecidableEq, Repr

/-- The style of markup nested in markup: script style is never left again. -/
def Style.max : Style → Style → Style
  | .text, inner => inner
  | .script, _ => .script

structure Token where
  atom : AtomClass
  text : Text
  deriving DecidableEq, Repr

namespace Token

def asOrd (t : Token) : Token := { t with atom := .ord }

def append (t : Token) (script : Text) : Token := { t with text := t.text ++ script }

/-- The token with combining marks right after its first character. -/
def mark (t : Token) (marks : Text) : Token :=
  { t with text := t.text.take 1 ++ marks ++ t.text.drop 1 }

end Token

end MathMarkup
