import MathMarkup.Alphabet
import MathMarkup.Token

/-!
# Literal characters

How a character is set that starts no macro: a letter in the letter style, a blank not at all, and
any other character as a token of its own class.
-/

namespace MathMarkup

def charClass : Char → AtomClass
  | '-' | '*' | '#' | '+' | '/' | '\u2013' => .bin
  | '=' | '~' | '<' | '>' | ':' => .rel
  | '(' | '[' | '{' => .opening
  | ')' | ']' | '}' | '?' => .closing
  | ',' | ';' | '!' => .punct
  | _ => .ord

def classify (c : Char) : Token := ⟨charClass c, if c = '-' then ['\u2212'] else [c]⟩

/-- The tokens of a character that starts no macro, or whose macro did not expand. -/
def LetterStyle.literal (style : LetterStyle) (c : Char) : List Token :=
  if isLetter c then [⟨.ord, [style.letter c]⟩]
  else if isBlank c then []
  else [classify c]

end MathMarkup
