/-!
# Text

Markup and rendered text are lists of code points, so a length or an offset counts code points.
Scanning rests on two character classes: blanks and ASCII letters.
-/

namespace MathMarkup

abbrev Text := List Char

/-- The ranges of code points that are blank space, both ends included. -/
def blankRanges : List (Nat × Nat) :=
  [(0x0009, 0x000D), (0x001C, 0x0020), (0x0085, 0x0085), (0x00A0, 0x00A0), (0x1680, 0x1680),
    (0x2000, 0x200A), (0x2028, 0x2029), (0x202F, 0x202F), (0x205F, 0x205F), (0x3000, 0x3000)]

/-- A blank separates items of markup and is never typeset itself. -/
def isBlank (c : Char) : Bool :=
  blankRanges.any fun range => range.1 ≤ c.toNat && c.toNat ≤ range.2

/-- The letters of markup are the ASCII ones: they spell control words and are styled. -/
def isLetter (c : Char) : Bool := c.isAlpha

def Text.skipBlanks (text : Text) : Text := text.dropWhile isBlank

@[simp] theorem Text.skipBlanks_nil : Text.skipBlanks [] = [] := rfl

end MathMarkup
