import MathMarkup.Text

/-!
# Styled alphabets

A styled alphabet gives letters, and sometimes digits, a form in another typeface. The forms lie
in runs of consecutive code points, except for those that were encoded elsewhere earlier.
`Alphabet.get?` styles a character and `plain` undoes the styling of every alphabet at once.
-/

namespace MathMarkup

/-- The first code point of each run of styled forms, and the forms that lie outside the runs. -/
structure Alphabet where
  capital : Nat
  small : Nat
  digit : Option Nat := none
  exceptions : List (Char × Char) := []
  deriving DecidableEq, Repr

/-- The character as far into the run that starts at `target` as `c` is into the run that starts at
`source`. -/
def shift (source target : Nat) (c : Char) : Char := Char.ofNat (target + (c.toNat - source))

namespace Alphabet

def get? (a : Alphabet) (c : Char) : Option Char :=
  match a.exceptions.lookup c with
  | some styled => some styled
  | none =>
    if c.isUpper then some (shift 'A'.toNat a.capital c)
    else if c.isLower then some (shift 'a'.toNat a.small c)
    else if c.isDigit then a.digit.map fun base => shift '0'.toNat base c
    else none

/-- The character that a form in the run of the given start and length stands for, the run's
first form standing for `first`. -/
def ofRun? (start length : Nat) (first styled : Char) : Option Char :=
  if start ≤ styled.toNat ∧ styled.toNat < start + length then
    some (shift start first.toNat styled)
  else none

/-- The character that is the only one which may have the given styled form. -/
def candidate? (a : Alphabet) (styled : Char) : Option Char :=
  match a.exceptions.find? fun entry => entry.2 == styled with
  | some entry => some entry.1
  | none =>
    (ofRun? a.capital 26 'A' styled).or <| (ofRun? a.small 26 'a' styled).or <|
      a.digit.bind fun base => ofRun? base 10 '0' styled

def unstyle? (a : Alphabet) (styled : Char) : Option Char :=
  (a.candidate? styled).filter fun c => a.get? c == some styled

def italic : Alphabet := { capital := 0x1D434, small := 0x1D44E, exceptions := [('h', 'ℎ')] }

def sansItalic : Alphabet := { capital := 0x1D608, small := 0x1D622 }

def bold : Alphabet := { capital := 0x1D400, small := 0x1D41A, digit := some 0x1D7CE }

def sans : Alphabet := { capital := 0x1D5A0, small := 0x1D5BA, digit := some 0x1D7E2 }

def monospace : Alphabet := { capital := 0x1D670, small := 0x1D68A, digit := some 0x1D7F6 }

def doubleStruck : Alphabet where
  capital := 0x1D538
  small := 0x1D552
  digit := some 0x1D7D8
  exceptions :=
    [('C', 'ℂ'), ('H', 'ℍ'), ('N', 'ℕ'), ('P', 'ℙ'), ('Q', 'ℚ'), ('R', 'ℝ'), ('Z', 'ℤ'),
      ('π', 'ℼ'), ('γ', 'ℽ'), ('Γ', 'ℾ'), ('Π', 'ℿ'), ('Σ', '⅀')]

def fraktur : Alphabet where
  capital := 0x1D504
  small := 0x1D51E
  exceptions := [('C', 'ℭ'), ('H', 'ℌ'), ('I', 'ℑ'), ('R', 'ℜ'), ('Z', 'ℨ')]

def calligraphic : Alphabet where
  capital := 0x1D49C
  small := 0x1D4B6
  exceptions :=
    [('B', 'ℬ'), ('E', 'ℰ'), ('F', 'ℱ'), ('H', 'ℋ'), ('I', 'ℐ'), ('L', 'ℒ'), ('M', 'ℳ'),
      ('R', 'ℛ'), ('e', 'ℯ'), ('g', 'ℊ'), ('o', 'ℴ')]

/-- Every alphabet. No character is a styled form of two of them. -/
def all : List Alphabet :=
  [italic, sansItalic, bold, sans, monospace, doubleStruck, fraktur, calligraphic]

end Alphabet

def plain (c : Char) : Char := (Alphabet.all.findSome? fun a => a.unstyle? c).getD c

/-- The character styled by one alphabet instead of any other; a character that the alphabet has
no form for is kept as it is. -/
def Alphabet.restyle (a : Alphabet) (c : Char) : Char := (a.get? (plain c)).getD c

inductive LetterStyle where
  | italic
  | sansItalic
  | upright
  deriving DecidableEq, Repr

def LetterStyle.alphabet? : LetterStyle → Option Alphabet
  | .italic => some Alphabet.italic
  | .sansItalic => some Alphabet.sansItalic
  | .upright => none

def LetterStyle.letter (style : LetterStyle) (c : Char) : Char :=
  match style.alphabet? with
  | some a => (a.get? c).getD c
  | none => c

end MathMarkup
