import MathMarkup.Text

/-!
# Digits

Numbers that are written with digits. An integer is read plainly, as digits with an optional sign,
or leniently, where zeros that add nothing and underscores between digits are allowed.
-/

namespace MathMarkup

def hexDigit? (c : Char) : Option Nat :=
  if c.isDigit then some (c.toNat - '0'.toNat)
  else if 'a' ≤ c ∧ c ≤ 'f' then some (c.toNat - 'a'.toNat + 10)
  else if 'A' ≤ c ∧ c ≤ 'F' then some (c.toNat - 'A'.toNat + 10)
  else none

def readDigits? (digits : Text) : Option Nat :=
  if digits.isEmpty ∨ ¬digits.all Char.isDigit then none
  else some (digits.foldl (fun n c => 10 * n + (c.toNat - '0'.toNat)) 0)

def Text.trim (text : Text) (drops : Char → Bool) : Text :=
  ((text.dropWhile drops).reverse.dropWhile drops).reverse

/-- The integer that digits with an optional sign are written for. Blanks around it are allowed. -/
def readInteger? (text : Text) : Option Int :=
  match text.trim isBlank with
  | '-' :: digits => (readDigits? digits).map fun n => -(n : Int)
  | '+' :: digits => (readDigits? digits).map fun n => (n : Int)
  | digits => (readDigits? digits).map fun n => (n : Int)

/-! ## Lenient reading -/

/-- White space is blank, but some blanks, the separators of records and the like, are none. -/
def isWhiteSpace (c : Char) : Bool := isBlank c && !('\x1c' ≤ c && c ≤ '\x1f')

def longestNumeral : Nat := 4300

/-- A numeral consists of digits, with no zero at the start but for zero itself. -/
def isNumeral (text : Text) : Bool :=
  text ≠ [] ∧ text.all Char.isDigit ∧ (text.head? = some '0' → text = ['0'])

def readNumeral? (numeral : Text) : Option Nat :=
  if isNumeral numeral ∧ numeral.length ≤ longestNumeral then readDigits? numeral else none

/-- Drops the zeros at the start of a numeral and the underscores among them. A minus sign may come
after the zeros. The last character of them stays if a point or nothing follows. -/
def dropLeadingZeros? (numeral : Text) : Option Text :=
  let zeros := numeral.takeWhile fun c => c = '0' || c = '_'
  let rest := numeral.dropWhile fun c => c = '0' || c = '_'
  match numeral.head? with
  | none => none
  | some first =>
    if first = '0' then
      match rest.head? with
      | none => some (zeros.drop (zeros.length - 1))
      | some next =>
        if next = '.' then some (zeros.drop (zeros.length - 1) ++ rest)
        else if next.isDigit ∨ next = '-' then some rest
        else none
    else if first.isDigit then some numeral
    else none

/-- Drops a point that is followed by zeros, one at least, and by nothing else. -/
def dropDecimals (numeral : Text) : Text :=
  let decimals := (numeral.dropWhile (· ≠ '.')).tail
  if decimals ≠ [] ∧ decimals.all (· = '0') then numeral.takeWhile (· ≠ '.') else numeral

/-- Drops underscores if each of them stands between two other characters. -/
def dropUnderscores (numeral : Text) : Text :=
  if numeral.head? = some '_' ∨ numeral.getLast? = some '_' ∨
      ('_', '_') ∈ numeral.zip numeral.tail then numeral
  else numeral.filter (· ≠ '_')

def plainNumeral? (numeral : Text) : Option Text :=
  (dropLeadingZeros? numeral).map fun digits => dropUnderscores (dropDecimals digits)

def readSignedNumeral? : Text → Option Int
  | '-' :: numeral => (readNumeral? numeral).map fun n => -(n : Int)
  | numeral => (readNumeral? numeral).map fun n => (n : Int)

/-- The integer that a lenient numeral with an optional sign is written for. White space around it
is allowed. -/
def readLenientInteger? (text : Text) : Option Int :=
  match text.trim isWhiteSpace with
  | '-' :: numeral => (plainNumeral? numeral).bind fun digits => readSignedNumeral? ('-' :: digits)
  | '+' :: numeral => (plainNumeral? numeral).bind readSignedNumeral?
  | numeral => (plainNumeral? numeral).bind readSignedNumeral?

end MathMarkup
