import MathMarkup.Value
import MathMarkup.Value.Double
import MathMarkup.Value.Encoding

/-!
# Values in JSON

Reads the value that a JSON text is written for. Reading goes from left to right and fails at the
first place where the text is no JSON or goes beyond a limit; a bound on the steps that are left,
taken from the length of the text, makes the recursion end.
-/

namespace MathMarkup

namespace Json

/-- Why a text cannot be read: it is not JSON, or it is too much to be read. -/
inductive Failure where
  | malformed
  | excessive
  deriving DecidableEq, Repr

def require {α : Type} : Option α → Except Failure α
  | some a => .ok a
  | none => .error .malformed

def deepestNesting : Nat := 950

def isSpace (c : Char) : Bool := c = ' ' || c = '\t' || c = '\n' || c = '\r'

def skipSpace (text : Text) : Text := text.dropWhile isSpace

def hexUnit? (a b c d : Char) : Option Nat := do
  let digits ← [a, b, c, d].mapM hexDigit?
  return digits.foldl (fun n digit => 16 * n + digit) 0

def escaped? : Char → Option Char
  | '"' => some '"'
  | '\\' => some '\\'
  | '/' => some '/'
  | 'b' => some '\x08'
  | 'f' => some '\x0c'
  | 'n' => some '\n'
  | 'r' => some '\r'
  | 't' => some '\t'
  | _ => none

def readUnits? : Text → Option (List Nat × Text)
  | [] => none
  | '"' :: rest => some ([], rest)
  | '\\' :: 'u' :: a :: b :: c :: d :: rest => do
    let unit ← hexUnit? a b c d
    let (units, rest) ← readUnits? rest
    return (unit :: units, rest)
  | '\\' :: c :: rest => do
    let c ← escaped? c
    let (units, rest) ← readUnits? rest
    return (c.toNat :: units, rest)
  | c :: rest =>
    if c < ' ' ∨ c = '\\' then none
    else do
      let (units, rest) ← readUnits? rest
      return (c.toNat :: units, rest)

def readString? (text : Text) : Option (Text × Text) :=
  (readUnits? text).map fun read => (textOfUnits read.1, read.2)

def readDigits (text : Text) : Text × Text :=
  (text.takeWhile Char.isDigit, text.dropWhile Char.isDigit)

def readFraction (text : Text) : Option Text × Text :=
  match text with
  | '.' :: rest =>
    let (digits, rest) := readDigits rest
    if digits.isEmpty then (none, text) else (some digits, rest)
  | _ => (none, text)

def readExponent (text : Text) : Option Int × Text :=
  match text with
  | e :: rest =>
    if e = 'e' ∨ e = 'E' then
      let (negative, unsigned) :=
        match rest with
        | '-' :: rest => (true, rest)
        | '+' :: rest => (false, rest)
        | rest => (false, rest)
      let (digits, after) := readDigits unsigned
      match readDigits? digits with
      | some n => (some (if negative then -(n : Int) else n), after)
      | none => (none, text)
    else (none, text)
  | [] => (none, text)

def rounded (sign : Int) (mantissa : Nat) (exponent : Int) : Value :=
  match Double.ofDecimal? mantissa exponent with
  | some x => .fraction (x.whole?.map fun n => sign * n)
  | none => .notFinite

def readNumber (text : Text) : Except Failure (Value × Text) := do
  let (negative, unsigned) :=
    match text with
    | '-' :: rest => (true, rest)
    | rest => (false, rest)
  let (digits, rest) :=
    match unsigned with
    | '0' :: rest => (['0'], rest)
    | rest => readDigits rest
  let n ← require (readDigits? digits)
  let (fraction, rest) := readFraction rest
  let (exponent, rest) := readExponent rest
  let sign : Int := if negative then -1 else 1
  if fraction.isNone ∧ exponent.isNone then
    if longestNumeral < digits.length then .error .excessive else .ok (.integer (sign * n), rest)
  else
    let decimals := fraction.getD []
    let mantissa ← require (readDigits? (digits ++ decimals))
    return (rounded sign mantissa (exponent.getD 0 - decimals.length), rest)

/-- The words that stand for a value. Numbers that are not finite have words too. -/
def words : List (Text × Value) :=
  [("null".toList, .null), ("true".toList, .bool true), ("false".toList, .bool false),
    ("NaN".toList, .notFinite), ("Infinity".toList, .notFinite),
    ("-Infinity".toList, .notFinite)]

def readWord? (text : Text) : Option (Value × Text) :=
  words.findSome? fun word => (word.1.isPrefixOf? text).map fun rest => (word.2, rest)

mutual

/-- The value at the start of a text, in at most the given number of steps and within at most the
given number of lists and objects. -/
def readValue (steps levels : Nat) (text : Text) : Except Failure (Value × Text) :=
  match steps, skipSpace text with
  | 0, _ => .error .malformed
  | _, '"' :: rest => (require (readString? rest)).map fun read => (.text read.1, read.2)
  | steps + 1, '[' :: rest =>
    match levels, skipSpace rest with
    | 0, _ => .error .excessive
    | _, ']' :: rest => .ok (.list [], rest)
    | levels + 1, rest => (readItems steps levels rest).map fun read => (.list read.1, read.2)
  | steps + 1, '{' :: rest =>
    match levels, skipSpace rest with
    | 0, _ => .error .excessive
    | _, '}' :: rest => .ok (.object [], rest)
    | levels + 1, rest => (readFields steps levels rest).map fun read => (.object read.1, read.2)
  | _, rest =>
    match readWord? rest with
    | some read => .ok read
    | none => readNumber rest

/-- The items of a list, one at least, and the text after the list. -/
def readItems (steps levels : Nat) (text : Text) : Except Failure (List Value × Text) :=
  match steps with
  | 0 => .error .malformed
  | steps + 1 => do
    let (item, rest) ← readValue steps levels text
    match skipSpace rest with
    | ',' :: rest => (readItems steps levels rest).map fun read => (item :: read.1, read.2)
    | ']' :: rest => .ok ([item], rest)
    | _ => .error .malformed

/-- The fields of an object, one at least, and the text after the object. -/
def readFields (steps levels : Nat) (text : Text) :
    Except Failure (List (Text × Value) × Text) :=
  match steps, skipSpace text with
  | steps + 1, '"' :: rest => do
    let (name, rest) ← require (readString? rest)
    match skipSpace rest with
    | ':' :: rest =>
      let (value, rest) ← readValue steps levels rest
      match skipSpace rest with
      | ',' :: rest =>
        (readFields steps levels rest).map fun read => ((name, value) :: read.1, read.2)
      | '}' :: rest => .ok ([(name, value)], rest)
      | _ => .error .malformed
    | _ => .error .malformed
  | _, _ => .error .malformed

end

end Json

/-- The value that a JSON text is written for. A byte order mark at its start is skipped. -/
def Value.ofJson (text : Text) : Except Json.Failure Value :=
  let text := if text.head? = some '\uFEFF' then text.tail else text
  match Json.readValue (2 * text.length + 1) Json.deepestNesting text with
  | .ok (value, rest) => if (Json.skipSpace rest).isEmpty then .ok value else .error .malformed
  | .error failure => .error failure

end MathMarkup
