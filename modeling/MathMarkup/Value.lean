import MathMarkup.Text.Case
import MathMarkup.Text.Digits

/-!
# Values

Settings and requests come as values of unknown shape. Each reader below turns a value into data
of one type, as far as that makes sense, or tells what is wrong with it.
-/

namespace MathMarkup

inductive Value where
  | null
  | bool (b : Bool)
  | integer (n : Int)
  /-- A number written with a fraction or an exponent, and the integer it is equal to, if any. -/
  | fraction (whole : Option Int)
  | notFinite
  | text (text : Text)
  | list (items : List Value)
  | object (fields : List (Text × Value))
  deriving Repr

inductive Fault where
  | missing
  | notJson
  | notAnObject
  | notText
  | textTooLong
  | notAnInteger
  | integerUnreadable
  | integerTooLarge
  | fractionalInteger
  | notFinite
  | belowMinimum
  | notAChoice
  | notABool
  | boolUnreadable
  deriving DecidableEq, Repr

def Fault.name : Fault → String
  | missing => "missing"
  | notJson => "json_invalid"
  | notAnObject => "model_attributes_type"
  | notText => "string_type"
  | textTooLong => "string_too_long"
  | notAnInteger => "int_type"
  | integerUnreadable => "int_parsing"
  | integerTooLarge => "int_parsing_size"
  | fractionalInteger => "int_from_float"
  | notFinite => "finite_number"
  | belowMinimum => "greater_than_equal"
  | notAChoice => "literal_error"
  | notABool => "bool_type"
  | boolUnreadable => "bool_parsing"

structure Complaint where
  place : String
  fault : Fault
  deriving DecidableEq, Repr

namespace Value

/-- The value of a field. The last of several fields of one name counts. -/
def field? (name : String) (fields : List (Text × Value)) : Option Value :=
  fields.reverse.lookup name.toList

def toText : Value → Except Fault Text
  | .text t => .ok t
  | _ => .error .notText

/-- The integer that a text is written for. A numeral that is too long is told apart. -/
def integerOfText (t : Text) : Except Fault Int :=
  let digits := if t.head? = some '-' then t.tail else t
  if isNumeral digits ∧ longestNumeral < digits.length then .error .integerTooLarge
  else
    match readLenientInteger? t with
    | some n => .ok n
    | none => .error .integerUnreadable

/-- Numbers written with a fraction or an exponent are read as integers up to this bound. -/
def wordBound : Nat := 1 <<< 63

def toInteger : Value → Except Fault Int
  | .integer n => .ok n
  | .bool b => .ok (if b then 1 else 0)
  | .fraction (some n) => if n.natAbs < wordBound then .ok n else .error .integerTooLarge
  | .fraction none => .error .fractionalInteger
  | .notFinite => .error .notFinite
  | .text t => integerOfText t
  | _ => .error .notAnInteger

def toLimit (value : Value) : Except Fault Nat :=
  match value.toInteger with
  | .error fault => .error fault
  | .ok n => if 1 ≤ n then .ok n.toNat else .error .belowMinimum

theorem one_le_of_toLimit {value : Value} {limit : Nat} (h : value.toLimit = .ok limit) :
    1 ≤ limit := by
  unfold toLimit at h
  split at h
  · cases h
  · split at h
    · cases h
      omega
    · cases h

def boolOfInteger (n : Int) : Except Fault Bool :=
  if n = 1 then .ok true else if n = 0 then .ok false else .error .boolUnreadable

/-- A truth value, a number of moderate size or a word for one. -/
def toBool : Value → Except Fault Bool
  | .bool b => .ok b
  | .integer n =>
    if -(wordBound : Int) ≤ n ∧ n < wordBound then boolOfInteger n else .error .notABool
  | .fraction (some n) => if n.natAbs < wordBound then boolOfInteger n else .error .notABool
  | .text t =>
    let word := String.ofList (t.map Char.toLower)
    if word ∈ ["1", "t", "true", "y", "yes", "on"] then .ok true
    else if word ∈ ["0", "f", "false", "n", "no", "off"] then .ok false
    else .error .boolUnreadable
  | _ => .error .notABool

end Value

end MathMarkup
