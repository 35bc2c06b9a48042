/-!
# Double precision

Numbers that are written with a fraction or an exponent are rounded to double precision: 53 binary
digits, and exponents from -1074 on. The rounding is exact, by division of natural numbers.
-/

namespace MathMarkup

/-- The quotient rounded to the nearest integer, and to the even one of two that are as near. -/
def roundedQuotient (n d : Nat) : Nat :=
  let quotient := n / d
  if 2 * (n % d) < d then quotient
  else if d < 2 * (n % d) then quotient + 1
  else quotient + quotient % 2

/-- A number in double precision, without its sign: `significand * 2 ^ exponent`. -/
structure Double where
  significand : Nat
  exponent : Int
  deriving DecidableEq, Repr

namespace Double

def digits : Nat := 53

def leastExponent : Int := -1074

def range : Nat := 1024

/-- The nearest double to a positive quotient, if it is in range. The quotient lies between two
powers of two, the lower of which gives the exponent. -/
def ofQuotient? (n d : Nat) : Option Double :=
  let estimate : Int := (n.log2 : Int) - d.log2
  let floor := if d <<< estimate.toNat ≤ n <<< (-estimate).toNat then estimate else estimate - 1
  let exponent := max leastExponent (floor - (digits - 1))
  let significand := roundedQuotient (n <<< (-exponent).toNat) (d <<< exponent.toNat)
  if significand <<< exponent.toNat < 1 <<< range then some ⟨significand, exponent⟩ else none

/-- Powers of ten from this one on are out of range, and their inverses are rounded to zero. -/
def decimalRange : Nat := 400

def ofDecimal? (mantissa : Nat) (exponent : Int) : Option Double :=
  let length : Int := mantissa.log2
  if mantissa = 0 ∨ exponent + length < -decimalRange then some ⟨0, 0⟩
  else if decimalRange < exponent then none
  else ofQuotient? (mantissa * Nat.pow 10 exponent.toNat) (Nat.pow 10 (-exponent).toNat)

def whole? (x : Double) : Option Nat :=
  let unit := 1 <<< (-x.exponent).toNat
  if x.significand % unit = 0 then some ((x.significand / unit) <<< x.exponent.toNat) else none

end Double

end MathMarkup
