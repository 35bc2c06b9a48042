import MathMarkup.Text

/-!
# Encodings of a text

A text that is sent is a sequence of bytes. Among the first four bytes of JSON two at least are
ASCII characters, so where zero bytes stand among them tells the encoding.
-/

namespace MathMarkup

inductive ByteOrder where
  | big
  | little
  deriving DecidableEq, Repr

def ByteOrder.value (order : ByteOrder) (bytes : List UInt8) : Nat :=
  let ordered := match order with
    | .big => bytes
    | .little => bytes.reverse
  ordered.foldl (fun n byte => 256 * n + byte.toNat) 0

inductive Encoding where
  | utf8
  | utf16 (order : ByteOrder)
  | utf32 (order : ByteOrder)
  deriving DecidableEq, Repr

/-- The encoding that the first bytes tell. -/
def Encoding.ofBytes : List UInt8 → Encoding
  | [a, b] => if a = 0 then .utf16 .big else if b = 0 then .utf16 .little else .utf8
  | a :: b :: c :: d :: _ =>
    if a = 0 then if b = 0 then .utf32 .big else .utf16 .big
    else if b = 0 then if c = 0 ∧ d = 0 then .utf32 .little else .utf16 .little
    else .utf8
  | _ => .utf8

def pairs? (order : ByteOrder) : List UInt8 → Option (List Nat)
  | [] => some []
  | [_] => none
  | a :: b :: rest => (pairs? order rest).map (order.value [a, b] :: ·)

def quadruples? (order : ByteOrder) : List UInt8 → Option (List Nat)
  | [] => some []
  | a :: b :: c :: d :: rest => (quadruples? order rest).map (order.value [a, b, c, d] :: ·)
  | _ => none

/-- The character of a code point. A surrogate has none and is replaced. -/
def charOfCode (code : Nat) : Char :=
  if 0xD800 ≤ code ∧ code < 0xE000 then '\ufffd' else Char.ofNat code

/-- The text of code units, where a pair of surrogates is one character. -/
def textOfUnits : List Nat → Text
  | [] => []
  | [unit] => [charOfCode unit]
  | high :: low :: rest =>
    if 0xD800 ≤ high ∧ high < 0xDC00 ∧ 0xDC00 ≤ low ∧ low < 0xE000 then
      Char.ofNat (0x10000 + (high - 0xD800) * 0x400 + (low - 0xDC00)) :: textOfUnits rest
    else charOfCode high :: textOfUnits (low :: rest)

def textOfCodes? (codes : List Nat) : Option Text :=
  if codes.all (· ≤ 0x10FFFF) then some (codes.map charOfCode) else none

/-- A text that was taken for UTF-8, in the encoding that its bytes tell. -/
def decode? (text : Text) : Option Text :=
  let bytes := text.flatMap String.utf8EncodeChar
  match Encoding.ofBytes bytes with
  | .utf8 => some text
  | .utf16 order => (pairs? order bytes).map textOfUnits
  | .utf32 order => (quadruples? order bytes).bind textOfCodes?

end MathMarkup
