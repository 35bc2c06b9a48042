import MathMarkup.Text.Digits

/-!
# Addresses

Requests are sent to addresses. The path of an address comes from its middle part, between the
server and a query; the dot segments in it are walked through, and its escapes are decoded.
-/

namespace MathMarkup

namespace Address

def isSchemeChar (c : Char) : Bool := c.isAlphanum || c = '+' || c = '-' || c = '.'

def splitScheme (address : Text) : Text × Text :=
  let scheme := address.takeWhile isSchemeChar
  match address.dropWhile isSchemeChar with
  | ':' :: rest => if scheme.head?.all Char.isAlpha then (scheme, rest) else ([], address)
  | _ => ([], address)

def splitServer : Text → Text × Text
  | '/' :: '/' :: rest =>
    (rest.takeWhile fun c => c ≠ '/' ∧ c ≠ '?' ∧ c ≠ '#',
      rest.dropWhile fun c => c ≠ '/' ∧ c ≠ '?' ∧ c ≠ '#')
  | rest => ([], rest)

/-- Whether there is a host before the colon of a server. The name of a user may come first. -/
def hasHost (server : Text) : Bool :=
  match (server.reverse.takeWhile (· ≠ '@')).reverse with
  | [] => false
  | c :: _ => c ≠ ':'

def segments : Text → List Text
  | [] => [[]]
  | c :: rest =>
    if c = '/' then [] :: segments rest
    else (segments rest).modifyHead (c :: ·)

/-- A step of the walk along a path, from the segments behind, the last one first. A dot stays, and
two dots go back, but not past the root. -/
def walk (behind : List Text) (segment : Text) : List Text :=
  if segment = ['.'] then behind
  else if segment = ['.', '.'] then if behind = [[]] then behind else behind.tail
  else segment :: behind

def withoutDots (path : Text) : Text :=
  let walked := ['/'].intercalate ((segments path).foldl walk []).reverse
  if walked.isEmpty then ['/'] else walked

/-- The path of an address, with its escapes. An address leads on from the root of the service
unless it has a scheme and a host of its own. -/
def escapedPath (address : Text) : Text :=
  let (scheme, rest) := splitScheme address
  let (server, rest) := splitServer rest
  let written := rest.takeWhile fun c => c ≠ '?' ∧ c ≠ '#'
  let path := if scheme = [] ∧ server = [] then written else withoutDots written
  if scheme ≠ [] ∧ hasHost server then path
  else withoutDots ('/' :: path.dropWhile (· = '/'))

/-- The bytes that a text stands for if a percent sign and two hexadecimal digits are one byte. -/
def unescape : Text → List UInt8
  | '%' :: a :: b :: rest =>
    match hexDigit? a, hexDigit? b with
    | some m, some n => UInt8.ofNat (16 * m + n) :: unescape rest
    | _, _ => '%'.toUInt8 :: unescape (a :: b :: rest)
  | c :: rest => String.utf8EncodeChar c ++ unescape rest
  | [] => []

/-- The path that an address leads to, unless its escapes are no text. -/
def path? (address : Text) : Option Text :=
  (String.fromUTF8? ⟨(unescape (escapedPath address)).toArray⟩).map String.toList

end Address

end MathMarkup
