import MathMarkup.Group

/-!
# Remembered groups

Scanning asks for the groups of one text again and again, each time from a later place. An index
matches the braces of a text in one pass that is read only as far as it is asked. Braces are known
by their distance from the end of the text, so an index also answers for any other text with the
same tail. A cache keeps the few indexes that were used last.
-/

namespace MathMarkup

structure BraceIndex where
  text : Text
  size : Nat
  /-- The distance of each matched opening brace, with the distance right after its match. -/
  closes : List (Nat × Nat)
  /-- The distances of the opening braces that are still open, the innermost first. -/
  opened : List Nat
  unread : Text
  /-- A search has run into the end of the text. -/
  done : Bool := false
  deriving DecidableEq, Repr

namespace BraceIndex

def ofText (text : Text) : BraceIndex :=
  { text := text, size := text.length, closes := [], opened := [], unread := text }

/-- Two texts are equal. Tails that are one object in memory are not read through. -/
def sameText : Text → Text → Bool
  | [], [] => true
  | a :: as, b :: bs => a == b && withPtrEq as bs (fun _ => as == bs) fun h => by simp [h]
  | _, _ => false

theorem sameText_eq_true_iff {a b : Text} : sameText a b = true ↔ a = b := by
  cases a <;> cases b <;> simp [sameText, withPtrEq]

def covers (index : BraceIndex) (length : Nat) (text : Text) : Bool :=
  length ≤ index.size && sameText (index.text.drop (index.size - length)) text

/-- The brace at a distance from the end is matched already, or it is known to have no match. -/
def resolved (index : BraceIndex) (distance : Nat) : Bool :=
  index.done || (index.closes.lookup distance).isSome

/-- Reads on until the brace at distance `target` is matched. `distance` is the distance of the
first unread character. -/
def read (target : Nat) (index : BraceIndex) : (distance : Nat) → (unread : Text) → BraceIndex
  | _, [] => { index with unread := [], done := true }
  | distance, c :: rest =>
    if c = '{' then
      read target { index with opened := distance :: index.opened } (distance - 1) rest
    else if c = '}' then
      match index.opened with
      | [] => read target index (distance - 1) rest
      | innermost :: outer =>
        let matched :=
          { index with closes := (innermost, distance - 1) :: index.closes, opened := outer }
        if innermost = target then { matched with unread := rest }
        else read target matched (distance - 1) rest
    else read target index (distance - 1) rest

def resolve (index : BraceIndex) (distance : Nat) : BraceIndex :=
  if index.resolved distance then index
  else index.read distance index.unread.length index.unread

def groupEnd? (index : BraceIndex) (length : Nat) : Option Nat × BraceIndex :=
  let index := index.resolve length
  ((index.closes.lookup length).map (length - ·), index)

end BraceIndex

/-- The indexes that were used last, the latest first, and how many of them are kept. -/
structure BraceCache where
  capacity : Nat := 4
  indexes : List BraceIndex := []
  deriving DecidableEq, Repr

namespace BraceCache

/-- The index to ask about a text of the given length, and the other ones. An index that knows the
answer is preferred to one that has to read on, and that to a new one. -/
def select (cache : BraceCache) (length : Nat) (text : Text) : BraceIndex × List BraceIndex :=
  let ready := fun index : BraceIndex => index.resolved length && index.covers length text
  let covering := fun index : BraceIndex => index.covers length text
  match cache.indexes.find? ready with
  | some index => (index, cache.indexes.eraseP ready)
  | none =>
    match cache.indexes.find? covering with
    | some index => (index, cache.indexes.eraseP covering)
    | none => (BraceIndex.ofText text, cache.indexes)

/-- The length of the group that the text starts with, and the cache with the index that gave the
answer in front. A cache of capacity zero answers too and keeps nothing. -/
def groupEnd? (cache : BraceCache) (text : Text) : Option Nat × BraceCache :=
  let length := text.length
  let (index, others) := cache.select length text
  let (found, index) := index.groupEnd? length
  (found, { cache with indexes := (index :: others).take cache.capacity })

def groupEndAt? (cache : BraceCache) (text : Text) (start : Nat) : Option Nat × BraceCache :=
  let (found, cache) := cache.groupEnd? (text.drop start)
  (found.map (start + ·), cache)

end BraceCache

def GroupFinder.remembering : GroupFinder where
  Memory := BraceCache
  fresh := {}
  find rest cache :=
    let (found, cache) := cache.groupEnd? ('{' :: rest)
    (found.map (· - 1), cache)

end MathMarkup
