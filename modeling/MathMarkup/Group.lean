import MathMarkup.Text

/-!
# Brace groups

A group starts at an opening brace and ends at the closing brace that brings the count of open
braces back to zero. `groupEnd?` finds the end by counting. A `GroupFinder` finds it with a memory
of what was read before, so that scanning is stated once for every way of finding it.
-/

namespace MathMarkup

/-- The number of characters up to the closing brace that brings `depth` to zero, that brace
included. -/
def groupEndFrom? (depth : Int) : Text → Option Nat
  | [] => none
  | c :: rest =>
    if c = '{' then (groupEndFrom? (depth + 1) rest).map (· + 1)
    else if c = '}' then
      if depth = 1 then some 1 else (groupEndFrom? (depth - 1) rest).map (· + 1)
    else (groupEndFrom? depth rest).map (· + 1)

/-- The length of the group that the text starts with. A text that starts elsewhere is counted
through in the same way, and closing braces before the first opening one count too. -/
def groupEnd? (text : Text) : Option Nat := groupEndFrom? 0 text

def groupEndAt? (text : Text) (start : Nat) : Option Nat :=
  (groupEnd? (text.drop start)).map (start + ·)

theorem groupEndFrom?_bounds {depth : Int} {text : Text} {n : Nat}
    (h : groupEndFrom? depth text = some n) : 0 < n ∧ n ≤ text.length := by
  induction text generalizing depth n with
  | nil => simp [groupEndFrom?] at h
  | cons c rest ih =>
    have next : ∀ d : Int, (groupEndFrom? d rest).map (· + 1) = some n →
        0 < n ∧ n ≤ (c :: rest).length := by
      intro d hd
      obtain ⟨m, hm, rfl⟩ := Option.map_eq_some_iff.mp hd
      have := ih hm
      simp only [List.length_cons]
      omega
    rw [groupEndFrom?] at h
    split at h
    · exact next _ h
    · split at h
      · split at h
        · cases h
          simp
        · exact next _ h
      · exact next _ h

theorem groupEnd?_open (rest : Text) :
    groupEnd? ('{' :: rest) = (groupEndFrom? 1 rest).map (· + 1) := by
  simp [groupEnd?, groupEndFrom?]

/-- A way of finding where a group ends. The text given is the one after the opening brace, and
the answer is the number of characters from there up to the end of the group. A finder may remember
what it has read: a search takes the memory left by the searches before it. -/
structure GroupFinder where
  Memory : Type
  fresh : Memory
  find : Text → Memory → Option Nat × Memory

def GroupFinder.counting : GroupFinder where
  Memory := Unit
  fresh := ()
  find rest _ := (groupEndFrom? 1 rest, ())

end MathMarkup
