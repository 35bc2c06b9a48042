import MathMarkup.Group

/-!
# Arguments

An argument of a macro is a brace group, a control sequence, or else one character, in each case
after any blanks. A control sequence is not followed by arguments of its own here. The end of an
argument is told as the number of characters up to it, so it is the same whatever comes before
the text. Scanning from an offset is scanning what the text has from there on.
-/

namespace MathMarkup

/-- The name of the control sequence whose backslash is right before the text, and the text after
the name: a maximal run of letters, or exactly one character that is no letter. -/
def controlName? : Text → Option (Text × Text)
  | [] => none
  | c :: rest =>
    if isLetter c then some (c :: rest.takeWhile isLetter, rest.dropWhile isLetter)
    else some ([c], rest)

theorem length_of_controlName? {text name rest : Text} (h : controlName? text = some (name, rest)) :
    rest.length < text.length := by
  cases text with
  | nil => simp [controlName?] at h
  | cons c cs =>
    rw [controlName?] at h
    split at h <;> cases h
    · have := List.Sublist.length_le (List.dropWhile_sublist (l := cs) isLetter)
      simp only [List.length_cons]
      omega
    · simp

/-- The length of the argument at the start of the text, the blanks before it included. -/
def argumentEnd? (F : GroupFinder) (text : Text) (memory : F.Memory) : Option Nat × F.Memory :=
  let blanks := (text.takeWhile isBlank).length
  match text.dropWhile isBlank with
  | [] => (none, memory)
  | '{' :: rest =>
    let (found, memory) := F.find rest memory
    (found.map (blanks + 1 + ·), memory)
  | '\\' :: rest =>
    match controlName? rest with
    | some (name, _) => (some (blanks + (1 + name.length)), memory)
    | none => (some (blanks + 1), memory)
  | _ :: _ => (some (blanks + 1), memory)

theorem argumentEnd?_pos {F : GroupFinder} {text : Text} {memory memory' : F.Memory} {n : Nat}
    (h : argumentEnd? F text memory = (some n, memory')) : 0 < n := by
  rw [argumentEnd?] at h
  split at h
  · cases h
  · obtain ⟨h, -⟩ := Prod.mk.inj h
    obtain ⟨m, -, rfl⟩ := Option.map_eq_some_iff.mp h
    omega
  · split at h <;> cases h <;> omega
  · cases h
    omega

/-- The argument that a scanned span stands for: a span in braces loses them, and blanks at the
start are dropped outside and inside. -/
def unwrap (span : Text) : Text :=
  let body := span.skipBlanks
  if body.head? = some '{' ∧ body.getLast? = some '}' then
    Text.skipBlanks body.tail.dropLast
  else body

/-- Scans as many arguments as asked for, one after the other. The result holds the arguments and
the length of the text they take up. If one of them is missing, the result is the length of the
text before it. -/
def collectArguments (F : GroupFinder) :
    Nat → Text → F.Memory → Except Nat (List Text × Nat) × F.Memory
  | 0, _, memory => (.ok ([], 0), memory)
  | count + 1, text, memory =>
    match argumentEnd? F text memory with
    | (none, memory) => (.error 0, memory)
    | (some length, memory) =>
      match collectArguments F count (text.drop length) memory with
      | (.error before, memory) => (.error (length + before), memory)
      | (.ok (arguments, total), memory) =>
        (.ok (unwrap (text.take length) :: arguments, length + total), memory)

def argumentEndAt? (F : GroupFinder) (text : Text) (offset : Nat) (memory : F.Memory) :
    Option Nat × F.Memory :=
  let (found, memory) := argumentEnd? F (text.drop offset) memory
  (found.map (offset + ·), memory)

/-- Scans arguments from an offset on. The result holds the arguments and the offset right after
them, or else the offset at which the missing argument would begin. -/
def collectArgumentsAt (F : GroupFinder) (count : Nat) (text : Text) (offset : Nat)
    (memory : F.Memory) : Except Nat (List Text × Nat) × F.Memory :=
  match collectArguments F count (text.drop offset) memory with
  | (.error before, memory) => (.error (offset + before), memory)
  | (.ok (arguments, length), memory) => (.ok (arguments, offset + length), memory)

theorem collectArguments_pos {F : GroupFinder} {count : Nat} {text : Text} {m m' : F.Memory}
    {arguments : List Text} {total : Nat} (hcount : 0 < count)
    (h : collectArguments F count text m = (.ok (arguments, total), m')) : 0 < total := by
  obtain ⟨count, rfl⟩ := Nat.exists_eq_add_one_of_ne_zero (Nat.ne_of_gt hcount)
  rw [collectArguments] at h
  split at h
  · cases h
  · next hscan =>
    have := argumentEnd?_pos hscan
    split at h <;> cases h
    omega

end MathMarkup
