import MathMarkup.Group
import Mathlib.Data.List.Infix
import Mathlib.Tactic.Lemma

/-!
# Counting braces

What one character does to a count, and what a text does to it that closes each group it opens:
inside a group such a text moves the end on by its own length. A text with as many closing braces as
opening ones, and nowhere more of them up to there, is one.
-/

namespace MathMarkup.Proofs

lemma groupEndFrom?_open (depth : Int) (rest : Text) :
    groupEndFrom? depth ('{' :: rest) = (groupEndFrom? (depth + 1) rest).map (· + 1) := by
  simp [groupEndFrom?]

lemma groupEndFrom?_close {depth : Int} (h : depth ≠ 1) (rest : Text) :
    groupEndFrom? depth ('}' :: rest) = (groupEndFrom? (depth - 1) rest).map (· + 1) := by
  simp [groupEndFrom?, h]

lemma groupEndFrom?_close_one (rest : Text) : groupEndFrom? 1 ('}' :: rest) = some 1 := by
  simp [groupEndFrom?]

lemma groupEndFrom?_of_not_brace {c : Char} (hopen : c ≠ '{') (hclose : c ≠ '}') (depth : Int)
    (rest : Text) : groupEndFrom? depth (c :: rest) = (groupEndFrom? depth rest).map (· + 1) := by
  simp [groupEndFrom?, hopen, hclose]

/-- A text that, inside a group, closes what it opens and no more. -/
def Neutral (text : Text) : Prop :=
  ∀ depth : Int, 1 ≤ depth → ∀ rest,
    groupEndFrom? depth (text ++ rest) = (groupEndFrom? depth rest).map (· + text.length)

lemma neutral_nil : Neutral [] := by
  intro depth _ rest
  simp

lemma neutral_singleton {c : Char} (hopen : c ≠ '{') (hclose : c ≠ '}') : Neutral [c] := by
  intro depth _ rest
  exact groupEndFrom?_of_not_brace hopen hclose depth rest

lemma Neutral.append {a b : Text} (ha : Neutral a) (hb : Neutral b) : Neutral (a ++ b) := by
  intro depth hdepth rest
  rw [List.append_assoc, ha depth hdepth, hb depth hdepth, Option.map_map, List.length_append]
  congr 1
  funext n
  simp only [Function.comp_apply]
  omega

lemma neutral_of_forall_mem {text : Text} (h : ∀ c ∈ text, c ≠ '{' ∧ c ≠ '}') : Neutral text := by
  induction text with
  | nil => exact neutral_nil
  | cons c text ih =>
    have hc := h c List.mem_cons_self
    exact (neutral_singleton hc.1 hc.2).append (ih fun d hd => h d (List.mem_cons_of_mem _ hd))

lemma Neutral.group {body : Text} (h : Neutral body) : Neutral ('{' :: (body ++ ['}'])) := by
  intro depth hdepth rest
  have hbody : '{' :: (body ++ ['}']) ++ rest = '{' :: (body ++ '}' :: rest) := by simp
  have hclose : groupEndFrom? (depth + 1) ('}' :: rest) =
      (groupEndFrom? depth rest).map (· + 1) := by
    rw [groupEndFrom?_close (by omega), Int.add_sub_cancel]
  rw [hbody, groupEndFrom?_open, h (depth + 1) (by omega), hclose, Option.map_map, Option.map_map]
  congr 1
  funext n
  simp only [Function.comp_apply, List.length_cons, List.length_append, List.length_nil]
  omega

lemma Neutral.groupEndFrom?_one {body : Text} (h : Neutral body) (rest : Text) :
    groupEndFrom? 1 (body ++ '}' :: rest) = some (body.length + 1) := by
  rw [h 1 (Int.le_refl 1), groupEndFrom?_close_one]
  simp [Nat.add_comm]

/-! ### Balanced texts -/

/-- The opening braces of a text less its closing ones. -/
def braceExcess (text : Text) : Int := text.count '{' - text.count '}'

/-- Every closing brace closes one that is opened before it, and none stays open. -/
def IsBalanced (text : Text) : Prop :=
  (∀ before ∈ text.inits, 0 ≤ braceExcess before) ∧ braceExcess text = 0

instance (text : Text) : Decidable (IsBalanced text) := inferInstanceAs (Decidable (_ ∧ _))

lemma braceExcess_open (text : Text) : braceExcess ('{' :: text) = braceExcess text + 1 := by
  simp [braceExcess]
  omega

lemma braceExcess_append (a b : Text) : braceExcess (a ++ b) = braceExcess a + braceExcess b := by
  simp only [braceExcess, List.count_append]
  omega

lemma braceExcess_cons (c : Char) (text : Text) :
    braceExcess (c :: text) = braceExcess [c] + braceExcess text :=
  braceExcess_append [c] text

lemma braceExcess_singleton (c : Char) :
    braceExcess [c] = if c = '{' then 1 else if c = '}' then -1 else 0 := by
  by_cases hopen : c = '{'
  · subst hopen
    rfl
  · by_cases hclose : c = '}'
    · subst hclose
      rfl
    · simp [braceExcess, hopen, hclose]

/-- One character shifts the count by its own excess, and counting ends where that brings it down
to zero. -/
lemma groupEndFrom?_cons {depth : Int} (hdepth : 1 ≤ depth) (c : Char) (rest : Text) :
    groupEndFrom? depth (c :: rest) =
      if depth + braceExcess [c] = 0 then some 1
      else (groupEndFrom? (depth + braceExcess [c]) rest).map (· + 1) := by
  rw [braceExcess_singleton]
  by_cases hopen : c = '{'
  · rw [if_pos hopen, if_neg (by omega), hopen, groupEndFrom?_open]
  · by_cases hclose : c = '}'
    · rw [if_neg hopen, if_pos hclose, hclose]
      by_cases hone : depth = 1
      · rw [if_pos (by omega), hone, groupEndFrom?_close_one]
      · rw [if_neg (by omega), groupEndFrom?_close hone]
        rfl
    · rw [if_neg hopen, if_neg hclose, Int.add_zero, if_neg (by omega),
        groupEndFrom?_of_not_brace hopen hclose]

/-- Counting ends where the count is down to zero for the first time. -/
lemma groupEndFrom?_eq_some_iff {depth : Int} (hdepth : 1 ≤ depth) (text : Text) (n : Nat) :
    groupEndFrom? depth text = some n ↔
      n ≤ text.length ∧ depth + braceExcess (text.take n) = 0 ∧
        ∀ m < n, 1 ≤ depth + braceExcess (text.take m) := by
  have hnil : braceExcess [] = 0 := rfl
  induction text generalizing depth n with
  | nil =>
    rw [List.take_nil, hnil]
    refine iff_of_false nofun ?_
    rintro ⟨-, hzero, -⟩
    omega
  | cons c rest ih =>
    cases n with
    | zero =>
      refine iff_of_false (fun h => absurd (groupEndFrom?_bounds h).1 (Nat.lt_irrefl 0)) ?_
      rintro ⟨-, hzero, -⟩
      rw [List.take_zero, hnil] at hzero
      omega
    | succ n =>
      have htake : ∀ m, depth + braceExcess ((c :: rest).take (m + 1)) =
          depth + braceExcess [c] + braceExcess (rest.take m) := by
        intro m
        rw [List.take_succ_cons, braceExcess_cons, Int.add_assoc]
      have hpos : (∀ m < n + 1, 1 ≤ depth + braceExcess ((c :: rest).take m)) ↔
          ∀ m < n, 1 ≤ depth + braceExcess [c] + braceExcess (rest.take m) := by
        simp only [Nat.forall_lt_succ_left, htake, List.take_zero, hnil, Int.add_zero, hdepth,
          true_and]
      have hfall : -1 ≤ braceExcess [c] := by
        rw [braceExcess_singleton]
        split_ifs <;> omega
      rw [groupEndFrom?_cons hdepth, htake, hpos, List.length_cons, Nat.add_le_add_iff_right]
      by_cases hzero : depth + braceExcess [c] = 0
      · rw [if_pos hzero, hzero]
        cases n with
        | zero => exact iff_of_true rfl ⟨Nat.zero_le _, rfl, nofun⟩
        | succ n =>
          refine iff_of_false nofun ?_
          rintro ⟨-, -, hrest⟩
          exact absurd (hrest 0 (Nat.succ_pos n)) (by simp [hnil])
      · have hnext : 1 ≤ depth + braceExcess [c] := by omega
        rw [if_neg hzero, Option.map_eq_some_iff]
        simp only [Nat.add_right_cancel_iff, exists_eq_right]
        exact ih hnext n

/-- While the count stays positive, counting goes on behind the text with what it has left. -/
lemma groupEndFrom?_append_of_pos {text : Text} {depth : Int}
    (h : ∀ before ∈ text.inits, 1 ≤ depth + braceExcess before) (rest : Text) :
    groupEndFrom? depth (text ++ rest) =
      (groupEndFrom? (depth + braceExcess text) rest).map (· + text.length) := by
  induction text generalizing depth with
  | nil => simp [braceExcess]
  | cons c text ih =>
    have hnil : braceExcess [] = 0 := rfl
    have hdepth := h [] (by simp)
    have hfirst := h [c] (by simp)
    have hlater : ∀ before ∈ text.inits, 1 ≤ depth + braceExcess [c] + braceExcess before := by
      intro before hbefore
      rw [Int.add_assoc, ← braceExcess_cons]
      exact h (c :: before) (by simpa using hbefore)
    rw [List.cons_append, groupEndFrom?_cons (by omega), if_neg (by omega), ih hlater,
      Option.map_map, braceExcess_cons c text, Int.add_assoc]
    rfl

lemma IsBalanced.neutral {text : Text} (h : IsBalanced text) : Neutral text := by
  intro depth hdepth rest
  have hpos : ∀ before ∈ text.inits, 1 ≤ depth + braceExcess before := by
    intro before hbefore
    have := h.1 before hbefore
    omega
  rw [groupEndFrom?_append_of_pos hpos, h.2, Int.add_zero]

/-- Inside a group, what counting goes through is balanced but for the brace at its end. -/
lemma exists_balanced_of_groupEndFrom? {rest : Text} {n : Nat}
    (h : groupEndFrom? 1 rest = some n) :
    ∃ content : Text, rest.take n = content ++ ['}'] ∧ IsBalanced content := by
  obtain ⟨hle, hzero, hpos⟩ := (groupEndFrom?_eq_some_iff (Int.le_refl 1) rest n).mp h
  obtain ⟨k, rfl⟩ := Nat.exists_eq_add_one_of_ne_zero (Nat.ne_of_gt (groupEndFrom?_bounds h).1)
  have hlast : rest.take (k + 1) = rest.take k ++ [rest[k]] := by
    rw [List.take_add_one, List.getElem?_eq_getElem (by omega), Option.toList_some]
  have hk := hpos k (Nat.lt_succ_self k)
  rw [hlast, braceExcess_append] at hzero
  -- The count is below zero for the first time, so the last character is what brings it there.
  have hclose : rest[k] = '}' := by
    by_contra hclose
    rw [braceExcess_singleton, if_neg hclose] at hzero
    split_ifs at hzero <;> omega
  have hfall : braceExcess ['}'] = -1 := rfl
  rw [hclose, hfall] at hzero
  refine ⟨rest.take k, by rw [hlast, hclose], ?_, by omega⟩
  intro before hbefore
  have hstart := (List.mem_inits _ _).mp hbefore
  have hlength : before.length ≤ k := hstart.length_le.trans (List.length_take_le k rest)
  have htake := List.prefix_iff_eq_take.mp (hstart.trans (List.take_prefix k rest))
  have hm := hpos before.length (by omega)
  rw [← htake] at hm
  omega

lemma IsBalanced.of_append {before text : Text} (h : IsBalanced (before ++ text))
    (hbefore : braceExcess before = 0) : IsBalanced text := by
  have hexcess : ∀ t, braceExcess (before ++ t) = braceExcess t := by
    intro t
    rw [braceExcess_append, hbefore, Int.zero_add]
  refine ⟨?_, hexcess text ▸ h.2⟩
  intro t ht
  rw [← hexcess]
  refine h.1 _ ((List.mem_inits _ _).mpr ?_)
  exact (List.prefix_append_right_inj before).mpr ((List.mem_inits _ _).mp ht)

end MathMarkup.Proofs
