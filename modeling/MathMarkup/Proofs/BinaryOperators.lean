import MathMarkup.Proofs.InPlace

/-!
# Binary operators by two rules

The pass over binary operators looks to both sides at once. It comes to two rules that look to one
side each. From left to right, an operator becomes ordinary unless the atom before it is an operand
by then. After that, an operator becomes ordinary if nothing follows it, or a relation, a closing or
punctuation does.
-/

namespace MathMarkup

/-- The class of the atom at an index by the rule that looks to the left. -/
def classFromLeft? (atoms : List Token) : Nat → Option AtomClass
  | 0 => atoms[0]?.map fun t => if t.atom = .bin then .ord else t.atom
  | i + 1 => atoms[i + 1]?.map fun t =>
      if t.atom = .bin ∧ classFromLeft? atoms i ∉ [some .ord, some .closing] then .ord else t.atom

/-- The class of the atom at an index by both rules. -/
def classByTwoRules? (atoms : List Token) (i : Nat) : Option AtomClass :=
  (classFromLeft? atoms i).map fun c =>
    if c = .bin ∧ atoms[i + 1]?.map Token.atom ∈ [none, some .rel, some .closing, some .punct]
    then .ord
    else c

namespace Proofs

/-! ### The rules as passes -/

/-- An atom by the rule that looks to the left, with the class that the atom before it has by
then. -/
def settledAfter (left : Option AtomClass) (t : Token) : Token :=
  if t.atom = .bin ∧ ¬ left.any AtomClass.isOperand then t.asOrd else t

def settleFromLeft (left : Option AtomClass) : List Token → List Token
  | [] => []
  | t :: ts => settledAfter left t :: settleFromLeft (some (settledAfter left t).atom) ts

/-- An atom by the rule that looks to the right. -/
def settledBefore (right : Option Token) (t : Token) : Token :=
  if t.atom = .bin ∧ right.all fun next => next.atom.endsOperation then t.asOrd else t

def settleFromRight : List Token → List Token
  | [] => []
  | t :: ts => settledBefore ts.head? t :: settleFromRight ts

@[simp] lemma text_settledAfter (left : Option AtomClass) (t : Token) :
    (settledAfter left t).text = t.text := by
  unfold settledAfter
  split <;> rfl

@[simp] lemma text_settledBefore (right : Option Token) (t : Token) :
    (settledBefore right t).text = t.text := by
  unfold settledBefore
  split <;> rfl

@[simp] lemma endsOperation_settledAfter (left : Option AtomClass) (t : Token) :
    (settledAfter left t).atom.endsOperation = t.atom.endsOperation := by
  unfold settledAfter
  split
  · next h =>
    rw [h.1]
    rfl
  · rfl

lemma settledBefore_of_not_ends {right : Token} (h : right.atom.endsOperation = false) (t : Token) :
    settledBefore (some right) t = t := by
  simp [settledBefore, h]

lemma settledBefore_of_ne_bin {t : Token} (h : t.atom ≠ .bin) (right : Option Token) :
    settledBefore right t = t := by
  simp [settledBefore, h]

lemma settleLatest_cons (latest : Token) (before : List Token) :
    settleLatest (latest :: before) = settledBefore none latest :: before := by
  simp [settleLatest, settledBefore]

/-- The atom that is read settles the one before it, and nothing before that one. -/
lemma coerceBins_cons (latest : Token) (before tokens : List Token) :
    coerceBins (latest :: before) tokens =
      before.reverse ++ settleFromRight (latest :: settleFromLeft (some latest.atom) tokens) := by
  induction tokens generalizing latest before with
  | nil =>
    rw [coerceBins, settleLatest_cons, List.reverse_cons]
    rfl
  | cons t tokens ih =>
    rw [coerceBins, settleFromLeft, settleFromRight, List.head?_cons, List.head?_cons,
      Option.any_some]
    by_cases hbin : t.atom = .bin ∧ ¬ latest.atom.isOperand
    · have hsettled : settledAfter (some latest.atom) t = t.asOrd := if_pos hbin
      rw [if_pos hbin, ih, hsettled, settledBefore_of_not_ends rfl]
      simp
    · have hsettled : settledAfter (some latest.atom) t = t := if_neg hbin
      rw [if_neg hbin, hsettled]
      by_cases hends : t.atom.endsOperation = true
      · have hlatest : settledBefore (some t) latest = settledBefore none latest := by
          simp [settledBefore, hends]
        rw [if_pos hends, settleLatest_cons, ih, hlatest]
        simp
      · rw [if_neg hends, ih, settledBefore_of_not_ends (Bool.eq_false_iff.mpr hends)]
        simp

theorem coerceBins_eq_rules (atoms : List Token) :
    coerceBins [] atoms = settleFromRight (settleFromLeft none atoms) := by
  cases atoms with
  | nil => rfl
  | cons t atoms =>
    rw [coerceBins, settleFromLeft]
    by_cases hbin : t.atom = .bin
    · have hsettled : settledAfter none t = t.asOrd := if_pos ⟨hbin, by simp⟩
      rw [if_pos ⟨hbin, by simp⟩, coerceBins_cons, hsettled]
      rfl
    · have hsettled : settledAfter none t = t := if_neg fun h => hbin h.1
      have hsame : coerceBins (t :: settleLatest []) atoms = coerceBins [t] atoms := rfl
      rw [if_neg fun h => hbin h.1, hsame, ite_self, coerceBins_cons, hsettled]
      rfl

/-! ### The rules by index -/

lemma getElem?_settleFromRight (atoms : List Token) (i : Nat) :
    (settleFromRight atoms)[i]? = atoms[i]?.map (settledBefore atoms[i + 1]?) := by
  induction atoms generalizing i with
  | nil => rfl
  | cons t atoms ih =>
    cases i with
    | zero => simp [settleFromRight, List.head?_eq_getElem?]
    | succ i => simp [settleFromRight, ih]

lemma getElem?_settleFromLeft_succ (left : Option AtomClass) (atoms : List Token) (i : Nat) :
    (settleFromLeft left atoms)[i + 1]? =
      atoms[i + 1]?.map (settledAfter ((settleFromLeft left atoms)[i]?.map Token.atom)) := by
  induction atoms generalizing left i with
  | nil => rfl
  | cons t atoms ih =>
    cases i with
    | zero => cases atoms <;> rfl
    | succ i => simpa [settleFromLeft] using ih _ i

lemma atom_settledAfter (left : Option AtomClass) (t : Token) :
    (settledAfter left t).atom =
      if t.atom = .bin ∧ left ∉ [some .ord, some .closing] then .ord else t.atom := by
  have hoperand : ¬ left.any AtomClass.isOperand ↔ left ∉ [some .ord, some .closing] := by
    cases left with
    | none => simp
    | some c => cases c <;> decide
  unfold settledAfter
  rw [apply_ite Token.atom]
  simp only [hoperand]
  rfl

lemma classFromLeft?_eq (atoms : List Token) (i : Nat) :
    classFromLeft? atoms i = (settleFromLeft none atoms)[i]?.map Token.atom := by
  induction i with
  | zero =>
    cases atoms with
    | nil => rfl
    | cons t atoms => simp [classFromLeft?, settleFromLeft, atom_settledAfter]
  | succ i ih =>
    rw [classFromLeft?, getElem?_settleFromLeft_succ, ← ih, Option.map_map]
    congr 1
    funext t
    exact (atom_settledAfter _ t).symm

/-- What the second rule looks at is as it was before the first one. -/
lemma all_endsOperation_settleFromLeft (atoms : List Token) (i : Nat) :
    ((settleFromLeft none atoms)[i]?.all fun next => next.atom.endsOperation) =
      atoms[i]?.all fun next => next.atom.endsOperation := by
  cases i with
  | zero => cases atoms <;> simp [settleFromLeft]
  | succ i =>
    rw [getElem?_settleFromLeft_succ]
    cases atoms[i + 1]? <;> simp

lemma all_endsOperation_iff (next : Option Token) :
    (next.all fun next => next.atom.endsOperation) = true ↔
      next.map Token.atom ∈ [none, some .rel, some .closing, some .punct] := by
  cases next with
  | none => simp
  | some next => cases hatom : next.atom <;> simp [hatom, AtomClass.endsOperation]

lemma text_settleFromLeft (left : Option AtomClass) (atoms : List Token) :
    (settleFromLeft left atoms).map Token.text = atoms.map Token.text := by
  induction atoms generalizing left with
  | nil => rfl
  | cons t atoms ih => simp [settleFromLeft, ih]

lemma text_settleFromRight (atoms : List Token) :
    (settleFromRight atoms).map Token.text = atoms.map Token.text := by
  induction atoms with
  | nil => rfl
  | cons t atoms ih => simp [settleFromRight, ih]

lemma atom_coerceBins (atoms : List Token) (i : Nat) :
    (coerceBins [] atoms)[i]?.map Token.atom = classByTwoRules? atoms i := by
  rw [coerceBins_eq_rules, getElem?_settleFromRight, Option.map_map, classByTwoRules?,
    classFromLeft?_eq, Option.map_map]
  congr 1
  funext t
  simp only [Function.comp_apply, settledBefore, apply_ite Token.atom,
    all_endsOperation_settleFromLeft, all_endsOperation_iff]
  rfl

lemma text_coerceBins (atoms : List Token) :
    (coerceBins [] atoms).map Token.text = atoms.map Token.text := by
  rw [coerceBins_eq_rules, text_settleFromRight, text_settleFromLeft]

/-! ### Operators that stay -/

lemma ite_eq_bin_iff (c : AtomClass) (p : Prop) [Decidable p] :
    (if c = .bin ∧ p then AtomClass.ord else c) = .bin ↔ c = .bin ∧ ¬ p := by
  by_cases hc : c = .bin <;> by_cases hp : p <;> simp [hc, hp]

lemma classFromLeft?_eq_bin_iff (atoms : List Token) (i : Nat) :
    classFromLeft? atoms i = some .bin ↔
      atoms[i]?.map Token.atom = some .bin ∧
        ∃ j, i = j + 1 ∧ classFromLeft? atoms j ∈ [some .ord, some .closing] := by
  cases i with
  | zero =>
    rw [classFromLeft?]
    cases atoms[0]? with
    | none => simp
    | some t => by_cases hbin : t.atom = .bin <;> simp [hbin]
  | succ i =>
    rw [classFromLeft?]
    cases atoms[i + 1]? with
    | none => simp
    | some t =>
      rw [Option.map_some, Option.map_some, Option.some.injEq, Option.some.injEq, ite_eq_bin_iff,
        Classical.not_not]
      simp

lemma classByTwoRules?_eq_bin_iff (atoms : List Token) (i : Nat) :
    classByTwoRules? atoms i = some .bin ↔
      classFromLeft? atoms i = some .bin ∧
        atoms[i + 1]?.map Token.atom ∉ [none, some .rel, some .closing, some .punct] := by
  rw [classByTwoRules?]
  cases classFromLeft? atoms i with
  | none => simp
  | some c => rw [Option.map_some, Option.some.injEq, Option.some.injEq, ite_eq_bin_iff]

/-- The pass that changes the atoms where they stand comes to the two rules, texts are as they were,
and an operator stays one if an operand is before it and something that can follow it after it. -/
theorem binary_operators_by_two_rules (atoms : List Token) :
    let settled := coerceBins [] atoms
    coerceBinsInPlace atoms = .ok settled ∧
      settled.map Token.text = atoms.map Token.text ∧
      (∀ i, settled[i]?.map Token.atom = classByTwoRules? atoms i) ∧
      ∀ i, settled[i]?.map Token.atom = some .bin ↔
        atoms[i]?.map Token.atom = some .bin ∧
          (∃ j, i = j + 1 ∧ classFromLeft? atoms j ∈ [some .ord, some .closing]) ∧
          atoms[i + 1]?.map Token.atom ∉ [none, some .rel, some .closing, some .punct] := by
  intro settled
  refine ⟨coerceBinsInPlace_eq atoms, text_coerceBins atoms, atom_coerceBins atoms, ?_⟩
  intro i
  rw [atom_coerceBins, classByTwoRules?_eq_bin_iff, classFromLeft?_eq_bin_iff, and_assoc]

/-- Of a run of operators every other one stays, but not one that a closing follows. -/
example : (coerceBins [] [⟨.ord, ['a']⟩, ⟨.bin, ['+']⟩, ⟨.bin, ['+']⟩, ⟨.bin, ['+']⟩,
    ⟨.closing, [')']⟩]).map Token.atom = [.ord, .bin, .ord, .ord, .closing] := by
  decide

end Proofs

end MathMarkup
