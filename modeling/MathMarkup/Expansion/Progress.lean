import MathMarkup.Expansion.Step

/-!
# Progress of expansion

Every step either pays for a splice or makes the markup shorter, and nothing gives splices back,
failed and refused attempts included. This is what makes expansion end.
-/

namespace MathMarkup

namespace Typesetter

variable {F : GroupFinder} (T : Typesetter)

theorem length_of_start? {c : Char} {rest : Text} {site : Site} {m : Macro} {after : Text}
    (h : T.start? c rest = some (site, m, after)) :
    after.length ≤ rest.length ∨ (after.length = rest.length + 1 ∧ m.takesArguments) := by
  rw [start?.eq_def] at h
  split at h
  · simp only [Option.bind_eq_bind, Option.bind_eq_some_iff, Option.pure_def, Option.some.injEq,
      Prod.mk.injEq, Prod.exists] at h
    obtain ⟨name, tail, hname, m', -, -, -, rfl⟩ := h
    exact .inl (Nat.le_of_lt (length_of_controlName? hname))
  · cases h
    exact .inl (Nat.le_refl _)
  · cases h
    exact .inl (Nat.le_refl _)
  · cases h
    exact .inr ⟨rfl, rfl⟩
  · cases h

theorem remaining_setArguments_le (nested : Nested F) (style : Style) (arguments : List Text)
    (s : ExpansionState F) :
    (T.setArguments nested style arguments s).2.remaining ≤ s.remaining := by
  induction arguments generalizing s with
  | nil => exact Nat.le_refl _
  | cons argument arguments ih =>
    have head := nested.remaining_le style argument s
    rw [setArguments]
    split
    · next h => rw [h] at head; exact head
    · next s' h =>
      rw [h] at head
      have tail := ih s'
      split
      · next ht => rw [ht] at tail; exact Nat.le_trans tail head
      · next ht => rw [ht] at tail; exact Nat.le_trans tail head

theorem remaining_takeArguments_le (nested : Nested F) (level : Nat) (style : Style) (site : Site)
    (f : FunctionMacro) (after : Text) (s : ExpansionState F) :
    (T.takeArguments nested level style site f after s).2.remaining ≤ s.remaining := by
  rw [takeArguments]
  obtain ⟨collected, memory⟩ := collectArguments F f.arity after (s.memory level)
  cases collected with
  | error before => exact Nat.le_refl _
  | ok found =>
    simp only
    split
    · have := T.remaining_setArguments_le nested (style.max f.style) found.1
        (s.setMemory level memory)
      split <;> next h => rw [h] at this; exact this
    · exact Nat.le_refl _

/-- The text after the arguments is a tail, and a shorter one if there are arguments to take. -/
theorem rest_of_takeArguments {nested : Nested F} {level : Nat} {style : Style} {site : Site}
    {f : FunctionMacro} {after : Text} {s s' : ExpansionState F} {arguments : List Text}
    {rest : Text}
    (h : T.takeArguments nested level style site f after s = (.ok (some (arguments, rest)), s')) :
    ∃ length, rest = after.drop length ∧ (0 < f.arity → 0 < length) := by
  rw [takeArguments] at h
  split at h
  next collected memory hcollected =>
  simp only at h
  split at h
  · cases h
  · next arguments' length =>
    refine ⟨length, ?_, fun harity => collectArguments_pos harity hcollected⟩
    split at h
    · split at h <;> cases h
      rfl
    · cases h
      rfl

theorem remaining_splice_le (site : Site) (text rest : Text) (s : ExpansionState F) :
    (splice site text rest s).2.remaining ≤ s.remaining := by
  have := s.remaining_spend_le site text
  rw [splice]
  split <;> next h => rw [h] at this; exact this

theorem remaining_splice_lt {site : Site} {text rest : Text} {s s' : ExpansionState F}
    {expanded : Option Expanded} (h : splice site text rest s = (.ok expanded, s')) :
    s'.remaining < s.remaining := by
  rw [splice] at h
  split at h <;> cases h
  next h => exact ExpansionState.remaining_spend_ok h

theorem remaining_call_le (site : Site) (f : FunctionMacro) (arguments : List Text) (rest : Text)
    (s : ExpansionState F) : (call site f arguments rest s).2.remaining ≤ s.remaining := by
  rw [call]
  split
  · exact Nat.le_refl _
  · exact remaining_splice_le site _ rest (s.record _)
  · exact Nat.le_refl _
  · exact Nat.le_refl _
  · exact Nat.le_refl _

theorem progress_call {site : Site} {f : FunctionMacro} {arguments : List Text} {rest : Text}
    {s s' : ExpansionState F} {expanded : Expanded}
    (h : call site f arguments rest s = (.ok (some expanded), s')) :
    s'.remaining < s.remaining ∨ expanded.rest = rest := by
  rw [call] at h
  split at h
  · cases h
    exact .inr rfl
  · exact .inl (remaining_splice_lt (s := s.record _) h)
  · cases h
  · cases h
  · cases h

theorem remaining_attempt_le (nested : Nested F) (level : Nat) (style : Style) (site : Site)
    (m : Macro) (after : Text) (s : ExpansionState F) :
    (T.attempt nested level style site m after s).2.remaining ≤ s.remaining := by
  rw [attempt.eq_def]
  split
  · exact Nat.le_refl _
  · exact remaining_splice_le site _ after s
  · next f =>
    have := T.remaining_takeArguments_le nested level style site f after s
    split
    · next h => rw [h] at this; exact this
    · next h => rw [h] at this; exact this
    · next h => rw [h] at this; exact Nat.le_trans (remaining_call_le site f _ _ _) this

/-- A macro that expands either pays for a splice, or goes on with a tail of the markup: a
shorter one if it takes arguments. -/
theorem progress_attempt {nested : Nested F} {level : Nat} {style : Style} {site : Site}
    {m : Macro} {after : Text} {s s' : ExpansionState F} {expanded : Expanded}
    (h : T.attempt nested level style site m after s = (.ok (some expanded), s')) :
    s'.remaining < s.remaining ∨
      ∃ length, expanded.rest = after.drop length ∧ (m.takesArguments → 0 < length) := by
  rw [attempt.eq_def] at h
  split at h
  · cases h
    exact .inr ⟨0, rfl, nofun⟩
  · exact .inl (remaining_splice_lt h)
  · next f =>
    have taken := T.remaining_takeArguments_le nested level style site f after s
    split at h
    · cases h
    · cases h
    · next arguments rest s'' ht =>
      rw [ht] at taken
      obtain ⟨length, hrest, hlength⟩ := T.rest_of_takeArguments ht
      rcases progress_call h with hlt | heq
      · exact .inl (Nat.lt_of_lt_of_le hlt taken)
      · exact .inr ⟨length, heq.trans hrest, fun hm => hlength (by
          simpa [Macro.takesArguments] using hm)⟩

theorem remaining_step_le (nested : Nested F) (level : Nat) (style : Style) (c : Char)
    (rest : Text) (s : ExpansionState F) :
    (T.step nested level style c rest s).2.remaining ≤ s.remaining := by
  rw [step]
  split
  · exact Nat.le_refl _
  · next site m after _ =>
    have := T.remaining_attempt_le nested level style site m after s
    simp only [expandMacro?]
    split <;> next h => split at h <;> cases h <;> next ha => rw [ha] at this; exact this

/-- A step pays for a splice or makes the markup shorter. -/
theorem step_decreases (nested : Nested F) (level : Nat) (style : Style) (c : Char) (rest : Text)
    (s : ExpansionState F) :
    (T.step nested level style c rest s).2.remaining < s.remaining ∨
      (T.step nested level style c rest s).1.rest.length < (c :: rest).length := by
  rw [step]
  split
  · exact .inr (Nat.lt_succ_self _)
  · next site m after hstart =>
    split
    · next expanded s' h =>
      rw [expandMacro?] at h
      split at h
      · next ha =>
        cases h
        rcases T.progress_attempt ha with hlt | ⟨length, hrest, hlength⟩
        · exact .inl hlt
        · right
          rw [hrest, List.length_drop, List.length_cons]
          rcases T.length_of_start? hstart with hle | ⟨heq, htakes⟩
          · omega
          · have := hlength htakes
            omega
      · cases h
    · exact .inr (Nat.lt_succ_self _)

end Typesetter

end MathMarkup
