import MathMarkup.Expansion
import Mathlib.Order.Basic
import Mathlib.Tactic.Lemma

/-!
# Expansion ends

A point of an expansion is markup at a depth, with the state it is expanded from. From a point the
loop goes on to the markup that a step leaves, and it enters the arguments that the step expands.
Either way the splices left, the levels left and the length of the markup go down, compared in this
order. So the recursion that neither counts levels nor measures anything comes to an end too, and
with the same result.
-/

namespace MathMarkup.Proofs

variable {F : GroupFinder}

/-- Markup that is about to be expanded at a depth. -/
structure Point (F : GroupFinder) where
  depth : Nat
  style : Style
  text : Text
  state : ExpansionState F

def Point.measure (T : Typesetter) (p : Point F) : Nat × Nat × Nat :=
  (p.state.remaining, T.settings.maxDepth + 1 - p.depth, p.text.length)

def Below : Nat × Nat × Nat → Nat × Nat × Nat → Prop :=
  Prod.Lex (· < ·) (Prod.Lex (· < ·) (· < ·))

lemma wellFounded_below : WellFounded Below :=
  (Prod.lex Nat.lt_wfRel (Prod.lex Nat.lt_wfRel Nat.lt_wfRel)).wf

def argumentEntries (nested : Nested F) (depth : Nat) (style : Style) :
    List Text → ExpansionState F → List (Point F)
  | [], _ => []
  | argument :: arguments, s =>
    ⟨depth, style, argument, s⟩ ::
      match nested.expand style argument s with
      | (.error _, _) => []
      | (.ok _, s) => argumentEntries nested depth style arguments s

/-- The points that a step at a depth enters: the arguments of the macro that it starts, if these
are expanded at all. -/
def stepEntries (T : Typesetter) (nested : Nested F) (level depth : Nat) (style : Style) (c : Char)
    (rest : Text) (s : ExpansionState F) : List (Point F) :=
  match T.start? c rest with
  | some (_, .function f, after) =>
    let (collected, memory) := collectArguments F f.arity after (s.memory level)
    match collected with
    | .error _ => []
    | .ok (arguments, _) =>
      if f.preparse then
        argumentEntries nested (depth + 1) (style.max f.style) arguments (s.setMemory level memory)
      else []
  | _ => []

def stepAt (T : Typesetter) (depth : Nat) (style : Style) (c : Char) (rest : Text)
    (s : ExpansionState F) : Expanded × ExpansionState F :=
  T.step (T.levels F (T.settings.maxDepth - depth)) (T.settings.maxDepth - depth) style c rest s

/-- Where an expansion goes from a point. -/
inductive Next (T : Typesetter) : Point F → Point F → Prop
  | iterate {depth : Nat} {style : Style} {c : Char} {rest : Text} {s : ExpansionState F}
      (hdepth : depth ≤ T.settings.maxDepth) :
      Next T ⟨depth, style, c :: rest, s⟩
        ⟨depth, style, (stepAt T depth style c rest s).1.rest, (stepAt T depth style c rest s).2⟩
  | enter {depth : Nat} {style : Style} {c : Char} {rest : Text} {s : ExpansionState F}
      {entry : Point F} (hdepth : depth ≤ T.settings.maxDepth)
      (hentry : entry ∈ stepEntries T (T.levels F (T.settings.maxDepth - depth))
        (T.settings.maxDepth - depth) depth style c rest s) :
      Next T ⟨depth, style, c :: rest, s⟩ entry

/-! ### Descent -/

lemma argumentEntries_le {nested : Nested F} {depth : Nat} {style : Style} {arguments : List Text}
    {s : ExpansionState F} {entry : Point F}
    (h : entry ∈ argumentEntries nested depth style arguments s) :
    entry.depth = depth ∧ entry.state.remaining ≤ s.remaining := by
  induction arguments generalizing s with
  | nil => cases h
  | cons argument arguments ih =>
    rw [argumentEntries, List.mem_cons] at h
    rcases h with rfl | h
    · exact ⟨rfl, Nat.le_refl _⟩
    · have hle := nested.remaining_le style argument s
      split at h
      · cases h
      · next tokens s' hexpand =>
        obtain ⟨hdepth, hentry⟩ := ih h
        rw [hexpand] at hle
        exact ⟨hdepth, Nat.le_trans hentry hle⟩

lemma stepEntries_le {T : Typesetter} {nested : Nested F} {level depth : Nat} {style : Style}
    {c : Char} {rest : Text} {s : ExpansionState F} {entry : Point F}
    (h : entry ∈ stepEntries T nested level depth style c rest s) :
    entry.depth = depth + 1 ∧ entry.state.remaining ≤ s.remaining := by
  unfold stepEntries at h
  split at h
  · split at h
    split at h
    · cases h
    · split at h
      · obtain ⟨hdepth, hle⟩ := argumentEntries_le h
        exact ⟨hdepth, hle⟩
      · cases h
  · cases h

section Below

variable {T : Typesetter} {depth : Nat} {style style' : Style} {text text' : Text}
  {s s' : ExpansionState F}

lemma below_of_deeper (hdepth : depth ≤ T.settings.maxDepth) (hle : s'.remaining ≤ s.remaining) :
    Below (Point.measure T ⟨depth + 1, style', text', s'⟩)
      (Point.measure T ⟨depth, style, text, s⟩) := by
  have hlevels : T.settings.maxDepth + 1 - (depth + 1) < T.settings.maxDepth + 1 - depth := by omega
  unfold Point.measure
  rcases Nat.lt_or_eq_of_le hle with hspent | hsame
  · exact Prod.Lex.left _ _ hspent
  · rw [hsame]
    exact Prod.Lex.right _ (Prod.Lex.left _ _ hlevels)

lemma below_of_progress (hle : s'.remaining ≤ s.remaining)
    (hprogress : s'.remaining < s.remaining ∨ text'.length < text.length) :
    Below (Point.measure T ⟨depth, style, text', s'⟩)
      (Point.measure T ⟨depth, style, text, s⟩) := by
  unfold Point.measure
  rcases Nat.lt_or_eq_of_le hle with hspent | hsame
  · exact Prod.Lex.left _ _ hspent
  · have hshorter : text'.length < text.length := hprogress.resolve_left (by omega)
    rw [hsame]
    exact Prod.Lex.right _ (Prod.Lex.right _ hshorter)

end Below

theorem below_of_next {T : Typesetter} {p q : Point F} (h : Next T p q) :
    Below (q.measure T) (p.measure T) := by
  cases h with
  | iterate hdepth => exact below_of_progress (T.remaining_step_le ..) (T.step_decreases ..)
  | enter hdepth hentry =>
    obtain ⟨depth', style', text', s'⟩ := q
    obtain ⟨rfl, hle⟩ := stepEntries_le hentry
    exact below_of_deeper hdepth hle

theorem wellFounded_next (T : Typesetter) : WellFounded fun q p : Point F => Next T p q :=
  Subrelation.wf below_of_next (InvImage.wf (Point.measure T) wellFounded_below)

/-! ### The recursion without a measure -/

section Congruence

variable (T : Typesetter) {nested nested' : Nested F}

lemma setArguments_congr (depth : Nat) (style : Style) (arguments : List Text)
    (s : ExpansionState F)
    (h : ∀ p ∈ argumentEntries nested depth style arguments s,
      nested'.expand p.style p.text p.state = nested.expand p.style p.text p.state) :
    T.setArguments nested' style arguments s = T.setArguments nested style arguments s := by
  induction arguments generalizing s with
  | nil => rfl
  | cons argument arguments ih =>
    have hfirst := h ⟨depth, style, argument, s⟩ List.mem_cons_self
    dsimp only at hfirst
    rw [Typesetter.setArguments, Typesetter.setArguments, hfirst]
    rcases hexpand : nested.expand style argument s with ⟨expanded, s'⟩
    cases expanded with
    | error refusal => rfl
    | ok tokens =>
      have hlater := ih s' (by
        intro p hp
        apply h p
        rw [argumentEntries, hexpand]
        exact List.mem_cons_of_mem _ hp)
      dsimp only
      rw [hlater]

lemma takeArguments_congr (level depth : Nat) (style : Style) (site : Site) (c : Char)
    (rest after : Text) (f : FunctionMacro) (s : ExpansionState F)
    (hstart : T.start? c rest = some (site, .function f, after))
    (h : ∀ p ∈ stepEntries T nested level depth style c rest s,
      nested'.expand p.style p.text p.state = nested.expand p.style p.text p.state) :
    T.takeArguments nested' level style site f after s =
      T.takeArguments nested level style site f after s := by
  unfold Typesetter.takeArguments
  unfold stepEntries at h
  rw [hstart] at h
  dsimp only at h
  rcases hcollect : collectArguments F f.arity after (s.memory level) with ⟨collected, memory⟩
  rw [hcollect] at h
  cases collected with
  | error before => rfl
  | ok found =>
    dsimp only at h ⊢
    split
    · next hpreparse =>
      rw [if_pos hpreparse] at h
      rw [setArguments_congr T (depth + 1) (style.max f.style) found.1 _ h]
    · rfl

/-- A step looks nested markup up at the points that it enters, and nowhere else. -/
theorem step_congr (level depth : Nat) (style : Style) (c : Char) (rest : Text)
    (s : ExpansionState F)
    (h : ∀ p ∈ stepEntries T nested level depth style c rest s,
      nested'.expand p.style p.text p.state = nested.expand p.style p.text p.state) :
    T.step nested' level style c rest s = T.step nested level style c rest s := by
  unfold Typesetter.step Typesetter.expandMacro? Typesetter.attempt
  cases hstart : T.start? c rest with
  | none => rfl
  | some start =>
    obtain ⟨site, m, after⟩ := start
    cases m with
    | token token => rfl
    | text text => rfl
    | function f =>
      dsimp only
      rw [takeArguments_congr T level depth style site c rest after f s hstart h]

end Congruence

/-- The recursion as it stands: it checks the depth and then goes through the markup step by step.
Each turn of the loop and each entry takes one unit of fuel; what happens when there is none left
is given from outside. -/
def expandWithin (T : Typesetter) (stuck : Nested F) : Nat → Nat → Nested F
  | 0, _ => stuck
  | fuel + 1, depth =>
    { expand := fun style text s =>
        if T.settings.maxDepth < depth then
          (.error .tooDeep, s.report (.tooDeep T.settings.maxDepth))
        else
          match text with
          | [] => (.ok [], s)
          | c :: rest =>
            let next := T.step (expandWithin T stuck fuel (depth + 1))
              (T.settings.maxDepth - depth) style c rest s
            match (expandWithin T stuck fuel depth).expand style next.1.rest next.2 with
            | (.error refusal, s) => (.error refusal, s)
            | (.ok tokens, s) => (.ok (next.1.tokens ++ tokens), s)
      remaining_le := by
        intro style text s
        split
        · exact Nat.le_refl _
        · cases text with
          | nil => exact Nat.le_refl _
          | cons c rest =>
            let next := T.step (expandWithin T stuck fuel (depth + 1))
              (T.settings.maxDepth - depth) style c rest s
            have hstep : next.2.remaining ≤ s.remaining := T.remaining_step_le _ _ style c rest s
            have hlater := (expandWithin T stuck fuel depth).remaining_le style next.1.rest next.2
            dsimp only
            split <;> next heq => rw [heq] at hlater; exact Nat.le_trans hlater hstep }

lemma exists_bound {α : Type} {P : α → Nat → Prop} (xs : List α)
    (h : ∀ x ∈ xs, ∃ bound, ∀ n, bound ≤ n → P x n) :
    ∃ bound, ∀ x ∈ xs, ∀ n, bound ≤ n → P x n := by
  induction xs with
  | nil => exact ⟨0, by simp⟩
  | cons x xs ih =>
    obtain ⟨b, hb⟩ := h x List.mem_cons_self
    obtain ⟨b', hb'⟩ := ih fun y hy => h y (List.mem_cons_of_mem _ hy)
    refine ⟨max b b', ?_⟩
    intro y hy n hn
    rcases List.mem_cons.mp hy with rfl | hy
    · exact hb n (by omega)
    · exact hb' y hy n (by omega)

lemma finite_next (T : Typesetter) (p : Point F) :
    ∃ qs : List (Point F), ∀ q, Next T p q → q ∈ qs := by
  obtain ⟨depth, style, text, s⟩ := p
  cases text with
  | nil => exact ⟨[], nofun⟩
  | cons c rest =>
    let next := stepAt T depth style c rest s
    refine ⟨⟨depth, style, next.1.rest, next.2⟩ :: stepEntries T
      (T.levels F (T.settings.maxDepth - depth)) (T.settings.maxDepth - depth) depth style c rest s,
      ?_⟩
    intro q h
    cases h with
    | iterate hdepth => exact List.mem_cons_self
    | enter hdepth hentry => exact List.mem_cons_of_mem _ hentry

/-- What holds of a point with one unit of fuel more than it takes at all points that come next
holds of every point with enough fuel. -/
lemma eventually_of_next {T : Typesetter} {P : Point F → Nat → Prop}
    (hturn : ∀ p fuel, (∀ q, Next T p q → P q fuel) → P p (fuel + 1)) (p : Point F) :
    ∃ bound, ∀ fuel, bound ≤ fuel → P p fuel := by
  induction p using (wellFounded_next T).induction with
  | _ p ih =>
    obtain ⟨qs, hqs⟩ := finite_next T p
    have hafter : ∀ q ∈ qs, ∃ bound, ∀ fuel, bound ≤ fuel → Next T p q → P q fuel := by
      intro q _
      by_cases hnext : Next T p q
      · obtain ⟨bound, hbound⟩ := ih q hnext
        exact ⟨bound, fun fuel hfuel _ => hbound fuel hfuel⟩
      · exact ⟨0, fun _ _ h => absurd h hnext⟩
    obtain ⟨bound, hbound⟩ := exists_bound qs hafter
    refine ⟨bound + 1, ?_⟩
    intro fuel hfuel
    obtain ⟨fuel, rfl⟩ : ∃ n, fuel = n + 1 := ⟨fuel - 1, by omega⟩
    exact hturn p fuel fun q hnext => hbound q (hqs q hnext) fuel (by omega) hnext

lemma levels_expand (T : Typesetter) (p : Point F) :
    (T.levels F (T.settings.maxDepth + 1 - p.depth)).expand p.style p.text p.state =
      if T.settings.maxDepth < p.depth then
        (.error .tooDeep, p.state.report (.tooDeep T.settings.maxDepth))
      else
        let expanded := T.expandAll (T.levels F (T.settings.maxDepth - p.depth))
          (T.settings.maxDepth - p.depth) p.style p.text p.state
        (.ok expanded.1, expanded.2) := by
  by_cases hdepth : T.settings.maxDepth < p.depth
  · have hlevels : T.settings.maxDepth + 1 - p.depth = 0 := by omega
    rw [if_pos hdepth, hlevels]
    rfl
  · have hlevels : T.settings.maxDepth + 1 - p.depth = T.settings.maxDepth - p.depth + 1 := by
      omega
    rw [if_neg hdepth, hlevels]
    rfl

/-- One turn of the loop, with enough fuel for what is left and for all it enters. -/
lemma expandWithin_succ {T : Typesetter} {stuck : Nested F} {fuel : Nat} {p : Point F}
    (hnext : ∀ q, Next T p q → (expandWithin T stuck fuel q.depth).expand q.style q.text q.state =
      (T.levels F (T.settings.maxDepth + 1 - q.depth)).expand q.style q.text q.state) :
    (expandWithin T stuck (fuel + 1) p.depth).expand p.style p.text p.state =
      (T.levels F (T.settings.maxDepth + 1 - p.depth)).expand p.style p.text p.state := by
  obtain ⟨depth, style, text, s⟩ := p
  rw [levels_expand]
  dsimp only
  by_cases hdepth : T.settings.maxDepth < depth
  · simp only [expandWithin, if_pos hdepth]
  · cases text with
    | nil => simp only [expandWithin, if_neg hdepth, Typesetter.expandAll]
    | cons c rest =>
      have hle : depth ≤ T.settings.maxDepth := Nat.le_of_not_lt hdepth
      have hstep : T.step (expandWithin T stuck fuel (depth + 1)) (T.settings.maxDepth - depth)
          style c rest s = stepAt T depth style c rest s := by
        refine step_congr T _ depth style c rest s ?_
        intro entry hentry
        have hanswer := hnext entry (Next.enter hle hentry)
        have hlevels : T.settings.maxDepth + 1 - (depth + 1) = T.settings.maxDepth - depth := by
          omega
        rw [(stepEntries_le hentry).1, hlevels] at hanswer
        exact hanswer
      have hrest := hnext _ (Next.iterate hle)
      rw [levels_expand] at hrest
      dsimp only at hrest
      rw [if_neg hdepth] at hrest
      simp only [expandWithin, if_neg hdepth, hstep, hrest, Typesetter.expandAll]
      rfl

theorem expandWithin_eventually (T : Typesetter) (p : Point F) :
    ∃ bound, ∀ fuel, bound ≤ fuel → ∀ stuck,
      (expandWithin T stuck fuel p.depth).expand p.style p.text p.state =
        (T.levels F (T.settings.maxDepth + 1 - p.depth)).expand p.style p.text p.state := by
  apply eventually_of_next (T := T) (P := fun p fuel => ∀ stuck : Nested F,
    (expandWithin T stuck fuel p.depth).expand p.style p.text p.state =
      (T.levels F (T.settings.maxDepth + 1 - p.depth)).expand p.style p.text p.state)
  intro p fuel hnext stuck
  exact expandWithin_succ fun q hq => hnext q hq stuck

/-- Expansion ends, for any macros and any ceilings. Wherever it goes from a point, it does so at
no depth beyond the ceiling and with a smaller triple; beyond the ceiling it is refused at once; no
sequence of points goes on for ever; and the recursion that measures nothing arrives at the result
of `levels`. What a handler answers is taken to depend on its arguments alone; handlers that answer
differently each time are dealt with in `MathMarkup.Proofs.Raising`. -/
theorem expansion_ends (T : Typesetter) (F : GroupFinder) :
    (∀ p q : Point F, Next T p q →
      p.depth ≤ T.settings.maxDepth ∧ Below (q.measure T) (p.measure T)) ∧
    (∀ p : Point F, T.settings.maxDepth < p.depth →
      (T.levels F (T.settings.maxDepth + 1 - p.depth)).expand p.style p.text p.state =
        (.error .tooDeep, p.state.report (.tooDeep T.settings.maxDepth))) ∧
    (WellFounded fun q p : Point F => Next T p q) ∧
    ∀ p : Point F, ∃ bound, ∀ fuel, bound ≤ fuel → ∀ stuck,
      (expandWithin T stuck fuel p.depth).expand p.style p.text p.state =
        (T.levels F (T.settings.maxDepth + 1 - p.depth)).expand p.style p.text p.state := by
  refine ⟨?_, ?_, wellFounded_next T, expandWithin_eventually T⟩
  · intro p q h
    refine ⟨?_, below_of_next h⟩
    cases h with
    | iterate hdepth => exact hdepth
    | enter hdepth _ => exact hdepth
  · intro p hdepth
    rw [levels_expand, if_pos hdepth]

end MathMarkup.Proofs
