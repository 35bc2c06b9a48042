import MathMarkup.Proofs.Descent
import MathMarkup.Proofs.Invariant
import Mathlib.Logic.Relation

/-!
# The moments of an expansion

An expansion goes through states on its way: one at each point of the loop and at each entry to an
argument, and within a step one when the arguments are found, one when they are set and one when
the handler is called. What every expansion keeps holds at each of these moments, and what has
happened by then is the beginning of what happens in all.
-/

namespace MathMarkup.Proofs

variable {F : GroupFinder}

/-- The states within a step that starts a function. -/
def stepMoments (T : Typesetter) (nested : Nested F) (level : Nat) (style : Style) (c : Char)
    (rest : Text) (s : ExpansionState F) : List (ExpansionState F) :=
  match T.start? c rest with
  | some (site, .function f, after) =>
    let found := s.setMemory level (collectArguments F f.arity after (s.memory level)).2
    match T.takeArguments nested level style site f after s with
    | (.ok (some (arguments, _)), taken) => [found, taken, taken.record (.called site arguments)]
    | (_, taken) => [found, taken]
  | _ => []

/-- A state that an expansion from a point goes through. -/
inductive Moment (T : Typesetter) (start : Point F) : ExpansionState F → Prop
  | between {p : Point F} (hreach : Relation.ReflTransGen (Next T) start p) :
      Moment T start p.state
  | within {depth : Nat} {style : Style} {c : Char} {rest : Text} {s s' : ExpansionState F}
      (hreach : Relation.ReflTransGen (Next T) start ⟨depth, style, c :: rest, s⟩)
      (hdepth : depth ≤ T.settings.maxDepth)
      (hmoment : s' ∈ stepMoments T (T.levels F (T.settings.maxDepth - depth))
        (T.settings.maxDepth - depth) style c rest s) :
      Moment T start s'

/-- The state in which the expansion from a point ends. -/
def Point.final (T : Typesetter) (p : Point F) : ExpansionState F :=
  ((T.levels F (T.settings.maxDepth + 1 - p.depth)).expand p.style p.text p.state).2

/-! ### Invariants hold at every moment -/

namespace Invariant

variable {I : Invariant F} {T : Typesetter} {nested : Nested F} {s : ExpansionState F}

lemma argumentEntries (hn : I.KeptBy nested) {depth : Nat} {style : Style}
    {arguments : List Text} (h : I.Holds s) {entry : Point F}
    (hentry : entry ∈ argumentEntries nested depth style arguments s) : I.Holds entry.state := by
  induction arguments generalizing s with
  | nil => cases hentry
  | cons argument arguments ih =>
    rw [Proofs.argumentEntries, List.mem_cons] at hentry
    rcases hentry with rfl | hentry
    · exact h
    · have hfirst := hn style argument s h
      split at hentry
      · cases hentry
      · next tokens s₁ hexpand =>
        rw [hexpand] at hfirst
        exact ih hfirst hentry

lemma stepEntries (hn : I.KeptBy nested) {level depth : Nat} {style : Style} {c : Char}
    {rest : Text} (h : I.Holds s) {entry : Point F}
    (hentry : entry ∈ stepEntries T nested level depth style c rest s) : I.Holds entry.state := by
  unfold Proofs.stepEntries at hentry
  split at hentry
  · next site f after _ =>
    have hfound := I.collect level f.arity after h
    rcases hcollect : collectArguments F f.arity after (s.memory level) with ⟨collected, memory⟩
    rw [hcollect] at hentry hfound
    dsimp only at hentry
    split at hentry
    · cases hentry
    · split at hentry
      · exact argumentEntries hn hfound hentry
      · cases hentry
  · cases hentry

lemma stepMoments (hn : I.KeptBy nested) {level : Nat} {style : Style} {c : Char} {rest : Text}
    (h : I.Holds s) {s' : ExpansionState F}
    (hmoment : s' ∈ stepMoments T nested level style c rest s) : I.Holds s' := by
  unfold Proofs.stepMoments at hmoment
  split at hmoment
  · next site f after _ =>
    have hfound := I.collect level f.arity after h
    have htaken := takeArguments T hn level style site f after h
    dsimp only at hmoment
    split at hmoment
    · next arguments rest' taken heq =>
      rw [heq] at htaken
      simp only [List.mem_cons, List.not_mem_nil, or_false] at hmoment
      rcases hmoment with rfl | rfl | rfl
      · exact hfound
      · exact htaken
      · exact I.record _ rfl htaken
    · next taken heq =>
      rw [heq] at htaken
      simp only [List.mem_cons, List.not_mem_nil, or_false] at hmoment
      rcases hmoment with rfl | rfl
      · exact hfound
      · exact htaken
  · cases hmoment

lemma next {p q : Point F} (hnext : Next T p q) (h : I.Holds p.state) : I.Holds q.state := by
  cases hnext with
  | iterate hdepth => exact step T (I.levels T _) _ _ _ _ h
  | enter hdepth hentry => exact stepEntries (I.levels T _) h hentry

lemma reached {p q : Point F} (hreach : Relation.ReflTransGen (Next T) p q)
    (h : I.Holds p.state) : I.Holds q.state := by
  induction hreach with
  | refl => exact h
  | tail _ hnext ih => exact next hnext ih

theorem moment {start : Point F} (hmoment : Moment T start s) (h : I.Holds start.state) :
    I.Holds s := by
  cases hmoment with
  | between hreach => exact reached hreach h
  | within hreach hdepth hmoment => exact stepMoments (I.levels T _) (reached hreach h) hmoment

end Invariant

/-! ### A moment's history is the beginning of the whole -/

section History

variable {T : Typesetter} {nested : Nested F} {s : ExpansionState F}

lemma events_suffix_expand (T : Typesetter) (level : Nat) (style : Style) (text : Text)
    (s : ExpansionState F) : s.events <:+ ((T.levels F level).expand style text s).2.events :=
  (extending F s.events).levels T level style text s List.suffix_rfl

lemma events_suffix_setArguments (hn : ∀ past, (extending F past).KeptBy nested) {depth : Nat}
    {style : Style} {arguments : List Text} {entry : Point F}
    (hentry : entry ∈ argumentEntries nested depth style arguments s) :
    (nested.expand entry.style entry.text entry.state).2.events <:+
      (T.setArguments nested style arguments s).2.events := by
  induction arguments generalizing s with
  | nil => cases hentry
  | cons argument arguments ih =>
    rw [argumentEntries, List.mem_cons] at hentry
    rw [Typesetter.setArguments]
    rcases hexpand : nested.expand style argument s with ⟨expanded, s₁⟩
    rw [hexpand] at hentry
    cases expanded with
    | error refusal =>
      rcases hentry with rfl | hentry
      · rewrite [hexpand]
        exact List.suffix_rfl
      · cases hentry
    | ok tokens =>
      have hlater : (nested.expand entry.style entry.text entry.state).2.events <:+
          (T.setArguments nested style arguments s₁).2.events := by
        rcases hentry with rfl | hentry
        · rw [hexpand]
          exact Invariant.setArguments T (hn s₁.events) style arguments List.suffix_rfl
        · exact ih hentry
      dsimp only
      split <;> next heq => rw [heq] at hlater; exact hlater

lemma events_suffix_attempt (T : Typesetter) (nested : Nested F) (level : Nat) (style : Style)
    (site : Site) (f : FunctionMacro) (after : Text) (s : ExpansionState F) :
    (T.takeArguments nested level style site f after s).2.events <:+
      (T.attempt nested level style site (.function f) after s).2.events :=
  Invariant.attempt_of_taken (I := extending F _) T List.suffix_rfl

lemma events_suffix_step_of_entry (hn : ∀ past, (extending F past).KeptBy nested)
    {level depth : Nat} {style : Style} {c : Char} {rest : Text} {entry : Point F}
    (hentry : entry ∈ stepEntries T nested level depth style c rest s) :
    (nested.expand entry.style entry.text entry.state).2.events <:+
      (T.step nested level style c rest s).2.events := by
  unfold stepEntries at hentry
  split at hentry
  · next site f after hstart =>
    rw [state_step T hstart]
    refine List.IsSuffix.trans ?_ (events_suffix_attempt T nested level style site f after s)
    unfold Typesetter.takeArguments
    rcases hcollect : collectArguments F f.arity after (s.memory level) with ⟨collected, memory⟩
    rw [hcollect] at hentry
    dsimp only at hentry ⊢
    split at hentry
    · cases hentry
    · split at hentry
      · next arguments length hpreparse =>
        have hset := events_suffix_setArguments (T := T) hn hentry
        simp only [if_pos hpreparse]
        split <;> next heq => rw [heq] at hset; exact hset
      · cases hentry
  · cases hentry

lemma events_suffix_step_of_moment (hn : ∀ past, (extending F past).KeptBy nested)
    {level : Nat} {style : Style} {c : Char} {rest : Text} {s' : ExpansionState F}
    (hmoment : s' ∈ stepMoments T nested level style c rest s) :
    s'.events <:+ (T.step nested level style c rest s).2.events := by
  unfold stepMoments at hmoment
  split at hmoment
  · next site f after hstart =>
    have htaken := Invariant.takeArguments (I := extending F s.events) T (hn _) level style site f
      after List.suffix_rfl
    have hattempt := events_suffix_attempt T nested level style site f after s
    rw [state_step T hstart]
    dsimp only at hmoment
    split at hmoment
    · next arguments rest' taken heq =>
      have hcalled : (taken.record (.called site arguments)).events <:+
          (Typesetter.call site f arguments rest' taken).2.events :=
        Invariant.call_of_called (I := extending F _) rest' List.suffix_rfl
      rw [heq] at htaken hattempt
      simp only [List.mem_cons, List.not_mem_nil, or_false] at hmoment
      rcases hmoment with rfl | rfl | rfl
      · exact htaken.trans hattempt
      · exact hattempt
      · rw [Typesetter.attempt, heq]
        exact hcalled
    · next taken heq =>
      rw [heq] at htaken hattempt
      simp only [List.mem_cons, List.not_mem_nil, or_false] at hmoment
      rcases hmoment with rfl | rfl
      · exact htaken.trans hattempt
      · exact hattempt
  · cases hmoment

lemma extending_keptBy_levels (T : Typesetter) (level : Nat) (past : List Event) :
    (extending F past).KeptBy (T.levels F level) :=
  (extending F past).levels T level

lemma final_nil {depth : Nat} (hdepth : depth ≤ T.settings.maxDepth) (style : Style)
    (s : ExpansionState F) : Point.final T ⟨depth, style, [], s⟩ = s := by
  unfold Point.final
  rw [levels_expand, if_neg (Nat.not_lt_of_le hdepth)]
  simp [Typesetter.expandAll]

lemma final_iterate {depth : Nat} {style : Style} {c : Char} {rest : Text}
    (hdepth : depth ≤ T.settings.maxDepth) :
    Point.final T ⟨depth, style, (stepAt T depth style c rest s).1.rest,
        (stepAt T depth style c rest s).2⟩ =
      Point.final T ⟨depth, style, c :: rest, s⟩ := by
  have hnot : ¬T.settings.maxDepth < depth := Nat.not_lt_of_le hdepth
  unfold Point.final
  rw [levels_expand, levels_expand]
  dsimp only
  rw [if_neg hnot, if_neg hnot]
  conv => rhs; rw [Typesetter.expandAll]
  rfl

lemma events_suffix_final (T : Typesetter) (p : Point F) :
    p.state.events <:+ (p.final T).events :=
  events_suffix_expand T _ p.style p.text p.state

lemma stepAt_suffix_final {depth : Nat} (hdepth : depth ≤ T.settings.maxDepth) (style : Style)
    (c : Char) (rest : Text) (s : ExpansionState F) :
    (stepAt T depth style c rest s).2.events <:+
      (Point.final T ⟨depth, style, c :: rest, s⟩).events := by
  rw [← final_iterate hdepth]
  exact events_suffix_final T ⟨depth, style, _, _⟩

lemma final_suffix_of_next {p q : Point F} (hnext : Next T p q) :
    (q.final T).events <:+ (p.final T).events := by
  cases hnext with
  | iterate hdepth =>
    rewrite [final_iterate hdepth]
    exact List.suffix_rfl
  | enter hdepth hentry =>
    next depth style c rest s =>
    have hdeeper := (stepEntries_le hentry).1
    have hlevels : T.settings.maxDepth + 1 - q.depth = T.settings.maxDepth - depth := by omega
    have hstep := events_suffix_step_of_entry (extending_keptBy_levels T _) hentry
    have hfinal := stepAt_suffix_final hdepth style c rest s
    refine List.IsSuffix.trans ?_ (hstep.trans hfinal)
    rewrite [Point.final, hlevels]
    exact List.suffix_rfl

lemma final_suffix_of_reached {p q : Point F} (hreach : Relation.ReflTransGen (Next T) p q) :
    (q.final T).events <:+ (p.final T).events := by
  induction hreach with
  | refl => exact List.suffix_rfl
  | tail _ hnext ih => exact (final_suffix_of_next hnext).trans ih

/-- What has happened by a moment is the beginning of what happens in the whole expansion. -/
theorem history_prefix_of_moment {start : Point F} (hmoment : Moment T start s) :
    s.history <+: (start.final T).history := by
  refine List.reverse_prefix.mpr ?_
  cases hmoment with
  | between hreach => exact (events_suffix_final T _).trans (final_suffix_of_reached hreach)
  | within hreach hdepth hmoment =>
    next depth style c rest s₁ =>
    have hstep := events_suffix_step_of_moment (extending_keptBy_levels T _) hmoment
    have hfinal := stepAt_suffix_final hdepth style c rest s₁
    exact (hstep.trans hfinal).trans (final_suffix_of_reached hreach)

end History

end MathMarkup.Proofs
