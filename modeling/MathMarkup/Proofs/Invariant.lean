import MathMarkup.Expansion
import MathMarkup.Proofs.SoundMemory

/-!
# What every expansion keeps

An expansion touches its state in three ways: it looks for arguments, it pays for splices, and it
records what else happens. What these three keep is kept by each step and so by a whole expansion,
work that is thrown away in the end included.
-/

namespace MathMarkup

/-- The event tells of a splice, paid for or refused, or of a budget that is spent. -/
def Event.concernsBudget : Event → Bool
  | .spliced _ _ => true
  | .refused _ => true
  | .noticed (.budgetSpent _) => true
  | _ => false

namespace Proofs

variable {F : GroupFinder}

lemma state_expandMacro? (T : Typesetter) (nested : Nested F) (level : Nat) (style : Style)
    (site : Site) (m : Macro) (after : Text) (s : ExpansionState F) :
    (T.expandMacro? nested level style site m after s).2 =
      (T.attempt nested level style site m after s).2 := by
  rw [Typesetter.expandMacro?]
  split <;> next heq => rw [heq]

/-- What a macro leaves in the state stays there, whether it expands or not. -/
lemma state_step (T : Typesetter) {c : Char} {rest : Text} {site : Site} {m : Macro} {after : Text}
    (hstart : T.start? c rest = some (site, m, after)) (nested : Nested F) (level : Nat)
    (style : Style) (s : ExpansionState F) :
    (T.step nested level style c rest s).2 =
      (T.attempt nested level style site m after s).2 := by
  rw [Typesetter.step, hstart, ← state_expandMacro?]
  dsimp only
  rcases T.expandMacro? nested level style site m after s with ⟨_ | expanded, s₁⟩ <;> rfl

structure Invariant (F : GroupFinder) where
  Holds : ExpansionState F → Prop
  record : ∀ {s : ExpansionState F} (event : Event), event.concernsBudget = false → Holds s →
    Holds (s.record event)
  collect : ∀ {s : ExpansionState F} (level count : Nat) (text : Text), Holds s →
    Holds (s.setMemory level (collectArguments F count text (s.memory level)).2)
  spend : ∀ {s : ExpansionState F} (site : Site) (text : Text), Holds s →
    Holds (s.spend site text).2

namespace Invariant

variable (I : Invariant F)

def KeptBy (nested : Nested F) : Prop :=
  ∀ style text s, I.Holds s → I.Holds (nested.expand style text s).2

section Step

variable {I} (T : Typesetter) {nested : Nested F} {s : ExpansionState F}

lemma setArguments_cons {style : Style} {argument : Text} {arguments : List Text}
    (hlater : ∀ s, I.Holds s → I.Holds (T.setArguments nested style arguments s).2)
    (h : I.Holds (nested.expand style argument s).2) :
    I.Holds (T.setArguments nested style (argument :: arguments) s).2 := by
  rw [Typesetter.setArguments]
  rcases hexpand : nested.expand style argument s with ⟨expanded, s₁⟩
  rw [hexpand] at h
  cases expanded with
  | error refusal => exact h
  | ok tokens =>
    have hset := hlater s₁ h
    dsimp only
    split <;> next heq => rw [heq] at hset; exact hset

lemma setArguments (hn : I.KeptBy nested) (style : Style) (arguments : List Text) (h : I.Holds s) :
    I.Holds (T.setArguments nested style arguments s).2 := by
  induction arguments generalizing s with
  | nil => exact h
  | cons argument arguments ih =>
    exact setArguments_cons T (fun s hs => ih hs) (hn style argument s h)

lemma takeArguments (hn : I.KeptBy nested) (level : Nat) (style : Style) (site : Site)
    (f : FunctionMacro) (after : Text) (h : I.Holds s) :
    I.Holds (T.takeArguments nested level style site f after s).2 := by
  have hcollected := I.collect level f.arity after h
  rw [Typesetter.takeArguments]
  rcases hcollect : collectArguments F f.arity after (s.memory level) with ⟨collected, memory⟩
  rw [hcollect] at hcollected
  cases collected with
  | error before => exact I.record _ rfl hcollected
  | ok found =>
    dsimp only
    split
    · have hset := setArguments T hn (style.max f.style) found.1 hcollected
      split <;> next heq => rw [heq] at hset; exact hset
    · exact hcollected

lemma splice (site : Site) (text rest : Text) (h : I.Holds s) :
    I.Holds (Typesetter.splice site text rest s).2 := by
  have hspent := I.spend site text h
  rw [Typesetter.splice]
  split <;> next heq => rw [heq] at hspent; exact hspent

lemma call_of_called {site : Site} {f : FunctionMacro} {arguments : List Text} (rest : Text)
    (h : I.Holds (s.record (.called site arguments))) :
    I.Holds (Typesetter.call site f arguments rest s).2 := by
  rw [Typesetter.call]
  cases f.handler arguments with
  | tokens tokens => exact h
  | text text => exact splice site text rest h
  | nothing => exact h
  | failed => exact I.record _ rfl h
  | other kind shown => exact I.record _ rfl h

lemma call (site : Site) (f : FunctionMacro) (arguments : List Text) (rest : Text)
    (h : I.Holds s) : I.Holds (Typesetter.call site f arguments rest s).2 :=
  call_of_called rest (I.record (.called site arguments) rfl h)

lemma attempt_of_taken {level : Nat} {style : Style} {site : Site} {f : FunctionMacro}
    {after : Text} (h : I.Holds (T.takeArguments nested level style site f after s).2) :
    I.Holds (T.attempt nested level style site (.function f) after s).2 := by
  rw [Typesetter.attempt]
  split
  · next heq => rw [heq] at h; exact h
  · next heq => rw [heq] at h; exact h
  · next arguments rest s₁ heq =>
    rw [heq] at h
    exact call site f arguments rest h

lemma attempt (hn : I.KeptBy nested) (level : Nat) (style : Style) (site : Site) (m : Macro)
    (after : Text) (h : I.Holds s) :
    I.Holds (T.attempt nested level style site m after s).2 := by
  cases m with
  | token token => exact h
  | text text => exact splice site text after h
  | function f => exact attempt_of_taken T (takeArguments T hn level style site f after h)

theorem step (hn : I.KeptBy nested) (level : Nat) (style : Style) (c : Char) (rest : Text)
    (h : I.Holds s) : I.Holds (T.step nested level style c rest s).2 := by
  cases hstart : T.start? c rest with
  | none =>
    rw [Typesetter.step, hstart]
    exact h
  | some start =>
    obtain ⟨site, m, after⟩ := start
    rw [state_step T hstart]
    exact attempt T hn level style site m after h

end Step

/-! ### Whole expansions -/

variable {I} (T : Typesetter)

theorem expandAll {nested : Nested F} (hn : I.KeptBy nested) (level : Nat) (style : Style)
    (text : Text) {s : ExpansionState F} (h : I.Holds s) :
    I.Holds (T.expandAll nested level style text s).2 := by
  fun_induction Typesetter.expandAll T nested level style text s with
  | case1 s => exact h
  | case2 c rest s next later ih => exact ih (step T hn level style c rest h)

variable (I) in
theorem levels (level : Nat) : I.KeptBy (T.levels F level) := by
  induction level with
  | zero =>
    intro style text s h
    exact I.record _ rfl h
  | succ level ih =>
    intro style text s h
    exact expandAll T ih level style text h

end Invariant

/-! ### Events are only added -/

/-- The events up to some moment stay behind all that come after it. -/
def extending (F : GroupFinder) (past : List Event) : Invariant F where
  Holds s := past <:+ s.events
  record := by
    intro s event _ h
    exact h.trans (List.suffix_cons event s.events)
  collect := by
    intro s level count text h
    exact h
  spend := by
    intro s site text h
    have hcons : ∀ event, past <:+ event :: s.events := fun event =>
      h.trans (List.suffix_cons event s.events)
    unfold ExpansionState.spend
    split
    · dsimp only
      split
      · exact hcons _
      · exact (hcons _).trans (List.suffix_cons _ _)
    · exact hcons _

/-- What is remembered about groups stays right. -/
def remembering (hF : ExactFinder F) : Invariant F where
  Holds := SoundMemory hF
  record := by
    intro s event _ h
    exact h
  collect := by
    intro s level count text h
    exact h.setMemory level (collectArguments_exact hF count text (h level)).2
  spend := by
    intro s site text h
    unfold ExpansionState.spend
    split
    · dsimp only
      split <;> exact h
    · exact h

end Proofs

end MathMarkup
