import MathMarkup.Proofs.Invariant

/-!
# Comparing two expansions

Two expansions of the same markup, under other settings, with other macros or with other finders,
are compared function by function. They do the same until an event happens in the first one that
the comparison excludes; from then on nothing is said about them. Such an event is on record even
when the work it belongs to is thrown away.
-/

namespace MathMarkup.Proofs

variable {F G : GroupFinder}

/-- A relation between the states of two expansions that is kept by what both do alike. The two
may be at different levels when they look for the same arguments. -/
structure Comparison (F G : GroupFinder) where
  Related : ExpansionState F → ExpansionState G → Prop
  Excluded : Event → Prop
  record : ∀ {s : ExpansionState F} {t : ExpansionState G} (event : Event), Related s t →
    Related (s.record event) (t.record event)
  collect : ∀ {s : ExpansionState F} {t : ExpansionState G} (level level' count : Nat)
    (text : Text), Related s t → ∃ found memory memory',
      collectArguments F count text (s.memory level) = (found, memory) ∧
      collectArguments G count text (t.memory level') = (found, memory') ∧
      Related (s.setMemory level memory) (t.setMemory level' memory')

namespace Comparison

variable (C : Comparison F G)

/-- An excluded event has happened. -/
def broken : Invariant F where
  Holds s := ∃ event ∈ s.events, C.Excluded event
  record := by
    rintro s event - ⟨old, hmem, hold⟩
    exact ⟨old, List.mem_cons_of_mem _ hmem, hold⟩
  collect := by
    intro s level count text h
    exact h
  spend := by
    rintro s site text ⟨old, hmem, hold⟩
    have hsuffix := (extending F s.events).spend site text List.suffix_rfl
    exact ⟨old, hsuffix.subset hmem, hold⟩

/-- Both sides come to the same, unless an excluded event has happened on the first. -/
def Alike {α : Type} (x : α × ExpansionState F) (y : α × ExpansionState G) : Prop :=
  C.broken.Holds x.2 ∨ x.1 = y.1 ∧ C.Related x.2 y.2

def SpendsAlike : Prop :=
  ∀ site text s t, C.Related s t → C.Alike (s.spend site text) (t.spend site text)

def NestedAlike (style : Style) (nested : Nested F) (nested' : Nested G) : Prop :=
  ∀ text s t, C.Related s t →
    C.Alike (nested.expand style text s) (nested'.expand style text t)

/-- Whatever nested markup of the style expands to on the first side is set alike on both. -/
def SetAlike (T T' : Typesetter) (style : Style) (nested : Nested F) : Prop :=
  ∀ text s tokens, (nested.expand style text s).1 = .ok tokens →
    typeset T.settings.spaces style tokens = typeset T'.settings.spaces style tokens

variable {C}

lemma Alike.split {α : Type} {x : α × ExpansionState F} {y : α × ExpansionState G}
    (h : C.Alike x y) :
    C.broken.Holds x.2 ∨ ∃ a s t, x = (a, s) ∧ y = (a, t) ∧ C.Related s t := by
  rcases h with hbroken | ⟨hvalue, hstate⟩
  · exact Or.inl hbroken
  · exact Or.inr ⟨x.1, x.2, y.2, rfl, by rw [hvalue], hstate⟩

lemma Alike.of_clear {α : Type} {x : α × ExpansionState F} {y : α × ExpansionState G}
    (h : C.Alike x y) (hclear : ∀ event ∈ x.2.events, ¬ C.Excluded event) :
    x.1 = y.1 ∧ C.Related x.2 y.2 := by
  rcases h with ⟨event, hmem, hexcluded⟩ | hsame
  · exact absurd hexcluded (hclear event hmem)
  · exact hsame

/-- A comparison that excludes nothing always says the same. -/
lemma Alike.same {α : Type} {x : α × ExpansionState F} {y : α × ExpansionState G}
    (h : C.Alike x y) (hnone : ∀ event, ¬ C.Excluded event) : x.1 = y.1 ∧ C.Related x.2 y.2 :=
  h.of_clear fun event _ => hnone event

/-! ### One step -/

section Step

variable {T T' : Typesetter} {nested : Nested F} {nested' : Nested G} {s : ExpansionState F}
  {t : ExpansionState G}

lemma setArguments_alike (hb : C.broken.KeptBy nested) {style : Style}
    (hn : C.NestedAlike style nested nested') (hset : SetAlike T T' style nested)
    (arguments : List Text) (h : C.Related s t) :
    C.Alike (T.setArguments nested style arguments s)
      (T'.setArguments nested' style arguments t) := by
  induction arguments generalizing s t with
  | nil => exact Or.inr ⟨rfl, h⟩
  | cons argument arguments ih =>
    rcases (hn argument s t h).split with hbroken | ⟨expanded, s₁, t₁, hs, ht, h₁⟩
    · exact Or.inl (Invariant.setArguments_cons T
        (fun s hs => Invariant.setArguments T hb style arguments hs) hbroken)
    · have hset := hset argument s
      rw [hs] at hset
      simp only [Typesetter.setArguments, hs, ht]
      cases expanded with
      | error refusal => exact Or.inr ⟨rfl, h₁⟩
      | ok tokens =>
        rcases (ih h₁).split with hbroken | ⟨later, s₂, t₂, hs₂, ht₂, h₂⟩
        · left
          dsimp only
          split <;> next heq => rw [heq] at hbroken; exact hbroken
        · simp only [hs₂, ht₂, hset tokens rfl]
          cases later with
          | error refusal => exact Or.inr ⟨rfl, h₂⟩
          | ok texts => exact Or.inr ⟨rfl, h₂⟩

lemma takeArguments_alike (hb : C.broken.KeptBy nested) {style : Style} {f : FunctionMacro}
    (hn : C.NestedAlike (style.max f.style) nested nested')
    (hset : SetAlike T T' (style.max f.style) nested)
    (level level' : Nat) (site : Site) (after : Text) (h : C.Related s t) :
    C.Alike (T.takeArguments nested level style site f after s)
      (T'.takeArguments nested' level' style site f after t) := by
  obtain ⟨collected, memory, memory', hs, ht, h₁⟩ := C.collect level level' f.arity after h
  simp only [Typesetter.takeArguments, hs, ht]
  cases collected with
  | error before => exact Or.inr ⟨rfl, C.record _ h₁⟩
  | ok found =>
    dsimp only
    split
    · rcases (setArguments_alike hb hn hset found.1 h₁).split with
        hbroken | ⟨texts, s₂, t₂, hs₂, ht₂, h₂⟩
      · left
        split <;> next heq => rw [heq] at hbroken; exact hbroken
      · simp only [hs₂, ht₂]
        cases texts with
        | error refusal => exact Or.inr ⟨rfl, h₂⟩
        | ok texts => exact Or.inr ⟨rfl, h₂⟩
    · exact Or.inr ⟨rfl, h₁⟩

lemma splice_alike (hspend : C.SpendsAlike) (site : Site) (text rest : Text)
    (h : C.Related s t) :
    C.Alike (Typesetter.splice site text rest s) (Typesetter.splice site text rest t) := by
  rcases (hspend site text s t h).split with hbroken | ⟨paid, s₁, t₁, hs, ht, h₁⟩
  · left
    rw [Typesetter.splice]
    split <;> next heq => rw [heq] at hbroken; exact hbroken
  · simp only [Typesetter.splice, hs, ht]
    cases paid with
    | error refusal => exact Or.inr ⟨rfl, h₁⟩
    | ok _ => exact Or.inr ⟨rfl, h₁⟩

lemma call_alike (hspend : C.SpendsAlike) (site : Site) (f : FunctionMacro)
    (arguments : List Text) (rest : Text) (h : C.Related s t) :
    C.Alike (Typesetter.call site f arguments rest s)
      (Typesetter.call site f arguments rest t) := by
  have hcalled := C.record (.called site arguments) h
  unfold Typesetter.call
  cases f.handler arguments with
  | tokens tokens => exact Or.inr ⟨rfl, hcalled⟩
  | text text => exact splice_alike hspend site text rest hcalled
  | nothing => exact Or.inr ⟨rfl, hcalled⟩
  | failed => exact Or.inr ⟨rfl, C.record _ hcalled⟩
  | other kind shown => exact Or.inr ⟨rfl, C.record _ hcalled⟩

lemma attempt_alike (hspend : C.SpendsAlike) (hb : C.broken.KeptBy nested) {style : Style}
    (hn : ∀ inner, C.NestedAlike (style.max inner) nested nested')
    (hset : ∀ inner, SetAlike T T' (style.max inner) nested)
    (level level' : Nat) (site : Site) (m : Macro) (after : Text) (h : C.Related s t) :
    C.Alike (T.attempt nested level style site m after s)
      (T'.attempt nested' level' style site m after t) := by
  cases m with
  | token token => exact Or.inr ⟨rfl, h⟩
  | text text => exact splice_alike hspend site text after h
  | function f =>
    rcases (takeArguments_alike hb (hn f.style) (hset f.style) level level' site after h).split with
      hbroken | ⟨taken, s₁, t₁, hs, ht, h₁⟩
    · exact Or.inl (Invariant.attempt_of_taken T hbroken)
    · simp only [Typesetter.attempt, hs, ht]
      cases taken with
      | error refusal => exact Or.inr ⟨rfl, h₁⟩
      | ok taken =>
        cases taken with
        | none => exact Or.inr ⟨rfl, h₁⟩
        | some taken => exact call_alike hspend site f taken.1 taken.2 h₁

/-- A step of both sides that starts the same macro, if it starts one. -/
theorem step_alike (hspend : C.SpendsAlike) (hb : C.broken.KeptBy nested) {style : Style}
    (hn : ∀ inner, C.NestedAlike (style.max inner) nested nested')
    (hset : ∀ inner, SetAlike T T' (style.max inner) nested)
    (level level' : Nat) {c : Char} {rest : Text} (hstart : T.start? c rest = T'.start? c rest)
    (hliteral : T.literal c rest = T'.literal c rest) (h : C.Related s t) :
    C.Alike (T.step nested level style c rest s) (T'.step nested' level' style c rest t) := by
  cases hstart' : T.start? c rest with
  | none =>
    rw [hstart] at hstart'
    simp only [Typesetter.step, hstart, hstart', hliteral]
    exact Or.inr ⟨rfl, h⟩
  | some start =>
    obtain ⟨site, m, after⟩ := start
    rcases (attempt_alike hspend hb hn hset level level' site m after h).split with
      hbroken | ⟨outcome, s₁, t₁, hs, ht, h₁⟩
    · left
      rw [state_step T hstart']
      exact hbroken
    · rw [hstart] at hstart'
      simp only [Typesetter.step, Typesetter.expandMacro?, hstart, hstart', hs, ht, hliteral]
      cases outcome with
      | error refusal => exact Or.inr ⟨rfl, h₁⟩
      | ok expanded => cases expanded <;> exact Or.inr ⟨rfl, h₁⟩

end Step

/-! ### Whole expansions -/

section Whole

variable {T T' : Typesetter}

theorem expandAll_alike {nested : Nested F} {nested' : Nested G} (hb : C.broken.KeptBy nested)
    {level level' : Nat} {style : Style}
    (hstep : ∀ c rest s t, C.Related s t →
      C.Alike (T.step nested level style c rest s) (T'.step nested' level' style c rest t))
    (text : Text) {s : ExpansionState F} {t : ExpansionState G} (h : C.Related s t) :
    C.Alike (T.expandAll nested level style text s)
      (T'.expandAll nested' level' style text t) := by
  -- The recursion is that of the first side; the step lemma moves the second one along with it.
  induction text, s using Typesetter.expandAll.induct T nested level style generalizing t with
  | case1 s =>
    simp only [Typesetter.expandAll]
    exact Or.inr ⟨rfl, h⟩
  | case2 c rest s next =>
    rename_i ih
    rcases (hstep c rest s t h).split with hbroken | ⟨expanded, s₁, t₁, hs, ht, h₁⟩
    · left
      rw [Typesetter.expandAll]
      exact Invariant.expandAll T hb level style _ hbroken
    · have hnext : next = (expanded, s₁) := hs
      rw [hnext] at ih
      simp only [Typesetter.expandAll, hs, ht]
      rcases ih h₁ with hbroken | ⟨hvalue, hstate⟩
      · exact Or.inl hbroken
      · exact Or.inr ⟨congrArg (expanded.tokens ++ ·) hvalue, hstate⟩

/-- Nested expansions compare level by level if steps do, in all styles that are reached from the
ones given. The second side may have more levels. -/
theorem levels_alike (more : Nat) (covered : Style → Prop)
    (hnone : ∀ style, covered style → C.NestedAlike style (T.levels F 0) (T'.levels G more))
    (hstep : ∀ level,
      (∀ style, covered style →
        C.NestedAlike style (T.levels F level) (T'.levels G (level + more))) →
      ∀ style, covered style → ∀ c rest s t, C.Related s t →
        C.Alike (T.step (T.levels F level) level style c rest s)
          (T'.step (T'.levels G (level + more)) (level + more) style c rest t))
    (level : Nat) :
    ∀ style, covered style →
      C.NestedAlike style (T.levels F level) (T'.levels G (level + more)) := by
  induction level with
  | zero =>
    intro style hstyle
    rw [Nat.zero_add]
    exact hnone style hstyle
  | succ level ih =>
    intro style hstyle text s t h
    rw [Nat.add_right_comm]
    rcases expandAll_alike (C.broken.levels T level) (hstep level ih style hstyle) text h with
      hbroken | ⟨hvalue, hstate⟩
    · exact Or.inl hbroken
    · exact Or.inr ⟨congrArg Except.ok hvalue, hstate⟩

/-- Both start the same macros and set the same literals, and in the styles covered, which nested
markup does not leave, both set the same text for the same tokens. -/
structure ReadAlike (T T' : Typesetter) (covered : Style → Prop) : Prop where
  start : ∀ c rest, T.start? c rest = T'.start? c rest
  literal : ∀ c rest, T.literal c rest = T'.literal c rest
  max : ∀ style inner, covered style → covered (style.max inner)
  set : ∀ style tokens, covered style →
    typeset T.settings.spaces style tokens = typeset T'.settings.spaces style tokens

namespace ReadAlike

variable {covered : Style → Prop} (hread : ReadAlike T T' covered) (hspend : C.SpendsAlike)
include hread hspend

lemma step {nested : Nested F} {nested' : Nested G} (hb : C.broken.KeptBy nested) {style : Style}
    (hn : ∀ style, covered style → C.NestedAlike style nested nested') (hstyle : covered style)
    (level level' : Nat) (c : Char) (rest : Text) {s : ExpansionState F} {t : ExpansionState G}
    (h : C.Related s t) :
    C.Alike (T.step nested level style c rest s) (T'.step nested' level' style c rest t) := by
  apply step_alike hspend hb
  · exact fun inner => hn _ (hread.max style inner hstyle)
  · exact fun inner _ _ tokens _ => hread.set _ tokens (hread.max style inner hstyle)
  · exact hread.start c rest
  · exact hread.literal c rest
  · exact h

theorem levels {more : Nat}
    (hnone : ∀ style, covered style → C.NestedAlike style (T.levels F 0) (T'.levels G more))
    (level : Nat) :
    ∀ style, covered style →
      C.NestedAlike style (T.levels F level) (T'.levels G (level + more)) := by
  refine levels_alike more covered hnone ?_ level
  intro level hn style hstyle c rest s t h
  exact step hread hspend (C.broken.levels T level) hn hstyle _ _ c rest h

theorem expandAll {more : Nat}
    (hnone : ∀ style, covered style → C.NestedAlike style (T.levels F 0) (T'.levels G more))
    (level : Nat) {style : Style} (hstyle : covered style) (text : Text) {s : ExpansionState F}
    {t : ExpansionState G} (h : C.Related s t) :
    C.Alike (T.expandAll (T.levels F level) level style text s)
      (T'.expandAll (T'.levels G (level + more)) (level + more) style text t) := by
  have hb := C.broken.levels T level
  refine expandAll_alike hb ?_ text h
  intro c rest s t h
  exact step hread hspend hb (levels hread hspend hnone level) hstyle _ _ c rest h

end ReadAlike

end Whole

end Comparison

/-! ### States that can pay for as much -/

section Affords

variable {hF : ExactFinder F} {hG : ExactFinder G} {s : ExpansionState F} {t : ExpansionState G}

/-- The second state can pay for each splice that the first one can pay for. -/
structure Affords (hF : ExactFinder F) (hG : ExactFinder G) (s : ExpansionState F)
    (t : ExpansionState G) : Prop where
  remaining : s.remaining ≤ t.remaining
  sound : SoundMemory hF s
  sound' : SoundMemory hG t

namespace Affords

lemma record (h : Affords hF hG s t) (event : Event) :
    Affords hF hG (s.record event) (t.record event) :=
  ⟨h.remaining, h.sound, h.sound'⟩

lemma collect (h : Affords hF hG s t) (level level' count : Nat) (text : Text) :
    ∃ found memory memory',
      collectArguments F count text (s.memory level) = (found, memory) ∧
      collectArguments G count text (t.memory level') = (found, memory') ∧
      Affords hF hG (s.setMemory level memory) (t.setMemory level' memory') := by
  obtain ⟨found, memory, memory', hs, ht, hsound, hsound'⟩ :=
    h.sound.collect h.sound' level level' count text
  exact ⟨found, memory, memory', hs, ht, h.remaining, hsound, hsound'⟩

lemma spend (h : Affords hF hG s t) (site : Site) (text : Text) :
    .refused site ∈ (s.spend site text).2.events ∨
      ∃ s' t', s.spend site text = (.ok (), s') ∧ t.spend site text = (.ok (), t') ∧
        s'.events = .spliced site text :: s.events ∧
        t'.events = .spliced site text :: t.events ∧ Affords hF hG s' t' := by
  have hle := h.remaining
  unfold ExpansionState.spend
  by_cases hnone : s.remaining = 0
  · left
    rw [if_pos hnone]
    dsimp only
    split
    · exact List.mem_cons_self
    · exact List.mem_cons_of_mem _ List.mem_cons_self
  · have hleft : t.remaining ≠ 0 := by omega
    right
    rw [if_neg hnone, if_neg hleft]
    exact ⟨_, _, rfl, rfl, rfl, rfl, Nat.sub_le_sub_right hle 1, h.sound, h.sound'⟩

end Affords

lemma affords_initialState {T T' : Typesetter}
    (h : T.settings.maxExpansions ≤ T'.settings.maxExpansions) :
    Affords hF hG (T.initialState F) (T'.initialState G) :=
  ⟨h, soundMemory_of_memories_nil hF rfl, soundMemory_of_memories_nil hG rfl⟩

end Affords

end MathMarkup.Proofs
