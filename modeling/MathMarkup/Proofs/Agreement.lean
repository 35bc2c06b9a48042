import MathMarkup.Proofs.Comparison

/-!
# Expansions that cannot be told apart

What a finder remembers and what happened before play no part in an expansion. Two expansions of
the same markup, each with an exact finder of its own, that start with the same splices left give
the same tokens or the same refusal, leave the same splices, and add the same events.
-/

namespace MathMarkup.Proofs

variable {F G : GroupFinder}

/-- Two states with the same splices left and the same news since `past` and `past'`. -/
structure Agree (hF : ExactFinder F) (hG : ExactFinder G) (past past' : List Event)
    (s : ExpansionState F) (t : ExpansionState G) : Prop where
  remaining : s.remaining = t.remaining
  exhausted : s.exhausted = t.exhausted
  events : ∃ news, s.events = news ++ past ∧ t.events = news ++ past'
  sound : SoundMemory hF s
  sound' : SoundMemory hG t

structure SameOutcome (hF : ExactFinder F) (hG : ExactFinder G) (past past' : List Event)
    {α : Type} (x : α × ExpansionState F) (y : α × ExpansionState G) : Prop where
  value : x.1 = y.1
  state : Agree hF hG past past' x.2 y.2

variable {hF : ExactFinder F} {hG : ExactFinder G} {past past' : List Event}
  {s : ExpansionState F} {t : ExpansionState G}

lemma SameOutcome.split {α : Type} {x : α × ExpansionState F} {y : α × ExpansionState G}
    (h : SameOutcome hF hG past past' x y) :
    ∃ a s t, x = (a, s) ∧ y = (a, t) ∧ Agree hF hG past past' s t :=
  ⟨x.1, x.2, y.2, rfl, by rw [h.value], h.state⟩

namespace Agree

lemma refl (h : SoundMemory hF s) : Agree hF hF [] [] s s :=
  ⟨rfl, rfl, ⟨s.events, by simp, by simp⟩, h, h⟩

lemma events_eq (h : Agree hF hG [] [] s t) : s.events = t.events := by
  obtain ⟨news, hs, ht⟩ := h.events
  rw [hs, ht]

lemma record (h : Agree hF hG past past' s t) (event : Event) :
    Agree hF hG past past' (s.record event) (t.record event) := by
  obtain ⟨news, hs, ht⟩ := h.events
  refine ⟨h.remaining, h.exhausted, ⟨event :: news, ?_, ?_⟩, h.sound, h.sound'⟩
  · simp [ExpansionState.record, hs]
  · simp [ExpansionState.record, ht]

lemma collect (h : Agree hF hG past past' s t) (level level' count : Nat) (text : Text) :
    ∃ found memory memory',
      collectArguments F count text (s.memory level) = (found, memory) ∧
      collectArguments G count text (t.memory level') = (found, memory') ∧
      Agree hF hG past past' (s.setMemory level memory) (t.setMemory level' memory') := by
  obtain ⟨found, memory, memory', hs, ht, hsound, hsound'⟩ :=
    h.sound.collect h.sound' level level' count text
  exact ⟨found, memory, memory', hs, ht, h.remaining, h.exhausted, h.events, hsound, hsound'⟩

lemma spend (h : Agree hF hG past past' s t) (site : Site) (text : Text) :
    SameOutcome hF hG past past' (s.spend site text) (t.spend site text) := by
  unfold ExpansionState.spend
  rw [← h.remaining, ← h.exhausted]
  split
  · refine ⟨rfl, ?_⟩
    dsimp only
    split
    · exact h.record _
    · have hreported := (h.record (.refused site)).record (.noticed (.budgetSpent site.name))
      exact ⟨hreported.remaining, rfl, hreported.events, hreported.sound, hreported.sound'⟩
  · have hrecorded := h.record (.spliced site text)
    exact ⟨rfl, rfl, hrecorded.exhausted, hrecorded.events, hrecorded.sound, hrecorded.sound'⟩

end Agree

/-- Nothing is excluded, so whatever is compared agrees to the end. -/
def agreeing (hF : ExactFinder F) (hG : ExactFinder G) (past past' : List Event) :
    Comparison F G where
  Related := Agree hF hG past past'
  Excluded _ := False
  record := by
    rintro s t event h
    exact h.record event
  collect := by
    rintro s t level level' count text h
    exact h.collect level level' count text

lemma sameOutcome_of_alike {α : Type} {x : α × ExpansionState F} {y : α × ExpansionState G}
    (h : (agreeing hF hG past past').Alike x y) : SameOutcome hF hG past past' x y := by
  obtain ⟨hvalue, hstate⟩ := h.same fun _ => not_false
  exact ⟨hvalue, hstate⟩

lemma agreeing_spends : (agreeing hF hG past past').SpendsAlike := by
  intro site text s t h
  have hspent := Agree.spend h site text
  exact Or.inr ⟨hspent.value, hspent.state⟩

/-! ### Whole expansions -/

def NestedAgree (hF : ExactFinder F) (hG : ExactFinder G) (past past' : List Event)
    (nested : Nested F) (nested' : Nested G) : Prop :=
  ∀ style text s t, Agree hF hG past past' s t →
    SameOutcome hF hG past past' (nested.expand style text s) (nested'.expand style text t)

lemma agreeing_none {T T' : Typesetter} (hdepth : T.settings.maxDepth = T'.settings.maxDepth)
    (style : Style) :
    (agreeing hF hG past past').NestedAlike style (T.levels F 0) (T'.levels G 0) := by
  intro text s t h
  refine Or.inr ⟨rfl, ?_⟩
  change Agree hF hG past past' (s.report (.tooDeep T.settings.maxDepth))
    (t.report (.tooDeep T'.settings.maxDepth))
  rw [← hdepth]
  exact h.record _

lemma readAlike_self (T : Typesetter) : Comparison.ReadAlike T T fun _ => True :=
  ⟨fun _ _ => rfl, fun _ _ => rfl, fun _ _ _ => trivial, fun _ _ _ => rfl⟩

theorem levels_agree (T : Typesetter) (hF : ExactFinder F) (hG : ExactFinder G)
    (past past' : List Event) (level : Nat) :
    NestedAgree hF hG past past' (T.levels F level) (T.levels G level) := by
  intro style text s t h
  exact sameOutcome_of_alike ((readAlike_self T).levels agreeing_spends
    (fun style _ => agreeing_none rfl style) level style trivial text s t h)

lemma expandAll_agree (T : Typesetter) (level : Nat) (style : Style) (text : Text)
    (h : Agree hF hG past past' s t) :
    SameOutcome hF hG past past' (T.expandAll (T.levels F level) level style text s)
      (T.expandAll (T.levels G level) level style text t) :=
  sameOutcome_of_alike ((readAlike_self T).expandAll agreeing_spends
    (fun style _ => agreeing_none rfl style) level trivial text h)

def freshState (F : GroupFinder) (remaining : Nat) : ExpansionState F := { remaining := remaining }

lemma freshState_agree (hF : ExactFinder F) (hG : ExactFinder G) (remaining : Nat) :
    Agree hF hG [] [] (freshState F remaining) (freshState G remaining) :=
  ⟨rfl, rfl, ⟨[], rfl, rfl⟩, soundMemory_of_memories_nil hF rfl, soundMemory_of_memories_nil hG rfl⟩

/-- Expands texts one after the other, each at a depth and in a style of its own, with one state
for all of them. -/
def expandInTurn (T : Typesetter) (F : GroupFinder) :
    List (Nat × Style × Text) → ExpansionState F →
      List (Except Refusal (List Token)) × ExpansionState F
  | [], s => ([], s)
  | (depth, style, text) :: texts, s =>
    let first := (T.levels F (T.settings.maxDepth + 1 - depth)).expand style text s
    let later := expandInTurn T F texts first.2
    (first.1 :: later.1, later.2)

lemma expandInTurn_agree (T : Typesetter) (texts : List (Nat × Style × Text))
    (h : Agree hF hG past past' s t) :
    SameOutcome hF hG past past' (expandInTurn T F texts s) (expandInTurn T G texts t) := by
  induction texts generalizing s t with
  | nil => exact ⟨rfl, h⟩
  | cons text texts ih =>
    obtain ⟨depth, style, text⟩ := text
    have hfirst := levels_agree T hF hG past past' (T.settings.maxDepth + 1 - depth) style text s t
      h
    have hlater := ih hfirst.state
    exact ⟨congr (congrArg List.cons hfirst.value) hlater.value, hlater.state⟩

/-- Markup expands with remembered groups as it does with groups that are counted anew, whatever
was expanded before it and at whatever depths: to the same tokens or the same refusals, with the
same splices left and with the same calls, splices and notices in the same order. -/
theorem remembering_expands_as_counting (T : Typesetter) (remaining : Nat)
    (texts : List (Nat × Style × Text)) :
    let cached := expandInTurn T .remembering texts (freshState .remembering remaining)
    let counted := expandInTurn T .counting texts (freshState .counting remaining)
    cached.1 = counted.1 ∧ cached.2.remaining = counted.2.remaining ∧
      cached.2.exhausted = counted.2.exhausted ∧ cached.2.history = counted.2.history := by
  intro cached counted
  have hsame := expandInTurn_agree T texts
    (freshState_agree exactRemembering exactCounting remaining)
  obtain ⟨news, hcached, hcounted⟩ := hsame.state.events
  refine ⟨hsame.value, hsame.state.remaining, hsame.state.exhausted, ?_⟩
  change cached.2.events.reverse = counted.2.events.reverse
  rw [hcached, hcounted]

end MathMarkup.Proofs
