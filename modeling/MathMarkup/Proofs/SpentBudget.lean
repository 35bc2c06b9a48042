import Mathlib
import MathMarkup.Proofs.Agreement
import MathMarkup.Proofs.Budget

/-!
# A spent budget

When no splices are left, markup is expanded as if no macro had a text to splice: the names of texts
are unknown, and a function that would answer with a text does not expand. All else goes on as
before at every level, the expansion of arguments that are looked at again afterwards included.
-/

namespace MathMarkup

def Reply.withoutText : Reply → Reply
  | .text _ => .nothing
  | reply => reply

/-- The function, except that it does not expand where it would answer with a text. -/
def FunctionMacro.withoutText (f : FunctionMacro) : FunctionMacro :=
  { f with handler := fun arguments => (f.handler arguments).withoutText }

def Macro.withoutText? : Macro → Option Macro
  | .token t => some (.token t)
  | .text _ => none
  | .function f => some (.function f.withoutText)

/-- The registry without the names of texts and without texts as answers. What a name stands for is
what it is looked up as. -/
def Registry.withoutText (r : Registry) : Registry :=
  ⟨r.entries.filterMap fun entry => ((r.lookup entry.1).bind Macro.withoutText?).map (entry.1, ·)⟩

def Typesetter.withoutText (T : Typesetter) : Typesetter :=
  { T with registry := T.registry.withoutText }

namespace Proofs

variable {F G : GroupFinder}

/-! ### Where the two differ -/

lemma lookup_filterMap (entries : List (Text × Macro)) (meaning : Text → Option Macro)
    (name : Text) (h : entries.lookup name = none → meaning name = none) :
    (entries.filterMap fun entry => (meaning entry.1).map (entry.1, ·)).lookup name =
      meaning name := by
  induction entries with
  | nil => exact (h rfl).symm
  | cons entry entries ih =>
    obtain ⟨key, m⟩ := entry
    by_cases hkey : name = key
    · subst hkey
      cases hmeaning : meaning name with
      | none =>
        rw [List.filterMap_cons_none (by simp [hmeaning]), ih fun _ => hmeaning, hmeaning]
      | some meant =>
        rw [List.filterMap_cons_some (b := (name, meant)) (by simp [hmeaning]),
          List.lookup_cons_self]
    · have hne : (name == key) = false := beq_false_of_ne hkey
      have hlater := ih fun hnone => h (by rw [List.lookup_cons, hne]; exact hnone)
      cases hmeaning : meaning key with
      | none => rw [List.filterMap_cons_none (by simp [hmeaning]), hlater]
      | some meant =>
        rw [List.filterMap_cons_some (b := (key, meant)) (by simp [hmeaning]), List.lookup_cons,
          hne]
        exact hlater

lemma lookup_withoutText (r : Registry) (name : Text) :
    r.withoutText.lookup name = (r.lookup name).bind Macro.withoutText? := by
  refine lookup_filterMap r.entries (fun name => (r.lookup name).bind Macro.withoutText?) name ?_
  intro hnone
  have hlookup : r.lookup name = none := hnone
  simp [hlookup]

lemma withoutText_of_givesNoText {f : FunctionMacro} (h : f.GivesNoText) : f.withoutText = f := by
  have hhandler : (fun arguments => (f.handler arguments).withoutText) = f.handler := by
    funext arguments
    cases hreply : f.handler arguments with
    | text text => exact absurd hreply (h arguments text)
    | _ => rfl
  unfold FunctionMacro.withoutText
  rw [hhandler]

lemma withoutText?_of_givesNoText {f : FunctionMacro} (h : f.GivesNoText) :
    (Macro.function f).withoutText? = some (.function f) :=
  congrArg (some ∘ Macro.function) (withoutText_of_givesNoText h)

/-- Groups and scripts give tokens, so they start as they do in any case. -/
lemma start?_withoutText (T : Typesetter) (c : Char) (rest : Text) :
    T.withoutText.start? c rest =
      (T.start? c rest).bind fun (site, m, after) => m.withoutText?.map (site, ·, after) := by
  have hcosts := onlySplicesCost T .counting
  rw [Typesetter.start?.eq_def, Typesetter.start?.eq_def]
  split
  · cases controlName? rest with
    | none => rfl
    | some found =>
      obtain ⟨name, after⟩ := found
      simp only [Option.bind_eq_bind, Option.bind_some, Typesetter.withoutText,
        lookup_withoutText]
      cases T.registry.lookup name with
      | none => rfl
      | some m => cases hm : m.withoutText? <;> simp [hm]
  · simp [withoutText?_of_givesNoText hcosts.scripts.1]
  · simp [withoutText?_of_givesNoText hcosts.scripts.2]
  · simp [withoutText?_of_givesNoText hcosts.group]
  · rfl

/-! ### One step -/

/-- The first state has no splices left. The second may have any number. -/
def spent (hF : ExactFinder F) (hG : ExactFinder G) : Comparison F G where
  Related s t := s.remaining = 0 ∧ SoundMemory hF s ∧ SoundMemory hG t
  Excluded _ := False
  record := by
    rintro s t event ⟨hspent, hsound, hsound'⟩
    exact ⟨hspent, hsound, hsound'⟩
  collect := by
    rintro s t level level' count text ⟨hspent, hsound, hsound'⟩
    obtain ⟨found, memory, memory', hs, ht, hset, hset'⟩ :=
      hsound.collect hsound' level level' count text
    exact ⟨found, memory, memory', hs, ht, hspent, hset, hset'⟩

section Spent

variable {hF : ExactFinder F} {hG : ExactFinder G} {s : ExpansionState F} {t : ExpansionState G}

lemma not_broken_spent : ¬ (spent hF hG).broken.Holds s := by
  rintro ⟨event, -, hexcluded⟩
  exact hexcluded

/-- A splice is refused, and what is kept of the first state is kept. -/
lemma splice_of_spent (site : Site) (text rest : Text) (h : (spent hF hG).Related s t) :
    ∃ s', Typesetter.splice site text rest s = (.error .budgetSpent, s') ∧
      (spent hF hG).Related s' t := by
  obtain ⟨hspent, hsound, hsound'⟩ := h
  have hkept := (remembering hF).spend site text hsound
  have hle := s.remaining_spend_le site text
  have hrefused : (s.spend site text).1 = .error .budgetSpent := by
    rw [ExpansionState.spend, if_pos hspent]
  rcases hspend : s.spend site text with ⟨paid, s'⟩
  rw [hspend] at hkept hle hrefused
  obtain rfl : paid = .error .budgetSpent := hrefused
  refine ⟨s', ?_, Nat.le_zero.mp (Nat.le_trans hle (Nat.le_of_eq hspent)), hkept, hsound'⟩
  rw [Typesetter.splice, hspend]

/-- An answer in text is refused on the first side and none on the second. -/
lemma call_withoutText (site : Site) (f : FunctionMacro) (arguments : List Text) (rest : Text)
    (h : (spent hF hG).Related s t) :
    ∃ outcome expanded s' t', Typesetter.call site f arguments rest s = (outcome, s') ∧
      Typesetter.call site f.withoutText arguments rest t = (.ok expanded, t') ∧
      outcome.toOption.join = expanded ∧ (spent hF hG).Related s' t' := by
  have hcalled := (spent hF hG).record (.called site arguments) h
  have hwithout : f.withoutText.handler arguments = (f.handler arguments).withoutText := rfl
  cases hreply : f.handler arguments with
  | text text =>
    obtain ⟨s', hsplice, h'⟩ := splice_of_spent site text rest hcalled
    simp only [Typesetter.call, hwithout, hreply, Reply.withoutText, hsplice]
    exact ⟨_, _, _, _, rfl, rfl, rfl, h'⟩
  | _ =>
    simp only [Typesetter.call, hwithout, hreply, Reply.withoutText]
    exact ⟨_, _, _, _, rfl, rfl, rfl, hcalled⟩

variable (T : Typesetter) {nested : Nested F} {nested' : Nested G} (level : Nat) {style : Style}

lemma expandMacro?_withoutText (f : FunctionMacro)
    (hn : (spent hF hG).NestedAlike (style.max f.style) nested nested') (site : Site)
    (after : Text) (h : (spent hF hG).Related s t) :
    (spent hF hG).Alike (T.expandMacro? nested level style site (.function f) after s)
      (T.withoutText.expandMacro? nested' level style site (.function f.withoutText) after t) := by
  have hb : (spent hF hG).broken.KeptBy nested := fun _ _ _ hbroken =>
    absurd hbroken not_broken_spent
  have hset : Comparison.SetAlike T T.withoutText (style.max f.style) nested :=
    fun _ _ _ _ => rfl
  -- Arguments are taken by the arity and the style, which the function keeps.
  have htaken : (spent hF hG).Alike (T.takeArguments nested level style site f after s)
      (T.withoutText.takeArguments nested' level style site f.withoutText after t) :=
    Comparison.takeArguments_alike hb hn hset level level site after h
  rcases htaken.split with hbroken | ⟨taken, s₁, t₁, hs, ht, h₁⟩
  · exact absurd hbroken not_broken_spent
  · simp only [Typesetter.expandMacro?, Typesetter.attempt, hs, ht]
    cases taken with
    | error refusal => exact Or.inr ⟨rfl, h₁⟩
    | ok taken =>
      cases taken with
      | none => exact Or.inr ⟨rfl, h₁⟩
      | some taken =>
        obtain ⟨outcome, expanded, s₂, t₂, hs₂, ht₂, rfl, h₂⟩ :=
          call_withoutText site f taken.1 taken.2 h₁
        simp only [hs₂, ht₂]
        cases outcome <;> exact Or.inr ⟨rfl, h₂⟩

lemma step_withoutText (hn : ∀ style, (spent hF hG).NestedAlike style nested nested') (c : Char)
    (rest : Text) (h : (spent hF hG).Related s t) :
    (spent hF hG).Alike (T.step nested level style c rest s)
      (T.withoutText.step nested' level style c rest t) := by
  have hstart := start?_withoutText T c rest
  rw [Typesetter.step, Typesetter.step]
  cases hbegun : T.start? c rest with
  | none =>
    rw [hbegun] at hstart
    simp only [hstart, Option.bind_none]
    exact Or.inr ⟨rfl, h⟩
  | some start =>
    obtain ⟨site, m, after⟩ := start
    rw [hbegun, Option.bind_some] at hstart
    cases m with
    | token token =>
      simp only [hstart, Macro.withoutText?, Option.map_some]
      exact Or.inr ⟨rfl, h⟩
    | text text =>
      obtain ⟨s', hsplice, h'⟩ := splice_of_spent site text after h
      simp only [hstart, Macro.withoutText?, Option.map_none, Typesetter.expandMacro?,
        Typesetter.attempt, hsplice]
      exact Or.inr ⟨rfl, h'⟩
    | function f =>
      have hexpanded := expandMacro?_withoutText T level f (hn (style.max f.style)) site after h
      simp only [hstart, Macro.withoutText?, Option.map_some]
      rcases hexpanded.split with hbroken | ⟨expanded, s₁, t₁, hs, ht, h₁⟩
      · exact absurd hbroken not_broken_spent
      · simp only [hs, ht]
        cases expanded <;> exact Or.inr ⟨rfl, h₁⟩

end Spent

/-! ### Whole expansions -/

theorem levels_withoutText (T : Typesetter) (hF : ExactFinder F) (hG : ExactFinder G) (level : Nat)
    (style : Style) :
    (spent hF hG).NestedAlike style (T.levels F level) (T.withoutText.levels G level) := by
  refine Comparison.levels_alike 0 (fun _ => True) ?_ ?_ level style trivial
  · intro style _ text s t h
    exact Or.inr ⟨rfl, (spent hF hG).record _ h⟩
  · intro level hn style _ c rest s t h
    exact step_withoutText T level (fun style => hn style trivial) c rest h

/-- With no splices left, markup is expanded at every level and in every style as it is expanded
without texts and with any number of splices left: to the same tokens or to the same refusal. So is
whatever markup an expansion has before it, at any depth, from where its budget is spent. -/
theorem spent_budget_expands_without_text (T : Typesetter) :
    (∀ level style text (s t : ExpansionState .remembering),
      SoundMemory exactRemembering s → SoundMemory exactRemembering t → s.remaining = 0 →
      ((T.levels .remembering level).expand style text s).1 =
        ((T.withoutText.levels .remembering level).expand style text t).1) ∧
    ∀ source (p : Point .remembering) budget,
      Relation.ReflTransGen (Next T) ⟨0, .text, source, T.initialState .remembering⟩ p →
      p.state.remaining = 0 →
      ((T.levels .remembering (T.settings.maxDepth + 1 - p.depth)).expand p.style p.text
          p.state).1 =
        ((T.withoutText.levels .remembering (T.settings.maxDepth + 1 - p.depth)).expand p.style
          p.text (freshState .remembering budget)).1 := by
  have hexpand : ∀ level style text (s t : ExpansionState .remembering),
      SoundMemory exactRemembering s → SoundMemory exactRemembering t → s.remaining = 0 →
      ((T.levels .remembering level).expand style text s).1 =
        ((T.withoutText.levels .remembering level).expand style text t).1 := by
    intro level style text s t hsound hsound' hspent
    have hsame := levels_withoutText T exactRemembering exactRemembering level style text s t
      ⟨hspent, hsound, hsound'⟩
    exact (hsame.same fun _ => not_false).1
  refine ⟨hexpand, ?_⟩
  intro source p budget hreach hspent
  have hsound : SoundMemory exactRemembering p.state :=
    Invariant.reached (I := remembering exactRemembering) hreach
      (soundMemory_of_memories_nil exactRemembering rfl)
  exact hexpand _ _ _ _ _ hsound (soundMemory_of_memories_nil exactRemembering rfl) hspent

def boxAndTwice : Typesetter where
  registry := ⟨[(['b', 'o', 'x'], .text ['{', 'b', '}']),
    (['t', 'w', 'i', 'c', 'e'],
      .function (.unary true fun argument => .text (argument ++ argument)))]⟩
  settings := { maxDepth := 2, maxExpansions := 1 }

/-- The first `box` takes the only splice. What follows it is set without texts: the argument of
`twice` is expanded, in vain, and then read again as a group. -/
theorem spent_budget_expands_without_text_twice :
    let c := '\\'
    let rest := ['b', 'o', 'x', '\\', 't', 'w', 'i', 'c', 'e', '{', '\\', 'b', 'o', 'x', '}']
    let start := boxAndTwice.initialState .remembering
    let p : Point .remembering :=
      ⟨0, .text, (stepAt boxAndTwice 0 .text c rest start).1.rest,
        (stepAt boxAndTwice 0 .text c rest start).2⟩
    SoundMemory exactRemembering (freshState .remembering 0) ∧
      SoundMemory exactRemembering (freshState .remembering 9) ∧
      (freshState .remembering 0).remaining = 0 ∧
      ((boxAndTwice.levels .remembering 1).expand .script (c :: rest)
          (freshState .remembering 0)).1 =
        ((boxAndTwice.withoutText.levels .remembering 1).expand .script (c :: rest)
          (freshState .remembering 9)).1 ∧
      Relation.ReflTransGen (Next boxAndTwice) ⟨0, .text, c :: rest, start⟩ p ∧
      p.state.remaining = 0 ∧
      ((boxAndTwice.levels .remembering 3).expand .text p.text p.state).1 =
        ((boxAndTwice.withoutText.levels .remembering 3).expand .text p.text
          (freshState .remembering 9)).1 := by
  intro c rest start p
  have hfresh : ∀ budget, SoundMemory exactRemembering (freshState .remembering budget) :=
    fun _ => soundMemory_of_memories_nil exactRemembering rfl
  have hreach : Relation.ReflTransGen (Next boxAndTwice) ⟨0, .text, c :: rest, start⟩ p :=
    .single (Next.iterate (Nat.zero_le _))
  have hspent : p.state.remaining = 0 := by cbv
  obtain ⟨hexpand, hreached⟩ := spent_budget_expands_without_text boxAndTwice
  exact ⟨hfresh 0, hfresh 9, rfl, hexpand 1 .script _ _ _ (hfresh 0) (hfresh 9) rfl, hreach, hspent,
    hreached _ p 9 hreach hspent⟩

end Proofs

end MathMarkup
