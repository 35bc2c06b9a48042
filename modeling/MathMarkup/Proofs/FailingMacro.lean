import Mathlib
import MathMarkup.Proofs.Comparison

/-!
# A macro that only fails

A function whose every expansion fails is as good as none: the markup is set as if its name were
unknown. A failed expansion may have expanded arguments, paid for splices and looked for groups;
none of this changes a token that comes later, in the markup around it or in that of another failed
expansion.
-/

namespace MathMarkup

/-- The function has something to put in its place. -/
def Reply.expands : Reply → Bool
  | .tokens _ => true
  | .text _ => true
  | _ => false

/-- A splice was refused, or the function under the name was called and has something to put in
its place. -/
def Event.expandsOrRefuses (name : Text) (f : FunctionMacro) : Event → Bool
  | .refused _ => true
  | .called site arguments => decide (site = .command name) && (f.handler arguments).expands
  | _ => false

/-- The typesetter with one more function, stored behind all that the registry has. Under a free
name this is what registering the function comes to (`Proofs.register_function`). -/
def Typesetter.withFunction (T : Typesetter) (name : Text) (f : FunctionMacro) : Typesetter :=
  { T with registry := ⟨T.registry.entries ++ [(name, .function f)]⟩ }

namespace Proofs

variable {F G : GroupFinder}

/-- Registering a function under a free name stores it. -/
theorem register_function (T : Typesetter) {name : Text} (f : FunctionMacro)
    (hreserved : T.registry.lookupReserved name = none) (hname : T.registry.lookup name = none) :
    T.registry.register name (.definition (.function f)) =
      .ok ⟨(T.withFunction name f).registry, true, .registered name (Macro.function f).kind⟩ := by
  simp [Registry.register, Registry.has, hreserved, hname, Candidate.toMacro,
    Typesetter.withFunction]

/-! ### Where the two differ -/

lemma lookup_withFunction (T : Typesetter) {name : Text} (f : FunctionMacro)
    (hname : T.registry.lookup name = none) (other : Text) :
    (T.withFunction name f).registry.lookup other =
      if other = name then some (.function f) else T.registry.lookup other := by
  unfold Registry.lookup at hname ⊢
  rw [Typesetter.withFunction, List.lookup_append]
  split
  · next h => simp [h, hname]
  · next h => simp [List.lookup, beq_false_of_ne h]

/-- A character starts the same with and without the function, or it starts the function and
nothing without it. -/
lemma start?_withFunction (T : Typesetter) {name : Text} (f : FunctionMacro)
    (hname : T.registry.lookup name = none) (c : Char) (rest : Text) :
    (T.withFunction name f).start? c rest = T.start? c rest ∨
      ∃ after, T.start? c rest = none ∧
        (T.withFunction name f).start? c rest = some (.command name, .function f, after) := by
  by_cases hc : c = '\\'
  · subst hc
    rw [Typesetter.start?, Typesetter.start?]
    cases controlName? rest with
    | none => exact Or.inl rfl
    | some found =>
      obtain ⟨called, after⟩ := found
      simp only [Option.bind_eq_bind, Option.bind_some, lookup_withFunction T f hname]
      by_cases hcalled : called = name
      · subst hcalled
        exact Or.inr ⟨after, by simp [hname], by simp⟩
      · rw [if_neg hcalled]
        exact Or.inl rfl
  · left
    rw [Typesetter.start?.eq_def, Typesetter.start?.eq_def]
    split
    · exact absurd rfl hc
    all_goals rfl

/-! ### One failed expansion -/

/-- The second expansion does without the function of the first. -/
def ignoringFailures (hF : ExactFinder F) (hG : ExactFinder G) (name : Text) (f : FunctionMacro) :
    Comparison F G where
  Related := Affords hF hG
  Excluded event := event.expandsOrRefuses name f
  record := by
    rintro s t event h
    exact h.record event
  collect := by
    rintro s t level level' count text h
    exact h.collect level level' count text

section Failing

variable {hF : ExactFinder F} {hG : ExactFinder G} {name : Text} {f : FunctionMacro}
  {s : ExpansionState F} {t : ExpansionState G}

lemma ignoringFailures_spends : (ignoringFailures hF hG name f).SpendsAlike := by
  rintro site text s t h
  rcases Affords.spend h site text with hrefused | ⟨s', t', hs, ht, -, -, h'⟩
  · exact Or.inl ⟨.refused site, hrefused, rfl⟩
  · rw [hs, ht]
    exact Or.inr ⟨rfl, h'⟩

lemma call_of_fails {site : Site} {arguments : List Text} {rest : Text}
    (hfails : (f.handler arguments).expands = false) :
    (Typesetter.call site f arguments rest s).1 = .ok none := by
  unfold Typesetter.call
  cases hreply : f.handler arguments with
  | tokens tokens => rw [hreply] at hfails; cases hfails
  | text text => rw [hreply] at hfails; cases hfails
  | nothing => rfl
  | failed => rfl
  | other kind shown => rfl

/-- An attempt at the function gives nothing, unless the function has been seen to expand. -/
lemma attempt_fails (T : Typesetter) (nested : Nested F) (level : Nat) (style : Style)
    (after : Text) (s : ExpansionState F) :
    (ignoringFailures hF hG name f).broken.Holds
        (T.attempt nested level style (.command name) (.function f) after s).2 ∨
      (T.expandMacro? nested level style (.command name) (.function f) after s).1 = none := by
  rw [Typesetter.expandMacro?, Typesetter.attempt]
  rcases T.takeArguments nested level style (.command name) f after s with ⟨taken, s₁⟩
  rcases taken with refusal | _ | ⟨arguments, rest⟩
  · exact Or.inr rfl
  · exact Or.inr rfl
  · dsimp only
    cases hexpands : (f.handler arguments).expands with
    | true =>
      left
      apply Invariant.call_of_called
      exact ⟨_, List.mem_cons_self, by simp [ignoringFailures, Event.expandsOrRefuses, hexpands]⟩
    | false =>
      right
      have hnothing : (Typesetter.call (.command name) f arguments rest s₁).1 = .ok none :=
        call_of_fails hexpands
      split
      · next heq =>
        rw [heq] at hnothing
        exact Except.ok.inj hnothing
      · rfl

/-- Whatever a macro leaves behind, the state from before it affords as much. -/
lemma affords_expandMacro? (T : Typesetter) {nested : Nested F}
    (hn : (remembering hF).KeptBy nested) (level : Nat) (style : Style) (site : Site) (m : Macro)
    (after : Text) (h : Affords hF hG s t) :
    Affords hF hG (T.expandMacro? nested level style site m after s).2 t := by
  rw [state_expandMacro?]
  exact ⟨Nat.le_trans (T.remaining_attempt_le nested level style site m after s) h.remaining,
    Invariant.attempt T hn level style site m after h.sound, h.sound'⟩

lemma step_of_fails (T : Typesetter) {nested : Nested F} {level : Nat} {style : Style} {c : Char}
    {rest : Text} {site : Site} {m : Macro} {after : Text} {s' : ExpansionState F}
    (hstart : T.start? c rest = some (site, m, after))
    (hfails : T.expandMacro? nested level style site m after s = (none, s')) :
    T.step nested level style c rest s = (T.literal c rest, s') := by
  rw [Typesetter.step, hstart]
  dsimp only
  rw [hfails]

end Failing

/-! ### Whole expansions -/

section Whole

variable (T : Typesetter) (hF : ExactFinder F) (hG : ExactFinder G) {name : Text}
  (f : FunctionMacro) (hname : T.registry.lookup name = none)

include hname

lemma step_ignoringFailures {level : Nat}
    (hn : ∀ style, (ignoringFailures hF hG name f).NestedAlike style
      ((T.withFunction name f).levels F level) (T.levels G level))
    (style : Style) (c : Char) (rest : Text) {s : ExpansionState F} {t : ExpansionState G}
    (h : Affords hF hG s t) :
    (ignoringFailures hF hG name f).Alike
      ((T.withFunction name f).step ((T.withFunction name f).levels F level) level style c rest s)
      (T.step (T.levels G level) level style c rest t) := by
  have hb := (ignoringFailures hF hG name f).broken.levels (T.withFunction name f) level
  rcases start?_withFunction T f hname c rest with hsame | ⟨after, hnone, hstart⟩
  · apply Comparison.step_alike ignoringFailures_spends hb
    · exact fun inner => hn (style.max inner)
    · exact fun _ _ _ _ _ => rfl
    · exact hsame
    · rfl
    · exact h
  · rcases attempt_fails (T.withFunction name f)
      ((T.withFunction name f).levels F level) level style after s with hbroken | hfails
    · left
      rw [state_step _ hstart]
      exact hbroken
    · right
      rw [step_of_fails _ hstart (Prod.ext hfails rfl), Typesetter.step, hnone]
      exact ⟨rfl, affords_expandMacro? _ ((remembering hF).levels _ level) level style _ _ after h⟩

theorem levels_ignoringFailures (level : Nat) (style : Style) :
    (ignoringFailures hF hG name f).NestedAlike style ((T.withFunction name f).levels F level)
      (T.levels G level) := by
  refine Comparison.levels_alike 0 (fun _ => True) ?_ ?_ level style trivial
  · intro style _ text s t h
    exact Or.inr ⟨rfl, Affords.record h _⟩
  · intro level hn style _ c rest s t h
    exact step_ignoringFailures T hF hG f hname (fun style => hn style trivial) style c rest h

lemma run_ignoringFailures (source : Text) :
    (ignoringFailures hF hG name f).Alike ((T.withFunction name f).run F source)
      (T.run G source) := by
  apply Comparison.expandAll_alike
    ((ignoringFailures hF hG name f).broken.levels (T.withFunction name f) _)
  · intro c rest s t h
    exact step_ignoringFailures T hF hG f hname
      (levels_ignoringFailures T hF hG f hname T.settings.maxDepth) .text c rest h
  · exact affords_initialState (Nat.le_refl _)

end Whole

/-- From `s` on, markup is expanded with the function as it is without it from `t` on, as long as
the function does not expand and no splice is refused. -/
def ExpandsAsWithout (T : Typesetter) (name : Text) (f : FunctionMacro) (s t : ExpansionState F) :
    Prop :=
  ∀ level style text,
    (∀ event ∈ (((T.withFunction name f).levels F level).expand style text s).2.events,
      event.expandsOrRefuses name f = false) →
    (((T.withFunction name f).levels F level).expand style text s).1 =
      ((T.levels F level).expand style text t).1

/-- A failed attempt at the function sets the backslash alone and goes on right behind it. From then
on markup is expanded as without the function from before the attempt. -/
theorem step_of_failed_attempt (T : Typesetter) {name : Text} (f : FunctionMacro)
    (hname : T.registry.lookup name = none) (hF : ExactFinder F) {level : Nat} {style : Style}
    {rest after : Text} {s s' : ExpansionState F} (hsound : SoundMemory hF s)
    (hstart : (T.withFunction name f).start? '\\' rest =
      some (.command name, .function f, after))
    (hfails : (T.withFunction name f).expandMacro? ((T.withFunction name f).levels F level) level
      style (.command name) (.function f) after s = (none, s')) :
    (T.withFunction name f).step ((T.withFunction name f).levels F level) level style '\\' rest s =
        (⟨[⟨.ord, ['\\']⟩], rest⟩, s') ∧
      ExpandsAsWithout T name f s' s := by
  refine ⟨step_of_fails _ hstart hfails, ?_⟩
  intro level' style' text hclear
  have hbefore : Affords hF hF s s := ⟨Nat.le_refl _, hsound, hsound⟩
  have hafter := affords_expandMacro? (T.withFunction name f)
    ((remembering hF).levels (T.withFunction name f) level) level style (.command name)
    (.function f) after hbefore
  rw [hfails] at hafter
  have halike := levels_ignoringFailures T hF hF f hname level' style' text _ _ hafter
  exact (halike.of_clear fun event hmem => Bool.eq_false_iff.mp (hclear event hmem)).1

/-- A function under a new name that never expands changes nothing, as long as no splice is
refused. Each failed attempt at it sets the backslash alone and goes on right behind it, and from
then on markup is expanded as without the function from before the attempt. -/
theorem same_without_failing_function (T : Typesetter) (source : Text) {name : Text}
    (f : FunctionMacro) (hname : T.registry.lookup name = none)
    (hfails : ∀ event ∈ (T.withFunction name f).history source,
      event.expandsOrRefuses name f = false) :
    (T.withFunction name f).tokenize source = T.tokenize source ∧
      (T.withFunction name f).transform source = T.transform source ∧
      ∀ (level : Nat) (style : Style) (rest after : Text) (s s' : ExpansionState .remembering),
        SoundMemory exactRemembering s →
        (T.withFunction name f).start? '\\' rest = some (.command name, .function f, after) →
        (T.withFunction name f).expandMacro? ((T.withFunction name f).levels .remembering level)
          level style (.command name) (.function f) after s = (none, s') →
        (T.withFunction name f).step ((T.withFunction name f).levels .remembering level) level style
            '\\' rest s = (⟨[⟨.ord, ['\\']⟩], rest⟩, s') ∧
          ExpandsAsWithout T name f s' s := by
  have halike := run_ignoringFailures T exactRemembering exactRemembering f hname source
  have htokens : (T.withFunction name f).tokenize source = T.tokenize source :=
    (halike.of_clear fun event hmem =>
      Bool.eq_false_iff.mp (hfails event (List.mem_reverse.mpr hmem))).1
  refine ⟨htokens, ?_, ?_⟩
  · unfold Typesetter.transform
    rw [htokens]
    rfl
  · intro level style rest after s s' hsound hstart hnone
    exact step_of_failed_attempt T f hname exactRemembering hsound hstart hnone

/-- It takes an argument, and expands only if the argument is empty. -/
def peekAtNothing : FunctionMacro :=
  .unary true fun argument => if argument = [] then .tokens [] else .nothing

def boxOnly : Typesetter where
  registry := ⟨[(['b', 'o', 'x'], .text ['{', 'b', '}'])]⟩

/-- The function is registered under a free name. Each of two nested attempts at it has expanded
its argument before it fails. -/
theorem same_without_failing_function_peek :
    let source :=
      ['\\', 'p', 'e', 'e', 'k', '{', '\\', 'p', 'e', 'e', 'k', '\\', 'b', 'o', 'x', '}']
    let name := ['p', 'e', 'e', 'k']
    boxOnly.registry.register name (.definition (.function peekAtNothing)) =
        .ok ⟨(boxOnly.withFunction name peekAtNothing).registry, true,
          .registered name (Macro.function peekAtNothing).kind⟩ ∧
      boxOnly.registry.lookup name = none ∧
      (∀ event ∈ (boxOnly.withFunction name peekAtNothing).history source,
        event.expandsOrRefuses name peekAtNothing = false) ∧
      (boxOnly.withFunction name peekAtNothing).tokenize source = boxOnly.tokenize source := by
  intro source name
  have hname : boxOnly.registry.lookup name = none := by decide
  have hfails : ((boxOnly.withFunction name peekAtNothing).history source).all
      (fun event => !event.expandsOrRefuses name peekAtNothing) = true := by
    cbv
  have hfails : ∀ event ∈ (boxOnly.withFunction name peekAtNothing).history source,
      event.expandsOrRefuses name peekAtNothing = false := by
    simpa using hfails
  exact ⟨register_function boxOnly peekAtNothing rfl hname, hname, hfails,
    (same_without_failing_function boxOnly source peekAtNothing hname hfails).1⟩

end Proofs

end MathMarkup
