import Mathlib
import MathMarkup.Proofs.Comparison

/-!
# Ceilings that are not reached

An expansion in which no splice is refused and no markup is nested too deep, not even in work that
is thrown away, goes on in the same way under any higher ceilings.
-/

namespace MathMarkup

/-- A splice was refused, or markup was nested too deep. -/
def Event.reachesCeiling : Event → Bool
  | .refused _ => true
  | .noticed (.tooDeep _) => true
  | _ => false

/-- The typesetter under other ceilings. -/
def Typesetter.withCeilings (T : Typesetter) (depth expansions : Nat) : Typesetter :=
  { T with settings := { T.settings with maxDepth := depth, maxExpansions := expansions } }

namespace Proofs

variable {F G : GroupFinder}

/-- The same has happened in both states, and the second one affords what the first one does. -/
def clearOfCeilings (hF : ExactFinder F) (hG : ExactFinder G) : Comparison F G where
  Related s t := s.events = t.events ∧ Affords hF hG s t
  Excluded event := event.reachesCeiling
  record := by
    rintro s t event ⟨hevents, h⟩
    exact ⟨congrArg (event :: ·) hevents, h.record event⟩
  collect := by
    rintro s t level level' count text ⟨hevents, h⟩
    obtain ⟨found, memory, memory', hs, ht, hstate⟩ := h.collect level level' count text
    exact ⟨found, memory, memory', hs, ht, hevents, hstate⟩

lemma clearOfCeilings_spends (hF : ExactFinder F) (hG : ExactFinder G) :
    (clearOfCeilings hF hG).SpendsAlike := by
  rintro site text s t ⟨hevents, h⟩
  rcases h.spend site text with hrefused | ⟨s', t', hs, ht, hs', ht', h'⟩
  · exact Or.inl ⟨.refused site, hrefused, rfl⟩
  · rw [hs, ht]
    exact Or.inr ⟨rfl, by rw [hs', ht', hevents], h'⟩

lemma clearOfCeilings_none (T T' : Typesetter) (hF : ExactFinder F) (hG : ExactFinder G)
    (more : Nat) (style : Style) :
    (clearOfCeilings hF hG).NestedAlike style (T.levels F 0) (T'.levels G more) := by
  intro text s t _
  exact Or.inl ⟨.noticed (.tooDeep T.settings.maxDepth), List.mem_cons_self, rfl⟩

/-- The ceilings are read at the start and when no level is left, and nowhere in a step. -/
lemma readAlike_withCeilings (T : Typesetter) (depth expansions : Nat) :
    Comparison.ReadAlike T (T.withCeilings depth expansions) fun _ => True :=
  ⟨fun _ _ => rfl, fun _ _ => rfl, fun _ _ _ => trivial, fun _ _ _ => rfl⟩

lemma run_clearOfCeilings (T : Typesetter) (hF : ExactFinder F) (hG : ExactFinder G)
    (more : Nat) {expansions : Nat} (hexpansions : T.settings.maxExpansions ≤ expansions)
    (source : Text) :
    (clearOfCeilings hF hG).Alike (T.run F source)
      ((T.withCeilings (T.settings.maxDepth + more) expansions).run G source) :=
  (readAlike_withCeilings T _ expansions).expandAll (clearOfCeilings_spends hF hG)
    (fun style _ => clearOfCeilings_none T _ hF hG more style) T.settings.maxDepth trivial source
    ⟨rfl, affords_initialState hexpansions⟩

/-- An expansion that reaches no ceiling is the same under higher ones: the same happens in the
same order, and it gives the same tokens and the same text. -/
theorem same_under_higher_ceilings (T : Typesetter) (source : Text) {depth expansions : Nat}
    (hdepth : T.settings.maxDepth ≤ depth) (hexpansions : T.settings.maxExpansions ≤ expansions)
    (hclear : ∀ event ∈ T.history source, event.reachesCeiling = false) :
    (T.withCeilings depth expansions).history source = T.history source ∧
      (T.withCeilings depth expansions).tokenize source = T.tokenize source ∧
      (T.withCeilings depth expansions).transform source = T.transform source := by
  obtain ⟨more, rfl⟩ := Nat.exists_eq_add_of_le hdepth
  obtain ⟨hvalue, hevents, -⟩ :=
    (run_clearOfCeilings T exactRemembering exactRemembering more hexpansions
      source).of_clear fun event hmem =>
        Bool.eq_false_iff.mp (hclear event (List.mem_reverse.mpr hmem))
  have htokens : (T.withCeilings (T.settings.maxDepth + more) expansions).tokenize source =
      T.tokenize source := hvalue.symm
  refine ⟨congrArg List.reverse hevents.symm, htokens, ?_⟩
  unfold Typesetter.transform
  rw [htokens]
  rfl

def boxAndPeek : Typesetter where
  registry := ⟨[(['b', 'o', 'x'], .text ['{', 'b', '}']),
    (['p', 'e', 'e', 'k'], .function (.unary true fun _ => .nothing))]⟩
  settings := { maxDepth := 2, maxExpansions := 2 }

/-- Both ceilings are used up: `peek` expands its argument and fails, and the argument is expanded
again as a group. -/
theorem same_under_higher_ceilings_peek :
    let source := ['\\', 'p', 'e', 'e', 'k', '{', '\\', 'b', 'o', 'x', '}']
    2 ≤ 7 ∧ 2 ≤ 100 ∧
      (∀ event ∈ boxAndPeek.history source, event.reachesCeiling = false) ∧
      (boxAndPeek.withCeilings 7 100).history source = boxAndPeek.history source ∧
      (boxAndPeek.withCeilings 7 100).tokenize source = boxAndPeek.tokenize source ∧
      (boxAndPeek.withCeilings 7 100).transform source = boxAndPeek.transform source := by
  intro source
  have hclear : (boxAndPeek.history source).all (fun event => !event.reachesCeiling) = true := by
    cbv
  have hclear : ∀ event ∈ boxAndPeek.history source, event.reachesCeiling = false := by
    simpa using hclear
  exact ⟨by decide, by decide, hclear,
    same_under_higher_ceilings boxAndPeek source (by decide) (by decide) hclear⟩

end Proofs

end MathMarkup
