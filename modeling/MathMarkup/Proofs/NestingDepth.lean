import MathMarkup.Proofs.Budget
import MathMarkup.Proofs.Ceilings
import MathMarkup.Proofs.ItemExpansion

/-!
# One level further down

How deep markup is nested matters only for how many levels are left below it. So markup one level
down under a ceiling that is one higher is expanded as it is, failed attempts at either ceiling
included, and a group around markup gives what the markup gives with one level less.
-/

namespace MathMarkup

/-- The event without the ceiling that is named when markup is nested too deep. -/
def Event.withoutLimit : Event → Event
  | .noticed (.tooDeep _) => .noticed (.tooDeep 0)
  | event => event

/-- A macro that was looked up is called, or a text is spliced. -/
def Event.callsOrSplices : Event → Bool
  | .called (.command _) _ => true
  | .spliced _ _ => true
  | _ => false

def Typesetter.deeper (T : Typesetter) : Typesetter :=
  T.withCeilings (T.settings.maxDepth + 1) T.settings.maxExpansions

def ExpansionState.withoutLimits {F : GroupFinder} (s : ExpansionState F) : ExpansionState F :=
  { s with events := s.events.map Event.withoutLimit }

namespace Proofs

variable {F G : GroupFinder} {hF : ExactFinder F} {hG : ExactFinder G} {past past' : List Event}
  {s : ExpansionState F} {t : ExpansionState G}

/-! ### Up to the ceilings that are named -/

/-- Whether an event is a call or a splice does not hang on a ceiling that it names. -/
lemma filter_withoutLimit (history : List Event) :
    (history.map Event.withoutLimit).filter Event.callsOrSplices =
      history.filter Event.callsOrSplices := by
  induction history with
  | nil => rfl
  | cons event history ih =>
    have hevent : event.withoutLimit = event ∨
        event.withoutLimit.callsOrSplices = false ∧ event.callsOrSplices = false := by
      unfold Event.withoutLimit
      split
      · exact Or.inr ⟨rfl, rfl⟩
      · exact Or.inl rfl
    rw [List.map_cons, List.filter_cons, List.filter_cons, ih]
    rcases hevent with hsame | ⟨hno, hno'⟩
    · rw [hsame]
    · rw [hno, hno']
      rfl

lemma spend_withoutLimits (s : ExpansionState F) (site : Site) (text : Text) :
    s.withoutLimits.spend site text =
      ((s.spend site text).1, (s.spend site text).2.withoutLimits) := by
  unfold ExpansionState.spend ExpansionState.withoutLimits
  dsimp only
  split
  · split <;> rfl
  · rfl

/-- The two states agree, except for the ceilings that their notices name. -/
def agreeingToLimits (hF : ExactFinder F) (hG : ExactFinder G) (past past' : List Event) :
    Comparison F G where
  Related s t := Agree hF hG past past' s.withoutLimits t.withoutLimits
  Excluded _ := False
  record := by
    rintro s t event h
    exact h.record event.withoutLimit
  collect := by
    rintro s t level level' count text h
    exact h.collect level level' count text

lemma agreeingToLimits_spends : (agreeingToLimits hF hG past past').SpendsAlike := by
  intro site text s t h
  obtain ⟨hvalue, hstate⟩ := Agree.spend h site text
  rw [spend_withoutLimits, spend_withoutLimits] at hvalue hstate
  exact Or.inr ⟨hvalue, hstate⟩

lemma agreeingToLimits_none (T T' : Typesetter) (style : Style) :
    (agreeingToLimits hF hG past past').NestedAlike style (T.levels F 0) (T'.levels G 0) := by
  intro text s t h
  exact Or.inr ⟨rfl, Agree.record h (.noticed (.tooDeep 0))⟩

/-! ### Whole expansions -/

section Whole

variable (T : Typesetter)

lemma readAlike_deeper : Comparison.ReadAlike T T.deeper fun _ => True :=
  readAlike_withCeilings T _ _

theorem levels_deeper (level : Nat) (style : Style) (text : Text)
    (h : Agree hF hG past past' s.withoutLimits t.withoutLimits) :
    (agreeingToLimits hF hG past past').Alike ((T.levels F level).expand style text s)
      ((T.deeper.levels G level).expand style text t) :=
  (readAlike_deeper T).levels agreeingToLimits_spends
    (fun style _ => agreeingToLimits_none T T.deeper style) level style trivial text s t h

lemma expandAll_deeper (level : Nat) (style : Style) (text : Text)
    (h : Agree hF hG past past' s.withoutLimits t.withoutLimits) :
    (agreeingToLimits hF hG past past').Alike
      (T.expandAll (T.levels F level) level style text s)
      (T.deeper.expandAll (T.deeper.levels G level) level style text t) :=
  (readAlike_deeper T).expandAll agreeingToLimits_spends
    (fun style _ => agreeingToLimits_none T T.deeper style) level trivial text h

end Whole

/-! ### A group -/

lemma typeset_ord (spaces : Spaces) (style : Style) (text : Text) :
    typeset spaces style [⟨.ord, text⟩] = text := by
  have hassemble : assemble [⟨.ord, text⟩] = [Token.mark ⟨.ord, text⟩ []] := rfl
  rw [typeset, hassemble, joinAtoms, Token.mark, List.append_nil, List.take_append_drop]

lemma run_deeper_group (T : Typesetter) (hF : ExactFinder F) {body : Text} (hbody : Neutral body) :
    ∃ t : ExpansionState F, T.deeper.run F ('{' :: (body ++ ['}'])) =
        ([⟨.ord, T.setTokens (T.run F body).1⟩],
          t.record (.called .group [T.setTokens (T.run F body).1])) ∧
      Agree hF hF [] [] (T.run F body).2.withoutLimits t.withoutLimits := by
  have hs : SoundMemory hF (T.deeper.initialState F) := soundMemory_of_memories_nil hF rfl
  obtain ⟨hsound, hexpand⟩ := expandAll_unary_group T.settings.maxDepth .text isUnary_groupMacro
    hbody (start?_group T.deeper (body ++ ['}'])) hs
  let found : ExpansionState F := (T.deeper.initialState F).setMemory (T.settings.maxDepth + 1)
    (collectArguments F 1 ('{' :: (body ++ ['}']))
      ((T.deeper.initialState F).memory (T.settings.maxDepth + 1))).2
  have hagree : Agree hF hF [] [] (T.initialState F).withoutLimits found.withoutLimits :=
    ⟨rfl, rfl, ⟨[], rfl, rfl⟩, soundMemory_of_memories_nil hF rfl, hsound⟩
  obtain ⟨hvalue, hstate⟩ :=
    (expandAll_deeper T T.settings.maxDepth .text body hagree).same fun _ => not_false
  refine ⟨_, ?_, hstate⟩
  have hset : T.setTokens (T.run F body).1 = typeset T.deeper.settings.spaces .text
      (T.deeper.expandAll (T.deeper.levels F T.settings.maxDepth) T.settings.maxDepth .text body
        found).1 := congrArg T.setTokens hvalue
  rw [hset]
  exact hexpand

/-- Markup one level down, under a ceiling that is one higher, is expanded as it is, from any two
states with the same splices left, whatever they remember: to the same tokens or the same refusal,
with the same splices left, and with the same events in the same order, except that notices of too
deep markup name each their own ceiling. So a group around markup gives what the markup gives with
one level less, and all that happens besides is that the group is set. -/
theorem group_is_one_level_down (T : Typesetter) :
    (∀ depth style text (s t : ExpansionState .remembering),
      s.remaining = t.remaining → s.exhausted = t.exhausted →
      SoundMemory exactRemembering s → SoundMemory exactRemembering t →
      let upper :=
        (T.levels .remembering (T.settings.maxDepth + 1 - depth)).expand style text s
      let lower := (T.deeper.levels .remembering
        (T.deeper.settings.maxDepth + 1 - (depth + 1))).expand style text t
      lower.1 = upper.1 ∧ lower.2.remaining = upper.2.remaining ∧
        lower.2.exhausted = upper.2.exhausted ∧
        ∃ news, upper.2.withoutLimits.history = s.withoutLimits.history ++ news ∧
          lower.2.withoutLimits.history = t.withoutLimits.history ++ news) ∧
    ∀ body, IsBalanced body →
      let source := '{' :: (body ++ ['}'])
      T.deeper.transform source = T.transform body ∧
        (T.deeper.run .remembering source).2.remaining = (T.run .remembering body).2.remaining ∧
        (T.deeper.history source).filter Event.callsOrSplices =
          (T.history body).filter Event.callsOrSplices ∧
        (T.deeper.history source).map Event.withoutLimit =
          (T.history body).map Event.withoutLimit ++ [.called .group [T.transform body]] := by
  constructor
  · intro depth style text s t hremaining hexhausted hs ht
    have hlevel : T.deeper.settings.maxDepth + 1 - (depth + 1) = T.settings.maxDepth + 1 - depth :=
      Nat.add_sub_add_right _ 1 depth
    rw [hlevel]
    intro upper lower
    have hagree : Agree exactRemembering exactRemembering s.withoutLimits.events
        t.withoutLimits.events s.withoutLimits t.withoutLimits :=
      ⟨hremaining, hexhausted, ⟨[], rfl, rfl⟩, hs, ht⟩
    obtain ⟨hvalue, hstate⟩ := (levels_deeper T (T.settings.maxDepth + 1 - depth) style text
      hagree).same fun _ => not_false
    obtain ⟨news, hupper, hlower⟩ := hstate.events
    refine ⟨hvalue.symm, hstate.remaining.symm, hstate.exhausted.symm, news.reverse, ?_, ?_⟩
    · exact (congrArg List.reverse hupper).trans List.reverse_append
    · exact (congrArg List.reverse hlower).trans List.reverse_append
  · intro body hbalanced source
    obtain ⟨t, hrun, hagree⟩ := run_deeper_group T exactRemembering hbalanced.neutral
    have hmap : (T.deeper.history source).map Event.withoutLimit =
        (T.history body).map Event.withoutLimit ++ [.called .group [T.transform body]] := by
      have hevents : ((T.run .remembering body).2.events).map Event.withoutLimit =
          t.events.map Event.withoutLimit := hagree.events_eq
      unfold Typesetter.history
      rw [hrun, history_record, List.map_append, ExpansionState.history, ExpansionState.history,
        List.map_reverse, List.map_reverse, hevents]
      rfl
    refine ⟨?_, ?_, ?_, hmap⟩
    · unfold Typesetter.transform Typesetter.tokenize
      rw [hrun]
      exact typeset_ord _ _ _
    · rw [hrun]
      exact hagree.remaining.symm
    · rw [← filter_withoutLimit, hmap, List.filter_append, filter_withoutLimit]
      exact List.append_nil _

def boxOnce : Typesetter where
  registry := ⟨[(['b', 'o', 'x'], .text ['{', 'b', '}'])]⟩
  settings := { maxDepth := 1, maxExpansions := 1 }

/-- Both ceilings are met: the inner group is too deep and the second splice is refused. -/
theorem group_is_one_level_down_box :
    let body := ['\\', 'b', 'o', 'x', '{', '{', 'c', '}', '}', '\\', 'b', 'o', 'x']
    let s : ExpansionState .remembering := { remaining := 1 }
    let t : ExpansionState .remembering := { remaining := 1, events := [.called .group [['c']]] }
    SoundMemory exactRemembering s ∧ SoundMemory exactRemembering t ∧ IsBalanced body ∧
      ((boxOnce.deeper.levels .remembering 2).expand .text body t).1 =
        ((boxOnce.levels .remembering 2).expand .text body s).1 ∧
      boxOnce.deeper.transform ('{' :: (body ++ ['}'])) = boxOnce.transform body := by
  intro body s t
  have hs : SoundMemory exactRemembering s := soundMemory_of_memories_nil exactRemembering rfl
  have ht : SoundMemory exactRemembering t := soundMemory_of_memories_nil exactRemembering rfl
  have hbalanced : IsBalanced body := by decide
  obtain ⟨hlevels, hgroup⟩ := group_is_one_level_down boxOnce
  exact ⟨hs, ht, hbalanced, (hlevels 0 .text body s t rfl rfl hs ht).1,
    (hgroup body hbalanced).1⟩

end Proofs

end MathMarkup
