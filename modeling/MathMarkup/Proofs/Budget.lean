import MathMarkup.Proofs.Course

/-!
# The budget of splices

The splices that are left and those that were performed make up the budget at every state on the
course of an expansion. So the attempts to splice that fit into the budget are performed, all later
ones are refused, and the first refusal is the one that is reported.
-/

namespace MathMarkup

/-- The macro that is named when it is reported that the budget is spent. -/
def Event.exhaustedAt? : Event → Option Text
  | .noticed (.budgetSpent name) => some name
  | _ => none

def exhaustions (history : List Event) : List Text := history.filterMap Event.exhaustedAt?

/-- No arguments make the macro splice a text of its own. -/
def FunctionMacro.GivesNoText (f : FunctionMacro) : Prop :=
  ∀ arguments text, f.handler arguments ≠ .text text

namespace Proofs

variable {F : GroupFinder} {budget : Nat} {s : ExpansionState F}

/-- What the attempts that were made by now say about a state, given the budget that the expansion
began with. -/
structure Accounted (budget : Nat) (made : List Attempt) (s : ExpansionState F) : Prop where
  recorded : attempts s.history = made
  balance : s.remaining + made.countP (·.performed) = budget
  performed : ∀ a ∈ made.take budget, a.performed = true
  refused : ∀ a ∈ made.drop budget, a.performed = false
  reported : exhaustions s.history = (made[budget]?).toList.map fun a => a.site.name

/-! ### The ledger -/

/-- The sites of the attempts so far, the ones paid for and the ones refused after them. -/
structure Ledger (budget : Nat) (s : ExpansionState F) (paid refused : List Site) : Prop where
  attempts_eq : attempts s.history = paid.map (⟨·, true⟩) ++ refused.map (⟨·, false⟩)
  balance : s.remaining + paid.length = budget
  spent : refused ≠ [] → s.remaining = 0
  reported : exhaustions s.history = refused.head?.toList.map Site.name
  exhausted : s.exhausted = !refused.isEmpty

@[simp] lemma exhaustions_append (history later : List Event) :
    exhaustions (history ++ later) = exhaustions history ++ exhaustions later :=
  List.filterMap_append

lemma attempt?_of_not_concernsBudget {event : Event} (h : event.concernsBudget = false) :
    event.attempt? = none ∧ event.exhaustedAt? = none := by
  cases event with
  | called site arguments => exact ⟨rfl, rfl⟩
  | spliced site text => cases h
  | refused site => cases h
  | noticed notice =>
    cases notice with
    | budgetSpent name => cases h
    | _ => exact ⟨rfl, rfl⟩

namespace Ledger

variable {paid refused : List Site}

lemma record (h : Ledger budget s paid refused) {event : Event}
    (hevent : event.concernsBudget = false) : Ledger budget (s.record event) paid refused := by
  obtain ⟨hattempt, hexhausted⟩ := attempt?_of_not_concernsBudget hevent
  have hexhaustions : exhaustions [event] = [] := by simp [exhaustions, hexhausted]
  refine ⟨(attempts_record s hattempt).trans h.attempts_eq, h.balance, h.spent, ?_, h.exhausted⟩
  · rw [history_record, exhaustions_append, hexhaustions, List.append_nil, h.reported]

lemma pay (h : Ledger budget s paid refused) (hleft : s.remaining ≠ 0) (site : Site)
    (text : Text) : Ledger budget (s.spend site text).2 (paid ++ [site]) refused := by
  have hnone : refused = [] := by
    by_contra hne
    exact hleft (h.spent hne)
  subst hnone
  have hbalance := h.balance
  have hhistory := history_spend_of_ne hleft site text
  rw [spend_of_ne hleft] at hhistory ⊢
  refine ⟨?_, ?_, fun hne => absurd rfl hne, ?_, h.exhausted⟩
  · have hnew : attempts [.spliced site text] = [⟨site, true⟩] := rfl
    rw [hhistory, attempts_append, hnew, h.attempts_eq]
    simp
  · rw [List.length_append, List.length_singleton]
    dsimp only
    omega
  · have hnew : exhaustions [.spliced site text] = [] := rfl
    rw [hhistory, exhaustions_append, hnew, List.append_nil, h.reported]

/-- The first refusal is reported, and no later one. -/
lemma refuse (h : Ledger budget s paid refused) (hspent : s.remaining = 0) (site : Site)
    (text : Text) : Ledger budget (s.spend site text).2 paid (refused ++ [site]) := by
  have hbalance := h.balance
  have hhistory := history_spend_of_spent hspent site text
  obtain ⟨s', hspend, hremaining, hexhausted⟩ := spend_of_spent hspent site text
  rw [hspend] at hhistory ⊢
  refine ⟨?_, ?_, fun _ => hremaining, ?_, ?_⟩
  · rw [hhistory, attempts_append, attempts_refusal, h.attempts_eq]
    simp
  · rw [hremaining, ← hspent, hbalance]
  · rw [hhistory, exhaustions_append, h.reported, h.exhausted]
    cases refused <;> rfl
  · rw [hexhausted]
    simp

/-- The ledger decides what the account says: refusals come after the whole budget. -/
lemma accounted (h : Ledger budget s paid refused) :
    Accounted budget (attempts s.history) s := by
  have hbalance := h.balance
  have hpaid : (attempts s.history).countP (·.performed) = paid.length := by
    rw [h.attempts_eq, List.countP_append, List.countP_map, List.countP_map]
    simp [Function.comp_def]
  have hsplit : (attempts s.history).take budget = paid.map (⟨·, true⟩) ∧
      (attempts s.history).drop budget = refused.map (⟨·, false⟩) := by
    by_cases hnone : refused = []
    · subst hnone
      have hlength : (attempts s.history).length ≤ budget := by
        rw [h.attempts_eq]
        simp
        omega
      rw [List.take_of_length_le hlength, List.drop_of_length_le hlength, h.attempts_eq]
      simp
    · have hlength : (paid.map fun site => (⟨site, true⟩ : Attempt)).length = budget := by
        have hspent := h.spent hnone
        rw [List.length_map]
        omega
      rw [h.attempts_eq]
      exact ⟨List.take_left' hlength, List.drop_left' hlength⟩
  refine ⟨rfl, by rw [hpaid]; exact hbalance, ?_, ?_, ?_⟩
  · rw [hsplit.1]
    simp
  · rw [hsplit.2]
    simp
  · rw [h.reported, ← List.head?_drop, hsplit.2]
    cases refused <;> rfl

end Ledger

/-- There is a ledger at every moment. -/
def keepingLedger (F : GroupFinder) (budget : Nat) : Invariant F where
  Holds s := ∃ paid refused, Ledger budget s paid refused
  record := by
    rintro s event hevent ⟨paid, refused, h⟩
    exact ⟨paid, refused, h.record hevent⟩
  collect := by
    rintro s level count text ⟨paid, refused, h⟩
    exact ⟨paid, refused, h.attempts_eq, h.balance, h.spent, h.reported, h.exhausted⟩
  spend := by
    rintro s site text ⟨paid, refused, h⟩
    by_cases hspent : s.remaining = 0
    · exact ⟨paid, refused ++ [site], h.refuse hspent site text⟩
    · exact ⟨paid ++ [site], refused, h.pay hspent site text⟩

lemma ledger_initialState (T : Typesetter) (F : GroupFinder) :
    Ledger T.settings.maxExpansions (T.initialState F) [] [] :=
  ⟨rfl, rfl, fun h => absurd rfl h, rfl, rfl⟩

/-! ### What costs nothing -/

/-- Only a splice that is paid for changes the budget. What a macro with arguments leaves of it is
what the expansion of the arguments leaves, unless its handler answers with a text. -/
structure OnlySplicesCost (T : Typesetter) (F : GroupFinder) : Prop where
  token : ∀ (nested : Nested F) level style site token after s,
    (T.attempt nested level style site (.token token) after s).2.remaining = s.remaining
  call : ∀ site (f : FunctionMacro) arguments rest (s : ExpansionState F),
    (∀ text, f.handler arguments ≠ .text text) →
      (Typesetter.call site f arguments rest s).2.remaining = s.remaining
  function : ∀ (nested : Nested F) level style site (f : FunctionMacro) after s, f.GivesNoText →
    (T.attempt nested level style site (.function f) after s).2.remaining =
      (T.takeArguments nested level style site f after s).2.remaining
  arguments : ∀ (nested : Nested F) level style site (f : FunctionMacro) after s,
    (∀ style text s, (nested.expand style text s).2.remaining = s.remaining) →
      (T.takeArguments nested level style site f after s).2.remaining = s.remaining
  group : groupMacro.GivesNoText
  scripts : superscript.GivesNoText ∧ subscript.GivesNoText
  refusal : ∀ (s : ExpansionState F) site text refusal s',
    s.spend site text = (.error refusal, s') → s'.remaining = s.remaining

lemma remaining_call_eq (site : Site) {f : FunctionMacro} {arguments : List Text} (rest : Text)
    (s : ExpansionState F) (h : ∀ text, f.handler arguments ≠ .text text) :
    (Typesetter.call site f arguments rest s).2.remaining = s.remaining := by
  rw [Typesetter.call]
  cases hreply : f.handler arguments with
  | text text => exact absurd hreply (h text)
  | _ => rfl

lemma remaining_attempt_eq (T : Typesetter) (nested : Nested F) (level : Nat) (style : Style)
    (site : Site) {f : FunctionMacro} (hf : f.GivesNoText) (after : Text) (s : ExpansionState F) :
    (T.attempt nested level style site (.function f) after s).2.remaining =
      (T.takeArguments nested level style site f after s).2.remaining := by
  rw [Typesetter.attempt]
  rcases T.takeArguments nested level style site f after s with ⟨taken, s₁⟩
  rcases taken with refusal | taken
  · rfl
  · cases taken with
    | none => rfl
    | some taken => exact remaining_call_eq site taken.2 s₁ (hf taken.1)

lemma remaining_setArguments_eq (T : Typesetter) {nested : Nested F}
    (hn : ∀ style text s, (nested.expand style text s).2.remaining = s.remaining) (style : Style)
    (arguments : List Text) (s : ExpansionState F) :
    (T.setArguments nested style arguments s).2.remaining = s.remaining := by
  induction arguments generalizing s with
  | nil => rfl
  | cons argument arguments ih =>
    have hfirst := hn style argument s
    rw [Typesetter.setArguments]
    rcases hexpand : nested.expand style argument s with ⟨expanded, s₁⟩
    rw [hexpand] at hfirst
    cases expanded with
    | error refusal => exact hfirst
    | ok tokens =>
      have hlater := (ih s₁).trans hfirst
      dsimp only
      split <;> next heq => rw [heq] at hlater; exact hlater

lemma remaining_takeArguments_eq (T : Typesetter) {nested : Nested F}
    (hn : ∀ style text s, (nested.expand style text s).2.remaining = s.remaining) (level : Nat)
    (style : Style) (site : Site) (f : FunctionMacro) (after : Text) (s : ExpansionState F) :
    (T.takeArguments nested level style site f after s).2.remaining = s.remaining := by
  rw [Typesetter.takeArguments]
  rcases collectArguments F f.arity after (s.memory level) with ⟨collected, memory⟩
  cases collected with
  | error before => rfl
  | ok found =>
    dsimp only
    split
    · have hset := remaining_setArguments_eq T hn (style.max f.style) found.1
        (s.setMemory level memory)
      split <;> next heq => rw [heq] at hset; exact hset
    · rfl

lemma givesNoText_unary (preparse : Bool) {f : Text → Reply}
    (h : ∀ argument text, f argument ≠ .text text) :
    (FunctionMacro.unary preparse f).GivesNoText := by
  intro arguments text
  cases arguments with
  | nil =>
    intro hfailed
    cases hfailed
  | cons argument arguments => exact h argument text

lemma remaining_of_refused {site : Site} {text : Text} {refusal : Refusal}
    {s s' : ExpansionState F} (h : s.spend site text = (.error refusal, s')) :
    s'.remaining = s.remaining := by
  unfold ExpansionState.spend at h
  split at h
  · cases h
    dsimp only
    split <;> rfl
  · cases h

theorem onlySplicesCost (T : Typesetter) (F : GroupFinder) : OnlySplicesCost T F where
  token _ _ _ _ _ _ _ := rfl
  call site _ _ rest s h := remaining_call_eq site rest s h
  function nested level style site _ after s hf :=
    remaining_attempt_eq T nested level style site hf after s
  arguments nested level style site f after s hn :=
    remaining_takeArguments_eq T hn level style site f after s
  group := givesNoText_unary true fun _ _ => by simp
  scripts := ⟨givesNoText_unary true fun _ _ => by simp, givesNoText_unary true fun _ _ => by simp⟩
  refusal _ _ _ _ _ h := remaining_of_refused h

/-! ### What a splice costs -/

/-- A text that is to be spliced, be it the text of a macro or the answer of a handler, costs one
splice if one is left. Otherwise it is refused, and the character that starts the macro is set as
it is. -/
structure SplicesCostOne (T : Typesetter) (F : GroupFinder) : Prop where
  splice : ∀ site text rest (s : ExpansionState F),
    SplicesFor site text rest s (Typesetter.splice site text rest s)
  call : ∀ site (f : FunctionMacro) arguments text rest (s : ExpansionState F),
    f.handler arguments = .text text →
      SplicesFor site text rest (s.record (.called site arguments))
        (Typesetter.call site f arguments rest s)
  text : ∀ (nested : Nested F) level style site text after s,
    SplicesFor site text after s (T.attempt nested level style site (.text text) after s)
  reply : ∀ (nested : Nested F) level style site (f : FunctionMacro) after s arguments text rest
    taken, T.takeArguments nested level style site f after s =
      (.ok (some (arguments, rest)), taken) → f.handler arguments = .text text →
        SplicesFor site text rest (taken.record (.called site arguments))
          (T.attempt nested level style site (.function f) after s)
  refusal : ∀ (nested : Nested F) level style c rest s site m after refusal,
    T.start? c rest = some (site, m, after) →
      (T.attempt nested level style site m after s).1 = .error refusal →
        (T.step nested level style c rest s).1 = T.literal c rest

theorem splicesCostOne (T : Typesetter) (F : GroupFinder) : SplicesCostOne T F where
  splice := splicesFor_splice
  call site _ _ _ rest s hreply := splicesFor_call hreply site rest s
  text _ _ _ site text after s := splicesFor_splice site text after s
  reply _ _ _ _ _ _ _ _ _ _ _ htaken hreply := splicesFor_attempt htaken hreply
  refusal _ _ _ _ _ _ _ _ _ _ hstart hrefused := by rw [step_of_attempt hstart, hrefused]

/-- At every state on the course of an expansion, its end included, the splices performed so far
are those that the budget lacks; the attempts that fit into the budget are performed and all others
refused; and it is reported once that the budget is spent if there is one attempt more, naming its
macro. The states on the course are the moments of the expansion. Nothing but a splice that is
performed changes the budget, and each costs one. -/
theorem budget_accounted (T : Typesetter) (source : Text) :
    let start : Point .remembering := ⟨0, .text, source, T.initialState .remembering⟩
    (∀ before s later, course T start = before ++ .state s :: later →
      s.history <+: T.history source ∧ Accounted T.settings.maxExpansions (made before) s) ∧
    (∀ s, Moment T start s ↔ .state s ∈ course T start) ∧
    [.state (T.run .remembering source).2] <:+ course T start ∧
    OnlySplicesCost T .remembering ∧ SplicesCostOne T .remembering := by
  intro start
  have hend : [.state (start.final T)] <:+ course T start :=
    final_suffix_course (Nat.zero_le _) .text source (T.initialState .remembering)
  refine ⟨?_, fun s => moment_iff_mem_course, hend, onlySplicesCost T .remembering,
    splicesCostOne T .remembering⟩
  intro before s later hcourse
  have hmoment : Moment T start s := moment_iff_mem_course.mpr (by simp [hcourse])
  have hbegins : s.history <+: T.history source := history_prefix_of_moment hmoment
  have hmade : attempts s.history = made before := (follows_course T start).attempts_eq hcourse
  obtain ⟨paid, refused, hledger⟩ :=
    Invariant.moment (I := keepingLedger .remembering T.settings.maxExpansions) hmoment
      ⟨[], [], ledger_initialState T .remembering⟩
  exact ⟨hbegins, hmade ▸ hledger.accounted⟩

end Proofs

end MathMarkup
