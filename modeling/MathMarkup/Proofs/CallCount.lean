import Mathlib
import MathMarkup.Proofs.ArgumentSpans
import MathMarkup.Proofs.Budget

/-!
# How often functions are called

Every call of a function from the registry is paid for by a backslash, one of the source or one of
a text that was spliced. Only a function that has its arguments expanded and then does not expand
costs more: its arguments are read again after it, and the backslashes in them pay a second time.
-/

namespace MathMarkup

def escapes (text : Text) : Nat := text.count '\\'

/-- A control sequence begins with a backslash. -/
def Site.escapes : Site → Nat
  | .command _ => 1
  | _ => 0

/-- A function from the registry is called. Groups and scripts are not in the registry. -/
def Event.callsFunction : Event → Bool
  | .called (.command _) _ => true
  | _ => false

def Event.splicedText? : Event → Option Text
  | .spliced _ text => some text
  | _ => none

def functionCalls (history : List Event) : Nat := history.countP Event.callsFunction

/-- The texts that were spliced, one after the other. -/
def splicedText (history : List Event) : Text := (history.filterMap Event.splicedText?).flatten

/-- The arguments as they are written between the function and the markup after them, if the
function has them expanded. -/
def FunctionMacro.expandedText (f : FunctionMacro) (after later : Text) : Text :=
  if f.preparse then after.take (after.length - later.length) else []

namespace Proofs

variable {F : GroupFinder}

/-- The text that a step expands as arguments of a function that then does not expand. -/
def stepInVain (T : Typesetter) (nested : Nested F) (level : Nat) (style : Style) (c : Char)
    (rest : Text) (s : ExpansionState F) : Text :=
  match T.start? c rest with
  | some (site, .function f, after) =>
    match T.takeArguments nested level style site f after s with
    | (.ok (some (arguments, later)), taken) =>
      match (Typesetter.call site f arguments later taken).1 with
      | .ok (some _) => []
      | _ => f.expandedText after later
    | _ => []
  | _ => []

/-- What is expanded in vain from a point on, nested markup included. -/
def inVain (T : Typesetter) : Point F → Text
  | ⟨_, _, [], _⟩ => []
  | ⟨depth, style, c :: rest, s⟩ =>
    if depth ≤ T.settings.maxDepth then
      let level := T.settings.maxDepth - depth
      stepInVain T (T.levels F level) level style c rest s ++
        (stepEntries T (T.levels F level) level depth style c rest s).attach.flatMap
          (fun entry => inVain T entry.1) ++
        inVain T ⟨depth, style, (stepAt T depth style c rest s).1.rest,
          (stepAt T depth style c rest s).2⟩
    else []
termination_by p => p.measure T
decreasing_by
  · exact below_of_next (Next.enter ‹_› entry.2)
  · exact below_of_next (Next.iterate ‹_›)

lemma inVain_cons (T : Typesetter) {depth : Nat} (hdepth : depth ≤ T.settings.maxDepth)
    (style : Style) (c : Char) (rest : Text) (s : ExpansionState F) :
    inVain T ⟨depth, style, c :: rest, s⟩ =
      stepInVain T (T.levels F (T.settings.maxDepth - depth)) (T.settings.maxDepth - depth) style c
          rest s ++
        (stepEntries T (T.levels F (T.settings.maxDepth - depth)) (T.settings.maxDepth - depth)
          depth style c rest s).flatMap (inVain T) ++
        inVain T ⟨depth, style, (stepAt T depth style c rest s).1.rest,
          (stepAt T depth style c rest s).2⟩ := by
  rw [inVain, if_pos hdepth]
  simp

/-! ### Backslashes -/

@[simp] lemma escapes_append (a b : Text) : escapes (a ++ b) = escapes a + escapes b :=
  List.count_append

lemma escapes_le_of_sublist {a b : Text} (h : a.Sublist b) : escapes a ≤ escapes b :=
  h.count_le _

lemma escapes_take_add_drop (n : Nat) (text : Text) :
    escapes (text.take n) + escapes (text.drop n) = escapes text := by
  rw [← escapes_append, List.take_append_drop]

/-- Arguments hold no backslashes but those of the text they were found in. -/
lemma escapes_collectArguments {count : Nat} {text : Text} {memory memory' : F.Memory}
    {arguments : List Text} {total : Nat}
    (h : collectArguments F count text memory = (.ok (arguments, total), memory')) :
    escapes arguments.flatten ≤ escapes (text.take total) := by
  induction count generalizing text memory memory' arguments total with
  | zero =>
    cases h
    exact Nat.le_refl _
  | succ count ih =>
    rw [collectArguments] at h
    rcases hend : argumentEnd? F text memory with ⟨found, memory₁⟩
    rw [hend] at h
    cases found with
    | none => cases h
    | some length =>
      dsimp only at h
      rcases hlater : collectArguments F count (text.drop length) memory₁ with ⟨later, memory₂⟩
      rw [hlater] at h
      cases later with
      | error before => cases h
      | ok later =>
        cases h
        have hfirst := escapes_le_of_sublist (unwrap_sublist (text.take length))
        have hrest := ih hlater
        rw [List.flatten_cons, escapes_append, List.take_add, escapes_append]
        omega

lemma expandedText_drop {f : FunctionMacro} (hf : f.preparse = true) (after : Text) (n : Nat) :
    f.expandedText after (after.drop n) = after.take n := by
  rw [FunctionMacro.expandedText, if_pos hf, List.length_drop]
  by_cases hn : n ≤ after.length
  · rw [Nat.sub_sub_self hn]
  · rw [List.take_of_length_le (by omega), List.take_of_length_le (by omega)]

lemma escapes_expandedText (f : FunctionMacro) (after : Text) (n : Nat) :
    escapes (f.expandedText after (after.drop n)) + escapes (after.drop n) ≤ escapes after := by
  by_cases hf : f.preparse = true
  · rw [expandedText_drop hf, escapes_take_add_drop]
  · rw [FunctionMacro.expandedText, if_neg hf]
    have hdrop := escapes_le_of_sublist (List.drop_sublist n after)
    simpa [escapes] using hdrop

/-! ### Paying for calls -/

/-- The calls that no spliced text has paid for. -/
def unpaid (history : List Event) : Int := functionCalls history - escapes (splicedText history)

lemma unpaid_append (history later : List Event) :
    unpaid (history ++ later) = unpaid history + unpaid later := by
  simp only [unpaid, functionCalls, splicedText, List.countP_append, List.filterMap_append,
    List.flatten_append, escapes_append]
  omega

lemma unpaid_record (s : ExpansionState F) (event : Event) :
    unpaid (s.record event).history = unpaid s.history + unpaid [event] := by
  rw [history_record, unpaid_append]

lemma unpaid_called (site : Site) (arguments : List Text) :
    unpaid [.called site arguments] = site.escapes := by
  cases site <;> rfl

lemma unpaid_spliced (site : Site) (text : Text) :
    unpaid [.spliced site text] = -escapes text := by
  simp [unpaid, functionCalls, splicedText, Event.callsFunction, Event.splicedText?]

lemma unpaid_refusal (site : Site) (known : Bool) :
    unpaid (.refused site :: if known then [] else [.noticed (.budgetSpent site.name)]) = 0 := by
  cases known <;> rfl

lemma unpaid_report (s : ExpansionState F) (notice : Notice) :
    unpaid (s.report notice).history = unpaid s.history := by
  rw [ExpansionState.report, unpaid_record]
  exact Int.add_zero _

/-- So many backslashes pay for an expansion and those in the markup it leaves, or else for an
attempt that does not expand. -/
structure PaysFor (expanded failed : Nat) (s : ExpansionState F)
    (result : Except Refusal (Option Expanded) × ExpansionState F) : Prop where
  expanded : ∀ left, result.1 = .ok (some left) →
    unpaid result.2.history + escapes left.rest ≤ unpaid s.history + expanded
  failed : (∀ left, result.1 ≠ .ok (some left)) →
    unpaid result.2.history ≤ unpaid s.history + failed

namespace PaysFor

variable {expanded failed : Nat} {s s' : ExpansionState F}

lemma of_expanded {left : Expanded}
    (h : unpaid s'.history + escapes left.rest ≤ unpaid s.history + expanded) :
    PaysFor expanded failed s (.ok (some left), s') := by
  refine ⟨?_, fun hne => absurd rfl (hne left)⟩
  intro left' hleft
  cases hleft
  exact h

lemma of_none (h : unpaid s'.history ≤ unpaid s.history + failed) :
    PaysFor expanded failed s (.ok none, s') :=
  ⟨by simp, fun _ => h⟩

lemma of_refused {refusal : Refusal} (h : unpaid s'.history ≤ unpaid s.history + failed) :
    PaysFor expanded failed s (.error refusal, s') :=
  ⟨by simp, fun _ => h⟩

lemma mono {expanded' failed' : Nat} {s₀ : ExpansionState F}
    {result : Except Refusal (Option Expanded) × ExpansionState F}
    (h : PaysFor expanded failed s result)
    (hexpanded : unpaid s.history + expanded ≤ unpaid s₀.history + expanded')
    (hfailed : unpaid s.history + failed ≤ unpaid s₀.history + failed') :
    PaysFor expanded' failed' s₀ result :=
  ⟨fun left hleft => Int.le_trans (h.expanded left hleft) hexpanded,
    fun hne => Int.le_trans (h.failed hne) hfailed⟩

end PaysFor

section Step

variable {T : Typesetter} {nested : Nested F} {level depth : Nat} {style : Style} {site : Site}
  {f : FunctionMacro} {s : ExpansionState F}

/-- A text that is spliced pays for its own backslashes. -/
lemma paysFor_splice (site : Site) (text rest : Text) (s : ExpansionState F) :
    PaysFor (escapes rest) 0 s (Typesetter.splice site text rest s) := by
  have hsplices := splicesFor_splice site text rest s
  rcases hsplice : Typesetter.splice site text rest s with ⟨result, s'⟩
  rw [hsplice] at hsplices
  by_cases hspent : s.remaining = 0
  · obtain ⟨rfl, -, hhistory⟩ := hsplices.refused hspent
    apply PaysFor.of_refused
    rw [hhistory, unpaid_append, unpaid_refusal]
    omega
  · obtain ⟨rfl, -, hhistory⟩ := hsplices.performed hspent
    apply PaysFor.of_expanded
    rw [hhistory, unpaid_append, unpaid_spliced, escapes_append]
    omega

lemma paysFor_call (site : Site) (f : FunctionMacro) (arguments : List Text) (rest : Text)
    (s : ExpansionState F) :
    PaysFor (site.escapes + escapes rest) site.escapes s
      (Typesetter.call site f arguments rest s) := by
  have hcalled := unpaid_record s (.called site arguments)
  rw [unpaid_called] at hcalled
  have hnoticed : ∀ notice, unpaid ((s.record (.called site arguments)).report notice).history ≤
      unpaid s.history + site.escapes := by
    intro notice
    exact Int.le_of_eq ((unpaid_report _ notice).trans hcalled)
  rw [Typesetter.call]
  cases f.handler arguments with
  | tokens tokens =>
    apply PaysFor.of_expanded
    dsimp only
    omega
  | text text =>
    apply (paysFor_splice site text rest (s.record (.called site arguments))).mono
    · omega
    · omega
  | nothing => exact .of_none (Int.le_of_eq hcalled)
  | failed => exact .of_none (hnoticed _)
  | other kind shown => exact .of_none (hnoticed _)

/-! ### Arguments -/

/-- At each of the points, its own backslashes and those of one more text pay for nested markup. -/
def PaidWithin (nested : Nested F) (more : Point F → Text) (entries : List (Point F)) : Prop :=
  ∀ q ∈ entries, unpaid (nested.expand q.style q.text q.state).2.history ≤
    unpaid q.state.history + escapes q.text + escapes (more q)

lemma level_of_refused {style : Style} {text : Text} {refusal : Refusal} {s' : ExpansionState F}
    (h : (T.levels F level).expand style text s = (.error refusal, s')) : level = 0 := by
  cases level with
  | zero => rfl
  | succ level => cases h

/-- Arguments that are refused are refused before anything is called. -/
lemma unpaid_of_refused {style : Style} {arguments : List Text} {refusal : Refusal}
    {s' : ExpansionState F}
    (h : T.setArguments (T.levels F level) style arguments s = (.error refusal, s')) :
    unpaid s'.history = unpaid s.history := by
  -- Only where no level is left is markup refused, and there it is refused at once.
  have hlevel : level = 0 := by
    induction arguments generalizing s with
    | nil => cases h
    | cons argument arguments ih =>
      rw [Typesetter.setArguments] at h
      split at h
      · next hexpand => exact level_of_refused hexpand
      · split at h
        · next hlater =>
          cases h
          exact ih hlater
        · cases h
  subst hlevel
  cases arguments with
  | nil => cases h
  | cons argument arguments =>
    cases h
    exact unpaid_report s _

lemma unpaid_setArguments {more : Point F → Text} {arguments : List Text}
    (hn : PaidWithin nested more (argumentEntries nested depth style arguments s)) :
    unpaid (T.setArguments nested style arguments s).2.history ≤
      unpaid s.history + escapes arguments.flatten +
        escapes ((argumentEntries nested depth style arguments s).flatMap more) := by
  induction arguments generalizing s with
  | nil =>
    rw [Typesetter.setArguments]
    dsimp only
    omega
  | cons argument arguments ih =>
    have hfirst := hn ⟨depth, style, argument, s⟩ List.mem_cons_self
    rw [Typesetter.setArguments]
    rw [argumentEntries] at hn ⊢
    rcases hexpand : nested.expand style argument s with ⟨expanded, s₁⟩
    rw [hexpand] at hfirst hn
    dsimp only at hfirst
    rw [List.flatten_cons, List.flatMap_cons, escapes_append, escapes_append]
    cases expanded with
    | error refusal =>
      dsimp only
      omega
    | ok tokens =>
      have hlater := ih fun q hq => hn q (List.mem_cons_of_mem _ hq)
      dsimp only
      split <;> next heq => rw [heq] at hlater; dsimp only at hlater ⊢; omega

section Function

variable {more : Point F → Text} {c : Char} {rest after : Text} {entries : List (Point F)}

/-- What the expansion of arguments costs, they pay themselves. -/
lemma unpaid_takeArguments (hstart : T.start? c rest = some (site, .function f, after))
    (hentries : stepEntries T (T.levels F level) level depth style c rest s = entries)
    (hn : PaidWithin (T.levels F level) more entries)
    {result : Except Refusal (Option (List Text × Text))} {s' : ExpansionState F}
    (hresult : T.takeArguments (T.levels F level) level style site f after s = (result, s')) :
    match result with
    | .ok (some (_, later)) => unpaid s'.history ≤
        unpaid s.history + escapes (f.expandedText after later) + escapes (entries.flatMap more)
    | _ => unpaid s'.history ≤ unpaid s.history := by
  unfold stepEntries at hentries
  unfold Typesetter.takeArguments at hresult
  rw [hstart] at hentries
  dsimp only at hentries
  rcases hcollect : collectArguments F f.arity after (s.memory level) with ⟨collected, memory⟩
  rw [hcollect] at hentries hresult
  have hmemory : unpaid (s.setMemory level memory).history = unpaid s.history := rfl
  cases collected with
  | error before =>
    cases hresult
    exact Int.le_of_eq (unpaid_report (s.setMemory level memory) _)
  | ok found =>
    dsimp only at hentries hresult
    by_cases hf : f.preparse = true
    · rw [if_pos hf] at hentries hresult
      subst hentries
      have hset := unpaid_setArguments (T := T) hn
      have hfound := escapes_collectArguments hcollect
      rcases hgiven : T.setArguments (T.levels F level) (style.max f.style) found.1
        (s.setMemory level memory) with ⟨texts, s₁⟩
      rw [hgiven] at hresult hset
      cases texts with
      | error refusal =>
        cases hresult
        exact Int.le_of_eq ((unpaid_of_refused hgiven).trans hmemory)
      | ok texts =>
        cases hresult
        dsimp only at hset ⊢
        rw [expandedText_drop hf]
        omega
    · rw [if_neg hf] at hresult
      cases hresult
      dsimp only
      omega

lemma paysFor_function (hstart : T.start? c rest = some (site, .function f, after))
    (hentries : stepEntries T (T.levels F level) level depth style c rest s = entries)
    (hn : PaidWithin (T.levels F level) more entries) :
    PaysFor (site.escapes + escapes after + escapes (entries.flatMap more))
      (site.escapes + escapes (stepInVain T (T.levels F level) level style c rest s) +
        escapes (entries.flatMap more)) s
      (T.attempt (T.levels F level) level style site (.function f) after s) := by
  unfold Typesetter.attempt stepInVain
  rw [hstart]
  dsimp only
  rcases hresult : T.takeArguments (T.levels F level) level style site f after s with
    ⟨result, taken⟩
  have hunpaid := unpaid_takeArguments hstart hentries hn hresult
  rcases result with refusal | _ | ⟨arguments, later⟩
  · exact .of_refused (by dsimp only at hunpaid ⊢; omega)
  · exact .of_none (by dsimp only at hunpaid ⊢; omega)
  · obtain ⟨length, rfl, -⟩ := T.rest_of_takeArguments hresult
    have hescapes := escapes_expandedText f after length
    obtain ⟨hexpanded, hfailed⟩ := paysFor_call site f arguments (after.drop length) taken
    dsimp only at hunpaid ⊢
    constructor
    · intro left hleft
      have hcalled := hexpanded left hleft
      omega
    · intro hne
      have hcalled := hfailed hne
      split
      · next hcall => exact absurd hcall (hne _)
      · omega

/-- A name and the backslash before it hold what is no longer in the text after it. -/
lemma escapes_of_start? {m : Macro} (hstart : T.start? c rest = some (site, m, after)) :
    site.escapes + escapes after ≤ escapes (c :: rest) ∧
      site.escapes + escapes rest ≤ escapes (c :: rest) := by
  have hchar := escapes_le_of_sublist (List.sublist_cons_self c rest)
  rw [Typesetter.start?.eq_def] at hstart
  split at hstart
  · simp only [Option.bind_eq_bind, Option.bind_eq_some_iff, Option.pure_def, Option.some.injEq,
      Prod.mk.injEq, Prod.exists] at hstart
    obtain ⟨name, tail, hname, m', -, rfl, -, rfl⟩ := hstart
    have hescape : escapes ('\\' :: rest) = escapes rest + 1 := List.count_cons_self
    have htail := escapes_le_of_sublist (sublist_of_controlName? hname)
    simp only [Site.escapes]
    omega
  all_goals cases hstart
  all_goals simp only [Site.escapes]
  all_goals omega

lemma paysFor_attempt {m : Macro} (hstart : T.start? c rest = some (site, m, after))
    (hentries : stepEntries T (T.levels F level) level depth style c rest s = entries)
    (hn : PaidWithin (T.levels F level) more entries) :
    PaysFor (site.escapes + escapes after + escapes (entries.flatMap more))
      (site.escapes + escapes (stepInVain T (T.levels F level) level style c rest s) +
        escapes (entries.flatMap more)) s
      (T.attempt (T.levels F level) level style site m after s) := by
  cases m with
  | token token =>
    apply PaysFor.of_expanded
    dsimp only
    omega
  | text text =>
    apply (paysFor_splice site text after s).mono
    · omega
    · omega
  | function f => exact paysFor_function hstart hentries hn

/-- A step and the markup it leaves cost the backslashes of the markup it begins with, those that
it expands in vain and those that nested markup expands in vain. -/
theorem unpaid_step
    (hentries : stepEntries T (T.levels F level) level depth style c rest s = entries)
    (hn : PaidWithin (T.levels F level) more entries) :
    let result := T.step (T.levels F level) level style c rest s
    unpaid result.2.history + escapes result.1.rest ≤ unpaid s.history + escapes (c :: rest) +
      escapes (stepInVain T (T.levels F level) level style c rest s) +
      escapes (entries.flatMap more) := by
  intro result
  cases hstart : T.start? c rest with
  | none =>
    have hresult : result = (T.literal c rest, s) := by
      simp only [result, Typesetter.step, hstart]
    have hchar := escapes_le_of_sublist (List.sublist_cons_self c rest)
    rw [hresult]
    change unpaid s.history + escapes rest ≤ _
    omega
  | some start =>
    obtain ⟨site, m, after⟩ := start
    obtain ⟨hafter, hrest⟩ := escapes_of_start? hstart
    obtain ⟨hexpanded, hfailed⟩ := paysFor_attempt hstart hentries hn
    have hresult : result = T.step (T.levels F level) level style c rest s := rfl
    simp only [Typesetter.step, hstart, Typesetter.expandMacro?] at hresult
    rcases hattempt : T.attempt (T.levels F level) level style site m after s with ⟨outcome, s'⟩
    rw [hattempt] at hexpanded hfailed hresult
    rcases outcome with refusal | _ | expanded
    · have hunpaid := hfailed (by simp)
      dsimp only at hunpaid
      rw [hresult]
      change unpaid s'.history + escapes rest ≤ _
      omega
    · have hunpaid := hfailed (by simp)
      dsimp only at hunpaid
      rw [hresult]
      change unpaid s'.history + escapes rest ≤ _
      omega
    · have hunpaid := hexpanded expanded rfl
      rw [hresult]
      dsimp only at hunpaid ⊢
      omega

end Function

end Step

/-! ### Whole expansions -/

lemma unpaid_final_cons {T : Typesetter} {depth : Nat} (hdepth : depth ≤ T.settings.maxDepth)
    {style : Style} {c : Char} {rest : Text} {s : ExpansionState F}
    (ih : ∀ q, Next T ⟨depth, style, c :: rest, s⟩ q →
      unpaid (q.final T).history ≤ unpaid q.state.history + escapes q.text + escapes (inVain T q)) :
    unpaid (Point.final T ⟨depth, style, c :: rest, s⟩).history ≤
      unpaid s.history + escapes (c :: rest) + escapes (inVain T ⟨depth, style, c :: rest, s⟩) := by
  have hnested : PaidWithin (T.levels F (T.settings.maxDepth - depth)) (inVain T)
      (stepEntries T (T.levels F (T.settings.maxDepth - depth)) (T.settings.maxDepth - depth) depth
        style c rest s) := by
    intro q hq
    have hentry := ih q (Next.enter hdepth hq)
    have hlevels : T.settings.maxDepth + 1 - q.depth = T.settings.maxDepth - depth := by
      rw [(stepEntries_le hq).1]
      omega
    rw [Point.final, hlevels] at hentry
    exact hentry
  -- What the step leaves of the backslashes pays for the turns that follow.
  have hstep := unpaid_step rfl hnested
  change unpaid (stepAt T depth style c rest s).2.history +
    escapes (stepAt T depth style c rest s).1.rest ≤ _ at hstep
  have hlater := ih _ (Next.iterate hdepth)
  rw [final_iterate hdepth] at hlater
  rw [inVain_cons T hdepth, escapes_append, escapes_append]
  dsimp only at hlater
  omega

theorem unpaid_final (T : Typesetter) (p : Point F) :
    unpaid (p.final T).history ≤
      unpaid p.state.history + escapes p.text + escapes (inVain T p) := by
  induction p using (wellFounded_next T).induction with
  | _ p ih =>
    obtain ⟨depth, style, text, s⟩ := p
    by_cases hdepth : depth ≤ T.settings.maxDepth
    · cases text with
      | nil =>
        rw [final_nil hdepth]
        dsimp only
        omega
      | cons c rest => exact unpaid_final_cons hdepth ih
    · have hbeyond : Point.final T ⟨depth, style, text, s⟩ =
          s.report (.tooDeep T.settings.maxDepth) := by
        rw [Point.final, levels_expand, if_pos (Nat.lt_of_not_le hdepth)]
      rw [hbeyond, unpaid_report]
      dsimp only
      omega

/-- The functions of the registry are called at most once for each backslash of the source and of
the texts that are spliced, and once more for each backslash in arguments that are expanded for a
function that then does not expand. What a handler answers is taken to depend on its arguments
alone. -/
theorem functionCalls_le_escapes (T : Typesetter) (source : Text) :
    let start : Point .remembering := ⟨0, .text, source, T.initialState .remembering⟩
    functionCalls (T.history source) ≤
      escapes source + escapes (splicedText (T.history source)) + escapes (inVain T start) := by
  intro start
  have hunpaid : unpaid (T.history source) ≤ 0 + escapes source + escapes (inVain T start) :=
    unpaid_final T start
  unfold unpaid at hunpaid
  omega

def failingAround : Typesetter where
  registry := ⟨[(['b'], .function (.unary true fun _ => .nothing)),
    (['g'], .function ⟨0, fun _ => .tokens [⟨.ord, ['g']⟩], false, .text⟩)]⟩

/-- The function `g` is written once and called twice: as the argument of `b`, which fails after it,
and when that argument is read again. -/
theorem functionCalls_gt_escapes :
    let source := ['\\', 'b', '{', '\\', 'g', '}']
    let start : Point .remembering := ⟨0, .text, source, failingAround.initialState .remembering⟩
    let history := failingAround.history source
    ¬ functionCalls history ≤ escapes source + escapes (splicedText history) ∧
      source.count 'g' = 1 ∧ history.count (.called (.command ['g']) []) = 2 ∧
      inVain failingAround start = ['{', '\\', 'g', '}'] := by
  intro source start history
  have hhistory : history = [.called (.command ['g']) [], .called (.command ['b']) [['g']],
      .called (.command ['g']) [], .called .group [['g']]] := by
    change failingAround.history source = _
    cbv
  have hvain : inVain failingAround start = ['{', '\\', 'g', '}'] := by cbv
  rw [hhistory]
  exact ⟨by decide, by decide, by decide, hvain⟩

end Proofs

end MathMarkup
