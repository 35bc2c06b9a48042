import MathMarkup.Proofs.Moments

/-!
# The course of an expansion

The course of an expansion is the states that it goes through and the splices that it attempts, in
the order in which they come about. An attempt is read off what a step does, not off what it
records: the macro has a text to splice, and either the step goes on with this text in front of the
markup after the macro, or it does not. What is on record at each state of the course is the
attempts that were made by then, no more and no fewer.
-/

namespace MathMarkup

variable {F : GroupFinder}

/-- An attempt to splice a text. -/
structure Attempt where
  site : Site
  performed : Bool
  deriving DecidableEq, Repr

def Event.attempt? : Event → Option Attempt
  | .spliced site _ => some ⟨site, true⟩
  | .refused site => some ⟨site, false⟩
  | _ => none

/-- The attempts that are on record. -/
def attempts (history : List Event) : List Attempt := history.filterMap Event.attempt?

/-- An attempt as it is seen from what a step comes to: the splice is performed if the step goes on
with the text in front of the markup behind it, and sets nothing. -/
def Attempt.ofNext (site : Site) (text behind : Text) (next : Expanded) : Attempt :=
  ⟨site, next.tokens = [] ∧ next.rest = text ++ behind⟩

inductive Occurrence (F : GroupFinder) where
  | state (s : ExpansionState F)
  | attempt (a : Attempt)

def Occurrence.attempt? : Occurrence F → Option Attempt
  | .state _ => none
  | .attempt a => some a

/-- The attempts that were made on a course. -/
def made (course : List (Occurrence F)) : List Attempt := course.filterMap Occurrence.attempt?

/-- The text that a macro has to splice, and the markup that it would stand in front of. -/
def Typesetter.offer? (T : Typesetter) (nested : Nested F) (level : Nat) (style : Style)
    (site : Site) (m : Macro) (after : Text) (s : ExpansionState F) : Option (Text × Text) :=
  match m with
  | .token _ => none
  | .text text => some (text, after)
  | .function f =>
    match (T.takeArguments nested level style site f after s).1 with
    | .ok (some (arguments, rest)) =>
      match f.handler arguments with
      | .text text => some (text, rest)
      | _ => none
    | _ => none

namespace Proofs

/-- The attempt that a step makes. -/
def stepAttempt? (T : Typesetter) (nested : Nested F) (level : Nat) (style : Style) (c : Char)
    (rest : Text) (s : ExpansionState F) : Option Attempt :=
  match T.start? c rest with
  | none => none
  | some (site, m, after) =>
    (T.offer? nested level style site m after s).map fun (text, behind) =>
      .ofNext site text behind (T.step nested level style c rest s).1

/-- The course of a step, given that of the arguments it enters. The first of the states within the
step comes before them, the others after them, and an attempt of its own comes last. -/
def stepCourse (T : Typesetter) (nested : Nested F) (level : Nat) (style : Style) (c : Char)
    (rest : Text) (s : ExpansionState F) (entered : List (Occurrence F)) : List (Occurrence F) :=
  let moments := (stepMoments T nested level style c rest s).map Occurrence.state
  moments.take 1 ++ entered ++ moments.drop 1 ++
    (stepAttempt? T nested level style c rest s).toList.map Occurrence.attempt

/-- The course of an expansion from a point, nested markup included. -/
def course (T : Typesetter) : Point F → List (Occurrence F)
  | ⟨_, _, [], s⟩ => [.state s]
  | ⟨depth, style, c :: rest, s⟩ =>
    if depth ≤ T.settings.maxDepth then
      let level := T.settings.maxDepth - depth
      let next := stepAt T depth style c rest s
      .state s :: stepCourse T (T.levels F level) level style c rest s
          ((stepEntries T (T.levels F level) level depth style c rest s).attach.flatMap
            fun entry => course T entry.1) ++
        course T ⟨depth, style, next.1.rest, next.2⟩
    else [.state s]
termination_by p => p.measure T
decreasing_by
  · exact below_of_next (Next.enter ‹_› entry.2)
  · exact below_of_next (Next.iterate ‹_›)

lemma course_cons (T : Typesetter) {depth : Nat} (hdepth : depth ≤ T.settings.maxDepth)
    (style : Style) (c : Char) (rest : Text) (s : ExpansionState F) :
    course T ⟨depth, style, c :: rest, s⟩ =
      .state s :: stepCourse T (T.levels F (T.settings.maxDepth - depth))
          (T.settings.maxDepth - depth) style c rest s
          ((stepEntries T (T.levels F (T.settings.maxDepth - depth)) (T.settings.maxDepth - depth)
            depth style c rest s).flatMap (course T)) ++
        course T ⟨depth, style, (stepAt T depth style c rest s).1.rest,
          (stepAt T depth style c rest s).2⟩ := by
  rw [course, if_pos hdepth]
  simp

lemma course_of_lt (T : Typesetter) {depth : Nat} (hdepth : T.settings.maxDepth < depth)
    (style : Style) (text : Text) (s : ExpansionState F) :
    course T ⟨depth, style, text, s⟩ = [.state s] := by
  cases text with
  | nil => rw [course]
  | cons c rest => rw [course, if_neg (Nat.not_le_of_lt hdepth)]

/-! ### The states of a course -/

section States

variable {T : Typesetter} {p q : Point F} {s : ExpansionState F}

lemma state_mem_course (p : Point F) : .state p.state ∈ course T p := by
  obtain ⟨depth, style, text, s⟩ := p
  cases text with
  | nil => simp [course]
  | cons c rest =>
    rw [course]
    split <;> simp

lemma course_subset_of_next (hnext : Next T p q) : course T q ⊆ course T p := by
  cases hnext with
  | iterate hdepth =>
    rw [course_cons T hdepth]
    exact List.subset_append_right _ _
  | enter hdepth hentry =>
    next depth style c rest s =>
    intro occurrence hmem
    rw [course_cons T hdepth, stepCourse]
    have hentered : occurrence ∈ (stepEntries T (T.levels F (T.settings.maxDepth - depth))
        (T.settings.maxDepth - depth) depth style c rest s).flatMap (course T) :=
      List.mem_flatMap.mpr ⟨_, hentry, hmem⟩
    simp [hentered]

lemma course_subset_of_reached (hreach : Relation.ReflTransGen (Next T) p q) :
    course T q ⊆ course T p := by
  induction hreach with
  | refl => exact List.Subset.refl _
  | tail _ hnext ih => exact List.Subset.trans (course_subset_of_next hnext) ih

lemma state_mem_stepCourse {nested : Nested F} {level : Nat} {style : Style} {c : Char}
    {rest : Text} {s s' : ExpansionState F} {entered : List (Occurrence F)} :
    .state s' ∈ stepCourse T nested level style c rest s entered ↔
      s' ∈ stepMoments T nested level style c rest s ∨ .state s' ∈ entered := by
  have hmoments : s' ∈ stepMoments T nested level style c rest s ↔
      .state s' ∈ (stepMoments T nested level style c rest s).map Occurrence.state := by
    simp
  have hattempt : .state s' ∉
      (stepAttempt? T nested level style c rest s).toList.map Occurrence.attempt := by
    simp
  rw [hmoments, ← List.take_append_drop 1 (List.map _ _)]
  simp only [stepCourse, List.mem_append, hattempt, or_false]
  tauto

lemma moment_of_mem_course {start p : Point F} (hreach : Relation.ReflTransGen (Next T) start p)
    {s : ExpansionState F} (hmem : .state s ∈ course T p) : Moment T start s := by
  induction p using (wellFounded_next T).induction with
  | _ p ih =>
    obtain ⟨depth, style, text, s₁⟩ := p
    rcases Nat.lt_or_ge T.settings.maxDepth depth with hdepth | hdepth
    · rw [course_of_lt T hdepth, List.mem_singleton] at hmem
      cases hmem
      exact Moment.between hreach
    · cases text with
      | nil =>
        rw [course, List.mem_singleton] at hmem
        cases hmem
        exact Moment.between hreach
      | cons c rest =>
        rw [course_cons T hdepth, List.cons_append, List.mem_cons, List.mem_append,
          state_mem_stepCourse] at hmem
        rcases hmem with hhere | (hwithin | hentered) | hlater
        · cases hhere
          exact Moment.between hreach
        · exact Moment.within hreach hdepth hwithin
        · obtain ⟨entry, hentry, hmem⟩ := List.mem_flatMap.mp hentered
          have hnext := Next.enter hdepth hentry
          exact ih entry hnext (hreach.tail hnext) hmem
        · have hnext : Next T ⟨depth, style, c :: rest, s₁⟩ _ := Next.iterate hdepth
          exact ih _ hnext (hreach.tail hnext) hlater

/-- The moments of an expansion are the states on its course. -/
theorem moment_iff_mem_course {start : Point F} :
    Moment T start s ↔ .state s ∈ course T start := by
  constructor
  · intro hmoment
    cases hmoment with
    | between hreach => exact course_subset_of_reached hreach (state_mem_course _)
    | within hreach hdepth hmoment =>
      apply course_subset_of_reached hreach
      rw [course_cons T hdepth, List.cons_append, List.mem_cons, List.mem_append,
        state_mem_stepCourse]
      exact .inr (.inl (.inl hmoment))
  · exact moment_of_mem_course .refl

/-- A course ends in the state in which the expansion ends. -/
lemma final_suffix_course {depth : Nat} (hdepth : depth ≤ T.settings.maxDepth) (style : Style)
    (text : Text) (s : ExpansionState F) :
    [.state (Point.final T ⟨depth, style, text, s⟩)] <:+ course T ⟨depth, style, text, s⟩ := by
  fun_induction Typesetter.expandAll T (T.levels F (T.settings.maxDepth - depth))
    (T.settings.maxDepth - depth) style text s with
  | case1 s => rw [final_nil hdepth, course]
  | case2 c rest s next later ih =>
    rw [← final_iterate hdepth, course_cons T hdepth]
    exact ih.trans (List.suffix_append _ _)

end States

/-! ### What becomes of a text -/

/-- What becomes of a text that is to be spliced. If a splice is left, it is paid for, it is put on
record, and expansion goes on with the text in front of the markup behind it. If none is left, the
text is refused, and the first refusal is reported. -/
structure SplicesFor (site : Site) (text rest : Text) (s : ExpansionState F)
    (result : Except Refusal (Option Expanded) × ExpansionState F) : Prop where
  performed : s.remaining ≠ 0 → result.1 = .ok (some ⟨[], text ++ rest⟩) ∧
    result.2.remaining + 1 = s.remaining ∧ result.2.history = s.history ++ [.spliced site text]
  refused : s.remaining = 0 → result.1 = .error .budgetSpent ∧ result.2.remaining = 0 ∧
    result.2.history = s.history ++ .refused site ::
      if s.exhausted then [] else [.noticed (.budgetSpent site.name)]

@[simp] lemma history_record (s : ExpansionState F) (event : Event) :
    (s.record event).history = s.history ++ [event] := by
  simp [ExpansionState.history, ExpansionState.record]

@[simp] lemma attempts_append (history later : List Event) :
    attempts (history ++ later) = attempts history ++ attempts later :=
  List.filterMap_append

lemma attempts_record (s : ExpansionState F) {event : Event} (h : event.attempt? = none) :
    attempts (s.record event).history = attempts s.history := by
  rw [history_record, attempts_append]
  simp [attempts, h]

lemma spend_of_ne {s : ExpansionState F} (hleft : s.remaining ≠ 0) (site : Site) (text : Text) :
    s.spend site text =
      (.ok (), { s.record (.spliced site text) with remaining := s.remaining - 1 }) := by
  rw [ExpansionState.spend, if_neg hleft]

lemma history_spend_of_ne {s : ExpansionState F} (hleft : s.remaining ≠ 0) (site : Site)
    (text : Text) : (s.spend site text).2.history = s.history ++ [.spliced site text] := by
  rw [spend_of_ne hleft]
  exact history_record s (.spliced site text)

/-- A refusal costs nothing, and from then on it is known that no splices are left. -/
lemma spend_of_spent {s : ExpansionState F} (hspent : s.remaining = 0) (site : Site)
    (text : Text) :
    ∃ s', s.spend site text = (.error .budgetSpent, s') ∧ s'.remaining = 0 ∧
      s'.exhausted = true := by
  refine ⟨_, by rw [ExpansionState.spend, if_pos hspent], ?_⟩
  cases hexhausted : s.exhausted with
  | true => exact ⟨hspent, hexhausted⟩
  | false => exact ⟨hspent, rfl⟩

lemma history_spend_of_spent {s : ExpansionState F} (hspent : s.remaining = 0) (site : Site)
    (text : Text) :
    (s.spend site text).2.history = s.history ++ .refused site ::
      if s.exhausted then [] else [.noticed (.budgetSpent site.name)] := by
  rw [ExpansionState.spend, if_pos hspent]
  cases s.exhausted with
  | true => exact history_record s (.refused site)
  | false =>
    have hreport := history_record (s.record (.refused site)) (.noticed (.budgetSpent site.name))
    rw [history_record s, List.append_assoc] at hreport
    exact hreport

lemma splicesFor_splice (site : Site) (text rest : Text) (s : ExpansionState F) :
    SplicesFor site text rest s (Typesetter.splice site text rest s) := by
  constructor
  · intro hleft
    have hhistory := history_spend_of_ne hleft site text
    have hbalance : s.remaining - 1 + 1 = s.remaining := by omega
    rw [spend_of_ne hleft] at hhistory
    rw [Typesetter.splice, spend_of_ne hleft]
    exact ⟨rfl, hbalance, hhistory⟩
  · intro hspent
    have hhistory := history_spend_of_spent hspent site text
    obtain ⟨s', hspend, hremaining, -⟩ := spend_of_spent hspent site text
    rw [hspend] at hhistory
    rw [Typesetter.splice, hspend]
    exact ⟨rfl, hremaining, hhistory⟩

/-- Of what a refusal leaves on record, one thing is an attempt. -/
lemma attempts_refusal (site : Site) (known : Bool) :
    attempts (.refused site :: if known then [] else [.noticed (.budgetSpent site.name)]) =
      [⟨site, false⟩] := by
  cases known <;> rfl

section Offer

variable {T : Typesetter} {nested : Nested F} {level : Nat} {style : Style} {site : Site}
  {after text rest : Text} {s : ExpansionState F}

/-- A handler that answers with a text is called first, and this is put on record. -/
lemma splicesFor_call {f : FunctionMacro} {arguments : List Text}
    (hreply : f.handler arguments = .text text) (site : Site) (rest : Text)
    (s : ExpansionState F) :
    SplicesFor site text rest (s.record (.called site arguments))
      (Typesetter.call site f arguments rest s) := by
  rw [Typesetter.call, hreply]
  exact splicesFor_splice site text rest _

lemma splicesFor_attempt {f : FunctionMacro} {arguments : List Text} {taken : ExpansionState F}
    (htaken : T.takeArguments nested level style site f after s =
      (.ok (some (arguments, rest)), taken))
    (hreply : f.handler arguments = .text text) :
    SplicesFor site text rest (taken.record (.called site arguments))
      (T.attempt nested level style site (.function f) after s) := by
  rw [Typesetter.attempt, htaken]
  exact splicesFor_call hreply site rest taken

/-- Where a macro is refused or does not expand, the character is set as it is. -/
lemma step_of_attempt {c : Char} {m : Macro} (hstart : T.start? c rest = some (site, m, after)) :
    (T.step nested level style c rest s).1 =
      match (T.attempt nested level style site m after s).1 with
      | .ok (some expanded) => expanded
      | _ => T.literal c rest := by
  rw [Typesetter.step, hstart]
  dsimp only
  rw [Typesetter.expandMacro?]
  rcases T.attempt nested level style site m after s with ⟨_ | _ | expanded, s₁⟩ <;> rfl

/-- A character that starts a macro is not lost if the macro does not expand. -/
lemma literal_ne_nil_of_start? {c : Char} {m : Macro}
    (hstart : T.start? c rest = some (site, m, after)) : (T.literal c rest).tokens ≠ [] := by
  have hc : c = '\\' ∨ c = '^' ∨ c = '_' ∨ c = '\x7b' := by
    rw [Typesetter.start?.eq_def] at hstart
    split at hstart
    · exact .inl rfl
    · exact .inr (.inl rfl)
    · exact .inr (.inr (.inl rfl))
    · exact .inr (.inr (.inr rfl))
    · cases hstart
  rcases hc with rfl | rfl | rfl | rfl <;>
    simp [Typesetter.literal, LetterStyle.literal, isLetter, isBlank, blankRanges]

/-- What a step comes to shows whether the splice on record was performed. -/
lemma attempts_step_of_splicesFor {c : Char} {m : Macro} {before : ExpansionState F}
    {behind : Text} (hstart : T.start? c rest = some (site, m, after))
    (h : SplicesFor site text behind before (T.attempt nested level style site m after s)) :
    attempts (T.step nested level style c rest s).2.history = attempts before.history ++
      [.ofNext site text behind (T.step nested level style c rest s).1] := by
  rw [state_step T hstart, step_of_attempt hstart]
  by_cases hspent : before.remaining = 0
  · obtain ⟨hresult, -, hhistory⟩ := h.refused hspent
    have hliteral := literal_ne_nil_of_start? hstart
    have hrefused : Attempt.ofNext site text behind (T.literal c rest) = ⟨site, false⟩ := by
      simp [Attempt.ofNext, hliteral]
    rw [hresult, hhistory, attempts_append, attempts_refusal, hrefused]
  · obtain ⟨hresult, -, hhistory⟩ := h.performed hspent
    have hperformed : Attempt.ofNext site text behind ⟨[], text ++ behind⟩ = ⟨site, true⟩ := by
      simp [Attempt.ofNext]
    rw [hresult, hhistory, attempts_append, hperformed]
    rfl

/-- Beyond what the arguments leave on record, a step records the attempt that it makes. -/
lemma attempts_step_function {c : Char} {f : FunctionMacro}
    (hstart : T.start? c rest = some (site, .function f, after)) :
    attempts (T.step nested level style c rest s).2.history =
      attempts (T.takeArguments nested level style site f after s).2.history ++
        (stepAttempt? T nested level style c rest s).toList := by
  unfold stepAttempt?
  rw [hstart]
  dsimp only [Typesetter.offer?]
  rcases htaken : T.takeArguments nested level style site f after s with ⟨result, taken⟩
  have hstate := state_step T hstart nested level style s
  rw [Typesetter.attempt, htaken] at hstate
  rcases result with refusal | _ | ⟨arguments, behind⟩
  · rw [hstate]
    exact (List.append_nil _).symm
  · rw [hstate]
    exact (List.append_nil _).symm
  · dsimp only at hstate ⊢
    cases hreply : f.handler arguments with
    | text text =>
      have hcalled : attempts (taken.record (.called site arguments)).history =
          attempts taken.history := attempts_record taken rfl
      rw [attempts_step_of_splicesFor hstart (splicesFor_attempt htaken hreply), hcalled]
      rfl
    | _ =>
      rw [hstate, Typesetter.call, hreply]
      simp [ExpansionState.report, attempts, Event.attempt?]

end Offer

/-! ### What is on record -/

@[simp] lemma made_append (earlier later : List (Occurrence F)) :
    made (earlier ++ later) = made earlier ++ made later :=
  List.filterMap_append

/-- Each state on a course has on record the attempts before it. -/
def Faithful (before : List Attempt) : List (Occurrence F) → Prop
  | [] => True
  | .state s :: later => attempts s.history = before ∧ Faithful before later
  | .attempt a :: later => Faithful (before ++ [a]) later

lemma faithful_append {before : List Attempt} {earlier later : List (Occurrence F)} :
    Faithful before (earlier ++ later) ↔
      Faithful before earlier ∧ Faithful (before ++ made earlier) later := by
  induction earlier generalizing before with
  | nil => simp [Faithful, made]
  | cons occurrence earlier ih =>
    cases occurrence with
    | state s =>
      have hmade : made (.state s :: earlier) = made earlier := rfl
      rw [List.cons_append, Faithful, Faithful, ih, and_assoc, hmade]
    | attempt a =>
      have hmade : made (.attempt a :: earlier) = a :: made earlier := rfl
      rw [List.cons_append, Faithful, Faithful, ih, hmade, List.append_assoc,
        List.singleton_append]

/-- From one state to another a course is gone through, and what it made is put on record. -/
structure Follows (s s' : ExpansionState F) (course : List (Occurrence F)) : Prop where
  faithful : Faithful (attempts s.history) course
  leaves : attempts s'.history = attempts s.history ++ made course

namespace Follows

variable {s s₁ s₂ : ExpansionState F} {earlier later : List (Occurrence F)}

lemma append (h : Follows s s₁ earlier) (hlater : Follows s₁ s₂ later) :
    Follows s s₂ (earlier ++ later) := by
  refine ⟨faithful_append.mpr ⟨h.faithful, ?_⟩, ?_⟩
  · rw [← h.leaves]
    exact hlater.faithful
  · rw [hlater.leaves, h.leaves, made_append, List.append_assoc]

lemma nil (h : attempts s₁.history = attempts s.history) : Follows s s₁ [] :=
  ⟨trivial, h.trans (List.append_nil _).symm⟩

/-- States that have the same attempts on record. -/
lemma states {states : List (ExpansionState F)} (h : attempts s₁.history = attempts s.history)
    (hstates : ∀ s' ∈ states, attempts s'.history = attempts s.history) :
    Follows s s₁ (states.map .state) := by
  induction states with
  | nil => exact nil h
  | cons s' states ih =>
    obtain ⟨hfirst, hlater⟩ := List.forall_mem_cons.mp hstates
    have hfollows := ih hlater
    exact ⟨⟨hfirst, hfollows.faithful⟩, hfollows.leaves⟩

lemma attempt? {attempt? : Option Attempt}
    (h : attempts s₁.history = attempts s.history ++ attempt?.toList) :
    Follows s s₁ (attempt?.toList.map .attempt) := by
  cases attempt? with
  | none => exact ⟨trivial, h⟩
  | some a => exact ⟨trivial, h⟩

/-- The attempts on record at a state of a course are those of the state it begins with and those
made since then. -/
lemma attempts_eq {course : List (Occurrence F)} (h : Follows s s₂ course)
    (hcourse : course = earlier ++ .state s₁ :: later) :
    attempts s₁.history = attempts s.history ++ made earlier := by
  subst hcourse
  obtain ⟨-, hhere, -⟩ := faithful_append.mp h.faithful
  exact hhere

end Follows

section Step

variable {T : Typesetter} {nested : Nested F} {entered : Point F → List (Occurrence F)}
  {level depth : Nat} {style : Style} {c : Char} {rest : Text} {s : ExpansionState F}

/-- Nested markup goes through the course that is given for it. -/
def FollowedWithin (nested : Nested F) (entered : Point F → List (Occurrence F))
    (entries : List (Point F)) : Prop :=
  ∀ q ∈ entries, Follows q.state (nested.expand q.style q.text q.state).2 (entered q)

lemma follows_setArguments {arguments : List Text}
    (hn : FollowedWithin nested entered (argumentEntries nested depth style arguments s)) :
    Follows s (T.setArguments nested style arguments s).2
      ((argumentEntries nested depth style arguments s).flatMap entered) := by
  induction arguments generalizing s with
  | nil => exact .nil rfl
  | cons argument arguments ih =>
    rw [argumentEntries] at hn ⊢
    obtain ⟨hfirst, hlater⟩ := List.forall_mem_cons.mp hn
    rw [Typesetter.setArguments, List.flatMap_cons]
    rcases hexpand : nested.expand style argument s with ⟨expanded, s₁⟩
    rw [hexpand] at hlater
    dsimp only at hfirst
    rw [hexpand] at hfirst
    cases expanded with
    | error refusal => simpa using hfirst
    | ok tokens =>
      have hset := ih hlater
      dsimp only
      split <;> next heq => rw [heq] at hset; exact hfirst.append hset

lemma follows_takeArguments {site : Site} {f : FunctionMacro} {after : Text}
    (hstart : T.start? c rest = some (site, .function f, after))
    (hn : FollowedWithin nested entered (stepEntries T nested level depth style c rest s)) :
    Follows s (T.takeArguments nested level style site f after s).2
      ((stepEntries T nested level depth style c rest s).flatMap entered) := by
  unfold stepEntries at hn ⊢
  rw [hstart] at hn ⊢
  dsimp only at hn ⊢
  rw [Typesetter.takeArguments]
  rcases hcollect : collectArguments F f.arity after (s.memory level) with ⟨collected, memory⟩
  rw [hcollect] at hn
  cases collected with
  | error before =>
    exact .nil (attempts_record (s.setMemory level memory) rfl)
  | ok found =>
    dsimp only at hn ⊢
    split
    · next hpreparse =>
      rw [if_pos hpreparse] at hn
      have hset := follows_setArguments (T := T) hn
      split <;> next heq => rw [heq] at hset; exact ⟨hset.faithful, hset.leaves⟩
    · exact .nil rfl

/-- The first state within a step stands before the arguments are set, the others after that. -/
lemma stepMoments_function {site : Site} {f : FunctionMacro} {after : Text} (nested : Nested F)
    (level : Nat) (style : Style) (s : ExpansionState F)
    (hstart : T.start? c rest = some (site, .function f, after)) :
    ∃ found later, stepMoments T nested level style c rest s = found :: later ∧
      attempts found.history = attempts s.history ∧
      ∀ s' ∈ later, attempts s'.history =
        attempts (T.takeArguments nested level style site f after s).2.history := by
  unfold stepMoments
  rw [hstart]
  dsimp only
  split
  · next arguments behind taken htaken =>
    refine ⟨_, _, rfl, rfl, ?_⟩
    intro s' hmem
    rw [htaken]
    simp only [List.mem_cons, List.not_mem_nil, or_false] at hmem
    rcases hmem with rfl | rfl
    · rfl
    · exact attempts_record taken rfl
  · next refusal taken hne htaken =>
    exact ⟨_, _, rfl, rfl, by simp [htaken]⟩

/-- A step goes through its course. -/
lemma follows_step
    (hn : FollowedWithin nested entered (stepEntries T nested level depth style c rest s)) :
    Follows s (T.step nested level style c rest s).2
      (stepCourse T nested level style c rest s
        ((stepEntries T nested level depth style c rest s).flatMap entered)) := by
  cases hstart : T.start? c rest with
  | none =>
    have hstep : T.step nested level style c rest s = (T.literal c rest, s) := by
      rw [Typesetter.step, hstart]
    simp only [stepCourse, stepMoments, stepEntries, stepAttempt?, hstart, hstep]
    exact .nil rfl
  | some start =>
    obtain ⟨site, m, after⟩ := start
    cases m with
    | token token =>
      have hstep : (T.step nested level style c rest s).2 = s := by
        rw [state_step T hstart]
        rfl
      simp only [stepCourse, stepMoments, stepEntries, stepAttempt?, Typesetter.offer?, hstart,
        hstep]
      exact .nil rfl
    | text text =>
      have hsplices : SplicesFor site text after s
          (T.attempt nested level style site (.text text) after s) :=
        splicesFor_splice site text after s
      have hattempts := attempts_step_of_splicesFor hstart hsplices
      simp only [stepCourse, stepMoments, stepEntries, stepAttempt?, Typesetter.offer?, hstart]
      exact .attempt? hattempts
    | function f =>
      have htaken := follows_takeArguments hstart hn
      have hattempts : attempts (T.step nested level style c rest s).2.history =
          attempts (T.takeArguments nested level style site f after s).2.history ++
            (stepAttempt? T nested level style c rest s).toList :=
        attempts_step_function hstart
      obtain ⟨found, later, hmoments, hfound, hlater⟩ :=
        stepMoments_function nested level style s hstart
      have hbefore : Follows s s ([found].map .state) := .states rfl (by simp [hfound])
      rw [stepCourse, hmoments]
      exact ((hbefore.append htaken).append (.states rfl hlater)).append (.attempt? hattempts)

/-- On the course of an expansion everything is put on record as it is made. -/
theorem follows_course (T : Typesetter) (p : Point F) :
    Follows p.state (p.final T) (course T p) := by
  -- The loop goes on and the arguments are entered at points that come next, so both are followed.
  induction p using (wellFounded_next T).induction with
  | _ p ih =>
    obtain ⟨depth, style, text, s⟩ := p
    have hhere : Follows s s [.state s] := ⟨⟨rfl, trivial⟩, (List.append_nil _).symm⟩
    rcases Nat.lt_or_ge T.settings.maxDepth depth with hdepth | hdepth
    · have hreported : attempts (s.report (.tooDeep T.settings.maxDepth)).history =
          attempts s.history := attempts_record s rfl
      rw [course_of_lt T hdepth, Point.final, levels_expand, if_pos hdepth]
      exact ⟨hhere.faithful, hreported.trans hhere.leaves⟩
    · cases text with
      | nil =>
        rw [final_nil hdepth, course]
        exact hhere
      | cons c rest =>
        have hentered : FollowedWithin (T.levels F (T.settings.maxDepth - depth)) (course T)
            (stepEntries T (T.levels F (T.settings.maxDepth - depth)) (T.settings.maxDepth - depth)
              depth style c rest s) := by
          intro entry hentry
          have hfollows := ih entry (Next.enter hdepth hentry)
          have hlevels : T.settings.maxDepth + 1 - entry.depth = T.settings.maxDepth - depth := by
            have hdeeper := (stepEntries_le hentry).1
            omega
          rw [Point.final, hlevels] at hfollows
          exact hfollows
        have hlater := ih _ (Next.iterate hdepth)
        rw [final_iterate hdepth] at hlater
        rw [course_cons T hdepth]
        exact (hhere.append (follows_step hentered)).append hlater

end Step

end Proofs

end MathMarkup
