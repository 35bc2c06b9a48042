import MathMarkup.Proofs.Descent
import MathMarkup.Proofs.InPlace

/-!
# Expansion that raises

The expansion once more with everything that can be raised on the way: by a splice that cannot be
paid for, by markup nested too deep, by a handler, and by a position that a list does not have.
What handlers do is given from outside, and may depend on all that has happened. If they do what
they are defined to do, this expansion comes to what expansion without raising comes to.
-/

namespace MathMarkup.Proofs

variable {F : GroupFinder}

/-- A computation that may raise. What happened before stays in the state. -/
abbrev Raising (F : GroupFinder) (α : Type) := ExceptT Raised (StateM (ExpansionState F)) α

abbrev RaisingNested (F : GroupFinder) := Style → Text → Raising F (List Token)

/-- What a handler does when it is called, given what has happened until then, the latest first.
No two calls of an expansion are given the same, so it may do something else each time. -/
abbrev Behaviour := List Event → FunctionMacro → List Text → Reply

def asDefined : Behaviour := fun _ f arguments => f.handler arguments

def outcome {α : Type} (x : Raising F α) (s : ExpansionState F) :
    Except Raised α × ExpansionState F :=
  (x.run.run s).run

/-- A result whose refusal is something raised. -/
def raised {α : Type} (x : Except Refusal α × ExpansionState F) :
    Except Raised α × ExpansionState F :=
  (x.1.mapError .ceiling, x.2)

namespace Raising

/-! ### How computations go on -/

section Outcome

variable {α β : Type} {x : Raising F α} {s s' : ExpansionState F}

lemma outcome_bind_ok {a : α} (h : outcome x s = (.ok a, s')) (k : α → Raising F β) :
    outcome (x >>= k) s = outcome (k a) s' := by
  have h : x.run.run s = (.ok a, s') := h
  rw [outcome, ExceptT.run_bind, StateT.run_bind, h]
  rfl

lemma outcome_bind_error {r : Raised} (h : outcome x s = (.error r, s')) (k : α → Raising F β) :
    outcome (x >>= k) s = (.error r, s') := by
  have h : x.run.run s = (.error r, s') := h
  rw [outcome, ExceptT.run_bind, StateT.run_bind, h]
  rfl

lemma of_outcome_bind {k : α → Raising F β} {b : β} (h : outcome (x >>= k) s = (.ok b, s')) :
    ∃ a s₁, outcome x s = (.ok a, s₁) ∧ outcome (k a) s₁ = (.ok b, s') := by
  rcases hx : outcome x s with ⟨r | a, s₁⟩
  · rw [outcome_bind_error hx] at h
    cases h
  · rw [outcome_bind_ok hx] at h
    exact ⟨a, s₁, rfl, h⟩

lemma outcome_tryCatch_ok {a : α} (h : outcome x s = (.ok a, s'))
    (catching : Raised → Raising F α) : outcome (tryCatch x catching) s = (.ok a, s') := by
  have h : x.run.run s = (.ok a, s') := h
  rw [outcome, ExceptT.run_tryCatch, StateT.run_bind, h]
  rfl

lemma outcome_tryCatch_error {r : Raised} (h : outcome x s = (.error r, s'))
    (catching : Raised → Raising F α) :
    outcome (tryCatch x catching) s = outcome (catching r) s' := by
  have h : x.run.run s = (.error r, s') := h
  rw [outcome, ExceptT.run_tryCatch, StateT.run_bind, h]
  rfl

end Outcome

/-! ### The expansion -/

def pay (site : Site) (text : Text) : Raising F Unit := do
  let s ← get
  if s.remaining = 0 then
    let refused := s.record (.refused site)
    set (if s.exhausted then refused
      else { refused.report (.budgetSpent site.name) with exhausted := true })
    throw (.ceiling .budgetSpent)
  else set { s.record (.spliced site text) with remaining := s.remaining - 1 }

def collect (level count : Nat) (text : Text) : Raising F (Except Nat (List Text × Nat)) := do
  let s ← get
  let (collected, memory) := collectInPlace F count text (s.memory level)
  set (s.setMemory level memory)
  liftExcept collected

def handle (behave : Behaviour) (f : FunctionMacro) (arguments : List Text) : Raising F Reply := do
  let s ← get
  match behave s.events f arguments with
  | .failed => throw .handler
  | reply => return reply

/-- Calls a handler. A fault that it raises goes no further, and neither does a value that is no
reply. -/
def callHandler (behave : Behaviour) (site : Site) (f : FunctionMacro) (arguments : List Text) :
    Raising F Reply := do
  modify (·.record (.called site arguments))
  let reply ← tryCatch (handle behave f arguments) fun _ => do
    modify (·.report (.handlerFailed site.name))
    return .nothing
  match reply with
  | .other kind _ =>
    modify (·.report (.unsupportedReply site.name kind))
    return .nothing
  | reply => return reply

section Typesetting

variable (T : Typesetter)

def setArguments (nested : RaisingNested F) (style : Style) :
    List Text → Raising F (List Text)
  | [] => return []
  | argument :: arguments => do
    let tokens ← nested style argument
    let text ← liftExcept (typesetInPlace T.settings.spaces style tokens)
    let texts ← setArguments nested style arguments
    return text :: texts

def takeArguments (nested : RaisingNested F) (level : Nat) (style : Style) (site : Site)
    (f : FunctionMacro) (after : Text) : Raising F (Option (List Text × Text)) := do
  match ← collect level f.arity after with
  | .error _ =>
    modify (·.report (.missingArguments site.name f.arity))
    return none
  | .ok (arguments, length) =>
    if f.preparse then
      let texts ← setArguments T nested (style.max f.style) arguments
      return some (texts, after.drop length)
    else return some (arguments, after.drop length)

def splice (site : Site) (text rest : Text) : Raising F (Option Expanded) := do
  pay site text
  return some ⟨[], text ++ rest⟩

def call (behave : Behaviour) (site : Site) (f : FunctionMacro) (arguments : List Text)
    (rest : Text) : Raising F (Option Expanded) := do
  match ← callHandler behave site f arguments with
  | .tokens tokens => return some ⟨tokens, rest⟩
  | .text text => splice site text rest
  | _ => return none

def attempt (behave : Behaviour) (nested : RaisingNested F) (level : Nat) (style : Style)
    (site : Site) (m : Macro) (after : Text) : Raising F (Option Expanded) := do
  match m with
  | .token token => return some ⟨[token], after⟩
  | .text text => splice site text after
  | .function f =>
    match ← takeArguments T nested level style site f after with
    | none => return none
    | some (arguments, rest) => call behave site f arguments rest

/-- Expands a macro. Of what is raised in its expansion only a ceiling is caught. -/
def expandMacro? (behave : Behaviour) (nested : RaisingNested F) (level : Nat) (style : Style)
    (site : Site) (m : Macro) (after : Text) : Raising F (Option Expanded) :=
  tryCatch (attempt T behave nested level style site m after) fun
    | .ceiling _ => return none
    | r => throw r

def step (behave : Behaviour) (nested : RaisingNested F) (level : Nat) (style : Style) (c : Char)
    (rest : Text) : Raising F Expanded := do
  match T.start? c rest with
  | none => return T.literal c rest
  | some (site, m, after) =>
    match ← expandMacro? T behave nested level style site m after with
    | some expanded => return expanded
    | none => return T.literal c rest

/-- The loop over the markup at a depth. Each turn and each entry takes one unit of fuel; what
happens when there is none left is given from outside. -/
def tokenize (behave : Behaviour) (stuck : RaisingNested F) :
    (fuel depth : Nat) → Style → Text → Raising F (List Token)
  | 0, _, style, text => stuck style text
  | fuel + 1, depth, style, text => do
    if T.settings.maxDepth < depth then
      modify (·.report (.tooDeep T.settings.maxDepth))
      throw (.ceiling .tooDeep)
    else if text = [] then return []
    else
      let c ← liftExcept (readAt text 0)
      let next ← step T behave (tokenize behave stuck fuel (depth + 1))
        (T.settings.maxDepth - depth) style c (text.drop 1)
      let tokens ← tokenize behave stuck fuel depth style next.rest
      return next.tokens ++ tokens

def transform (behave : Behaviour) (stuck : RaisingNested F) (fuel : Nat) (source : Text) :
    Raising F Text := do
  let tokens ← tokenize T behave stuck fuel 0 .text source
  liftExcept (typesetInPlace T.settings.spaces .text tokens)

end Typesetting

/-! ### It comes to the same -/

section Same

variable {T : Typesetter} {nested : Nested F} {nested' : RaisingNested F}
  {s : ExpansionState F}

lemma outcome_liftExcept {α : Type} (x : Except Raised α) :
    outcome (liftExcept x : Raising F α) s = (x, s) := by
  cases x <;> rfl

lemma outcome_get : outcome (get : Raising F (ExpansionState F)) s = (.ok s, s) := rfl

lemma outcome_modify (f : ExpansionState F → ExpansionState F) :
    outcome (modify f : Raising F PUnit) s = (.ok ⟨⟩, f s) := rfl

lemma outcome_pay (site : Site) (text : Text) :
    outcome (pay site text) s = raised (s.spend site text) := by
  rw [pay, outcome_bind_ok outcome_get, ExpansionState.spend]
  by_cases h : s.remaining = 0
  · rw [if_pos h, if_pos h]
    rfl
  · rw [if_neg h, if_neg h]
    rfl

lemma outcome_collect (level count : Nat) (text : Text) :
    outcome (collect level count text) s =
      (.ok (collectArguments F count text (s.memory level)).1,
        s.setMemory level (collectArguments F count text (s.memory level)).2) := by
  rw [collect, outcome_bind_ok outcome_get, collectInPlace_eq]
  rfl

lemma outcome_splice (site : Site) (text rest : Text) :
    outcome (splice site text rest) s = raised (Typesetter.splice site text rest s) := by
  have hpay := outcome_pay (s := s) site text
  rw [splice, Typesetter.splice]
  rcases hspend : s.spend site text with ⟨refusal | paid, s₁⟩
  · rw [hspend] at hpay
    exact outcome_bind_error hpay _
  · rw [hspend] at hpay
    exact outcome_bind_ok hpay _

lemma outcome_handle (behave : Behaviour) (f : FunctionMacro) (arguments : List Text) :
    outcome (handle behave f arguments) s =
      match behave s.events f arguments with
      | .failed => (.error .handler, s)
      | reply => (.ok reply, s) := by
  rw [handle, outcome_bind_ok outcome_get]
  cases behave s.events f arguments <;> rfl

/-- A call to a handler never raises. -/
lemma outcome_callHandler (behave : Behaviour) (site : Site) (f : FunctionMacro)
    (arguments : List Text) :
    outcome (callHandler behave site f arguments) s =
      match behave (.called site arguments :: s.events) f arguments with
      | .failed =>
        (.ok .nothing, (s.record (.called site arguments)).report (.handlerFailed site.name))
      | .other kind _ =>
        (.ok .nothing,
          (s.record (.called site arguments)).report (.unsupportedReply site.name kind))
      | reply => (.ok reply, s.record (.called site arguments)) := by
  have hhandled := outcome_handle (s := s.record (.called site arguments)) behave f arguments
  have hevents : (s.record (.called site arguments)).events =
      .called site arguments :: s.events := rfl
  rw [hevents] at hhandled
  rw [callHandler, outcome_bind_ok (outcome_modify _)]
  cases hreply : behave (.called site arguments :: s.events) f arguments with
  | failed =>
    rw [hreply] at hhandled
    rw [outcome_bind_ok (outcome_tryCatch_error hhandled _)]
    rfl
  | tokens tokens | text text | nothing | other kind shown =>
    rw [hreply] at hhandled
    rw [outcome_bind_ok (outcome_tryCatch_ok hhandled _)]
    rfl

/-- A call is one of the function whose handler always does what it does now. -/
lemma outcome_call (behave : Behaviour) (site : Site) (f : FunctionMacro) (arguments : List Text)
    (rest : Text) :
    outcome (call behave site f arguments rest) s =
      raised (Typesetter.call site
        { f with handler := behave (.called site arguments :: s.events) f } arguments rest s) := by
  have hcalled := outcome_callHandler (s := s) behave site f arguments
  rw [call, Typesetter.call]
  dsimp only
  cases hreply : behave (.called site arguments :: s.events) f arguments with
  | text text =>
    rw [hreply] at hcalled
    rw [outcome_bind_ok hcalled]
    exact outcome_splice site text rest
  | tokens tokens | nothing | failed | other kind shown =>
    rw [hreply] at hcalled
    rw [outcome_bind_ok hcalled]
    rfl

lemma outcome_setArguments {depth : Nat} {style : Style} (arguments : List Text)
    (h : ∀ p ∈ argumentEntries nested depth style arguments s,
      outcome (nested' p.style p.text) p.state = raised (nested.expand p.style p.text p.state)) :
    outcome (setArguments T nested' style arguments) s =
      raised (T.setArguments nested style arguments s) := by
  induction arguments generalizing s with
  | nil => rfl
  | cons argument arguments ih =>
    have hfirst := h ⟨depth, style, argument, s⟩ List.mem_cons_self
    dsimp only at hfirst
    rw [setArguments, Typesetter.setArguments]
    rcases hexpand : nested.expand style argument s with ⟨refusal | tokens, s₁⟩
    · rw [hexpand] at hfirst
      exact outcome_bind_error hfirst _
    · rw [hexpand] at hfirst
      have hlater := ih (s := s₁) (by
        intro p hp
        apply h p
        rw [argumentEntries, hexpand]
        exact List.mem_cons_of_mem _ hp)
      rw [outcome_bind_ok hfirst, typesetInPlace_eq, outcome_bind_ok (outcome_liftExcept _)]
      dsimp only
      rcases hset : T.setArguments nested style arguments s₁ with ⟨refusal | texts, s₂⟩
      · rw [hset] at hlater
        exact outcome_bind_error hlater _
      · rw [hset] at hlater
        exact outcome_bind_ok hlater _

lemma outcome_takeArguments {level depth : Nat} {style : Style} {site : Site} {c : Char}
    {rest after : Text} {f : FunctionMacro}
    (hstart : T.start? c rest = some (site, .function f, after))
    (h : ∀ p ∈ stepEntries T nested level depth style c rest s,
      outcome (nested' p.style p.text) p.state = raised (nested.expand p.style p.text p.state)) :
    outcome (takeArguments T nested' level style site f after) s =
      raised (T.takeArguments nested level style site f after s) := by
  have hcollected := outcome_collect (s := s) level f.arity after
  unfold stepEntries at h
  rw [hstart] at h
  dsimp only at h
  rw [takeArguments, outcome_bind_ok hcollected, Typesetter.takeArguments]
  rcases hcollect : collectArguments F f.arity after (s.memory level) with ⟨collected, memory⟩
  rw [hcollect] at h
  cases collected with
  | error before => rfl
  | ok found =>
    dsimp only at h ⊢
    by_cases hpreparse : f.preparse
    · rw [if_pos hpreparse] at h
      have hset := outcome_setArguments (T := T) found.1 h
      rw [if_pos hpreparse, if_pos hpreparse]
      rcases hmodel : T.setArguments nested (style.max f.style) found.1
        (s.setMemory level memory) with ⟨refusal | texts, s₁⟩
      · rw [hmodel] at hset
        exact outcome_bind_error hset _
      · rw [hmodel] at hset
        exact outcome_bind_ok hset _
    · rw [if_neg hpreparse, if_neg hpreparse]
      rfl

lemma outcome_attempt {level depth : Nat} {style : Style} {site : Site} {m : Macro} {c : Char}
    {rest after : Text} (hstart : T.start? c rest = some (site, m, after))
    (h : ∀ p ∈ stepEntries T nested level depth style c rest s,
      outcome (nested' p.style p.text) p.state = raised (nested.expand p.style p.text p.state)) :
    outcome (attempt T asDefined nested' level style site m after) s =
      raised (T.attempt nested level style site m after s) := by
  cases m with
  | token token => rfl
  | text text => exact outcome_splice site text after
  | function f =>
    have htaken := outcome_takeArguments hstart h
    rw [attempt, Typesetter.attempt]
    rcases htake : T.takeArguments nested level style site f after s with ⟨taken, s₁⟩
    rw [htake] at htaken
    rcases taken with refusal | _ | ⟨arguments, rest'⟩
    · exact outcome_bind_error htaken _
    · exact outcome_bind_ok htaken _
    · rw [outcome_bind_ok htaken]
      exact outcome_call asDefined site f arguments rest'

/-- A ceiling that is met in the expansion of a macro ends that expansion, and nothing else. -/
lemma outcome_expandMacro?_of_ceiling {behave : Behaviour} {level : Nat} {style : Style}
    {site : Site} {m : Macro} {after : Text} {refusal : Refusal} {s' : ExpansionState F}
    (h : outcome (attempt T behave nested' level style site m after) s =
      (.error (.ceiling refusal), s')) :
    outcome (expandMacro? T behave nested' level style site m after) s = (.ok none, s') :=
  outcome_tryCatch_error h _

lemma outcome_expandMacro? {level depth : Nat} {style : Style} {site : Site} {m : Macro} {c : Char}
    {rest after : Text} (hstart : T.start? c rest = some (site, m, after))
    (h : ∀ p ∈ stepEntries T nested level depth style c rest s,
      outcome (nested' p.style p.text) p.state = raised (nested.expand p.style p.text p.state)) :
    outcome (expandMacro? T asDefined nested' level style site m after) s =
      (.ok (T.expandMacro? nested level style site m after s).1,
        (T.expandMacro? nested level style site m after s).2) := by
  have hattempt := outcome_attempt hstart h
  rw [Typesetter.expandMacro?]
  rcases hmodel : T.attempt nested level style site m after s with ⟨refusal | expanded, s₁⟩
  · rw [hmodel] at hattempt
    exact outcome_expandMacro?_of_ceiling hattempt
  · rw [hmodel] at hattempt
    exact outcome_tryCatch_ok hattempt _

/-- A step raises nothing and comes to the same, if the markup that it enters raises nothing but
ceilings and comes to the same. -/
lemma outcome_step {level depth : Nat} {style : Style} {c : Char} {rest : Text}
    (h : ∀ p ∈ stepEntries T nested level depth style c rest s,
      outcome (nested' p.style p.text) p.state = raised (nested.expand p.style p.text p.state)) :
    outcome (step T asDefined nested' level style c rest) s =
      (.ok (T.step nested level style c rest s).1, (T.step nested level style c rest s).2) := by
  rw [step, Typesetter.step]
  cases hstart : T.start? c rest with
  | none => rfl
  | some start =>
    obtain ⟨site, m, after⟩ := start
    dsimp only
    rw [outcome_bind_ok (outcome_expandMacro? hstart h)]
    rcases T.expandMacro? nested level style site m after s with ⟨_ | expanded, s₁⟩ <;> rfl

/-- The loop at a point comes to what the model has for it, whatever a lack of fuel would do. -/
def Settled (T : Typesetter) (p : Point F) (fuel : Nat) : Prop :=
  ∀ stuck, outcome (tokenize T asDefined stuck fuel p.depth p.style p.text) p.state =
    raised ((T.levels F (T.settings.maxDepth + 1 - p.depth)).expand p.style p.text p.state)

lemma settled_succ {p : Point F} {fuel : Nat} (hnext : ∀ q, Next T p q → Settled T q fuel) :
    Settled T p (fuel + 1) := by
  obtain ⟨depth, style, text, s⟩ := p
  intro stuck
  rw [levels_expand]
  dsimp only
  rw [tokenize]
  by_cases hdepth : T.settings.maxDepth < depth
  · rw [if_pos hdepth, if_pos hdepth]
    rfl
  · rw [if_neg hdepth, if_neg hdepth]
    cases text with
    | nil =>
      rw [if_pos rfl, Typesetter.expandAll]
      rfl
    | cons c rest =>
      have hle : depth ≤ T.settings.maxDepth := Nat.le_of_not_lt hdepth
      have hread : readAt (c :: rest) 0 = .ok c := readAt_middle [] rest c
      have hentries : ∀ entry ∈ stepEntries T (T.levels F (T.settings.maxDepth - depth))
          (T.settings.maxDepth - depth) depth style c rest s,
          outcome (tokenize T asDefined stuck fuel (depth + 1) entry.style entry.text) entry.state =
            raised ((T.levels F (T.settings.maxDepth - depth)).expand entry.style entry.text
              entry.state) := by
        intro entry hentry
        have hanswer := hnext entry (Next.enter hle hentry) stuck
        have hlevels : T.settings.maxDepth + 1 - (depth + 1) = T.settings.maxDepth - depth := by
          omega
        rw [(stepEntries_le hentry).1, hlevels] at hanswer
        exact hanswer
      have hrest := hnext _ (Next.iterate hle) stuck
      rw [levels_expand] at hrest
      dsimp only at hrest
      rw [if_neg hdepth] at hrest
      rw [if_neg (by simp), hread, outcome_bind_ok (outcome_liftExcept _), List.drop_one,
        List.tail_cons, outcome_bind_ok (outcome_step hentries), Typesetter.expandAll]
      exact outcome_bind_ok hrest _

theorem settled_eventually (T : Typesetter) (p : Point F) :
    ∃ bound, ∀ fuel, bound ≤ fuel → Settled T p fuel :=
  eventually_of_next (P := Settled T) (fun _ _ => settled_succ) p

end Same

end Raising

end MathMarkup.Proofs
