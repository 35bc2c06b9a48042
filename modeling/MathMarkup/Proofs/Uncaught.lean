import MathMarkup.Proofs.Raising

/-!
# Nothing is raised in the end

Whatever handlers do, every source gets its tokens and its text. What a handler raises ends with its
call, a ceiling with the macro in whose expansion it was met, and no position is ever missing. The
loop ends for the reason that expansion ends: each turn pays for a splice or makes the markup
shorter, and splices never come back.
-/

namespace MathMarkup.Proofs

variable {F : GroupFinder}

def Raised.isCeiling : Raised → Prop
  | .ceiling _ => True
  | _ => False

namespace Raising

/-- A computation that uses fuel, and what happens when there is none left. -/
abbrev Fuelled (F : GroupFinder) (α : Type) := Nat → RaisingNested F → Raising F α

/-- With enough fuel the computation comes to one result, and it gives no splices back. A value is
as wanted, and something raised is allowed. -/
def Ends {α : Type} (x : Fuelled F α) (s : ExpansionState F)
    (wanted : α → ExpansionState F → Prop) (allowed : Raised → Prop) : Prop :=
  ∃ (bound : Nat) (result : Except Raised α × ExpansionState F),
    (∀ fuel, bound ≤ fuel → ∀ stuck, outcome (x fuel stuck) s = result) ∧
    result.2.remaining ≤ s.remaining ∧
    match result.1 with
    | .ok a => wanted a result.2
    | .error r => allowed r

/-! ### Rules -/

section Rules

variable {α β : Type} {x : Fuelled F α} {s : ExpansionState F}
  {wanted wanted' : α → ExpansionState F → Prop} {allowed allowed' : Raised → Prop}

lemma Ends.value {a : α} {s' : ExpansionState F}
    (h : ∀ fuel stuck, outcome (x fuel stuck) s = (.ok a, s'))
    (hle : s'.remaining ≤ s.remaining) (hwanted : wanted a s') : Ends x s wanted allowed :=
  ⟨0, (.ok a, s'), fun fuel _ stuck => h fuel stuck, hle, hwanted⟩

lemma Ends.result {y : Except Refusal α × ExpansionState F}
    (h : ∀ fuel stuck, outcome (x fuel stuck) s = raised y)
    (hle : y.2.remaining ≤ s.remaining) (hwanted : ∀ a, y.1 = .ok a → wanted a y.2) :
    Ends x s wanted Raised.isCeiling := by
  refine ⟨0, raised y, fun fuel _ stuck => h fuel stuck, hle, ?_⟩
  obtain ⟨refusal | a, s'⟩ := y
  · trivial
  · exact hwanted a rfl

lemma Ends.bind {k : Nat → RaisingNested F → α → Raising F β}
    {after : β → ExpansionState F → Prop} (h : Ends x s wanted allowed)
    (hk : ∀ a s', s'.remaining ≤ s.remaining → wanted a s' →
      Ends (fun fuel stuck => k fuel stuck a) s' after allowed) :
    Ends (fun fuel stuck => x fuel stuck >>= k fuel stuck) s after allowed := by
  obtain ⟨bound, ⟨r | a, s'⟩, hx, hle, hmeets⟩ := h
  · refine ⟨bound, (.error r, s'), ?_, hle, hmeets⟩
    intro fuel hfuel stuck
    exact outcome_bind_error (hx fuel hfuel stuck) _
  · obtain ⟨bound', result, hresult, hle', hmeets'⟩ := hk a s' hle hmeets
    refine ⟨max bound bound', result, ?_, Nat.le_trans hle' hle, hmeets'⟩
    intro fuel hfuel stuck
    rw [outcome_bind_ok (hx fuel (by omega) stuck)]
    exact hresult fuel (by omega) stuck

lemma Ends.imp (h : Ends x s wanted allowed) (hwanted : ∀ a s', wanted a s' → wanted' a s')
    (hallowed : ∀ r, allowed r → allowed' r) : Ends x s wanted' allowed' := by
  obtain ⟨bound, ⟨r | a, s'⟩, hx, hle, hmeets⟩ := h
  · exact ⟨bound, _, hx, hle, hallowed r hmeets⟩
  · exact ⟨bound, _, hx, hle, hwanted a s' hmeets⟩

lemma Ends.turn {y : Fuelled F α} (h : Ends y s wanted allowed)
    (hx : ∀ fuel stuck, x (fuel + 1) stuck = y fuel stuck) : Ends x s wanted allowed := by
  obtain ⟨bound, result, hy, hle, hmeets⟩ := h
  refine ⟨bound + 1, result, ?_, hle, hmeets⟩
  intro fuel hfuel stuck
  obtain ⟨fuel, rfl⟩ : ∃ n, fuel = n + 1 := ⟨fuel - 1, by omega⟩
  rw [hx]
  exact hy fuel (by omega) stuck

end Rules

/-! ### One step -/

section Step

variable (T : Typesetter) (behave : Behaviour) {nested : Nat → RaisingNested F → RaisingNested F}
  {s : ExpansionState F}

/-- Nested markup ends from every state with no more splices left. Only ceilings are raised. -/
def NestedEnds (nested : Nat → RaisingNested F → RaisingNested F) (s : ExpansionState F) : Prop :=
  ∀ style text s', s'.remaining ≤ s.remaining →
    Ends (fun fuel stuck => nested fuel stuck style text) s' (fun _ _ => True) Raised.isCeiling

lemma NestedEnds.mono (h : NestedEnds nested s) {s' : ExpansionState F}
    (hle : s'.remaining ≤ s.remaining) : NestedEnds nested s' :=
  fun style text s'' hle' => h style text s'' (Nat.le_trans hle' hle)

lemma setArguments_ends (h : NestedEnds nested s) (style : Style) (arguments : List Text) :
    Ends (fun fuel stuck => setArguments T (nested fuel stuck) style arguments) s
      (fun _ _ => True) Raised.isCeiling := by
  induction arguments generalizing s with
  | nil => exact Ends.value (fun _ _ => rfl) (Nat.le_refl _) trivial
  | cons argument arguments ih =>
    simp only [setArguments]
    refine Ends.bind (h style argument s (Nat.le_refl _)) ?_
    intro tokens s₁ hle₁ _
    have hset : Ends (fun _ _ => liftExcept (typesetInPlace T.settings.spaces style tokens)) s₁
        (fun _ _ => True) Raised.isCeiling := by
      apply Ends.value (fun _ _ => ?_) (Nat.le_refl _) trivial
      · exact typeset T.settings.spaces style tokens
      · rw [typesetInPlace_eq]
        rfl
    refine Ends.bind hset ?_
    intro text s₂ hle₂ _
    refine Ends.bind (ih (h.mono (Nat.le_trans hle₂ hle₁))) ?_
    intro texts s₃ _ _
    exact Ends.value (fun _ _ => rfl) (Nat.le_refl _) trivial

/-- The text after the arguments is a tail, and a shorter one if there are arguments to take. -/
def Taken (f : FunctionMacro) (after : Text) (taken : Option (List Text × Text)) : Prop :=
  ∀ arguments rest, taken = some (arguments, rest) →
    ∃ length, rest = after.drop length ∧ (0 < f.arity → 0 < length)

lemma takeArguments_ends (h : NestedEnds nested s) (level : Nat) (style : Style) (site : Site)
    (f : FunctionMacro) (after : Text) :
    Ends (fun fuel stuck => takeArguments T (nested fuel stuck) level style site f after) s
      (fun taken _ => Taken f after taken) Raised.isCeiling := by
  rcases hcollect : collectArguments F f.arity after (s.memory level) with ⟨collected, memory⟩
  have hcollected : Ends (fun _ _ => collect level f.arity after) s
      (fun found s' => found = collected ∧ s'.remaining = s.remaining) Raised.isCeiling := by
    apply Ends.value (fun _ _ => outcome_collect level f.arity after) (Nat.le_refl _)
    rw [hcollect]
    exact ⟨rfl, rfl⟩
  simp only [takeArguments]
  refine Ends.bind hcollected ?_
  rintro found s₁ hle₁ ⟨rfl, -⟩
  cases found with
  | error before =>
    refine Ends.value (fun _ _ => rfl) (Nat.le_refl _) ?_
    intro arguments rest hnone
    cases hnone
  | ok found =>
    have htaken : ∀ texts : List Text, Taken f after (some (texts, after.drop found.2)) := by
      rintro texts arguments rest heq
      cases heq
      exact ⟨found.2, rfl, fun harity => collectArguments_pos harity hcollect⟩
    by_cases hpreparse : f.preparse
    · simp only [if_pos hpreparse]
      refine Ends.bind (setArguments_ends T (h.mono hle₁) (style.max f.style) found.1) ?_
      intro texts s₂ _ _
      exact Ends.value (fun _ _ => rfl) (Nat.le_refl _) (htaken texts)
    · simp only [if_neg hpreparse]
      exact Ends.value (fun _ _ => rfl) (Nat.le_refl _) (htaken found.1)

/-- What a macro expands to pays for a splice, or goes on with a tail of the markup: a shorter one
if it takes arguments. -/
def Progresses (s : ExpansionState F) (m : Macro) (after : Text) (expanded : Option Expanded)
    (s' : ExpansionState F) : Prop :=
  ∀ e, expanded = some e → s'.remaining < s.remaining ∨
    ∃ length, e.rest = after.drop length ∧ (m.takesArguments → 0 < length)

lemma attempt_ends (h : NestedEnds nested s) (level : Nat) (style : Style) (site : Site) (m : Macro)
    (after : Text) :
    Ends (fun fuel stuck => attempt T behave (nested fuel stuck) level style site m after) s
      (Progresses s m after) Raised.isCeiling := by
  cases m with
  | token token =>
    refine Ends.value (fun _ _ => rfl) (Nat.le_refl _) ?_
    rintro e ⟨rfl⟩
    exact Or.inr ⟨0, rfl, Bool.false_ne_true.elim⟩
  | text text =>
    refine Ends.result (fun _ _ => outcome_splice site text after)
      (Typesetter.remaining_splice_le site text after s) ?_
    intro expanded hexpanded e _
    exact Or.inl (Typesetter.remaining_splice_lt (Prod.ext hexpanded rfl))
  | function f =>
    simp only [attempt]
    refine Ends.bind (takeArguments_ends T h level style site f after) ?_
    intro taken s₁ hle₁ htaken
    cases taken with
    | none =>
      refine Ends.value (fun _ _ => rfl) (Nat.le_refl _) ?_
      intro e hnone
      cases hnone
    | some taken =>
      obtain ⟨arguments, rest⟩ := taken
      obtain ⟨length, hrest, hlength⟩ := htaken arguments rest rfl
      refine Ends.result (fun _ _ => outcome_call behave site f arguments rest)
        (Typesetter.remaining_call_le site _ arguments rest s₁) ?_
      rintro expanded hexpanded e rfl
      rcases Typesetter.progress_call (Prod.ext hexpanded rfl) with hlt | heq
      · exact Or.inl (Nat.lt_of_lt_of_le hlt hle₁)
      · refine Or.inr ⟨length, heq.trans hrest, ?_⟩
        intro htakes
        exact hlength (by simpa [Macro.takesArguments] using htakes)

lemma expandMacro?_ends (h : NestedEnds nested s) (level : Nat) (style : Style) (site : Site)
    (m : Macro) (after : Text) :
    Ends (fun fuel stuck => expandMacro? T behave (nested fuel stuck) level style site m after) s
      (Progresses s m after) (fun _ => False) := by
  obtain ⟨bound, ⟨r | expanded, s₁⟩, hattempt, hle, hmeets⟩ :=
    attempt_ends T behave h level style site m after
  · cases r with
    | ceiling refusal =>
      refine ⟨bound, (.ok none, s₁), fun fuel hfuel stuck =>
        outcome_expandMacro?_of_ceiling (hattempt fuel hfuel stuck), hle, ?_⟩
      intro e hnone
      cases hnone
    | handler => exact hmeets.elim
    | noSuchPosition => exact hmeets.elim
  · exact ⟨bound, (.ok expanded, s₁), fun fuel hfuel stuck =>
      outcome_tryCatch_ok (hattempt fuel hfuel stuck) _, hle, hmeets⟩

lemma step_ends (h : NestedEnds nested s) (level : Nat) (style : Style) (c : Char) (rest : Text) :
    Ends (fun fuel stuck => step T behave (nested fuel stuck) level style c rest) s
      (fun next s' => s'.remaining < s.remaining ∨ next.rest.length < (c :: rest).length)
      (fun _ => False) := by
  have hliteral : ∀ s' : ExpansionState F, s'.remaining ≤ s.remaining →
      Ends (fun _ _ => (pure (T.literal c rest) : Raising F Expanded)) s'
        (fun next s'' => s''.remaining < s.remaining ∨ next.rest.length < (c :: rest).length)
        (fun _ => False) :=
    fun s' _ => Ends.value (fun _ _ => rfl) (Nat.le_refl _) (Or.inr (Nat.lt_succ_self _))
  simp only [step]
  cases hstart : T.start? c rest with
  | none => exact hliteral s (Nat.le_refl _)
  | some start =>
    obtain ⟨site, m, after⟩ := start
    refine Ends.bind (expandMacro?_ends T behave h level style site m after) ?_
    intro expanded s₁ hle₁ hprogress
    cases expanded with
    | none => exact hliteral s₁ hle₁
    | some expanded =>
      refine Ends.value (fun _ _ => rfl) (Nat.le_refl _) ?_
      rcases hprogress expanded rfl with hlt | ⟨length, hrest, hlength⟩
      · exact Or.inl hlt
      · right
        rw [hrest, List.length_drop, List.length_cons]
        rcases T.length_of_start? hstart with hle | ⟨heq, htakes⟩
        · omega
        · have := hlength htakes
          omega

end Step

/-! ### Whole expansions -/

section Whole

variable (T : Typesetter) (behave : Behaviour) {depth : Nat} {s : ExpansionState F}

lemma tokenize_ends_beyond (hdepth : T.settings.maxDepth < depth) (style : Style) (text : Text) :
    Ends (fun fuel stuck => tokenize T behave stuck fuel depth style text) s (fun _ _ => True)
      Raised.isCeiling := by
  have hrefused : Ends (fun _ _ => (do
      modify (·.report (.tooDeep T.settings.maxDepth))
      throw (.ceiling .tooDeep) : Raising F (List Token))) s (fun _ _ => True)
      Raised.isCeiling :=
    Ends.result (fun _ _ => (rfl : _ = raised (.error .tooDeep,
      s.report (.tooDeep T.settings.maxDepth)))) (Nat.le_refl _) fun _ _ => trivial
  refine hrefused.turn ?_
  intro fuel stuck
  rw [tokenize, if_pos hdepth]

lemma tokenize_ends_nil (hdepth : ¬ T.settings.maxDepth < depth) (style : Style) :
    Ends (fun fuel stuck => tokenize T behave stuck fuel depth style []) s (fun _ _ => True)
      (fun _ => False) := by
  have hnothing : Ends (fun _ _ => (pure [] : Raising F (List Token))) s (fun _ _ => True)
      (fun _ => False) :=
    Ends.value (fun _ _ => rfl) (Nat.le_refl _) trivial
  refine hnothing.turn ?_
  intro fuel stuck
  rw [tokenize, if_neg hdepth, if_pos rfl]

/-- One turn of the loop, if it enters markup that ends and goes on to markup that ends. -/
lemma tokenize_ends_cons (hdepth : ¬ T.settings.maxDepth < depth) (style : Style) (c : Char)
    (rest : Text)
    (hnested : NestedEnds (fun fuel stuck => tokenize T behave stuck fuel (depth + 1)) s)
    (hlater : ∀ (text : Text) (s' : ExpansionState F), s'.remaining ≤ s.remaining →
      (s'.remaining < s.remaining ∨ text.length < (c :: rest).length) →
      Ends (fun fuel stuck => tokenize T behave stuck fuel depth style text) s' (fun _ _ => True)
        (fun _ => False)) :
    Ends (fun fuel stuck => tokenize T behave stuck fuel depth style (c :: rest)) s
      (fun _ _ => True) (fun _ => False) := by
  have hread : readAt (c :: rest) 0 = .ok c := readAt_middle [] rest c
  have hrest : ∀ (next : Expanded) (s₁ : ExpansionState F), s₁.remaining ≤ s.remaining →
      (s₁.remaining < s.remaining ∨ next.rest.length < (c :: rest).length) →
      Ends (fun fuel stuck => tokenize T behave stuck fuel depth style next.rest >>=
        fun tokens => pure (next.tokens ++ tokens)) s₁ (fun _ _ => True) (fun _ => False) := by
    intro next s₁ hle hprogress
    refine (hlater next.rest s₁ hle hprogress).bind ?_
    intro tokens s₂ _ _
    exact Ends.value (fun _ _ => rfl) (Nat.le_refl _) trivial
  have hstep := step_ends T behave hnested (T.settings.maxDepth - depth) style c rest
  refine (hstep.bind hrest).turn ?_
  intro fuel stuck
  rw [tokenize, if_neg hdepth, if_neg (by simp), hread]
  rfl

/-- The loop ends at every point, and raises nothing but a ceiling beyond the greatest depth. -/
theorem tokenize_ends (p : Point F) :
    Ends (fun fuel stuck => tokenize T behave stuck fuel p.depth p.style p.text) p.state
      (fun _ _ => True) (fun r => r.isCeiling ∧ T.settings.maxDepth < p.depth) := by
  -- The triple that goes down is the one of `Next`, but here any behaviour of handlers has to do.
  induction p using (InvImage.wf (Point.measure T) wellFounded_below).induction with
  | _ p ih =>
    obtain ⟨depth, style, text, s⟩ := p
    by_cases hdepth : T.settings.maxDepth < depth
    · exact (tokenize_ends_beyond T behave hdepth style text).imp (fun _ _ h => h)
        fun r h => ⟨h, hdepth⟩
    · suffices h : Ends (fun fuel stuck => tokenize T behave stuck fuel depth style text) s
          (fun _ _ => True) (fun _ => False) from
        h.imp (fun _ _ h => h) fun r h => h.elim
      cases text with
      | nil => exact tokenize_ends_nil T behave hdepth style
      | cons c rest =>
        apply tokenize_ends_cons T behave hdepth style c rest
        · intro style' text' s' hle
          have hends := ih ⟨depth + 1, style', text', s'⟩
            (below_of_deeper (Nat.le_of_not_lt hdepth) hle)
          exact hends.imp (fun _ _ h => h) fun r h => h.1
        · intro text' s' hle hprogress
          have hends := ih ⟨depth, style, text', s'⟩ (below_of_progress hle hprogress)
          exact hends.imp (fun _ _ h => h) fun r h => hdepth h.2

end Whole

/-! ### What goes no further -/

section Limits

variable {T : Typesetter} {behave : Behaviour} {nested : RaisingNested F} {s s' : ExpansionState F}

lemma expandMacro?_ne_ceiling (level : Nat) (style : Style) (site : Site) (m : Macro)
    (after : Text) (refusal : Refusal) :
    outcome (expandMacro? T behave nested level style site m after) s ≠
      (.error (.ceiling refusal), s') := by
  intro h
  rcases hattempt : outcome (attempt T behave nested level style site m after) s with
    ⟨r | expanded, s₁⟩
  · cases r with
    | ceiling met =>
      rw [outcome_expandMacro?_of_ceiling hattempt] at h
      cases h
    | handler | noSuchPosition =>
      rw [expandMacro?, outcome_tryCatch_error hattempt] at h
      cases h
  · rw [expandMacro?, outcome_tryCatch_ok hattempt] at h
    cases h

lemma callHandler_ok (behave : Behaviour) (site : Site) (f : FunctionMacro) (arguments : List Text)
    (s : ExpansionState F) :
    ∃ reply s', outcome (callHandler behave site f arguments) s = (.ok reply, s') := by
  rw [outcome_callHandler]
  cases behave (.called site arguments :: s.events) f arguments <;> exact ⟨_, _, rfl⟩

lemma length_collectArguments {count : Nat} {text : Text} {memory memory' : F.Memory}
    {arguments : List Text} {length : Nat}
    (h : collectArguments F count text memory = (.ok (arguments, length), memory')) :
    arguments.length = count := by
  induction count generalizing text memory memory' arguments length with
  | zero =>
    cases h
    rfl
  | succ count ih =>
    rw [collectArguments] at h
    split at h
    · cases h
    · split at h
      · cases h
      · next later total memory'' hlater =>
        cases h
        rw [List.length_cons, ih hlater]

lemma length_setArguments {style : Style} {arguments texts : List Text}
    (h : outcome (setArguments T nested style arguments) s = (.ok texts, s')) :
    texts.length = arguments.length := by
  induction arguments generalizing s s' texts with
  | nil =>
    cases h
    rfl
  | cons argument arguments ih =>
    obtain ⟨tokens, s₁, -, h⟩ := of_outcome_bind h
    obtain ⟨text, s₂, -, h⟩ := of_outcome_bind h
    obtain ⟨later, s₃, hlater, h⟩ := of_outcome_bind h
    cases h
    rw [List.length_cons, List.length_cons, ih hlater]

/-- A handler that is called gets as many arguments as its function takes. -/
lemma length_takeArguments {level : Nat} {style : Style} {site : Site} {f : FunctionMacro}
    {after : Text} {arguments : List Text} {rest : Text}
    (h : outcome (takeArguments T nested level style site f after) s =
      (.ok (some (arguments, rest)), s')) : arguments.length = f.arity := by
  rw [takeArguments, outcome_bind_ok (outcome_collect level f.arity after)] at h
  rcases hcollect : collectArguments F f.arity after (s.memory level) with ⟨collected, memory⟩
  rw [hcollect] at h
  cases collected with
  | error before => cases h
  | ok found =>
    have hfound := length_collectArguments hcollect
    by_cases hpreparse : f.preparse
    · dsimp only at h
      rw [if_pos hpreparse] at h
      obtain ⟨texts, s₂, hset, h⟩ := of_outcome_bind h
      cases h
      rw [length_setArguments hset, hfound]
    · dsimp only at h
      rw [if_neg hpreparse] at h
      cases h
      exact hfound

end Limits

lemma outcome_transform {T : Typesetter} {behave : Behaviour} {stuck : RaisingNested F} {fuel : Nat}
    {source : Text} {tokens : List Token} {s s' : ExpansionState F}
    (h : outcome (tokenize T behave stuck fuel 0 .text source) s = (.ok tokens, s')) :
    outcome (transform T behave stuck fuel source) s = (.ok (T.setTokens tokens), s') := by
  rw [transform, outcome_bind_ok h, typesetInPlace_eq]
  rfl

end Raising

/-- Nothing is raised in the end. Whatever the handlers do, the loop at depth zero ends with tokens
and with the text that they are set as; if the handlers do what they are defined to do, these are
the tokens and the text of the source. A ceiling that is met in the expansion of a macro makes this
expansion fail and goes no further, and what a handler raises goes no further than its call. A
handler gets as many arguments as its function takes. A script is appended to an atom that is
there, and no other position is missing either, whatever the tokens are. -/
theorem nothing_raised (T : Typesetter) (F : GroupFinder) :
    (∀ behave source, ∃ tokens bound, ∀ fuel, bound ≤ fuel → ∀ stuck,
      (outcome (Raising.tokenize T behave stuck fuel 0 .text source) (T.initialState F)).1 =
          .ok tokens ∧
        (outcome (Raising.transform T behave stuck fuel source) (T.initialState F)).1 =
          .ok (T.setTokens tokens)) ∧
    (∀ source, ∃ bound, ∀ fuel, bound ≤ fuel → ∀ stuck,
      (outcome (Raising.tokenize T asDefined stuck fuel 0 .text source)
            (T.initialState .remembering)).1 = .ok (T.tokenize source) ∧
        (outcome (Raising.transform T asDefined stuck fuel source)
            (T.initialState .remembering)).1 = .ok (T.transform source)) ∧
    (∀ behave nested level style site m after refusal, ∀ s s' : ExpansionState F,
      (outcome (Raising.attempt T behave nested level style site m after) s =
          (.error (.ceiling refusal), s') →
        outcome (Raising.expandMacro? T behave nested level style site m after) s =
          (.ok none, s')) ∧
      outcome (Raising.expandMacro? T behave nested level style site m after) s ≠
        (.error (.ceiling refusal), s')) ∧
    (∀ behave site f arguments, ∀ s : ExpansionState F, ∃ reply s',
      outcome (Raising.callHandler behave site f arguments) s = (.ok reply, s')) ∧
    (∀ nested level style site f after arguments rest, ∀ s s' : ExpansionState F,
      outcome (Raising.takeArguments T nested level style site f after) s =
          (.ok (some (arguments, rest)), s') → arguments.length = f.arity) ∧
    (∀ tokens, foldScriptsInPlace tokens = .ok (foldScripts tokens)) ∧
    ∀ spaces style tokens, typesetInPlace spaces style tokens =
      .ok (typeset spaces style tokens) := by
  refine ⟨?_, ?_, ?_, Raising.callHandler_ok, ?_, foldScriptsInPlace_eq, typesetInPlace_eq⟩
  · intro behave source
    obtain ⟨bound, ⟨r | tokens, s'⟩, h, -, hmeets⟩ :=
      Raising.tokenize_ends T behave ⟨0, .text, source, T.initialState F⟩
    · exact absurd hmeets.2 (Nat.not_lt_zero _)
    · refine ⟨tokens, bound, ?_⟩
      intro fuel hfuel stuck
      have htokens := h fuel hfuel stuck
      exact ⟨congrArg Prod.fst htokens, congrArg Prod.fst (Raising.outcome_transform htokens)⟩
  · intro source
    obtain ⟨bound, h⟩ :=
      Raising.settled_eventually T ⟨0, .text, source, T.initialState .remembering⟩
    refine ⟨bound, ?_⟩
    intro fuel hfuel stuck
    have htokens : outcome (Raising.tokenize T asDefined stuck fuel 0 .text source)
        (T.initialState .remembering) =
          (.ok (T.tokenize source), (T.run .remembering source).2) := h fuel hfuel stuck
    exact ⟨congrArg Prod.fst htokens, congrArg Prod.fst (Raising.outcome_transform htokens)⟩
  · intro behave nested level style site m after refusal s s'
    exact ⟨Raising.outcome_expandMacro?_of_ceiling,
      Raising.expandMacro?_ne_ceiling level style site m after refusal⟩
  · intro nested level style site f after arguments rest s s' h
    exact Raising.length_takeArguments h

end MathMarkup.Proofs
