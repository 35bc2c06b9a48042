import MathMarkup.Proofs.ItemExpansion
import MathMarkup.Proofs.PlainLetters

/-!
# Letter styles

Under two letter styles an expansion goes the same way, and the two differ in the style of letters
alone: in that of the letters that are set as they are written, and so in what functions are given
and in what they make of it. Fonts, which see no style, do away with the difference.
-/

namespace MathMarkup

def Typesetter.withLetterStyle (T : Typesetter) (style : LetterStyle) : Typesetter :=
  { T with settings := { T.settings with letterStyle := style } }

namespace Proofs

variable {F : GroupFinder} {hF : ExactFinder F} {s t : ExpansionState F}

structure SameBudget (hF : ExactFinder F) (s t : ExpansionState F) : Prop where
  remaining : s.remaining = t.remaining
  sound : SoundMemory hF s
  sound' : SoundMemory hF t

/-- Both come to the same as far as `view` shows it, and leave the same splices. -/
structure AlikeIn (hF : ExactFinder F) {α β : Type} (view : α → β) (x y : α × ExpansionState F) :
    Prop where
  value : view x.1 = view y.1
  state : SameBudget hF x.2 y.2

namespace SameBudget

lemma record (h : SameBudget hF s t) (event event' : Event) :
    SameBudget hF (s.record event) (t.record event') :=
  ⟨h.remaining, h.sound, h.sound'⟩

lemma spend (h : SameBudget hF s t) (site : Site) (text : Text) :
    AlikeIn hF id (s.spend site text) (t.spend site text) := by
  have hsame : (s.spend site text).1 = (t.spend site text).1 ∧
      (s.spend site text).2.remaining = (t.spend site text).2.remaining := by
    rw [ExpansionState.spend, ExpansionState.spend, ← h.remaining]
    by_cases hspent : s.remaining = 0
    · rw [if_pos hspent, if_pos hspent]
      refine ⟨rfl, ?_⟩
      dsimp only
      split <;> split <;> exact h.remaining
    · rw [if_neg hspent, if_neg hspent]
      exact ⟨rfl, rfl⟩
  exact ⟨hsame.1, hsame.2, (remembering hF).spend site text h.sound,
    (remembering hF).spend site text h.sound'⟩

end SameBudget

/-- Either both are refused for one reason, or both come to something. -/
lemma AlikeIn.split {α β : Type} {view : α → β} {x y : Except Refusal α × ExpansionState F}
    (h : AlikeIn hF (Except.map view) x y) :
    (∃ refusal s t, x = (.error refusal, s) ∧ y = (.error refusal, t) ∧ SameBudget hF s t) ∨
      ∃ a b s t, x = (.ok a, s) ∧ y = (.ok b, t) ∧ view a = view b ∧ SameBudget hF s t := by
  obtain ⟨hvalue, hstate⟩ := h
  obtain ⟨r, s⟩ := x
  obtain ⟨r', t⟩ := y
  cases r with
  | error refusal =>
    cases r' with
    | error refusal' =>
      cases hvalue
      exact Or.inl ⟨refusal, s, t, rfl, rfl, hstate⟩
    | ok b => cases hvalue
  | ok a =>
    cases r' with
    | error refusal' => cases hvalue
    | ok b => exact Or.inr ⟨a, b, s, t, rfl, rfl, Except.ok.inj hvalue, hstate⟩

/-! ### One step -/

def plainExpanded (expanded : Expanded) : List Token × Text :=
  (plainTokens expanded.tokens, expanded.rest)

def NestedPlain (hF : ExactFinder F) (nested nested' : Nested F) : Prop :=
  ∀ style text s t, SameBudget hF s t →
    AlikeIn hF (Except.map plainTokens) (nested.expand style text s) (nested'.expand style text t)

section Step

variable (T : Typesetter) (letters : LetterStyle) {nested nested' : Nested F}

lemma setArguments_plain (hn : NestedPlain hF nested nested') (style : Style)
    (arguments : List Text) (h : SameBudget hF s t) :
    AlikeIn hF (Except.map (List.map (List.map plainLetter)))
      (T.setArguments nested style arguments s)
      ((T.withLetterStyle letters).setArguments nested' style arguments t) := by
  induction arguments generalizing s t with
  | nil => exact ⟨rfl, h⟩
  | cons argument arguments ih =>
    rcases (hn style argument s t h).split with
      ⟨refusal, s₁, t₁, hs, ht, h₁⟩ | ⟨tokens, tokens', s₁, t₁, hs, ht, htokens, h₁⟩
    · simp only [Typesetter.setArguments, hs, ht]
      exact ⟨rfl, h₁⟩
    · rcases (ih h₁).split with
        ⟨refusal, s₂, t₂, hs₂, ht₂, h₂⟩ | ⟨texts, texts', s₂, t₂, hs₂, ht₂, htexts, h₂⟩
      · simp only [Typesetter.setArguments, hs, ht, hs₂, ht₂]
        exact ⟨rfl, h₂⟩
      · have hset := typeset_plain T.settings.spaces style htokens
        simp only [Typesetter.setArguments, hs, ht, hs₂, ht₂]
        refine ⟨congrArg Except.ok ?_, h₂⟩
        rw [List.map_cons, List.map_cons, hset, htexts]
        rfl

lemma takeArguments_plain (hn : NestedPlain hF nested nested') (level : Nat) (style : Style)
    (site : Site) (f : FunctionMacro) (after : Text) (h : SameBudget hF s t) :
    AlikeIn hF (Except.map (Option.map fun taken => (visible f taken.1, taken.2)))
      (T.takeArguments nested level style site f after s)
      ((T.withLetterStyle letters).takeArguments nested' level style site f after t) := by
  obtain ⟨collected, memory, memory', hs, ht, hsound, hsound'⟩ :=
    h.sound.collect h.sound' level level f.arity after
  have h₁ : SameBudget hF (s.setMemory level memory) (t.setMemory level memory') :=
    ⟨h.remaining, hsound, hsound'⟩
  simp only [Typesetter.takeArguments, hs, ht]
  cases collected with
  | error before => exact ⟨rfl, h₁.record _ _⟩
  | ok found =>
    obtain ⟨arguments, length⟩ := found
    dsimp only
    by_cases hpreparse : f.preparse
    · rw [if_pos hpreparse, if_pos hpreparse]
      rcases (setArguments_plain T letters hn (style.max f.style) arguments h₁).split with
        ⟨refusal, s₂, t₂, hs₂, ht₂, h₂⟩ | ⟨texts, texts', s₂, t₂, hs₂, ht₂, htexts, h₂⟩
      · simp only [hs₂, ht₂]
        exact ⟨rfl, h₂⟩
      · have hvisible : visible f texts = visible f texts' := by
          rw [visible, visible, if_pos hpreparse, if_pos hpreparse, htexts]
        simp only [hs₂, ht₂]
        exact ⟨by simp [Except.map, hvisible], h₂⟩
    · rw [if_neg hpreparse, if_neg hpreparse]
      exact ⟨rfl, h₁⟩

lemma splice_plain (site : Site) (text rest : Text) (h : SameBudget hF s t) :
    AlikeIn hF (Except.map (Option.map plainExpanded)) (Typesetter.splice site text rest s)
      (Typesetter.splice site text rest t) := by
  obtain ⟨hpaid, hstate⟩ := h.spend site text
  rcases hs : s.spend site text with ⟨paid, s₁⟩
  rcases ht : t.spend site text with ⟨paid', t₁⟩
  rw [hs, ht] at hpaid hstate
  obtain rfl : paid = paid' := hpaid
  simp only [Typesetter.splice, hs, ht]
  cases paid <;> exact ⟨rfl, hstate⟩

lemma call_plain (site : Site) {f : FunctionMacro} (hf : PassesStyleOn f)
    {arguments arguments' : List Text} (hsame : visible f arguments = visible f arguments')
    (rest : Text) (h : SameBudget hF s t) :
    AlikeIn hF (Except.map (Option.map plainExpanded)) (Typesetter.call site f arguments rest s)
      (Typesetter.call site f arguments' rest t) := by
  have hcalled := h.record (.called site arguments) (.called site arguments')
  unfold Typesetter.call
  rcases eq_or_tokens_of_plainReply (hf _ _ hsame) with
    hreply | ⟨tokens, tokens', hreply, hreply', htokens⟩
  · rw [← hreply]
    cases f.handler arguments with
    | tokens tokens => exact ⟨rfl, hcalled⟩
    | text text => exact splice_plain site text rest hcalled
    | nothing => exact ⟨rfl, hcalled⟩
    | failed => exact ⟨rfl, hcalled.record _ _⟩
    | other kind shown => exact ⟨rfl, hcalled.record _ _⟩
  · rw [hreply, hreply']
    exact ⟨by simp [Except.map, plainExpanded, htokens], hcalled⟩

lemma attempt_plain (hn : NestedPlain hF nested nested') (level : Nat) (style : Style)
    (site : Site) {m : Macro} (hm : ∀ f, m = .function f → PassesStyleOn f) (after : Text)
    (h : SameBudget hF s t) :
    AlikeIn hF (Except.map (Option.map plainExpanded))
      (T.attempt nested level style site m after s)
      ((T.withLetterStyle letters).attempt nested' level style site m after t) := by
  cases m with
  | token token => exact ⟨rfl, h⟩
  | text text => exact splice_plain site text after h
  | function f =>
    rcases (takeArguments_plain T letters hn level style site f after h).split with
      ⟨refusal, s₁, t₁, hs, ht, h₁⟩ | ⟨taken, taken', s₁, t₁, hs, ht, htaken, h₁⟩
    · simp only [Typesetter.attempt, hs, ht]
      exact ⟨rfl, h₁⟩
    · simp only [Typesetter.attempt, hs, ht]
      cases taken with
      | none =>
        obtain rfl : taken' = none := Option.map_eq_none_iff.mp htaken.symm
        exact ⟨rfl, h₁⟩
      | some taken =>
        obtain ⟨taken', rfl, hsame⟩ := Option.map_eq_some_iff.mp htaken.symm
        obtain ⟨hvisible, hrest⟩ := Prod.mk.inj hsame
        dsimp only
        rw [hrest]
        exact call_plain site (hm f rfl) hvisible.symm taken.2 h₁

lemma literal_plain (c : Char) (rest : Text) :
    plainExpanded (T.literal c rest) =
      plainExpanded ((T.withLetterStyle letters).literal c rest) := by
  by_cases hc : isLetter c = true
  · simp [Typesetter.literal, LetterStyle.literal, plainExpanded, plainTokens, Token.mapText, hc,
      plainLetter_letter]
  · simp only [Typesetter.literal, LetterStyle.literal, if_neg hc]

/-- A step takes both expansions to the same rest. -/
theorem step_plain (hn : NestedPlain hF nested nested') (level : Nat) (style : Style) (c : Char)
    (rest : Text)
    (hf : ∀ site f after, T.start? c rest = some (site, .function f, after) → PassesStyleOn f)
    (h : SameBudget hF s t) :
    AlikeIn hF plainExpanded (T.step nested level style c rest s)
      ((T.withLetterStyle letters).step nested' level style c rest t) := by
  have hsame : (T.withLetterStyle letters).start? c rest = T.start? c rest := rfl
  have hliteral := literal_plain T letters c rest
  cases hstart : T.start? c rest with
  | none =>
    simp only [Typesetter.step, hsame, hstart]
    exact ⟨hliteral, h⟩
  | some start =>
    obtain ⟨site, m, after⟩ := start
    have hm : ∀ f, m = .function f → PassesStyleOn f := by
      rintro f rfl
      exact hf site f after hstart
    simp only [Typesetter.step, Typesetter.expandMacro?, hsame, hstart]
    rcases (attempt_plain T letters hn level style site hm after h).split with
      ⟨refusal, s₁, t₁, hs, ht, h₁⟩ | ⟨expanded, expanded', s₁, t₁, hs, ht, hexpanded, h₁⟩
    · simp only [hs, ht]
      exact ⟨hliteral, h₁⟩
    · simp only [hs, ht]
      cases expanded with
      | none =>
        obtain rfl : expanded' = none := Option.map_eq_none_iff.mp hexpanded.symm
        exact ⟨hliteral, h₁⟩
      | some expanded =>
        obtain ⟨expanded', rfl, hview⟩ := Option.map_eq_some_iff.mp hexpanded.symm
        exact ⟨hview.symm, h₁⟩

end Step

/-! ### Whole expansions -/

section Whole

variable {T : Typesetter} (letters : LetterStyle)

lemma passesStyleOn_of_start? (hT : T.registry = .standard) {c : Char} {rest : Text} {site : Site}
    {f : FunctionMacro} {after : Text} (h : T.start? c rest = some (site, .function f, after)) :
    PassesStyleOn f := by
  rw [Typesetter.start?.eq_def] at h
  split at h
  · obtain ⟨found, -, h⟩ := Option.bind_eq_some_iff.mp h
    obtain ⟨m, hlookup, h⟩ := Option.bind_eq_some_iff.mp h
    cases h
    rw [hT] at hlookup
    exact passesStyleOn_of_lookup_standard hlookup
  · cases h
    exact passesStyleOn_scriptMacro superscripts
  · cases h
    exact passesStyleOn_scriptMacro subscripts
  · cases h
    exact passesStyleOn_ofClass .ord
  · cases h

theorem expandAll_plain (hT : T.registry = .standard) {nested nested' : Nested F}
    (hn : NestedPlain hF nested nested') (level : Nat) (style : Style) (text : Text)
    (h : SameBudget hF s t) :
    AlikeIn hF plainTokens (T.expandAll nested level style text s)
      ((T.withLetterStyle letters).expandAll nested' level style text t) := by
  -- The recursion is that of the one side; the step lemma moves the other side along with it.
  induction text, s using Typesetter.expandAll.induct T nested level style generalizing t with
  | case1 s =>
    simp only [Typesetter.expandAll]
    exact ⟨rfl, h⟩
  | case2 c rest s next =>
    rename_i ih
    have hstep := step_plain T letters hn level style c rest
      (fun site f after hstart => passesStyleOn_of_start? hT hstart) h
    rcases hs : T.step nested level style c rest s with ⟨expanded, s₁⟩
    rcases ht : (T.withLetterStyle letters).step nested' level style c rest t with ⟨expanded', t₁⟩
    rw [hs, ht] at hstep
    have htokens : plainTokens expanded.tokens = plainTokens expanded'.tokens :=
      congrArg Prod.fst hstep.value
    have hrest : expanded.rest = expanded'.rest := congrArg Prod.snd hstep.value
    have hnext : next = (expanded, s₁) := hs
    rw [hnext] at ih
    have hlater := ih hstep.state
    simp only [hrest] at hlater
    simp only [Typesetter.expandAll, hs, ht, hrest]
    refine ⟨?_, hlater.state⟩
    rw [plainTokens_append, plainTokens_append, htokens, hlater.value]

theorem levels_plain (hT : T.registry = .standard) (level : Nat) :
    NestedPlain hF (T.levels F level) ((T.withLetterStyle letters).levels F level) := by
  induction level with
  | zero =>
    intro style text s t h
    exact ⟨rfl, h.record _ _⟩
  | succ level ih =>
    intro style text s t h
    have hall := expandAll_plain letters hT ih level style text h
    exact ⟨congrArg Except.ok hall.value, hall.state⟩

theorem tokenize_plain (hT : T.registry = .standard) (source : Text) :
    plainTokens ((T.withLetterStyle letters).tokenize source) =
      plainTokens (T.tokenize source) := by
  have hsound : SoundMemory exactRemembering (T.initialState .remembering) :=
    soundMemory_of_memories_nil exactRemembering rfl
  have hall := expandAll_plain letters hT (levels_plain letters hT T.settings.maxDepth)
    T.settings.maxDepth .text source ⟨rfl, hsound, hsound⟩
  exact hall.value.symm

theorem transform_plain (hT : T.registry = .standard) (source : Text) :
    ((T.withLetterStyle letters).transform source).map plainLetter =
      (T.transform source).map plainLetter :=
  typeset_plain T.settings.spaces .text (tokenize_plain letters hT source)

/-- A font over a whole group gives the same tokens under both letter styles. -/
theorem tokenize_font (hT : T.registry = .standard) (hdepth : 1 ≤ T.settings.maxDepth)
    {entry : String × Macro} (hentry : entry ∈ Standard.fonts) {body : Text}
    (hbody : Neutral body) :
    (T.withLetterStyle letters).tokenize (commandText entry.1 ++ groupText body) =
      T.tokenize (commandText entry.1 ++ groupText body) := by
  obtain ⟨level, hlevel⟩ := Nat.exists_eq_add_of_le' hdepth
  obtain ⟨make, hfont, hmake⟩ := font_eq hentry
  have hunary : IsUnary (.unary true fun text => .tokens (make text)) make :=
    ⟨rfl, rfl, fun _ => rfl⟩
  have hname : ∀ font ∈ Standard.fonts, isControlName font.1.toList = true := by decide
  have hlookup : T.registry.lookup entry.1.toList =
      some (.function (.unary true fun text => .tokens (make text))) := by
    rw [hT, lookup_font hentry, hfont]
  have hstart : T.start? '\\' (entry.1.toList ++ '{' :: (body ++ ['}'])) = _ :=
    start?_command (hname entry hentry) hlookup fun _ => rfl
  have hstart' : (T.withLetterStyle letters).start? '\\'
      (entry.1.toList ++ '{' :: (body ++ ['}'])) = _ := hstart
  have hsound : SoundMemory exactRemembering (T.initialState .remembering) :=
    soundMemory_of_memories_nil exactRemembering rfl
  obtain ⟨hfound, hexpand⟩ := expandAll_unary_group level .text hunary hbody hstart hsound
  obtain ⟨-, hexpand'⟩ := expandAll_unary_group level .text hunary hbody hstart' hsound
  have hinner := expandAll_plain letters hT (levels_plain letters hT level) level .text body
    ⟨rfl, hfound, hfound⟩
  have hset := typeset_plain T.settings.spaces .text hinner.value
  have hmade := (hmake _).symm.trans ((congrArg make hset).trans (hmake _))
  have hlevel' : (T.withLetterStyle letters).settings.maxDepth = level + 1 := hlevel
  unfold Typesetter.tokenize Typesetter.run
  rw [hlevel, hlevel']
  exact ((congrArg Prod.fst hexpand').trans hmade.symm).trans (congrArg Prod.fst hexpand).symm

theorem transform_font (hT : T.registry = .standard) (hdepth : 1 ≤ T.settings.maxDepth)
    {entry : String × Macro} (hentry : entry ∈ Standard.fonts) {body : Text}
    (hbody : Neutral body) :
    (T.withLetterStyle letters).transform (commandText entry.1 ++ groupText body) =
      T.transform (commandText entry.1 ++ groupText body) :=
  congrArg (typeset T.settings.spaces .text) (tokenize_font letters hT hdepth hentry hbody)

end Whole

/-- The letter style decides how letters look and nothing else: another one gives as many tokens,
of the same classes, and a text that is as long and differs in the style of letters only. What is
set in a font is the same under both, as long as one level may be nested: settings that are read
from sources always allow it (`Settings.one_le_maxDepth_of_ofSources`). -/
theorem letter_style_styles_letters_only (settings : Settings) (letters : LetterStyle) :
    let T : Typesetter := ⟨.standard, settings⟩
    let other := T.withLetterStyle letters
    (∀ source, (other.tokenize source).map Token.atom = (T.tokenize source).map Token.atom ∧
      (other.transform source).length = (T.transform source).length ∧
      (other.transform source).map plain = (T.transform source).map plain) ∧
    (1 ≤ settings.maxDepth → ∀ entry ∈ Standard.fonts, ∀ body, IsBalanced body →
      let source := commandText entry.1 ++ groupText body
      other.tokenize source = T.tokenize source ∧ other.transform source = T.transform source) := by
  intro T other
  have hT : T.registry = .standard := by simp only [T]
  constructor
  · intro source
    have htokens := tokenize_plain letters hT source
    have htext := transform_plain letters hT source
    refine ⟨?_, ?_, ?_⟩
    · have hatoms := congrArg (List.map Token.atom) htokens
      rwa [atom_plainTokens, atom_plainTokens] at hatoms
    · have hlength := congrArg List.length htext
      rwa [List.length_map, List.length_map] at hlength
    · have hplain := congrArg (List.map plain) htext
      rwa [map_plain_plainLetter, map_plain_plainLetter] at hplain
  · intro hdepth entry hentry body hbalanced source
    exact ⟨tokenize_font letters hT hdepth hentry hbalanced.neutral,
      transform_font letters hT hdepth hentry hbalanced.neutral⟩

/-- There is one level for the group in bold and none for those in it. Outside of it the letter
does change. -/
theorem letter_style_styles_letters_only_bold :
    let T : Typesetter := ⟨.standard, { maxDepth := 1 }⟩
    let body := ['h', '{', '2', '}', '_', 'h']
    let source := commandText "mathbf" ++ groupText body
    1 ≤ T.settings.maxDepth ∧ ("mathbf", Macro.function (.font .bold)) ∈ Standard.fonts ∧
      IsBalanced body ∧
      (T.withLetterStyle .upright).transform source = T.transform source ∧
      ((T.withLetterStyle .upright).transform body).map plain = (T.transform body).map plain ∧
      (T.withLetterStyle .upright).tokenize ['h'] ≠ T.tokenize ['h'] := by
  intro T body source
  have hmem : ("mathbf", Macro.function (.font .bold)) ∈ Standard.fonts := by
    simp [Standard.fonts]
  have hbalanced : IsBalanced body := by decide
  obtain ⟨hplain, hfont⟩ := letter_style_styles_letters_only { maxDepth := 1 } .upright
  refine ⟨by decide, hmem, hbalanced, (hfont (by decide) _ hmem body hbalanced).2,
    (hplain body).2.2, ?_⟩
  have hplainChar : isPlain 'h' = true := by decide
  rw [tokenize_of_isPlain _ hplainChar, tokenize_of_isPlain _ hplainChar]
  decide

end Proofs

end MathMarkup
