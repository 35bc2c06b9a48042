import MathMarkup.Proofs.Agreement
import MathMarkup.Proofs.Item

/-!
# Well-nested markup expands to its meaning

Expansion goes through the printed items one after the other and leaves their meaning behind,
whatever markup follows and whatever is remembered about groups. No splice is paid for on the way,
so what follows is expanded as if it stood alone.
-/

namespace MathMarkup.Proofs

variable {F : GroupFinder} {hF : ExactFinder F} {s s' s'' : ExpansionState F}

structure Continues (hF : ExactFinder F) (s s' : ExpansionState F) : Prop where
  remaining : s'.remaining = s.remaining
  exhausted : s'.exhausted = s.exhausted
  sound : SoundMemory hF s'

lemma Continues.refl (h : SoundMemory hF s) : Continues hF s s := ⟨rfl, rfl, h⟩

lemma Continues.trans (h : Continues hF s s') (h' : Continues hF s' s'') : Continues hF s s'' :=
  ⟨h'.remaining.trans h.remaining, h'.exhausted.trans h.exhausted, h'.sound⟩

lemma Continues.record (h : SoundMemory hF s) (event : Event) : Continues hF s (s.record event) :=
  ⟨rfl, rfl, h⟩

/-! ### Macros of one argument -/

/-- The macro has its one argument set and makes tokens of the text. -/
structure IsUnary (f : FunctionMacro) (make : Text → List Token) : Prop where
  arity : f.arity = 1
  preparse : f.preparse = true
  handler : ∀ text, f.handler [text] = .tokens (make text)

lemma isUnary_groupMacro : IsUnary groupMacro fun text => [⟨.ord, text⟩] :=
  ⟨rfl, rfl, fun _ => rfl⟩

lemma isUnary_scriptMacro (table : ScriptTable) :
    IsUnary (scriptMacro table) fun text => [⟨.script, toScript table text⟩] :=
  ⟨rfl, rfl, fun _ => rfl⟩

/-- Nested markup always has the same outcome and pays for no splice. -/
def NestedGives (hF : ExactFinder F) (nested : Nested F) (style : Style) (text : Text)
    (outcome : Except Refusal (List Token)) : Prop :=
  ∀ s, SoundMemory hF s → ∃ s', Continues hF s s' ∧ nested.expand style text s = (outcome, s')

section Unary

variable {T : Typesetter} {nested : Nested F} {style : Style} {c : Char} {rest after : Text}
  {site : Site} {f : FunctionMacro} {make : Text → List Token} {n : Nat}

lemma collect_one (hs : SoundMemory hF s) (level : Nat) (hn : argumentLength? after = some n) :
    ∃ memory, collectArguments F 1 after (s.memory level) =
      (.ok ([unwrap (after.take n)], n), memory) ∧
      Continues hF s (s.setMemory level memory) := by
  obtain ⟨hfound, hsound⟩ := collectArguments_exact hF 1 after (hs level)
  rw [countedArguments_one, hn] at hfound
  exact ⟨_, Prod.ext hfound rfl, rfl, rfl, hs.setMemory level hsound⟩

lemma step_unary_of_expand {tokens : List Token} {level : Nat} {memory : F.Memory}
    (hf : IsUnary f make) (hstart : T.start? c rest = some (site, .function f, after))
    (hcollect : collectArguments F 1 after (s.memory level) =
      (.ok ([unwrap (after.take n)], n), memory))
    (hexpand : nested.expand (style.max f.style) (unwrap (after.take n))
      (s.setMemory level memory) = (.ok tokens, s')) :
    T.step nested level style c rest s =
      (⟨make (typeset T.settings.spaces (style.max f.style) tokens), after.drop n⟩,
        s'.record (.called site [typeset T.settings.spaces (style.max f.style) tokens])) := by
  simp only [Typesetter.step, Typesetter.expandMacro?, Typesetter.attempt,
    Typesetter.takeArguments, Typesetter.setArguments, Typesetter.call, hstart, hf.arity, hcollect,
    hf.preparse, if_true, hexpand, hf.handler]

lemma step_unary {tokens : List Token} (hf : IsUnary f make)
    (hstart : T.start? c rest = some (site, .function f, after))
    (hn : argumentLength? after = some n)
    (hnested : NestedGives hF nested (style.max f.style) (unwrap (after.take n)) (.ok tokens))
    (level : Nat) (hs : SoundMemory hF s) :
    ∃ s', Continues hF s s' ∧ T.step nested level style c rest s =
      (⟨make (typeset T.settings.spaces (style.max f.style) tokens), after.drop n⟩, s') := by
  obtain ⟨memory, hcollect, hset⟩ := collect_one hs level hn
  obtain ⟨s₁, h₁, hexpand⟩ := hnested _ hset.sound
  exact ⟨s₁.record (.called site [typeset T.settings.spaces (style.max f.style) tokens]),
    (hset.trans h₁).trans (Continues.record h₁.sound _),
    step_unary_of_expand hf hstart hcollect hexpand⟩

lemma step_refused {refusal : Refusal} (hf : IsUnary f make)
    (hstart : T.start? c rest = some (site, .function f, after))
    (hn : argumentLength? after = some n)
    (hnested : NestedGives hF nested (style.max f.style) (unwrap (after.take n)) (.error refusal))
    (level : Nat) (hs : SoundMemory hF s) :
    ∃ s', Continues hF s s' ∧ T.step nested level style c rest s = (T.literal c rest, s') := by
  obtain ⟨memory, hcollect, hset⟩ := collect_one hs level hn
  obtain ⟨s₁, h₁, hexpand⟩ := hnested _ hset.sound
  refine ⟨s₁, hset.trans h₁, ?_⟩
  simp only [Typesetter.step, Typesetter.expandMacro?, Typesetter.attempt,
    Typesetter.takeArguments, Typesetter.setArguments, hstart, hf.arity, hcollect, hf.preparse,
    if_true, hexpand]

end Unary

lemma nestedGives_tooDeep (T : Typesetter) (style : Style) (text : Text) :
    NestedGives hF (T.levels F 0) style text (.error .tooDeep) := by
  intro s hs
  exact ⟨_, Continues.record hs _, rfl⟩

/-! ### Markup in front of other markup -/

/-- In front of `rest`, the text is expanded to the tokens, and then the rest is expanded. -/
def SetsTo (T : Typesetter) (hF : ExactFinder F) (level : Nat) (style : Style) (text : Text)
    (tokens : List Token) (rest : Text) : Prop :=
  ∀ s, SoundMemory hF s → ∃ s', Continues hF s s' ∧
    T.expandAll (T.levels F level) level style (text ++ rest) s =
      (tokens ++ (T.expandAll (T.levels F level) level style rest s').1,
        (T.expandAll (T.levels F level) level style rest s').2)

section SetsTo

variable {T : Typesetter} {level : Nat} {style : Style} {text rest : Text} {tokens : List Token}

lemma SetsTo.nil : SetsTo T hF level style [] [] rest := by
  intro s hs
  exact ⟨s, Continues.refl hs, rfl⟩

lemma SetsTo.append {text' : Text} {tokens' : List Token}
    (h : SetsTo T hF level style text tokens (text' ++ rest))
    (h' : SetsTo T hF level style text' tokens' rest) :
    SetsTo T hF level style (text ++ text') (tokens ++ tokens') rest := by
  intro s hs
  obtain ⟨s₁, h₁, hfirst⟩ := h s hs
  obtain ⟨s₂, h₂, hsecond⟩ := h' s₁ h₁.sound
  refine ⟨s₂, h₁.trans h₂, ?_⟩
  rw [List.append_assoc, hfirst, hsecond, List.append_assoc]

lemma SetsTo.step {c : Char} {left : Text} {tokens' : List Token}
    (hstep : ∀ s, SoundMemory hF s → ∃ s', Continues hF s s' ∧
      T.step (T.levels F level) level style c (text ++ rest) s = (⟨tokens, left ++ rest⟩, s'))
    (hleft : SetsTo T hF level style left tokens' rest) :
    SetsTo T hF level style (c :: text) (tokens ++ tokens') rest := by
  intro s hs
  obtain ⟨s₁, h₁, hfirst⟩ := hstep s hs
  obtain ⟨s₂, h₂, hsecond⟩ := hleft s₁ h₁.sound
  refine ⟨s₂, h₁.trans h₂, ?_⟩
  rw [List.cons_append, Typesetter.expandAll]
  simp only [hfirst, hsecond, List.append_assoc]

end SetsTo

section Literals

variable (T : Typesetter)

lemma start?_of_isPlain {c : Char} (h : isPlain c = true) (rest : Text) :
    T.start? c rest = none := by
  obtain ⟨hescape, hup, hdown, hopen, -⟩ := ne_of_isPlain h
  unfold Typesetter.start?
  split
  · exact absurd rfl hescape
  · exact absurd rfl hup
  · exact absurd rfl hdown
  · exact absurd rfl hopen
  · rfl

lemma step_of_start?_none {nested : Nested F} {level : Nat} {style : Style} {c : Char} {rest : Text}
    (h : T.start? c rest = none) (s : ExpansionState F) :
    T.step nested level style c rest s = (T.literal c rest, s) := by
  simp only [Typesetter.step, h]

lemma tokenize_of_isPlain {c : Char} (h : isPlain c = true) :
    T.tokenize [c] = T.settings.letterStyle.literal c := by
  have hstart := start?_of_isPlain T h []
  simp only [Typesetter.tokenize, Typesetter.run, Typesetter.expandAll,
    step_of_start?_none T hstart, Typesetter.literal, List.append_nil]

lemma literal_of_isBlank {c : Char} (h : isBlank c = true) (rest : Text) :
    T.literal c rest = ⟨[], rest⟩ := by
  have hletter : isLetter c = false := by
    cases hc : isLetter c with
    | false => rfl
    | true =>
      rw [not_isBlank_of_isLetter hc] at h
      cases h
  simp [Typesetter.literal, LetterStyle.literal, hletter, h]

lemma expandAll_skipBlanks (nested : Nested F) (level : Nat) (style : Style) (text : Text)
    (s : ExpansionState F) :
    T.expandAll nested level style text.skipBlanks s = T.expandAll nested level style text s := by
  induction text with
  | nil => rfl
  | cons c text ih =>
    by_cases hc : isBlank c
    · have hskip : Text.skipBlanks (c :: text) = Text.skipBlanks text :=
        List.dropWhile_cons_of_pos hc
      have hstart := start?_of_isPlain T (isPlain_of_isBlank hc) text
      rw [hskip, ih, Typesetter.expandAll, step_of_start?_none T hstart, literal_of_isBlank T hc]
      rfl
    · rw [skipBlanks_cons (by simpa using hc)]

variable {T} {level : Nat} {style : Style} {text rest : Text} {tokens : List Token}

lemma setsTo_char {c : Char} (h : T.start? c rest = none) :
    SetsTo T hF level style [c] (T.settings.letterStyle.literal c) rest := by
  have hstep : ∀ s, SoundMemory hF s → ∃ s', Continues hF s s' ∧
      T.step (T.levels F level) level style c ([] ++ rest) s =
        (⟨T.settings.letterStyle.literal c, [] ++ rest⟩, s') := by
    intro s hs
    exact ⟨s, Continues.refl hs, step_of_start?_none T h s⟩
  simpa using SetsTo.step hstep SetsTo.nil

lemma setsTo_blanks {blanks : Text} (h : ∀ c ∈ blanks, isBlank c = true) :
    SetsTo T hF level style blanks [] rest := by
  intro s hs
  refine ⟨s, Continues.refl hs, ?_⟩
  rw [← expandAll_skipBlanks, skipBlanks_append h, expandAll_skipBlanks, List.nil_append]

lemma SetsTo.nestedGives (h : SetsTo T hF level style text tokens []) :
    NestedGives hF (T.levels F (level + 1)) style text (.ok tokens) := by
  intro s hs
  obtain ⟨s', h', hexpand⟩ := h s hs
  refine ⟨s', h', ?_⟩
  rw [List.append_nil, Typesetter.expandAll, List.append_nil] at hexpand
  change (Except.ok (T.expandAll (T.levels F level) level style text s).1,
    (T.expandAll (T.levels F level) level style text s).2) = _
  rw [hexpand]

lemma NestedGives.skipBlanks {outcome : Except Refusal (List Token)}
    (h : NestedGives hF (T.levels F (level + 1)) style text outcome) :
    NestedGives hF (T.levels F (level + 1)) style text.skipBlanks outcome := by
  intro s hs
  obtain ⟨s', h', hexpand⟩ := h s hs
  refine ⟨s', h', ?_⟩
  rw [← hexpand]
  change (Except.ok (T.expandAll (T.levels F level) level style text.skipBlanks s).1,
    (T.expandAll (T.levels F level) level style text.skipBlanks s).2) = _
  rw [expandAll_skipBlanks]
  rfl

end Literals

/-! ### Items -/

section Items

variable {T : Typesetter} {level : Nat} {style : Style} {text rest after : Text} {c : Char}
  {site : Site} {f : FunctionMacro} {make : Text → List Token} {n : Nat} {tokens : List Token}

lemma start?_command {name : Text} {m : Macro} (hname : isControlName name = true)
    (hlookup : T.registry.lookup name = some m)
    (hrest : beginsWithLetter name = true → beginsWithLetter rest = false) :
    T.start? '\\' (name ++ rest) = some (.command name, m, rest) := by
  simp [Typesetter.start?, controlName?_append hname hrest, hlookup]

lemma setsTo_command {name : Text} {token : Token} (hname : isControlName name = true)
    (hlookup : T.registry.lookup name = some (.token token))
    (hrest : beginsWithLetter name = true → beginsWithLetter rest = false) :
    SetsTo T hF level style ('\\' :: name) [token] rest := by
  have hstart := start?_command hname hlookup hrest
  have hstep : ∀ s, SoundMemory hF s → ∃ s', Continues hF s s' ∧
      T.step (T.levels F level) level style '\\' (name ++ rest) s =
        (⟨[token], [] ++ rest⟩, s') := by
    intro s hs
    refine ⟨s, Continues.refl hs, ?_⟩
    simp only [Typesetter.step, hstart, Typesetter.expandMacro?, Typesetter.attempt,
      List.nil_append]
  simpa using SetsTo.step hstep SetsTo.nil

lemma setsTo_unary (hf : IsUnary f make)
    (hstart : T.start? c (text ++ rest) = some (site, .function f, after))
    (hn : argumentLength? after = some n) (hdrop : after.drop n = rest)
    (hnested : NestedGives hF (T.levels F level) (style.max f.style) (unwrap (after.take n))
      (.ok tokens)) :
    SetsTo T hF level style (c :: text)
      (make (typeset T.settings.spaces (style.max f.style) tokens)) rest := by
  have hstep : ∀ s, SoundMemory hF s → ∃ s', Continues hF s s' ∧
      T.step (T.levels F level) level style c (text ++ rest) s =
        (⟨make (typeset T.settings.spaces (style.max f.style) tokens), [] ++ rest⟩, s') := by
    intro s hs
    have hexpand := step_unary hf hstart hn hnested level hs
    rw [hdrop] at hexpand
    exact hexpand
  simpa using SetsTo.step hstep SetsTo.nil

lemma setsTo_refused {refusal : Refusal} (hf : IsUnary f make)
    (hstart : T.start? c (text ++ rest) = some (site, .function f, after))
    (hn : argumentLength? after = some n)
    (hnested : NestedGives hF (T.levels F level) (style.max f.style) (unwrap (after.take n))
      (.error refusal))
    (htext : SetsTo T hF level style text tokens rest) :
    SetsTo T hF level style (c :: text) (T.settings.letterStyle.literal c ++ tokens) rest :=
  SetsTo.step (fun _ hs => step_refused hf hstart hn hnested level hs) htext

lemma max_text (style : Style) : style.max .text = style := by
  cases style <;> rfl

lemma max_script (style : Style) : style.max .script = .script := by
  cases style <;> rfl

lemma start?_group (T : Typesetter) (rest : Text) :
    T.start? '{' rest = some (.group, .function groupMacro, '{' :: rest) := rfl

lemma argumentLength?_braces {body : Text} (hbody : Neutral body) (rest : Text) :
    argumentLength? ('{' :: (body ++ ['}'] ++ rest)) = some ('{' :: (body ++ ['}'])).length := by
  simpa using argumentLength?_group hbody rest

/-- Markup that is a function with a whole group as its argument. -/
lemma expandAll_unary_group (level : Nat) (style : Style) {body : Text} (hf : IsUnary f make)
    (hbody : Neutral body)
    (hstart : T.start? c text = some (site, .function f, '{' :: (body ++ ['}'])))
    (hs : SoundMemory hF s) :
    let found := s.setMemory (level + 1)
      (collectArguments F 1 ('{' :: (body ++ ['}'])) (s.memory (level + 1))).2
    let inner := T.expandAll (T.levels F level) level (style.max f.style) body found
    let set := typeset T.settings.spaces (style.max f.style) inner.1
    SoundMemory hF found ∧
      T.expandAll (T.levels F (level + 1)) (level + 1) style (c :: text) s =
        (make set, inner.2.record (.called site [set])) := by
  intro found inner set
  have hlength : argumentLength? ('{' :: (body ++ ['}'])) =
      some ('{' :: (body ++ ['}'])).length := by
    simpa using argumentLength?_braces hbody []
  obtain ⟨memory, hcollect, hset⟩ := collect_one hs (level + 1) hlength
  have hfound : s.setMemory (level + 1) memory = found :=
    congrArg (s.setMemory (level + 1)) (congrArg Prod.snd hcollect).symm
  have hexpand : (T.levels F (level + 1)).expand (style.max f.style)
      (unwrap (('{' :: (body ++ ['}'])).take ('{' :: (body ++ ['}'])).length))
      (s.setMemory (level + 1) memory) = (.ok inner.1, inner.2) := by
    rw [List.take_length, unwrap_group, hfound]
    change (Except.ok (T.expandAll (T.levels F level) level (style.max f.style)
      body.skipBlanks found).1, _) = _
    rw [expandAll_skipBlanks]
  rw [hfound] at hset
  refine ⟨hset.sound, ?_⟩
  rw [Typesetter.expandAll, step_unary_of_expand hf hstart hcollect hexpand, List.drop_length]
  simp only [Typesetter.expandAll, List.append_nil]
  rfl

lemma setsTo_group_succ {body : Text} (hbody : Neutral body)
    (h : SetsTo T hF level style body tokens []) :
    SetsTo T hF (level + 1) style ('{' :: (body ++ ['}']))
      [⟨.ord, typeset T.settings.spaces style tokens⟩] rest := by
  have hsplit : '{' :: (body ++ ['}'] ++ rest) = ('{' :: (body ++ ['}'])) ++ rest := rfl
  have hlength := argumentLength?_braces hbody rest
  have hstyle : style.max groupMacro.style = style := max_text style
  have hset := setsTo_unary isUnary_groupMacro (start?_group T _) hlength
    (by rw [hsplit, List.drop_left])
    (by rw [hsplit, List.take_left, unwrap_group, hstyle]; exact h.nestedGives.skipBlanks)
  rw [hstyle] at hset
  exact hset

lemma setsTo_group_zero {body : Text} (hbody : Neutral body)
    (h : SetsTo T hF 0 style body tokens ('}' :: rest)) :
    SetsTo T hF 0 style ('{' :: (body ++ ['}']))
      (⟨.opening, ['{']⟩ :: (tokens ++ [⟨.closing, ['}']⟩])) rest := by
  have hclose : SetsTo T hF 0 style ['}'] [⟨.closing, ['}']⟩] rest := setsTo_char rfl
  exact setsTo_refused isUnary_groupMacro (start?_group T _) (argumentLength?_braces hbody rest)
    (nestedGives_tooDeep T _ _) (h.append hclose)

lemma start?_trigger (T : Typesetter) (trigger : Trigger) (rest : Text) :
    ∃ site, T.start? trigger.char rest =
      some (site, .function (scriptMacro trigger.table), rest) := by
  cases trigger with
  | superscript => exact ⟨.superscript, rfl⟩
  | subscript => exact ⟨.subscript, rfl⟩

section Scripts

variable (trigger : Trigger) {blanks argument : Text}

lemma argumentLength?_script (hblanks : ∀ c ∈ blanks, isBlank c = true)
    (hlength : argumentLength? (argument ++ rest) = some argument.length) :
    argumentLength? (blanks ++ argument ++ rest) = some (blanks ++ argument).length := by
  rw [List.append_assoc, argumentLength?_blanks hblanks, hlength, List.length_append]
  rfl

lemma setsTo_script_succ (hblanks : ∀ c ∈ blanks, isBlank c = true)
    (hlength : argumentLength? (argument ++ rest) = some argument.length)
    (h : NestedGives hF (T.levels F (level + 1)) .script (unwrap argument) (.ok tokens)) :
    SetsTo T hF (level + 1) style (trigger.char :: (blanks ++ argument))
      [⟨.script, toScript trigger.table (typeset T.settings.spaces .script tokens)⟩] rest := by
  obtain ⟨site, hstart⟩ := start?_trigger T trigger (blanks ++ argument ++ rest)
  have hstyle : style.max (scriptMacro trigger.table).style = .script := max_script style
  have hset := setsTo_unary (isUnary_scriptMacro trigger.table) hstart
    (argumentLength?_script hblanks hlength) List.drop_left
    (by rw [List.take_left, unwrap_blanks hblanks, hstyle]; exact h)
  rw [hstyle] at hset
  exact hset

lemma setsTo_script_zero (hblanks : ∀ c ∈ blanks, isBlank c = true)
    (hlength : argumentLength? (argument ++ rest) = some argument.length)
    (h : SetsTo T hF 0 style argument tokens rest) :
    SetsTo T hF 0 style (trigger.char :: (blanks ++ argument))
      (⟨.ord, [trigger.char]⟩ :: tokens) rest := by
  obtain ⟨site, hstart⟩ := start?_trigger T trigger (blanks ++ argument ++ rest)
  have hliteral : T.settings.letterStyle.literal trigger.char = [⟨.ord, [trigger.char]⟩] := by
    cases trigger <;> rfl
  have hset := setsTo_refused (isUnary_scriptMacro trigger.table) hstart
    (argumentLength?_script hblanks hlength) (nestedGives_tooDeep T _ _)
    ((setsTo_blanks hblanks).append h)
  rw [hliteral] at hset
  exact hset

end Scripts

end Items

/-! ### Whole lists of items -/

section Lists

variable (T : Typesetter) (hF : ExactFinder F)

mutual

/-- An item is expanded to its meaning. The recursion follows the items; the level, the style and
what comes after are arbitrary, since groups change the first and scripts the first two. -/
theorem setsTo_item : ∀ (item : Item) (level : Nat) (style : Style) (rest : Text),
    item.wellFormed T.registry = true →
    (item.endsInWord = true → beginsWithLetter rest = false) →
    SetsTo T hF level style item.print
      (item.denote T.registry T.settings.letterStyle T.settings.spaces level style) rest
  | .char c, level, style, rest, h, _ => setsTo_char (start?_of_isPlain T h rest)
  | .command name, level, style, rest, h, hrest => by
    obtain ⟨hname, -, -, token, hlookup, htoken⟩ := wellFormed_command h
    simp only [Item.denote, htoken, Option.toList_some]
    exact setsTo_command hname hlookup hrest
  | .group body, 0, style, rest, h, _ => by
    have hbody := setsTo_all body 0 style ('}' :: rest) h (fun _ => rfl)
    exact setsTo_group_zero (neutral_printAll body h) hbody
  | .group body, level + 1, style, rest, h, _ => by
    have hbody := setsTo_all body level style [] h (fun _ => rfl)
    exact setsTo_group_succ (neutral_printAll body h) hbody
  | .script trigger blanks argument, 0, style, rest, h, hrest => by
    obtain ⟨hblanks, hargument, hformed⟩ := wellFormed_script h
    exact setsTo_script_zero trigger hblanks (argumentLength?_print hformed hargument hrest)
      (setsTo_item argument 0 style rest hformed hrest)
  | .script trigger blanks (.char c), level + 1, style, rest, h, hrest => by
    obtain ⟨hblanks, hargument, hformed⟩ := wellFormed_script h
    have hnested := (setsTo_item (.char c) level .script [] hformed (fun _ => rfl)).nestedGives
    have hunwrap : unwrap (Item.char c).print = (Item.char c).print :=
      unwrap_of_head (by simpa [Item.isArgument] using hargument) (ne_of_isPlain hformed).2.2.2.1
    rw [← hunwrap] at hnested
    exact setsTo_script_succ trigger hblanks (argumentLength?_print hformed hargument hrest) hnested
  | .script trigger blanks (.command name), level + 1, style, rest, h, hrest => by
    obtain ⟨hblanks, hargument, hformed⟩ := wellFormed_script h
    have hnested :=
      (setsTo_item (.command name) level .script [] hformed (fun _ => rfl)).nestedGives
    have hunwrap : unwrap (Item.command name).print = (Item.command name).print :=
      unwrap_of_head isBlank_backslash (by decide)
    rw [← hunwrap] at hnested
    exact setsTo_script_succ trigger hblanks (argumentLength?_print hformed hargument hrest) hnested
  | .script trigger blanks (.group body), level + 1, style, rest, h, hrest => by
    obtain ⟨hblanks, hargument, hformed⟩ := wellFormed_script h
    have hnested := (setsTo_all body level .script [] hformed (fun _ => rfl)).nestedGives.skipBlanks
    have hunwrap : unwrap (Item.group body).print = (printAll body).skipBlanks := unwrap_group _
    rw [← hunwrap] at hnested
    exact setsTo_script_succ trigger hblanks (argumentLength?_print hformed hargument hrest) hnested
  | .script _ _ (.script _ _ _), _ + 1, _, _, h, _ => by
    -- A script without braces around it is no argument.
    cases (wellFormed_script h).2.1

theorem setsTo_all : ∀ (items : List Item) (level : Nat) (style : Style) (rest : Text),
    allWellFormed T.registry items = true →
    (endsInWord items = true → beginsWithLetter rest = false) →
    SetsTo T hF level style (printAll items)
      (denoteAll T.registry T.settings.letterStyle T.settings.spaces items level style) rest
  | [], _, _, _, _, _ => SetsTo.nil
  | item :: items, level, style, rest, h, hrest => by
    obtain ⟨hitem, hword, hitems⟩ := allWellFormed_cons h
    have hnext : item.endsInWord = true → beginsWithLetter (printAll items ++ rest) = false := by
      intro hends
      cases items with
      | nil => exact hrest (by simpa [endsInWord] using hends)
      | cons next items =>
        rw [beginsWithLetter_printAll_append]
        exact hword hends
    have hlast : endsInWord items = true → beginsWithLetter rest = false := by
      intro hends
      cases items with
      | nil => cases hends
      | cons next items => exact hrest (by simpa [endsInWord] using hends)
    exact (setsTo_item item level style _ hitem hnext).append
      (setsTo_all items level style rest hitems hlast)

end

end Lists

lemma Continues.agree (h : Continues hF s s') (hs : SoundMemory hF s) :
    Agree hF hF s'.events s.events s' s :=
  ⟨h.remaining, h.exhausted, ⟨[], rfl, rfl⟩, h.sound, hs⟩

/-- Well-nested markup is expanded to its meaning, whatever follows it and however many splices
are left, and what follows is expanded as if it stood alone. -/
theorem tokenize_print_append (T : Typesetter) (items : List Item)
    (h : allWellFormed T.registry items = true) (rest : Text)
    (hrest : endsInWord items = true → beginsWithLetter rest = false) :
    T.tokenize (printAll items ++ rest) =
      denoteAll T.registry T.settings.letterStyle T.settings.spaces items T.settings.maxDepth .text ++
        T.tokenize rest := by
  have hsound : SoundMemory exactRemembering (T.initialState .remembering) :=
    soundMemory_of_memories_nil exactRemembering rfl
  obtain ⟨s', h', hexpand⟩ :=
    setsTo_all T exactRemembering items T.settings.maxDepth .text rest h hrest _ hsound
  have hlater := expandAll_agree T T.settings.maxDepth .text rest (h'.agree hsound)
  unfold Typesetter.tokenize Typesetter.run
  rw [hexpand, hlater.value]

def muOnly : Typesetter where
  registry := ⟨[(['m', 'u'], .token ⟨.ord, ['μ']⟩)]⟩
  settings := { maxDepth := 1, maxExpansions := 1 }

/-- The script's argument is one level down and its own group is beyond the ceiling. -/
theorem tokenize_print_script_in_group :
    let items : List Item :=
      [.char 'x', .script .superscript [' '] (.group [.char ' ', .group [.char '2']]),
        .command ['m', 'u']]
    allWellFormed muOnly.registry items = true ∧
      (endsInWord items = true → beginsWithLetter ['+', '1'] = false) ∧
      muOnly.tokenize (printAll items ++ ['+', '1']) =
        [⟨.ord, ['𝑥']⟩, ⟨.script, ['{', '²', '}']⟩, ⟨.ord, ['μ']⟩] ++
          muOnly.tokenize ['+', '1'] := by
  intro items
  have hmeaning : denoteAll muOnly.registry muOnly.settings.letterStyle muOnly.settings.spaces items
      1 .text = [⟨.ord, ['𝑥']⟩, ⟨.script, ['{', '²', '}']⟩, ⟨.ord, ['μ']⟩] := by decide
  have hexpand := tokenize_print_append muOnly items (by decide) ['+', '1'] (by decide)
  exact ⟨by decide, by decide, hexpand.trans (congrArg (· ++ _) hmeaning)⟩

end MathMarkup.Proofs
