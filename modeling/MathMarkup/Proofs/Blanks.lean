import MathMarkup.Proofs.ItemExpansion

/-!
# Blanks mean nothing

Markup without control sequences is expanded as if its blanks were left out, well-formed or not.
Blanks are no braces, so groups end at the same place up to the blanks before it, and so do
arguments. What an argument comes to is the same by induction on the levels, refusals included.
-/

namespace MathMarkup.Proofs

variable {F : GroupFinder} {hF : ExactFinder F} {s : ExpansionState F}

def withoutBlanks (text : Text) : Text := text.filter fun c => !isBlank c

@[simp] lemma withoutBlanks_append (a b : Text) :
    withoutBlanks (a ++ b) = withoutBlanks a ++ withoutBlanks b :=
  List.filter_append _ _

lemma withoutBlanks_cons_of_isBlank {c : Char} (h : isBlank c = true) (rest : Text) :
    withoutBlanks (c :: rest) = withoutBlanks rest := by
  simp [withoutBlanks, h]

lemma withoutBlanks_cons {c : Char} (h : isBlank c = false) (rest : Text) :
    withoutBlanks (c :: rest) = c :: withoutBlanks rest := by
  simp [withoutBlanks, h]

lemma withoutBlanks_skipBlanks (text : Text) :
    withoutBlanks text.skipBlanks = withoutBlanks text := by
  induction text with
  | nil => rfl
  | cons c text ih =>
    by_cases hc : isBlank c
    · rw [withoutBlanks_cons_of_isBlank hc, ← ih]
      exact congrArg withoutBlanks (List.dropWhile_cons_of_pos hc)
    · rw [skipBlanks_cons (by simpa using hc)]

lemma skipBlanks_withoutBlanks (text : Text) :
    (withoutBlanks text).skipBlanks = withoutBlanks text := by
  cases hhead : withoutBlanks text with
  | nil => rfl
  | cons c rest =>
    have hmem : c ∈ withoutBlanks text := by rw [hhead]; exact List.mem_cons_self
    have hc : (!isBlank c) = true := (List.mem_filter.mp hmem).2
    exact skipBlanks_cons (by simpa using hc) rest

/-- The text without blanks splits where the text does. -/
lemma withoutBlanks_split (text : Text) (n : Nat) :
    (withoutBlanks text).take (withoutBlanks (text.take n)).length = withoutBlanks (text.take n) ∧
      (withoutBlanks text).drop (withoutBlanks (text.take n)).length =
        withoutBlanks (text.drop n) := by
  have hsplit :
      withoutBlanks text = withoutBlanks (text.take n) ++ withoutBlanks (text.drop n) := by
    rw [← withoutBlanks_append, List.take_append_drop]
  rw [hsplit]
  exact ⟨List.take_left, List.drop_left⟩

/-! ### Where groups and arguments end -/

lemma groupEndFrom?_withoutBlanks (depth : Int) (text : Text) :
    groupEndFrom? depth (withoutBlanks text) =
      (groupEndFrom? depth text).map fun n => (withoutBlanks (text.take n)).length := by
  induction text generalizing depth with
  | nil => rfl
  | cons c rest ih =>
    by_cases hblank : isBlank c
    · obtain ⟨-, -, -, hopen, hclose⟩ := ne_of_isPlain (isPlain_of_isBlank hblank)
      rw [withoutBlanks_cons_of_isBlank hblank, groupEndFrom?_of_not_brace hopen hclose, ih,
        Option.map_map]
      congr 1
      funext n
      rw [Function.comp_apply, List.take_succ_cons, withoutBlanks_cons_of_isBlank hblank]
    · have hblank : isBlank c = false := by simpa using hblank
      have hnext : ∀ d, (groupEndFrom? d (withoutBlanks rest)).map (· + 1) =
          ((groupEndFrom? d rest).map (· + 1)).map
            fun n => (withoutBlanks ((c :: rest).take n)).length := by
        intro d
        rw [ih, Option.map_map, Option.map_map]
        congr 1
        funext n
        rw [Function.comp_apply, Function.comp_apply, List.take_succ_cons,
          withoutBlanks_cons hblank, List.length_cons]
      rw [withoutBlanks_cons hblank]
      by_cases hopen : c = '{'
      · subst hopen
        rw [groupEndFrom?_open, groupEndFrom?_open, hnext]
      · by_cases hclose : c = '}'
        · subst hclose
          by_cases hdepth : depth = 1
          · rw [hdepth, groupEndFrom?_close_one, groupEndFrom?_close_one, Option.map_some,
              List.take_succ_cons, withoutBlanks_cons hblank]
            rfl
          · rw [groupEndFrom?_close hdepth, groupEndFrom?_close hdepth, hnext]
        · rw [groupEndFrom?_of_not_brace hopen hclose, groupEndFrom?_of_not_brace hopen hclose,
            hnext]

/-- A group that ends, ends with a closing brace. -/
lemma argumentLength?_cons_of_isBlank {c : Char} (h : isBlank c = true) (rest : Text) :
    argumentLength? (c :: rest) = (argumentLength? rest).map (· + 1) := by
  have hblanks : ∀ d ∈ [c], isBlank d = true := by simpa using h
  have hplus : (fun n => n + 1) = (1 + ·) := funext fun n => Nat.add_comm n 1
  rw [hplus]
  exact argumentLength?_blanks hblanks rest

lemma argumentLength?_withoutBlanks {text : Text} (h : '\\' ∉ text) :
    argumentLength? (withoutBlanks text) =
      (argumentLength? text).map fun n => (withoutBlanks (text.take n)).length := by
  induction text with
  | nil => rfl
  | cons c rest ih =>
    have hescape : c ≠ '\\' := (List.ne_of_not_mem_cons h).symm
    have hrest : '\\' ∉ rest := List.not_mem_of_not_mem_cons h
    by_cases hblank : isBlank c
    · rw [withoutBlanks_cons_of_isBlank hblank, argumentLength?_cons_of_isBlank hblank, ih hrest,
        Option.map_map]
      congr 1
      funext n
      rw [Function.comp_apply, List.take_succ_cons, withoutBlanks_cons_of_isBlank hblank]
    · have hblank : isBlank c = false := by simpa using hblank
      rw [withoutBlanks_cons hblank]
      by_cases hopen : c = '{'
      · subst hopen
        rw [argumentLength?_open, argumentLength?_open, groupEndFrom?_withoutBlanks,
          Option.map_map, Option.map_map]
        rfl
      · rw [argumentLength?_char hblank hopen hescape,
          argumentLength?_char hblank hopen hescape, Option.map_some,
          List.take_succ_cons, withoutBlanks_cons hblank]
        rfl

/-- The argument that is found, blanks left out, is the one that is found without them. -/
lemma unwrap_withoutBlanks {text : Text} {n : Nat} (h : '\\' ∉ text)
    (hn : argumentLength? text = some n) :
    unwrap (withoutBlanks (text.take n)) = withoutBlanks (unwrap (text.take n)) := by
  induction text generalizing n with
  | nil => cases hn
  | cons c rest ih =>
    have hescape : c ≠ '\\' := (List.ne_of_not_mem_cons h).symm
    have hrest : '\\' ∉ rest := List.not_mem_of_not_mem_cons h
    by_cases hblank : isBlank c
    · rw [argumentLength?_cons_of_isBlank hblank] at hn
      obtain ⟨m, hm, rfl⟩ := Option.map_eq_some_iff.mp hn
      have hblanks : ∀ d ∈ [c], isBlank d = true := by simpa using hblank
      have hunwrap : unwrap (c :: rest.take m) = unwrap (rest.take m) :=
        unwrap_blanks hblanks (rest.take m)
      rw [List.take_succ_cons, withoutBlanks_cons_of_isBlank hblank, hunwrap, ih hrest hm]
    · have hblank : isBlank c = false := by simpa using hblank
      by_cases hopen : c = '{'
      · subst hopen
        rw [argumentLength?_open] at hn
        obtain ⟨m, hm, rfl⟩ := Option.map_eq_some_iff.mp hn
        obtain ⟨body, hbody, -⟩ := exists_balanced_of_groupEndFrom? hm
        have hclose : withoutBlanks ['}'] = ['}'] := rfl
        rw [List.take_succ_cons, hbody, withoutBlanks_cons hblank, withoutBlanks_append, hclose,
          unwrap_group, unwrap_group, skipBlanks_withoutBlanks, withoutBlanks_skipBlanks]
      · rw [argumentLength?_char hblank hopen hescape] at hn
        obtain rfl := Option.some.inj hn
        have hchar : withoutBlanks [c] = [c] := withoutBlanks_cons hblank []
        rw [List.take_succ_cons, List.take_zero, hchar, unwrap_of_head hblank hopen, hchar]

/-! ### Setting with and without blanks -/

section Setting

variable (T : Typesetter) {level : Nat} {style : Style} {c : Char} {text : Text}

/-- Nested markup has one outcome, with its blanks and without them. -/
def NestedWithoutBlanks (hF : ExactFinder F) (nested : Nested F) : Prop :=
  ∀ style text, '\\' ∉ text → ∃ outcome,
    NestedGives hF nested style text outcome ∧
      NestedGives hF nested style (withoutBlanks text) outcome

/-- The text is set to some tokens, with its blanks and without them. -/
def SetsWithoutBlanks (hF : ExactFinder F) (level : Nat) (style : Style) (text : Text) : Prop :=
  ∃ tokens, SetsTo T hF level style text tokens [] ∧
    SetsTo T hF level style (withoutBlanks text) tokens []

/-- A character other than a backslash starts nothing, or else a macro of one argument, which is
looked for after the character, or from it on if it is a brace. -/
lemma start?_of_ne_backslash (hescape : c ≠ '\\') :
    (∀ rest, T.start? c rest = none) ∨
      ∃ site f make lead, IsUnary f make ∧ lead.length ≤ 1 ∧ '\\' ∉ lead ∧
        withoutBlanks lead = lead ∧
        ∀ rest, T.start? c rest = some (site, .function f, lead ++ rest) := by
  by_cases hup : c = '^'
  · subst hup
    exact .inr ⟨.superscript, _, _, [], isUnary_scriptMacro superscripts, by decide, by decide, rfl,
      fun _ => rfl⟩
  by_cases hdown : c = '_'
  · subst hdown
    exact .inr ⟨.subscript, _, _, [], isUnary_scriptMacro subscripts, by decide, by decide, rfl,
      fun _ => rfl⟩
  by_cases hopen : c = '{'
  · subst hopen
    exact .inr ⟨.group, _, _, ['{'], isUnary_groupMacro, by decide, by decide, rfl, fun _ => rfl⟩
  by_cases hclose : c = '}'
  · subst hclose
    exact .inl fun _ => rfl
  · exact .inl (start?_of_isPlain T (by simp [isPlain, hescape, hup, hdown, hopen, hclose]))

lemma collect_none (hs : SoundMemory hF s) (level : Nat) {after : Text}
    (hn : argumentLength? after = none) :
    ∃ memory, collectArguments F 1 after (s.memory level) = (.error 0, memory) ∧
      Continues hF s (s.setMemory level memory) := by
  obtain ⟨hfound, hsound⟩ := collectArguments_exact hF 1 after (hs level)
  rw [countedArguments_one, hn] at hfound
  exact ⟨_, Prod.ext hfound rfl, rfl, rfl, hs.setMemory level hsound⟩

section Opener

variable {nested : Nested F} {rest lead : Text} {site : Site} {f : FunctionMacro}
  {make : Text → List Token}

lemma step_missing {after : Text} (hf : IsUnary f make)
    (hstart : T.start? c rest = some (site, .function f, after))
    (hn : argumentLength? after = none) (hs : SoundMemory hF s) :
    ∃ s', Continues hF s s' ∧ T.step nested level style c rest s = (T.literal c rest, s') := by
  obtain ⟨memory, hcollect, hset⟩ := collect_none hs level hn
  have hnotice := Continues.record hset.sound (.noticed (.missingArguments site.name 1))
  refine ⟨_, hset.trans hnotice, ?_⟩
  simp only [Typesetter.step, Typesetter.expandMacro?, Typesetter.attempt,
    Typesetter.takeArguments, hstart, hf.arity, hcollect]
  rfl

variable {T}

lemma SetsWithoutBlanks.cons {left : Text} {tokens : List Token} (hblank : isBlank c = false)
    (hstep : ∀ s, SoundMemory hF s → ∃ s', Continues hF s s' ∧
      T.step (T.levels F level) level style c text s = (⟨tokens, left⟩, s'))
    (hstep' : ∀ s, SoundMemory hF s → ∃ s', Continues hF s s' ∧
      T.step (T.levels F level) level style c (withoutBlanks text) s =
        (⟨tokens, withoutBlanks left⟩, s'))
    (h : SetsWithoutBlanks T hF level style left) :
    SetsWithoutBlanks T hF level style (c :: text) := by
  obtain ⟨later, hleft, hleft'⟩ := h
  refine ⟨tokens ++ later, ?_, ?_⟩
  · refine SetsTo.step ?_ hleft
    rw [List.append_nil, List.append_nil]
    exact hstep
  · rw [withoutBlanks_cons hblank]
    refine SetsTo.step ?_ hleft'
    rw [List.append_nil, List.append_nil]
    exact hstep'

/-- An opener takes its argument, or is set as it is, on both sides: the argument is missing on
both, and what it comes to is the same. -/
lemma setsWithoutBlanks_opener (hn : NestedWithoutBlanks hF (T.levels F level))
    (hf : IsUnary f make) (hlead : lead.length ≤ 1) (hescape : '\\' ∉ lead ++ text)
    (hclean : withoutBlanks lead = lead) (hblank : isBlank c = false)
    (hstart : ∀ rest, T.start? c rest = some (site, .function f, lead ++ rest))
    (hleft : ∀ left : Text, left.length ≤ text.length → '\\' ∉ left →
      SetsWithoutBlanks T hF level style left) :
    SetsWithoutBlanks T hF level style (c :: text) := by
  have htext : '\\' ∉ text := fun h => hescape (List.mem_append_right _ h)
  have hafter : lead ++ withoutBlanks text = withoutBlanks (lead ++ text) := by
    rw [withoutBlanks_append, hclean]
  have hlength := argumentLength?_withoutBlanks hescape
  rw [← hafter] at hlength
  cases hlen : argumentLength? (lead ++ text) with
  | none =>
    rw [hlen] at hlength
    exact .cons hblank (fun s hs => step_missing T hf (hstart text) hlen hs)
      (fun s hs => step_missing T hf (hstart _) hlength hs) (hleft text (Nat.le_refl _) htext)
  | some n =>
    rw [hlen] at hlength
    obtain ⟨htake, hdrop⟩ := withoutBlanks_split (lead ++ text) n
    have hspan : '\\' ∉ unwrap ((lead ++ text).take n) := fun h =>
      hescape (List.mem_of_mem_take ((unwrap_sublist _).mem h))
    obtain ⟨outcome, hgives, hgives'⟩ := hn (style.max f.style) _ hspan
    rw [← unwrap_withoutBlanks hescape hlen, ← htake, ← hafter] at hgives'
    cases outcome with
    | error refusal =>
      exact .cons hblank (fun s hs => step_refused hf (hstart text) hlen hgives level hs)
        (fun s hs => step_refused hf (hstart _) hlength hgives' level hs)
        (hleft text (Nat.le_refl _) htext)
    | ok tokens =>
      have hpos : 0 < n := argumentEnd?_pos (Prod.ext hlen rfl)
      have hstep' : ∀ s, SoundMemory hF s → _ := fun s hs =>
        step_unary hf (hstart (withoutBlanks text)) hlength hgives' level hs
      rw [hafter, hdrop] at hstep'
      refine .cons hblank (fun s hs => step_unary hf (hstart text) hlen hgives level hs) hstep'
        (hleft _ ?_ fun h => hescape (List.mem_of_mem_drop h))
      rw [List.length_drop, List.length_append]
      omega

end Opener

lemma setsWithoutBlanks_of_nested (hn : NestedWithoutBlanks hF (T.levels F level))
    (style : Style) (text : Text) (h : '\\' ∉ text) :
    SetsWithoutBlanks T hF level style text := by
  -- The induction is on the length, since an opener takes off a whole argument with it.
  induction hlength : text.length using Nat.strong_induction_on generalizing text with
  | _ length ih =>
    subst hlength
    cases text with
    | nil => exact ⟨[], SetsTo.nil, SetsTo.nil⟩
    | cons c rest =>
      have hescape : c ≠ '\\' := (List.ne_of_not_mem_cons h).symm
      have hrest : '\\' ∉ rest := List.not_mem_of_not_mem_cons h
      have hleft : ∀ left : Text, left.length ≤ rest.length → '\\' ∉ left →
          SetsWithoutBlanks T hF level style left :=
        fun left hle hleft => ih _ (Nat.lt_succ_of_le hle) left hleft rfl
      by_cases hblank : isBlank c
      · obtain ⟨tokens, hset, hset'⟩ := hleft rest (Nat.le_refl _) hrest
        refine ⟨tokens, ?_, by rw [withoutBlanks_cons_of_isBlank hblank]; exact hset'⟩
        have hblanks : SetsTo T hF level style [c] [] (rest ++ []) :=
          setsTo_blanks (by simpa using hblank)
        exact hblanks.append hset
      · have hblank : isBlank c = false := by simpa using hblank
        rcases start?_of_ne_backslash T hescape with
          hnone | ⟨site, f, make, lead, hf, hlead, hclear, hclean, hstart⟩
        · exact .cons hblank (fun s hs => ⟨s, .refl hs, step_of_start?_none T (hnone _) s⟩)
            (fun s hs => ⟨s, .refl hs, step_of_start?_none T (hnone _) s⟩)
            (hleft rest (Nat.le_refl _) hrest)
        · refine setsWithoutBlanks_opener hn hf hlead ?_ hclean hblank hstart hleft
          intro hmem
          exact (List.mem_append.mp hmem).elim hclear hrest

theorem nestedWithoutBlanks_levels (hF : ExactFinder F) (level : Nat) :
    NestedWithoutBlanks hF (T.levels F level) := by
  induction level with
  | zero =>
    intro style text _
    exact ⟨_, nestedGives_tooDeep T style text, nestedGives_tooDeep T style _⟩
  | succ level ih =>
    intro style text h
    obtain ⟨tokens, hset, hset'⟩ := setsWithoutBlanks_of_nested T ih style text h
    exact ⟨.ok tokens, hset.nestedGives, hset'.nestedGives⟩

end Setting

/-- Markup without a backslash, well-formed or not, comes to the same with and without its blanks,
for any macros and any settings. -/
theorem tokenize_withoutBlanks (T : Typesetter) (source : Text) (h : '\\' ∉ source) :
    T.tokenize source = T.tokenize (withoutBlanks source) ∧
      T.transform source = T.transform (withoutBlanks source) := by
  have hn := nestedWithoutBlanks_levels T exactRemembering T.settings.maxDepth
  obtain ⟨tokens, hset, hset'⟩ := setsWithoutBlanks_of_nested T hn .text source h
  have htokens : ∀ {text}, SetsTo T exactRemembering T.settings.maxDepth .text text tokens [] →
      T.tokenize text = tokens := by
    intro text hset
    obtain ⟨s', -, hexpand⟩ := hset (T.initialState .remembering)
      (soundMemory_of_memories_nil exactRemembering rfl)
    rw [List.append_nil, Typesetter.expandAll, List.append_nil] at hexpand
    exact congrArg Prod.fst hexpand
  have hsame : T.tokenize source = T.tokenize (withoutBlanks source) :=
    (htokens hset).trans (htokens hset').symm
  exact ⟨hsame, congrArg T.setTokens hsame⟩

def shallow : Typesetter where
  registry := ⟨[(['x'], .text ['y'])]⟩
  settings := { maxDepth := 1 }

/-- The first script's argument is too deep inside, the second trigger has no argument, and the
last group does not end. -/
theorem tokenize_withoutBlanks_ill_formed :
    let source := ['^', ' ', '{', '{', 'x', ' ', '}', ' ', '}', '}', '_', '_', ' ', '{', 'a', ' ']
    '\\' ∉ source ∧
      shallow.tokenize source = shallow.tokenize (withoutBlanks source) ∧
      shallow.transform source = shallow.transform (withoutBlanks source) := by
  intro source
  have hsource : '\\' ∉ source := by decide
  exact ⟨hsource, tokenize_withoutBlanks shallow source hsource⟩

end MathMarkup.Proofs
