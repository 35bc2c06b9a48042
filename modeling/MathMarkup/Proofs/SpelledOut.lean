import MathMarkup.Proofs.Ceilings
import MathMarkup.Proofs.GroupCount
import MathMarkup.Proofs.ItemExpansion
import MathMarkup.Proofs.StandardMacros

/-!
# Functions that spell markup out

A function that answers text has it read in front of the rest of the markup. An argument that is not
set is handed to the function as it is written, without its braces, so in the answer it may stand
right before what came after the braces, and nothing keeps the two apart. The text is paid for with
one splice, and the rest is expanded with one less.
-/

namespace MathMarkup

/-- The typesetter with fewer splices to pay with. -/
def Typesetter.afterSplices (T : Typesetter) (count : Nat) : Typesetter :=
  T.withCeilings T.settings.maxDepth (T.settings.maxExpansions - count)

namespace Proofs

variable {F : GroupFinder} {hF : ExactFinder F} {s s' s'' : ExpansionState F} {cost cost' : Nat}

structure Pays (hF : ExactFinder F) (cost : Nat) (s s' : ExpansionState F) : Prop where
  remaining : s'.remaining + cost = s.remaining
  exhausted : s'.exhausted = s.exhausted
  sound : SoundMemory hF s'

lemma Continues.pays (h : Continues hF s s') : Pays hF 0 s s' :=
  ⟨h.remaining, h.exhausted, h.sound⟩

lemma Pays.trans (h : Pays hF cost s s') (h' : Pays hF cost' s' s'') :
    Pays hF (cost + cost') s s'' := by
  refine ⟨?_, h'.exhausted.trans h.exhausted, h'.sound⟩
  have hfirst := h.remaining
  have hsecond := h'.remaining
  omega

/-- The markup is expanded to the tokens and then to what `left` is expanded to once so many
splices are paid for. -/
def ComesTo (T : Typesetter) (hF : ExactFinder F) (level : Nat) (style : Style) (cost : Nat)
    (text : Text) (tokens : List Token) (left : Text) : Prop :=
  ∀ s, SoundMemory hF s → cost ≤ s.remaining → ∃ s', Pays hF cost s s' ∧
    T.expandAll (T.levels F level) level style text s =
      (tokens ++ (T.expandAll (T.levels F level) level style left s').1,
        (T.expandAll (T.levels F level) level style left s').2)

section ComesTo

variable {T : Typesetter} {level : Nat} {style : Style} {text mid left rest : Text}
  {tokens tokens' : List Token}

lemma SetsTo.comesTo (h : SetsTo T hF level style text tokens rest) :
    ComesTo T hF level style 0 (text ++ rest) tokens rest := by
  intro s hs _
  obtain ⟨s', hs', hexpand⟩ := h s hs
  exact ⟨s', hs'.pays, hexpand⟩

lemma ComesTo.trans (h : ComesTo T hF level style cost text tokens mid)
    (h' : ComesTo T hF level style cost' mid tokens' left) :
    ComesTo T hF level style (cost + cost') text (tokens ++ tokens') left := by
  intro s hs hcost
  obtain ⟨s₁, hs₁, hfirst⟩ := h s hs (by omega)
  have hleft := hs₁.remaining
  obtain ⟨s₂, hs₂, hsecond⟩ := h' s₁ hs₁.sound (by omega)
  refine ⟨s₂, hs₁.trans hs₂, ?_⟩
  rw [hfirst, hsecond, List.append_assoc]

lemma ComesTo.step {c : Char}
    (hstep : ∀ s, SoundMemory hF s → cost ≤ s.remaining → ∃ s', Pays hF cost s s' ∧
      T.step (T.levels F level) level style c text s = (⟨tokens, left⟩, s')) :
    ComesTo T hF level style cost (c :: text) tokens left := by
  intro s hs hcost
  obtain ⟨s', hs', hnext⟩ := hstep s hs hcost
  refine ⟨s', hs', ?_⟩
  rw [Typesetter.expandAll]
  simp only [hnext]

/-- Blanks in front come to nothing. -/
lemma comesTo_skipBlanks (text rest : Text) :
    ComesTo T hF level style 0 (text.skipBlanks ++ rest) [] (text ++ rest) := by
  intro s hs _
  refine ⟨s, (Continues.refl hs).pays, ?_⟩
  obtain ⟨blanks, hblanks, htext⟩ : ∃ blanks : Text, (∀ c ∈ blanks, isBlank c = true) ∧
      text = blanks ++ text.skipBlanks :=
    ⟨text.takeWhile isBlank, fun _ => List.mem_takeWhile_imp, List.takeWhile_append_dropWhile.symm⟩
  have hskip : (text ++ rest).skipBlanks = (text.skipBlanks ++ rest).skipBlanks := by
    conv_lhs => rw [htext, List.append_assoc]
    exact skipBlanks_append hblanks _
  rw [List.nil_append, ← expandAll_skipBlanks, ← hskip, expandAll_skipBlanks]

/-- From states that agree, a rest is expanded alike under the same depth. -/
lemma expandAll_afterSplices (T : Typesetter) (count level : Nat) (style : Style) (rest : Text)
    {t : ExpansionState F} {past past' : List Event} (h : Agree hF hF past past' s t) :
    SameOutcome hF hF past past' (T.expandAll (T.levels F level) level style rest s)
      ((T.afterSplices count).expandAll ((T.afterSplices count).levels F level) level style
        rest t) := by
  have hread : Comparison.ReadAlike T (T.afterSplices count) fun _ => True :=
    readAlike_withCeilings T _ _
  have hnone : ∀ style, True → (agreeing hF hF past past').NestedAlike style (T.levels F 0)
      ((T.afterSplices count).levels F 0) := fun style _ => agreeing_none rfl style
  exact sameOutcome_of_alike (hread.expandAll agreeing_spends hnone level trivial rest h)

/-- Nothing but the splices that are left is carried over to the rest. -/
lemma ComesTo.tokenize
    (h : ComesTo T exactRemembering T.settings.maxDepth .text cost text tokens left)
    (hcost : cost ≤ T.settings.maxExpansions) :
    T.tokenize text = tokens ++ (T.afterSplices cost).tokenize left := by
  have hsound : SoundMemory exactRemembering (T.initialState .remembering) :=
    soundMemory_of_memories_nil exactRemembering rfl
  have hsound' : SoundMemory exactRemembering ((T.afterSplices cost).initialState .remembering) :=
    soundMemory_of_memories_nil exactRemembering rfl
  obtain ⟨s', hs', hexpand⟩ := h _ hsound hcost
  have hpaid : s'.remaining + cost = T.settings.maxExpansions := hs'.remaining
  have hremaining : s'.remaining = T.settings.maxExpansions - cost := by omega
  have hagree : Agree exactRemembering exactRemembering s'.events [] s'
      ((T.afterSplices cost).initialState .remembering) :=
    ⟨hremaining, hs'.exhausted, ⟨[], rfl, rfl⟩, hs'.sound, hsound'⟩
  have hlater := expandAll_afterSplices T cost T.settings.maxDepth .text left hagree
  unfold Typesetter.tokenize Typesetter.run
  rw [hexpand, hlater.value]
  rfl

lemma tokenize_nil (T : Typesetter) : T.tokenize [] = [] := by
  simp only [Typesetter.tokenize, Typesetter.run, Typesetter.expandAll]

/-- Markup after which nothing is left is expanded to its tokens. -/
lemma SetsTo.tokenize
    (h : SetsTo T exactRemembering T.settings.maxDepth .text text tokens []) :
    T.tokenize text = tokens := by
  have hall := h.comesTo.tokenize (Nat.zero_le _)
  rwa [List.append_nil, tokenize_nil, List.append_nil] at hall

end ComesTo

/-! ### Functions whose argument is not set -/

section Unset

variable (T : Typesetter) (level : Nat) (style : Style) {name : String} {answer : Text → Reply}
  {body : Text}

/-- The function is called with the body of the group as it is written, up to blanks in front. -/
lemma attempt_group (nested : Nested F) (site : Site) (answer : Text → Reply)
    (hbody : Neutral body) (rest : Text) (hs : SoundMemory hF s) :
    ∃ s', Continues hF s s' ∧
      T.attempt nested level style site (.function (.unary false answer))
          (groupText body ++ rest) s =
        Typesetter.call site (.unary false answer) [body.skipBlanks] rest s' := by
  have hgroup : groupText body = '{' :: (body ++ ['}']) := rfl
  obtain ⟨memory, hcollect, hset⟩ := collect_one hs level (argumentLength?_braces hbody rest)
  have hsplit : '{' :: (body ++ ['}'] ++ rest) = '{' :: (body ++ ['}']) ++ rest := rfl
  rw [hsplit, List.take_left, unwrap_group] at hcollect
  refine ⟨s.setMemory level memory, hset, ?_⟩
  simp only [Typesetter.attempt, Typesetter.takeArguments, FunctionMacro.unary, hgroup, hcollect,
    List.drop_left, Bool.false_eq_true, if_false]

variable {T level style}

/-- What a function with an unset group for its argument comes to is decided by its answer. -/
lemma comesTo_of_call (hname : isControlName name.toList = true)
    (hlookup : T.registry.lookup name.toList = some (.function (.unary false answer)))
    (hbody : Neutral body) {tokens : List Token} {rest left : Text}
    (hcall : ∀ s : ExpansionState F, SoundMemory hF s → cost ≤ s.remaining →
      ∃ s', Pays hF cost s s' ∧ Typesetter.call (.command name.toList) (.unary false answer)
        [body.skipBlanks] rest s = (.ok (some ⟨tokens, left⟩), s')) :
    ComesTo T hF level style cost (commandText name ++ (groupText body ++ rest)) tokens left := by
  have hstart : T.start? '\\' (name.toList ++ (groupText body ++ rest)) = _ :=
    start?_command hname hlookup fun _ => rfl
  apply ComesTo.step
  intro s hs hcost
  obtain ⟨s₁, hs₁, hattempt⟩ := attempt_group T level style (T.levels F level)
    (.command name.toList) answer hbody rest hs
  obtain ⟨s₂, hs₂, hanswer⟩ := hcall s₁ hs₁.sound (hs₁.remaining ▸ hcost)
  refine ⟨s₂, Nat.zero_add cost ▸ hs₁.pays.trans hs₂, ?_⟩
  change T.step (T.levels F level) level style '\\' (name.toList ++ (groupText body ++ rest)) s = _
  simp only [Typesetter.step, hstart, Typesetter.expandMacro?, hattempt, hanswer]

/-- A function that answers tokens of its argument as it is written. -/
lemma comesTo_of_tokens (hname : isControlName name.toList = true)
    (hlookup : T.registry.lookup name.toList = some (.function (.unary false answer)))
    (hbody : Neutral body) {tokens : List Token}
    (hanswer : answer body.skipBlanks = .tokens tokens) (rest : Text) :
    ComesTo T hF level style 0 (commandText name ++ (groupText body ++ rest)) tokens rest := by
  apply comesTo_of_call hname hlookup hbody
  intro s hs _
  refine ⟨_, (Continues.record hs (.called (.command name.toList) [body.skipBlanks])).pays, ?_⟩
  simp only [Typesetter.call, FunctionMacro.unary, hanswer]

/-- A function that answers text made of its argument as it is written: the text is read in front of
what follows the group, without a break. -/
lemma comesTo_of_text (hname : isControlName name.toList = true)
    (hlookup : T.registry.lookup name.toList = some (.function (.unary false answer)))
    (hbody : Neutral body) {spelled : Text}
    (hanswer : answer body.skipBlanks = .text spelled) (rest : Text) :
    ComesTo T hF level style 1 (commandText name ++ (groupText body ++ rest)) []
      (spelled ++ rest) := by
  apply comesTo_of_call hname hlookup hbody
  intro s hs hcost
  have hleft : s.remaining ≠ 0 := Nat.ne_of_gt hcost
  let spliced := (s.record (.called (.command name.toList) [body.skipBlanks])).record
    (.spliced (.command name.toList) spelled)
  refine ⟨{ spliced with remaining := s.remaining - 1 }, ⟨Nat.sub_add_cancel hcost, rfl, hs⟩, ?_⟩
  simp only [Typesetter.call, FunctionMacro.unary, hanswer, Typesetter.splice,
    ExpansionState.spend, ExpansionState.remaining_record, if_neg hleft]
  rfl

end Unset

/-! ### The modulus -/

section Modulus

variable {T : Typesetter} {level : Nat} {style : Style} {body : Text}

lemma comesTo_symbol (hT : T.registry = .standard) (symbol : String × String)
    (h : symbol ∈ ordinarySymbols) (hname : isControlName symbol.1.toList = true) {rest : Text}
    (hrest : beginsWithLetter symbol.1.toList = true → beginsWithLetter rest = false) :
    ComesTo T hF level style 0 (commandText symbol.1 ++ rest) [⟨.ord, symbol.2.toList⟩] rest := by
  have hlookup := lookup_ordinarySymbol h
  rw [← hT] at hlookup
  exact (setsTo_command hname hlookup hrest).comesTo

def modulusTokens : List Token :=
  [⟨.ord, "mod".toList⟩, ⟨.ord, "\u2006".toList⟩, ⟨.ord, "\u2006".toList⟩]

def quadToken : Token := ⟨.ord, "\u2005\u2005\u2005\u2005".toList⟩

lemma comesTo_quad (hT : T.registry = .standard) {rest : Text}
    (hrest : beginsWithLetter rest = false) :
    ComesTo T hF level style 0 (commandText "quad" ++ rest) [quadToken] rest :=
  comesTo_symbol hT ("quad", "\u2005\u2005\u2005\u2005") (by decide) (by decide) fun _ => hrest

lemma comesTo_modulusText (hT : T.registry = .standard) (rest : Text) :
    ComesTo T hF level style 0 (modulusText ++ rest) modulusTokens rest := by
  have hverbatim : ("textrm", Macro.function .verbatim) ∈ Standard.constructions := by
    simp [Standard.constructions]
  have hlookup := lookup_construction hverbatim
  rw [← hT] at hlookup
  have hskip : Text.skipBlanks "mod".toList = "mod".toList := skipBlanks_eq_self (by decide)
  have hword : ComesTo T hF level style 0
      (commandText "textrm" ++ (groupText "mod".toList ++ (commandText "," ++
        (commandText "," ++ rest)))) [⟨.ord, "mod".toList⟩] _ :=
    comesTo_of_tokens (by decide) hlookup (neutral_of_forall_mem (by simp)) (by rw [hskip]) _
  have hthin : ∀ rest : Text, ComesTo T hF level style 0 (commandText "," ++ rest)
      [⟨.ord, "\u2006".toList⟩] rest :=
    fun rest => comesTo_symbol hT (",", "\u2006") (by decide) (by decide) nofun
  have hall := (hword.trans (hthin _)).trans (hthin rest)
  simpa [modulusText, modulusTokens] using hall

lemma comesTo_modulus (hT : T.registry = .standard) (hbody : Neutral body) (rest : Text) :
    ComesTo T hF level style 1 (commandText "mod" ++ groupText body ++ rest)
      (quadToken :: modulusTokens) (body ++ rest) := by
  have hmodulus : ("mod", Macro.function .modulus) ∈ Standard.constructions := by
    simp [Standard.constructions]
  have hlookup := lookup_construction hmodulus
  rw [← hT] at hlookup
  have hcall : ComesTo T hF level style 1 (commandText "mod" ++ (groupText body ++ rest)) []
      (commandText "quad" ++ modulusText ++ body.skipBlanks ++ rest) :=
    comesTo_of_text (by decide) hlookup hbody rfl rest
  have hquad : ComesTo T hF level style 0
      (commandText "quad" ++ (modulusText ++ (body.skipBlanks ++ rest))) [quadToken] _ :=
    comesTo_quad hT rfl
  simp only [List.append_assoc] at hcall ⊢
  exact ((hcall.trans hquad).trans (comesTo_modulusText hT _)).trans (comesTo_skipBlanks body rest)

lemma tokenize_modulusText (hT : T.registry = .standard) :
    T.tokenize (commandText "quad" ++ modulusText) = quadToken :: modulusTokens := by
  have hspelled := ((comesTo_quad hT rfl).trans (comesTo_modulusText hT [])).tokenize
    (Nat.zero_le T.settings.maxExpansions)
  rwa [List.append_nil, tokenize_nil, List.append_nil] at hspelled

end Modulus

/-! ### A control word at the end -/

lemma start?_unknown {T : Typesetter} {name : Text} (hname : isControlName name = true)
    (hlookup : T.registry.lookup name = none) : T.start? '\\' name = none := by
  have hword : controlName? (name ++ []) = some (name, []) :=
    controlName?_append hname fun _ => rfl
  rw [List.append_nil] at hword
  simp [Typesetter.start?, hword, hlookup]

lemma lookup_mu : Registry.standard.lookup ['m', 'u'] = some (.token ⟨.ord, ['μ']⟩) := by
  have hmem : ("mu", "μ") ∈ ordinarySymbols := by decide
  simpa using lookup_ordinarySymbol hmem

lemma tokenOf?_mu : tokenOf? .standard ['m', 'u'] = some ⟨.ord, ['μ']⟩ := by
  rw [tokenOf?, lookup_mu]

lemma wellFormed_mu : allWellFormed .standard [.command ['m', 'u']] = true := by
  have hname : isControlName ['m', 'u'] = true := by decide
  simp [allWellFormed, Item.wellFormed, tokenOf?_mu, hname, printAll, beginsWithLetter]

lemma lookup_mub : Registry.standard.lookup ['m', 'u', 'b'] = none := by
  have hnone : Standard.definitions.lookup "mub" = none :=
    (lookup_eq_none_iff _ _).mpr (by decide +kernel)
  have hlookup := lookup_standard "mub".toList
  rw [lookup_map_toList, hnone] at hlookup
  simpa using hlookup

/-- The argument of a modulus is read as if it stood right before what comes after its braces, with
one splice less. So it is apart from that unless it ends in a control word that goes on there. -/
theorem modulus_read_on (settings : Settings) (hsplices : 0 < settings.maxExpansions) :
    let T : Typesetter := ⟨.standard, settings⟩
    let modulus := T.tokenize (commandText "quad" ++ modulusText)
    (∀ body rest, IsBalanced body →
      T.tokenize (commandText "mod" ++ groupText body ++ rest) =
        modulus ++ (T.afterSplices 1).tokenize (body ++ rest)) ∧
    ∀ items rest, allWellFormed T.registry items = true →
      (endsInWord items = true → beginsWithLetter rest = false) →
      T.tokenize (commandText "mod" ++ groupText (printAll items) ++ rest) =
        modulus ++ T.tokenize (printAll items) ++ (T.afterSplices 1).tokenize rest := by
  intro T modulus
  have hT : T.registry = .standard := by simp only [T]
  have hmodulus : modulus = quadToken :: modulusTokens := tokenize_modulusText hT
  constructor
  · intro body rest hbody
    rw [hmodulus]
    exact (comesTo_modulus hT hbody.neutral rest).tokenize hsplices
  · intro items rest hitems hrest
    have hset := fun rest =>
      setsTo_all T exactRemembering items T.settings.maxDepth .text rest hitems
    have hall := ((comesTo_modulus hT (neutral_printAll items hitems) rest).trans
      (hset rest hrest).comesTo).tokenize hsplices
    rw [hmodulus, (hset [] fun _ => rfl).tokenize]
    exact hall

/-- One splice is enough. What is read on need not be well-nested. -/
theorem modulus_read_on_mu :
    let T : Typesetter := ⟨.standard, { maxDepth := 1, maxExpansions := 1 }⟩
    let modulus := T.tokenize (commandText "quad" ++ modulusText)
    let items : List Item := [.command ['m', 'u']]
    0 < T.settings.maxExpansions ∧ IsBalanced ['\\'] ∧ allWellFormed T.registry items = true ∧
      (endsInWord items = true → beginsWithLetter ['+', 'b'] = false) ∧
      T.tokenize (commandText "mod" ++ groupText ['\\'] ++ ['+', 'b']) =
        modulus ++ (T.afterSplices 1).tokenize ['\\', '+', 'b'] ∧
      T.tokenize (commandText "mod" ++ groupText (printAll items) ++ ['+', 'b']) =
        modulus ++ T.tokenize (printAll items) ++ (T.afterSplices 1).tokenize ['+', 'b'] := by
  intro T modulus items
  have hformed : allWellFormed T.registry items = true := by
    simp only [T]
    exact wellFormed_mu
  have hbalanced : IsBalanced ['\\'] := by decide
  have hword : endsInWord items = true → beginsWithLetter ['+', 'b'] = false := fun _ => by decide
  obtain ⟨hread, happart⟩ := modulus_read_on { maxDepth := 1, maxExpansions := 1 } (by decide)
  exact ⟨by decide, hbalanced, hformed, hword, hread _ _ hbalanced, happart items _ hformed hword⟩

/-- The letter after the braces becomes part of the control word in them, and no standard macro has
that name. -/
theorem modulus_runs_into_letter :
    let T : Typesetter := ⟨.standard, {}⟩
    let modulus := T.tokenize (commandText "quad" ++ modulusText)
    let items : List Item := [.command ['m', 'u']]
    let read := T.tokenize (commandText "mod" ++ groupText (printAll items) ++ ['b'])
    0 < T.settings.maxExpansions ∧ allWellFormed T.registry items = true ∧
      read = modulus ++ [⟨.ord, ['\\']⟩, ⟨.ord, ['𝑚']⟩, ⟨.ord, ['𝑢']⟩, ⟨.ord, ['𝑏']⟩] ∧
      modulus ++ T.tokenize (printAll items) ++ (T.afterSplices 1).tokenize ['b'] =
        modulus ++ [⟨.ord, ['μ']⟩, ⟨.ord, ['𝑏']⟩] ∧
      read ≠ modulus ++ T.tokenize (printAll items) ++ (T.afterSplices 1).tokenize ['b'] := by
  intro T modulus items read
  have hT : T.registry = .standard := by simp only [T]
  have hformed : allWellFormed T.registry items = true := by
    rw [hT]
    exact wellFormed_mu
  have hread : read = modulus ++
      [⟨.ord, ['\\']⟩, ⟨.ord, ['𝑚']⟩, ⟨.ord, ['𝑢']⟩, ⟨.ord, ['𝑏']⟩] := by
    have hlookup : T.registry.lookup ['m', 'u', 'b'] = none := by
      rw [hT]
      exact lookup_mub
    have hstart : T.start? '\\' ['m', 'u', 'b'] = none := start?_unknown (by decide) hlookup
    have hletters := setsTo_all T exactRemembering (['m', 'u', 'b'].map Item.char)
      T.settings.maxDepth .text [] (by decide) (by decide)
    have hword := ((setsTo_char hstart).append hletters).comesTo
    have hall := ((comesTo_modulus hT (neutral_printAll items hformed) ['b']).trans hword).tokenize
      (by decide)
    have htokens : T.settings.letterStyle.literal '\\' ++ denoteAll T.registry
        T.settings.letterStyle T.settings.spaces (['m', 'u', 'b'].map Item.char)
          T.settings.maxDepth .text =
        [⟨.ord, ['\\']⟩, ⟨.ord, ['𝑚']⟩, ⟨.ord, ['𝑢']⟩, ⟨.ord, ['𝑏']⟩] := by
      decide
    rw [tokenize_nil, List.append_nil, ← tokenize_modulusText hT, htokens] at hall
    exact hall
  have hapart : modulus ++ T.tokenize (printAll items) ++ (T.afterSplices 1).tokenize ['b'] =
      modulus ++ [⟨.ord, ['μ']⟩, ⟨.ord, ['𝑏']⟩] := by
    have hmu : T.tokenize (printAll items) = [⟨.ord, ['μ']⟩] := by
      rw [(setsTo_all T exactRemembering items T.settings.maxDepth .text [] hformed
        fun _ => rfl).tokenize]
      simp [items, denoteAll, Item.denote, hT, tokenOf?_mu]
    rw [hmu, tokenize_of_isPlain _ (by decide), List.append_assoc]
    rfl
  refine ⟨by decide, hformed, hread, hapart, ?_⟩
  rw [hread, hapart, Ne, List.append_cancel_left_eq]
  decide

end Proofs

end MathMarkup
