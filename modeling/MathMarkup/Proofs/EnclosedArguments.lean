import MathMarkup.Proofs.NestingDepth
import MathMarkup.Proofs.SpelledOut

/-!
# Arguments that stay enclosed

Some functions close the text that they answer with a parenthesis or a brace behind their argument.
No control word goes on there, so the argument is read as if it stood alone, and what follows is
read as if nothing stood before it. An argument that is closed in by the braces of a verbatim text
is not read at all, whatever it holds.
-/

namespace MathMarkup.Proofs

variable {F : GroupFinder} {hF : ExactFinder F} {T : Typesetter} {level : Nat} {style : Style}

lemma lookup_in_standard (hT : T.registry = .standard) (entry : String × Macro)
    (h : entry ∈ Standard.constructions) : T.registry.lookup entry.1.toList = some entry.2 := by
  rw [hT]
  exact lookup_construction h

/-! ### In parentheses -/

section Parentheses

variable {items : List Item}

lemma comesTo_literal {c : Char} (h : isPlain c = true) (rest : Text) :
    ComesTo T hF level style 0 (c :: rest) (T.settings.letterStyle.literal c) rest :=
  (setsTo_char (start?_of_isPlain T h rest)).comesTo

lemma comesTo_parenthesis (rest : Text) :
    ComesTo T hF level style 0 ('(' :: rest) [⟨.opening, ['(']⟩] rest :=
  comesTo_literal (by decide) rest

/-- Well-nested markup up to a closing parenthesis, which ends a control word before it. -/
lemma comesTo_closed (hitems : allWellFormed T.registry items = true) (rest : Text) :
    ComesTo T hF level style 0 ((printAll items).skipBlanks ++ ')' :: rest)
      (denoteAll T.registry T.settings.letterStyle T.settings.spaces items level style ++
        [⟨.closing, [')']⟩]) rest := by
  have hblanks : ComesTo T hF level style 0 ((printAll items).skipBlanks ++ ')' :: rest) [] _ :=
    comesTo_skipBlanks (printAll items) (')' :: rest)
  have hread := (setsTo_all T hF items level style (')' :: rest) hitems fun _ => rfl).comesTo
  have hclose : ComesTo T hF level style 0 (')' :: rest) [⟨.closing, [')']⟩] rest :=
    comesTo_literal (by decide) rest
  exact (hblanks.trans hread).trans hclose

/-- The function opens a parenthesis somewhere before its argument and closes it right behind. -/
lemma comesTo_enclosing (lead : Text) {name : String} {answer : Text → Reply}
    {tokens : List Token} (hname : isControlName name.toList = true)
    (hlookup : T.registry.lookup name.toList = some (.function (.unary false answer)))
    (hanswer : ∀ argument, answer argument = .text (lead ++ argument ++ [')']))
    (hlead : ∀ rest, ComesTo T hF level style 0 (lead ++ rest) tokens rest)
    (hitems : allWellFormed T.registry items = true) (rest : Text) :
    ComesTo T hF level style 1 (commandText name ++ groupText (printAll items) ++ rest)
      (tokens ++ (denoteAll T.registry T.settings.letterStyle T.settings.spaces items level style ++
        [⟨.closing, [')']⟩])) rest := by
  have hcall : ComesTo T hF level style 1
      (commandText name ++ (groupText (printAll items) ++ rest)) []
      (lead ++ (printAll items).skipBlanks ++ [')'] ++ rest) :=
    comesTo_of_text hname hlookup (neutral_printAll items hitems) (hanswer _) rest
  have hread := (hlead _).trans (comesTo_closed hitems rest)
  simp only [List.append_assoc] at hcall ⊢
  exact hcall.trans hread

lemma comesTo_squareRoot (hT : T.registry = .standard)
    (hitems : allWellFormed T.registry items = true) (rest : Text) :
    ComesTo T hF level style 1 (commandText "sqrt" ++ groupText (printAll items) ++ rest)
      ([⟨.ord, ['√']⟩, ⟨.opening, ['(']⟩] ++
        (denoteAll T.registry T.settings.letterStyle T.settings.spaces items level style ++
          [⟨.closing, [')']⟩])) rest := by
  have hroot := lookup_in_standard hT ("sqrt", .function .squareRoot)
    (by simp [Standard.constructions])
  refine comesTo_enclosing (commandText "surd" ++ ['(']) (by decide) hroot (fun _ => rfl) ?_ hitems
    rest
  intro rest
  have hsurd : ComesTo T hF level style 0 (commandText "surd" ++ '(' :: rest) [⟨.ord, ['√']⟩] _ :=
    comesTo_symbol hT ("surd", "√") (by decide) (by decide) fun _ => rfl
  rw [List.append_assoc]
  exact hsurd.trans (comesTo_parenthesis rest)

lemma comesTo_parenthesizedModulus (hT : T.registry = .standard)
    (hitems : allWellFormed T.registry items = true) (rest : Text) :
    ComesTo T hF level style 1 (commandText "pmod" ++ groupText (printAll items) ++ rest)
      ([quadToken, ⟨.opening, ['(']⟩] ++ modulusTokens ++
        (denoteAll T.registry T.settings.letterStyle T.settings.spaces items level style ++
          [⟨.closing, [')']⟩])) rest := by
  have hmodulus := lookup_in_standard hT ("pmod", .function .parenthesizedModulus)
    (by simp [Standard.constructions])
  refine comesTo_enclosing (commandText "quad" ++ ['('] ++ modulusText) (by decide) hmodulus
    (fun _ => rfl) ?_ hitems rest
  intro rest
  have hquad : ComesTo T hF level style 0 (commandText "quad" ++ '(' :: (modulusText ++ rest))
      [quadToken] _ := comesTo_quad hT rfl
  rw [List.append_assoc, List.append_assoc]
  exact (hquad.trans (comesTo_parenthesis _)).trans (comesTo_modulusText hT rest)

end Parentheses

/-! ### As a verbatim text -/

section Verbatim

variable {body rest : Text} {tokens : List Token}

lemma ComesTo.setsTo (h : ComesTo T hF level style 0 (body ++ rest) tokens rest) :
    SetsTo T hF level style body tokens rest := by
  intro s hs
  obtain ⟨s', hs', hexpand⟩ := h s hs (Nat.zero_le s.remaining)
  exact ⟨s', ⟨hs'.remaining, hs'.exhausted, hs'.sound⟩, hexpand⟩

/-- A function that has a group set one level down for its one argument. -/
lemma setsTo_unary_command {name : String} {f : FunctionMacro} {make : Text → List Token}
    (hf : IsUnary f make) (hname : isControlName name.toList = true)
    (hlookup : T.registry.lookup name.toList = some (.function f)) (hbody : Neutral body)
    (h : SetsTo T hF level (style.max f.style) body tokens []) :
    SetsTo T hF (level + 1) style (commandText name ++ groupText body)
      (make (typeset T.settings.spaces (style.max f.style) tokens)) rest := by
  have hstart : T.start? '\\' (name.toList ++ groupText body ++ rest) =
      some (.command name.toList, .function f, groupText body ++ rest) := by
    rw [List.append_assoc]
    exact start?_command hname hlookup fun _ => rfl
  have hgroup : groupText body = '{' :: (body ++ ['}']) := rfl
  refine setsTo_unary hf hstart (argumentLength?_braces hbody rest) List.drop_left ?_
  rw [← hgroup, List.take_left, hgroup, unwrap_group]
  exact h.nestedGives.skipBlanks

/-- The argument gets through both of the groups that are put around it. -/
lemma comesTo_operatorText (hT : T.registry = .standard) (hbody : Neutral body) (rest : Text) :
    ComesTo T hF (level + 1) style 0 (operatorText body ++ rest) [⟨.op, body.skipBlanks⟩] rest := by
  have hverbatim := lookup_in_standard hT ("textrm", .function .verbatim)
    (by simp [Standard.constructions])
  have hclass := lookup_in_standard hT ("mathop", .function (.ofClass .op))
    (by simp [Standard.constructions])
  have hspelled : ComesTo T hF level style 0 (commandText "textrm" ++ (groupText body ++ []))
      [⟨.ord, body.skipBlanks⟩] [] :=
    comesTo_of_tokens (by decide) hverbatim hbody rfl []
  have hunary : IsUnary (.ofClass .op) fun text => [⟨.op, text⟩] := ⟨rfl, rfl, fun _ => rfl⟩
  have hstyle : style.max (FunctionMacro.ofClass .op).style = style := max_text style
  have hneutral : Neutral (commandText "textrm" ++ groupText body) :=
    (neutral_of_forall_mem (by simp [commandText])).append hbody.group
  have hinner : SetsTo T hF level (style.max (FunctionMacro.ofClass .op).style)
      (commandText "textrm" ++ groupText body) [⟨.ord, body.skipBlanks⟩] [] := by
    rw [hstyle]
    exact ComesTo.setsTo (by rwa [List.append_assoc])
  have hset : SetsTo T hF (level + 1) style (operatorText body) _ rest :=
    setsTo_unary_command hunary (by decide) hclass hneutral hinner
  rw [typeset_ord] at hset
  exact hset.comesTo

lemma IsBalanced.skipBlanks (h : IsBalanced body) : IsBalanced body.skipBlanks := by
  obtain ⟨blanks, hblanks, hsplit⟩ := exists_blanks body
  rw [hsplit] at h
  exact h.of_append (braceExcess_of_isBlank hblanks)

lemma comesTo_operatorName (hT : T.registry = .standard) (hbody : IsBalanced body) (rest : Text) :
    ComesTo T hF (level + 1) style 1 (commandText "operatorname" ++ groupText body ++ rest)
      [⟨.op, body.skipBlanks⟩] rest := by
  have hlookup := lookup_in_standard hT ("operatorname", .function .operatorName)
    (by simp [Standard.constructions])
  have hcall : ComesTo T hF (level + 1) style 1
      (commandText "operatorname" ++ (groupText body ++ rest)) []
      (operatorText body.skipBlanks ++ rest) :=
    comesTo_of_text (by decide) hlookup hbody.neutral rfl rest
  have hskip : body.skipBlanks.skipBlanks = body.skipBlanks :=
    skipBlanks_eq_self (beginsWithBlank_skipBlanks body)
  have hread : ComesTo T hF (level + 1) style 0 (operatorText body.skipBlanks ++ rest)
      [⟨.op, body.skipBlanks.skipBlanks⟩] rest :=
    comesTo_operatorText hT hbody.skipBlanks.neutral rest
  rw [hskip] at hread
  rw [List.append_assoc]
  exact hcall.trans hread

end Verbatim

/-- A square root and a modulus in parentheses have their argument read between the parentheses as
it would be read alone, and the name of an operator is set as it is written. One splice pays for all
that is spelled out, and what follows is read as if it stood alone with one splice less. The name is
set one level down; settings that are read from sources always allow that level
(`Settings.one_le_maxDepth_of_ofSources`). -/
theorem enclosed_arguments_read_apart (settings : Settings)
    (hsplices : 0 < settings.maxExpansions) :
    let T : Typesetter := ⟨.standard, settings⟩
    let later := (T.afterSplices 1).tokenize
    (∀ items rest, allWellFormed T.registry items = true →
      T.tokenize (commandText "sqrt" ++ groupText (printAll items) ++ rest) =
        [⟨.ord, ['√']⟩, ⟨.opening, ['(']⟩] ++ T.tokenize (printAll items) ++
          [⟨.closing, [')']⟩] ++ later rest ∧
      T.tokenize (commandText "pmod" ++ groupText (printAll items) ++ rest) =
        [quadToken, ⟨.opening, ['(']⟩] ++ modulusTokens ++ T.tokenize (printAll items) ++
          [⟨.closing, [')']⟩] ++ later rest) ∧
    (1 ≤ settings.maxDepth → ∀ body rest, IsBalanced body →
      T.tokenize (commandText "operatorname" ++ groupText body ++ rest) =
        ⟨.op, body.skipBlanks⟩ :: later rest) := by
  intro T later
  have hT : T.registry = .standard := by simp only [T]
  constructor
  · intro items rest hitems
    have halone := (setsTo_all T exactRemembering items T.settings.maxDepth .text [] hitems
      fun _ => rfl).tokenize
    have hroot := (comesTo_squareRoot hT hitems rest).tokenize hsplices
    have hmodulus := (comesTo_parenthesizedModulus hT hitems rest).tokenize hsplices
    rw [← halone, ← List.append_assoc] at hroot hmodulus
    exact ⟨hroot, hmodulus⟩
  · intro hdepth body rest hbody
    obtain ⟨level, hlevel⟩ := Nat.exists_eq_add_of_le' hdepth
    have hname : ComesTo T exactRemembering (level + 1) .text 1
        (commandText "operatorname" ++ groupText body ++ rest) [⟨.op, body.skipBlanks⟩] rest :=
      comesTo_operatorName hT hbody rest
    rw [← hlevel] at hname
    exact hname.tokenize hsplices

/-- The argument ends in a control word and a letter follows. The operator's name holds that control
word and a script without an argument, and begins with a blank. -/
theorem enclosed_arguments_read_apart_mu :
    let T : Typesetter := ⟨.standard, { maxDepth := 1, maxExpansions := 1 }⟩
    let items : List Item := [.command ['m', 'u']]
    let body := [' ', '\\', 'm', 'u', '{', '^', '}']
    0 < T.settings.maxExpansions ∧ allWellFormed T.registry items = true ∧
      1 ≤ T.settings.maxDepth ∧ IsBalanced body ∧
      T.tokenize (commandText "sqrt" ++ groupText (printAll items) ++ ['b']) =
        [⟨.ord, ['√']⟩, ⟨.opening, ['(']⟩, ⟨.ord, ['μ']⟩, ⟨.closing, [')']⟩, ⟨.ord, ['𝑏']⟩] ∧
      T.tokenize (commandText "pmod" ++ groupText (printAll items) ++ ['b']) =
        [quadToken, ⟨.opening, ['(']⟩] ++ modulusTokens ++
          [⟨.ord, ['μ']⟩, ⟨.closing, [')']⟩, ⟨.ord, ['𝑏']⟩] ∧
      T.tokenize (commandText "operatorname" ++ groupText body ++ ['b']) =
        [⟨.op, ['\\', 'm', 'u', '{', '^', '}']⟩, ⟨.ord, ['𝑏']⟩] := by
  intro T items body
  have hT : T.registry = .standard := by simp only [T]
  have hformed : allWellFormed T.registry items = true := by
    rw [hT]
    exact wellFormed_mu
  have hbalanced : IsBalanced body := by decide
  have hmu : T.tokenize (printAll items) = [⟨.ord, ['μ']⟩] := by
    rw [(setsTo_all T exactRemembering items T.settings.maxDepth .text [] hformed
      fun _ => rfl).tokenize]
    simp [items, denoteAll, Item.denote, hT, tokenOf?_mu]
  have hletter : (T.afterSplices 1).tokenize ['b'] = [⟨.ord, ['𝑏']⟩] :=
    tokenize_of_isPlain _ (by decide)
  obtain ⟨henclosed, hname⟩ :=
    enclosed_arguments_read_apart { maxDepth := 1, maxExpansions := 1 } (by decide)
  obtain ⟨hroot, hmodulus⟩ := henclosed items ['b'] hformed
  have hname := hname (by decide) body ['b'] hbalanced
  rw [hmu, hletter] at hroot hmodulus
  rw [hletter] at hname
  exact ⟨by decide, hformed, by decide, hbalanced, hroot, hmodulus, hname⟩

end MathMarkup.Proofs
