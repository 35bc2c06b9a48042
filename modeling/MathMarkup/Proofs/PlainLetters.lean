import MathMarkup.Proofs.CharacterMaps
import MathMarkup.Proofs.Item
import MathMarkup.Proofs.StandardMacros

/-!
# Plain letters

A text up to the style of its letters is the text with each styled letter as the letter that it
stands for. Every standard function passes the style on: from arguments that are the same up to it
come replies that are. From a font come replies that are the same altogether.
-/

namespace MathMarkup

/-- The letter that a styled letter stands for. Any other character is left as it is, a styled digit
among them. -/
def plainLetter (c : Char) : Char := if isLetter (plain c) then plain c else c

namespace Proofs

/-! ### Letters -/

lemma forall_ascii {P : Char → Prop} (h : ∀ n < 128, P (Char.ofNat n)) {c : Char}
    (hc : c.toNat < 128) : P c := by
  rw [← Char.ofNat_toNat c]
  exact h c.toNat hc

lemma forall_letter {P : Char → Prop}
    (h : ∀ n < 128, isLetter (Char.ofNat n) = true → P (Char.ofNat n)) {c : Char}
    (hc : isLetter c = true) : P c := by
  have hbounds := toNat_of_isLetter hc
  exact forall_ascii (P := fun c => isLetter c = true → P c) h (by omega) hc

lemma toNat_of_isDigit {c : Char} (h : c.isDigit = true) : 48 ≤ c.toNat ∧ c.toNat ≤ 57 := by
  simp only [Char.isDigit, Bool.and_eq_true, decide_eq_true_eq] at h
  exact ⟨UInt32.le_iff_toNat_le.mp h.1, UInt32.le_iff_toNat_le.mp h.2⟩

lemma plain_of_isLetter {c : Char} (h : isLetter c = true) : plain c = c :=
  forall_letter (P := fun c => plain c = c) (by decide +kernel) h

lemma plain_letter (style : LetterStyle) {c : Char} (h : isLetter c = true) :
    plain (style.letter c) = c := by
  revert h
  refine forall_letter (P := fun c => plain (style.letter c) = c) ?_
  cases style <;> decide +kernel

lemma plain_of_isBlank {c : Char} (h : isBlank c = true) : plain c = c := by
  have hblank : ∀ range ∈ blankRanges, ∀ k < range.2 - range.1 + 1,
      plain (Char.ofNat (range.1 + k)) = Char.ofNat (range.1 + k) := by
    decide +kernel
  obtain ⟨range, hrange, hbounds⟩ := List.any_eq_true.mp h
  simp only [Bool.and_eq_true, decide_eq_true_eq] at hbounds
  have hplain := hblank range hrange (c.toNat - range.1) (by omega)
  rwa [Nat.add_sub_cancel' hbounds.1, Char.ofNat_toNat] at hplain

lemma plain_plainLetter (c : Char) : plain (plainLetter c) = plain c := by
  unfold plainLetter
  split
  · next h => exact plain_of_isLetter h
  · rfl

@[simp] lemma plainLetter_plainLetter (c : Char) : plainLetter (plainLetter c) = plainLetter c := by
  rw [plainLetter.eq_1 (plainLetter c), plain_plainLetter]
  split
  · next h => rw [plainLetter, if_pos h]
  · rfl

lemma plainLetter_letter (style : LetterStyle) {c : Char} (h : isLetter c = true) :
    plainLetter (style.letter c) = c := by
  rw [plainLetter, plain_letter style h, if_pos h]

lemma isBlank_plainLetter (c : Char) : isBlank (plainLetter c) = isBlank c := by
  unfold plainLetter
  split
  · next h =>
    rw [not_isBlank_of_isLetter h]
    cases hblank : isBlank c with
    | false => rfl
    | true =>
      rw [plain_of_isBlank hblank] at h
      rw [not_isBlank_of_isLetter h] at hblank
      cases hblank
  · rfl

/-- Every alphabet has all letters. -/
lemma get?_of_isLetter (a : Alphabet) {c : Char} (h : isLetter c = true) :
    ∃ styled, a.get? c = some styled := by
  have hcase : c.isUpper = true ∨ c.isLower = true := Bool.or_eq_true_iff.mp h
  rw [Alphabet.get?]
  cases a.exceptions.lookup c with
  | some styled => exact ⟨styled, rfl⟩
  | none =>
    dsimp only
    split
    · exact ⟨_, rfl⟩
    · next hupper => exact ⟨_, if_pos (hcase.resolve_left hupper)⟩

lemma restyle_plainLetter (a : Alphabet) (c : Char) :
    a.restyle (plainLetter c) = a.restyle c := by
  unfold Alphabet.restyle
  rw [plain_plainLetter, plainLetter]
  split
  · next h =>
    obtain ⟨styled, hstyled⟩ := get?_of_isLetter a h
    rw [hstyled]
    rfl
  · rfl

/-! ### Tokens -/

def plainTokens (tokens : List Token) : List Token := tokens.map (Token.mapText plainLetter)

lemma plainTokens_append (tokens tokens' : List Token) :
    plainTokens (tokens ++ tokens') = plainTokens tokens ++ plainTokens tokens' :=
  List.map_append

lemma atom_plainTokens (tokens : List Token) :
    (plainTokens tokens).map Token.atom = tokens.map Token.atom := by
  simp [plainTokens]

lemma map_plain_plainLetter (text : Text) : (text.map plainLetter).map plain = text.map plain := by
  simp [plain_plainLetter]

lemma typeset_plain (spaces : Spaces) (style : Style) {tokens tokens' : List Token}
    (h : plainTokens tokens = plainTokens tokens') :
    (typeset spaces style tokens).map plainLetter =
      (typeset spaces style tokens').map plainLetter := by
  have hplaceholder : accentPlaceholder.mapText plainLetter = accentPlaceholder := by decide
  rw [← typeset_map hplaceholder, ← typeset_map hplaceholder]
  exact congrArg _ h

/-! ### Functions -/

/-- What a function is to go by: its arguments as they are written, or else the set ones up to the
style of letters. -/
def visible (f : FunctionMacro) (arguments : List Text) : List Text :=
  if f.preparse then arguments.map (List.map plainLetter) else arguments

def plainReply : Reply → Reply
  | .tokens tokens => .tokens (plainTokens tokens)
  | reply => reply

lemma eq_or_tokens_of_plainReply {reply reply' : Reply} (h : plainReply reply = plainReply reply') :
    reply = reply' ∨ ∃ tokens tokens', reply = .tokens tokens ∧ reply' = .tokens tokens' ∧
      plainTokens tokens = plainTokens tokens' := by
  cases reply with
  | tokens tokens =>
    cases reply' with
    | tokens tokens' => exact Or.inr ⟨tokens, tokens', rfl, rfl, Reply.tokens.inj h⟩
    | _ => cases h
  | _ =>
    cases reply' with
    | tokens tokens' => cases h
    | _ => exact Or.inl h

/-- The style of the letters in set arguments shows in the style of letters and in nothing else. -/
def PassesStyleOn (f : FunctionMacro) : Prop :=
  ∀ arguments arguments', visible f arguments = visible f arguments' →
    plainReply (f.handler arguments) = plainReply (f.handler arguments')

lemma passesStyleOn_of_not_preparse {f : FunctionMacro} (hf : f.preparse = false) :
    PassesStyleOn f := by
  intro arguments arguments' hsame
  have harguments : arguments = arguments' := by simpa [visible, hf] using hsame
  rw [harguments]

lemma passesStyleOn_unary {reply : Text → Reply}
    (h : ∀ text, plainReply (reply (text.map plainLetter)) = plainReply (reply text)) :
    PassesStyleOn (FunctionMacro.unary true reply) := by
  intro arguments arguments' hsame
  have hplain : arguments.map (List.map plainLetter) = arguments'.map (List.map plainLetter) :=
    hsame
  cases arguments with
  | nil =>
    cases arguments' with
    | nil => rfl
    | cons _ _ => cases hplain
  | cons text _ =>
    cases arguments' with
    | nil => cases hplain
    | cons text' _ =>
      have htext : text.map plainLetter = text'.map plainLetter := (List.cons.inj hplain).1
      change plainReply (reply text) = plainReply (reply text')
      rw [← h text, ← h text', htext]

lemma passesStyleOn_ofClass (atom : AtomClass) : PassesStyleOn (.ofClass atom) := by
  apply passesStyleOn_unary
  intro text
  simp [plainReply, plainTokens, Token.mapText]

lemma passesStyleOn_negated : PassesStyleOn .negated := by
  apply passesStyleOn_unary
  intro text
  simp [plainReply, plainTokens, Token.mapText]

lemma passesStyleOn_overlay (mark : Char) : PassesStyleOn (.overlay mark) := by
  have hmarked : ∀ c, (if isBlank (plainLetter c) then [plainLetter c]
      else [plainLetter c, mark]).map plainLetter =
        (if isBlank c then [c] else [c, mark]).map plainLetter := by
    intro c
    rw [isBlank_plainLetter]
    split <;> simp
  apply passesStyleOn_unary
  intro text
  simp only [plainReply, plainTokens, Token.mapText, List.map_cons, List.map_nil, List.map_flatMap,
    List.flatMap_map, hmarked]

lemma passesStyleOn_scriptMacro (table : ScriptTable) : PassesStyleOn (scriptMacro table) := by
  have hform : ∀ c, plainLetter ((table.lookup (plain (plainLetter c))).getD (plainLetter c)) =
      plainLetter ((table.lookup (plain c)).getD c) := by
    intro c
    rw [plain_plainLetter]
    cases table.lookup (plain c) with
    | none => exact plainLetter_plainLetter c
    | some form => rfl
  have hunary : PassesStyleOn
      (.unary true fun text => .tokens [⟨.script, toScript table text⟩]) := by
    apply passesStyleOn_unary
    intro text
    simp [plainReply, plainTokens, Token.mapText, toScript, hform]
  exact hunary

/-- A font sees the letters of its argument and not their style. -/
lemma font_eq {entry : String × Macro} (h : entry ∈ Standard.fonts) :
    ∃ make : Text → List Token,
      entry.2 = .function (.unary true fun text => .tokens (make text)) ∧
        ∀ text, make (text.map plainLetter) = make text := by
  have hfont : ∀ alphabet : Alphabet, ∃ make : Text → List Token,
      Macro.function (.font alphabet) = .function (.unary true fun text => .tokens (make text)) ∧
        ∀ text, make (text.map plainLetter) = make text := by
    intro alphabet
    refine ⟨fun text => text.map fun c => ⟨.ord, [alphabet.restyle c]⟩, rfl, ?_⟩
    intro text
    simp [restyle_plainLetter]
  simp only [Standard.fonts, List.mem_cons, List.not_mem_nil, or_false] at h
  rcases h with rfl | rfl | rfl | rfl | rfl | rfl | rfl
  case inr.inr.inr.inr.inr.inr =>
    refine ⟨fun text => [⟨.ord, text.map plain⟩], rfl, ?_⟩
    intro text
    simp [plain_plainLetter]
  all_goals exact hfont _

lemma passesStyleOn_font {entry : String × Macro} (h : entry ∈ Standard.fonts)
    {f : FunctionMacro} (hf : entry.2 = .function f) : PassesStyleOn f := by
  obtain ⟨make, hentry, hmake⟩ := font_eq h
  rw [hentry] at hf
  cases hf
  apply passesStyleOn_unary
  intro text
  rw [hmake]

lemma passesStyleOn_construction {entry : String × Macro} (h : entry ∈ Standard.constructions)
    {f : FunctionMacro} (hf : entry.2 = .function f) : PassesStyleOn f := by
  simp only [Standard.constructions, List.mem_cons, List.not_mem_nil, or_false] at h
  rcases h with rfl | rfl | rfl | rfl | rfl | rfl | rfl | rfl | rfl | rfl | rfl | rfl | rfl | rfl |
    rfl | rfl
  all_goals cases hf
  all_goals first
    | exact passesStyleOn_ofClass _
    | exact passesStyleOn_negated
    | exact passesStyleOn_of_not_preparse rfl

lemma passesStyleOn_mark {entry : String × Macro} (h : entry ∈ Standard.marks)
    {f : FunctionMacro} (hf : entry.2 = .function f) : PassesStyleOn f := by
  rcases List.mem_append.mp h with h | h
  · obtain ⟨token, htoken⟩ := token_of_mem_symbols h
    rw [htoken] at hf
    cases hf
  · simp only [List.mem_cons, List.not_mem_nil, or_false] at h
    rcases h with rfl | rfl
    all_goals cases hf
    all_goals exact passesStyleOn_overlay _

theorem passesStyleOn_of_lookup_standard {name : Text} {f : FunctionMacro}
    (h : Registry.standard.lookup name = some (.function f)) : PassesStyleOn f := by
  obtain ⟨entry, hmem, hf⟩ := mem_definitions_of_lookup h
  simp only [Standard.definitions, List.mem_append] at hmem
  rcases hmem with (((hmem | hmem) | hmem) | hmem) | hmem
  · obtain ⟨token, htoken⟩ := token_of_mem_allSymbols hmem
    rw [htoken] at hf
    cases hf
  · obtain ⟨text, htext⟩ := text_of_mem_abbreviations hmem
    rw [htext] at hf
    cases hf
  · exact passesStyleOn_construction hmem hf
  · exact passesStyleOn_font hmem hf
  · exact passesStyleOn_mark hmem hf

end Proofs

end MathMarkup
