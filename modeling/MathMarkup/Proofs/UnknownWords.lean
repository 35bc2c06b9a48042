import MathMarkup.Proofs.ItemExpansion
import MathMarkup.Proofs.PlainLetters
import MathMarkup.Proofs.Unspaced

/-!
# Control words that nobody knows

A control word without a macro is set as it is written, backslash and letters. In what is set, other
control sequences stand than in the source: no letter is left to make a control word, so each
backslash goes with one styled letter. If that is no name of a macro either, nothing is expanded the
second time, and nothing changes any more.
-/

namespace MathMarkup

/-- The text without its blanks, and with each letter in the style of letters. -/
def LetterStyle.degraded (style : LetterStyle) (text : Text) : Text :=
  (text.filter fun c => !isBlank c).map fun c => if isLetter c then style.letter c else c

namespace Proofs

variable {F : GroupFinder} {T : Typesetter} {letters : LetterStyle} {c : Char} {text rest : Text}

/-! ### Text that starts no macro -/

/-- No character of the text starts a macro where it stands. -/
def StartsNothing (T : Typesetter) : Text → Prop
  | [] => True
  | c :: rest => T.start? c rest = none ∧ StartsNothing T rest

lemma expandAll_of_startsNothing (h : StartsNothing T text) (nested : Nested F) (level : Nat)
    (style : Style) (s : ExpansionState F) :
    T.expandAll nested level style text s =
      (text.flatMap T.settings.letterStyle.literal, s) := by
  induction text with
  | nil => simp only [Typesetter.expandAll, List.flatMap_nil]
  | cons c rest ih =>
    obtain ⟨hstart, hrest⟩ := h
    simp only [Typesetter.expandAll, step_of_start?_none T hstart, Typesetter.literal, ih hrest,
      List.flatMap_cons]

lemma tokenize_of_startsNothing (h : StartsNothing T text) :
    T.tokenize text = text.flatMap T.settings.letterStyle.literal :=
  congrArg Prod.fst (expandAll_of_startsNothing h _ _ _ _)

/-- The character is set as an ordinary token, or not at all. -/
def IsOrdinary (c : Char) : Prop :=
  isLetter c = true ∨ isBlank c = true ∨ classify c = ⟨.ord, [c]⟩

lemma literal_of_isOrdinary (letters : LetterStyle) (h : IsOrdinary c) :
    letters.literal c = if isBlank c then []
      else [⟨.ord, [if isLetter c then letters.letter c else c]⟩] := by
  rw [LetterStyle.literal]
  by_cases hletter : isLetter c = true
  · rw [if_pos hletter, if_pos hletter, not_isBlank_of_isLetter hletter]
    rfl
  · rw [if_neg hletter, if_neg hletter]
    by_cases hblank : isBlank c = true
    · rw [if_pos hblank, if_pos hblank]
    · rw [if_neg hblank, if_neg hblank, (h.resolve_left hletter).resolve_left hblank]

lemma degraded_cons (letters : LetterStyle) (c : Char) (rest : Text) :
    letters.degraded (c :: rest) =
      if isBlank c then letters.degraded rest
      else (if isLetter c then letters.letter c else c) :: letters.degraded rest := by
  by_cases hblank : isBlank c = true
  · simp [LetterStyle.degraded, hblank]
  · simp [LetterStyle.degraded, hblank]

lemma transform_of_startsNothing (h : StartsNothing T text) (hchars : ∀ c ∈ text, IsOrdinary c) :
    T.transform text = T.settings.letterStyle.degraded text := by
  have hord : ∀ t ∈ text.flatMap T.settings.letterStyle.literal, t.atom = .ord := by
    intro t ht
    obtain ⟨c, hc, ht⟩ := List.mem_flatMap.mp ht
    rw [literal_of_isOrdinary _ (hchars c hc)] at ht
    split at ht
    · cases ht
    · rw [List.mem_singleton.mp ht]
  rw [Typesetter.transform, tokenize_of_startsNothing h, Typesetter.setTokens,
    typeset_ordinary _ _ hord]
  clear h hord
  induction text with
  | nil => rfl
  | cons c rest ih =>
    obtain ⟨hc, hrest⟩ := List.forall_mem_cons.mp hchars
    rw [List.flatMap_cons, List.flatMap_append, ih hrest, literal_of_isOrdinary _ hc, degraded_cons]
    split <;> rfl

/-! ### Characters -/

/-- The character is set as it is written, and no control word can be made of it. -/
def isInert (c : Char) : Bool :=
  !isLetter c && !isBlank c && isPlain c && classify c = ⟨.ord, [c]⟩

lemma isInert_iff :
    isInert c = true ↔ isLetter c = false ∧ isBlank c = false ∧ isPlain c = true ∧
      classify c = ⟨.ord, [c]⟩ := by
  simp [isInert, and_assoc]

lemma isInert_of_isDigit (h : c.isDigit = true) : isInert c = true := by
  have hbounds := toNat_of_isDigit h
  exact forall_ascii (P := fun c => c.isDigit = true → isInert c = true) (by decide +kernel)
    (by omega) h

lemma isInert_letter (hstyle : letters ≠ .upright) (h : isLetter c = true) :
    isInert (letters.letter c) = true := by
  revert h
  refine forall_letter (P := fun c => isInert (letters.letter c) = true) ?_
  cases letters with
  | upright => exact absurd rfl hstyle
  | italic => decide +kernel
  | sansItalic => decide +kernel

/-! ### Unknown words -/

/-- Right after a backslash stands a control word that the registry does not know. -/
def goesOnUnknown (r : Registry) (text : Text) : Bool :=
  beginsWithLetter text && (r.lookup (text.takeWhile isLetter)).isNone

/-- Letters, digits, blanks, and control words that the registry does not know. -/
def onlyUnknownWords (r : Registry) : Text → Bool
  | [] => true
  | c :: rest =>
    (if c = '\\' then goesOnUnknown r rest else isLetter c || c.isDigit || isBlank c) &&
      onlyUnknownWords r rest

section Words

variable {r : Registry}

lemma start?_of_goesOnUnknown (h : goesOnUnknown T.registry rest = true) :
    T.start? '\\' rest = none := by
  rw [goesOnUnknown, Bool.and_eq_true, Option.isNone_iff_eq_none] at h
  obtain ⟨hletter, hlookup⟩ := h
  cases rest with
  | nil => cases hletter
  | cons c rest =>
    have hc : isLetter c = true := hletter
    rw [List.takeWhile_cons_of_pos hc] at hlookup
    simp [Typesetter.start?, controlName?, hc, hlookup]

/-- What the first character of a source can be. -/
lemma onlyUnknownWords_cons (h : onlyUnknownWords r (c :: rest) = true) :
    (c = '\\' ∧ goesOnUnknown r rest = true ∨ isBlank c = true ∨ isLetter c = true ∨
      isInert c = true) ∧ onlyUnknownWords r rest = true := by
  rw [onlyUnknownWords, Bool.and_eq_true] at h
  refine ⟨?_, h.2⟩
  by_cases hescape : c = '\\'
  · rw [if_pos hescape] at h
    exact Or.inl ⟨hescape, h.1⟩
  · rw [if_neg hescape, Bool.or_eq_true, Bool.or_eq_true] at h
    rcases h.1 with (hletter | hdigit) | hblank
    · exact Or.inr (Or.inr (Or.inl hletter))
    · exact Or.inr (Or.inr (Or.inr (isInert_of_isDigit hdigit)))
    · exact Or.inr (Or.inl hblank)

lemma isPlain_of_isLetter (h : isLetter c = true) : isPlain c = true :=
  forall_letter (P := fun c => isPlain c = true) (by decide +kernel) h

/-- In the source no backslash starts a macro, because the control word is unknown. -/
lemma startsNothing_source (h : onlyUnknownWords T.registry text = true) :
    StartsNothing T text ∧ ∀ c ∈ text, IsOrdinary c := by
  induction text with
  | nil => exact ⟨trivial, nofun⟩
  | cons c rest ih =>
    obtain ⟨hc, hrest⟩ := onlyUnknownWords_cons h
    obtain ⟨hstart, hchars⟩ := ih hrest
    have hfirst : T.start? c rest = none ∧ IsOrdinary c := by
      rcases hc with ⟨rfl, hunknown⟩ | hblank | hletter | hinert
      · exact ⟨start?_of_goesOnUnknown hunknown, Or.inr (Or.inr rfl)⟩
      · exact ⟨start?_of_isPlain T (isPlain_of_isBlank hblank) rest, Or.inr (Or.inl hblank)⟩
      · exact ⟨start?_of_isPlain T (isPlain_of_isLetter hletter) rest, Or.inl hletter⟩
      · obtain ⟨-, -, hplain, hclass⟩ := isInert_iff.mp hinert
        exact ⟨start?_of_isPlain T hplain rest, Or.inr (Or.inr hclass)⟩
    exact ⟨⟨hfirst.1, hstart⟩, List.forall_mem_cons.mpr ⟨hfirst.2, hchars⟩⟩

/-- In what is set no backslash starts a macro, because the styled letter after it has no name. -/
lemma start?_of_styled (hlookup : T.registry.lookup [c] = none) (hc : isLetter c = false)
    (rest : Text) : T.start? '\\' (c :: rest) = none := by
  simp [Typesetter.start?, controlName?, hc, hlookup]

lemma startsNothing_degraded (hstyle : T.settings.letterStyle ≠ .upright)
    (hregistry : ∀ c, isLetter c = true →
      T.registry.lookup [T.settings.letterStyle.letter c] = none)
    (h : onlyUnknownWords T.registry text = true) :
    StartsNothing T (T.settings.letterStyle.degraded text) ∧
      ∀ c ∈ T.settings.letterStyle.degraded text, c = '\\' ∨ isInert c = true := by
  induction text with
  | nil => exact ⟨trivial, nofun⟩
  | cons c rest ih =>
    obtain ⟨hc, hrest⟩ := onlyUnknownWords_cons h
    obtain ⟨hstart, hchars⟩ := ih hrest
    rw [degraded_cons]
    have hinert : ∀ c, isInert c = true →
        StartsNothing T (c :: T.settings.letterStyle.degraded rest) ∧
          ∀ d ∈ c :: T.settings.letterStyle.degraded rest, d = '\\' ∨ isInert d = true := by
      intro c hc
      have hplain := (isInert_iff.mp hc).2.2.1
      exact ⟨⟨start?_of_isPlain T hplain _, hstart⟩,
        List.forall_mem_cons.mpr ⟨Or.inr hc, hchars⟩⟩
    rcases hc with ⟨rfl, hunknown⟩ | hblank | hletter | hsame
    · have hword : T.start? '\\' (T.settings.letterStyle.degraded rest) = none := by
        obtain ⟨d, later, rfl, hd⟩ : ∃ d later, rest = d :: later ∧ isLetter d = true := by
          rw [goesOnUnknown, Bool.and_eq_true] at hunknown
          cases rest with
          | nil => cases hunknown.1
          | cons d later => exact ⟨d, later, rfl, hunknown.1⟩
        rw [degraded_cons, not_isBlank_of_isLetter hd, if_pos hd]
        exact start?_of_styled (hregistry d hd) (isInert_iff.mp (isInert_letter hstyle hd)).1 _
      exact ⟨⟨hword, hstart⟩, List.forall_mem_cons.mpr ⟨Or.inl rfl, hchars⟩⟩
    · rw [if_pos hblank]
      exact ⟨hstart, hchars⟩
    · rw [not_isBlank_of_isLetter hletter, if_pos hletter]
      exact hinert _ (isInert_letter hstyle hletter)
    · obtain ⟨hletter, hblank, -, -⟩ := isInert_iff.mp hsame
      rw [hblank, hletter]
      exact hinert c hsame

lemma degraded_eq_self (letters : LetterStyle) (h : ∀ c ∈ text, c = '\\' ∨ isInert c = true) :
    letters.degraded text = text := by
  induction text with
  | nil => rfl
  | cons c rest ih =>
    obtain ⟨hc, hrest⟩ := List.forall_mem_cons.mp h
    have hkept : isLetter c = false ∧ isBlank c = false := by
      rcases hc with rfl | hinert
      · decide
      · exact ⟨(isInert_iff.mp hinert).1, (isInert_iff.mp hinert).2.1⟩
    rw [degraded_cons, hkept.1, hkept.2, ih hrest]
    rfl

end Words

/-- A source of letters, digits, blanks and unknown control words is set without its blanks and with
each letter in the style of letters, those of the unknown words included. Setting that again changes
nothing, as long as no macro is named by a styled letter. -/
theorem unknown_words_set_once_and_for_all (T : Typesetter)
    (hstyle : T.settings.letterStyle ≠ .upright)
    (hregistry : ∀ c, isLetter c = true →
      T.registry.lookup [T.settings.letterStyle.letter c] = none)
    {source : Text} (hsource : onlyUnknownWords T.registry source = true) :
    T.transform source = T.settings.letterStyle.degraded source ∧
      T.transform (T.transform source) = T.transform source := by
  obtain ⟨hstart, hchars⟩ := startsNothing_source hsource
  obtain ⟨hstart', hchars'⟩ := startsNothing_degraded hstyle hregistry hsource
  have hordinary : ∀ c ∈ T.settings.letterStyle.degraded source, IsOrdinary c := by
    intro c hc
    rcases hchars' c hc with rfl | hinert
    · exact Or.inr (Or.inr rfl)
    · exact Or.inr (Or.inr (isInert_iff.mp hinert).2.2.2)
  have hset : T.transform source = T.settings.letterStyle.degraded source :=
    transform_of_startsNothing hstart hchars
  refine ⟨hset, ?_⟩
  rw [hset, transform_of_startsNothing hstart' hordinary, degraded_eq_self _ hchars']

/-- A known name goes on in an unknown one, and blanks end a word or follow one another. -/
theorem unknown_words_set_once_and_for_all_mub :
    let source := ['\\', 'm', 'u', 'b', ' ', '\t', '\\', 'h', '7', 'm', ' ', 'u']
    let set := ['\\', '𝑚', '𝑢', '𝑏', '\\', 'ℎ', '7', '𝑚', '𝑢']
    muOnly.settings.letterStyle ≠ .upright ∧
      (∀ c, isLetter c = true →
        muOnly.registry.lookup [muOnly.settings.letterStyle.letter c] = none) ∧
      onlyUnknownWords muOnly.registry source = true ∧
      muOnly.transform source = set ∧ muOnly.transform set = set := by
  intro source set
  have hregistry : ∀ c, isLetter c = true →
      muOnly.registry.lookup [muOnly.settings.letterStyle.letter c] = none :=
    fun c _ => by simp [muOnly, Registry.lookup, List.lookup_cons]
  have hsource : onlyUnknownWords muOnly.registry source = true := by decide
  have hset : muOnly.settings.letterStyle.degraded source = set := by decide
  obtain ⟨hfirst, hsecond⟩ :=
    unknown_words_set_once_and_for_all muOnly (by decide) hregistry hsource
  rw [hfirst, hset] at hsecond
  exact ⟨by decide, hregistry, hsource, hfirst.trans hset, hsecond⟩

end Proofs

end MathMarkup
