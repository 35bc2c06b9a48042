import MathMarkup.Proofs.Ceilings
import MathMarkup.Proofs.PlainLetters
import MathMarkup.Proofs.Unspaced
import MathMarkup.Proofs.ItemExpansion

/-!
# Fonts within fonts

A font sees through the font that its argument is set in: each character of the argument is set on
its own, without spaces, and stands for the character that it was before. So the inner font does not
show if the outer one has a form for every character that the inner one has a form for. The upright
font, which only undoes fonts, sees through all of them.
-/

namespace MathMarkup

/-- The alphabet has a form for every character that the other one has a form for. -/
def Alphabet.Covers (a b : Alphabet) : Prop :=
  ∀ c styled, b.get? c = some styled → ∃ styled', a.get? c = some styled'

namespace Proofs

variable {F : GroupFinder} {hF : ExactFinder F} {s : ExpansionState F} {T : Typesetter}

/-! ### Alphabets -/

section Alphabets

variable {a b : Alphabet} {c styled : Char}

lemma mem_of_lookup {α β : Type} [BEq α] [LawfulBEq α] {k : α} {v : β} {l : List (α × β)}
    (h : l.lookup k = some v) : (k, v) ∈ l := by
  obtain ⟨before, after, rfl, -⟩ := List.lookup_eq_some_iff.mp h
  simp

/-- A character with a form is among the exceptions, a letter, or a digit. -/
lemma get?_cases (h : a.get? c = some styled) :
    (c, styled) ∈ a.exceptions ∨ isLetter c = true ∨ c.isDigit = true ∧ a.digit.isSome := by
  rw [Alphabet.get?] at h
  split at h
  · next hlookup =>
    obtain rfl := Option.some.inj h
    exact Or.inl (mem_of_lookup hlookup)
  · split at h
    · next hupper => exact Or.inr (Or.inl (Bool.or_eq_true_iff.mpr (Or.inl hupper)))
    · split at h
      · next hlower => exact Or.inr (Or.inl (Bool.or_eq_true_iff.mpr (Or.inr hlower)))
      · split at h
        · next hdigit =>
          obtain ⟨base, hbase, -⟩ := Option.map_eq_some_iff.mp h
          exact Or.inr (Or.inr ⟨hdigit, Option.isSome_of_eq_some hbase⟩)
        · cases h

lemma plain_of_get? (ha : a ∈ Alphabet.all) (h : a.get? c = some styled) : plain styled = c := by
  have hexceptions : ∀ a ∈ Alphabet.all, ∀ entry ∈ a.exceptions, plain entry.2 = entry.1 := by
    decide +kernel
  have hruns : ∀ a ∈ Alphabet.all, ∀ n < 128,
      (a.get? (Char.ofNat n)).all (fun styled => plain styled = Char.ofNat n) = true := by
    decide +kernel
  have hascii : c.toNat < 128 → plain styled = c := by
    intro hc
    have hrun := forall_ascii
      (P := fun c => (a.get? c).all (fun styled => plain styled = c) = true) (hruns a ha) hc
    simpa [h] using hrun
  rcases get?_cases h with hentry | hletter | ⟨hdigit, -⟩
  · exact hexceptions a ha _ hentry
  · have hbounds := toNat_of_isLetter hletter
    exact hascii (by omega)
  · have hbounds := toNat_of_isDigit hdigit
    exact hascii (by omega)

lemma get?_of_isDigit (ha : a.digit.isSome) (hc : c.isDigit = true) :
    ∃ styled, a.get? c = some styled := by
  obtain ⟨base, hbase⟩ := Option.isSome_iff_exists.mp ha
  rw [Alphabet.get?, hbase]
  split
  · exact ⟨_, rfl⟩
  · rw [if_pos hc]
    split
    · exact ⟨_, rfl⟩
    · split
      · exact ⟨_, rfl⟩
      · exact ⟨_, rfl⟩

lemma covers_of_digit (ha : a.digit.isSome)
    (hb : ∀ entry ∈ b.exceptions, isLetter entry.1 = true) : a.Covers b := by
  intro c styled h
  rcases get?_cases h with hentry | hletter | ⟨hdigit, -⟩
  · exact get?_of_isLetter a (hb _ hentry)
  · exact get?_of_isLetter a hletter
  · exact get?_of_isDigit ha hdigit

lemma plain_restyle (hb : b ∈ Alphabet.all) (c : Char) : plain (b.restyle c) = plain c := by
  rw [Alphabet.restyle]
  cases h : b.get? (plain c) with
  | none => rfl
  | some styled => exact plain_of_get? hb h

lemma restyle_restyle (hb : b ∈ Alphabet.all) (hcovers : a.Covers b) (c : Char) :
    a.restyle (b.restyle c) = a.restyle c := by
  have hplain := plain_restyle hb c
  unfold Alphabet.restyle at hplain ⊢
  rw [hplain]
  cases hform : b.get? (plain c) with
  | none => rfl
  | some styled =>
    obtain ⟨styled', hstyled'⟩ := hcovers _ _ hform
    rw [hstyled']
    rfl

end Alphabets

/-! ### Fonts as functions -/

/-- The name is that of a function that has its one argument set in the style around it. -/
structure SetsArgument (T : Typesetter) (name : String) (f : FunctionMacro)
    (make : Text → List Token) : Prop where
  unary : IsUnary f make
  style : f.style = .text
  control : isControlName name.toList = true
  neutral : Neutral (commandText name)
  lookup : T.registry.lookup name.toList = some (.function f)

namespace SetsArgument

variable {name : String} {f : FunctionMacro} {make : Text → List Token} {body : Text}

lemma neutral_group (h : SetsArgument T name f make) (hbody : Neutral body) :
    Neutral (commandText name ++ groupText body) :=
  h.neutral.append hbody.group

/-- The argument is expanded one level down, and nothing else happens before it. -/
lemma expandAll (h : SetsArgument T name f make) (hbody : Neutral body) (level : Nat)
    (hs : SoundMemory hF s) :
    ∃ found tokens s', SoundMemory hF found ∧ found.events = s.events ∧
      found.remaining = s.remaining ∧
      T.expandAll (T.levels F level) level .text body found = (tokens, s') ∧
      T.expandAll (T.levels F (level + 1)) (level + 1) .text
          (commandText name ++ groupText body) s =
        (make (typeset T.settings.spaces .text tokens),
          s'.record (.called (.command name.toList) [typeset T.settings.spaces .text tokens])) := by
  have hstart : T.start? '\\' (name.toList ++ '{' :: (body ++ ['}'])) = _ :=
    start?_command h.control h.lookup fun _ => rfl
  have hstyle : Style.max .text f.style = .text := by
    rw [h.style]
    rfl
  obtain ⟨hsound, hexpand⟩ := expandAll_unary_group level .text h.unary hbody hstart hs
  rw [hstyle] at hexpand
  exact ⟨_, _, _, hsound, rfl, rfl, rfl, hexpand⟩

end SetsArgument

def fontTokens (a : Alphabet) (text : Text) : List Token :=
  text.map fun c => ⟨.ord, [a.restyle c]⟩

lemma typeset_fontTokens (spaces : Spaces) (style : Style) (a : Alphabet) (text : Text) :
    typeset spaces style (fontTokens a text) = text.map a.restyle := by
  have hord : ∀ t ∈ fontTokens a text, t.atom = .ord := by
    intro t ht
    obtain ⟨c, -, rfl⟩ := List.mem_map.mp ht
    rfl
  rw [typeset_ordinary spaces style hord, fontTokens, List.flatMap_map, List.map_eq_flatMap]

def alphabetFonts : List (String × Alphabet) :=
  [("mathbf", .bold), ("mathsf", .sans), ("mathtt", .monospace), ("mathbb", .doubleStruck),
    ("mathfrak", .fraktur), ("mathcal", .calligraphic)]

lemma font_mem_fonts {font : String × Alphabet} (h : font ∈ alphabetFonts) :
    (font.1, Macro.function (.font font.2)) ∈ Standard.fonts := by
  simp only [alphabetFonts, List.mem_cons, List.not_mem_nil, or_false] at h
  rcases h with rfl | rfl | rfl | rfl | rfl | rfl
  all_goals simp [Standard.fonts]

/-- Every font, the upright one included, is such a function. -/
lemma setsArgument_font (hT : T.registry = .standard) {name : String} {f : FunctionMacro}
    {make : Text → List Token} (hmem : (name, Macro.function f) ∈ Standard.fonts)
    (hunary : IsUnary f make) (hstyle : f.style = .text) : SetsArgument T name f make where
  unary := hunary
  style := hstyle
  control := by
    have hnames : ∀ font ∈ Standard.fonts, isControlName font.1.toList = true := by decide
    exact hnames (name, .function f) hmem
  neutral := by
    have hnames : ∀ font ∈ Standard.fonts, ∀ c ∈ commandText font.1, c ≠ '{' ∧ c ≠ '}' := by
      simp [Standard.fonts, commandText]
    exact neutral_of_forall_mem (hnames (name, .function f) hmem)
  lookup := by
    have hfound := lookup_font hmem
    rwa [← hT] at hfound

lemma setsArgument_alphabet (hT : T.registry = .standard) {font : String × Alphabet}
    (h : font ∈ alphabetFonts) : SetsArgument T font.1 (.font font.2) (fontTokens font.2) :=
  setsArgument_font hT (font_mem_fonts h) ⟨rfl, rfl, fun _ => rfl⟩ rfl

lemma setsArgument_upright (hT : T.registry = .standard) :
    SetsArgument T "mathrm" .upright fun text => [⟨.ord, text.map plain⟩] :=
  setsArgument_font hT (by simp [Standard.fonts]) ⟨rfl, rfl, fun _ => rfl⟩ rfl

/-! ### Ceilings -/

/-- A run that reaches no ceiling is the same run with more levels. -/
lemma run_with_more_levels (T : Typesetter) (more : Nat) {source : Text}
    (hclear : ∀ event ∈ T.history source, event.reachesCeiling = false) :
    let other := T.withCeilings (T.settings.maxDepth + more) T.settings.maxExpansions
    other.tokenize source = T.tokenize source ∧ other.history source = T.history source := by
  intro other
  have halike := run_clearOfCeilings T exactRemembering exactRemembering more
    (Nat.le_refl T.settings.maxExpansions) source
  obtain ⟨hvalue, hevents, -⟩ := halike.of_clear fun event hmem =>
    Bool.eq_false_iff.mp (hclear event (List.mem_reverse.mpr hmem))
  exact ⟨hvalue.symm, congrArg List.reverse hevents.symm⟩

/-- Markup that reaches no ceiling is expanded one level up as it is. -/
lemma expandAll_one_level_up (level : Nat) (style : Style) (text : Text) {s t : ExpansionState F}
    (hevents : s.events = t.events) (hafford : Affords hF hF s t)
    (hclear : ∀ event ∈ (T.expandAll (T.levels F level) level style text s).2.events,
      event.reachesCeiling = false) :
    (T.expandAll (T.levels F level) level style text s).1 =
      (T.expandAll (T.levels F (level + 1)) (level + 1) style text t).1 := by
  have halike : (clearOfCeilings hF hF).Alike (T.expandAll (T.levels F level) level style text s)
      (T.expandAll (T.levels F (level + 1)) (level + 1) style text t) :=
    (readAlike_self T).expandAll (clearOfCeilings_spends hF hF)
      (fun style _ => clearOfCeilings_none T T hF hF 1 style) level trivial text
      ⟨hevents, hafford⟩
  exact (halike.of_clear fun event hmem => Bool.eq_false_iff.mp (hclear event hmem)).1

/-! ### One function in another -/

section Nested

variable {outer inner : String} {f g : FunctionMacro} {make make' : Text → List Token} {body : Text}

/-- The outer function sees through the inner one. -/
lemma tokenize_nested_of_levels {level : Nat} (hlevel : T.settings.maxDepth = level + 2)
    (houter : SetsArgument T outer f make) (hinner : SetsArgument T inner g make')
    (hthrough : ∀ text, make (typeset T.settings.spaces .text (make' text)) = make text)
    (hbody : Neutral body)
    (hclear : ∀ event ∈ T.history (commandText outer ++ groupText (commandText inner ++
      groupText body)), event.reachesCeiling = false) :
    T.tokenize (commandText outer ++ groupText (commandText inner ++ groupText body)) =
      T.tokenize (commandText outer ++ groupText body) := by
  have hs : SoundMemory exactRemembering (T.initialState .remembering) :=
    soundMemory_of_memories_nil exactRemembering rfl
  obtain ⟨s₁, tokens₁, u₁, hs₁, hevents₁, hremaining₁, hinner₁, hnested⟩ :=
    houter.expandAll (hinner.neutral_group hbody) (level + 1) hs
  obtain ⟨s₂, tokens₂, u₂, hs₂, hevents₂, hremaining₂, hbody₂, hinner₂⟩ :=
    hinner.expandAll hbody level hs₁
  obtain ⟨t, tokens, u, ht, hevents, hremaining, hbody', hdirect⟩ :=
    houter.expandAll hbody (level + 1) hs
  rw [hinner₂] at hinner₁
  obtain ⟨rfl, rfl⟩ := Prod.mk.inj hinner₁
  unfold Typesetter.history Typesetter.run at hclear
  rw [hlevel, hnested] at hclear
  have hlater : ∀ event ∈ u₂.events, event.reachesCeiling = false := by
    intro event hmem
    apply hclear
    simp [ExpansionState.history, ExpansionState.record, hmem]
  have hafford : Affords exactRemembering exactRemembering s₂ t :=
    ⟨by rw [hremaining, hremaining₂, hremaining₁], hs₂, ht⟩
  have hsame := expandAll_one_level_up level .text body
    (hevents₂.trans (hevents₁.trans hevents.symm)) hafford (by rwa [hbody₂])
  rw [hbody₂, hbody'] at hsame
  obtain rfl : tokens₂ = tokens := hsame
  unfold Typesetter.tokenize Typesetter.run
  rw [hlevel, hnested, hdirect]
  exact hthrough _

/-- With two more levels than there are the same is expanded, and the runs can be compared. -/
lemma tokenize_nested (houter : SetsArgument T outer f make) (hinner : SetsArgument T inner g make')
    (hthrough : ∀ text, make (typeset T.settings.spaces .text (make' text)) = make text)
    (hbody : Neutral body)
    (hclear : ∀ source ∈ [commandText outer ++ groupText (commandText inner ++ groupText body),
      commandText outer ++ groupText body], ∀ event ∈ T.history source,
        event.reachesCeiling = false) :
    T.tokenize (commandText outer ++ groupText (commandText inner ++ groupText body)) =
      T.tokenize (commandText outer ++ groupText body) := by
  simp only [List.forall_mem_cons, List.not_mem_nil, false_implies, implies_true, and_true]
    at hclear
  obtain ⟨hnested, hdirect⟩ := hclear
  let deeper := T.withCeilings (T.settings.maxDepth + 2) T.settings.maxExpansions
  have houter' : SetsArgument deeper outer f make := { houter with lookup := houter.lookup }
  have hinner' : SetsArgument deeper inner g make' := { hinner with lookup := hinner.lookup }
  obtain ⟨hsame, hhistory⟩ := run_with_more_levels T 2 hnested
  obtain ⟨hsame', -⟩ := run_with_more_levels T 2 hdirect
  rw [← hsame, ← hsame']
  refine tokenize_nested_of_levels rfl houter' hinner' hthrough hbody ?_
  rwa [hhistory]

end Nested

/-! ### The standard fonts -/

lemma mem_all_of_mem_alphabetFonts {font : String × Alphabet} (h : font ∈ alphabetFonts) :
    font.2 ∈ Alphabet.all := by
  have hall : ∀ font ∈ alphabetFonts, font.2 ∈ Alphabet.all := by decide
  exact hall font h

/-- The outermost font wins: a font for letters and digits sees through any font that has forms for
nothing else, and the upright font sees through every other one. Double-struck has forms for some
Greek letters too, which no other font has a form for. -/
theorem outermost_font_wins (settings : Settings) {outer inner : String}
    (hfonts : outer ∈ ["mathbf", "mathsf", "mathtt", "mathbb"] ∧
        inner ∈ ["mathbf", "mathsf", "mathtt", "mathfrak", "mathcal"] ∨
      outer = "mathrm" ∧
        inner ∈ ["mathbf", "mathsf", "mathtt", "mathbb", "mathfrak", "mathcal"])
    {body : Text} (hbody : IsBalanced body) :
    let T : Typesetter := ⟨.standard, settings⟩
    let nested := commandText outer ++ groupText (commandText inner ++ groupText body)
    let direct := commandText outer ++ groupText body
    (∀ source ∈ [nested, direct], ∀ event ∈ T.history source, event.reachesCeiling = false) →
      T.tokenize nested = T.tokenize direct ∧ T.transform nested = T.transform direct := by
  intro T nested direct hclear
  have hT : T.registry = .standard := by simp only [T]
  have htokens : T.tokenize nested = T.tokenize direct := by
    rcases hfonts with ⟨houter, hinner⟩ | ⟨rfl, hinner⟩
    · have hdigits : ∀ outer ∈ ["mathbf", "mathsf", "mathtt", "mathbb"],
          ∃ font ∈ alphabetFonts, font.1 = outer ∧ font.2.digit.isSome := by decide
      have hletters : ∀ inner ∈ ["mathbf", "mathsf", "mathtt", "mathfrak", "mathcal"],
          ∃ font ∈ alphabetFonts, font.1 = inner ∧
            ∀ entry ∈ font.2.exceptions, isLetter entry.1 = true := by decide
      obtain ⟨font, hfont, rfl, hdigit⟩ := hdigits outer houter
      obtain ⟨font', hfont', rfl, hletter⟩ := hletters inner hinner
      have hcovers := covers_of_digit hdigit hletter
      refine tokenize_nested (setsArgument_alphabet hT hfont) (setsArgument_alphabet hT hfont') ?_
        hbody.neutral hclear
      intro text
      rw [typeset_fontTokens]
      simp [fontTokens, restyle_restyle (mem_all_of_mem_alphabetFonts hfont') hcovers]
    · have halphabet : ∀ inner ∈ ["mathbf", "mathsf", "mathtt", "mathbb", "mathfrak", "mathcal"],
          ∃ font ∈ alphabetFonts, font.1 = inner := by decide
      obtain ⟨font, hfont, rfl⟩ := halphabet inner hinner
      refine tokenize_nested (setsArgument_upright hT) (setsArgument_alphabet hT hfont) ?_
        hbody.neutral hclear
      intro text
      rw [typeset_fontTokens]
      simp [plain_restyle (mem_all_of_mem_alphabetFonts hfont)]
  exact ⟨htokens, congrArg T.setTokens htokens⟩

/-- Whatever has happened before, the expansion itself reaches no ceiling. -/
def StaysClear (T : Typesetter) (hF : ExactFinder F) (level : Nat) (text : Text) : Prop :=
  ∀ s, SoundMemory hF s → (∀ event ∈ s.events, event.reachesCeiling = false) →
    ∀ event ∈ (T.expandAll (T.levels F level) level .text text s).2.events,
      event.reachesCeiling = false

lemma staysClear_char (level : Nat) {c : Char} (hc : isPlain c = true) :
    StaysClear T hF level [c] := by
  intro s hs hclear
  simpa only [Typesetter.expandAll, step_of_start?_none T (start?_of_isPlain T hc []),
    Typesetter.literal] using hclear

lemma SetsArgument.staysClear {name : String} {f : FunctionMacro} {make : Text → List Token}
    (h : SetsArgument T name f make) {body : Text} (hbody : Neutral body) {level : Nat}
    (hclear : StaysClear T hF level body) :
    StaysClear T hF (level + 1) (commandText name ++ groupText body) := by
  intro s hs hevents
  obtain ⟨found, tokens, s', hfound, hsame, -, hinner, hset⟩ := h.expandAll hbody level hs
  have hbefore := hclear found hfound (by rwa [hsame])
  rw [hinner] at hbefore
  rw [hset]
  exact List.forall_mem_cons.mpr ⟨rfl, hbefore⟩

/-- There are as many levels as the nested markup takes, and the argument is in a third font. -/
theorem outermost_font_wins_fraktur :
    let T : Typesetter := ⟨.standard, { maxDepth := 3, maxExpansions := 1 }⟩
    let body := commandText "mathbb" ++ groupText ['R']
    let nested := commandText "mathbf" ++ groupText (commandText "mathfrak" ++ groupText body)
    let direct := commandText "mathbf" ++ groupText body
    IsBalanced body ∧
      (∀ source ∈ [nested, direct], ∀ event ∈ T.history source, event.reachesCeiling = false) ∧
      T.tokenize nested = T.tokenize direct ∧ T.transform nested = T.transform direct := by
  intro T body nested direct
  have hT : T.registry = .standard := by simp only [T]
  have hbalanced : IsBalanced body := by decide
  have hfont : ∀ font ∈ alphabetFonts, SetsArgument T font.1 (.font font.2) (fontTokens font.2) :=
    fun _ => setsArgument_alphabet hT
  have hbold := hfont ("mathbf", .bold) (by simp [alphabetFonts])
  have hfraktur := hfont ("mathfrak", .fraktur) (by simp [alphabetFonts])
  have hdouble := hfont ("mathbb", .doubleStruck) (by simp [alphabetFonts])
  have hletter : Neutral ['R'] := neutral_singleton (by decide) (by decide)
  have hbody : ∀ level, StaysClear T exactRemembering (level + 1) body :=
    fun level => hdouble.staysClear hletter (staysClear_char level (by decide))
  have hclear : ∀ source ∈ [nested, direct], ∀ event ∈ T.history source,
      event.reachesCeiling = false := by
    have hrun : ∀ source, StaysClear T exactRemembering 3 source →
        ∀ event ∈ T.history source, event.reachesCeiling = false :=
      fun source hsource event hmem =>
        hsource _ (soundMemory_of_memories_nil exactRemembering rfl)
          (by simp [Typesetter.initialState]) event (List.mem_reverse.mp hmem)
    intro source hsource
    simp only [List.mem_cons, List.not_mem_nil, or_false] at hsource
    rcases hsource with rfl | rfl
    · exact hrun _ (hbold.staysClear (hfraktur.neutral_group hbalanced.neutral)
        (hfraktur.staysClear hbalanced.neutral (hbody 0)))
    · exact hrun _ (hbold.staysClear hbalanced.neutral (hbody 1))
  exact ⟨hbalanced, hclear,
    outermost_font_wins { maxDepth := 3, maxExpansions := 1 } (Or.inl ⟨by decide, by decide⟩)
      hbalanced hclear⟩

end Proofs

end MathMarkup
