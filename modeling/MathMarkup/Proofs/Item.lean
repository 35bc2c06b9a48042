import MathMarkup.Assembly
import MathMarkup.Literal
import MathMarkup.Registry
import MathMarkup.Proofs.ArgumentSpans

/-!
# Well-nested markup

Markup that needs no scanning to be understood: a list of items, each a character, a control
sequence that stands for one token, a group of items, or a script with its argument. An item is
printed as markup, and it has a meaning by recursion on its structure alone.
-/

namespace MathMarkup.Proofs

inductive Trigger where
  | superscript
  | subscript
  deriving DecidableEq, Repr

def Trigger.char : Trigger → Char
  | .superscript => '^'
  | .subscript => '_'

def Trigger.table : Trigger → ScriptTable
  | .superscript => superscripts
  | .subscript => subscripts

inductive Item where
  | char (c : Char)
  | command (name : Text)
  | group (body : List Item)
  | script (trigger : Trigger) (blanks : Text) (argument : Item)

/-! ### Printing -/

mutual

def Item.print : Item → Text
  | .char c => [c]
  | .command name => '\\' :: name
  | .group body => '{' :: (printAll body ++ ['}'])
  | .script trigger blanks argument => trigger.char :: (blanks ++ argument.print)

def printAll : List Item → Text
  | [] => []
  | item :: items => item.print ++ printAll items

end

/-- The item ends in a control word, which a letter right after it would become part of. -/
def Item.endsInWord : Item → Bool
  | .command name => beginsWithLetter name
  | .script _ _ argument => argument.endsInWord
  | _ => false

def endsInWord (items : List Item) : Bool := items.getLast?.any Item.endsInWord

/-! ### Well-formed items -/

def isPlain (c : Char) : Bool := c ∉ ['\\', '^', '_', '{', '}']

def tokenOf? (r : Registry) (name : Text) : Option Token :=
  match r.lookup name with
  | some (.token token) => some token
  | _ => none

def Item.isArgument : Item → Bool
  | .char c => !isBlank c
  | .command _ => true
  | .group _ => true
  | .script _ _ _ => false

mutual

/-- The item is printed as markup that is read as this item: names are names of tokens and not
braces, and the argument of a script is one that a script can have. -/
def Item.wellFormed (r : Registry) : Item → Bool
  | .char c => isPlain c
  | .command name =>
    isControlName name && name != ['{'] && name != ['}'] && (tokenOf? r name).isSome
  | .group body => allWellFormed r body
  | .script _ blanks argument =>
    blanks.all isBlank && argument.isArgument && argument.wellFormed r

def allWellFormed (r : Registry) : List Item → Bool
  | [] => true
  | item :: items =>
    item.wellFormed r && !(item.endsInWord && beginsWithLetter (printAll items)) &&
      allWellFormed r items

end

/-! ### Meaning -/

section Meaning

variable (r : Registry) (letters : LetterStyle) (spaces : Spaces)

mutual

/-- The tokens of an item with a number of levels left, in a style. -/
def Item.denote : Item → Nat → Style → List Token
  | .char c, _, _ =>
    if isLetter c then [⟨.ord, [letters.letter c]⟩] else if isBlank c then [] else [classify c]
  | .command name, _, _ => (tokenOf? r name).toList
  | .group body, 0, style => ⟨.opening, ['{']⟩ :: (denoteAll body 0 style ++ [⟨.closing, ['}']⟩])
  | .group body, level + 1, style => [⟨.ord, typeset spaces style (denoteAll body level style)⟩]
  | .script trigger _ argument, 0, style =>
    ⟨.ord, [trigger.char]⟩ :: argument.denote 0 style
  | .script trigger _ (.group body), level + 1, _ =>
    [⟨.script, toScript trigger.table (typeset spaces .script (denoteAll body level .script))⟩]
  | .script trigger _ argument, level + 1, _ =>
    [⟨.script, toScript trigger.table (typeset spaces .script (argument.denote level .script))⟩]

def denoteAll : List Item → Nat → Style → List Token
  | [], _, _ => []
  | item :: items, level, style => item.denote level style ++ denoteAll items level style

end

end Meaning

/-! ### Printed items -/

lemma toNat_of_isLetter {c : Char} (h : isLetter c = true) :
    (65 ≤ c.toNat ∧ c.toNat ≤ 90) ∨ (97 ≤ c.toNat ∧ c.toNat ≤ 122) := by
  have hcases : (decide ('A'.val ≤ c.val ∧ c.val ≤ 'Z'.val) ||
      decide ('a'.val ≤ c.val) && decide (c.val ≤ 'z'.val)) = true := h
  simp only [Bool.or_eq_true, Bool.and_eq_true, decide_eq_true_eq, UInt32.le_iff_toNat_le]
    at hcases
  exact hcases

lemma not_isBlank_of_isLetter {c : Char} (h : isLetter c = true) : isBlank c = false := by
  have hbounds := toNat_of_isLetter h
  simp [isBlank, blankRanges]
  omega

lemma isPlain_of_isBlank {c : Char} (h : isBlank c = true) : isPlain c = true := by
  by_cases hc : c ∈ ['\\', '^', '_', '{', '}']
  · simp only [List.mem_cons, List.not_mem_nil, or_false] at hc
    rcases hc with rfl | rfl | rfl | rfl | rfl
    all_goals exact absurd h (by decide)
  · simpa [isPlain] using hc

lemma ne_of_isPlain {c : Char} (h : isPlain c = true) :
    c ≠ '\\' ∧ c ≠ '^' ∧ c ≠ '_' ∧ c ≠ '{' ∧ c ≠ '}' := by
  simpa [isPlain] using h

lemma neutral_of_isControlName {name : Text} (h : isControlName name = true) (hopen : name ≠ ['{'])
    (hclose : name ≠ ['}']) : Neutral name := by
  cases name with
  | nil => cases h
  | cons c name =>
    by_cases hc : isLetter c
    · have hall : ∀ d ∈ c :: name, isLetter d = true := by simpa [isControlName, hc] using h
      apply neutral_of_forall_mem
      intro d hd
      have hd := hall d hd
      constructor
      · rintro rfl
        cases hd
      · rintro rfl
        cases hd
    · have hnil : name = [] := by simpa [isControlName, hc] using h
      subst hnil
      exact neutral_singleton (by simpa using hopen) (by simpa using hclose)

lemma neutral_of_isBlank {blanks : Text} (h : ∀ c ∈ blanks, isBlank c = true) : Neutral blanks := by
  apply neutral_of_forall_mem
  intro c hc
  have hplain := ne_of_isPlain (isPlain_of_isBlank (h c hc))
  exact hplain.2.2.2

section Printed

variable {r : Registry}

lemma wellFormed_command {name : Text} (h : (Item.command name).wellFormed r = true) :
    isControlName name = true ∧ name ≠ ['{'] ∧ name ≠ ['}'] ∧
      ∃ token, r.lookup name = some (.token token) ∧ tokenOf? r name = some token := by
  simp only [Item.wellFormed, Bool.and_eq_true, bne_iff_ne, ne_eq, Option.isSome_iff_exists] at h
  obtain ⟨⟨⟨hname, hopen⟩, hclose⟩, token, htoken⟩ := h
  refine ⟨hname, hopen, hclose, token, ?_, htoken⟩
  unfold tokenOf? at htoken
  split at htoken
  · next found hlookup =>
    cases htoken
    exact hlookup
  · cases htoken

lemma wellFormed_script {trigger : Trigger} {blanks : Text} {argument : Item}
    (h : (Item.script trigger blanks argument).wellFormed r = true) :
    (∀ c ∈ blanks, isBlank c = true) ∧ argument.isArgument = true ∧
      argument.wellFormed r = true := by
  simp only [Item.wellFormed, Bool.and_eq_true, List.all_eq_true] at h
  exact ⟨h.1.1, h.1.2, h.2⟩

lemma allWellFormed_cons {item : Item} {items : List Item}
    (h : allWellFormed r (item :: items) = true) :
    item.wellFormed r = true ∧
      (item.endsInWord = true → beginsWithLetter (printAll items) = false) ∧
      allWellFormed r items = true := by
  simp only [allWellFormed, Bool.and_eq_true] at h
  refine ⟨h.1.1, ?_, h.2⟩
  intro hword
  simpa [hword] using h.1.2

mutual

theorem Item.neutral_print : ∀ item : Item, item.wellFormed r = true → Neutral item.print
  | .char c, h => by
    have hplain := ne_of_isPlain h
    exact neutral_singleton hplain.2.2.2.1 hplain.2.2.2.2
  | .command name, h => by
    obtain ⟨hname, hopen, hclose, -⟩ := wellFormed_command h
    have hescape : Neutral ['\\'] := neutral_singleton (by decide) (by decide)
    exact hescape.append (neutral_of_isControlName hname hopen hclose)
  | .group body, h => (neutral_printAll body h).group
  | .script trigger blanks argument, h => by
    obtain ⟨hblanks, -, hargument⟩ := wellFormed_script h
    have htrigger : Neutral [trigger.char] := by
      cases trigger with
      | superscript => exact neutral_singleton (by decide) (by decide)
      | subscript => exact neutral_singleton (by decide) (by decide)
    exact htrigger.append ((neutral_of_isBlank hblanks).append (argument.neutral_print hargument))

theorem neutral_printAll : ∀ items : List Item, allWellFormed r items = true →
    Neutral (printAll items)
  | [], _ => neutral_nil
  | item :: items, h => by
    obtain ⟨hitem, -, hitems⟩ := allWellFormed_cons h
    exact (item.neutral_print hitem).append (neutral_printAll items hitems)

end

lemma beginsWithLetter_printAll_append (item : Item) (items : List Item) (rest : Text) :
    beginsWithLetter (printAll (item :: items) ++ rest) =
      beginsWithLetter (printAll (item :: items)) := by
  cases item <;> rfl

lemma argumentLength?_print {argument : Item} (h : argument.wellFormed r = true)
    (hargument : argument.isArgument = true) {rest : Text}
    (hrest : argument.endsInWord = true → beginsWithLetter rest = false) :
    argumentLength? (argument.print ++ rest) = some argument.print.length := by
  cases argument with
  | char c =>
    have hplain := ne_of_isPlain h
    exact argumentLength?_char (by simpa [Item.isArgument] using hargument) hplain.2.2.2.1
      hplain.1 rest
  | command name => exact argumentLength?_command (wellFormed_command h).1 hrest
  | group body =>
    have hlength := argumentLength?_group (neutral_printAll body h) rest
    simpa [Item.print] using hlength
  | script trigger blanks argument => cases hargument

end Printed

end MathMarkup.Proofs
