import MathMarkup.Proofs.ArgumentSpans
import Mathlib.Order.Bounds.Basic

/-!
# Where any argument ends

From an offset on, the first character that is no blank decides what the argument is and where it
ends. There is none after the last such character, and none where a group is opened and not closed.
-/

namespace MathMarkup.Proofs

/-- The end of the argument that is scanned from an offset on. -/
def scannedEnd? (text : Text) (offset : Nat) : Option Nat :=
  (argumentEndAt? .counting text offset ()).1

def FirstNonBlank (text : Text) (offset p : Nat) : Prop :=
  IsLeast {p | offset ≤ p ∧ ∃ c, text[p]? = some c ∧ isBlank c = false} p

/-- A group reaches from the one position to the other: up to there, the braces are even for the
first time. -/
structure GroupSpan (text : Text) (p e : Nat) : Prop where
  nonempty : p < e
  inside : e ≤ text.length
  even : (text.extract p e).count '{' = (text.extract p e).count '}'
  opened : ∀ m, p < m → m < e → (text.extract p m).count '}' < (text.extract p m).count '{'

/-- What the argument that starts at a position is, and its end. -/
inductive ArgumentEndsAt (text : Text) (p : Nat) : Nat → Prop where
  | group {rest : Text} {e : Nat} (hdrop : text.drop p = '{' :: rest) (hspan : GroupSpan text p e) :
      ArgumentEndsAt text p e
  | word {c : Char} {rest : Text} (hdrop : text.drop p = '\\' :: c :: rest)
      (hletter : isLetter c = true) :
      ArgumentEndsAt text p (p + 1 + ((c :: rest).takeWhile isLetter).length)
  | symbol {c : Char} {rest : Text} (hdrop : text.drop p = '\\' :: c :: rest)
      (hletter : isLetter c = false) : ArgumentEndsAt text p (p + 2)
  | single {c : Char} {rest : Text} (hdrop : text.drop p = c :: rest) (hopen : c ≠ '{')
      (hescape : c = '\\' → rest = []) : ArgumentEndsAt text p (p + 1)

section

variable {text blanks rest : Text} {offset p e : Nat} {c : Char}

/-! ### The first character that is no blank -/

lemma firstNonBlank_of_drop (hdrop : text.drop offset = blanks ++ c :: rest)
    (hblanks : ∀ d ∈ blanks, isBlank d = true) (hc : isBlank c = false) :
    FirstNonBlank text offset (offset + blanks.length) := by
  refine ⟨⟨Nat.le_add_right _ _, c, ?_, hc⟩, ?_⟩
  · rw [← List.getElem?_drop, hdrop]
    simp
  · rintro q ⟨hq, d, hd, hblank⟩
    by_contra hlt
    have hinside : (blanks ++ c :: rest)[q - offset]? = blanks[q - offset]? :=
      List.getElem?_append_left (by omega)
    have hd : blanks[q - offset]? = some d := by
      rw [← hd, ← hinside, ← hdrop, List.getElem?_drop, Nat.add_sub_cancel' hq]
    rw [hblanks d (List.mem_of_getElem? hd)] at hblank
    cases hblank

lemma not_firstNonBlank_of_drop (h : ∀ d ∈ text.drop offset, isBlank d = true) :
    ¬FirstNonBlank text offset p := by
  rintro ⟨⟨hp, d, hd, hblank⟩, -⟩
  rw [← Nat.add_sub_cancel' hp, ← List.getElem?_drop] at hd
  rw [h d (List.mem_of_getElem? hd)] at hblank
  cases hblank

lemma scannedEnd?_eq (text : Text) (offset : Nat) :
    scannedEnd? text offset = (argumentLength? (text.drop offset)).map (offset + ·) := rfl

/-- Scanning from an offset is scanning from the first character that is no blank. -/
lemma scannedEnd?_cases (text : Text) (offset : Nat) :
    (scannedEnd? text offset = none ∧ ∀ p, ¬FirstNonBlank text offset p) ∨
      ∃ p c rest, FirstNonBlank text offset p ∧ text.drop p = c :: rest ∧ isBlank c = false ∧
        scannedEnd? text offset = (argumentLength? (c :: rest)).map (p + ·) := by
  obtain ⟨blanks, hblanks, hsplit⟩ := exists_blanks (text.drop offset)
  have hhead := beginsWithBlank_skipBlanks (text.drop offset)
  have hscan := scannedEnd?_eq text offset
  generalize Text.skipBlanks (text.drop offset) = body at hsplit hhead
  rw [hsplit, argumentLength?_blanks hblanks, Option.map_map] at hscan
  cases body with
  | nil =>
    rw [List.append_nil] at hsplit
    exact Or.inl ⟨hscan, fun p => not_firstNonBlank_of_drop (hsplit ▸ hblanks)⟩
  | cons c rest =>
    have hc : isBlank c = false := by simpa [beginsWithBlank] using hhead
    refine Or.inr ⟨offset + blanks.length, c, rest, firstNonBlank_of_drop hsplit hblanks hc, ?_,
      hc, ?_⟩
    · rw [← List.drop_drop, hsplit, List.drop_left]
    · rw [hscan]
      congr 1
      funext n
      exact (Nat.add_assoc offset blanks.length n).symm

/-! ### Groups -/

lemma GroupSpan.unique {e' : Nat} (h : GroupSpan text p e) (h' : GroupSpan text p e') : e = e' := by
  rcases Nat.lt_trichotomy e e' with hlt | heq | hlt
  · have := h'.opened e h.nonempty hlt
    have := h.even
    omega
  · exact heq
  · have := h.opened e' h'.nonempty hlt
    have := h'.even
    omega

lemma groupSpan_iff (hdrop : text.drop p = '{' :: rest) :
    GroupSpan text p e ↔ ∃ n, groupEndFrom? 1 rest = some n ∧ p + (n + 1) = e := by
  have hlength := congrArg List.length hdrop
  rw [List.length_drop, List.length_cons] at hlength
  have hextract : ∀ m, text.extract p (p + (m + 1)) = '{' :: rest.take m := by
    intro m
    rw [List.extract_eq_take_drop, hdrop, Nat.add_sub_cancel_left, List.take_succ_cons]
  constructor
  · intro h
    have hlt := h.nonempty
    obtain ⟨n, rfl⟩ : ∃ n, e = p + (n + 1) := ⟨e - p - 1, by omega⟩
    refine ⟨n, (groupEndFrom?_eq_some_iff (Int.le_refl 1) rest n).mpr ⟨?_, ?_, ?_⟩, rfl⟩
    · have := h.inside
      omega
    · have heven := h.even
      rw [hextract] at heven
      rw [Int.add_comm, ← braceExcess_open, braceExcess]
      omega
    · intro m hm
      have hopened := h.opened (p + (m + 1)) (by omega) (by omega)
      rw [hextract] at hopened
      rw [Int.add_comm, ← braceExcess_open, braceExcess]
      omega
  · rintro ⟨n, hn, rfl⟩
    obtain ⟨hle, hzero, hpos⟩ := (groupEndFrom?_eq_some_iff (Int.le_refl 1) rest n).mp hn
    refine ⟨by omega, by omega, ?_, ?_⟩
    · rw [Int.add_comm, ← braceExcess_open, braceExcess] at hzero
      rw [hextract]
      omega
    · intro m hpm hme
      obtain ⟨k, rfl⟩ : ∃ k, m = p + (k + 1) := ⟨m - p - 1, by omega⟩
      have hk := hpos k (by omega)
      rw [Int.add_comm, ← braceExcess_open, braceExcess] at hk
      rw [hextract]
      omega

/-! ### All arguments -/

lemma argumentLength?_word (h : isLetter c = true) (rest : Text) :
    argumentLength? ('\\' :: c :: rest) = some (1 + ((c :: rest).takeWhile isLetter).length) := by
  simp [argumentLength?, argumentEnd?, isBlank_backslash, controlName?, h]

lemma argumentLength?_symbol (h : isLetter c = false) (rest : Text) :
    argumentLength? ('\\' :: c :: rest) = some 2 := by
  simp [argumentLength?, argumentEnd?, isBlank_backslash, controlName?, h]

lemma ArgumentEndsAt.argumentLength?_eq (h : ArgumentEndsAt text p e)
    (hdrop : text.drop p = c :: rest) (hblank : isBlank c = false) :
    (argumentLength? (c :: rest)).map (p + ·) = some e := by
  rw [← hdrop]
  cases h with
  | group hdrop hspan =>
    obtain ⟨n, hn, rfl⟩ := (groupSpan_iff hdrop).mp hspan
    rw [hdrop, argumentLength?_open, hn]
    rfl
  | word hdrop hletter =>
    rw [hdrop, argumentLength?_word hletter, Option.map_some, Nat.add_assoc]
  | symbol hdrop hletter => rw [hdrop, argumentLength?_symbol hletter, Option.map_some]
  | @single d rest' hdrop' hopen hescape =>
    cases hdrop.symm.trans hdrop'
    rw [hdrop]
    by_cases hc : c = '\\'
    · rw [hc, hescape hc]
      rfl
    · rw [argumentLength?_char hblank hopen hc, Option.map_some]

lemma exists_argumentEndsAt (hdrop : text.drop p = c :: rest) (hopen : c ≠ '{') :
    ∃ e, ArgumentEndsAt text p e := by
  by_cases hescape : c = '\\'
  · subst hescape
    cases rest with
    | nil => exact ⟨_, .single hdrop hopen fun _ => rfl⟩
    | cons d rest =>
      cases hletter : isLetter d with
      | true => exact ⟨_, .word hdrop hletter⟩
      | false => exact ⟨_, .symbol hdrop hletter⟩
  · exact ⟨_, .single hdrop hopen fun h => absurd h hescape⟩

lemma argumentEndsAt_iff (hdrop : text.drop p = c :: rest) (hblank : isBlank c = false) :
    ArgumentEndsAt text p e ↔ (argumentLength? (c :: rest)).map (p + ·) = some e := by
  constructor
  · intro h
    exact h.argumentLength?_eq hdrop hblank
  · intro h
    by_cases hopen : c = '{'
    · subst hopen
      rw [argumentLength?_open, Option.map_map, Option.map_eq_some_iff] at h
      exact .group hdrop ((groupSpan_iff hdrop).mpr h)
    · obtain ⟨e', he'⟩ := exists_argumentEndsAt hdrop hopen
      have heq := he'.argumentLength?_eq hdrop hblank
      rw [heq] at h
      cases h
      exact he'

lemma ArgumentEndsAt.bounds (h : ArgumentEndsAt text p e) : p < e ∧ e ≤ text.length := by
  have hlength : ∀ {body : Text}, text.drop p = body → text.length - p = body.length := by
    rintro body rfl
    rw [List.length_drop]
  cases h with
  | group hdrop hspan => exact ⟨hspan.nonempty, hspan.inside⟩
  | @word c rest hdrop hletter =>
    have hl := hlength hdrop
    have hletters := (List.takeWhile_sublist (l := c :: rest) isLetter).length_le
    simp only [List.length_cons] at hl hletters
    omega
  | symbol hdrop hletter =>
    have hl := hlength hdrop
    simp only [List.length_cons] at hl
    omega
  | single hdrop hopen hescape =>
    have hl := hlength hdrop
    simp only [List.length_cons] at hl
    omega

lemma scannedEnd?_eq_some_iff :
    scannedEnd? text offset = some e ↔
      ∃ p, FirstNonBlank text offset p ∧ ArgumentEndsAt text p e := by
  rcases scannedEnd?_cases text offset with ⟨hnone, hfirst⟩ | ⟨p, c, rest, hp, hdrop, hc, hscan⟩
  · rw [hnone]
    refine iff_of_false nofun ?_
    rintro ⟨p, hp, -⟩
    exact hfirst p hp
  · rw [hscan, ← argumentEndsAt_iff hdrop hc]
    constructor
    · intro h
      exact ⟨p, hp, h⟩
    · rintro ⟨q, hq, h⟩
      rwa [hp.unique hq]

lemma scannedEnd?_eq_none_iff :
    scannedEnd? text offset = none ↔
      (¬∃ p, FirstNonBlank text offset p) ∨
        ∃ p, FirstNonBlank text offset p ∧ text[p]? = some '{' ∧ ¬∃ e, GroupSpan text p e := by
  rcases scannedEnd?_cases text offset with ⟨hnone, hfirst⟩ | ⟨p, c, rest, hp, hdrop, hc, hscan⟩
  · exact iff_of_true hnone (Or.inl fun ⟨p, hp⟩ => hfirst p hp)
  have hhead : text[p]? = some c := by rw [← List.head?_drop, hdrop, List.head?_cons]
  constructor
  · intro hnone
    have hends : ∀ e, ¬ArgumentEndsAt text p e := by
      intro e he
      rw [scannedEnd?_eq_some_iff.mpr ⟨p, hp, he⟩] at hnone
      cases hnone
    have hopen : c = '{' := by
      by_contra hopen
      obtain ⟨e, he⟩ := exists_argumentEndsAt hdrop hopen
      exact hends e he
    subst hopen
    exact Or.inr ⟨p, hp, hhead, fun ⟨e, hspan⟩ => hends e (.group hdrop hspan)⟩
  · rintro (hnone | ⟨q, hq, hopen, hspan⟩)
    · exact absurd ⟨p, hp⟩ hnone
    · obtain rfl : p = q := hp.unique hq
      obtain rfl : c = '{' := Option.some.inj (hhead.symm.trans hopen)
      rw [hscan, Option.eq_none_iff_forall_ne_some]
      intro e he
      rw [argumentLength?_open, Option.map_map, Option.map_eq_some_iff] at he
      exact hspan ⟨e, (groupSpan_iff hdrop).mpr he⟩

lemma scannedEnd?_min (text : Text) (offset : Nat) :
    scannedEnd? text offset = scannedEnd? text (min offset text.length) := by
  rcases Nat.le_total offset text.length with hle | hle
  · rw [Nat.min_eq_left hle]
  · rw [Nat.min_eq_right hle, scannedEnd?_eq, scannedEnd?_eq, List.drop_of_length_le hle,
      List.drop_length]
    rfl

lemma scannedEnd?_append (before text : Text) :
    scannedEnd? (before ++ text) before.length = (scannedEnd? text 0).map (before.length + ·) := by
  rw [scannedEnd?_eq, scannedEnd?_eq, List.drop_left, List.drop_zero, Option.map_map]
  congr 1
  funext n
  simp

end

/-- The first character that is no blank decides whether there is an argument and where it ends.
The end lies after the offset and inside the text, an offset beyond the text is as good as its end,
and what stands before the offset does not matter. -/
theorem scannedEnd?_decided_by_first_character (text : Text) (offset : Nat) :
    (scannedEnd? text offset = none ↔
      (¬∃ p, FirstNonBlank text offset p) ∨
        ∃ p, FirstNonBlank text offset p ∧ text[p]? = some '{' ∧ ¬∃ e, GroupSpan text p e) ∧
    (∀ e, scannedEnd? text offset = some e ↔
      ∃ p, FirstNonBlank text offset p ∧ ArgumentEndsAt text p e) ∧
    (∀ p e e', GroupSpan text p e → GroupSpan text p e' → e = e') ∧
    (∀ e ∈ scannedEnd? text offset, offset < e ∧ e ≤ text.length) ∧
    scannedEnd? text offset = scannedEnd? text (min offset text.length) ∧
    ∀ before, scannedEnd? (before ++ text) before.length =
      (scannedEnd? text 0).map (before.length + ·) := by
  refine ⟨scannedEnd?_eq_none_iff, fun e => scannedEnd?_eq_some_iff, ?_, ?_, ?_, ?_⟩
  · intro p e e' h h'
    exact h.unique h'
  · intro e he
    obtain ⟨p, hp, hends⟩ := scannedEnd?_eq_some_iff.mp he
    have hoffset : offset ≤ p := hp.1.1
    have hbounds := hends.bounds
    omega
  · exact scannedEnd?_min text offset
  · intro before
    exact scannedEnd?_append before text

end MathMarkup.Proofs
