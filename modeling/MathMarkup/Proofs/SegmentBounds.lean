import MathMarkup.Segment
import MathMarkup.Proofs.ArgumentSpans
import Mathlib.Order.Bounds.Basic

/-!
# Where the segment of a text lies

Openers and closers are told by their positions. A text has a segment if a closer comes after an
opener. The segment ends at the last closer, and it begins at the last opener that has a closer
after it. Between the two is markup, after the blanks that separate it from the opener.
-/

namespace MathMarkup.Proofs

/-- An opener stands at the position, and a character that is no letter follows it. -/
def OpensAt (text : Text) (i : Nat) : Prop :=
  text.extract i (i + 5) = "\\math".toList ∧ ∃ c, text[i + 5]? = some c ∧ isLetter c = false

def ClosesAt (text : Text) (j : Nat) : Prop := text.extract j (j + 8) = "\\endmath".toList

structure Encloses (text : Text) (i j : Nat) : Prop where
  opens : OpensAt text i
  closes : ClosesAt text j
  ordered : i + 5 ≤ j

/-- The end of the longest run of blanks from a position on. -/
def blanksEnd (text : Text) (position : Nat) : Nat :=
  position + ((text.drop position).takeWhile isBlank).length

/-- The segment reaches from the last opener with a closer after it to the last closer. -/
structure LiesBetween (text : Text) (segment : Segment) (i j : Nat) : Prop where
  opener : IsGreatest {i | ∃ j, Encloses text i j} i
  closer : IsGreatest {j | ClosesAt text j} j
  before_eq : segment.before = text.take i
  math_eq : segment.math = text.extract (blanksEnd text (i + 5)) j
  after_eq : segment.after = text.drop (j + 8)

/-! ### Last positions -/

section LastPosition

variable {P : Text → Prop} {c : Char} {rest : Text}

lemma isGreatest_drop_succ {i : Nat} (h : IsGreatest {i | P (rest.drop i)} i) :
    IsGreatest {i | P ((c :: rest).drop i)} (i + 1) := by
  refine ⟨h.1, ?_⟩
  intro k hk
  cases k with
  | zero => exact Nat.zero_le _
  | succ k => exact Nat.succ_le_succ (h.2 hk)

lemma isGreatest_drop_zero (hhead : P (c :: rest)) (hrest : ∀ i, ¬P (rest.drop i)) :
    IsGreatest {i | P ((c :: rest).drop i)} 0 := by
  refine ⟨hhead, ?_⟩
  intro k hk
  cases k with
  | zero => exact Nat.le_refl 0
  | succ k => exact absurd hk (hrest k)

lemma not_drop_cons (hhead : ¬P (c :: rest)) (hrest : ∀ i, ¬P (rest.drop i)) :
    ∀ i, ¬P ((c :: rest).drop i)
  | 0 => hhead
  | i + 1 => hrest i

end LastPosition

/-! ### Closers -/

lemma closesAt_iff {text : Text} {j : Nat} : ClosesAt text j ↔ segmentCloser <+: text.drop j := by
  rw [ClosesAt, List.extract_eq_take_drop, Nat.add_sub_cancel_left, List.prefix_iff_eq_take]
  exact eq_comm

lemma not_closes_of_splitCloser? {text : Text} (h : splitCloser? text = none) :
    ∀ j, ¬segmentCloser <+: text.drop j := by
  induction text with
  | nil =>
    intro j
    rw [List.drop_nil]
    decide
  | cons c rest ih =>
    rw [splitCloser?] at h
    split at h
    · cases h
    · next hrest =>
      have hhead : ¬segmentCloser <+: c :: rest := by
        rintro ⟨after, hafter⟩
        rw [List.isPrefixOf?_eq_some_iff_append_eq.mpr hafter] at h
        cases h
      exact not_drop_cons hhead (ih hrest)

lemma splitCloser?_last {text before after : Text}
    (h : splitCloser? text = some (before, after)) :
    text = before ++ (segmentCloser ++ after) ∧
      IsGreatest {j | segmentCloser <+: text.drop j} before.length := by
  induction text generalizing before with
  | nil => cases h
  | cons c rest ih =>
    rw [splitCloser?] at h
    split at h
    · next hrest =>
      cases h
      obtain ⟨htext, hlast⟩ := ih hrest
      exact ⟨congrArg (c :: ·) htext, isGreatest_drop_succ hlast⟩
    · next hrest =>
      obtain ⟨after', hword, heq⟩ := Option.map_eq_some_iff.mp h
      cases heq
      have htext := List.isPrefixOf?_eq_some_iff_append_eq.mp hword
      exact ⟨htext.symm,
        isGreatest_drop_zero ⟨after, htext⟩ (not_closes_of_splitCloser? hrest)⟩

/-! ### Openers -/

/-- The text starts with an opener. If it ends right after that, a closer follows it. -/
def Opens (text : Text) : Prop :=
  ∃ body, segmentOpener ++ body = text ∧ beginsWithLetter body = false

lemma not_opens_of_splitOpener? {text : Text} (h : splitOpener? text = none) :
    ∀ i, ¬Opens (text.drop i) := by
  induction text with
  | nil =>
    intro i
    rw [List.drop_nil]
    rintro ⟨body, hbody, -⟩
    cases hbody
  | cons c rest ih =>
    rw [splitOpener?] at h
    split at h
    · cases h
    · next hrest =>
      have hhead : ¬Opens (c :: rest) := by
        rintro ⟨body, hbody, hletter⟩
        have hletter : body.head?.any isLetter = false := hletter
        rw [List.isPrefixOf?_eq_some_iff_append_eq.mpr hbody] at h
        dsimp only at h
        rw [hletter] at h
        cases h
      exact not_drop_cons hhead (ih hrest)

lemma splitOpener?_last {text before math : Text}
    (h : splitOpener? text = some (before, math)) :
    (∃ body, text = before ++ (segmentOpener ++ body) ∧ math = body.skipBlanks) ∧
      IsGreatest {i | Opens (text.drop i)} before.length := by
  induction text generalizing before with
  | nil => cases h
  | cons c rest ih =>
    rw [splitOpener?] at h
    split at h
    · next hrest =>
      cases h
      obtain ⟨⟨body, htext, hmath⟩, hlast⟩ := ih hrest
      exact ⟨⟨body, congrArg (c :: ·) htext, hmath⟩, isGreatest_drop_succ hlast⟩
    · next hrest =>
      split at h
      · next body hword =>
        split at h
        · cases h
        · next hletter =>
          cases h
          have htext := List.isPrefixOf?_eq_some_iff_append_eq.mp hword
          have hopens : Opens (c :: rest) := ⟨body, htext, Bool.eq_false_iff.mpr hletter⟩
          exact ⟨⟨body, htext.symm, rfl⟩,
            isGreatest_drop_zero hopens (not_opens_of_splitOpener? hrest)⟩
      · cases h

lemma opensAt_append {opened tail : Text} {i : Nat} (hi : i + 5 ≤ opened.length)
    (htail : ∃ c, tail.head? = some c ∧ isLetter c = false) :
    OpensAt (opened ++ tail) i ↔ Opens (opened.drop i) := by
  have hword : (opened ++ tail).extract i (i + 5) = (opened.drop i).take 5 := by
    rw [List.extract_eq_take_drop, Nat.add_sub_cancel_left,
      List.drop_append_of_le_length (by omega), List.take_append_of_le_length (by simp; omega)]
  have hnext : (opened ++ tail)[i + 5]? = (opened.drop (i + 5) ++ tail).head? := by
    rw [← List.drop_append_of_le_length hi, List.head?_drop]
  rw [OpensAt, hword, hnext]
  constructor
  · rintro ⟨hopener, c, hc, hletter⟩
    have hopener : (opened.drop i).take 5 = segmentOpener := hopener
    refine ⟨opened.drop (i + 5), ?_, ?_⟩
    · rw [← hopener, ← List.drop_drop, List.take_append_drop]
    · cases hbody : opened.drop (i + 5) with
      | nil => rfl
      | cons d body =>
        rw [hbody] at hc
        cases hc
        exact hletter
  · rintro ⟨body, hbody, hletter⟩
    have hdrop : opened.drop (i + 5) = body := by
      rw [← List.drop_drop, ← hbody]
      rfl
    rw [hdrop, ← hbody]
    refine ⟨rfl, ?_⟩
    cases body with
    | nil => exact htail
    | cons d body => exact ⟨d, rfl, hletter⟩

/-- Before the last closer, an opener at the end of the text counts: the closer follows it. -/
lemma exists_encloses_iff {text opened after : Text}
    (htext : text = opened ++ (segmentCloser ++ after))
    (hlast : IsGreatest {j | ClosesAt text j} opened.length) (i : Nat) :
    (∃ j, Encloses text i j) ↔ Opens (opened.drop i) := by
  have htail : ∃ c, (segmentCloser ++ after).head? = some c ∧ isLetter c = false :=
    ⟨'\\', rfl, by decide⟩
  constructor
  · rintro ⟨j, hopens, hcloses, hordered⟩
    have hj : j ≤ opened.length := hlast.2 hcloses
    rw [htext] at hopens
    exact (opensAt_append (by omega) htail).mp hopens
  · intro hopens
    obtain ⟨body, hbody, -⟩ := id hopens
    have hlength := congrArg List.length hbody
    rw [List.length_append, List.length_drop] at hlength
    have hi : i + 5 ≤ opened.length := by
      have : segmentOpener.length = 5 := rfl
      omega
    refine ⟨opened.length, ?_, hlast.1, hi⟩
    rw [htext]
    exact (opensAt_append hi htail).mpr hopens

lemma not_encloses_of_findSegment? {text : Text} (h : findSegment? text = none) :
    ¬∃ i j, Encloses text i j := by
  rintro ⟨i, j, hencloses⟩
  rw [findSegment?] at h
  split at h
  · next hclosers =>
    exact not_closes_of_splitCloser? hclosers j (closesAt_iff.mp hencloses.closes)
  · next opened after hclosers =>
    split at h
    · next hopeners =>
      obtain ⟨htext, hlast⟩ := splitCloser?_last hclosers
      simp only [← closesAt_iff] at hlast
      exact not_opens_of_splitOpener? hopeners i
        ((exists_encloses_iff htext hlast i).mp ⟨j, hencloses⟩)
    · cases h

lemma blanksEnd_append {before blanks rest : Text} (hblanks : ∀ c ∈ blanks, isBlank c = true)
    (hrest : beginsWithBlank rest = false) :
    blanksEnd (before ++ (blanks ++ rest)) before.length = (before ++ blanks).length := by
  rw [blanksEnd, List.drop_left, List.takeWhile_append_of_pos hblanks,
    takeWhile_isBlank_eq_nil hrest, List.append_nil, List.length_append]

lemma liesBetween_of_findSegment? {text : Text} {segment : Segment}
    (h : findSegment? text = some segment) :
    ∃ i j blanks, LiesBetween text segment i j ∧ (∀ c ∈ blanks, isBlank c = true) ∧
      text = segment.before ++ (segmentOpener ++ (blanks ++ (segment.math ++
        (segmentCloser ++ segment.after)))) ∧
      beginsWithBlank segment.math = false := by
  rw [findSegment?] at h
  split at h
  · cases h
  next opened after hclosers =>
  split at h
  · cases h
  next before math hopeners =>
  cases h
  obtain ⟨htext, hlast⟩ := splitCloser?_last hclosers
  simp only [← closesAt_iff] at hlast
  obtain ⟨⟨body, hopened, rfl⟩, hfirst⟩ := splitOpener?_last hopeners
  simp only [← exists_encloses_iff htext hlast] at hfirst
  obtain ⟨blanks, hblanks, hbody⟩ := exists_blanks body
  have hhead := beginsWithBlank_skipBlanks body
  generalize body.skipBlanks = math at hbody hhead
  subst hbody
  have hspan :
      text = before ++ (segmentOpener ++ (blanks ++ (math ++ (segmentCloser ++ after)))) := by
    rw [htext, hopened]
    simp only [List.append_assoc]
  refine ⟨before.length, opened.length, blanks, ⟨hfirst, hlast, ?_, ?_, ?_⟩, hblanks, hspan, hhead⟩
  · rw [hspan, List.take_left]
  · have hrest : beginsWithBlank (math ++ (segmentCloser ++ after)) = false := by
      cases math with
      | nil => rfl
      | cons c math => exact hhead
    have hstart : before.length + 5 = (before ++ segmentOpener).length := by
      rw [List.length_append]
      rfl
    have hblanksEnd :
        blanksEnd text (before.length + 5) = (before ++ segmentOpener ++ blanks).length := by
      rw [hstart, hspan, ← List.append_assoc before, blanksEnd_append hblanks hrest]
    have hclose : opened.length = (before ++ segmentOpener ++ blanks ++ math).length := by
      rw [hopened]
      simp only [List.append_assoc]
    have hmath :
        text = before ++ segmentOpener ++ blanks ++ (math ++ (segmentCloser ++ after)) := by
      rw [hspan]
      simp only [List.append_assoc]
    rw [hblanksEnd, hclose, hmath, extract_append]
  · have hend : opened.length + 8 = (opened ++ segmentCloser).length := by
      rw [List.length_append]
      rfl
    rw [hend, htext, ← List.append_assoc, List.drop_left]

lemma LiesBetween.not_closes_after {text : Text} {segment : Segment} {i j : Nat}
    (h : LiesBetween text segment i j) (k : Nat) : ¬ClosesAt segment.after k := by
  intro hcloses
  rw [closesAt_iff, h.after_eq, List.drop_drop, ← closesAt_iff] at hcloses
  have : j + 8 + k ≤ j := h.closer.2 hcloses
  omega

/-- A text has a segment if a closer comes after an opener. The segment is what stands between the
last such opener and the last closer, without the blanks at its start, and nothing else of the text
is changed. -/
theorem segment_from_last_opener_to_last_closer (T : Typesetter) (text : Text) :
    (findSegment? text = none ↔ ¬∃ i j, Encloses text i j) ∧
      match findSegment? text with
      | none => T.transformSegment text = text
      | some segment =>
        (∃ i j blanks, LiesBetween text segment i j ∧ (∀ c ∈ blanks, isBlank c = true) ∧
          text = segment.before ++ (segmentOpener ++ (blanks ++ (segment.math ++
            (segmentCloser ++ segment.after))))) ∧
        beginsWithBlank segment.math = false ∧
        (∀ j, ¬ClosesAt segment.after j) ∧
        T.transformSegment text = segment.before ++ T.transform segment.math ++ segment.after := by
  cases hfind : findSegment? text with
  | none =>
    refine ⟨iff_of_true rfl (not_encloses_of_findSegment? hfind), ?_⟩
    simp only [Typesetter.transformSegment, hfind]
  | some segment =>
    obtain ⟨i, j, blanks, hlies, hblanks, htext, hhead⟩ := liesBetween_of_findSegment? hfind
    have hencloses : ∃ i j, Encloses text i j := ⟨i, hlies.opener.1⟩
    refine ⟨iff_of_false nofun (not_not_intro hencloses), ⟨i, j, blanks, hlies, hblanks, htext⟩,
      hhead, hlies.not_closes_after, ?_⟩
    simp only [Typesetter.transformSegment, hfind]

/-- A letter after the word makes it a longer one, which opens nothing. -/
example : findSegment? "\\math a\\endmath\\math \\mathbb b\\endmath c".toList =
    some ⟨"\\math a\\endmath".toList, "\\mathbb b".toList, " c".toList⟩ := by decide

end MathMarkup.Proofs
