import MathMarkup.Assembly
import Mathlib.Tactic.Lemma

/-!
# Assembly of changed characters

Assembly moves characters and sets spaces between them, and never looks at what they are. So it
makes no difference whether characters are changed one by one before it or after it, as long as the
placeholder under a last accent is left alone.
-/

namespace MathMarkup

def Token.mapText (f : Char → Char) (t : Token) : Token := { t with text := t.text.map f }

def Spaces.mapText (f : Char → Char) (spaces : Spaces) : Spaces :=
  ⟨spaces.thin.map f, spaces.medium.map f, spaces.thick.map f⟩

namespace Proofs

variable {f : Char → Char}

@[simp] lemma atom_mapText (f : Char → Char) (t : Token) : (t.mapText f).atom = t.atom := rfl

@[simp] lemma text_mapText (f : Char → Char) (t : Token) : (t.mapText f).text = t.text.map f := rfl

lemma mapText_asOrd (f : Char → Char) (t : Token) : t.asOrd.mapText f = (t.mapText f).asOrd := rfl

lemma mapText_append (f : Char → Char) (t : Token) (script : Text) :
    (t.append script).mapText f = (t.mapText f).append (script.map f) := by
  simp [Token.mapText, Token.append]

lemma mapText_mark (f : Char → Char) (t : Token) (marks : Text) :
    (t.mark marks).mapText f = (t.mapText f).mark (marks.map f) := by
  simp [Token.mapText, Token.mark, List.map_take]

/-! ### The passes -/

lemma withPlaceholder_map (hf : accentPlaceholder.mapText f = accentPlaceholder)
    (tokens : List Token) :
    withPlaceholder (tokens.map (Token.mapText f)) =
      (withPlaceholder tokens).map (Token.mapText f) := by
  unfold withPlaceholder
  rw [List.getLast?_map]
  cases tokens.getLast? with
  | none => rfl
  | some last =>
    change (if last.atom = .accent then _ else _) =
      List.map _ (if last.atom = .accent then _ else _)
    split
    · rw [List.map_append, List.map_singleton, hf]
    · rfl

lemma stackAccents_map (marks : Text) (tokens : List Token) :
    stackAccents (marks.map f) (tokens.map (Token.mapText f)) =
      (stackAccents marks tokens).map (Token.mapText f) := by
  induction tokens generalizing marks with
  | nil => rfl
  | cons t ts ih =>
    rw [List.map_cons, stackAccents, stackAccents]
    change (if t.atom = .accent then _ else _) = _
    split
    · rw [text_mapText, ← List.map_append, ih]
    · have hrest := ih []
      rw [List.map_nil] at hrest
      rw [hrest, List.map_cons, mapText_mark]

lemma ordinaryLead_map (tokens : List Token) :
    ordinaryLead (tokens.map (Token.mapText f)) = (ordinaryLead tokens).map (Token.mapText f) := by
  cases tokens with
  | nil => rfl
  | cons t ts =>
    change (if t.atom = .script ∨ t.atom = .bin then _ else _) :: _ = _
    rw [ordinaryLead, List.map_cons, apply_ite (Token.mapText f), mapText_asOrd]

lemma attachScripts?_map (done tokens : List Token) :
    attachScripts? (done.map (Token.mapText f)) (tokens.map (Token.mapText f)) =
      (attachScripts? done tokens).map (List.map (Token.mapText f)) := by
  induction tokens generalizing done with
  | nil => simp [attachScripts?]
  | cons t ts ih =>
    rw [List.map_cons, attachScripts?.eq_def, attachScripts?.eq_def done]
    dsimp only
    by_cases hscript : t.atom = .script
    · have hscript' : (t.mapText f).atom = .script := hscript
      rw [if_pos hscript, if_pos hscript']
      cases done with
      | nil => rfl
      | cons base before =>
        have hnext := ih (base.append t.text :: before)
        rw [List.map_cons, mapText_append] at hnext
        exact hnext
    · have hscript' : (t.mapText f).atom ≠ .script := hscript
      rw [if_neg hscript, if_neg hscript']
      exact ih (t :: done)

lemma foldScripts_map (tokens : List Token) :
    foldScripts (tokens.map (Token.mapText f)) = (foldScripts tokens).map (Token.mapText f) := by
  have hattached := attachScripts?_map (f := f) [] (ordinaryLead tokens)
  rw [← ordinaryLead_map, List.map_nil, attachScripts?_ordinaryLead, attachScripts?_ordinaryLead]
    at hattached
  exact Option.some.inj hattached

lemma settleLatest_map (done : List Token) :
    settleLatest (done.map (Token.mapText f)) = (settleLatest done).map (Token.mapText f) := by
  cases done with
  | nil => rfl
  | cons t before =>
    change (if t.atom = .bin then _ else _) :: _ = _
    rw [settleLatest, List.map_cons, apply_ite (Token.mapText f), mapText_asOrd]

lemma coerceBins_map (done tokens : List Token) :
    coerceBins (done.map (Token.mapText f)) (tokens.map (Token.mapText f)) =
      (coerceBins done tokens).map (Token.mapText f) := by
  induction tokens generalizing done with
  | nil => rw [List.map_nil, coerceBins, coerceBins, settleLatest_map, List.map_reverse]
  | cons t ts ih =>
    have hleft : (done.map (Token.mapText f)).head?.any (fun left => left.atom.isOperand) =
        done.head?.any fun left => left.atom.isOperand := by
      cases done <;> rfl
    rw [List.map_cons, coerceBins, coerceBins]
    by_cases hbin : t.atom = .bin ∧ ¬(done.head?.any fun left => left.atom.isOperand)
    · rw [if_pos hbin, if_pos (by rwa [hleft])]
      exact ih (t.asOrd :: done)
    · rw [if_neg hbin, if_neg (by rwa [hleft])]
      change (if t.atom.endsOperation then _ else _) = _
      split
      · rw [settleLatest_map]
        exact ih (t :: settleLatest done)
      · exact ih (t :: done)

theorem assemble_map (hf : accentPlaceholder.mapText f = accentPlaceholder)
    (tokens : List Token) :
    assemble (tokens.map (Token.mapText f)) = (assemble tokens).map (Token.mapText f) := by
  have hstacked := stackAccents_map (f := f) [] (withPlaceholder tokens)
  have hcoerced := coerceBins_map (f := f) [] (foldScripts (foldAccents tokens))
  rw [List.map_nil] at hstacked hcoerced
  rw [assemble, foldAccents, withPlaceholder_map hf, hstacked, foldScripts_map]
  exact hcoerced

/-! ### Setting -/

lemma between_map (spaces : Spaces) (style : Style) (left right : AtomClass) :
    (spaces.mapText f).between style left right = (spaces.between style left right).map f := by
  unfold Spaces.between
  cases Gap.between? left right with
  | none => rfl
  | some gap =>
    dsimp only
    cases gap.inStyle style <;> rfl

lemma joinAtoms_map (spaces : Spaces) (style : Style) (atoms : List Token) :
    joinAtoms (spaces.mapText f) style (atoms.map (Token.mapText f)) =
      (joinAtoms spaces style atoms).map f := by
  fun_induction joinAtoms spaces style atoms with
  | case1 => rfl
  | case2 t => rfl
  | case3 t u ts ih =>
    rw [List.map_cons] at ih
    simp only [List.map_cons, joinAtoms, atom_mapText, text_mapText, between_map, List.map_append,
      ih]

theorem typeset_map (hf : accentPlaceholder.mapText f = accentPlaceholder) (spaces : Spaces)
    (style : Style) (tokens : List Token) :
    typeset (spaces.mapText f) style (tokens.map (Token.mapText f)) =
      (typeset spaces style tokens).map f := by
  rw [typeset, assemble_map hf]
  exact joinAtoms_map spaces style (assemble tokens)

end Proofs

end MathMarkup
