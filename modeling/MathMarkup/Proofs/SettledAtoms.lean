import MathMarkup.Assembly
import Mathlib.Data.List.Chain
import Mathlib.Tactic.Lemma

/-!
# Settled atoms

Assembly leaves atoms of the eight classes that spacing knows. No binary operator stands at an end,
each has an operand on its left and something that can follow it on its right, and the spacing table
has an entry for each pair of neighbours. Atoms that are settled in this way are not changed by
assembly any more.
-/

namespace MathMarkup

/-- Spacing knows the class: it is neither that of a script nor that of an accent. -/
def AtomClass.IsSpaced (c : AtomClass) : Prop := c ≠ .script ∧ c ≠ .accent

/-- What the neighbours of a binary operator may be. -/
def AtomClass.MayPrecede (left right : AtomClass) : Prop :=
  (right = .bin → left ∈ [.ord, .closing]) ∧
    (left = .bin → right ∈ [.ord, .op, .opening, .inner])

/-- What assembly makes of tokens. -/
structure Settled (atoms : List Token) : Prop where
  spaced : ∀ t ∈ atoms, t.atom.IsSpaced
  first : ∀ t ∈ atoms.head?, t.atom ≠ .bin
  last : ∀ t ∈ atoms.getLast?, t.atom ≠ .bin
  beside : atoms.IsChain fun left right => left.atom.MayPrecede right.atom

namespace Proofs

/-! ### Classes -/

lemma mayPrecede_of_ne_bin {left right : AtomClass} (hleft : left ≠ .bin) (hright : right ≠ .bin) :
    left.MayPrecede right :=
  ⟨fun h => absurd h hright, fun h => absurd h hleft⟩

lemma mayPrecede_ord (left : AtomClass) : left.MayPrecede .ord := by
  constructor
  · nofun
  · intro _
    decide

lemma mayPrecede_bin {left : AtomClass} (h : left.isOperand = true) : left.MayPrecede .bin := by
  cases left with
  | ord => exact ⟨fun _ => by decide, nofun⟩
  | closing => exact ⟨fun _ => by decide, nofun⟩
  | _ => cases h

lemma bin_mayPrecede {right : AtomClass} (hspaced : right.IsSpaced) (hbin : right ≠ .bin)
    (hends : right.endsOperation = false) : AtomClass.bin.MayPrecede right := by
  refine ⟨fun h => absurd h hbin, fun _ => ?_⟩
  cases right with
  | script => exact absurd rfl hspaced.1
  | accent => exact absurd rfl hspaced.2
  | bin => exact absurd rfl hbin
  | _ => first | decide | cases hends

lemma isOperand_of_mayPrecede_bin {left : AtomClass} (h : left.MayPrecede .bin) :
    left.isOperand = true := by
  have hleft := h.1 rfl
  cases left with
  | _ => first | rfl | exact absurd hleft (by decide)

lemma ne_bin_of_endsOperation {c : AtomClass} (h : c.endsOperation = true) : c ≠ .bin := by
  rintro rfl
  cases h

lemma left_ne_bin_of_endsOperation {left right : AtomClass} (h : left.MayPrecede right)
    (hends : right.endsOperation = true) : left ≠ .bin := by
  rintro rfl
  have hright := h.2 rfl
  cases right with
  | _ => first | exact absurd hright (by decide) | cases hends

/-- The pairs without an entry in the spacing table are those that settled atoms do not have. -/
lemma between?_isSome {left right : AtomClass} (hleft : left.IsSpaced) (hright : right.IsSpaced)
    (h : left.MayPrecede right) : (Gap.between? left right).isSome := by
  cases left <;> cases right <;>
    first | rfl | exact absurd rfl hleft.1 | exact absurd rfl hleft.2 | exact absurd rfl hright.1 |
      exact absurd rfl hright.2 | exact absurd (h.1 rfl) (by decide) |
      exact absurd (h.2 rfl) (by decide)

/-! ### Accents and scripts -/

lemma atom_stackAccents (marks : Text) (tokens : List Token) :
    ∀ t ∈ stackAccents marks tokens, t.atom ≠ .accent := by
  induction tokens generalizing marks with
  | nil => simp [stackAccents]
  | cons t tokens ih =>
    rw [stackAccents]
    split
    · exact ih _
    · next hplain =>
      intro u hu
      rcases List.mem_cons.mp hu with rfl | hu
      · exact hplain
      · exact ih _ u hu

lemma atom_ordinaryLead {tokens : List Token} (h : ∀ t ∈ tokens, t.atom ≠ .accent) :
    ∀ t ∈ ordinaryLead tokens, t.atom ≠ .accent := by
  cases tokens with
  | nil => exact h
  | cons lead tokens =>
    intro t ht
    rcases List.mem_cons.mp ht with rfl | ht
    · split
      · nofun
      · exact h lead List.mem_cons_self
    · exact h t (List.mem_cons_of_mem _ ht)

lemma atom_attachScripts? {done tokens atoms : List Token}
    (h : attachScripts? done tokens = some atoms) (hdone : ∀ t ∈ done, t.atom.IsSpaced)
    (htokens : ∀ t ∈ tokens, t.atom ≠ .accent) : ∀ t ∈ atoms, t.atom.IsSpaced := by
  induction tokens generalizing done with
  | nil =>
    obtain rfl : done.reverse = atoms := Option.some.inj h
    exact fun t ht => hdone t (List.mem_reverse.mp ht)
  | cons t tokens ih =>
    have hlater : ∀ u ∈ tokens, u.atom ≠ .accent :=
      fun u hu => htokens u (List.mem_cons_of_mem _ hu)
    rw [attachScripts?.eq_def] at h
    dsimp only at h
    split at h
    · cases done with
      | nil => cases h
      | cons base before =>
        refine ih h ?_ hlater
        intro u hu
        rcases List.mem_cons.mp hu with rfl | hu
        · exact hdone base List.mem_cons_self
        · exact hdone u (List.mem_cons_of_mem _ hu)
    · next hscript =>
      refine ih h ?_ hlater
      intro u hu
      rcases List.mem_cons.mp hu with rfl | hu
      · exact ⟨hscript, htokens u List.mem_cons_self⟩
      · exact hdone u hu

lemma atom_foldScripts (tokens : List Token) :
    ∀ t ∈ foldScripts (foldAccents tokens), t.atom.IsSpaced :=
  atom_attachScripts? (attachScripts?_ordinaryLead _) (by simp)
    (atom_ordinaryLead (atom_stackAccents [] _))

/-! ### Binary operators -/

/-- Atoms so far, the latest first. All is settled but the latest, which may be a binary operator
that nothing follows yet. -/
structure Settling (done : List Token) : Prop where
  spaced : ∀ t ∈ done, t.atom.IsSpaced
  first : ∀ t ∈ done.getLast?, t.atom ≠ .bin
  beside : done.IsChain fun right left => left.atom.MayPrecede right.atom

namespace Settling

variable {done : List Token} {t : Token}

lemma nil : Settling [] := ⟨by simp, by simp, .nil⟩

lemma push (h : Settling done) (hspaced : t.atom.IsSpaced)
    (hleft : ∀ left ∈ done.head?, left.atom.MayPrecede t.atom)
    (hfirst : done = [] → t.atom ≠ .bin) : Settling (t :: done) := by
  refine ⟨?_, ?_, List.isChain_cons.mpr ⟨hleft, h.beside⟩⟩
  · intro u hu
    rcases List.mem_cons.mp hu with rfl | hu
    · exact hspaced
    · exact h.spaced u hu
  · cases done with
    | nil => simpa using hfirst rfl
    | cons latest before =>
      rw [List.getLast?_cons_cons]
      exact h.first

lemma settleLatest (h : Settling done) :
    Settling (settleLatest done) ∧ ∀ t ∈ (settleLatest done).head?, t.atom ≠ .bin := by
  cases done with
  | nil => exact ⟨h, by simp [MathMarkup.settleLatest]⟩
  | cons latest before =>
    rw [MathMarkup.settleLatest]
    split
    · have hbefore : Settling before := by
        refine ⟨fun t ht => h.spaced t (List.mem_cons_of_mem _ ht), ?_, h.beside.tail⟩
        cases before with
        | nil => simp
        | cons left before => exact h.first
      refine ⟨hbefore.push ⟨nofun, nofun⟩ (fun left _ => mayPrecede_ord left.atom) nofun, ?_⟩
      simp [Token.asOrd]
    · next hbin => exact ⟨h, by simpa using hbin⟩

lemma reverse (h : Settling done) (hlatest : ∀ t ∈ done.head?, t.atom ≠ .bin) :
    Settled done.reverse where
  spaced := by simpa using h.spaced
  first := by simpa using h.first
  last := by simpa using hlatest
  beside := List.isChain_reverse.mpr h.beside

end Settling

/-- Each atom is settled when it is read, or when the one after it is. -/
theorem coerceBins_settled {done tokens : List Token} (h : Settling done)
    (htokens : ∀ t ∈ tokens, t.atom.IsSpaced) : Settled (coerceBins done tokens) := by
  induction tokens generalizing done with
  | nil => exact h.settleLatest.1.reverse h.settleLatest.2
  | cons t tokens ih =>
    have hspaced : t.atom.IsSpaced := htokens t List.mem_cons_self
    have hlater : ∀ u ∈ tokens, u.atom.IsSpaced :=
      fun u hu => htokens u (List.mem_cons_of_mem _ hu)
    rw [coerceBins]
    split
    · exact ih (h.push ⟨nofun, nofun⟩ (fun left _ => mayPrecede_ord left.atom) nofun) hlater
    · next hkept =>
      split
      · next hends =>
        have hbin := ne_bin_of_endsOperation hends
        exact ih (h.settleLatest.1.push hspaced
          (fun left hleft => mayPrecede_of_ne_bin (h.settleLatest.2 left hleft) hbin)
          fun _ => hbin) hlater
      · next hends =>
        have hoperand : t.atom = .bin → ∃ left ∈ done.head?, left.atom.isOperand = true := by
          simpa [Option.any_eq_true] using hkept
        refine ih (h.push hspaced ?_ ?_) hlater
        · intro left hleft
          by_cases hbin : t.atom = .bin
          · obtain ⟨left', hleft', hoperand⟩ := hoperand hbin
            obtain rfl : left = left' := Option.mem_unique hleft hleft'
            rw [hbin]
            exact mayPrecede_bin hoperand
          · by_cases hleft' : left.atom = .bin
            · rw [hleft']
              exact bin_mayPrecede hspaced hbin (by simpa using hends)
            · exact mayPrecede_of_ne_bin hleft' hbin
        · rintro rfl hbin
          simpa using hoperand hbin

/-! ### Assembly of settled atoms -/

lemma mark_nil (t : Token) : t.mark [] = t := by
  rw [Token.mark, List.append_nil, List.take_append_drop]

lemma stackAccents_of_forall {tokens : List Token} (h : ∀ t ∈ tokens, t.atom ≠ .accent) :
    stackAccents [] tokens = tokens := by
  induction tokens with
  | nil => rfl
  | cons t tokens ih =>
    rw [stackAccents, if_neg (h t List.mem_cons_self), mark_nil,
      ih fun u hu => h u (List.mem_cons_of_mem _ hu)]

lemma withPlaceholder_of_forall {tokens : List Token} (h : ∀ t ∈ tokens, t.atom ≠ .accent) :
    withPlaceholder tokens = tokens := by
  rw [withPlaceholder]
  split
  · next last hlast => rw [if_neg (h last (List.mem_of_getLast? hlast))]
  · rfl

lemma attachScripts?_of_forall {done tokens : List Token} (h : ∀ t ∈ tokens, t.atom ≠ .script) :
    attachScripts? done tokens = some (done.reverse ++ tokens) := by
  induction tokens generalizing done with
  | nil => simp [attachScripts?]
  | cons t tokens ih =>
    have hlater : attachScripts? (t :: done) tokens = some ((t :: done).reverse ++ tokens) :=
      ih fun u hu => h u (List.mem_cons_of_mem _ hu)
    rw [attachScripts?.eq_def]
    dsimp only
    rw [if_neg (h t List.mem_cons_self), hlater]
    simp

lemma ordinaryLead_of_first {tokens : List Token} (hscript : ∀ t ∈ tokens, t.atom ≠ .script)
    (hfirst : ∀ t ∈ tokens.head?, t.atom ≠ .bin) : ordinaryLead tokens = tokens := by
  cases tokens with
  | nil => rfl
  | cons t tokens =>
    have hlead : ¬(t.atom = .script ∨ t.atom = .bin) :=
      not_or.mpr ⟨hscript t List.mem_cons_self, hfirst t rfl⟩
    rw [ordinaryLead, if_neg hlead]

lemma foldScripts_of_settled {atoms : List Token} (h : Settled atoms) :
    foldScripts atoms = atoms := by
  have hattach : attachScripts? [] (ordinaryLead atoms) = some atoms := by
    have hscript : ∀ t ∈ atoms, t.atom ≠ .script := fun t ht => (h.spaced t ht).1
    rw [ordinaryLead_of_first hscript h.first, attachScripts?_of_forall hscript]
    rfl
  exact Option.some.inj ((attachScripts?_ordinaryLead atoms).symm.trans hattach)

lemma settleLatest_of_ne_bin {done : List Token} (h : ∀ t ∈ done.head?, t.atom ≠ .bin) :
    settleLatest done = done := by
  cases done with
  | nil => rfl
  | cons latest before => rw [settleLatest, if_neg (h latest rfl)]

lemma coerceBins_of_settled {done tokens : List Token} (h : Settled (done.reverse ++ tokens)) :
    coerceBins done tokens = done.reverse ++ tokens := by
  induction tokens generalizing done with
  | nil =>
    have hlatest : ∀ t ∈ done.head?, t.atom ≠ .bin := by simpa using h.last
    rw [coerceBins, settleLatest_of_ne_bin hlatest, List.append_nil]
  | cons t tokens ih =>
    have hbeside : ∀ left ∈ done.head?, left.atom.MayPrecede t.atom := by
      intro left hleft
      obtain ⟨before, rfl⟩ : ∃ before, done = left :: before := List.head?_eq_some_iff.mp hleft
      have hsplit : (left :: before).reverse ++ t :: tokens =
          before.reverse ++ left :: t :: tokens := by simp
      exact List.isChain_iff_forall_rel_of_append_cons_cons.mp h.beside hsplit
    have hnext : coerceBins (t :: done) tokens = done.reverse ++ t :: tokens := by
      rw [ih (by simpa using h)]
      simp
    have hoperand : ¬(t.atom = .bin ∧ ¬(done.head?.any fun left => left.atom.isOperand)) := by
      rintro ⟨hbin, hnone⟩
      cases done with
      | nil => exact h.first t rfl hbin
      | cons left before =>
        have hleft := hbeside left rfl
        rw [hbin] at hleft
        exact hnone (isOperand_of_mayPrecede_bin hleft)
    rw [coerceBins, if_neg hoperand]
    split
    · next hends =>
      rw [settleLatest_of_ne_bin fun left hleft =>
        left_ne_bin_of_endsOperation (hbeside left hleft) hends, hnext]
    · exact hnext

theorem assemble_of_settled {atoms : List Token} (h : Settled atoms) : assemble atoms = atoms := by
  have haccent : ∀ t ∈ atoms, t.atom ≠ .accent := fun t ht => (h.spaced t ht).2
  rw [assemble, foldAccents, withPlaceholder_of_forall haccent, stackAccents_of_forall haccent,
    foldScripts_of_settled h]
  exact coerceBins_of_settled h

lemma assemble_settled (tokens : List Token) : Settled (assemble tokens) :=
  coerceBins_settled Settling.nil (atom_foldScripts tokens)

lemma spaced_of_settled {atoms : List Token} (h : Settled atoms) :
    atoms.IsChain fun left right => (Gap.between? left.atom right.atom).isSome := by
  rw [List.isChain_iff_forall_rel_of_append_cons_cons]
  intro left right before after hatoms
  have hbeside := List.isChain_iff_forall_rel_of_append_cons_cons.mp h.beside hatoms
  exact between?_isSome (h.spaced left (by simp [hatoms])) (h.spaced right (by simp [hatoms]))
    hbeside

/-- Whatever the tokens are, assembly settles them: the spacing table has an entry for each pair of
neighbours, and assembling the atoms again changes nothing. -/
theorem assembled_atoms_settled (tokens : List Token) :
    Settled (assemble tokens) ∧
      ((assemble tokens).IsChain fun left right =>
        (Gap.between? left.atom right.atom).isSome) ∧
      assemble (assemble tokens) = assemble tokens := by
  have h := assemble_settled tokens
  exact ⟨h, spaced_of_settled h, assemble_of_settled h⟩

end Proofs

end MathMarkup
