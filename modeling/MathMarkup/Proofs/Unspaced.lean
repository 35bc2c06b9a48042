import MathMarkup.Literal
import MathMarkup.Proofs.Clusters
import MathMarkup.Proofs.SettledAtoms

/-!
# Tokens that are set without spaces

Tokens that are neither scripts nor accents become one atom each, with the same text. They are set
as their texts one after the other if no two of their classes ask for a space, an operator that
becomes ordinary counted in. Ordinary tokens never do, and in script style neither do the tokens of
literal characters.
-/

namespace MathMarkup.Proofs

variable {tokens atoms : List Token} {spaces : Spaces} {style : Style}

/-! ### One atom for each token -/

/-- The atom has the text of the token, and its class unless it has become ordinary. -/
structure IsAtomOf (t atom : Token) : Prop where
  text_eq : atom.text = t.text
  atom_eq : atom.atom = t.atom ∨ atom.atom = .ord

lemma forall_atom {P : AtomClass → Prop} (h : List.Forall₂ IsAtomOf tokens atoms) (hord : P .ord)
    (htokens : ∀ t ∈ tokens, P t.atom) : ∀ atom ∈ atoms, P atom.atom := by
  induction h with
  | nil => nofun
  | cons hatom _ ih =>
    rw [List.forall_mem_cons] at htokens ⊢
    refine ⟨?_, ih htokens.2⟩
    rcases hatom.atom_eq with hsame | hordinary
    · rw [hsame]
      exact htokens.1
    · rw [hordinary]
      exact hord

lemma flatMap_text (h : List.Forall₂ IsAtomOf tokens atoms) :
    atoms.flatMap Token.text = tokens.flatMap Token.text := by
  induction h with
  | nil => rfl
  | cons hatom _ ih => rw [List.flatMap_cons, List.flatMap_cons, hatom.text_eq, ih]

lemma forall₂_ordinaryLead (tokens : List Token) :
    List.Forall₂ IsAtomOf tokens (ordinaryLead tokens) := by
  have hsame : ∀ tokens : List Token, List.Forall₂ IsAtomOf tokens tokens :=
    fun tokens => List.forall₂_same.mpr fun t _ => ⟨rfl, Or.inl rfl⟩
  cases tokens with
  | nil => exact .nil
  | cons t tokens =>
    refine .cons ?_ (hsame tokens)
    split
    · exact ⟨rfl, Or.inr rfl⟩
    · exact ⟨rfl, Or.inl rfl⟩

lemma foldScripts_of_spaced (h : ∀ t ∈ tokens, t.atom.IsSpaced) :
    foldScripts tokens = ordinaryLead tokens := by
  have hlead : ∀ t ∈ ordinaryLead tokens, t.atom ≠ .script :=
    forall_atom (P := fun c => c ≠ .script) (forall₂_ordinaryLead tokens) nofun
      fun t ht => (h t ht).1
  have hattach := attachScripts?_ordinaryLead tokens
  rw [attachScripts?_of_forall hlead] at hattach
  exact (Option.some.inj hattach).symm

lemma forall₂_assemble (h : ∀ t ∈ tokens, t.atom.IsSpaced) :
    List.Forall₂ IsAtomOf tokens (assemble tokens) := by
  have haccent : ∀ t ∈ tokens, t.atom ≠ .accent := fun t ht => (h t ht).2
  rw [assemble, foldAccents, withPlaceholder_of_forall haccent, stackAccents_of_forall haccent,
    foldScripts_of_spaced h]
  refine forall₂_coerceBins ?_ .nil (forall₂_ordinaryLead tokens)
  intro t atom _ hatom
  exact ⟨hatom.text_eq, Or.inr rfl⟩

/-! ### Setting -/

lemma joinAtoms_unspaced
    (h : ∀ left ∈ atoms, ∀ right ∈ atoms, spaces.between style left.atom right.atom = []) :
    joinAtoms spaces style atoms = atoms.flatMap Token.text := by
  fun_induction joinAtoms spaces style atoms with
  | case1 => rfl
  | case2 t => exact (List.flatMap_singleton Token.text t).symm
  | case3 t u atoms ih =>
    have hlater := ih fun left hleft right hright =>
      h left (List.mem_cons_of_mem t hleft) right (List.mem_cons_of_mem t hright)
    rw [h t List.mem_cons_self u (List.mem_cons_of_mem t List.mem_cons_self), List.nil_append,
      hlater]
    rfl

/-- Classes that ask for no space among each other. -/
structure Unspaced (spaces : Spaces) (style : Style) (classes : List AtomClass) : Prop where
  ord : .ord ∈ classes
  spaced : ∀ c ∈ classes, c.IsSpaced
  between : ∀ left ∈ classes, ∀ right ∈ classes, spaces.between style left right = []

theorem Unspaced.typeset {classes : List AtomClass} (h : Unspaced spaces style classes)
    (htokens : ∀ t ∈ tokens, t.atom ∈ classes) :
    typeset spaces style tokens = tokens.flatMap Token.text := by
  have hatoms := forall₂_assemble fun t ht => h.spaced t.atom (htokens t ht)
  have hclasses := forall_atom (P := fun c => c ∈ classes) hatoms h.ord htokens
  rw [← flatMap_text hatoms]
  exact joinAtoms_unspaced fun left hleft right hright =>
    h.between _ (hclasses left hleft) _ (hclasses right hright)

lemma unspaced_ord (spaces : Spaces) (style : Style) : Unspaced spaces style [.ord] where
  ord := List.mem_singleton_self _
  spaced := by simp [AtomClass.IsSpaced]
  between := by simp [Spaces.between, Gap.between?, Gap.inStyle, Gap.always, Spaces.text]

lemma typeset_ordinary (spaces : Spaces) (style : Style) (h : ∀ t ∈ tokens, t.atom = .ord) :
    typeset spaces style tokens = tokens.flatMap Token.text :=
  (unspaced_ord spaces style).typeset fun t ht => List.mem_singleton.mpr (h t ht)

/-- The classes that characters have. -/
def literalClasses : List AtomClass := [.ord, .bin, .rel, .opening, .closing, .punct]

lemma charClass_mem_literalClasses (c : Char) : charClass c ∈ literalClasses := by
  unfold charClass
  split <;> decide

lemma unspaced_literalClasses (spaces : Spaces) : Unspaced spaces .script literalClasses where
  ord := by decide
  spaced := by simp [literalClasses, AtomClass.IsSpaced]
  between := by
    have hgap : ∀ left ∈ literalClasses, ∀ right ∈ literalClasses,
        (Gap.between? left right).all (fun gap => gap.inStyle .script = .none) = true := by
      decide
    intro left hleft right hright
    have h := hgap left hleft right hright
    unfold Spaces.between
    cases hfound : Gap.between? left right with
    | none => rfl
    | some gap =>
      rw [hfound, Option.all_some, decide_eq_true_eq] at h
      simp only [h, Spaces.text]

end MathMarkup.Proofs
