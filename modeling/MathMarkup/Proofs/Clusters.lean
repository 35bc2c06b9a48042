import MathMarkup.Proofs.InPlace
import Mathlib.Data.List.Forall2

/-!
# What atoms are made of

Tokens stand in clusters: a token that is no accent, the accents right before it, and the scripts
after it, which may have accents of their own. Assembly makes one atom of each cluster. The atom has
all the text of its cluster and no other, with the accents moved behind the characters they are set
on.
-/

namespace MathMarkup

/-- What the class of a token may become in an atom that begins with it. -/
def AtomClass.Becomes (base atom : AtomClass) : Prop :=
  match base with
  | .bin => atom = .bin ∨ atom = .ord
  | .script => atom = .ord
  | _ => atom = base

namespace Proofs

def endsWithAccent (tokens : List Token) : Bool := tokens.getLast?.any fun t => t.atom = .accent

def isBase (t : Token) : Bool := t.atom ≠ .accent ∧ t.atom ≠ .script

/-- A token that is no accent, with the accents right before it. -/
structure Accented where
  accents : List Token
  base : Token
  isAccent : ∀ t ∈ accents, t.atom = .accent
  base_ne : base.atom ≠ .accent

namespace Accented

variable (a : Accented)

def tokens : List Token := a.accents ++ [a.base]

/-- The accents follow the first character of the base, the one that is closest to it first. -/
def text : Text :=
  a.base.text.take 1 ++ a.accents.reverse.flatMap Token.text ++ a.base.text.drop 1

def folded : Token := { a.base with text := a.text }

@[simp] lemma folded_atom : a.folded.atom = a.base.atom := rfl

@[simp] lemma folded_text : a.folded.text = a.text := rfl

end Accented

/-- A token with its accents, and the scripts that follow it with theirs. -/
structure Cluster where
  lead : Accented
  scripts : List Accented
  isScript : ∀ a ∈ scripts, a.base.atom = .script

namespace Cluster

variable (cluster : Cluster)

def parts : List Accented := cluster.lead :: cluster.scripts

def tokens : List Token := cluster.parts.flatMap Accented.tokens

def text : Text := cluster.parts.flatMap Accented.text

def ofLead (a : Accented) : Cluster := ⟨a, [], nofun⟩

@[simp] lemma text_ofLead (a : Accented) : (ofLead a).text = a.text := by
  simp [ofLead, text, parts]

def attach (a : Accented) (h : a.base.atom = .script) : Cluster where
  lead := cluster.lead
  scripts := cluster.scripts ++ [a]
  isScript := List.forall_mem_append.mpr ⟨cluster.isScript, List.forall_mem_singleton.mpr h⟩

@[simp] lemma text_attach (a : Accented) (h : a.base.atom = .script) :
    (cluster.attach a h).text = cluster.text ++ a.text := by
  simp [attach, text, parts]

end Cluster

/-- The atom is what a cluster becomes. -/
structure MadeOf (cluster : Cluster) (atom : Token) : Prop where
  text_eq : atom.text = cluster.text
  becomes : cluster.lead.base.atom.Becomes atom.atom

/-! ### Accents -/

lemma withPlaceholder_eq (tokens : List Token) :
    withPlaceholder tokens =
      tokens ++ if endsWithAccent tokens then [accentPlaceholder] else [] := by
  rw [withPlaceholder, endsWithAccent]
  cases tokens.getLast? with
  | none => simp
  | some last =>
    by_cases haccent : last.atom = .accent
    · simp [haccent]
    · simp [haccent]

lemma endsWithAccent_withPlaceholder (tokens : List Token) :
    endsWithAccent (withPlaceholder tokens) = false := by
  rw [withPlaceholder_eq]
  cases haccent : endsWithAccent tokens with
  | true => simp [endsWithAccent, accentPlaceholder]
  | false => simpa using haccent

lemma exists_accented (accents tokens : List Token) (haccents : ∀ t ∈ accents, t.atom = .accent)
    (hend : endsWithAccent (accents ++ tokens) = false) :
    ∃ accented : List Accented, accents ++ tokens = accented.flatMap Accented.tokens ∧
      stackAccents (accents.reverse.flatMap Token.text) tokens = accented.map Accented.folded := by
  induction tokens generalizing accents with
  | nil =>
    rcases List.eq_nil_or_concat accents with rfl | ⟨before, last, rfl⟩
    · exact ⟨[], rfl, rfl⟩
    · -- Accents at the end would have no token to move to.
      rw [List.append_nil, List.concat_eq_append, endsWithAccent, List.getLast?_concat] at hend
      have hlast : last.atom = .accent := haccents last (by simp)
      simp [hlast] at hend
  | cons t tokens ih =>
    rw [stackAccents]
    by_cases ht : t.atom = .accent
    · have hsplit : accents ++ t :: tokens = (accents ++ [t]) ++ tokens := by simp
      have haccents' : ∀ u ∈ accents ++ [t], u.atom = .accent :=
        List.forall_mem_append.mpr ⟨haccents, List.forall_mem_singleton.mpr ht⟩
      rw [hsplit] at hend ⊢
      obtain ⟨accented, htokens, hstack⟩ := ih (accents ++ [t]) haccents' hend
      refine ⟨accented, htokens, ?_⟩
      rw [if_pos ht, ← hstack, List.reverse_concat, List.flatMap_cons]
    · have hlater : endsWithAccent tokens = false := by
        cases tokens with
        | nil => rfl
        | cons u tokens =>
          rw [endsWithAccent, ← List.getLast?_append_of_ne_nil (accents ++ [t])
            (List.cons_ne_nil u tokens), List.append_assoc]
          exact hend
      obtain ⟨accented, htokens, hstack⟩ := ih [] (by simp) hlater
      refine ⟨⟨accents, t, haccents, ht⟩ :: accented, ?_, ?_⟩
      · rw [List.flatMap_cons, ← htokens]
        simp [Accented.tokens]
      · rw [if_neg ht, List.map_cons, ← hstack]
        rfl

/-! ### Scripts -/

lemma madeOf_folded {a : Accented} (h : a.base.atom ≠ .script) :
    MadeOf (Cluster.ofLead a) a.folded := by
  refine ⟨(Cluster.text_ofLead a).symm, ?_⟩
  change a.base.atom.Becomes a.base.atom
  cases hatom : a.base.atom with
  | script => exact absurd hatom h
  | bin => exact Or.inl rfl
  | _ => rfl

lemma madeOf_lead (a : Accented) :
    MadeOf (Cluster.ofLead a)
      (if a.folded.atom = .script ∨ a.folded.atom = .bin then a.folded.asOrd else a.folded) := by
  split
  · next hlead =>
    refine ⟨(Cluster.text_ofLead a).symm, ?_⟩
    change a.base.atom.Becomes .ord
    rcases hlead with hatom | hatom
    · rw [Accented.folded_atom] at hatom
      rw [hatom]
      rfl
    · rw [Accented.folded_atom] at hatom
      rw [hatom]
      exact Or.inr rfl
  · next hlead => exact madeOf_folded fun hatom => hlead (Or.inl hatom)

lemma MadeOf.attach {cluster : Cluster} {atom : Token} {a : Accented} (h : MadeOf cluster atom)
    (hscript : a.base.atom = .script) :
    MadeOf (cluster.attach a hscript) (atom.append a.text) := by
  refine ⟨?_, h.becomes⟩
  rw [Cluster.text_attach, ← h.text_eq]
  rfl

/-- The cluster that is being read takes the scripts up to the next token of another class. -/
lemma exists_clusters (accented : List Accented) {cluster : Cluster} {atom : Token}
    (hatom : MadeOf cluster atom) (done : List Token) :
    ∃ (grown : Cluster) (later : List Cluster) (atoms : List Token),
      grown.lead = cluster.lead ∧
      cluster.parts ++ accented = (grown :: later).flatMap Cluster.parts ∧
      (∀ c ∈ later, c.lead.base.atom ≠ .script) ∧
      attachScripts? (atom :: done) (accented.map Accented.folded) = some (done.reverse ++ atoms) ∧
      List.Forall₂ MadeOf (grown :: later) atoms := by
  induction accented generalizing cluster atom done with
  | nil =>
    refine ⟨cluster, [], [atom], rfl, ?_, nofun, ?_, .cons hatom .nil⟩
    · simp
    · simp [attachScripts?]
  | cons a accented ih =>
    rw [List.map_cons, attachScripts?, Accented.folded_atom, Accented.folded_text]
    by_cases hscript : a.base.atom = .script
    · obtain ⟨grown, later, atoms, hlead, hparts, hlater, hattach, hforall⟩ :=
        ih (hatom.attach hscript) done
      refine ⟨grown, later, atoms, hlead, ?_, hlater, ?_, hforall⟩
      · rw [← hparts]
        simp [Cluster.parts, Cluster.attach]
      · rw [if_pos hscript]
        exact hattach
    · obtain ⟨grown, later, atoms, hlead, hparts, hlater, hattach, hforall⟩ :=
        ih (madeOf_folded hscript) (atom :: done)
      refine ⟨cluster, grown :: later, atom :: atoms, rfl, ?_, ?_, ?_, .cons hatom hforall⟩
      · rw [List.flatMap_cons, ← hparts]
        rfl
      · intro c hc
        rcases List.mem_cons.mp hc with rfl | hc
        · rw [hlead]
          exact hscript
        · exact hlater c hc
      · rw [if_neg hscript, hattach]
        simp

lemma foldScripts_clusters (accented : List Accented) :
    ∃ clusters : List Cluster, accented = clusters.flatMap Cluster.parts ∧
      (∀ cluster ∈ clusters.tail, cluster.lead.base.atom ≠ .script) ∧
      List.Forall₂ MadeOf clusters (foldScripts (accented.map Accented.folded)) := by
  have hfold := attachScripts?_ordinaryLead (accented.map Accented.folded)
  cases accented with
  | nil =>
    cases hfold
    exact ⟨[], rfl, nofun, .nil⟩
  | cons a accented =>
    obtain ⟨grown, later, atoms, -, hparts, hlater, hattach, hforall⟩ :=
      exists_clusters accented (madeOf_lead a) []
    refine ⟨grown :: later, hparts, hlater, ?_⟩
    have hlead : (if a.folded.atom = .script ∨ a.folded.atom = .bin then a.folded.asOrd
        else a.folded).atom ≠ .script := by
      split
      · nofun
      · next hplain => exact fun hscript => hplain (Or.inl hscript)
    rw [List.map_cons, ordinaryLead, attachScripts?, if_neg hlead, hattach] at hfold
    rw [List.map_cons, ← Option.some.inj hfold]
    exact hforall

/-! ### Binary operators -/

section Coercion

variable {α : Type} {R : α → Token → Prop} {origins : List α} {done tokens : List Token}

lemma forall₂_settleLatest (hR : ∀ x t, t.atom = .bin → R x t → R x t.asOrd)
    (h : List.Forall₂ R origins done) : List.Forall₂ R origins (settleLatest done) := by
  cases h with
  | nil => exact .nil
  | @cons x latest _ before hlatest hbefore =>
    rw [settleLatest]
    split
    · next hbin => exact .cons (hR x latest hbin hlatest) hbefore
    · exact .cons hlatest hbefore

/-- What holds of the tokens also holds of the atoms, if a binary operator may become ordinary. -/
lemma forall₂_coerceBins (hR : ∀ x t, t.atom = .bin → R x t → R x t.asOrd) {before : List α}
    (hdone : List.Forall₂ R before done) (htokens : List.Forall₂ R origins tokens) :
    List.Forall₂ R (before.reverse ++ origins) (coerceBins done tokens) := by
  induction htokens generalizing before done with
  | nil =>
    rw [coerceBins, List.append_nil]
    exact List.forall₂_reverse_iff.mpr (forall₂_settleLatest hR hdone)
  | @cons x t origins tokens ht htokens ih =>
    have hnext : ∀ {settled : List Token} {u : Token}, List.Forall₂ R before settled → R x u →
        List.Forall₂ R (before.reverse ++ x :: origins) (coerceBins (u :: settled) tokens) := by
      intro settled u hsettled hu
      have hlater := ih (.cons hu hsettled)
      rwa [List.reverse_cons, List.append_assoc] at hlater
    rw [coerceBins]
    split
    · next hbin => exact hnext hdone (hR x t hbin.1 ht)
    · split
      · exact hnext (forall₂_settleLatest hR hdone) ht
      · exact hnext hdone ht

end Coercion

lemma madeOf_asOrd (cluster : Cluster) (atom : Token) (hbin : atom.atom = .bin)
    (h : MadeOf cluster atom) : MadeOf cluster atom.asOrd := by
  refine ⟨h.text_eq, ?_⟩
  change cluster.lead.base.atom.Becomes .ord
  have hbecomes := h.becomes
  rw [hbin] at hbecomes
  cases hbase : cluster.lead.base.atom with
  | bin => exact Or.inr rfl
  | script => rfl
  | _ =>
    rw [hbase] at hbecomes
    cases hbecomes

lemma assemble_clusters (tokens : List Token) :
    ∃ clusters : List Cluster, withPlaceholder tokens = clusters.flatMap Cluster.tokens ∧
      (∀ cluster ∈ clusters.tail, cluster.lead.base.atom ≠ .script) ∧
      List.Forall₂ MadeOf clusters (assemble tokens) := by
  obtain ⟨accented, htokens, hstack⟩ :=
    exists_accented [] (withPlaceholder tokens) (by simp) (endsWithAccent_withPlaceholder tokens)
  obtain ⟨clusters, hparts, hlater, hforall⟩ := foldScripts_clusters accented
  refine ⟨clusters, ?_, hlater, ?_⟩
  · rw [← List.nil_append (withPlaceholder tokens), htokens, hparts, List.flatMap_assoc]
    rfl
  · have hfold : foldAccents tokens = accented.map Accented.folded := hstack
    rw [assemble, hfold]
    exact forall₂_coerceBins madeOf_asOrd .nil hforall

/-! ### Counting and joining -/

lemma joinAtoms_eq (spaces : Spaces) (style : Style) (atoms : List Token) :
    joinAtoms spaces style atoms =
      atoms.head?.elim [] Token.text ++ spacedTail spaces style atoms := by
  cases atoms with
  | nil => rfl
  | cons first atoms => exact joinAtoms_cons spaces style first atoms

lemma Accented.countP_tokens (a : Accented) :
    a.tokens.countP isBase = if a.base.atom = .script then 0 else 1 := by
  have haccents : a.accents.countP isBase = 0 := by
    rw [List.countP_eq_zero]
    intro t ht
    simp [isBase, a.isAccent t ht]
  rw [Accented.tokens, List.countP_append, haccents]
  simp [List.countP_cons, isBase, a.base_ne]

lemma countP_scripts {scripts : List Accented} (h : ∀ a ∈ scripts, a.base.atom = .script) :
    (scripts.flatMap Accented.tokens).countP isBase = 0 := by
  induction scripts with
  | nil => rfl
  | cons a scripts ih =>
    rw [List.flatMap_cons, List.countP_append, a.countP_tokens, if_pos (h a List.mem_cons_self),
      ih fun b hb => h b (List.mem_cons_of_mem _ hb)]

lemma Cluster.countP_tokens (cluster : Cluster) :
    cluster.tokens.countP isBase = if cluster.lead.base.atom = .script then 0 else 1 := by
  rw [Cluster.tokens, Cluster.parts, List.flatMap_cons, List.countP_append,
    countP_scripts cluster.isScript, Accented.countP_tokens, Nat.add_zero]

end Proofs

end MathMarkup
