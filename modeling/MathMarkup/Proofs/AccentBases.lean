import MathMarkup.Proofs.Clusters
import MathMarkup.Proofs.SpelledOut

/-!
# What accents are set on

An accent is set behind the first character of the token that it belongs to, be this a combining
mark itself. A token may be empty, as an empty group is: it has no first character, and an accent
that belongs to it is set on whatever stands before. An accent at the end, which belongs to no
token, gets one that is not empty.
-/

namespace MathMarkup

namespace Proofs

/-- The accents are set right behind a character of their own token. -/
def Accented.Seated (a : Accented) : Prop :=
  ∃ c rest, a.base.text = c :: rest ∧
    a.text = c :: (a.accents.reverse.flatMap Token.text ++ rest)

lemma Accented.seated_iff (a : Accented) : a.Seated ↔ a.base.text ≠ [] := by
  constructor
  · rintro ⟨c, rest, hbase, -⟩
    rw [hbase]
    exact List.cons_ne_nil c rest
  · intro hbase
    obtain ⟨c, rest, hbase⟩ := List.exists_cons_of_ne_nil hbase
    refine ⟨c, rest, hbase, ?_⟩
    simp [Accented.text, hbase]

/-- The token on the right is not an empty one that the accent on the left belongs to. -/
def Supports (left right : Token) : Prop :=
  left.atom = .accent → right.atom ≠ .accent → right.text ≠ []

lemma isChain_accents {accents : List Token} (haccents : ∀ t ∈ accents, t.atom = .accent)
    {base : Token} (hbase : base.atom ≠ .accent) :
    (accents ++ [base]).IsChain Supports ↔ (accents ≠ [] → base.text ≠ []) := by
  have hamong : accents.IsChain Supports := by
    refine List.Pairwise.isChain (List.pairwise_of_forall_mem_list ?_)
    exact fun _ _ right hright _ hplain => absurd (haccents right hright) hplain
  rw [List.isChain_append]
  constructor
  · rintro ⟨-, -, hlast⟩ hsome
    exact hlast _ (List.getLast?_eq_some_getLast hsome) base rfl
      (haccents _ (List.getLast_mem hsome)) hbase
  · intro hsome
    refine ⟨hamong, List.isChain_singleton base, ?_⟩
    rintro left hleft right hright - -
    obtain rfl : base = right := Option.some.inj hright
    exact hsome (List.ne_nil_of_mem (List.mem_of_getLast? hleft))

lemma isChain_accented (accented : List Accented) :
    (accented.flatMap Accented.tokens).IsChain Supports ↔
      ∀ a ∈ accented, a.accents ≠ [] → a.Seated := by
  induction accented with
  | nil => simp
  | cons a accented ih =>
    rw [List.flatMap_cons, List.isChain_append, ih, Accented.tokens,
      isChain_accents a.isAccent a.base_ne, List.forall_mem_cons, a.seated_iff]
    have hnext : ∀ left ∈ (a.accents ++ [a.base]).getLast?,
        ∀ right ∈ (accented.flatMap Accented.tokens).head?, Supports left right := by
      rintro left hleft right - haccent
      rw [List.getLast?_concat] at hleft
      obtain rfl : a.base = left := Option.some.inj hleft
      exact absurd haccent a.base_ne
    exact and_congr_right fun _ => and_iff_left hnext

/-- A placeholder is not empty. -/
lemma isChain_withPlaceholder (tokens : List Token) :
    (withPlaceholder tokens).IsChain Supports ↔ tokens.IsChain Supports := by
  rw [withPlaceholder_eq]
  split
  · rw [List.isChain_append]
    have hplaceholder : ∀ left ∈ tokens.getLast?, ∀ right ∈ [accentPlaceholder].head?,
        Supports left right := by
      rintro left - right hright - -
      obtain rfl : accentPlaceholder = right := Option.some.inj hright
      exact List.cons_ne_nil _ _
    exact ⟨And.left, fun h => ⟨h, List.isChain_singleton _, hplaceholder⟩⟩
  · rw [List.append_nil]

/-- Accents are set in the clusters of their own tokens. Each is set right behind a character of
its own token exactly if no accent comes right before an empty token. The character may be a
combining mark. -/
theorem accents_seated_iff (tokens : List Token) :
    ∃ clusters : List Cluster,
      (tokens ++ if endsWithAccent tokens then [accentPlaceholder] else []) =
        clusters.flatMap Cluster.tokens ∧
      (∀ cluster ∈ clusters.tail, cluster.lead.base.atom ≠ .script) ∧
      List.Forall₂ MadeOf clusters (assemble tokens) ∧
      (∀ spaces style, typeset spaces style tokens =
        (assemble tokens).head?.elim [] Token.text ++
          spacedTail spaces style (assemble tokens)) ∧
      ((∀ cluster ∈ clusters, ∀ a ∈ cluster.parts, a.accents ≠ [] → a.Seated) ↔
        tokens.IsChain Supports) := by
  obtain ⟨clusters, htokens, hlater, hforall⟩ := assemble_clusters tokens
  refine ⟨clusters, ?_, hlater, hforall, fun spaces style => joinAtoms_eq spaces style _, ?_⟩
  · rw [← htokens, withPlaceholder_eq]
  · have hparts : clusters.flatMap Cluster.tokens =
        (clusters.flatMap Cluster.parts).flatMap Accented.tokens := List.flatMap_assoc.symm
    rw [← isChain_withPlaceholder, htokens, hparts, isChain_accented, List.forall_mem_flatMap]

lemma tokenOf?_hat : tokenOf? .standard ['h', 'a', 't'] = some ⟨.accent, ['\u0302']⟩ := by
  have hmem : ("hat", Macro.token ⟨.accent, "\u0302".toList⟩) ∈ Standard.marks :=
    List.mem_append_left _ (List.mem_map_of_mem (a := ("hat", "\u0302")) (by decide))
  have hlookup : Registry.standard.lookup ['h', 'a', 't'] =
      some (.token ⟨.accent, ['\u0302']⟩) := by
    simpa using lookup_mark hmem
  rw [tokenOf?, hlookup]

/-- An accent over an empty group is all of the text of its atom. Nothing is set between two
ordinary atoms, so it is set on the letter before. -/
theorem accent_over_empty_group :
    let T : Typesetter := ⟨.standard, {}⟩
    let items : List Item := [.char 'a', .command ['h', 'a', 't'], .group []]
    let tokens : List Token := [⟨.ord, ['𝑎']⟩, ⟨.accent, ['\u0302']⟩, ⟨.ord, []⟩]
    printAll items = ['a', '\\', 'h', 'a', 't', '{', '}'] ∧ T.tokenize (printAll items) = tokens ∧
      assemble tokens = [⟨.ord, ['𝑎']⟩, ⟨.ord, ['\u0302']⟩] ∧
      T.transform (printAll items) = ['𝑎', '\u0302'] := by
  intro T items tokens
  have hT : T.registry = .standard := by simp only [T]
  have hformed : allWellFormed T.registry items = true := by
    have hname : isControlName ['h', 'a', 't'] = true := by decide
    have hplain : isPlain 'a' = true := by decide
    have hopen : isLetter '{' = false := by decide
    rw [hT]
    simp [items, allWellFormed, Item.wellFormed, Item.endsInWord, tokenOf?_hat, hname, hplain,
      printAll, Item.print, beginsWithLetter, hopen]
  have hmeaning : denoteAll T.registry T.settings.letterStyle T.settings.spaces items
      T.settings.maxDepth .text = tokens := by
    rw [hT]
    simp only [items, denoteAll, Item.denote, tokenOf?_hat, Option.toList_some]
    rfl
  have htokens : T.tokenize (printAll items) = tokens := by
    rw [← hmeaning]
    exact (setsTo_all T exactRemembering items T.settings.maxDepth .text [] hformed
      fun _ => rfl).tokenize
  refine ⟨by decide, htokens, by decide, ?_⟩
  rw [Typesetter.transform, htokens]
  decide

end Proofs

end MathMarkup
