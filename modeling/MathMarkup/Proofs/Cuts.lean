import MathMarkup.Proofs.BinaryOperators
import MathMarkup.Proofs.Clusters

/-!
# Where token lists can be cut

Each pass of assembly looks across some gaps between tokens. Accents move to the right, scripts to
the left, and an operator looks both ways. At a gap that none of them looks across, both parts are
assembled as if each stood alone, and setting adds nothing but the space between them.
-/

namespace MathMarkup

namespace Proofs

/-! ### Accents -/

lemma withPlaceholder_append (xs : List Token) {ys : List Token} (hys : ys ≠ []) :
    withPlaceholder (xs ++ ys) = xs ++ withPlaceholder ys := by
  have hend : endsWithAccent (xs ++ ys) = endsWithAccent ys := by
    rw [endsWithAccent, List.getLast?_append_of_ne_nil xs hys, endsWithAccent]
  rw [withPlaceholder_eq, hend, List.append_assoc, ← withPlaceholder_eq]

lemma stackAccents_append (marks : Text) {xs : List Token} (hxs : xs ≠ [])
    (hlast : ∀ t ∈ xs.getLast?, t.atom ≠ .accent) (ys : List Token) :
    stackAccents marks (xs ++ ys) = stackAccents marks xs ++ stackAccents [] ys := by
  induction xs generalizing marks with
  | nil => exact absurd rfl hxs
  | cons t xs ih =>
    rw [List.cons_append, stackAccents, stackAccents]
    cases xs with
    | nil =>
      have hplain : t.atom ≠ .accent := hlast t rfl
      simp [hplain, stackAccents]
    | cons u xs =>
      have hnext := fun marks => ih marks (List.cons_ne_nil u xs) hlast
      rw [hnext, hnext]
      split <;> rfl

lemma withPlaceholder_of_last {xs : List Token} (hlast : ∀ t ∈ xs.getLast?, t.atom ≠ .accent) :
    withPlaceholder xs = xs := by
  rw [withPlaceholder]
  split
  · next last hfound => exact if_neg (hlast last hfound)
  · rfl

lemma foldAccents_append {xs ys : List Token} (hxs : xs ≠ []) (hys : ys ≠ [])
    (hlast : ∀ t ∈ xs.getLast?, t.atom ≠ .accent) :
    foldAccents (xs ++ ys) = foldAccents xs ++ foldAccents ys := by
  rw [foldAccents, withPlaceholder_append xs hys, stackAccents_append [] hxs hlast, foldAccents,
    withPlaceholder_of_last hlast, foldAccents]

/-- Folding accents takes them away and keeps the classes of the others. -/
lemma map_atom_stackAccents (marks : Text) (tokens : List Token) :
    (stackAccents marks tokens).map Token.atom =
      (tokens.filter fun t => t.atom ≠ .accent).map Token.atom := by
  induction tokens generalizing marks with
  | nil => rfl
  | cons t tokens ih =>
    rw [stackAccents]
    by_cases haccent : t.atom = .accent
    · simp [haccent, ih]
    · simp [haccent, ih, Token.mark]

/-! ### Scripts -/

lemma attachScripts?_append {done tokens atoms : List Token}
    (h : attachScripts? done tokens = some atoms) (later : List Token) :
    attachScripts? done (tokens ++ later) = attachScripts? atoms.reverse later := by
  induction tokens generalizing done with
  | nil =>
    obtain rfl : done.reverse = atoms := Option.some.inj h
    rw [List.nil_append, List.reverse_reverse]
  | cons t tokens ih =>
    rw [attachScripts?.eq_def] at h
    rw [List.cons_append, attachScripts?.eq_def]
    dsimp only at h ⊢
    split at h
    · next hscript =>
      rw [if_pos hscript]
      cases done with
      | nil => cases h
      | cons base before => exact ih h
    · next hscript =>
      rw [if_neg hscript]
      exact ih h

/-- Scripts belong to the atom before them, so they leave those before it alone. -/
lemma attachScripts?_cons_append (base : Token) (done below tokens : List Token) :
    attachScripts? (base :: (done ++ below)) tokens =
      (attachScripts? (base :: done) tokens).map (below.reverse ++ ·) := by
  induction tokens generalizing base done with
  | nil => simp [attachScripts?]
  | cons t tokens ih =>
    rw [attachScripts?, attachScripts?]
    split
    · exact ih (base.append t.text) done
    · exact ih t (base :: done)

lemma foldScripts_append {xs ys : List Token} (hxs : xs ≠ [])
    (hfirst : ∀ t ∈ ys.head?, t.atom ≠ .script ∧ t.atom ≠ .bin) :
    foldScripts (xs ++ ys) = foldScripts xs ++ foldScripts ys := by
  have hlead : ordinaryLead (xs ++ ys) = ordinaryLead xs ++ ys := by
    cases xs with
    | nil => exact absurd rfl hxs
    | cons t xs => rfl
  have hattach := attachScripts?_append (attachScripts?_ordinaryLead xs) ys
  rw [← hlead, attachScripts?_ordinaryLead] at hattach
  cases ys with
  | nil =>
    have hnil : foldScripts [] = [] := rfl
    rw [hnil, List.append_nil, List.append_nil]
  | cons t ys =>
    have hplain := hfirst t rfl
    have hlead' : ordinaryLead (t :: ys) = t :: ys := by
      rw [ordinaryLead, if_neg (not_or.mpr hplain)]
    have hlater := attachScripts?_ordinaryLead (t :: ys)
    rw [hlead', attachScripts?, if_neg hplain.1] at hlater
    have hbelow := attachScripts?_cons_append t [] (foldScripts xs).reverse ys
    rw [List.nil_append, hlater, List.reverse_reverse, Option.map_some] at hbelow
    rw [attachScripts?.eq_def] at hattach
    dsimp only at hattach
    rw [if_neg hplain.1, hbelow] at hattach
    exact Option.some.inj hattach

/-- The last atom has the class of the last token that is no script. -/
lemma getLast?_attachScripts? {done tokens atoms : List Token}
    (h : attachScripts? done tokens = some atoms) :
    atoms.getLast?.map Token.atom =
      ((tokens.reverse.find? fun t => t.atom ≠ .script).or done.head?).map Token.atom := by
  induction tokens generalizing done with
  | nil =>
    obtain rfl : done.reverse = atoms := Option.some.inj h
    simp
  | cons t tokens ih =>
    rw [attachScripts?.eq_def] at h
    dsimp only at h
    rw [List.reverse_cons, List.find?_append]
    split at h
    · next hscript =>
      cases done with
      | nil => cases h
      | cons base before =>
        rw [ih h]
        cases tokens.reverse.find? fun t => t.atom ≠ .script <;> simp [hscript, Token.append]
    · next hscript =>
      rw [ih h]
      cases tokens.reverse.find? fun t => t.atom ≠ .script <;> simp [hscript]

/-- The first atom has the class of the first token. -/
lemma head?_attachScripts? {done tokens atoms : List Token}
    (h : attachScripts? done tokens = some atoms) :
    atoms.head?.map Token.atom = (done.getLast?.or tokens.head?).map Token.atom := by
  induction tokens generalizing done with
  | nil =>
    obtain rfl : done.reverse = atoms := Option.some.inj h
    simp
  | cons t tokens ih =>
    rw [attachScripts?.eq_def] at h
    dsimp only at h
    split at h
    · cases done with
      | nil => cases h
      | cons base before =>
        rw [ih h, List.getLast?_cons, List.getLast?_cons]
        cases before.getLast? <;> rfl
    · rw [ih h, List.getLast?_cons]
      cases done.getLast? <;> rfl

lemma exists_ordinaryLead (t : Token) (tokens : List Token) :
    ∃ lead, ordinaryLead (t :: tokens) = lead :: tokens ∧ lead.atom ≠ .script ∧
      lead.atom ≠ .bin := by
  refine ⟨_, rfl, ?_⟩
  split
  · exact ⟨nofun, nofun⟩
  · next hplain => exact not_or.mp hplain

lemma head?_foldScripts (tokens : List Token) :
    ∀ t ∈ (foldScripts tokens).head?, t.atom ≠ .bin := by
  have hhead := head?_attachScripts? (attachScripts?_ordinaryLead tokens)
  intro t ht hbin
  rw [ht, Option.map_some, hbin] at hhead
  cases tokens with
  | nil => cases hhead
  | cons first tokens =>
    obtain ⟨lead, hlead, -, hplain⟩ := exists_ordinaryLead first tokens
    rw [hlead] at hhead
    exact hplain (Option.some.inj hhead).symm

lemma getLast?_foldScripts {tokens : List Token}
    (h : ∀ t ∈ tokens.reverse.find? fun t => t.atom ≠ .script, t.atom ≠ .bin) :
    ∀ t ∈ (foldScripts tokens).getLast?, t.atom ≠ .bin := by
  have hlast := getLast?_attachScripts? (attachScripts?_ordinaryLead tokens)
  intro t ht hbin
  rw [ht, Option.map_some, hbin] at hlast
  cases tokens with
  | nil => cases hlast
  | cons first tokens =>
    obtain ⟨lead, hlead, hscript, hplain⟩ := exists_ordinaryLead first tokens
    rw [hlead, List.reverse_cons, List.find?_append] at hlast
    rw [List.reverse_cons, List.find?_append] at h
    cases hlater : tokens.reverse.find? fun t => t.atom ≠ .script with
    | some last =>
      rw [hlater] at h hlast
      exact h last rfl (Option.some.inj hlast).symm
    | none =>
      rw [hlater] at hlast
      have hfound : ([lead].find? fun t => t.atom ≠ .script) = some lead := by simp [hscript]
      rw [hfound] at hlast
      exact hplain (Option.some.inj hlast).symm

/-! ### Binary operators -/

lemma settleFromLeft_append (left : Option AtomClass) (as : List Token) {bs : List Token}
    (hfirst : ∀ t ∈ bs.head?, t.atom ≠ .bin) :
    settleFromLeft left (as ++ bs) = settleFromLeft left as ++ settleFromLeft none bs := by
  induction as generalizing left with
  | nil =>
    cases bs with
    | nil => rfl
    | cons t bs =>
      have hplain : ∀ left, settledAfter left t = t := fun left => if_neg fun h => hfirst t rfl h.1
      simp only [List.nil_append, settleFromLeft, hplain]
  | cons t as ih => simp only [List.cons_append, settleFromLeft, ih]

lemma getLast?_settleFromLeft (left : Option AtomClass) {as : List Token}
    (h : ∀ t ∈ as.getLast?, t.atom ≠ .bin) :
    ∀ t ∈ (settleFromLeft left as).getLast?, t.atom ≠ .bin := by
  induction as generalizing left with
  | nil => nofun
  | cons t as ih =>
    cases as with
    | nil =>
      have hplain : settledAfter left t = t := if_neg fun hbin => h t rfl hbin.1
      simpa only [settleFromLeft, hplain] using h
    | cons u as => exact ih _ h

lemma settleFromRight_append {as : List Token} (bs : List Token)
    (hlast : ∀ t ∈ as.getLast?, t.atom ≠ .bin) :
    settleFromRight (as ++ bs) = settleFromRight as ++ settleFromRight bs := by
  induction as with
  | nil => rfl
  | cons t as ih =>
    cases as with
    | nil =>
      have hplain := settledBefore_of_ne_bin (hlast t rfl)
      simp only [List.cons_append, List.nil_append, settleFromRight, hplain]
    | cons u as =>
      have hnext := ih hlast
      simp only [List.cons_append, settleFromRight, List.head?_cons] at hnext ⊢
      rw [hnext]

lemma coerceBins_append {as bs : List Token} (hlast : ∀ t ∈ as.getLast?, t.atom ≠ .bin)
    (hfirst : ∀ t ∈ bs.head?, t.atom ≠ .bin) :
    coerceBins [] (as ++ bs) = coerceBins [] as ++ coerceBins [] bs := by
  rw [coerceBins_eq_rules, settleFromLeft_append none as hfirst,
    settleFromRight_append _ (getLast?_settleFromLeft none hlast), ← coerceBins_eq_rules,
    ← coerceBins_eq_rules]

/-! ### Assembly -/

lemma head?_stackAccents (marks : Text) (tokens : List Token) :
    (stackAccents marks tokens).head?.map Token.atom =
      (tokens.find? fun t => t.atom ≠ .accent).map Token.atom := by
  rw [← List.head?_map, map_atom_stackAccents, List.head?_map, List.head?_filter]

lemma find?_reverse_stackAccents (marks : Text) (tokens : List Token) :
    ((stackAccents marks tokens).reverse.find? fun t => t.atom ≠ .script).map Token.atom =
      (tokens.reverse.find? isBase).map Token.atom := by
  have hmap : ∀ l : List Token, (l.find? fun t => t.atom ≠ .script).map Token.atom =
      (l.map Token.atom).find? fun c => c ≠ .script := fun l => by
    rw [List.find?_map]
    rfl
  rw [hmap, List.map_reverse, map_atom_stackAccents, ← List.map_reverse, ← hmap,
    ← List.filter_reverse, List.find?_filter]
  congr 2
  funext t
  simp [isBase]

/-- Nothing in assembly looks across the gap between the two lists. -/
structure Cut (xs ys : List Token) : Prop where
  left_ne_nil : xs ≠ []
  right_ne_nil : ys ≠ []
  last : ∀ t ∈ xs.getLast?, t.atom ≠ .accent
  lastBase : ∀ t ∈ xs.reverse.find? isBase, t.atom ≠ .bin
  first : ∀ t ∈ ys.find? fun t => t.atom ≠ .accent, t.atom ≠ .script ∧ t.atom ≠ .bin

namespace Cut

variable {xs ys : List Token}

lemma foldAccents_left_ne_nil (h : Cut xs ys) : foldAccents xs ≠ [] := by
  obtain ⟨before, last, rfl⟩ := (List.eq_nil_or_concat' xs).resolve_left h.left_ne_nil
  have hlast : last.atom ≠ .accent := h.last last (by simp)
  have hatoms := map_atom_stackAccents [] (before ++ [last])
  rw [foldAccents, withPlaceholder_of_last h.last]
  intro hnil
  rw [hnil] at hatoms
  simp [hlast] at hatoms

lemma head?_foldAccents_right (h : Cut xs ys) :
    ∀ t ∈ (foldAccents ys).head?, t.atom ≠ .script ∧ t.atom ≠ .bin := by
  intro t ht
  have hhead := head?_stackAccents [] (withPlaceholder ys)
  change (foldAccents ys).head?.map Token.atom = _ at hhead
  rw [ht, withPlaceholder_eq, List.find?_append] at hhead
  have hfirst := h.first
  cases hfound : ys.find? fun t => t.atom ≠ .accent with
  | some first =>
    rw [hfound] at hfirst hhead
    have hatom : t.atom = first.atom := Option.some.inj hhead
    rw [hatom]
    exact hfirst first rfl
  | none =>
    -- There are accents only, so the placeholder comes first.
    rw [hfound] at hhead
    cases haccent : endsWithAccent ys with
    | false =>
      rw [haccent] at hhead
      cases hhead
    | true =>
      rw [haccent] at hhead
      have hatom : t.atom = .ord := Option.some.inj hhead
      rw [hatom]
      exact ⟨nofun, nofun⟩

lemma getLast?_foldScripts_left (h : Cut xs ys) :
    ∀ t ∈ (foldScripts (foldAccents xs)).getLast?, t.atom ≠ .bin := by
  apply getLast?_foldScripts
  intro t ht hbin
  have hfound := find?_reverse_stackAccents [] xs
  rw [← withPlaceholder_of_last h.last] at hfound
  change ((foldAccents xs).reverse.find? _).map Token.atom = _ at hfound
  rw [ht, withPlaceholder_of_last h.last, Option.map_some, hbin] at hfound
  obtain ⟨base, hbase, hatom⟩ := Option.map_eq_some_iff.mp hfound.symm
  exact h.lastBase base hbase hatom

theorem assemble_append (h : Cut xs ys) : assemble (xs ++ ys) = assemble xs ++ assemble ys := by
  rw [assemble, foldAccents_append h.left_ne_nil h.right_ne_nil h.last,
    foldScripts_append h.foldAccents_left_ne_nil h.head?_foldAccents_right,
    coerceBins_append h.getLast?_foldScripts_left (head?_foldScripts _)]
  rfl

end Cut

/-! ### Setting -/

lemma joinAtoms_append (spaces : Spaces) (style : Style) (before after : List Token)
    (left right : Token) :
    joinAtoms spaces style (before ++ left :: right :: after) =
      joinAtoms spaces style (before ++ [left]) ++ spaces.between style left.atom right.atom ++
        joinAtoms spaces style (right :: after) := by
  induction before with
  | nil => simp [joinAtoms]
  | cons first before ih =>
    cases before with
    | nil => simp [joinAtoms]
    | cons second before => simpa [joinAtoms] using ih

lemma assemble_ne_nil {tokens : List Token} (h : tokens ≠ []) : assemble tokens ≠ [] := by
  obtain ⟨clusters, htokens, -, hforall⟩ := assemble_clusters tokens
  intro hnil
  rw [hnil] at hforall
  cases hforall
  rw [withPlaceholder_eq, List.flatMap_nil] at htokens
  exact h (List.append_eq_nil_iff.mp htokens).1

/-- At a cut both parts are assembled on their own, and between them comes the space that the last
atom of the one and the first atom of the other ask for. -/
theorem assembled_apart_at_cut {xs ys : List Token} (h : Cut xs ys) (spaces : Spaces)
    (style : Style) :
    assemble (xs ++ ys) = assemble xs ++ assemble ys ∧
      ∃ left ∈ (assemble xs).getLast?, ∃ right ∈ (assemble ys).head?,
        typeset spaces style (xs ++ ys) =
          typeset spaces style xs ++ spaces.between style left.atom right.atom ++
            typeset spaces style ys := by
  have hassemble := h.assemble_append
  obtain ⟨before, left, hleft⟩ :=
    (List.eq_nil_or_concat' (assemble xs)).resolve_left (assemble_ne_nil h.left_ne_nil)
  obtain ⟨right, after, hright⟩ := List.exists_cons_of_ne_nil (assemble_ne_nil h.right_ne_nil)
  refine ⟨hassemble, left, by simp [hleft], right, by simp [hright], ?_⟩
  rw [typeset, hassemble, typeset, typeset, hleft, hright, List.append_assoc, List.singleton_append]
  exact joinAtoms_append spaces style before after left right

/-- A script and an accent stand right at the cut, and operators at the far ends. -/
theorem assembled_apart_at_cut_script :
    let xs : List Token := [⟨.bin, ['+']⟩, ⟨.accent, ['\u0302']⟩, ⟨.rel, ['=']⟩, ⟨.script, ['²']⟩]
    let ys : List Token := [⟨.accent, ['\u0304']⟩, ⟨.op, ['∑']⟩, ⟨.bin, ['+']⟩]
    let spaces : Spaces := ⟨[], [], [' ']⟩
    Cut xs ys ∧ assemble (xs ++ ys) = assemble xs ++ assemble ys ∧
      typeset spaces .text (xs ++ ys) =
        typeset spaces .text xs ++ [' '] ++ typeset spaces .text ys := by
  intro xs ys spaces
  have hcut : Cut xs ys := ⟨by decide, by decide, by decide, by decide, by decide⟩
  obtain ⟨hassemble, left, hleft, right, hright, hset⟩ := assembled_apart_at_cut hcut spaces .text
  refine ⟨hcut, hassemble, ?_⟩
  obtain rfl : ⟨.rel, ['=', '\u0302', '²']⟩ = left := Option.some.inj hleft
  obtain rfl : ⟨.op, ['∑', '\u0304']⟩ = right := Option.some.inj hright
  exact hset

/-- That the last token that is no script is no operator is not enough: a script with an accent
between it and an operator belongs to that operator, which has to look across the gap. -/
theorem operator_looks_past_accented_script :
    let xs : List Token :=
      [⟨.ord, ['a']⟩, ⟨.bin, ['+']⟩, ⟨.accent, ['\u0302']⟩, ⟨.script, ['²']⟩]
    let ys : List Token := [⟨.ord, ['b']⟩]
    xs ≠ [] ∧ ys ≠ [] ∧ (∀ t ∈ xs.getLast?, t.atom ≠ .accent) ∧
      (∀ t ∈ xs.reverse.find? fun t => t.atom ≠ .script, t.atom ≠ .bin) ∧
      (∀ t ∈ ys.find? fun t => t.atom ≠ .accent, t.atom ≠ .script ∧ t.atom ≠ .bin) ∧
      assemble (xs ++ ys) ≠ assemble xs ++ assemble ys := by
  decide

end Proofs

end MathMarkup
