import MathMarkup.Proofs.RegistrySession

/-!
# Looking up standard macros

In a registry that a table of macros was stored in, the first macro under a name is found, and those
that were there before come first. So the standard registry knows the standard macros and no others.
-/

namespace MathMarkup

namespace Proofs

/-! ### Registries -/

lemma accepted_definitions {table : List (Text × Macro)}
    (hfree : ∀ entry ∈ table, entry.1 ∉ reservedNames) :
    accepted (table.map fun entry => (entry.1, .definition entry.2)) = table := by
  induction table with
  | nil => rfl
  | cons entry table ih =>
    have haccept : accept entry.1 (.definition entry.2) = .ok entry.2 :=
      accept_of_free (hfree entry List.mem_cons_self) _
    rw [List.map_cons, accepted, haccept,
      ih fun later hlater => hfree later (List.mem_cons_of_mem _ hlater)]

lemma lookup_update (r : Registry) {table : List (Text × Macro)}
    (hfree : ∀ entry ∈ table, entry.1 ∉ reservedNames) (name : Text) :
    (r.update (table.map fun entry => (entry.1, .definition entry.2))).registry.lookup name =
      (r.lookup name).or (table.lookup name) := by
  rw [update_eq_foldl, lookup_foldl_store, accepted_definitions hfree]

/-! ### The standard registry -/

lemma not_reserved_of_mem_definitions {entry : String × Macro} (h : entry ∈ Standard.definitions) :
    entry.1.toList ∉ reservedNames := by
  have hfree : ∀ name ∈ Standard.definitions.map Prod.fst,
      name ≠ "superscript" ∧ name ≠ "subscript" := by
    decide +kernel
  have hname := hfree entry.1 (List.mem_map_of_mem h)
  have hsuper : entry.1.toList ≠ "superscript".toList := fun heq =>
    hname.1 (String.toList_inj.mp heq)
  have hsub : entry.1.toList ≠ "subscript".toList := fun heq =>
    hname.2 (String.toList_inj.mp heq)
  simp only [reservedNames, reservedMacros, List.map_cons, List.map_nil, List.mem_cons,
    List.not_mem_nil, or_false, not_or]
  exact ⟨hsuper, hsub⟩

lemma lookup_withStandard (r : Registry) (name : Text) :
    r.withStandard.lookup name = (r.lookup name).or
      ((Standard.definitions.map fun entry => (entry.1.toList, entry.2)).lookup name) := by
  have hreserved : ∀ entry ∈ Standard.definitions.map fun entry => (entry.1.toList, entry.2),
      entry.1 ∉ reservedNames := by
    intro entry hentry
    obtain ⟨defined, hdefined, rfl⟩ := List.mem_map.mp hentry
    exact not_reserved_of_mem_definitions hdefined
  have hstored : (fun entry : String × Macro => (entry.1.toList, Candidate.definition entry.2)) =
      (fun entry : Text × Macro => (entry.1, Candidate.definition entry.2)) ∘
        fun entry => (entry.1.toList, entry.2) := rfl
  rw [Registry.withStandard, Registry.addStandard, hstored, ← List.map_map,
    lookup_update r hreserved]

lemma lookup_standard (name : Text) :
    Registry.standard.lookup name =
      (Standard.definitions.map fun entry => (entry.1.toList, entry.2)).lookup name := by
  rw [standard_eq, lookup_withStandard]
  rfl

lemma mem_definitions_of_lookup {name : Text} {m : Macro}
    (h : Registry.standard.lookup name = some m) : ∃ entry ∈ Standard.definitions, entry.2 = m := by
  rw [lookup_standard, List.lookup_eq_some_iff] at h
  obtain ⟨before, after, hsplit, -⟩ := h
  have hmem : (name, m) ∈ Standard.definitions.map fun entry => (entry.1.toList, entry.2) := by
    rw [hsplit]
    simp
  obtain ⟨entry, hentry, heq⟩ := List.mem_map.mp hmem
  exact ⟨entry, hentry, congrArg Prod.snd heq⟩

lemma lookup_map_toList (definitions : Standard.Definitions) (name : String) :
    (definitions.map fun entry => (entry.1.toList, entry.2)).lookup name.toList =
      definitions.lookup name := by
  induction definitions with
  | nil => rfl
  | cons entry definitions ih =>
    have hname : (name.toList == entry.1.toList) = (name == entry.1) := by
      rw [Bool.eq_iff_iff, beq_iff_eq, beq_iff_eq, String.toList_inj]
    rw [List.map_cons, List.lookup_cons, List.lookup_cons, hname, ih]

lemma lookup_eq_of_mem {table : Standard.Definitions} (h : (table.map Prod.fst).Nodup)
    {entry : String × Macro} (hentry : entry ∈ table) : table.lookup entry.1 = some entry.2 := by
  induction table with
  | nil => cases hentry
  | cons first table ih =>
    rw [List.map_cons, List.nodup_cons] at h
    rw [List.lookup_cons]
    rcases List.mem_cons.mp hentry with rfl | hlater
    · simp
    · have hname : (entry.1 == first.1) = false := by
        rw [beq_eq_false_iff_ne]
        intro heq
        exact h.1 (heq ▸ List.mem_map_of_mem hlater)
      rw [hname]
      exact ih h.2 hlater

/-- A macro of a table whose names are new when it is stored, and all different, is found. -/
lemma lookup_of_mem_table {before table after : Standard.Definitions}
    (hsplit : Standard.definitions = before ++ table ++ after)
    (hnodup : (table.map Prod.fst).Nodup)
    (hnew : ∀ entry ∈ table, entry.1 ∉ before.map Prod.fst) {entry : String × Macro}
    (h : entry ∈ table) : Registry.standard.lookup entry.1.toList = some entry.2 := by
  rw [lookup_standard, lookup_map_toList, hsplit, List.lookup_append, List.lookup_append,
    (lookup_eq_none_iff before entry.1).mpr (hnew entry h), lookup_eq_of_mem hnodup h]
  rfl

lemma lookup_font {entry : String × Macro} (h : entry ∈ Standard.fonts) :
    Registry.standard.lookup entry.1.toList = some entry.2 :=
  lookup_of_mem_table rfl (by decide +kernel) (by decide +kernel) h

lemma lookup_construction {entry : String × Macro} (h : entry ∈ Standard.constructions) :
    Registry.standard.lookup entry.1.toList = some entry.2 := by
  have hsplit : Standard.definitions = (Standard.allSymbols ++ Standard.abbreviations) ++
      Standard.constructions ++ (Standard.fonts ++ Standard.marks) := by
    rw [Standard.definitions, List.append_assoc _ Standard.fonts]
  exact lookup_of_mem_table hsplit (by decide +kernel) (by decide +kernel) h

lemma lookup_mark {entry : String × Macro} (h : entry ∈ Standard.marks) :
    Registry.standard.lookup entry.1.toList = some entry.2 := by
  have hsplit : Standard.definitions = (Standard.allSymbols ++ Standard.abbreviations ++
      Standard.constructions ++ Standard.fonts) ++ Standard.marks ++ [] := by
    rw [Standard.definitions, List.append_nil]
  exact lookup_of_mem_table hsplit (by decide +kernel) (by decide +kernel) h

def ordinarySymbols : Standard.SymbolTable :=
  Standard.greekSmall ++ Standard.greekCapital ++ Standard.letterlike ++ Standard.spaces ++
    Standard.escapes

lemma exists_definitions_eq_ordinarySymbols :
    ∃ after, Standard.definitions = [] ++ Standard.symbols .ord ordinarySymbols ++ after := by
  rw [Standard.definitions, Standard.allSymbols, ← ordinarySymbols]
  generalize Standard.symbols .ord ordinarySymbols = table
  simp only [List.append_assoc, List.nil_append]
  exact ⟨_, rfl⟩

lemma lookup_ordinarySymbol {symbol : String × String} (h : symbol ∈ ordinarySymbols) :
    Registry.standard.lookup symbol.1.toList = some (.token ⟨.ord, symbol.2.toList⟩) := by
  have hentry : (symbol.1, Macro.token ⟨.ord, symbol.2.toList⟩) ∈
      Standard.symbols .ord ordinarySymbols := List.mem_map_of_mem h
  obtain ⟨after, hsplit⟩ := exists_definitions_eq_ordinarySymbols
  have hfound := lookup_of_mem_table hsplit (by decide +kernel) (by simp) hentry
  exact hfound

/-! ### What the tables hold -/

lemma token_of_mem_symbols {atom : AtomClass} {table : Standard.SymbolTable}
    {entry : String × Macro} (h : entry ∈ Standard.symbols atom table) :
    ∃ token, entry.2 = .token token := by
  obtain ⟨symbol, -, rfl⟩ := List.mem_map.mp h
  exact ⟨_, rfl⟩

lemma token_of_mem_allSymbols {entry : String × Macro} (h : entry ∈ Standard.allSymbols) :
    ∃ token, entry.2 = .token token := by
  simp only [Standard.allSymbols, List.mem_append] at h
  rcases h with ((((((h | h) | h) | h) | h) | h) | h) | h
  all_goals exact token_of_mem_symbols h

lemma text_of_mem_abbreviations {entry : String × Macro} (h : entry ∈ Standard.abbreviations) :
    ∃ text, entry.2 = .text text := by
  simp only [Standard.abbreviations, List.mem_append, List.mem_map, List.mem_cons,
    List.not_mem_nil, or_false] at h
  rcases h with ((⟨_, -, rfl⟩ | rfl) | ⟨_, -, rfl⟩) | h
  case inr => rcases h with rfl | rfl | rfl | rfl | rfl | rfl | rfl <;> exact ⟨_, rfl⟩
  all_goals exact ⟨_, rfl⟩

end Proofs

end MathMarkup
