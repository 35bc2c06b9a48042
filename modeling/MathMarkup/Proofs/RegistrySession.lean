import MathMarkup.Standard
import Mathlib.Data.Char
import Mathlib.Data.List.Lex
import Mathlib.Data.List.Nodup
import Mathlib.Tactic.Lemma

/-!
# Registry sessions

A host fills a registry by single registrations, functions, tables and the standard macros, in any
order and with any names and values. Whether a request is refused does not depend on what is stored
already. So a session is a list of macros to store, one after the other, and under each name the
first of them is found from then on.
-/

namespace MathMarkup

/-- What a host does to fill a registry. -/
inductive Operation where
  | register (name : Text) (candidate : Candidate)
  | function (name : Text) (arity : Nat) (preparse : Bool) (f : List Text → Reply)
  | update (table : List (Text × Candidate))
  | addStandard

namespace Registry

def registerOne (r : Registry) (name : Text) (candidate : Candidate) : TableRegistration :=
  match r.register name candidate with
  | .error e => { registry := r, refused := some e }
  | .ok registration => { registry := registration.registry, notices := [registration.notice] }

def perform (r : Registry) : Operation → TableRegistration
  | .register name candidate => r.registerOne name candidate
  | .function name arity preparse f =>
    r.registerOne name (.definition (.function (.ofFunction arity preparse f)))
  | .update table => r.update table
  | .addStandard => r.addStandard

def withStandard (r : Registry) : Registry := r.addStandard.registry

/-- The registry after a session. What is refused in an operation does not end the session. -/
def after (r : Registry) (session : List Operation) : Registry :=
  session.foldl (fun r operation => (r.perform operation).registry) r

end Registry

/-! ### What a session asks for -/

def Operation.requests : Operation → List (Text × Candidate)
  | .register name candidate => [(name, candidate)]
  | .function name arity preparse f =>
    [(name, .definition (.function (.ofFunction arity preparse f)))]
  | .update table => table
  | .addStandard => Standard.definitions.map fun entry => (entry.1.toList, .definition entry.2)

/-- The macro that a request is for, or why it is refused in any registry. -/
def accept (name : Text) (candidate : Candidate) : Except RegistryError Macro :=
  if (reservedMacros.lookup name).isSome then .error (.reservedName name) else candidate.toMacro

/-- The macros of the requests before the first one that is refused. -/
def accepted : List (Text × Candidate) → List (Text × Macro)
  | [] => []
  | (name, candidate) :: requests =>
    match accept name candidate with
    | .error _ => []
    | .ok m => (name, m) :: accepted requests

/-- The macros that an operation stores if their names are free, in the order of storing. -/
def Operation.macros (operation : Operation) : List (Text × Macro) := accepted operation.requests

def Registry.store (r : Registry) (entry : Text × Macro) : Registry :=
  if r.has entry.1 then r else ⟨r.entries ++ [entry]⟩

namespace Proofs

variable {r : Registry} {name : Text} {candidate : Candidate} {m : Macro} {e : RegistryError}

lemma register_of_error (r : Registry) (h : accept name candidate = .error e) :
    r.register name candidate = .error e := by
  unfold accept at h
  unfold Registry.register Registry.lookupReserved
  split
  · next hreserved =>
    rw [if_pos hreserved] at h
    exact congrArg Except.error (Except.error.inj h)
  · next hfree =>
    rw [if_neg hfree] at h
    rw [h]

lemma register_of_ok (r : Registry) (h : accept name candidate = .ok m) :
    ∃ registration, r.register name candidate = .ok registration ∧
      registration.registry = r.store (name, m) ∧ registration.stored = !r.has name := by
  unfold accept at h
  unfold Registry.register Registry.lookupReserved Registry.store
  split
  · next hreserved =>
    rw [if_pos hreserved] at h
    cases h
  · next hfree =>
    rw [if_neg hfree] at h
    rw [h]
    by_cases hhas : r.has name
    · exact ⟨_, if_pos hhas, (if_pos hhas).symm, by rw [hhas]; rfl⟩
    · exact ⟨_, if_neg hhas, (if_neg hhas).symm, by simp [hhas]⟩

lemma update_eq_foldl (r : Registry) (table : List (Text × Candidate)) :
    (r.update table).registry = (accepted table).foldl Registry.store r := by
  induction table generalizing r with
  | nil => rfl
  | cons entry table ih =>
    obtain ⟨name, candidate⟩ := entry
    rw [Registry.update, accepted]
    cases haccept : accept name candidate with
    | error e => simp only [register_of_error r haccept, List.foldl_nil]
    | ok m =>
      obtain ⟨registration, hregister, hregistry, -⟩ := register_of_ok r haccept
      simp only [hregister, List.foldl_cons, ← hregistry]
      exact ih registration.registry

lemma registerOne_eq_update (r : Registry) (name : Text) (candidate : Candidate) :
    r.registerOne name candidate = r.update [(name, candidate)] := by
  unfold Registry.registerOne
  rw [Registry.update]
  cases r.register name candidate <;> rfl

lemma perform_eq_update (r : Registry) (operation : Operation) :
    r.perform operation = r.update operation.requests := by
  cases operation with
  | register name candidate => exact registerOne_eq_update r name candidate
  | function name arity preparse f => exact registerOne_eq_update r name _
  | update table => rfl
  | addStandard => rfl

/-- A session is the storing of its macros one by one. -/
theorem after_eq_foldl (r : Registry) (session : List Operation) :
    r.after session = (session.flatMap Operation.macros).foldl Registry.store r := by
  induction session generalizing r with
  | nil => rfl
  | cons operation session ih =>
    have hfirst : (r.perform operation).registry = operation.macros.foldl Registry.store r := by
      rw [perform_eq_update, update_eq_foldl]
      rfl
    rw [List.flatMap_cons, List.foldl_append, ← hfirst]
    exact ih (r.perform operation).registry

/-! ### Storing one macro -/

lemma lookup_store (r : Registry) (entry : Text × Macro) (name : Text) :
    (r.store entry).lookup name = (r.lookup name).or (List.lookup name [entry]) := by
  obtain ⟨key, m⟩ := entry
  unfold Registry.store
  split
  · next hhas =>
    obtain ⟨found, hfound⟩ := Option.isSome_iff_exists.mp hhas
    by_cases hname : name = key
    · rw [hname, hfound]
      rfl
    · simp [List.lookup_cons, beq_false_of_ne hname]
  · exact List.lookup_append

lemma lookup_foldl_store (r : Registry) (macros : List (Text × Macro)) (name : Text) :
    (macros.foldl Registry.store r).lookup name = (r.lookup name).or (macros.lookup name) := by
  induction macros generalizing r with
  | nil => simp
  | cons entry macros ih =>
    have hsplit : (entry :: macros).lookup name =
        (List.lookup name [entry]).or (macros.lookup name) := by
      rw [← List.lookup_append, List.singleton_append]
    rw [List.foldl_cons, ih, lookup_store, hsplit, Option.or_assoc]

def reservedNames : List Text := reservedMacros.map Prod.fst

/-- No name is stored twice, and none of those stored is reserved. -/
structure WellFormed (r : Registry) : Prop where
  nodup : (r.entries.map Prod.fst).Nodup
  free : ∀ entry ∈ r.entries, entry.1 ∉ reservedNames

lemma isSome_lookup_iff {κ : Type} [BEq κ] [LawfulBEq κ] (entries : List (κ × Macro)) (name : κ) :
    (entries.lookup name).isSome ↔ name ∈ entries.map Prod.fst := by
  induction entries with
  | nil => simp
  | cons entry entries ih =>
    obtain ⟨key, m⟩ := entry
    by_cases hname : name = key
    · simp [hname]
    · simp [hname, List.lookup_cons, beq_false_of_ne hname, ih]

lemma lookup_eq_none_iff {κ : Type} [BEq κ] [LawfulBEq κ] (entries : List (κ × Macro)) (name : κ) :
    entries.lookup name = none ↔ name ∉ entries.map Prod.fst := by
  rw [← isSome_lookup_iff, Bool.not_eq_true, Option.isSome_eq_false_iff, Option.isNone_iff_eq_none]

lemma WellFormed.store (h : WellFormed r) {entry : Text × Macro}
    (hfree : entry.1 ∉ reservedNames) : WellFormed (r.store entry) := by
  unfold Registry.store
  split
  · exact h
  · next hhas =>
    have hhas := mt (isSome_lookup_iff r.entries entry.1).mpr hhas
    refine ⟨?_, ?_⟩
    · rw [List.map_append]
      exact h.nodup.append (List.nodup_singleton _) (by simpa using hhas)
    · intro other hother
      rcases List.mem_append.mp hother with hold | hnew
      · exact h.free other hold
      · rw [List.mem_singleton.mp hnew]
        exact hfree

lemma free_of_accept (h : accept name candidate = .ok m) : name ∉ reservedNames := by
  unfold accept at h
  split at h
  · cases h
  · next hfree => exact mt (isSome_lookup_iff reservedMacros name).mpr hfree

lemma free_of_mem_accepted {requests : List (Text × Candidate)} {entry : Text × Macro}
    (h : entry ∈ accepted requests) : entry.1 ∉ reservedNames := by
  induction requests with
  | nil => cases h
  | cons request requests ih =>
    rw [accepted] at h
    split at h
    · cases h
    · next m haccept =>
      rcases List.mem_cons.mp h with rfl | hlater
      · exact free_of_accept haccept
      · exact ih hlater

lemma WellFormed.foldl_store {macros : List (Text × Macro)} (h : WellFormed r)
    (hfree : ∀ entry ∈ macros, entry.1 ∉ reservedNames) :
    WellFormed (macros.foldl Registry.store r) := by
  induction macros generalizing r with
  | nil => exact h
  | cons entry macros ih =>
    exact ih (h.store (hfree entry List.mem_cons_self))
      fun later hlater => hfree later (List.mem_cons_of_mem _ hlater)

theorem WellFormed.after (h : WellFormed r) (session : List Operation) :
    WellFormed (r.after session) := by
  rw [after_eq_foldl]
  apply h.foldl_store
  intro entry hentry
  obtain ⟨operation, -, hmacros⟩ := List.mem_flatMap.mp hentry
  exact free_of_mem_accepted hmacros

/-! ### Names in order -/

lemma accept_of_free (h : name ∉ reservedNames) (candidate : Candidate) :
    accept name candidate = candidate.toMacro :=
  if_neg (mt (isSome_lookup_iff reservedMacros name).mp h)

-- Stated on its own: unfolded any further, the registry would be computed entry by entry.
lemma standard_eq : Registry.standard = Registry.withStandard {} := rfl

/-- The table is stored up to the reserved name in it, and the session goes on after it. -/
example :
    let r := ({} : Registry).after
      [.update [(['S'], .text ['2']), ("subscript".toList, .text []), (['T'], .text ['3'])],
        .function ['R'] 0 false fun _ => .nothing]
    r.has ['S'] = true ∧ r.has ['T'] = false ∧ r.has ['R'] = true := by
  decide

end Proofs

end MathMarkup
