import MathMarkup.Notice
import MathMarkup.Script

/-!
# Registry

A registry maps names to macros. The first macro that is stored under a name stays there. The two
script macros are kept apart under names that nothing can be stored under.
-/

namespace MathMarkup

inductive Candidate where
  | definition (definition : Macro)
  | token (token : Token)
  | text (text : Text)
  /-- A value that no macro can be built from, by the name of its kind. -/
  | other (kind : String)

inductive RegistryError where
  | reservedName (name : Text)
  | notAMacro (kind : String)
  deriving DecidableEq, Repr

def RegistryError.message : RegistryError → String
  | .reservedName name => macroText name ++ " is reserved for internal use"
  | .notAMacro kind =>
    "cannot build a macro from " ++ kind ++ "; wrap callables with MacroRegistry.function()"

def Candidate.toMacro : Candidate → Except RegistryError Macro
  | .definition m => .ok m
  | .token t => .ok (.token t)
  | .text t => .ok (.text t)
  | .other kind => .error (.notAMacro kind)

def reservedMacros : List (Text × Macro) :=
  [("superscript".toList, .function superscript), ("subscript".toList, .function subscript)]

structure Registry where
  entries : List (Text × Macro) := []

structure Registration where
  registry : Registry
  stored : Bool
  notice : Notice

/-- What came of a request to store several macros. If one of them was refused, those after it
were not looked at. -/
structure TableRegistration where
  registry : Registry
  notices : List Notice := []
  refused : Option RegistryError := none

namespace Registry

def lookup (r : Registry) (name : Text) : Option Macro := r.entries.lookup name

/-- The macro under a reserved name. It is the same in every registry. -/
def lookupReserved (_ : Registry) (name : Text) : Option Macro := reservedMacros.lookup name

def has (r : Registry) (name : Text) : Bool := (r.lookup name).isSome

def size (r : Registry) : Nat := r.entries.length

def names (r : Registry) : List Text :=
  (r.entries.map Prod.fst).mergeSort fun a b => !b.lex a fun c d => c < d

/-- Stores a candidate under a name unless the name is taken. A reserved name is refused before
the candidate is looked at, and an unusable candidate whether or not the name is taken. -/
def register (r : Registry) (name : Text) (candidate : Candidate) :
    Except RegistryError Registration :=
  if (r.lookupReserved name).isSome then .error (.reservedName name)
  else
    match candidate.toMacro with
    | .error e => .error e
    | .ok m =>
      if r.has name then .ok ⟨r, false, .skipped name⟩
      else .ok ⟨⟨r.entries ++ [(name, m)]⟩, true, .registered name m.kind⟩

def update (r : Registry) : List (Text × Candidate) → TableRegistration
  | [] => { registry := r }
  | (name, candidate) :: table =>
    match r.register name candidate with
    | .error e => { registry := r, refused := some e }
    | .ok registration =>
      let later := registration.registry.update table
      { later with notices := registration.notice :: later.notices }

end Registry

end MathMarkup
