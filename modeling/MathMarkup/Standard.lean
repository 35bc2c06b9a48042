import MathMarkup.Registry
import MathMarkup.Standard.Functions
import MathMarkup.Standard.Symbols

/-!
# Standard macros

The macros that every application has from the start, in the order in which they are stored, and
the registry that holds just them.
-/

namespace MathMarkup

namespace Standard

abbrev Definitions := List (String × Macro)

def symbols (atom : AtomClass) (table : SymbolTable) : Definitions :=
  table.map fun entry => (entry.1, .token ⟨atom, entry.2.toList⟩)

def allSymbols : Definitions :=
  symbols .ord (greekSmall ++ greekCapital ++ letterlike ++ spaces ++ escapes) ++
    symbols .op largeOperators ++ symbols .bin binaryOperators ++ symbols .rel relations ++
    symbols .opening openings ++ symbols .closing closings ++ symbols .punct punctuation ++
    symbols .inner ellipses

def limitText (bound : Text) : Text :=
  commandText "mathop" ++ groupText (commandText "textrm" ++ groupText "lim".toList ++
    commandText "," ++ commandText "textrm" ++ groupText bound)

/-- Macros that stand for other markup. A negative space cannot be set, and limits are always set
in one way, so these stand for nothing. -/
def abbreviations : Definitions :=
  (latinLookalikes.map fun entry =>
      (entry.1, .text (commandText "textrm" ++ groupText entry.2.toList))) ++
    [("!", .text [])] ++
    (operatorNames.map fun name => (name, .text (operatorText name.toList))) ++
    [("liminf", .text (limitText "inf".toList)),
      ("limsup", .text (limitText "sup".toList)),
      ("bmod", .text (commandText "mathbin" ++
        groupText (commandText "textrm" ++ groupText "mod".toList))),
      ("Re", .text (commandText "mathfrak" ++ groupText "R".toList)),
      ("Im", .text (commandText "mathfrak" ++ groupText "I".toList)),
      ("limits", .text []),
      ("nolimits", .text [])]

def constructions : Definitions :=
  [("mathord", .function (.ofClass .ord)),
    ("mathop", .function (.ofClass .op)),
    ("mathbin", .function (.ofClass .bin)),
    ("mathrel", .function (.ofClass .rel)),
    ("mathopen", .function (.ofClass .opening)),
    ("mathclose", .function (.ofClass .closing)),
    ("mathpunct", .function (.ofClass .punct)),
    ("mathinner", .function (.ofClass .inner)),
    ("not", .function .negated),
    ("text", .function .verbatim),
    ("textrm", .function .verbatim),
    ("mbox", .function .verbatim),
    ("operatorname", .function .operatorName),
    ("sqrt", .function .squareRoot),
    ("mod", .function .modulus),
    ("pmod", .function .parenthesizedModulus)]

def fonts : Definitions :=
  [("mathbb", .function (.font .doubleStruck)),
    ("mathfrak", .function (.font .fraktur)),
    ("mathtt", .function (.font .monospace)),
    ("mathbf", .function (.font .bold)),
    ("mathsf", .function (.font .sans)),
    ("mathcal", .function (.font .calligraphic)),
    ("mathrm", .function .upright)]

def marks : Definitions :=
  symbols .accent accents ++
    [("overline", .function (.overlay '\u0305')), ("underline", .function (.overlay '\u0332'))]

/-- Every standard macro, in the order of storing. -/
def definitions : Definitions := allSymbols ++ abbreviations ++ constructions ++ fonts ++ marks

end Standard

namespace Registry

/-- Stores the standard macros; what is there already stays. -/
def addStandard (r : Registry) : TableRegistration :=
  r.update (Standard.definitions.map fun entry => (entry.1.toList, .definition entry.2))

def standard : Registry := (addStandard {}).registry

end Registry

end MathMarkup
