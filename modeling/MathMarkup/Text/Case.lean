import MathMarkup.Text

/-!
# Letter case

Names that are matched in any letter case are ASCII, so a change of case has to be right where
ASCII letters come out of it. Some characters beyond ASCII have ASCII letters for their other case.
-/

namespace MathMarkup

/-- The characters beyond ASCII whose upper case is ASCII. -/
def upperCases : List (Char × String) :=
  [('\u00df', "SS"), ('\u0131', "I"), ('\u017f', "S"), ('\ufb00', "FF"), ('\ufb01', "FI"),
    ('\ufb02', "FL"), ('\ufb03', "FFI"), ('\ufb04', "FFL"), ('\ufb05', "ST"), ('\ufb06', "ST")]

def lowerCase (c : Char) : Char := if c = '\u212a' then 'k' else c.toLower

def Text.lowerCased (text : Text) : Text := text.map lowerCase

def Text.upperCased (text : Text) : Text :=
  text.flatMap fun c =>
    match upperCases.lookup c with
    | some upper => upper.toList
    | none => [c.toUpper]

end MathMarkup
