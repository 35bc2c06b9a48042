import MathMarkup.Alphabet
import MathMarkup.Macro

/-!
# Superscripts and subscripts

The trigger characters `^` and `_` run two macros that no other macro can take the place of. The
argument is set in script style first; then each of its characters gets its raised or lowered
form, if there is one.
-/

namespace MathMarkup

/-- The script form of a character, if there is one. -/
abbrev ScriptTable := List (Char × Char)

/-- Raised forms. The circle, the prime and the top sign have stand-ins. -/
def superscripts : ScriptTable :=
  [('0', '⁰'), ('1', '¹'), ('2', '²'), ('3', '³'), ('4', '⁴'),
    ('5', '⁵'), ('6', '⁶'), ('7', '⁷'), ('8', '⁸'), ('9', '⁹'),
    ('+', '⁺'), ('-', '⁻'), ('\u2212', '⁻'), ('\u2013', '⁻'),
    ('=', '⁼'), ('(', '⁽'), (')', '⁾'),
    ('i', 'ⁱ'), ('n', 'ⁿ'),
    ('\u26AC', '°'), ('\u2218', '°'), ('\u2032', '\''), ('\u22A4', 'ᵀ'),
    (' ', '\u2006')]

def subscripts : ScriptTable :=
  [('0', '₀'), ('1', '₁'), ('2', '₂'), ('3', '₃'), ('4', '₄'),
    ('5', '₅'), ('6', '₆'), ('7', '₇'), ('8', '₈'), ('9', '₉'),
    ('+', '₊'), ('-', '₋'), ('\u2212', '₋'), ('\u2013', '₋'),
    ('=', '₌'), ('(', '₍'), (')', '₎'),
    ('a', 'ₐ'), ('e', 'ₑ'), ('o', 'ₒ'), ('x', 'ₓ'), ('j', 'ⱼ'),
    ('i', 'ᵢ'), ('r', 'ᵣ'), ('u', 'ᵤ'), ('v', 'ᵥ'),
    (' ', '\u2006')]

/-- The text with each character in its script form. Styling does not matter for which form that
is, and a character without a form is kept as it is, styling included. -/
def toScript (table : ScriptTable) (text : Text) : Text :=
  text.map fun c => (table.lookup (plain c)).getD c

def scriptMacro (table : ScriptTable) : FunctionMacro :=
  { FunctionMacro.unary true fun argument => .tokens [⟨.script, toScript table argument⟩] with
    style := .script }

def superscript : FunctionMacro := scriptMacro superscripts

def subscript : FunctionMacro := scriptMacro subscripts

end MathMarkup
