import MathMarkup.Token

/-!
# Spacing

How much space stands between two adjacent atoms. Some of it is for running text only and is
left out in script style. Pairs that no list of settled atoms has are without an entry.
-/

namespace MathMarkup

inductive Space where
  | none
  | thin
  | medium
  | thick
  deriving DecidableEq, Repr

/-- An entry of the spacing table: an amount, and whether script style leaves it out. -/
structure Gap where
  space : Space
  textOnly : Bool
  deriving DecidableEq, Repr

namespace Gap

def always (space : Space) : Gap := ⟨space, false⟩

def inText (space : Space) : Gap := ⟨space, true⟩

def inStyle (gap : Gap) (style : Style) : Space :=
  if gap.textOnly ∧ style = .script then .none else gap.space

/-- The spacing table by the class on the left and the class on the right. -/
def between? : AtomClass → AtomClass → Option Gap
  | .ord, .ord => always .none
  | .ord, .op => always .thin
  | .ord, .bin => inText .medium
  | .ord, .rel => inText .thick
  | .ord, .opening => always .none
  | .ord, .closing => always .none
  | .ord, .punct => always .none
  | .ord, .inner => inText .thin
  | .op, .ord => always .thin
  | .op, .op => always .thin
  | .op, .rel => inText .thick
  | .op, .opening => always .none
  | .op, .closing => always .none
  | .op, .punct => always .none
  | .op, .inner => inText .thin
  | .bin, .ord => inText .medium
  | .bin, .op => inText .medium
  | .bin, .opening => inText .medium
  | .bin, .inner => inText .medium
  | .rel, .ord => inText .thick
  | .rel, .op => inText .thick
  | .rel, .rel => always .none
  | .rel, .opening => inText .thick
  | .rel, .closing => always .none
  | .rel, .punct => always .none
  | .rel, .inner => inText .thick
  | .opening, .ord => always .none
  | .opening, .op => always .none
  | .opening, .rel => always .none
  | .opening, .opening => always .none
  | .opening, .closing => always .none
  | .opening, .punct => always .none
  | .opening, .inner => always .none
  | .closing, .ord => always .none
  | .closing, .op => always .thin
  | .closing, .bin => inText .medium
  | .closing, .rel => inText .thick
  | .closing, .opening => always .none
  | .closing, .closing => always .none
  | .closing, .punct => always .none
  | .closing, .inner => inText .thin
  | .punct, .ord => inText .thin
  | .punct, .op => inText .thin
  | .punct, .rel => inText .thin
  | .punct, .opening => inText .thin
  | .punct, .closing => inText .thin
  | .punct, .punct => inText .thin
  | .punct, .inner => inText .thin
  | .inner, .ord => inText .thin
  | .inner, .op => always .thin
  | .inner, .bin => inText .medium
  | .inner, .rel => inText .thick
  | .inner, .opening => inText .thin
  | .inner, .closing => always .none
  | .inner, .punct => inText .thin
  | .inner, .inner => inText .thin
  | _, _ => Option.none

end Gap

structure Spaces where
  thin : Text
  medium : Text
  thick : Text
  deriving DecidableEq, Repr

def Spaces.text (spaces : Spaces) : Space → Text
  | .none => []
  | .thin => spaces.thin
  | .medium => spaces.medium
  | .thick => spaces.thick

def Spaces.between (spaces : Spaces) (style : Style) (left right : AtomClass) : Text :=
  match Gap.between? left right with
  | some gap => spaces.text (gap.inStyle style)
  | none => []

end MathMarkup
