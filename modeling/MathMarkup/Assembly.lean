import MathMarkup.Spacing

/-!
# Assembly

A token list becomes a list of atoms in three passes: accents are stacked on the token after
them, scripts are appended to the atom before them, and binary operators without an operand on
both sides become ordinary. The atoms are then joined with the space that their classes ask for.
-/

namespace MathMarkup

def accentPlaceholder : Token := ⟨.ord, ['\u00A0']⟩

def withPlaceholder (tokens : List Token) : List Token :=
  match tokens.getLast? with
  | some last => if last.atom = .accent then tokens ++ [accentPlaceholder] else tokens
  | none => tokens

/-- Moves accents into the token after them. `marks` are the marks met since the last token that
is no accent, the latest first: it sits closest to the base. -/
def stackAccents (marks : Text) : List Token → List Token
  | [] => []
  | t :: ts =>
    if t.atom = .accent then stackAccents (t.text ++ marks) ts
    else t.mark marks :: stackAccents [] ts

def foldAccents (tokens : List Token) : List Token := stackAccents [] (withPlaceholder tokens)

/-- The tokens with a first script or binary operator as an ordinary atom: it has nothing to its
left that it could belong to. -/
def ordinaryLead : List Token → List Token
  | [] => []
  | t :: ts => (if t.atom = .script ∨ t.atom = .bin then t.asOrd else t) :: ts

/-- Appends each script to the atom before it. `done` holds the atoms so far, the latest first.
A script without an atom before it is refused. -/
def attachScripts? (done : List Token) : List Token → Option (List Token)
  | [] => some done.reverse
  | t :: ts =>
    if t.atom = .script then
      match done with
      | base :: before => attachScripts? (base.append t.text :: before) ts
      | [] => none
    else attachScripts? (t :: done) ts

theorem attachScripts?_cons_isSome (base : Token) (done tokens : List Token) :
    (attachScripts? (base :: done) tokens).isSome := by
  induction tokens generalizing base done with
  | nil => rfl
  | cons t ts ih =>
    rw [attachScripts?]
    split
    · exact ih _ _
    · exact ih _ _

theorem attachScripts?_ordinaryLead_isSome (tokens : List Token) :
    (attachScripts? [] (ordinaryLead tokens)).isSome := by
  cases tokens with
  | nil => rfl
  | cons t ts =>
    rw [ordinaryLead, attachScripts?, if_neg]
    · exact attachScripts?_cons_isSome _ _ _
    · split
      · simp [Token.asOrd]
      · next h => exact fun ht => h (Or.inl ht)

def foldScripts (tokens : List Token) : List Token :=
  (attachScripts? [] (ordinaryLead tokens)).get (attachScripts?_ordinaryLead_isSome tokens)

theorem attachScripts?_ordinaryLead (tokens : List Token) :
    attachScripts? [] (ordinaryLead tokens) = some (foldScripts tokens) :=
  (Option.some_get _).symm

def AtomClass.isOperand : AtomClass → Bool
  | .ord | .closing => true
  | _ => false

def AtomClass.endsOperation : AtomClass → Bool
  | .rel | .closing | .punct => true
  | _ => false

/-- The atoms, the latest first, with a latest binary operator as an ordinary atom. -/
def settleLatest : List Token → List Token
  | [] => []
  | t :: before => (if t.atom = .bin then t.asOrd else t) :: before

/-- Makes a binary operator ordinary unless it has an operand on its left and something that can
follow it on its right. `done` holds the atoms so far, the latest first; the latest may still
become ordinary because of what follows it. -/
def coerceBins (done : List Token) : List Token → List Token
  | [] => (settleLatest done).reverse
  | t :: ts =>
    if t.atom = .bin ∧ ¬(done.head?.any fun left => left.atom.isOperand) then
      coerceBins (t.asOrd :: done) ts
    else if t.atom.endsOperation then coerceBins (t :: settleLatest done) ts
    else coerceBins (t :: done) ts

def assemble (tokens : List Token) : List Token :=
  coerceBins [] (foldScripts (foldAccents tokens))

def joinAtoms (spaces : Spaces) (style : Style) : List Token → Text
  | [] => []
  | [t] => t.text
  | t :: u :: ts =>
    t.text ++ (spaces.between style t.atom u.atom ++ joinAtoms spaces style (u :: ts))

def typeset (spaces : Spaces) (style : Style) (tokens : List Token) : Text :=
  joinAtoms spaces style (assemble tokens)

end MathMarkup
