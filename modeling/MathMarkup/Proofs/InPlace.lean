import MathMarkup.Argument
import MathMarkup.Assembly
import MathMarkup.Expansion.State
import Mathlib.Tactic.Lemma

/-!
# Reading by position

Scanning and assembly once more, with every list read and written by position. A position that a
list does not have raises. None of the passes ever asks for one, whatever the tokens are, so each
of them comes to what it does without positions.
-/

namespace MathMarkup.Proofs

/-- What can be raised on the way to a result. -/
inductive Raised where
  | ceiling (refusal : Refusal)
  | handler
  | noSuchPosition
  deriving DecidableEq, Repr

lemma ok_bind {α β : Type} (a : α) (f : α → Except Raised β) : (.ok a >>= f) = f a := rfl

section Positions

variable {α : Type}

/-- The index that a position in a list of the given length stands for. A negative position counts
from the end. -/
def index? (length : Nat) (position : Int) : Option Nat :=
  let index := if position < 0 then position + length else position
  if 0 ≤ index ∧ index < length then some index.toNat else none

def readAt (items : List α) (position : Int) : Except Raised α :=
  match (index? items.length position).bind fun index => items[index]? with
  | some item => .ok item
  | none => .error .noSuchPosition

def writeAt (items : List α) (position : Int) (item : α) : Except Raised (List α) :=
  match index? items.length position with
  | some index => .ok (items.set index item)
  | none => .error .noSuchPosition

lemma index?_of_lt {length index : Nat} (h : index < length) :
    index? length index = some index := by
  have hpos : ¬ (index : Int) < 0 := by omega
  have hbounds : (0 : Int) ≤ index ∧ (index : Int) < length := by omega
  simp only [index?, if_neg hpos, if_pos hbounds, Int.toNat_natCast]

lemma index?_last (length : Nat) : index? (length + 1) (-1) = some length := by
  have hplace : (-1 : Int) + ((length + 1 : Nat) : Int) = length := by omega
  have hbounds : (0 : Int) ≤ length ∧ (length : Int) < ((length + 1 : Nat) : Int) := by omega
  simp only [index?, Int.reduceNeg, Int.reduceLT, if_true, hplace, if_pos hbounds,
    Int.toNat_natCast]

lemma readAt_nil (position : Int) : readAt ([] : List α) position = .error .noSuchPosition := by
  unfold readAt
  cases index? ([] : List α).length position <;> rfl

lemma readAt_middle (before after : List α) (item : α) :
    readAt (before ++ item :: after) before.length = .ok item := by
  have hindex : index? (before ++ item :: after).length before.length = some before.length :=
    index?_of_lt (by simp)
  rw [readAt, hindex]
  simp

lemma readAt_last (before : List α) (item : α) :
    readAt (before ++ [item]) (-1) = .ok item := by
  have hindex : index? (before ++ [item]).length (-1) = some before.length := by
    rw [List.length_append]
    exact index?_last before.length
  rw [readAt, hindex]
  simp

lemma writeAt_middle (before after : List α) (old item : α) :
    writeAt (before ++ old :: after) before.length item = .ok (before ++ item :: after) := by
  have hindex : index? (before ++ old :: after).length before.length = some before.length :=
    index?_of_lt (by simp)
  rw [writeAt, hindex]
  simp

lemma writeAt_last (before : List α) (old item : α) :
    writeAt (before ++ [old]) (-1) item = .ok (before ++ [item]) := by
  have hindex : index? (before ++ [old]).length (-1) = some before.length := by
    rw [List.length_append]
    exact index?_last before.length
  rw [writeAt, hindex]
  simp

end Positions

/-! ### Arguments -/

def argumentEndInPlace (F : GroupFinder) (text : Text) (memory : F.Memory) :
    Except Raised (Option Nat) × F.Memory :=
  let position := (text.takeWhile isBlank).length
  if text.length ≤ position then (.ok none, memory)
  else
    match readAt text position with
    | .error raised => (.error raised, memory)
    | .ok c =>
      let rest := text.drop (position + 1)
      if c = '{' then
        let (found, memory) := F.find rest memory
        (.ok (found.map (position + 1 + ·)), memory)
      else if c = '\\' then
        match controlName? rest with
        | some (name, _) => (.ok (some (position + (1 + name.length))), memory)
        | none => (.ok (some (position + 1)), memory)
      else (.ok (some (position + 1)), memory)

def collectInPlace (F : GroupFinder) :
    Nat → Text → F.Memory → Except Raised (Except Nat (List Text × Nat)) × F.Memory
  | 0, _, memory => (.ok (.ok ([], 0)), memory)
  | count + 1, text, memory =>
    match argumentEndInPlace F text memory with
    | (.error raised, memory) => (.error raised, memory)
    | (.ok none, memory) => (.ok (.error 0), memory)
    | (.ok (some length), memory) =>
      match collectInPlace F count (text.drop length) memory with
      | (.error raised, memory) => (.error raised, memory)
      | (.ok (.error before), memory) => (.ok (.error (length + before)), memory)
      | (.ok (.ok (arguments, total)), memory) =>
        (.ok (.ok (unwrap (text.take length) :: arguments, length + total)), memory)

lemma argumentEndInPlace_eq (F : GroupFinder) (text : Text) (memory : F.Memory) :
    argumentEndInPlace F text memory =
      (.ok (argumentEnd? F text memory).1, (argumentEnd? F text memory).2) := by
  have hsplit := List.takeWhile_append_dropWhile (p := isBlank) (l := text)
  unfold argumentEndInPlace argumentEnd?
  generalize text.takeWhile isBlank = blanks at hsplit ⊢
  generalize text.dropWhile isBlank = body at hsplit ⊢
  subst hsplit
  dsimp only
  cases body with
  | nil =>
    rw [if_pos (by simp)]
  | cons c rest =>
    have hdrop : (blanks ++ c :: rest).drop (blanks.length + 1) = rest := by simp
    rw [if_neg (by simp), readAt_middle]
    dsimp only
    rw [hdrop]
    split
    · next hc =>
      subst hc
      rfl
    · next hbrace =>
      split
      · next hc =>
        subst hc
        rcases hname : controlName? rest with _ | ⟨name, tail⟩ <;> simp [hname]
      · next hbackslash =>
        split
        · next h => cases h
        · next h => exact absurd (List.cons.inj h).1 hbrace
        · next h => exact absurd (List.cons.inj h).1 hbackslash
        · rfl

theorem collectInPlace_eq (F : GroupFinder) (count : Nat) (text : Text) (memory : F.Memory) :
    collectInPlace F count text memory =
      (.ok (collectArguments F count text memory).1,
        (collectArguments F count text memory).2) := by
  induction count generalizing text memory with
  | zero => rfl
  | succ count ih =>
    rw [collectInPlace, collectArguments, argumentEndInPlace_eq]
    rcases argumentEnd? F text memory with ⟨_ | length, memory'⟩
    · rfl
    · dsimp only
      rw [ih]
      rcases collectArguments F count (text.drop length) memory' with ⟨_ | found, memory''⟩ <;> rfl

/-! ### Accents -/

def foldAccentsInPlace (tokens : List Token) : Except Raised (List Token) :=
  if tokens = [] then .ok []
  else do
    let last ← readAt tokens (-1)
    return stackAccents [] (if last.atom = .accent then tokens ++ [accentPlaceholder] else tokens)

theorem foldAccentsInPlace_eq (tokens : List Token) :
    foldAccentsInPlace tokens = .ok (foldAccents tokens) := by
  rcases List.eq_nil_or_concat tokens with rfl | ⟨before, last, rfl⟩
  · rfl
  · rw [foldAccentsInPlace, if_neg (by simp), List.concat_eq_append, readAt_last, ok_bind,
      foldAccents, withPlaceholder, List.getLast?_concat]
    rfl

/-! ### Scripts -/

/-- Appends each script to the last of the atoms so far. -/
def appendScripts (folded : List Token) : List Token → Except Raised (List Token)
  | [] => .ok folded
  | t :: ts =>
    if t.atom = .script then do
      let last ← readAt folded (-1)
      let folded ← writeAt folded (-1) (last.append t.text)
      appendScripts folded ts
    else appendScripts (folded ++ [t]) ts

def foldScriptsInPlace (tokens : List Token) : Except Raised (List Token) :=
  if tokens = [] then .ok []
  else do
    let first ← readAt tokens 0
    if first.atom = .script ∨ first.atom = .bin then
      let tokens ← writeAt tokens 0 first.asOrd
      appendScripts [] tokens
    else appendScripts [] tokens

/-- Appending raises exactly where a script has no atom before it. -/
lemma appendScripts_eq (done tokens : List Token) :
    appendScripts done.reverse tokens =
      match attachScripts? done tokens with
      | some folded => .ok folded
      | none => .error .noSuchPosition := by
  induction tokens generalizing done with
  | nil => rfl
  | cons t ts ih =>
    rw [appendScripts, attachScripts?.eq_def]
    dsimp only
    split
    · cases done with
      | nil =>
        rw [List.reverse_nil, readAt_nil]
        rfl
      | cons base before =>
        have hlater := ih (base.append t.text :: before)
        rw [List.reverse_cons] at hlater ⊢
        rw [readAt_last, ok_bind, writeAt_last, ok_bind]
        exact hlater
    · have hlater := ih (t :: done)
      rw [List.reverse_cons] at hlater
      exact hlater

/-- The last atom is never asked for while there is none: the first token is not a script any
more when scripts are appended. -/
theorem foldScriptsInPlace_eq (tokens : List Token) :
    foldScriptsInPlace tokens = .ok (foldScripts tokens) := by
  have happended : appendScripts [] (ordinaryLead tokens) = .ok (foldScripts tokens) := by
    have h := appendScripts_eq [] (ordinaryLead tokens)
    rw [attachScripts?_ordinaryLead] at h
    exact h
  cases tokens with
  | nil => rfl
  | cons t ts =>
    have hfirst : readAt (t :: ts) 0 = .ok t := readAt_middle [] ts t
    have hwrite : writeAt (t :: ts) 0 t.asOrd = .ok (t.asOrd :: ts) :=
      writeAt_middle [] ts t t.asOrd
    rw [← happended, foldScriptsInPlace, if_neg (by simp), hfirst, ok_bind, hwrite, ok_bind,
      ordinaryLead]
    split <;> rfl

/-- Without that first pass the position would not be there. -/
example : appendScripts [] [⟨.script, ['²']⟩] = .error .noSuchPosition := rfl

/-! ### Binary operators -/

/-- Goes through the tokens by position. `previous` is the token before that position, as it was
left. -/
def coerceFrom : (count : Nat) → (previous : Option Token) → (position : Nat) → List Token →
    Except Raised (List Token)
  | 0, _, _, tokens => .ok tokens
  | count + 1, previous, position, tokens => do
    let t ← readAt tokens position
    if t.atom = .bin ∧ ¬(previous.any fun left => left.atom.isOperand) then
      let tokens ← writeAt tokens position t.asOrd
      coerceFrom count (some t.asOrd) (position + 1) tokens
    else
      match previous with
      | some left =>
        if t.atom.endsOperation ∧ left.atom = .bin then
          let tokens ← writeAt tokens ((position : Int) - 1) left.asOrd
          coerceFrom count (some t) (position + 1) tokens
        else coerceFrom count (some t) (position + 1) tokens
      | none => coerceFrom count (some t) (position + 1) tokens

def settleLastInPlace (tokens : List Token) : Except Raised (List Token) :=
  if tokens = [] then .ok []
  else do
    let last ← readAt tokens (-1)
    if last.atom = .bin then writeAt tokens (-1) last.asOrd else .ok tokens

def coerceBinsInPlace (tokens : List Token) : Except Raised (List Token) := do
  let tokens ← coerceFrom tokens.length none 0 tokens
  settleLastInPlace tokens

lemma settleLastInPlace_eq (done : List Token) :
    settleLastInPlace done.reverse = .ok (settleLatest done).reverse := by
  cases done with
  | nil => rfl
  | cons last before =>
    rw [settleLastInPlace, if_neg (by simp), List.reverse_cons, readAt_last, ok_bind, writeAt_last,
      settleLatest]
    split <;> simp

lemma coerceFrom_eq (done tokens : List Token) :
    (coerceFrom tokens.length done.head? done.length (done.reverse ++ tokens) >>=
      settleLastInPlace) = .ok (coerceBins done tokens) := by
  -- The atoms that are left behind stand before the position, the others from there on.
  induction tokens generalizing done with
  | nil =>
    rw [List.append_nil]
    exact settleLastInPlace_eq done
  | cons t ts ih =>
    have hread : readAt (done.reverse ++ t :: ts) done.length = .ok t := by
      rw [← List.length_reverse]
      exact readAt_middle done.reverse ts t
    have hwrite : writeAt (done.reverse ++ t :: ts) done.length t.asOrd =
        .ok (done.reverse ++ t.asOrd :: ts) := by
      rw [← List.length_reverse]
      exact writeAt_middle done.reverse ts t t.asOrd
    have hnext : ∀ settled : List Token, settled.length = done.length → ∀ u : Token,
        (coerceFrom ts.length (some u) (done.length + 1) (settled.reverse ++ u :: ts) >>=
          settleLastInPlace) = .ok (coerceBins (u :: settled) ts) := by
      intro settled hlength u
      have h := ih (u :: settled)
      rw [List.length_cons, hlength, List.reverse_cons, List.append_assoc] at h
      exact h
    rw [List.length_cons, coerceFrom, hread, ok_bind, coerceBins, hwrite, ok_bind]
    split
    · exact hnext done rfl t.asOrd
    · cases done with
      | nil =>
        have hsame : ∀ u : Token, coerceBins (u :: settleLatest []) ts = coerceBins [u] ts :=
          fun _ => rfl
        rw [hsame, ite_self]
        exact hnext [] rfl t
      | cons left before =>
        have hbefore : writeAt ((left :: before).reverse ++ t :: ts)
            (((left :: before).length : Int) - 1) left.asOrd =
              .ok ((left.asOrd :: before).reverse ++ t :: ts) := by
          have hposition : ((left :: before).length : Int) - 1 = before.reverse.length := by
            simp
          rw [hposition, List.reverse_cons, List.append_assoc]
          have h := writeAt_middle before.reverse (t :: ts) left left.asOrd
          simpa using h
        dsimp only [List.head?_cons]
        rw [hbefore, ok_bind]
        by_cases hends : t.atom.endsOperation
        · by_cases hbin : left.atom = .bin
          · rw [if_pos ⟨hends, hbin⟩, if_pos hends, settleLatest, if_pos hbin]
            exact hnext (left.asOrd :: before) rfl t
          · rw [if_neg (fun h => hbin h.2), if_pos hends, settleLatest, if_neg hbin]
            exact hnext (left :: before) rfl t
        · rw [if_neg (fun h => hends h.1), if_neg hends]
          exact hnext (left :: before) rfl t

theorem coerceBinsInPlace_eq (tokens : List Token) :
    coerceBinsInPlace tokens = .ok (coerceBins [] tokens) :=
  coerceFrom_eq [] tokens

/-! ### Joining -/

def assembleInPlace (tokens : List Token) : Except Raised (List Token) := do
  let tokens ← foldAccentsInPlace tokens
  let tokens ← foldScriptsInPlace tokens
  coerceBinsInPlace tokens

/-- Each atom after the first, with the space before it. -/
def spacedTail (spaces : Spaces) (style : Style) (atoms : List Token) : Text :=
  (atoms.zip atoms.tail).flatMap fun (left, right) =>
    spaces.between style left.atom right.atom ++ right.text

def typesetInPlace (spaces : Spaces) (style : Style) (tokens : List Token) :
    Except Raised Text := do
  let atoms ← assembleInPlace tokens
  if atoms = [] then return []
  else
    let first ← readAt atoms 0
    return first.text ++ spacedTail spaces style atoms

lemma joinAtoms_cons (spaces : Spaces) (style : Style) (first : Token) (atoms : List Token) :
    joinAtoms spaces style (first :: atoms) =
      first.text ++ spacedTail spaces style (first :: atoms) := by
  induction atoms generalizing first with
  | nil => simp [joinAtoms, spacedTail]
  | cons next atoms ih =>
    rw [joinAtoms, ih next]
    simp [spacedTail]

theorem assembleInPlace_eq (tokens : List Token) :
    assembleInPlace tokens = .ok (assemble tokens) := by
  rw [assembleInPlace, foldAccentsInPlace_eq, ok_bind, foldScriptsInPlace_eq, ok_bind,
    coerceBinsInPlace_eq, assemble]

theorem typesetInPlace_eq (spaces : Spaces) (style : Style) (tokens : List Token) :
    typesetInPlace spaces style tokens = .ok (typeset spaces style tokens) := by
  rw [typesetInPlace, assembleInPlace_eq, ok_bind, typeset]
  cases assemble tokens with
  | nil => rfl
  | cons first atoms =>
    have hfirst : readAt (first :: atoms) 0 = .ok first := readAt_middle [] atoms first
    rw [if_neg (by simp), hfirst, ok_bind, joinAtoms_cons]
    rfl

end MathMarkup.Proofs
