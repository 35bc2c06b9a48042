import MathMarkup.Expansion.Progress
import MathMarkup.Group.Cache

/-!
# Expansion

Markup is expanded step by step until none is left. Markup nested in arguments is expanded in the
same way with one level less, and is refused when no level is left. Every step pays for a splice
or makes the markup shorter, so expansion ends for any macros, those that call themselves included.
-/

namespace MathMarkup

namespace Typesetter

variable {F : GroupFinder} (T : Typesetter)

def expandAll (nested : Nested F) (level : Nat) (style : Style) :
    Text → ExpansionState F → List Token × ExpansionState F
  | [], s => ([], s)
  | c :: rest, s =>
    let next := T.step nested level style c rest s
    let later := expandAll nested level style next.1.rest next.2
    (next.1.tokens ++ later.1, later.2)
termination_by text s => (s.remaining, text.length)
decreasing_by
  have hle := T.remaining_step_le nested level style c rest s
  rcases T.step_decreases nested level style c rest s with hlt | hlt
  · exact Prod.Lex.left _ _ hlt
  · rcases Nat.lt_or_eq_of_le hle with h | h
    · exact Prod.Lex.left _ _ h
    · rw [h]
      exact Prod.Lex.right _ hlt

theorem remaining_expandAll_le (nested : Nested F) (level : Nat) (style : Style) (text : Text)
    (s : ExpansionState F) :
    (T.expandAll nested level style text s).2.remaining ≤ s.remaining := by
  fun_induction expandAll T nested level style text s with
  | case1 s => exact Nat.le_refl _
  | case2 c rest s next later ih =>
    exact Nat.le_trans ih (T.remaining_step_le nested level style c rest s)

/-- Expansion with a number of levels left, the one of the given text included. Markup is refused
where no level is left and nowhere else: the stack is taken as unbounded. -/
def levels (F : GroupFinder) : Nat → Nested F
  | 0 =>
    { expand := fun _ _ s => (.error .tooDeep, s.report (.tooDeep T.settings.maxDepth))
      remaining_le := fun _ _ _ => Nat.le_refl _ }
  | level + 1 =>
    { expand := fun style text s =>
        let expanded := T.expandAll (levels F level) level style text s
        (.ok expanded.1, expanded.2)
      remaining_le := fun style text s =>
        T.remaining_expandAll_le (levels F level) level style text s }

def initialState (F : GroupFinder) : ExpansionState F := { remaining := T.settings.maxExpansions }

def run (F : GroupFinder) (source : Text) : List Token × ExpansionState F :=
  T.expandAll (T.levels F T.settings.maxDepth) T.settings.maxDepth .text source
    (T.initialState F)

def tokenize (source : Text) : List Token := (T.run .remembering source).1

def history (source : Text) : List Event := (T.run .remembering source).2.history

def setTokens (tokens : List Token) : Text := typeset T.settings.spaces .text tokens

def transform (source : Text) : Text := T.setTokens (T.tokenize source)

end Typesetter

end MathMarkup
