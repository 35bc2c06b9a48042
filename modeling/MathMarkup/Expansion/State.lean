import MathMarkup.Group
import MathMarkup.Notice
import MathMarkup.Token

/-!
# The state of an expansion

One state runs through a whole expansion, nested markup and failed attempts included: the splices
that are left, what happened so far, and what was remembered about brace groups at each level.
-/

namespace MathMarkup

inductive Site where
  | command (name : Text)
  | group
  | superscript
  | subscript
  deriving DecidableEq, Repr

def Site.name : Site → Text
  | .command name => name
  | .group => "mathord".toList
  | .superscript => "superscript".toList
  | .subscript => "subscript".toList

inductive Event where
  | called (site : Site) (arguments : List Text)
  | spliced (site : Site) (text : Text)
  | refused (site : Site)
  | noticed (notice : Notice)
  deriving DecidableEq, Repr

inductive Refusal where
  | budgetSpent
  | tooDeep
  deriving DecidableEq, Repr

structure ExpansionState (F : GroupFinder) where
  remaining : Nat
  /-- It was reported that no splices are left. -/
  exhausted : Bool := false
  /-- What happened, the latest first. -/
  events : List Event := []
  /-- The memory of each level that has looked for groups. -/
  memories : List (Nat × F.Memory) := []

namespace ExpansionState

variable {F : GroupFinder}

def record (s : ExpansionState F) (event : Event) : ExpansionState F :=
  { s with events := event :: s.events }

def report (s : ExpansionState F) (notice : Notice) : ExpansionState F :=
  s.record (.noticed notice)

def memory (s : ExpansionState F) (level : Nat) : F.Memory :=
  (s.memories.lookup level).getD F.fresh

def setMemory (s : ExpansionState F) (level : Nat) (memory : F.Memory) : ExpansionState F :=
  { s with memories := (level, memory) :: s.memories.filter fun entry => entry.1 != level }

/-- Pays for splicing a text at a site. The first refusal is reported. -/
def spend (s : ExpansionState F) (site : Site) (text : Text) :
    Except Refusal Unit × ExpansionState F :=
  if s.remaining = 0 then
    let refused := s.record (.refused site)
    (.error .budgetSpent,
      if s.exhausted then refused
      else { refused.report (.budgetSpent site.name) with exhausted := true })
  else (.ok (), { s.record (.spliced site text) with remaining := s.remaining - 1 })

def history (s : ExpansionState F) : List Event := s.events.reverse

@[simp] theorem remaining_record (s : ExpansionState F) (event : Event) :
    (s.record event).remaining = s.remaining := rfl

@[simp] theorem remaining_report (s : ExpansionState F) (notice : Notice) :
    (s.report notice).remaining = s.remaining := rfl

@[simp] theorem remaining_setMemory (s : ExpansionState F) (level : Nat) (memory : F.Memory) :
    (s.setMemory level memory).remaining = s.remaining := rfl

theorem remaining_spend_ok {s s' : ExpansionState F} {site : Site} {text : Text}
    (h : s.spend site text = (.ok (), s')) : s'.remaining < s.remaining := by
  rw [spend] at h
  split at h
  · cases h
  · next hs =>
    cases h
    show s.remaining - 1 < s.remaining
    omega

theorem remaining_spend_le (s : ExpansionState F) (site : Site) (text : Text) :
    (s.spend site text).2.remaining ≤ s.remaining := by
  rw [spend]
  split
  · split <;> simp [report, record]
  · exact Nat.sub_le _ _

end ExpansionState

end MathMarkup
