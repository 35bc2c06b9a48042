import MathMarkup.Argument
import MathMarkup.Proofs.BraceCache

/-!
# Finders that are exact

A finder is exact if a property of its memory, kept by every search, makes each answer the one that
counting gives. Scanning for arguments with an exact finder gives the same arguments as scanning
with any other.
-/

namespace MathMarkup.Proofs

/-- What makes a finder answer as counting does. -/
structure ExactFinder (F : GroupFinder) where
  Sound : F.Memory → Prop
  fresh : Sound F.fresh
  find : ∀ rest memory, Sound memory →
    (F.find rest memory).1 = groupEndFrom? 1 rest ∧ Sound (F.find rest memory).2

def exactCounting : ExactFinder .counting where
  Sound _ := True
  fresh := trivial
  find _ _ _ := ⟨rfl, trivial⟩

def exactRemembering : ExactFinder .remembering where
  Sound := SoundCache
  fresh := soundCache_empty 4
  find := by
    intro rest cache hcache
    have hhead : ('{' :: rest).head? = some '{' := rfl
    obtain ⟨hanswer, hsound⟩ := groupEnd?_of_soundCache hcache hhead
    refine ⟨?_, hsound⟩
    change (cache.groupEnd? ('{' :: rest)).1.map (· - 1) = _
    rw [hanswer, groupEnd?_open, Option.map_map]
    exact Option.map_id'

section Scanning

variable {F : GroupFinder} (hF : ExactFinder F)

def argumentLength? (text : Text) : Option Nat := (argumentEnd? .counting text ()).1

def countedArguments (count : Nat) (text : Text) : Except Nat (List Text × Nat) :=
  (collectArguments .counting count text ()).1

/-- One argument is the span up to its end, if it has one. -/
lemma countedArguments_one (text : Text) :
    countedArguments 1 text =
      match argumentLength? text with
      | none => .error 0
      | some n => .ok ([unwrap (text.take n)], n) := by
  unfold countedArguments argumentLength?
  rcases hend : argumentEnd? .counting text () with ⟨found, ⟨⟩⟩
  cases found <;> simp [collectArguments, hend]

lemma argumentEnd?_exact (text : Text) {memory : F.Memory} (h : hF.Sound memory) :
    (argumentEnd? F text memory).1 = argumentLength? text ∧
      hF.Sound (argumentEnd? F text memory).2 := by
  unfold argumentLength? argumentEnd?
  dsimp only
  split
  · exact ⟨rfl, h⟩
  · next rest _ =>
    obtain ⟨hanswer, hsound⟩ := hF.find rest memory h
    refine ⟨?_, hsound⟩
    dsimp only
    rw [hanswer]
    rfl
  · split
    · exact ⟨rfl, h⟩
    · exact ⟨rfl, h⟩
  · exact ⟨rfl, h⟩

lemma collectArguments_exact (count : Nat) (text : Text) {memory : F.Memory}
    (h : hF.Sound memory) :
    (collectArguments F count text memory).1 = countedArguments count text ∧
      hF.Sound (collectArguments F count text memory).2 := by
  unfold countedArguments
  induction count generalizing text memory with
  | zero => exact ⟨rfl, h⟩
  | succ count ih =>
    obtain ⟨hanswer, hsound⟩ := argumentEnd?_exact hF text h
    rcases hmine : argumentEnd? F text memory with ⟨found, memory'⟩
    rcases hcount : argumentEnd? .counting text () with ⟨found', ⟨⟩⟩
    rw [argumentLength?, hmine, hcount] at hanswer
    rw [hmine] at hsound
    obtain rfl : found = found' := hanswer
    simp only [collectArguments, hmine, hcount]
    cases found with
    | none => exact ⟨rfl, hsound⟩
    | some length =>
      obtain ⟨hlater, hlast⟩ := ih (text.drop length) hsound
      rcases hmine' : collectArguments F count (text.drop length) memory' with ⟨later, last⟩
      rcases hcount' : collectArguments .counting count (text.drop length) () with ⟨later', ⟨⟩⟩
      rw [hmine', hcount'] at hlater
      rw [hmine'] at hlast
      obtain rfl : later = later' := hlater
      simp only [hmine', hcount']
      cases later with
      | error before => exact ⟨rfl, hlast⟩
      | ok collected => exact ⟨rfl, hlast⟩

end Scanning

end MathMarkup.Proofs
