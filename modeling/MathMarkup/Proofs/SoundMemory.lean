import MathMarkup.Expansion.State
import MathMarkup.Proofs.ExactFinder

/-!
# Memories that are right

Each level of an expansion remembers groups on its own. If what each of them remembers is right, two
expansions find the same arguments in the same text, each with a finder of its own and at whatever
levels, and what they remember stays right.
-/

namespace MathMarkup.Proofs

variable {F G : GroupFinder}

lemma lookup_filter_ne {α : Type} (entries : List (Nat × α)) {level l : Nat} (h : l ≠ level) :
    (entries.filter fun entry => entry.1 != level).lookup l = entries.lookup l := by
  induction entries with
  | nil => rfl
  | cons entry entries ih =>
    obtain ⟨key, value⟩ := entry
    by_cases hkey : key = level
    · have hne : (l == key) = false := by simpa [hkey] using h
      rw [List.lookup_cons, hne, ← ih]
      simp [hkey]
    · simp [hkey, ih, List.lookup_cons]

lemma memory_setMemory_self (s : ExpansionState F) (level : Nat) (memory : F.Memory) :
    (s.setMemory level memory).memory level = memory := by
  simp [ExpansionState.memory, ExpansionState.setMemory]

lemma memory_setMemory_of_ne (s : ExpansionState F) {level l : Nat} (memory : F.Memory)
    (h : l ≠ level) : (s.setMemory level memory).memory l = s.memory l := by
  have hne : (l == level) = false := by simpa using h
  simp [ExpansionState.memory, ExpansionState.setMemory, List.lookup_cons, hne,
    lookup_filter_ne s.memories h]

def SoundMemory (hF : ExactFinder F) (s : ExpansionState F) : Prop :=
  ∀ level, hF.Sound (s.memory level)

lemma SoundMemory.setMemory {hF : ExactFinder F} {s : ExpansionState F} (h : SoundMemory hF s)
    (level : Nat) {memory : F.Memory} (hmemory : hF.Sound memory) :
    SoundMemory hF (s.setMemory level memory) := by
  intro l
  by_cases hl : l = level
  · rw [hl, memory_setMemory_self]
    exact hmemory
  · rw [memory_setMemory_of_ne s memory hl]
    exact h l

lemma soundMemory_of_memories_nil (hF : ExactFinder F) {s : ExpansionState F}
    (h : s.memories = []) : SoundMemory hF s := by
  intro level
  simpa [ExpansionState.memory, h] using hF.fresh

lemma SoundMemory.collect {hF : ExactFinder F} {hG : ExactFinder G} {s : ExpansionState F}
    {t : ExpansionState G} (hs : SoundMemory hF s) (ht : SoundMemory hG t)
    (level level' count : Nat) (text : Text) :
    ∃ found memory memory',
      collectArguments F count text (s.memory level) = (found, memory) ∧
      collectArguments G count text (t.memory level') = (found, memory') ∧
      SoundMemory hF (s.setMemory level memory) ∧ SoundMemory hG (t.setMemory level' memory') := by
  obtain ⟨hfound, hsound⟩ := collectArguments_exact hF count text (hs level)
  obtain ⟨hfound', hsound'⟩ := collectArguments_exact hG count text (ht level')
  refine ⟨countedArguments count text, (collectArguments F count text (s.memory level)).2,
    (collectArguments G count text (t.memory level')).2, ?_, ?_, hs.setMemory level hsound,
    ht.setMemory level' hsound'⟩
  · rw [← hfound]
  · rw [← hfound']

end MathMarkup.Proofs
