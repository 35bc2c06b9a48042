import MathMarkup.Proofs.BraceIndex

/-!
# The brace cache answers as counting does

A cache may be asked about any texts in any order. Whichever index it chooses covers the text that
is asked about, and all its indexes stay right, so each answer is the one that a count of this text
alone gives. The capacity decides only which indexes are kept.
-/

namespace MathMarkup.Proofs

def SoundCache (cache : BraceCache) : Prop := ∀ index ∈ cache.indexes, SoundIndex index

lemma soundCache_empty (capacity : Nat) : SoundCache { capacity := capacity } := by
  intro index hindex
  cases hindex

lemma covers_ofText (text : Text) : (BraceIndex.ofText text).covers text.length text :=
  (covers_iff (soundIndex_ofText text) text).mpr ⟨Nat.le_refl _, tailAt_length_self text⟩

/-- The index that is asked is right and covers the text, whichever way it was chosen. -/
theorem select_sound {cache : BraceCache} (h : SoundCache cache) (text : Text) :
    SoundIndex (cache.select text.length text).1 ∧
      (cache.select text.length text).1.covers text.length text ∧
      ∀ other ∈ (cache.select text.length text).2, SoundIndex other := by
  unfold BraceCache.select
  dsimp only
  split
  · next index hready =>
    have hfound := List.find?_some hready
    rw [Bool.and_eq_true] at hfound
    exact ⟨h index (List.mem_of_find?_eq_some hready), hfound.2,
      fun other hother => h other (List.mem_of_mem_eraseP hother)⟩
  · split
    · next index hcovering =>
      have hfound := List.find?_some hcovering
      exact ⟨h index (List.mem_of_find?_eq_some hcovering), hfound,
        fun other hother => h other (List.mem_of_mem_eraseP hother)⟩
    · exact ⟨soundIndex_ofText text, covers_ofText text, h⟩

theorem groupEnd?_of_soundCache {cache : BraceCache} (h : SoundCache cache) {text : Text}
    (hhead : text.head? = some '{') :
    (cache.groupEnd? text).1 = groupEnd? text ∧ SoundCache (cache.groupEnd? text).2 := by
  obtain ⟨hindex, hcovers, hothers⟩ := select_sound h text
  refine ⟨groupEnd?_of_covers hindex hcovers hhead, ?_⟩
  intro index hmem
  have hkept := List.mem_of_mem_take hmem
  rcases List.mem_cons.mp hkept with rfl | hother
  · exact hindex.resolve text.length
  · exact hothers index hother

lemma groupEndAt?_of_soundCache {cache : BraceCache} (h : SoundCache cache) {text : Text}
    {start : Nat} (hopen : text[start]? = some '{') :
    (cache.groupEndAt? text start).1 = groupEndAt? text start ∧
      SoundCache (cache.groupEndAt? text start).2 := by
  have hhead : (text.drop start).head? = some '{' := by rw [List.head?_drop, hopen]
  obtain ⟨hanswer, hsound⟩ := groupEnd?_of_soundCache h hhead
  refine ⟨?_, hsound⟩
  change (cache.groupEnd? (text.drop start)).1.map (start + ·) = _
  rw [hanswer, groupEndAt?]

/-- The answers of one cache to questions asked in order, each about a place in a text. -/
def askAll (cache : BraceCache) : List (Text × Nat) → List (Option Nat)
  | [] => []
  | (text, start) :: queries =>
    let asked := cache.groupEndAt? text start
    asked.1 :: askAll asked.2 queries

lemma askAll_of_soundCache {cache : BraceCache} (h : SoundCache cache)
    (queries : List (Text × Nat)) (hopen : ∀ q ∈ queries, q.1[q.2]? = some '{') :
    askAll cache queries = queries.map fun q => groupEndAt? q.1 q.2 := by
  induction queries generalizing cache with
  | nil => rfl
  | cons q queries ih =>
    obtain ⟨hanswer, hsound⟩ := groupEndAt?_of_soundCache h (hopen q List.mem_cons_self)
    have hlater := ih hsound fun q hq => hopen q (List.mem_cons_of_mem _ hq)
    rw [askAll, hlater, hanswer, List.map_cons]

/-- A cache of any capacity, asked about braces in any texts and in any order, answers each
question as a count of that text alone does. -/
theorem askAll_eq_groupEndAt? (capacity : Nat) (queries : List (Text × Nat))
    (hopen : ∀ q ∈ queries, q.1[q.2]? = some '{') :
    askAll { capacity := capacity } queries = queries.map fun q => groupEndAt? q.1 q.2 :=
  askAll_of_soundCache (soundCache_empty capacity) queries hopen

/-- Questions about a shared tail, an unterminated group and a tail under a new head. -/
theorem askAll_shared_tails :
    let queries : List (Text × Nat) :=
      [(['{', 'a', '}', '{', '{', 'b', '}'], 3), (['{', '{', 'b', '}'], 1),
        (['x', '{', 'b', '}'], 1), (['}', '{', 'a', '}', '{', '{', 'b', '}'], 1)]
    (∀ q ∈ queries, q.1[q.2]? = some '{') ∧
      askAll { capacity := 1 } queries = [none, some 4, some 4, some 4] :=
  ⟨by decide, (askAll_eq_groupEndAt? 1 _ (by decide)).trans (by decide)⟩

end MathMarkup.Proofs
