import MathMarkup.Group.Cache
import MathMarkup.Proofs.GroupCount

/-!
# What a brace index knows

An index reads its text once, from the left, and stops wherever an answer is found. Everything it
has noted so far agrees with counting: a matched brace has the group that a fresh count finds, and
a fresh count from a brace that is still open arrives at the first unread character with as many
open braces as lie above that brace on the stack.
-/

namespace MathMarkup.Proofs

/-- The tail of a text that begins at a distance from its end. -/
def tailAt (text : Text) (distance : Nat) : Text := text.drop (text.length - distance)

lemma tailAt_length_self (text : Text) : tailAt text text.length = text := by
  simp [tailAt]

lemma tailAt_cons {text rest : Text} {c : Char} (h : tailAt text (rest.length + 1) = c :: rest) :
    tailAt text rest.length = rest := by
  have hlen := congrArg List.length h
  simp only [tailAt, List.length_drop, List.length_cons] at hlen
  have hdrop : text.length - rest.length = text.length - (rest.length + 1) + 1 := by omega
  unfold tailAt at h ⊢
  rw [hdrop, ← List.drop_drop, h]
  rfl

/-- What an index knows that has everything but `unread` behind it. -/
structure HasRead (index : BraceIndex) (unread : Text) : Prop where
  size_eq : index.size = index.text.length
  tail_eq : tailAt index.text unread.length = unread
  /-- Matched braces have the group that counting finds. -/
  matched : ∀ d e, index.closes.lookup d = some e →
    groupEnd? (tailAt index.text d) = some (d - e)
  /-- Counting from the open brace with `i` open braces above it meets `i + 1` open braces. -/
  pending : ∀ (i : Nat) (d : Nat), index.opened[i]? = some d → unread.length < d ∧
    groupEnd? (tailAt index.text d) =
      (groupEndFrom? (i + 1) unread).map (d - unread.length + ·)
  /-- Every opening brace that was read is matched or still open. -/
  complete : ∀ d, unread.length < d → d ≤ index.text.length →
    (tailAt index.text d).head? = some '{' →
    d ∈ index.opened ∨ (index.closes.lookup d).isSome
  done_eq : index.done → unread = []

def SoundIndex (index : BraceIndex) : Prop := HasRead index index.unread

lemma soundIndex_ofText (text : Text) : SoundIndex (BraceIndex.ofText text) where
  size_eq := rfl
  tail_eq := tailAt_length_self text
  matched := by
    intro d e h
    cases h
  pending := by
    intro i d h
    simp [BraceIndex.ofText] at h
  complete := by
    intro d hlt hle
    simp only [BraceIndex.ofText] at hlt hle
    omega
  done_eq := by
    intro h
    cases h

lemma map_count_succ {d n : Nat} (h : n + 1 < d) (found : Option Nat) :
    (found.map (· + 1)).map (d - (n + 1) + ·) = found.map (d - n + ·) := by
  rw [Option.map_map]
  congr 1
  funext m
  simp only [Function.comp_apply]
  omega

namespace HasRead

variable {index : BraceIndex} {c : Char} {rest : Text}

lemma head_of_complete (h : HasRead index (c :: rest)) {d : Nat} (hlt : rest.length < d)
    (hle : d ≤ index.text.length) (hhead : (tailAt index.text d).head? = some '{') :
    (d = rest.length + 1 ∧ c = '{') ∨ d ∈ index.opened ∨ (index.closes.lookup d).isSome := by
  by_cases hd : d = rest.length + 1
  · have htail := h.tail_eq
    rw [List.length_cons, ← hd] at htail
    rw [htail] at hhead
    exact Or.inl ⟨hd, by simpa using hhead⟩
  · exact Or.inr (h.complete d (by rw [List.length_cons]; omega) hle hhead)

lemma done_rest (h : HasRead index (c :: rest)) (hdone : index.done) : rest = [] := by
  cases h.done_eq hdone

lemma complete_rest (h : HasRead index (c :: rest)) (hopen : c ≠ '{') :
    ∀ d, rest.length < d → d ≤ index.text.length → (tailAt index.text d).head? = some '{' →
      d ∈ index.opened ∨ (index.closes.lookup d).isSome := by
  intro d hlt hle hhead
  rcases h.head_of_complete hlt hle hhead with ⟨-, hc⟩ | hfound
  · exact absurd hc hopen
  · exact hfound

lemma skip (h : HasRead index (c :: rest)) (hopen : c ≠ '{') (hclose : c ≠ '}') :
    HasRead index rest where
  size_eq := h.size_eq
  tail_eq := tailAt_cons h.tail_eq
  matched := h.matched
  pending := by
    intro i d hi
    obtain ⟨hlt, hcount⟩ := h.pending i d hi
    rw [List.length_cons] at hlt hcount
    refine ⟨by omega, ?_⟩
    rw [hcount, groupEndFrom?_of_not_brace hopen hclose, map_count_succ hlt]
  complete := h.complete_rest hopen
  done_eq := h.done_rest

lemma push (h : HasRead index ('{' :: rest)) :
    HasRead { index with opened := (rest.length + 1) :: index.opened } rest where
  size_eq := h.size_eq
  tail_eq := tailAt_cons h.tail_eq
  matched := h.matched
  pending := by
    intro i d hi
    cases i with
    | zero =>
      obtain rfl : rest.length + 1 = d := by simpa using hi
      have htail : tailAt index.text (rest.length + 1) = '{' :: rest := h.tail_eq
      refine ⟨by omega, ?_⟩
      change groupEnd? (tailAt index.text (rest.length + 1)) = _
      rw [htail, groupEnd?_open]
      simp [Nat.add_comm]
    | succ i =>
      obtain ⟨hlt, hcount⟩ := h.pending i d (by simpa using hi)
      rw [List.length_cons] at hlt hcount
      refine ⟨by omega, ?_⟩
      rw [hcount, groupEndFrom?_open, map_count_succ hlt]
      simp
  complete := by
    intro d hlt hle hhead
    rcases h.head_of_complete hlt hle hhead with ⟨hd, -⟩ | hopen | hclosed
    · exact Or.inl (by simp [hd])
    · exact Or.inl (List.mem_cons_of_mem _ hopen)
    · exact Or.inr hclosed
  done_eq := h.done_rest

lemma stray (h : HasRead index ('}' :: rest)) (hempty : index.opened = []) :
    HasRead index rest where
  size_eq := h.size_eq
  tail_eq := tailAt_cons h.tail_eq
  matched := h.matched
  pending := by
    intro i d hi
    simp [hempty] at hi
  complete := h.complete_rest (by decide)
  done_eq := h.done_rest

lemma pop {innermost : Nat} {outer : List Nat} (h : HasRead index ('}' :: rest))
    (hopened : index.opened = innermost :: outer) :
    HasRead { index with closes := (innermost, rest.length) :: index.closes, opened := outer }
      rest where
  size_eq := h.size_eq
  tail_eq := tailAt_cons h.tail_eq
  matched := by
    intro d e hd
    by_cases hinner : d = innermost
    · -- No brace is open above the innermost one, so the count stands at one and ends here.
      subst hinner
      obtain rfl : rest.length = e := by simpa using hd
      obtain ⟨hlt, hcount⟩ := h.pending 0 d (by simp [hopened])
      rw [List.length_cons] at hlt hcount
      change groupEnd? (tailAt index.text d) = _
      rw [hcount, Int.natCast_zero, Int.zero_add, groupEndFrom?_close_one]
      simp only [Option.map_some, Option.some.injEq]
      omega
    · have hne : (d == innermost) = false := by simpa using hinner
      rw [List.lookup_cons, hne] at hd
      exact h.matched d e hd
  pending := by
    intro i d hi
    obtain ⟨hlt, hcount⟩ := h.pending (i + 1) d (by simpa [hopened] using hi)
    rw [List.length_cons] at hlt hcount
    refine ⟨by omega, ?_⟩
    have hdepth : ((i + 1 : Nat) : Int) + 1 ≠ 1 := by omega
    rw [hcount, groupEndFrom?_close hdepth, map_count_succ hlt]
    simp
  complete := by
    intro d hlt hle hhead
    rcases h.complete_rest (by decide) d hlt hle hhead with hopen | hclosed
    · rw [hopened, List.mem_cons] at hopen
      rcases hopen with rfl | hopen
      · exact Or.inr (by simp)
      · exact Or.inl hopen
    · apply Or.inr
      by_cases hinner : d = innermost
      · simp [hinner]
      · have hne : (d == innermost) = false := by simpa using hinner
        rw [List.lookup_cons, hne]
        exact hclosed
  done_eq := h.done_rest

/-- Reading on keeps the notes right, wherever it stops. -/
theorem read {unread : Text} (h : HasRead index unread) (target : Nat) :
    SoundIndex (index.read target unread.length unread) := by
  -- Every character changes the index, so the invariant is carried for any index.
  induction unread generalizing index with
  | nil => exact ⟨h.size_eq, h.tail_eq, h.matched, h.pending, h.complete, fun _ => rfl⟩
  | cons c rest ih =>
    rw [BraceIndex.read, List.length_cons, Nat.add_sub_cancel]
    by_cases hopen : c = '{'
    · subst hopen
      rw [if_pos rfl]
      exact ih h.push
    · rw [if_neg hopen]
      by_cases hclose : c = '}'
      · subst hclose
        rw [if_pos rfl]
        split
        · next hempty => exact ih (h.stray hempty)
        · next innermost outer hopened =>
          have hpop := h.pop hopened
          by_cases hinner : innermost = target
          · rw [if_pos hinner]
            exact ⟨hpop.size_eq, hpop.tail_eq, hpop.matched, hpop.pending, hpop.complete,
              hpop.done_eq⟩
          · rw [if_neg hinner]
            exact ih hpop
      · rw [if_neg hclose]
        exact ih (h.skip hopen hclose)

end HasRead

/-! ### Answers of one index -/

lemma text_read (target : Nat) (index : BraceIndex) (distance : Nat) (unread : Text) :
    (index.read target distance unread).text = index.text := by
  fun_induction BraceIndex.read target index distance unread with
  | case1 => rfl
  | case2 index distance rest ih => exact ih
  | case3 index distance rest _ hempty ih => exact ih
  | case4 => rfl
  | case5 index distance rest _ innermost outer hopened matched hne ih => exact ih
  | case6 index distance c rest hopen hclose ih => exact ih

lemma resolved_read (target : Nat) (index : BraceIndex) (distance : Nat) (unread : Text) :
    (index.read target distance unread).resolved target := by
  fun_induction BraceIndex.read target index distance unread with
  | case1 => simp [BraceIndex.resolved]
  | case2 index distance rest ih => exact ih
  | case3 index distance rest _ hempty ih => exact ih
  | case4 index distance rest outer _ hopened matched => simp [BraceIndex.resolved, matched]
  | case5 index distance rest _ innermost outer hopened matched hne ih => exact ih
  | case6 index distance c rest hopen hclose ih => exact ih

lemma text_resolve (index : BraceIndex) (distance : Nat) :
    (index.resolve distance).text = index.text := by
  unfold BraceIndex.resolve
  split
  · rfl
  · exact text_read _ _ _ _

lemma resolved_resolve (index : BraceIndex) (distance : Nat) :
    (index.resolve distance).resolved distance := by
  unfold BraceIndex.resolve
  split
  · next h => exact h
  · exact resolved_read _ _ _ _

lemma SoundIndex.resolve {index : BraceIndex} (h : SoundIndex index) (distance : Nat) :
    SoundIndex (index.resolve distance) := by
  unfold BraceIndex.resolve
  split
  · exact h
  · exact HasRead.read h distance

/-- Once a brace is resolved, the note about it is what counting finds: a brace that was read to
the end of the text without a match has none. -/
lemma lookup_of_resolved {index : BraceIndex} (h : SoundIndex index) {d : Nat} (hpos : 0 < d)
    (hle : d ≤ index.text.length) (hhead : (tailAt index.text d).head? = some '{')
    (hresolved : index.resolved d) :
    (index.closes.lookup d).map (d - ·) = groupEnd? (tailAt index.text d) := by
  cases hfound : index.closes.lookup d with
  | some e => rw [h.matched d e hfound, Option.map_some]
  | none =>
    have hdone : index.done := by simpa [BraceIndex.resolved, hfound] using hresolved
    have hunread : index.unread = [] := h.done_eq hdone
    have hlt : index.unread.length < d := by simpa [hunread] using hpos
    rcases h.complete d hlt hle hhead with hopen | hclosed
    · obtain ⟨i, hi⟩ := List.getElem?_of_mem hopen
      rw [(h.pending i d hi).2, hunread]
      rfl
    · simp [hfound] at hclosed

lemma covers_iff {index : BraceIndex} (h : SoundIndex index) (text : Text) :
    index.covers text.length text ↔
      text.length ≤ index.text.length ∧ tailAt index.text text.length = text := by
  simp [BraceIndex.covers, BraceIndex.sameText_eq_true_iff, h.size_eq, tailAt]

/-- An index answers for each text that it covers as counting does. -/
theorem groupEnd?_of_covers {index : BraceIndex} (h : SoundIndex index) {text : Text}
    (hcovers : index.covers text.length text) (hhead : text.head? = some '{') :
    (index.groupEnd? text.length).1 = groupEnd? text := by
  obtain ⟨hle, htail⟩ := (covers_iff h text).mp hcovers
  have htext := text_resolve index text.length
  have hpos : 0 < text.length := by
    cases text with
    | nil => cases hhead
    | cons c rest => exact Nat.succ_pos _
  have hanswer := lookup_of_resolved (h.resolve text.length) hpos (by rw [htext]; exact hle)
    (by rw [htext, htail]; exact hhead) (resolved_resolve index text.length)
  rw [htext, htail] at hanswer
  exact hanswer

end MathMarkup.Proofs
