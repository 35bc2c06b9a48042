import MathMarkup.Proofs.ExactFinder
import Mathlib.Data.List.TakeWhile

/-!
# Where written arguments end

An argument that is written as a group, a control sequence or a single character is found to end
where it was written to end, after any blanks, and unwrapping its span gives back what was written.
-/

namespace MathMarkup.Proofs

/-- The name of a control sequence: a run of letters, or one character that is no letter. -/
def isControlName : Text → Bool
  | [] => false
  | c :: rest => if isLetter c then rest.all isLetter else rest.isEmpty

def beginsWithLetter (text : Text) : Bool := text.head?.any isLetter

def beginsWithBlank (text : Text) : Bool := text.head?.any isBlank

lemma beginsWithBlank_skipBlanks (text : Text) : beginsWithBlank text.skipBlanks = false := by
  have hhead := List.head?_dropWhile_not isBlank text
  unfold beginsWithBlank Text.skipBlanks
  cases hrest : (text.dropWhile isBlank).head? with
  | none => rfl
  | some c =>
    rw [hrest] at hhead
    simpa using hhead

lemma exists_blanks (text : Text) :
    ∃ blanks, (∀ c ∈ blanks, isBlank c = true) ∧ text = blanks ++ text.skipBlanks :=
  ⟨text.takeWhile isBlank, fun _ => List.mem_takeWhile_imp, List.takeWhile_append_dropWhile.symm⟩

lemma takeWhile_isBlank_eq_nil {text : Text} (h : beginsWithBlank text = false) :
    text.takeWhile isBlank = [] := by
  cases text with
  | nil => rfl
  | cons c text => exact List.takeWhile_cons_of_neg (by simpa [beginsWithBlank] using h)

lemma controlName?_append {name rest : Text} (hname : isControlName name)
    (hrest : beginsWithLetter name → beginsWithLetter rest = false) :
    controlName? (name ++ rest) = some (name, rest) := by
  cases name with
  | nil => cases hname
  | cons c name =>
    rw [List.cons_append, controlName?]
    by_cases hc : isLetter c
    · have hall : ∀ d ∈ name, isLetter d = true := by simpa [isControlName, hc] using hname
      have hstop : beginsWithLetter rest = false := hrest (by simpa [beginsWithLetter] using hc)
      have htake : rest.takeWhile isLetter = [] ∧ rest.dropWhile isLetter = rest := by
        cases rest with
        | nil => exact ⟨rfl, rfl⟩
        | cons d rest =>
          have hd : ¬isLetter d := by simpa [beginsWithLetter] using hstop
          exact ⟨List.takeWhile_cons_of_neg hd, List.dropWhile_cons_of_neg hd⟩
      rw [if_pos hc, List.takeWhile_append_of_pos hall, List.dropWhile_append_of_pos hall,
        htake.1, htake.2, List.append_nil]
    · have hnil : name = [] := by simpa [isControlName, hc] using hname
      rw [if_neg hc, hnil, List.nil_append]

lemma sublist_of_controlName? {text name rest : Text} (h : controlName? text = some (name, rest)) :
    rest.Sublist text := by
  cases text with
  | nil => cases h
  | cons c text =>
    rw [controlName?] at h
    split at h <;> cases h
    · exact (List.dropWhile_sublist isLetter).cons c
    · exact List.sublist_cons_self c _

lemma braceExcess_of_isBlank {blanks : Text} (h : ∀ c ∈ blanks, isBlank c = true) :
    braceExcess blanks = 0 := by
  have hopen : '{' ∉ blanks := fun hmem => absurd (h _ hmem) (by decide)
  have hclose : '}' ∉ blanks := fun hmem => absurd (h _ hmem) (by decide)
  simp [braceExcess, List.count_eq_zero_of_not_mem, hopen, hclose]

/-! ### Slices -/

lemma extract_append (before span after : Text) :
    (before ++ (span ++ after)).extract before.length (before ++ span).length = span := by
  rw [List.extract_eq_take_drop, List.drop_left, List.length_append, Nat.add_sub_cancel_left,
    List.take_left]

lemma extract_append_extract {text : Text} {a b c : Nat} (hab : a ≤ b) (hbc : b ≤ c) :
    text.extract a b ++ text.extract b c = text.extract a c := by
  simp only [List.extract_eq_take_drop]
  have hdrop : text.drop b = (text.drop a).drop (b - a) := by
    rw [List.drop_drop, Nat.add_sub_cancel' hab]
  have hsum : c - a = b - a + (c - b) := by omega
  rw [hdrop, hsum, List.take_add]

/-! ### Lengths -/

lemma argumentLength?_blanks {blanks : Text} (h : ∀ c ∈ blanks, isBlank c = true) (text : Text) :
    argumentLength? (blanks ++ text) = (argumentLength? text).map (blanks.length + ·) := by
  unfold argumentLength? argumentEnd?
  rw [List.dropWhile_append_of_pos h, List.takeWhile_append_of_pos h, List.length_append]
  dsimp only
  split
  · rfl
  · next rest _ =>
    change Option.map _ (groupEndFrom? 1 rest) = Option.map _ (Option.map _ (groupEndFrom? 1 rest))
    rw [Option.map_map]
    congr 1
    funext n
    simp only [Function.comp_apply]
    omega
  · split
    · simp [Nat.add_assoc]
    · simp [Nat.add_assoc]
  · simp [Nat.add_assoc]

lemma isBlank_brace : isBlank '{' = false := by decide

lemma isBlank_backslash : isBlank '\\' = false := by decide

lemma argumentLength?_open (rest : Text) :
    argumentLength? ('{' :: rest) = (groupEndFrom? 1 rest).map (· + 1) := by
  have hplus : (fun n => n + 1) = (1 + ·) := funext fun n => Nat.add_comm n 1
  simp [argumentLength?, argumentEnd?, GroupFinder.counting, isBlank_brace, hplus]

lemma argumentLength?_group {body : Text} (h : Neutral body) (rest : Text) :
    argumentLength? ('{' :: (body ++ '}' :: rest)) = some (body.length + 2) := by
  have hend := h.groupEndFrom?_one rest
  simp [argumentLength?, argumentEnd?, GroupFinder.counting, isBlank_brace, hend]
  omega

lemma argumentLength?_command {name rest : Text} (hname : isControlName name)
    (hrest : beginsWithLetter name → beginsWithLetter rest = false) :
    argumentLength? ('\\' :: (name ++ rest)) = some (name.length + 1) := by
  have hsplit := controlName?_append hname hrest
  simp [argumentLength?, argumentEnd?, isBlank_backslash, hsplit, Nat.add_comm]

lemma argumentLength?_char {c : Char} (hblank : isBlank c = false) (hopen : c ≠ '{')
    (hescape : c ≠ '\\') (rest : Text) : argumentLength? (c :: rest) = some 1 := by
  simp [argumentLength?, argumentEnd?, hblank]

/-! ### Unwrapping -/

lemma skipBlanks_append {blanks : Text} (h : ∀ c ∈ blanks, isBlank c = true) (text : Text) :
    (blanks ++ text).skipBlanks = text.skipBlanks :=
  List.dropWhile_append_of_pos h

lemma skipBlanks_cons {c : Char} (h : isBlank c = false) (rest : Text) :
    Text.skipBlanks (c :: rest) = c :: rest :=
  List.dropWhile_cons_of_neg (by simp [h])

lemma skipBlanks_eq_self {text : Text} (h : beginsWithBlank text = false) :
    text.skipBlanks = text := by
  cases text with
  | nil => rfl
  | cons c rest => exact skipBlanks_cons (by simpa [beginsWithBlank] using h) rest

lemma unwrap_blanks {blanks : Text} (h : ∀ c ∈ blanks, isBlank c = true) (span : Text) :
    unwrap (blanks ++ span) = unwrap span := by
  unfold unwrap
  rw [skipBlanks_append h]

lemma unwrap_group (body : Text) : unwrap ('{' :: (body ++ ['}'])) = body.skipBlanks := by
  unfold unwrap
  rw [skipBlanks_cons isBlank_brace]
  have hends : ('{' :: (body ++ ['}'])).head? = some '{' ∧
      ('{' :: (body ++ ['}'])).getLast? = some '}' := by
    rw [← List.cons_append, List.getLast?_concat]
    exact ⟨rfl, rfl⟩
  rw [if_pos hends, List.tail_cons, List.dropLast_concat]

lemma unwrap_of_head {c : Char} {rest : Text} (hblank : isBlank c = false) (hopen : c ≠ '{') :
    unwrap (c :: rest) = c :: rest := by
  unfold unwrap
  rw [skipBlanks_cons hblank]
  exact if_neg fun h => hopen (by simpa using h.1)

lemma unwrap_sublist (span : Text) : (unwrap span).Sublist span := by
  have hskip : ∀ text : Text, text.skipBlanks.Sublist text := fun text =>
    List.dropWhile_sublist isBlank
  unfold unwrap
  dsimp only
  split
  · exact (hskip _).trans ((List.dropLast_sublist _).trans
      ((List.tail_sublist _).trans (hskip span)))
  · exact hskip span

end MathMarkup.Proofs
