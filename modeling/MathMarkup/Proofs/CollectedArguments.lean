import MathMarkup.Proofs.ArgumentEnds

/-!
# Collecting arguments

Arguments that are written as groups are handed on as they were written, whatever follows them. The
other way round, a text from which arguments are collected is made of them, each with blanks before
it. Collecting more of them goes on where collecting ended before, and fails where an argument is
missing.
-/

namespace MathMarkup.Proofs

/-- The arguments that are collected from an offset on, and the offset after them. If one of them
is missing, the offset from which it is scanned. -/
def collectedAt (count : Nat) (text : Text) (offset : Nat) : Except Nat (List Text × Nat) :=
  (collectArgumentsAt .counting count text offset ()).1

/-- An argument that is written as a group, after blanks. -/
structure WrittenGroup where
  blanks : Text
  body : Text
  isBlank_blanks : ∀ c ∈ blanks, isBlank c = true
  balanced : IsBalanced body
  trimmed : beginsWithBlank body = false

def WrittenGroup.text (group : WrittenGroup) : Text :=
  group.blanks ++ '{' :: (group.body ++ ['}'])

/-- What is written for an argument, blanks before it left out, and the argument that is handed on.
A group loses its braces and the blanks after the opening one. -/
inductive WrittenAs : Text → Text → Prop where
  | group {blanks argument : Text} (hblanks : ∀ c ∈ blanks, isBlank c = true)
      (htrimmed : beginsWithBlank argument = false) (hbalanced : IsBalanced argument) :
      WrittenAs ('{' :: (blanks ++ argument ++ ['}'])) argument
  | command {name : Text} (hname : isControlName name = true) :
      WrittenAs ('\\' :: name) ('\\' :: name)
  | single {c : Char} (hopen : c ≠ '{') (hblank : isBlank c = false) : WrittenAs [c] [c]

def SpanOf (span argument : Text) : Prop :=
  ∃ blanks written, span = blanks ++ written ∧ (∀ c ∈ blanks, isBlank c = true) ∧
    WrittenAs written argument

/-- The arguments are what the text has from the offset up to where collecting stops. -/
structure CollectedFrom (text : Text) (offset count : Nat) (arguments : List Text) (stop : Nat) :
    Prop where
  length_eq : arguments.length = count
  start_le : offset ≤ stop
  stop_le : stop ≤ max offset text.length
  spans : ∃ spans, text.extract offset stop = spans.flatten ∧ List.Forall₂ SpanOf spans arguments

/-- Fewer arguments are there, and none is after them. -/
def MissingFrom (text : Text) (offset count failed : Nat) : Prop :=
  ∃ before arguments, before < count ∧ collectedAt before text offset = .ok (arguments, failed) ∧
    scannedEnd? text failed = none

lemma collectedAt_zero (text : Text) (offset : Nat) :
    collectedAt 0 text offset = .ok ([], offset) := rfl

/-- Collecting scans one argument after the other. -/
lemma collectedAt_succ (count : Nat) (text : Text) (offset : Nat) :
    collectedAt (count + 1) text offset =
      match scannedEnd? text offset with
      | none => .error offset
      | some middle =>
        match collectedAt count text middle with
        | .error failed => .error failed
        | .ok (arguments, stop) =>
          .ok (unwrap (text.extract offset middle) :: arguments, stop) := by
  rcases hend : argumentEnd? .counting (text.drop offset) () with ⟨found, ⟨⟩⟩
  have hscan : scannedEnd? text offset = found.map (offset + ·) := by
    rw [scannedEnd?_eq, argumentLength?, hend]
  rw [hscan]
  cases found with
  | none => simp [collectedAt, collectArgumentsAt, collectArguments, hend]
  | some length =>
    rcases hlater : collectArguments .counting count (text.drop (offset + length)) () with
      ⟨_ | ⟨arguments, total⟩, ⟨⟩⟩
    · simp [collectedAt, collectArgumentsAt, collectArguments, hend, hlater, Nat.add_assoc]
    · simp [collectedAt, collectArgumentsAt, collectArguments, hend, hlater, Nat.add_assoc]

/-! ### From written arguments -/

lemma WrittenGroup.unwrap_text (group : WrittenGroup) : unwrap group.text = group.body := by
  rw [text, unwrap_blanks group.isBlank_blanks, unwrap_group, skipBlanks_eq_self group.trimmed]

lemma WrittenGroup.scannedEnd?_text (group : WrittenGroup) (before rest : Text) :
    scannedEnd? (before ++ (group.text ++ rest)) before.length =
      some (before ++ group.text).length := by
  have htext : group.text ++ rest = group.blanks ++ '{' :: (group.body ++ '}' :: rest) := by
    simp [text]
  rw [scannedEnd?_append, scannedEnd?_eq, List.drop_zero, htext,
    argumentLength?_blanks group.isBlank_blanks, argumentLength?_group group.balanced.neutral]
  simp [text]

lemma collectedAt_written (written : List WrittenGroup) (before rest : Text) :
    collectedAt written.length (before ++ (written.flatMap WrittenGroup.text ++ rest))
        before.length =
      .ok (written.map WrittenGroup.body,
        (before ++ written.flatMap WrittenGroup.text).length) := by
  induction written generalizing before with
  | nil => simp [collectedAt_zero]
  | cons group written ih =>
    have hlater := ih (before ++ group.text)
    rw [List.length_cons, collectedAt_succ, List.flatMap_cons, List.append_assoc group.text,
      group.scannedEnd?_text]
    dsimp only
    rw [extract_append, group.unwrap_text, ← List.append_assoc before, hlater]
    dsimp only
    rw [List.map_cons, List.append_assoc]

/-! ### To written arguments -/

section

variable {text : Text} {offset p e : Nat}

lemma FirstNonBlank.isBlank_before (h : FirstNonBlank text offset p) :
    ∀ c ∈ text.extract offset p, isBlank c = true := by
  intro c hc
  obtain ⟨k, hk⟩ := List.mem_iff_getElem?.mp hc
  have hlt : k < p - offset :=
    (List.getElem?_eq_some_iff.mp hk).1.trans_le (List.length_take_le _ _)
  rw [List.getElem?_take_of_lt hlt, List.getElem?_drop] at hk
  by_contra hblank
  have : p ≤ offset + k := h.2 ⟨Nat.le_add_right _ _, c, hk, by simpa using hblank⟩
  omega

lemma writtenAs_group {rest : Text} {n : Nat} (h : groupEndFrom? 1 rest = some n) :
    WrittenAs ('{' :: rest.take n) (unwrap ('{' :: rest.take n)) := by
  obtain ⟨content, hcontent, hbalanced⟩ := exists_balanced_of_groupEndFrom? h
  obtain ⟨blanks, hblanks, hsplit⟩ := exists_blanks content
  have htrimmed := beginsWithBlank_skipBlanks content
  rw [hcontent, unwrap_group]
  generalize content.skipBlanks = argument at hsplit htrimmed ⊢
  subst hsplit
  exact .group hblanks htrimmed (hbalanced.of_append (braceExcess_of_isBlank hblanks))

lemma isControlName_takeWhile {c : Char} (h : isLetter c = true) (rest : Text) :
    isControlName ((c :: rest).takeWhile isLetter) = true := by
  rw [List.takeWhile_cons_of_pos h, isControlName, if_pos h]
  exact List.all_takeWhile

lemma ArgumentEndsAt.writtenAs (h : ArgumentEndsAt text p e) (hp : FirstNonBlank text offset p) :
    WrittenAs (text.extract p e) (unwrap (text.extract p e)) := by
  rw [List.extract_eq_take_drop]
  cases h with
  | group hdrop hspan =>
    obtain ⟨n, hn, rfl⟩ := (groupSpan_iff hdrop).mp hspan
    rw [hdrop, Nat.add_sub_cancel_left, List.take_succ_cons]
    exact writtenAs_group hn
  | @word c rest hdrop hletter =>
    have htake := List.prefix_iff_eq_take.mp (List.takeWhile_prefix (l := c :: rest) isLetter)
    rw [hdrop, Nat.add_assoc, Nat.add_sub_cancel_left, Nat.add_comm 1, List.take_succ_cons,
      ← htake, unwrap_of_head isBlank_backslash (by decide)]
    exact .command (isControlName_takeWhile hletter rest)
  | @symbol c rest hdrop hletter =>
    rw [hdrop, Nat.add_sub_cancel_left, List.take_succ_cons, List.take_succ_cons, List.take_zero,
      unwrap_of_head isBlank_backslash (by decide)]
    exact .command (by simp [isControlName, hletter])
  | @single c rest hdrop hopen hescape =>
    obtain ⟨d, hd, hblank⟩ := hp.1.2
    rw [← List.head?_drop, hdrop] at hd
    cases hd
    rw [hdrop, Nat.add_sub_cancel_left, List.take_succ_cons, List.take_zero,
      unwrap_of_head hblank hopen]
    exact .single hopen hblank

lemma spanOf_of_scannedEnd? (h : scannedEnd? text offset = some e) :
    SpanOf (text.extract offset e) (unwrap (text.extract offset e)) := by
  obtain ⟨p, hp, hends⟩ := scannedEnd?_eq_some_iff.mp h
  have hsplit : text.extract offset e = text.extract offset p ++ text.extract p e :=
    (extract_append_extract hp.1.1 hends.bounds.1.le).symm
  refine ⟨_, _, hsplit, hp.isBlank_before, ?_⟩
  rw [hsplit, unwrap_blanks hp.isBlank_before]
  exact hends.writtenAs hp

/-! ### Runs of the scan -/

lemma collectedAt_ok {count : Nat} {arguments : List Text}
    (h : collectedAt count text offset = .ok (arguments, e)) :
    CollectedFrom text offset count arguments e := by
  induction count generalizing offset arguments with
  | zero =>
    rw [collectedAt_zero] at h
    cases h
    refine ⟨rfl, Nat.le_refl _, Nat.le_max_left _ _, [], ?_, .nil⟩
    rw [List.extract_eq_take_drop, Nat.sub_self, List.take_zero, List.flatten_nil]
  | succ count ih =>
    rw [collectedAt_succ] at h
    split at h
    · cases h
    · next middle hscan =>
      split at h
      · cases h
      · next later stop hlater =>
        cases h
        obtain ⟨hlength, hle, hinside, spans, hspans, hforall⟩ := ih hlater
        obtain ⟨p, hp, hends⟩ := scannedEnd?_eq_some_iff.mp hscan
        have hfirst := hp.1.1
        have hbounds := hends.bounds
        refine ⟨by rw [List.length_cons, hlength], by omega, by omega, _ :: spans, ?_,
          .cons (spanOf_of_scannedEnd? hscan) hforall⟩
        rw [List.flatten_cons, ← hspans, extract_append_extract (by omega) hle]

lemma collectedAt_error {count failed : Nat} (h : collectedAt count text offset = .error failed) :
    MissingFrom text offset count failed := by
  induction count generalizing offset with
  | zero => cases h
  | succ count ih =>
    rw [collectedAt_succ] at h
    split at h
    · next hscan =>
      cases h
      exact ⟨0, [], Nat.succ_pos _, rfl, hscan⟩
    · next middle hscan =>
      split at h
      · next hlater =>
        cases h
        obtain ⟨before, arguments, hlt, hbefore, hnone⟩ := ih hlater
        refine ⟨before + 1, unwrap (text.extract offset middle) :: arguments, by omega, ?_, hnone⟩
        rw [collectedAt_succ, hscan]
        dsimp only
        rw [hbefore]
      · cases h

lemma collectedAt_add (count more : Nat) (text : Text) (offset : Nat) :
    collectedAt (count + more) text offset =
      match collectedAt count text offset with
      | .error failed => .error failed
      | .ok (first, middle) =>
        match collectedAt more text middle with
        | .error failed => .error failed
        | .ok (later, stop) => .ok (first ++ later, stop) := by
  induction count generalizing offset with
  | zero =>
    rw [collectedAt_zero, Nat.zero_add]
    dsimp only
    rcases collectedAt more text offset with failed | ⟨later, stop⟩ <;> rfl
  | succ count ih =>
    rw [Nat.succ_add, collectedAt_succ, collectedAt_succ]
    cases scannedEnd? text offset with
    | none => rfl
    | some middle =>
      dsimp only
      rw [ih]
      rcases collectedAt count text middle with failed | ⟨first, last⟩
      · rfl
      · dsimp only
        rcases collectedAt more text last with failed | ⟨later, stop⟩ <;> rfl

end

/-- What is written as groups is collected as it was written. What is collected from a text is
written in it, span after span. Collecting on after some arguments is collecting them all at once,
and where collecting fails, the next argument is missing. -/
theorem arguments_collected_as_written (count : Nat) (text : Text) (offset : Nat) :
    (∀ (written : List WrittenGroup) (rest : Text),
      collectedAt written.length (written.flatMap WrittenGroup.text ++ rest) 0 =
        .ok (written.map WrittenGroup.body, (written.flatMap WrittenGroup.text).length)) ∧
    (match collectedAt count text offset with
      | .ok (arguments, stop) => CollectedFrom text offset count arguments stop
      | .error failed => MissingFrom text offset count failed) ∧
    ∀ more, collectedAt (count + more) text offset =
      match collectedAt count text offset with
      | .error failed => .error failed
      | .ok (first, middle) =>
        match collectedAt more text middle with
        | .error failed => .error failed
        | .ok (later, stop) => .ok (first ++ later, stop) := by
  refine ⟨fun written rest => collectedAt_written written [] rest, ?_, ?_⟩
  · rcases hcollected : collectedAt count text offset with failed | ⟨arguments, stop⟩
    · exact collectedAt_error hcollected
    · exact collectedAt_ok hcollected
  · intro more
    exact collectedAt_add count more text offset

/-- An inner group keeps its braces, and a control sequence has none to lose. -/
example : collectedAt 2 [' ', '{', ' ', 'a', '{', 'b', '}', '}', '\\', 'c', ' ', '}'] 0 =
    .ok ([['a', '{', 'b', '}'], ['\\', 'c']], 10) := rfl

end MathMarkup.Proofs
