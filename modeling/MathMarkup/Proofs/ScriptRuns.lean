import MathMarkup.Proofs.Cuts
import MathMarkup.Proofs.SpelledOut
import MathMarkup.Proofs.Unspaced

/-!
# Runs of scripts

A script over a group of characters is one token, and scripts over these characters one after the
other are one token each. Both are set alike: a run of scripts is appended to one atom, and in
script style nothing is set between characters, whatever their classes and whatever becomes of
binary operators among them.
-/

namespace MathMarkup.Proofs

variable {F : GroupFinder} {hF : ExactFinder F} {T : Typesetter} {level : Nat} {style : Style}

/-! ### Folding a run -/

section Folding

variable {xs ys : List Token} {texts : List Text}

def scriptRun (texts : List Text) : List Token := texts.map (Token.mk .script)

lemma atom_scriptRun {t : Token} (h : t ∈ scriptRun texts) : t.atom = .script := by
  obtain ⟨text, -, rfl⟩ := List.mem_map.mp h
  rfl

lemma attachScripts?_scriptRun (base : Token) (done : List Token) (texts : List Text)
    (later : List Token) :
    attachScripts? (base :: done) (scriptRun texts ++ later) =
      attachScripts? (base.append texts.flatten :: done) later := by
  induction texts generalizing base with
  | nil => simp [scriptRun, Token.append]
  | cons text texts ih =>
    have happend : (base.append text).append texts.flatten =
        base.append (text :: texts).flatten := by simp [Token.append]
    rw [← happend, ← ih]
    exact if_pos rfl

/-- Behind an atom, what a run adds to it does not show where one script ends. -/
lemma attachScripts?_merge (base : Token) (done xs : List Token) (texts : List Text)
    (later : List Token) :
    attachScripts? (base :: done) (xs ++ (scriptRun texts ++ later)) =
      attachScripts? (base :: done) (xs ++ (scriptRun [texts.flatten] ++ later)) := by
  induction xs generalizing base done with
  | nil =>
    rw [List.nil_append, List.nil_append, attachScripts?_scriptRun, attachScripts?_scriptRun,
      List.flatten_singleton]
  | cons x xs ih =>
    rw [List.cons_append, List.cons_append, attachScripts?, attachScripts?]
    split
    · exact ih _ _
    · exact ih _ _

/-- With nothing before it, the first script of a run is the atom that the others are added to. -/
lemma attachScripts?_lead (htexts : texts ≠ []) (later : List Token) :
    attachScripts? [] (ordinaryLead (scriptRun texts ++ later)) =
      attachScripts? [⟨.ord, texts.flatten⟩] later := by
  obtain ⟨text, texts, rfl⟩ := List.exists_cons_of_ne_nil htexts
  exact attachScripts?_scriptRun ⟨.ord, text⟩ [] texts later

lemma foldScripts_merge (xs : List Token) (htexts : texts ≠ []) (later : List Token) :
    foldScripts (xs ++ (scriptRun texts ++ later)) =
      foldScripts (xs ++ (scriptRun [texts.flatten] ++ later)) := by
  apply Option.some.inj
  rw [← attachScripts?_ordinaryLead, ← attachScripts?_ordinaryLead]
  cases xs with
  | nil =>
    have hsingle := attachScripts?_lead (List.cons_ne_nil texts.flatten []) later
    rw [List.flatten_singleton] at hsingle
    rw [List.nil_append, List.nil_append, hsingle]
    exact attachScripts?_lead htexts later
  | cons x xs =>
    obtain ⟨lead, hlead, hplain, -⟩ := exists_ordinaryLead x []
    have hbefore : ∀ tokens, attachScripts? [] (ordinaryLead (x :: tokens)) =
        attachScripts? [lead] tokens := by
      intro tokens
      have hfirst : ordinaryLead (x :: tokens) = lead :: tokens := congrArg (· ++ tokens) hlead
      rw [hfirst, attachScripts?, if_neg hplain]
    rw [List.cons_append, List.cons_append, hbefore, hbefore]
    exact attachScripts?_merge lead [] xs texts later

lemma foldAccents_append_of_last (hlast : ∀ t ∈ xs.getLast?, t.atom ≠ .accent) (ys : List Token) :
    foldAccents (xs ++ ys) = foldAccents xs ++ foldAccents ys := by
  have hnil : foldAccents [] = [] := rfl
  by_cases hxs : xs = []
  · rw [hxs, hnil, List.nil_append, List.nil_append]
  · by_cases hys : ys = []
    · rw [hys, hnil, List.append_nil, List.append_nil]
    · exact foldAccents_append hxs hys hlast

lemma foldAccents_scriptRun (texts : List Text) :
    foldAccents (scriptRun texts) = scriptRun texts := by
  have haccent : ∀ t ∈ scriptRun texts, t.atom ≠ .accent := by
    intro t ht
    rw [atom_scriptRun ht]
    nofun
  rw [foldAccents, withPlaceholder_of_forall haccent, stackAccents_of_forall haccent]

/-- A run of scripts is assembled as one script, unless an accent before it would be set on the
first of them. -/
lemma assemble_merge (hlast : ∀ t ∈ xs.getLast?, t.atom ≠ .accent) (htexts : texts ≠ [])
    (ys : List Token) :
    assemble (xs ++ (scriptRun texts ++ ys)) =
      assemble (xs ++ (scriptRun [texts.flatten] ++ ys)) := by
  have hfold : ∀ texts, foldAccents (xs ++ (scriptRun texts ++ ys)) =
      foldAccents xs ++ (scriptRun texts ++ foldAccents ys) := by
    intro texts
    have hrun : ∀ t ∈ (scriptRun texts).getLast?, t.atom ≠ .accent := by
      intro t ht
      rw [atom_scriptRun (List.mem_of_getLast? ht)]
      nofun
    rw [foldAccents_append_of_last hlast, foldAccents_append_of_last hrun, foldAccents_scriptRun]
  rw [assemble, assemble, hfold, hfold, foldScripts_merge _ htexts]

end Folding

/-! ### Characters in script style -/

section Setting

variable (letters : LetterStyle)

lemma atom_literal {c : Char} {t : Token} (h : t ∈ letters.literal c) :
    t.atom ∈ literalClasses := by
  unfold LetterStyle.literal at h
  split at h
  · rw [List.mem_singleton.mp h]
    exact List.mem_cons_self
  · split at h
    · cases h
    · rw [List.mem_singleton.mp h]
      exact charClass_mem_literalClasses c

/-- The text of a script with a character for its argument. -/
def scriptOf (trigger : Trigger) (c : Char) : Text :=
  toScript trigger.table ((letters.literal c).flatMap Token.text)

lemma toScript_typeset (spaces : Spaces) (trigger : Trigger) (text : Text) :
    toScript trigger.table (typeset spaces .script (text.flatMap letters.literal)) =
      (text.map (scriptOf letters trigger)).flatten := by
  have hclasses : ∀ t ∈ text.flatMap letters.literal, t.atom ∈ literalClasses := by
    intro t ht
    obtain ⟨c, -, hc⟩ := List.mem_flatMap.mp ht
    exact atom_literal letters hc
  rw [(unspaced_literalClasses spaces).typeset hclasses, List.flatMap_assoc, toScript,
    List.map_flatMap, List.flatMap_def]
  rfl

end Setting

/-! ### Reading a run -/

section Reading

/-- Items that end in no control word can stand before anything. -/
lemma allWellFormed_of_forall {r : Registry} {items : List Item}
    (h : ∀ item ∈ items, item.wellFormed r = true ∧ item.endsInWord = false) :
    allWellFormed r items = true ∧ endsInWord items = false := by
  constructor
  · induction items with
    | nil => rfl
    | cons item items ih =>
      obtain ⟨hitem, hitems⟩ := List.forall_mem_cons.mp h
      rw [allWellFormed, hitem.1, hitem.2, ih hitems]
      rfl
  · simp only [endsInWord, Option.any_eq_false]
    intro item hitem
    simp [(h item (List.mem_of_getLast? hitem)).2]

lemma printAll_map {α : Type} (items : α → Item) (xs : List α) :
    printAll (xs.map items) = xs.flatMap fun x => (items x).print := by
  induction xs with
  | nil => rfl
  | cons x xs ih => rw [List.map_cons, printAll, ih, List.flatMap_cons]

lemma denoteAll_map {α : Type} (r : Registry) (letters : LetterStyle) (spaces : Spaces)
    (items : α → Item) (xs : List α) (level : Nat) (style : Style) :
    denoteAll r letters spaces (xs.map items) level style =
      xs.flatMap fun x => (items x).denote r letters spaces level style := by
  induction xs with
  | nil => rfl
  | cons x xs ih => rw [List.map_cons, denoteAll, ih, List.flatMap_cons]

/-- Items of one form, one for each character of a text. -/
lemma setsTo_map {text : Text} (items : Char → Item)
    (h : ∀ c ∈ text, (items c).wellFormed T.registry = true ∧ (items c).endsInWord = false)
    (rest : Text) :
    SetsTo T hF level style (text.flatMap fun c => (items c).print)
      (text.flatMap fun c =>
        (items c).denote T.registry T.settings.letterStyle T.settings.spaces level style) rest := by
  obtain ⟨hformed, hword⟩ := allWellFormed_of_forall (List.forall_mem_map.mpr h)
  have hset : SetsTo T hF level style (printAll (text.map items)) _ rest :=
    setsTo_all T hF (text.map items) level style rest hformed fun hends => by
      rw [hword] at hends
      cases hends
  rwa [printAll_map, denoteAll_map] at hset

lemma setsTo_plain {text : Text} (h : ∀ c ∈ text, isPlain c = true) (rest : Text) :
    SetsTo T hF level style text (text.flatMap T.settings.letterStyle.literal) rest := by
  have hset : SetsTo T hF level style (text.flatMap fun c => [c]) _ rest :=
    setsTo_map Item.char (fun c hc => ⟨h c hc, rfl⟩) rest
  rwa [List.flatMap_singleton'] at hset

variable {body : Text} (trigger : Trigger)

lemma setsTo_scriptRun (hbody : ∀ c ∈ body, isPlain c = true ∧ isBlank c = false) (rest : Text) :
    SetsTo T hF (level + 1) style (body.flatMap fun c => [trigger.char, c])
      (scriptRun (body.map (scriptOf T.settings.letterStyle trigger))) rest := by
  have hset : SetsTo T hF (level + 1) style (body.flatMap fun c => [trigger.char, c]) _ rest :=
    setsTo_map (fun c => Item.script trigger [] (.char c)) (fun c hc => by
      simp [Item.wellFormed, Item.isArgument, Item.endsInWord, hbody c hc]) rest
  have hmeaning : ∀ c, (Item.script trigger [] (.char c)).denote T.registry
      T.settings.letterStyle T.settings.spaces (level + 1) style =
        [⟨.script, scriptOf T.settings.letterStyle trigger c⟩] := by
    intro c
    have htext := toScript_typeset T.settings.letterStyle T.settings.spaces trigger [c]
    rw [List.flatMap_singleton, List.map_singleton, List.flatten_singleton] at htext
    rw [← htext]
    rfl
  simp only [hmeaning] at hset
  rw [scriptRun, List.map_map, List.map_eq_flatMap]
  exact hset

lemma setsTo_groupScript (hbody : ∀ c ∈ body, isPlain c = true) (rest : Text) :
    SetsTo T hF (level + 1) style (trigger.char :: groupText body)
      (scriptRun [(body.map (scriptOf T.settings.letterStyle trigger)).flatten]) rest := by
  have hgroup : groupText body = '{' :: (body ++ ['}']) := rfl
  have hneutral : Neutral body :=
    neutral_of_forall_mem fun c hc => (ne_of_isPlain (hbody c hc)).2.2.2
  have hset : SetsTo T hF level .script body _ [] := setsTo_plain hbody []
  have hnested := hset.nestedGives.skipBlanks
  rw [← unwrap_group] at hnested
  have hscript : SetsTo T hF (level + 1) style (trigger.char :: ([] ++ groupText body)) _ rest :=
    setsTo_script_succ trigger nofun (argumentLength?_braces hneutral rest) hnested
  rw [toScript_typeset] at hscript
  exact hscript

lemma SetsTo.tokenize_append {text rest : Text} {tokens : List Token}
    (h : SetsTo T exactRemembering T.settings.maxDepth .text text tokens rest) :
    T.tokenize (text ++ rest) = tokens ++ T.tokenize rest :=
  h.comesTo.tokenize (Nat.zero_le _)

end Reading

/-- A script over a group of characters is one token and the scripts over the characters one by one
are a token each. Both come between the tokens of what stands before and behind, the one token has
the text of the others, and so all of it is set alike. Scripts take one level, which settings that
are read from sources always allow (`Settings.one_le_maxDepth_of_ofSources`). -/
theorem grouped_script_set_as_run (T : Typesetter) (hdepth : 1 ≤ T.settings.maxDepth)
    (trigger : Trigger) {before body : Text} (hbefore : ∀ c ∈ before, isPlain c = true)
    (hbody : ∀ c ∈ body, isPlain c = true ∧ isBlank c = false) (hsome : body ≠ []) (rest : Text) :
    let grouped := before ++ (trigger.char :: groupText body ++ rest)
    let single := before ++ (body.flatMap (fun c => [trigger.char, c]) ++ rest)
    let scripts := body.map (scriptOf T.settings.letterStyle trigger)
    T.tokenize grouped =
        T.tokenize before ++ ([⟨.script, scripts.flatten⟩] ++ T.tokenize rest) ∧
      T.tokenize single =
        T.tokenize before ++ (scripts.map (Token.mk .script) ++ T.tokenize rest) ∧
      T.transform grouped = T.transform single := by
  intro grouped single scripts
  obtain ⟨level, hlevel⟩ := Nat.exists_eq_add_of_le' hdepth
  have hlead : ∀ later, T.tokenize (before ++ later) =
      before.flatMap T.settings.letterStyle.literal ++ T.tokenize later :=
    fun later => (setsTo_plain hbefore later).tokenize_append
  have halone : T.tokenize before = before.flatMap T.settings.letterStyle.literal :=
    (setsTo_plain hbefore []).tokenize
  have hgrouped : T.tokenize grouped =
      T.tokenize before ++ (scriptRun [scripts.flatten] ++ T.tokenize rest) := by
    have hset : SetsTo T exactRemembering (level + 1) .text _ _ rest :=
      setsTo_groupScript trigger (fun c hc => (hbody c hc).1) rest
    rw [← hlevel] at hset
    rw [hlead, halone, hset.tokenize_append]
  have hsingle : T.tokenize single =
      T.tokenize before ++ (scriptRun scripts ++ T.tokenize rest) := by
    have hset : SetsTo T exactRemembering (level + 1) .text _ _ rest :=
      setsTo_scriptRun trigger hbody rest
    rw [← hlevel] at hset
    rw [hlead, halone, hset.tokenize_append]
  refine ⟨hgrouped, hsingle, ?_⟩
  have hlast : ∀ t ∈ (T.tokenize before).getLast?, t.atom ≠ .accent := by
    intro t ht haccent
    rw [halone] at ht
    obtain ⟨c, -, hc⟩ := List.mem_flatMap.mp (List.mem_of_getLast? ht)
    have hclass := atom_literal T.settings.letterStyle hc
    rw [haccent] at hclass
    exact absurd hclass (by decide)
  have hscripts : scripts ≠ [] := fun hnil => hsome (List.map_eq_nil_iff.mp hnil)
  rw [Typesetter.transform, Typesetter.transform, hgrouped, hsingle, Typesetter.setTokens,
    Typesetter.setTokens, typeset, typeset, assemble_merge hlast hscripts]

/-- The scripts belong to an operator, there are an operator and a comma among them, and one letter
has no lowered form. -/
theorem grouped_script_set_as_run_on_operator :
    let before := ['x', '+']
    let body := ['-', 'q', ',', 'a']
    let rest := ['\\', 'm', 'u']
    let scripts : List Text := [['₋'], ['𝑞'], [','], ['ₐ']]
    1 ≤ muOnly.settings.maxDepth ∧ (∀ c ∈ before, isPlain c = true) ∧
      (∀ c ∈ body, isPlain c = true ∧ isBlank c = false) ∧ body ≠ [] ∧
      muOnly.tokenize (before ++ ('_' :: groupText body ++ rest)) =
        muOnly.tokenize before ++ ([⟨.script, scripts.flatten⟩] ++ muOnly.tokenize rest) ∧
      muOnly.tokenize (before ++ (body.flatMap (fun c => ['_', c]) ++ rest)) =
        muOnly.tokenize before ++ (scripts.map (Token.mk .script) ++ muOnly.tokenize rest) ∧
      muOnly.transform (before ++ ('_' :: groupText body ++ rest)) =
        muOnly.transform (before ++ (body.flatMap (fun c => ['_', c]) ++ rest)) := by
  intro before body rest scripts
  have hbefore : ∀ c ∈ before, isPlain c = true := by simp [before, isPlain]
  have hbody : ∀ c ∈ body, isPlain c = true ∧ isBlank c = false := by
    simp [body, isPlain, isBlank, blankRanges]
  have hscripts : body.map (scriptOf muOnly.settings.letterStyle .subscript) = scripts := by decide
  have hset :=
    grouped_script_set_as_run muOnly (by decide) .subscript hbefore hbody (by decide) rest
  rw [hscripts] at hset
  exact ⟨by decide, hbefore, hbody, by decide, hset⟩

end MathMarkup.Proofs
