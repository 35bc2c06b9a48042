import Mathlib
import MathMarkup.Proofs.ItemExpansion

/-!
# Spaces of script style

In script style no medium and no thick space is set, and nested markup never leaves script style. So
whatever is expanded there is the same for any medium and any thick space: what handlers are given,
what is paid for, and what it all comes to.
-/

namespace MathMarkup

/-- The typesetter with another medium and another thick space. -/
def Typesetter.withWideSpaces (T : Typesetter) (medium thick : Text) : Typesetter :=
  { T with settings := { T.settings with mediumSpace := medium, thickSpace := thick } }

namespace Proofs

variable {F : GroupFinder}

/-! ### Joining atoms -/

/-- The gaps that script style keeps are thin ones. -/
lemma inStyle_script_of_between? {left right : AtomClass} {gap : Gap}
    (h : Gap.between? left right = some gap) :
    gap.inStyle .script = .none ∨ gap.inStyle .script = .thin := by
  revert gap
  cases left <;> cases right <;> simp [Gap.between?, Gap.inStyle, Gap.always, Gap.inText]

lemma between_script {spaces spaces' : Spaces} (hthin : spaces.thin = spaces'.thin)
    (left right : AtomClass) :
    spaces.between .script left right = spaces'.between .script left right := by
  unfold Spaces.between
  cases hgap : Gap.between? left right with
  | none => rfl
  | some gap =>
    rcases inStyle_script_of_between? hgap with hnone | hthin'
    · simp only [hnone, Spaces.text]
    · simp only [hthin', Spaces.text, hthin]

lemma joinAtoms_script {spaces spaces' : Spaces} (hthin : spaces.thin = spaces'.thin)
    (atoms : List Token) : joinAtoms spaces .script atoms = joinAtoms spaces' .script atoms := by
  fun_induction joinAtoms spaces .script atoms with
  | case1 => rfl
  | case2 t => rfl
  | case3 t u ts ih => rw [joinAtoms, between_script hthin, ih]

lemma typeset_script {spaces spaces' : Spaces} (hthin : spaces.thin = spaces'.thin)
    (tokens : List Token) : typeset spaces .script tokens = typeset spaces' .script tokens :=
  joinAtoms_script hthin (assemble tokens)

/-! ### Expansion in script style -/

section Expansion

variable {hF : ExactFinder F} {past past' : List Event} {s t : ExpansionState F} (T : Typesetter)
  (medium thick : Text)

lemma thin_withWideSpaces :
    (T.withWideSpaces medium thick).settings.spaces.thin = T.settings.spaces.thin := rfl

lemma readAlike_withWideSpaces :
    Comparison.ReadAlike T (T.withWideSpaces medium thick) fun style => style = .script where
  start _ _ := rfl
  literal _ _ := rfl
  max _ inner hstyle := by
    rw [hstyle]
    rfl
  set _ tokens hstyle := by
    rw [hstyle]
    exact typeset_script (thin_withWideSpaces T medium thick).symm tokens

lemma withWideSpaces_none (style : Style) :
    (agreeing hF hF past past').NestedAlike style (T.levels F 0)
      ((T.withWideSpaces medium thick).levels F 0) :=
  agreeing_none rfl style

theorem levels_withWideSpaces (level : Nat) (text : Text) (h : Agree hF hF past past' s t) :
    SameOutcome hF hF past past' ((T.levels F level).expand .script text s)
      (((T.withWideSpaces medium thick).levels F level).expand .script text t) :=
  sameOutcome_of_alike ((readAlike_withWideSpaces T medium thick).levels agreeing_spends
    (fun style _ => withWideSpaces_none T medium thick style) level .script rfl text s t h)

lemma expandAll_withWideSpaces (level : Nat) (text : Text) (h : Agree hF hF past past' s t) :
    SameOutcome hF hF past past' (T.expandAll (T.levels F level) level .script text s)
      ((T.withWideSpaces medium thick).expandAll ((T.withWideSpaces medium thick).levels F level)
        level .script text t) :=
  sameOutcome_of_alike ((readAlike_withWideSpaces T medium thick).expandAll agreeing_spends
    (fun style _ => withWideSpaces_none T medium thick style) level rfl text h)

/-- With no level below, nothing is set on the way, in whichever style. -/
lemma expandAll_withWideSpaces_zero (style : Style) (text : Text)
    (h : Agree hF hF past past' s t) :
    SameOutcome hF hF past past' (T.expandAll (T.levels F 0) 0 style text s)
      ((T.withWideSpaces medium thick).expandAll ((T.withWideSpaces medium thick).levels F 0) 0
        style text t) := by
  have hb := (agreeing hF hF past past').broken.levels T 0
  refine sameOutcome_of_alike (Comparison.expandAll_alike hb ?_ text h)
  intro c rest s t h
  apply Comparison.step_alike agreeing_spends hb
  · exact fun inner => withWideSpaces_none T medium thick (style.max inner)
  · intro inner text s tokens hexpand
    cases hexpand
  · rfl
  · rfl
  · exact h

/-- A script over a whole group is expanded in script style, whatever the style around it. -/
theorem expandAll_script_withWideSpaces (trigger : Trigger) {body : Text} (hbody : Neutral body)
    (level : Nat) (style : Style) (hs : SoundMemory hF s) :
    SameOutcome hF hF [] []
      (T.expandAll (T.levels F level) level style (trigger.char :: '{' :: (body ++ ['}'])) s)
      ((T.withWideSpaces medium thick).expandAll ((T.withWideSpaces medium thick).levels F level)
        level style (trigger.char :: '{' :: (body ++ ['}'])) s) := by
  cases level with
  | zero => exact expandAll_withWideSpaces_zero T medium thick style _ (Agree.refl hs)
  | succ level =>
    have hscript := isUnary_scriptMacro trigger.table
    have hstyle : style.max (scriptMacro trigger.table).style = .script := max_script style
    obtain ⟨site, hstart⟩ := start?_trigger T trigger ('{' :: (body ++ ['}']))
    have hstart' : (T.withWideSpaces medium thick).start? trigger.char ('{' :: (body ++ ['}'])) =
        some (site, .function (scriptMacro trigger.table), '{' :: (body ++ ['}'])) := hstart
    obtain ⟨hsound, hexpand⟩ := expandAll_unary_group level style hscript hbody hstart hs
    obtain ⟨-, hexpand'⟩ := expandAll_unary_group level style hscript hbody hstart' hs
    obtain ⟨tokens, s₁, t₁, hs₁, ht₁, h₁⟩ :=
      (expandAll_withWideSpaces T medium thick level body (Agree.refl hsound)).split
    simp only [hstyle, hs₁] at hexpand
    simp only [hstyle, ht₁, typeset_script (thin_withWideSpaces T medium thick)] at hexpand'
    rw [hexpand, hexpand']
    exact ⟨rfl, h₁.record _⟩

end Expansion

/-- In script style no markup shows the medium or the thick space, at any level and from any state
that expansion can be in: it expands to the same tokens, which are set as the same text, it gives
handlers the same arguments and it pays for the same splices. A script over a group is such markup,
and so it gives the same tokens wherever it stands. -/
theorem script_style_without_wide_spaces (T : Typesetter) (medium thick : Text) :
    (∀ level text (s : ExpansionState .remembering), SoundMemory exactRemembering s →
      let shown := (T.levels .remembering level).expand .script text s
      let other := ((T.withWideSpaces medium thick).levels .remembering level).expand .script text s
      other.1 = shown.1 ∧
        other.1.map (typeset (T.withWideSpaces medium thick).settings.spaces .script) =
          shown.1.map (typeset T.settings.spaces .script) ∧
        other.2.remaining = shown.2.remaining ∧ other.2.exhausted = shown.2.exhausted ∧
        other.2.history = shown.2.history) ∧
    ∀ (trigger : Trigger) body, IsBalanced body →
      let source := trigger.char :: '{' :: (body ++ ['}'])
      (T.withWideSpaces medium thick).tokenize source = T.tokenize source ∧
        (T.withWideSpaces medium thick).history source = T.history source := by
  constructor
  · intro level text s hsound shown other
    have hsame := levels_withWideSpaces T medium thick level text (Agree.refl hsound)
    have hset : typeset (T.withWideSpaces medium thick).settings.spaces .script =
        typeset T.settings.spaces .script := funext (typeset_script rfl)
    have hvalue : other.1 = shown.1 := hsame.value.symm
    refine ⟨hvalue, ?_, hsame.state.remaining.symm, hsame.state.exhausted.symm,
      congrArg List.reverse hsame.state.events_eq.symm⟩
    rw [hset, hvalue]
  · intro trigger body hbalanced source
    have hsound : SoundMemory exactRemembering (T.initialState .remembering) :=
      soundMemory_of_memories_nil exactRemembering rfl
    have hsame := expandAll_script_withWideSpaces T medium thick trigger hbalanced.neutral
      T.settings.maxDepth .text hsound
    exact ⟨hsame.value.symm, congrArg List.reverse hsame.state.events_eq.symm⟩

def boxAndRel : Typesetter where
  registry := ⟨[(['b', 'o', 'x'], .text ['{', 'b', '+', 'c', '}']),
    (['r', 'e', 'l'], .function (.ofClass .rel))]⟩
  settings := { maxDepth := 3, maxExpansions := 1 }

/-- A macro of text style with a splice in its argument, within a script and in running text. -/
theorem script_style_without_wide_spaces_rel :
    let other := boxAndRel.withWideSpaces ['m'] ['t']
    let body := ['a', '\\', 'r', 'e', 'l', '{', '\\', 'b', 'o', 'x', '}', 'd']
    let s : ExpansionState .remembering := { remaining := 1 }
    SoundMemory exactRemembering s ∧ IsBalanced body ∧
      ((other.levels .remembering 3).expand .script body s).1 =
        ((boxAndRel.levels .remembering 3).expand .script body s).1 ∧
      other.tokenize ('^' :: '{' :: (body ++ ['}'])) =
        boxAndRel.tokenize ('^' :: '{' :: (body ++ ['}'])) ∧
      other.transform body ≠ boxAndRel.transform body := by
  intro other body s
  have hsound : SoundMemory exactRemembering s := soundMemory_of_memories_nil exactRemembering rfl
  have hbalanced : IsBalanced body := by decide
  have hshown : boxAndRel.transform body =
      ['𝑎', '\u2005', '𝑏', '\u205F', '+', '\u205F', '𝑐', '\u2005', '𝑑'] := by cbv
  have hother : other.transform body = ['𝑎', 't', '𝑏', 'm', '+', 'm', '𝑐', 't', '𝑑'] := by cbv
  obtain ⟨hexpand, hscript⟩ := script_style_without_wide_spaces boxAndRel ['m'] ['t']
  refine ⟨hsound, hbalanced, (hexpand 3 body s hsound).1,
    (hscript .superscript body hbalanced).1, ?_⟩
  rw [hshown, hother]
  decide

end Proofs

end MathMarkup
