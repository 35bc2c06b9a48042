import MathMarkup.Settings
import MathMarkup.Value

/-!
# Sources of settings

Settings are put together from values given outright, from variables of the environment, and from
defaults, in this order of preference. Every setting is checked, and all complaints are collected.
-/

namespace MathMarkup

structure SettingSources where
  values : List (Text × Value) := []
  environment : List (Text × Text) := []

def environmentPrefix : String := "unimath_"

/-- What is kept under a name, in any letter case. The last of several entries counts. -/
def lookupAnyCase {α : Type} (name : String) (entries : List (Text × α)) : Option α :=
  (entries.reverse.find? fun entry => entry.1.lowerCased = name.toList).map Prod.snd

namespace SettingSources

def value? (sources : SettingSources) (name : String) : Option Value :=
  (lookupAnyCase name sources.values).orElse fun _ =>
    (lookupAnyCase (environmentPrefix ++ name) sources.environment).map Value.text

/-- A setting as it is read from its value, or its default if no source gives a value or if the
value is at fault; in the latter case with a complaint. -/
def read {α : Type} (sources : SettingSources) (name : String) (ofValue : Value → Except Fault α)
    (default : α) : α × List Complaint :=
  match sources.value? name with
  | none => (default, [])
  | some value =>
    match ofValue value with
    | .ok a => (a, [])
    | .error fault => (default, [⟨name, fault⟩])

end SettingSources

def LetterStyle.ofValue (value : Value) : Except Fault LetterStyle :=
  match value with
  | .text t =>
    if t = "italic".toList then .ok .italic
    else if t = "sans-italic".toList then .ok .sansItalic
    else if t = "upright".toList then .ok .upright
    else .error .notAChoice
  | _ => .error .notAChoice

def LetterStyle.name : LetterStyle → String
  | .italic => "italic"
  | .sansItalic => "sans-italic"
  | .upright => "upright"

/-- The settings that the sources give, or every complaint about them by the order of names. -/
def Settings.ofSources (sources : SettingSources) : Except (List Complaint) Settings :=
  let defaults : Settings := {}
  let appName := sources.read "app_name" Value.toText defaults.appName
  let appVersion := sources.read "app_version" Value.toText defaults.appVersion
  let debug := sources.read "debug" Value.toBool defaults.debug
  let letterStyle := sources.read "letter_style" LetterStyle.ofValue defaults.letterStyle
  let logLevel := sources.read "log_level" Value.toText defaults.logLevel
  let maxDepth := sources.read "max_depth" Value.toLimit defaults.maxDepth
  let maxExpansions := sources.read "max_expansions" Value.toLimit defaults.maxExpansions
  let mediumSpace := sources.read "medium_space" Value.toText defaults.mediumSpace
  let thickSpace := sources.read "thick_space" Value.toText defaults.thickSpace
  let thinSpace := sources.read "thin_space" Value.toText defaults.thinSpace
  let complaints := appName.2 ++ appVersion.2 ++ debug.2 ++ letterStyle.2 ++ logLevel.2 ++
    maxDepth.2 ++ maxExpansions.2 ++ mediumSpace.2 ++ thickSpace.2 ++ thinSpace.2
  if complaints.isEmpty then
    .ok
      { appName := appName.1
        appVersion := appVersion.1
        debug := debug.1
        logLevel := logLevel.1
        letterStyle := letterStyle.1
        thinSpace := thinSpace.1
        mediumSpace := mediumSpace.1
        thickSpace := thickSpace.1
        maxDepth := maxDepth.1
        maxExpansions := maxExpansions.1 }
  else .error complaints

theorem SettingSources.one_le_read_toLimit (sources : SettingSources) (name : String)
    {default : Nat} (h : 1 ≤ default) : 1 ≤ (sources.read name Value.toLimit default).1 := by
  unfold read
  cases sources.value? name with
  | none => exact h
  | some value =>
    dsimp only
    split
    · next limit hlimit => exact Value.one_le_of_toLimit hlimit
    · exact h

/-- Settings that are given leave at least one level of nested markup. -/
theorem Settings.one_le_maxDepth_of_ofSources {sources : SettingSources} {settings : Settings}
    (h : ofSources sources = .ok settings) : 1 ≤ settings.maxDepth := by
  unfold ofSources at h
  extract_lets defaults appName appVersion debug letterStyle logLevel maxDepth at h
  split at h
  · injection h with h
    rw [← h]
    exact sources.one_le_read_toLimit "max_depth" (by decide)
  · cases h

def Settings.toValue (settings : Settings) : Value :=
  .object
    [("app_name".toList, .text settings.appName),
      ("app_version".toList, .text settings.appVersion),
      ("debug".toList, .bool settings.debug),
      ("log_level".toList, .text settings.logLevel),
      ("letter_style".toList, .text settings.letterStyle.name.toList),
      ("thin_space".toList, .text settings.thinSpace),
      ("medium_space".toList, .text settings.mediumSpace),
      ("thick_space".toList, .text settings.thickSpace),
      ("max_depth".toList, .integer settings.maxDepth),
      ("max_expansions".toList, .integer settings.maxExpansions)]

end MathMarkup
