import ComponentLint.Json.Basic
import ComponentLint.Lint.Report
import ComponentLint.Rules.Catalog

/-!
# Rule settings

The setting of a rule is a severity, followed by options if there are any.
-/

namespace ComponentLint

/-- How a rule is turned on, if it is. -/
inductive Severity where
  | off
  | warn
  | error
  deriving DecidableEq, Repr

namespace Severity

/-- The name of a severity. -/
def name : Severity → String
  | .off => "off"
  | .warn => "warn"
  | .error => "error"

/-- The severity of a name. -/
def ofName? : String → Option Severity
  | "off" => some .off
  | "warn" => some .warn
  | "error" => some .error
  | _ => none

/-- The severity of a number. -/
def ofNat? : Nat → Option Severity
  | 0 => some .off
  | 1 => some .warn
  | 2 => some .error
  | _ => none

/-- The severity that a value stands for: a name or a number. -/
def ofJson? (value : Json) : Option Severity :=
  match value with
  | .str text => ofName? text
  | _ => value.asNat?.bind ofNat?

/-- The level of what a rule of this severity reports, unless the rule is off. -/
def level? : Severity → Option Level
  | .off => none
  | .warn => some .warning
  | .error => some .error

end Severity

/-- Why a value is no setting. -/
inductive SettingError where
  /-- A value stands where a severity should. -/
  | invalidSeverity (value : Json)
  /-- A list has no entries. -/
  | noSeverity

/-- The wording of the cause. -/
def SettingError.message : SettingError → String
  | .invalidSeverity value => "invalid severity " ++ value.compact
  | .noSeverity => "expected a severity as the first entry"

/-- The severity of a rule with its options. -/
structure Setting where
  severity : Severity
  options : List Json := []

namespace Setting

/-- Reads a severity. -/
def severityOf (value : Json) : Except SettingError Severity :=
  match Severity.ofJson? value with
  | some severity => .ok severity
  | none => .error (.invalidSeverity value)

/-- The setting that a value stands for: a severity, or a list of a severity and options. -/
def ofJson : Json → Except SettingError Setting
  | .arr [] => .error .noSeverity
  | .arr (first :: options) => (severityOf first).map (⟨·, options⟩)
  | value => (severityOf value).map (⟨·, []⟩)

/-- The value of a setting. -/
def toJson (setting : Setting) : Json :=
  if setting.options.isEmpty then .str setting.severity.name
  else .arr (.str setting.severity.name :: setting.options)

end Setting

end ComponentLint

/-!
## Presets

A preset turns on the rules of a category on top of those of the preset below it. It is published in two dialects: as
an object that points to the preset below, and as a list of objects from the lowest preset on.
-/

namespace ComponentLint

/-- The presets, from the lowest on. -/
inductive Preset where
  | base
  | essential
  | stronglyRecommended
  | recommended
  deriving DecidableEq, Repr

/-- Settings by the names of rules, in the order in which they are applied. -/
abbrev RuleSettings := List (String × Setting)

namespace Preset

/-- Every preset, from the lowest on. -/
def all : List Preset :=
  [.base, .essential, .stronglyRecommended, .recommended]

/-- The category whose rules a preset adds. -/
def category? : Preset → Option Category
  | .base => none
  | .essential => some .essential
  | .stronglyRecommended => some .stronglyRecommended
  | .recommended => some .recommended

/-- The name of a preset, which is that of its category. -/
def name (preset : Preset) : String :=
  match preset.category? with
  | some category => category.name
  | none => "base"

/-- The preset of a name. -/
def ofName? (name : String) : Option Preset :=
  all.find? (·.name == name)

/-- The preset below. -/
def below? : Preset → Option Preset
  | .base => none
  | .essential => some .base
  | .stronglyRecommended => some .essential
  | .recommended => some .stronglyRecommended

/-- A preset with those below it, from the lowest on. -/
def upTo : Preset → List Preset
  | .base => [.base]
  | .essential => [.base, .essential]
  | .stronglyRecommended => [.base, .essential, .stronglyRecommended]
  | .recommended => [.base, .essential, .stronglyRecommended, .recommended]

/-- The severity of the rules that a preset adds. -/
def severity : Preset → Severity
  | .essential => .error
  | _ => .warn

/-- The settings that a preset adds to those of the preset below. -/
def ownRules (preset : Preset) : RuleSettings :=
  match preset.category? with
  | some category => (Rule.ofCategory category).map fun rule => (rule.info.qualifiedName, ⟨preset.severity, []⟩)
  | none => []

/-- All settings of a preset, those of the lowest preset first. -/
def rules (preset : Preset) : RuleSettings :=
  preset.upTo.flatMap ownRules

/-- What stands before the name of a preset that is published as an object. -/
def linkedMark : String := "plugin:vue/"

/-- What stands before the name of a preset that is published as a list. -/
def flatMark : String := "flat/"

/-- The preset whose name stands after a mark. -/
def afterMark? (mark name : String) : Option Preset :=
  (Text.afterMark? mark.toList name.toList).bind fun rest => ofName? (String.ofList rest)

/-- The preset that a name in either dialect stands for, or a bare name. -/
def resolve? (name : String) : Option Preset :=
  if (Text.afterMark? linkedMark.toList name.toList).isSome then afterMark? linkedMark name
  else (afterMark? flatMark name).or (ofName? name)

end Preset

/-- A preset as an object that points to the preset below it. -/
structure LinkedPreset where
  extend : Option String
  rules : RuleSettings

/-- An entry of a preset that is published as a list. -/
structure FlatEntry where
  name : String
  rules : RuleSettings

/-- The object of a preset, by its name in that dialect. -/
def LinkedPreset.ofName? (name : String) : Option LinkedPreset :=
  (Preset.afterMark? Preset.linkedMark name).map fun preset =>
    ⟨preset.below?.map (Preset.linkedMark ++ ·.name), preset.ownRules⟩

/-- The list of a preset, by its name in that dialect. -/
def FlatEntry.listOfName? (name : String) : Option (List FlatEntry) :=
  (Preset.afterMark? Preset.flatMark name).map fun preset =>
    preset.upTo.map fun step => ⟨namespaceMark ++ step.name ++ "/rules", step.ownRules⟩

end ComponentLint
