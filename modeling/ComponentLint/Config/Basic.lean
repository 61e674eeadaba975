import ComponentLint.Config.Preset
import ComponentLint.Json.Parser

/-!
# Configurations

A configuration gives settings to rules, in the order in which the rules were first mentioned. It is written as an
object with presets to start from and settings to change, or as a list of preset names and such objects.
-/

namespace ComponentLint

/-- What a configuration may be written as. -/
inductive ConfigShape where
  | nameOrObject
  | objectOrList
  deriving DecidableEq, Repr

/-- The wording of a shape. -/
def ConfigShape.wording : ConfigShape → String
  | .nameOrObject => "a config name or object"
  | .objectOrList => "an object or array"

/-- Why a configuration cannot be used. -/
inductive ConfigError where
  | unknownRule (name : String)
  | unknownPreset (name : String)
  | invalidSetting (rule : String) (cause : SettingError)
  /-- Options that do not fit the schema of the rule. -/
  | invalidOptions (rule : String) (mismatch : Mismatch)
  /-- Options that fit the schema and still cannot be used. -/
  | unusableOptions (rule : String)
  /-- A text that is not JSON, or an object with the wrong members. -/
  | malformed
  | wrongShape (expected : ConfigShape) (value : Json)

/-- The wording of an error. -/
def ConfigError.message : ConfigError → String
  | .unknownRule name => "unknown rule `" ++ name ++ "`"
  | .unknownPreset name => "unknown config `" ++ name ++ "`"
  | .invalidSetting rule cause => "invalid setting for rule `" ++ rule ++ "`: " ++ cause.message
  | .invalidOptions rule mismatch => "invalid options for rule `" ++ rule ++ "`: " ++ mismatch.message
  | .unusableOptions rule => "cannot read options of rule `" ++ rule ++ "`"
  | .malformed => "invalid configuration"
  | .wrongShape expected value => "invalid configuration: expected " ++ expected.wording ++ ", got " ++ value.compact

/-- The settings of rules, by their names without the namespace. -/
structure Config where
  rules : RuleSettings

/-- A rule that is turned on: what it checks and the level of what it reports. -/
structure ActiveRule where
  info : RuleInfo
  level : Level
  checks : Checks

/-- Settings with one more: a rule that has a setting keeps its place. -/
def RuleSettings.put (name : String) (setting : Setting) : RuleSettings → RuleSettings
  | [] => [(name, setting)]
  | (other, old) :: rest =>
    if other == name then (other, setting) :: rest else (other, old) :: RuleSettings.put name setting rest

namespace Config

/-- The configuration without rules. -/
def empty : Config := ⟨[]⟩

/-- Gives a setting to a rule, if there is such a rule and the options fit its schema. -/
def setRule (config : Config) (name : String) (setting : Setting) : Except ConfigError Config :=
  match Rule.find? name with
  | none => .error (.unknownRule name)
  | some rule =>
    match rule.info.schema.mismatch? (.arr setting.options) with
    | some mismatch => .error (.invalidOptions rule.info.name mismatch)
    | none => .ok ⟨RuleSettings.put rule.info.name setting config.rules⟩

/-- The setting of a rule. -/
def setting? (config : Config) (name : String) : Option Setting :=
  (config.rules.find? (·.1 == Rule.bareName name)).map (·.2)

/-- Applies settings one after the other. -/
def setRules (config : Config) (settings : RuleSettings) : Except ConfigError Config :=
  settings.foldlM (fun config entry => config.setRule entry.1 entry.2) config

/-- Applies the settings of a preset. -/
def extend (config : Config) (name : String) : Except ConfigError Config :=
  match Preset.resolve? name with
  | none => .error (.unknownPreset name)
  | some preset => config.setRules preset.rules

/-- Reads a setting and applies it. -/
def setValue (config : Config) (name : String) (value : Json) : Except ConfigError Config :=
  match Setting.ofJson value with
  | .error cause => .error (.invalidSetting name cause)
  | .ok setting => config.setRule name setting

/-- The configuration of a preset. -/
def ofPreset (name : String) : Except ConfigError Config :=
  empty.extend name

/-- The rules that are on without a configuration. -/
def standard : Config :=
  ⟨Preset.recommended.rules.foldl (fun rules entry => RuleSettings.put (Rule.bareName entry.1) entry.2 rules) []⟩

/-- The members of a configuration object: the names of presets to start from, and settings. -/
structure Layer where
  extend : List String
  rules : List (String × Json)

/-- The texts of a list of texts. -/
def texts? : List Json → Option (List String)
  | [] => some []
  | .str text :: rest => (texts? rest).map (text :: ·)
  | _ :: _ => none

/-- The names of the presets to start from. -/
def extend? : Option Json → Option (List String)
  | none => some []
  | some .null => some []
  | some (.str name) => some [name]
  | some (.arr items) => texts? items
  | some _ => none

/-- The settings that an object gives. -/
def rules? : Option Json → Option (List (String × Json))
  | none => some []
  | some (.obj members) => some members
  | some _ => none

/-- Reads the members of a configuration object; no others are allowed. -/
def Layer.ofMembers? (members : List (String × Json)) : Option Layer := do
  guard (members.all fun member => ["extends", "rules"].contains member.1)
  let presets ← extend? (Json.get? (.obj members) "extends")
  let rules ← rules? (Json.get? (.obj members) "rules")
  return ⟨presets, rules⟩

/-- Applies a configuration object: its presets in order, then its settings. -/
def applyObject (config : Config) (members : List (String × Json)) : Except ConfigError Config :=
  match Layer.ofMembers? members with
  | none => .error .malformed
  | some layer => do
    let config ← layer.extend.foldlM extend config
    layer.rules.foldlM (fun config entry => config.setValue entry.1 entry.2) config

/-- Applies an entry of a configuration that is a list. -/
def applyEntry (config : Config) : Json → Except ConfigError Config
  | .str name => config.extend name
  | .obj members => config.applyObject members
  | value => .error (.wrongShape .nameOrObject value)

/-- The configuration that a value stands for. -/
def ofJson : Json → Except ConfigError Config
  | .arr entries => entries.foldlM applyEntry empty
  | .obj members => empty.applyObject members
  | value => .error (.wrongShape .objectOrList value)

/-- The configuration of a text; a blank text asks for the standard one. -/
def ofText (text : String) : Except ConfigError Config :=
  if Text.isBlank text.toList then .ok standard
  else
    match Json.parse? text with
    | some value => ofJson value
    | none => .error .malformed

/-- Turns a rule on, unless its setting turns it off. -/
def activate (patterns : PatternEngine) (entry : String × Setting) : Except ConfigError (Option ActiveRule) :=
  match entry.2.severity.level? with
  | none => .ok none
  | some level =>
    match Rule.find? entry.1 with
    | none => .error (.unknownRule entry.1)
    | some rule =>
      match rule.checks? patterns entry.2.options with
      | none => .error (.unusableOptions entry.1)
      | some checks => .ok (some ⟨rule.info, level, checks⟩)

/-- The rules that a configuration turns on, in order. -/
def activeRules (patterns : PatternEngine) (config : Config) : Except ConfigError (List ActiveRule) :=
  (config.rules.mapM (activate patterns)).map fun found => found.filterMap id

end Config

end ComponentLint
