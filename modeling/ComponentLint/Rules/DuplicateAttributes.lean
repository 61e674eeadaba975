import ComponentLint.Config.Value
import ComponentLint.Lint.Rule

/-!
# Duplicate attributes

An element sets each attribute once. A plain and a bound `class` are merged, and so are two styles, so these may stand
side by side unless the options say otherwise.
-/

namespace ComponentLint.Rules.DuplicateAttributes

open Markup

/-- Which attributes may be both plain and bound. -/
structure Settings where
  allowClass : Bool
  allowStyle : Bool

/-- Reads which attributes may be both plain and bound. -/
def Settings.ofJson? (value : Json) : Option Settings := do
  let record ← Record.ofJson? 0 2 value
  let allowClass ← record.field? 0 "allowCoexistClass" Json.asBool? true
  let allowStyle ← record.field? 1 "allowCoexistStyle" Json.asBool? true
  return ⟨allowClass, allowStyle⟩

/-- The settings of the options. -/
def Settings.ofOptions? (options : List Json) : Option Settings :=
  Json.option? options 0 Settings.ofJson? ⟨true, true⟩

/-- The description of the rule. -/
def info : RuleInfo where
  name := "no-duplicate-attributes"
  category := .essential
  description := "disallow duplication of attributes"
  messages := [("duplicateAttribute", "Duplicate attribute '\x7b\x7bname\x7d\x7d'.")]
  schema := .tuple [.object [("allowCoexistClass", .boolean), ("allowCoexistStyle", .boolean)]]

/-- The name that an attribute sets: its own, or the static argument of a binding. -/
def nameSet? (attr : Attribute) : Option String :=
  match attr.key with
  | .plain name => some name.text
  | .directive key =>
    if key.name.text == "bind" then key.argument.bind (·.staticName?) else none

/-- Whether a plain and a bound attribute of a name may stand side by side. -/
def Settings.mayCoexist (settings : Settings) (name : String) : Bool :=
  (settings.allowClass && name == "class") || (settings.allowStyle && name == "style")

/-- The first attribute that sets a name and is a directive, or is not. -/
def firstSetting? (attributes : List Attribute) (name : String) (bound : Bool) : Option Attribute :=
  attributes.find? fun attr => nameSet? attr == some name && attr.directive?.isSome == bound

/-- The earlier attribute that an attribute repeats: one of its own kind where the two kinds may coexist, and otherwise
the first that is bound, or else the first that is plain. -/
def repeated? (settings : Settings) (earlier : List Attribute) (name : String) (bound : Bool) : Option Attribute :=
  if settings.mayCoexist name then firstSetting? earlier name bound
  else (firstSetting? earlier name true).or (firstSetting? earlier name false)

/-- Reports the attributes that repeat an earlier one. -/
def checkFrom (settings : Settings) (earlier : List Attribute) : List Attribute → List Report
  | [] => []
  | attr :: rest =>
    let here := match nameSet? attr with
      | none => []
      | some name =>
        match repeated? settings earlier name attr.directive?.isSome with
        | some first =>
          [(info.report "duplicateAttribute" attr.span [("name", name)]).withLabel first.span "first occurrence"]
        | none => []
    here ++ checkFrom settings (earlier ++ [attr]) rest

/-- Checks the attributes of an element. -/
def check (settings : Settings) (_ : File) (_ : NodeId) (element : Element) : List Report :=
  checkFrom settings [] element.attributes

/-- The rule. -/
def rule : Rule where
  info := info
  checks? _ options := (Settings.ofOptions? options).map fun settings => { watches := [.elements (check settings)] }

end ComponentLint.Rules.DuplicateAttributes
