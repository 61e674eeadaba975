import ComponentLint.Config.Value
import ComponentLint.Lint.Rule
import ComponentLint.Script.Node
import ComponentLint.Text.Case

/-!
# Casing of event names

The names of the events that a component emits follow one style. They are looked for in calls of `$emit`, of what
`defineEmits` gives, and of the emitting function of the setup context. A new name has to be used by the listeners too,
so renaming is only suggested.
-/

namespace ComponentLint.Rules.EventCasing

open Text Markup

/-- The style of event names. -/
inductive EventCase where
  | camel
  | kebab
  deriving DecidableEq, Repr

namespace EventCase

/-- The name of a style. -/
def name : EventCase → String
  | .camel => "camelCase"
  | .kebab => "kebab-case"

/-- Whether a name follows a style. -/
def accepts : EventCase → List Char → Bool
  | .camel => isCamelCase
  | .kebab => isKebabCase

/-- The name in a style. -/
def convert : EventCase → List Char → List Char
  | .camel => toCamelCase
  | .kebab => toKebabCase

end EventCase

/-- The style, and the names that are left alone. -/
structure Settings where
  case : EventCase
  ignores : List String

/-- Reads the names that are left alone. -/
def readIgnores? (value : Json) : Option (List String) := do
  let record ← Record.ofJson? 0 1 value
  record.field? 0 "ignores" Json.textList? []

/-- The settings of the options. -/
def Settings.ofOptions? (options : List Json) : Option Settings := do
  let case ← Json.option? options 0 (Json.variant? [("camelCase", .camel), ("kebab-case", .kebab)]) .camel
  let ignores ← Json.option? options 1 readIgnores? []
  return ⟨case, ignores⟩

/-- The description of the rule. -/
def info : RuleInfo where
  name := "custom-event-name-casing"
  category := .uncategorized
  description := "enforce specific casing for custom event name"
  hasSuggestions := true
  messages :=
    [("unexpected", "Custom event name '\x7b\x7bname\x7d\x7d' must be \x7b\x7bcaseType\x7d\x7d."),
     ("rename", "Rename the event to '\x7b\x7bname\x7d\x7d'.")]
  schema := .tuple [.choice ["camelCase", "kebab-case"], .object [("ignores", .texts)]]

/-! ## The emitting functions -/

/-- The bindings of emitting functions, and those of setup contexts, which have one as their member. -/
structure Emitters where
  functions : List Nat
  contexts : List Nat
  deriving Repr

/-- The name that a declarator gives to what `defineEmits` gives. -/
def emitsName? (scopes : ScopeTable) : Script.Node → Option Nat
  | ⟨.declarator, _, [⟨.binding _, span, _⟩, value]⟩ =>
    if scopes.isApiCall ["defineEmits"] value then scopes.bindingAt? span else none
  | _ => none

/-- The emitting functions that a setup script declares at its top. -/
def ofSetupScript (file : File) : List Nat :=
  match file.component.setupScript? with
  | none => []
  | some script =>
    script.statements.flatMap fun statement =>
      match statement.kind with
      | .variables _ => statement.children.filterMap (emitsName? file.scopes)
      | _ => []

/-- The name that a property of a pattern gives to the member `emit`. -/
def emitProperty? (scopes : ScopeTable) : Script.Node → Option Nat
  | ⟨.patternProperty _, _, [key, ⟨.binding _, span, _⟩]⟩ =>
    if key.staticName? == some "emit" then scopes.bindingAt? span else none
  | _ => none

/-- The emitters that the second parameter of a `setup` function declares. -/
def ofContext (scopes : ScopeTable) : Option Script.Node → Emitters
  | some ⟨.binding _, span, _⟩ => ⟨[], (scopes.bindingAt? span).toList⟩
  | some ⟨.objectPattern, _, properties⟩ => ⟨properties.filterMap (emitProperty? scopes), []⟩
  | _ => ⟨[], []⟩

/-- The emitters that the scripts of a file declare. -/
def Emitters.ofFile (file : File) : Emitters :=
  let setup := file.options?.bind (Options.function? · "setup")
  let context := ofContext file.scopes ((setup.bind (·.params[1]?)).bind (·.pattern?))
  { context with functions := ofSetupScript file ++ context.functions }

/-! ## The calls -/

/-- Whether a callee emits events. -/
def isEmitter (scopes : ScopeTable) (emitters : Emitters) (callee : Script.Node) : Bool :=
  match callee.unparenthesized with
  | ⟨.identifier name, span, _⟩ =>
    match scopes.resolvedAt? span with
    | none => name == "$emit"
    | some binding => emitters.functions.contains binding
  | ⟨.member name _ _, _, [object]⟩ =>
    match object.unparenthesized with
    | ⟨.thisValue, _, _⟩ => name == "$emit"
    | ⟨.identifier _, span, _⟩ => name == "emit" && (scopes.resolvedAt? span).any emitters.contexts.contains
    | _ => false
  | _ => false

/-- The name of the event that a call emits, if it is written out. -/
def emittedName (scopes : ScopeTable) (emitters : Emitters) : Script.Node → List Name
  | ⟨.call .., _, callee :: ⟨.string value, span, _⟩ :: _⟩ => if isEmitter scopes emitters callee then [⟨value, span⟩] else []
  | _ => []

/-- The part of a name before the event: updates of a model are named after it. -/
def updateMark : List Char := "update:".toList

/-- A name taken apart into its mark and the event. -/
def splitName (name : String) : List Char × List Char :=
  if updateMark.isPrefixOf name.toList then (updateMark, name.toList.drop updateMark.length) else ([], name.toList)

/-- The suggestion to rename an event: the new name, and the fix that puts it between the old quotes. -/
def renameFix (file : File) (emitted : Name) (renamed : String) : Option Fix :=
  let quote := String.singleton ((file.text emitted.span).headD '\'')
  (file.draft.replace emitted.span (quote ++ renamed ++ quote)).build?

/-- Reports the name of an event that does not follow the style. -/
def checkName (patterns : PatternEngine) (settings : Settings) (file : File) (emitted : Name) : List Report :=
  let (mark, event) := splitName emitted.text
  if event.isEmpty || settings.case.accepts event || patterns.matchesAny settings.ignores emitted.text then []
  else
    let report := info.report "unexpected" emitted.span [("name", emitted.text), ("caseType", settings.case.name)]
    let renamed := String.ofList (mark ++ settings.case.convert event)
    if renamed == emitted.text then [report]
    else [report.withSuggestion (info.message "rename" [("name", renamed)]) (renameFix file emitted renamed)]

/-- Checks the events that pieces of script emit. -/
def check (patterns : PatternEngine) (settings : Settings) (file : File) (fragments : List Script.Node) : List Report :=
  (Script.Node.gatherEverywhere (emittedName file.scopes (.ofFile file)) fragments).flatMap (checkName patterns settings file)

/-- The rule. -/
def rule : Rule where
  info := info
  checks? patterns options := (Settings.ofOptions? options).map fun settings =>
    { watches := Watch.fragments fun file _ fragments => check patterns settings file fragments
      scripts := fun file => .reporting (check patterns settings file (file.component.scripts.flatMap (·.statements))) }

end ComponentLint.Rules.EventCasing
