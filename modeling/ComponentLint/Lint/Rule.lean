import ComponentLint.Component.Options
import ComponentLint.Config.Schema
import ComponentLint.Lint.Report
import ComponentLint.Markup.Selector
import ComponentLint.Scope.Collect
import ComponentLint.Text.Lines
import ComponentLint.Text.Pattern

/-!
# Rules

A rule watches nodes of the template and may look at the scripts. It is called back with the file, and with what it has
kept in mind from the callbacks before.
-/

namespace ComponentLint

open Text Markup

/-- How strongly a rule is recommended. -/
inductive Category where
  /-- Prevents errors. -/
  | essential
  /-- Improves readability. -/
  | stronglyRecommended
  /-- Settles a choice that could go either way. -/
  | recommended
  /-- Off unless asked for. -/
  | uncategorized
  deriving DecidableEq, Repr

namespace Category

/-- The name of a category. -/
def name : Category → String
  | .essential => "essential"
  | .stronglyRecommended => "strongly-recommended"
  | .recommended => "recommended"
  | .uncategorized => "uncategorized"

/-- The preset that turns on the rules of a category. -/
def preset? : Category → Option String
  | .uncategorized => none
  | category => some category.name

end Category

/-- What there is to know about a rule before it runs. -/
structure RuleInfo where
  name : String
  category : Category
  description : String
  fixable : Bool := false
  hasSuggestions : Bool := false
  /-- The message templates by their names. -/
  messages : List (String × String)
  schema : Schema := .noOptions

/-- What stands before the name of a rule in a configuration. -/
def namespaceMark : String := "vue/"

namespace RuleInfo

/-- The name of a rule with its namespace. -/
def qualifiedName (info : RuleInfo) : String :=
  namespaceMark ++ info.name

/-- Where a rule is documented. -/
def docsUrl (info : RuleInfo) : String :=
  "https://eslint.vuejs.org/rules/" ++ info.name ++ ".html"

/-- The message of a name. -/
def message (info : RuleInfo) (id : String) (data : List (String × String)) : String :=
  match info.messages.find? (·.1 == id) with
  | some (_, template) => renderMessage template data
  | none => renderMessage id data

/-- The report of a message at a place. -/
def report (info : RuleInfo) (id : String) (span : Span) (data : List (String × String) := []) : Report :=
  { messageId := id, span := span, message := info.message id data }

end RuleInfo

/-- A component with what rules ask about it. -/
structure File where
  component : Component
  scopes : ScopeTable
  lines : LineIndex
  /-- The bytes of the source. -/
  length : Nat

namespace File

/-- The file of a source text. -/
def ofSource (languages : Script.Languages) (source : List Char) : File :=
  let component := Component.parse languages source
  ⟨component, ScopeTable.ofComponent component, LineIndex.ofText source, byteLength source⟩

/-- The tree of the file. -/
def document (file : File) : Document :=
  file.component.document

/-- The text of a span. -/
def text (file : File) (span : Span) : List Char :=
  file.document.text span

/-- The text of a span as a string. -/
def string (file : File) (span : Span) : String :=
  String.ofList (file.text span)

/-- A draft of a fix for the file. -/
def draft (file : File) : FixDraft :=
  .ofLength file.length

/-- The line of an offset. -/
def line (file : File) (offset : Nat) : Nat :=
  file.lines.line offset

/-- The options object of the plain script. -/
def options? (file : File) : Option Script.Node :=
  file.component.plainScript?.bind (Options.ofBlock? file.scopes)

/-- The bindings that elements of the template declare, with their numbers. -/
def templateLocals (file : File) : List (Binding × Nat) :=
  file.scopes.bindings.toList.zipIdx.filter (·.1.kind.isTemplateLocal)

end File

/-- When a node is looked at: before the nodes under it, or after them. -/
inductive Phase where
  | enter
  | leave
  deriving DecidableEq, Repr

/-- What a rule keeps in mind from one callback to the next. -/
structure Memory where
  /-- The element that the walk is in and that is left alone with all that is in it. -/
  ignored : Option NodeId := none
  deriving DecidableEq, Repr

/-- A call of a rule: what it then keeps in mind, and what it reports. -/
structure Callback where
  run : Memory → Memory × List Report

/-- A call that only reports. -/
def Callback.reporting (reports : List Report) : Callback :=
  ⟨fun memory => (memory, reports)⟩

/-- What a rule looks at in the template, and how it is called there. -/
structure Watch where
  phase : Phase := .enter
  selector : Selector
  react : File → Selection → Callback

/-- What a rule checks: the nodes it watches, then the scripts, then what can be told at the end. -/
structure Checks where
  watches : List Watch := []
  scripts : File → Callback := fun _ => .reporting []
  closing : File → Callback := fun _ => .reporting []

/-- A rule: its description, and the checks that options ask for, unless the options cannot be used. Options may hold patterns. -/
structure Rule where
  info : RuleInfo
  checks? : PatternEngine → List Json → Option Checks

namespace Watch

/-- Watches every element. -/
def elements (report : File → NodeId → Element → List Report) : Watch where
  selector := .element {}
  react file selection :=
    match file.document.element? selection.node with
    | some element => .reporting (report file selection.node element)
    | none => .reporting []

/-- Watches the elements with a directive. -/
def elementsWith (directive : String) (report : File → NodeId → Element → List Report) : Watch :=
  { elements report with selector := .element { directive := some directive } }

/-- Watches the directives of a name. -/
def directives (pattern : DirectivePattern) (report : File → NodeId → Attribute → DirectiveKey → List Report) : Watch where
  selector := .directive pattern
  react file selection :=
    match selection.attribute? file.document with
    | some attr =>
      match attr.directive? with
      | some key => .reporting (report file selection.node attr key)
      | none => .reporting []
    | none => .reporting []

/-- Watches the interpolations. -/
def interpolations (report : File → NodeId → Interpolation → List Report) : Watch where
  selector := .interpolation
  react file selection :=
    match file.document.node? selection.node with
    | some { kind := .interpolation content, .. } => .reporting (report file selection.node content)
    | _ => .reporting []

/-- Watches the pieces of script in the template: those of elements, and those of interpolations. -/
def fragments (report : File → NodeId → List Script.Node → List Report) : List Watch :=
  let react (file : File) (selection : Selection) : Callback :=
    match file.document.node? selection.node with
    | some node => .reporting (report file selection.node node.fragments)
    | none => .reporting []
  [{ selector := .element {}, react }, { selector := .interpolation, react }]

end Watch

end ComponentLint
