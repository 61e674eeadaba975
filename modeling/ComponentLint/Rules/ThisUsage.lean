import ComponentLint.Config.Value
import ComponentLint.Lint.Rule
import ComponentLint.Script.Node

/-!
# The word `this` in templates

Expressions of a template see the members of the component without `this`. The rule asks to leave the word out, or to
write it always.
-/

namespace ComponentLint.Rules.ThisUsage

open Text Markup

/-- Whether members are written with `this`. -/
inductive Style where
  | always
  | never
  deriving DecidableEq, Repr

/-- The style of the options. -/
def Style.ofOptions? (options : List Json) : Option Style :=
  Json.option? options 0 (Json.variant? [("always", .always), ("never", .never)]) .never

/-- The names that every expression of a template sees. -/
def templateGlobals : List String :=
  ["Infinity", "undefined", "NaN", "isFinite", "isNaN", "parseFloat", "parseInt", "decodeURI", "decodeURIComponent",
   "encodeURI", "encodeURIComponent", "Math", "Number", "Date", "Array", "Object", "Boolean", "String", "RegExp", "Map",
   "Set", "JSON", "Intl", "BigInt", "console", "Error", "Symbol", "$event"]

/-- The words that are no names of variables. -/
def reservedWords : List String :=
  ["break", "case", "catch", "class", "const", "continue", "debugger", "default", "delete", "do", "else", "enum",
   "export", "extends", "false", "finally", "for", "function", "if", "import", "in", "instanceof", "new", "null",
   "return", "super", "switch", "this", "throw", "true", "try", "typeof", "var", "void", "while", "with", "yield", "let",
   "static", "implements", "interface", "package", "private", "protected", "public", "await"]

/-- The description of the rule. -/
def info : RuleInfo where
  name := "this-in-template"
  category := .recommended
  description := "disallow usage of `this` in template"
  fixable := true
  messages := [("unexpected", "Unexpected usage of 'this'."), ("expected", "Expected 'this'.")]
  schema := .tuple [.choice ["always", "never"]]

/-- A member of `this`. -/
structure ThisMember where
  /-- The bytes of the member with `this`. -/
  member : Span
  /-- The bytes of the word. -/
  word : Span
  property : String
  deriving DecidableEq, Repr

/-- The member of `this` that a node is. -/
def thisMember : Script.Node → List ThisMember
  | ⟨.member name _ _, span, [⟨.thisValue, word, _⟩]⟩ => [⟨span, word, name⟩]
  | ⟨.index _, span, [⟨.thisValue, word, _⟩, ⟨.string name, _, _⟩]⟩ => [⟨span, word, name⟩]
  | _ => []

/-- Whether `this` is the component inside a node: functions other than arrows have a `this` of their own. -/
def keepsThis (node : Script.Node) : Bool :=
  match node.kind with
  | .functionDef _ => false
  | _ => true

/-- The members of `this` in pieces of script. -/
def thisMembers (fragments : List Script.Node) : List ThisMember :=
  Script.Node.gatherAll keepsThis thisMember fragments

/-- Whether a property can be written as a variable. -/
def isPlainName (name : String) : Bool :=
  match name.toList with
  | [] => false
  | first :: rest =>
    (isAlphabetic first || first == '_' || first == '$') &&
      rest.all (fun c => isAlphanumeric c || c == '_' || c == '$') && !reservedWords.contains name

/-- Reports the members of `this` at a node, apart from those whose names mean something else there. -/
def checkNever (file : File) (id : NodeId) (fragments : List Script.Node) : List Report :=
  let scope := file.scopes.scopeOf? file.document id
  (thisMembers fragments).filterMap fun found =>
    if isPlainName found.property && !scope.any (fun scope => (file.scopes.templateLocal? scope found.property).isSome) then
      some ((info.report "unexpected" found.word).withFix (file.draft.replace found.member found.property).build?)
    else none

/-- Whether a binding is declared inside the template. -/
def isLocal (template : Span) (binding : Binding) : Bool :=
  binding.kind.isTemplateLocal || (template.start ≤ binding.span.start && binding.span.stop ≤ template.stop)

/-- Reports the names in the template that are members of the component. -/
def checkAlways (file : File) : List Report :=
  match file.component.template with
  | none => []
  | some template =>
    let span := file.document.spanOf template
    (file.scopes.references.toList.filter (·.inTemplate)).filterMap fun reference =>
      let declared := (reference.resolved.bind file.scopes.binding?).any (isLocal span)
      if templateGlobals.contains reference.name || declared then none
      else some (info.report "expected" reference.span)

/-- The rule. -/
def rule : Rule where
  info := info
  checks? _ options := (Style.ofOptions? options).map fun
    | .never => { watches := Watch.fragments checkNever }
    | .always => { closing := fun file => .reporting (checkAlways file) }

end ComponentLint.Rules.ThisUsage
