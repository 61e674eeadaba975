import ComponentLint.Lint.Rule
import ComponentLint.Script.Node

/-!
# References used as operands

A variable that holds a reference object is read and written through its `value`. Using the object itself as an
operand, a condition or a callee is a mistake in scripts; templates unwrap it.
-/

namespace ComponentLint.Rules.RefOperand

/-- The functions that give a reference object. -/
def refFunctions : List String :=
  ["ref", "shallowRef", "computed", "customRef", "toRef", "defineModel"]

/-- The description of the rule. -/
def info : RuleInfo where
  name := "no-ref-as-operand"
  category := .essential
  description := "disallow use of value wrapped by `ref()` (Composition API) as an operand"
  fixable := true
  hasSuggestions := true
  messages :=
    [("requireDotValue", "Must use `.value` to read or write the value wrapped by `\x7b\x7bmethod\x7d\x7d()`."),
     ("wrapWithUnref", "Wrap `\x7b\x7bname\x7d\x7d` with `unref()`.")]

/-- A variable that holds a reference object, and the function that gave it. -/
structure RefVariable where
  declared : Span
  function : String
  deriving DecidableEq, Repr

/-- The function among the given ones that an expression calls, inside parentheses, `as` and `!`. -/
def calledFunction? (scopes : ScopeTable) (names : List String) : Script.Node → Option String
  | ⟨.paren, _, [inner]⟩ => calledFunction? scopes names inner
  | ⟨.typed .asType, _, [inner]⟩ => calledFunction? scopes names inner
  | ⟨.typed .nonNull, _, [inner]⟩ => calledFunction? scopes names inner
  | node => scopes.calledApi? node names

/-- The name that a property of a pattern declares without a default. -/
def declaredBy? : Script.Node → Option Span
  | ⟨.patternProperty _, _, [_, ⟨.binding _, span, _⟩]⟩ => some span
  | _ => none

/-- The variables that a declarator declares to hold reference objects. -/
def refVariables (scopes : ScopeTable) : Script.Node → List RefVariable
  | ⟨.declarator, _, [⟨.binding _, span, _⟩, value]⟩ =>
    ((calledFunction? scopes refFunctions value).map (⟨span, ·⟩)).toList
  | ⟨.declarator, _, [⟨.objectPattern, _, properties⟩, value]⟩ =>
    match calledFunction? scopes ["toRefs"] value with
    | some function => (properties.filterMap declaredBy?).map (⟨·, function⟩)
    | none => []
  | _ => []

/-- Reports a use of a reference object; `reassigned` when the variable may hold something else by then. -/
def reportUse (file : File) (holder : RefVariable) (reassigned : Bool) (reference : Reference) : Report :=
  let report := info.report "requireDotValue" reference.span [("method", holder.function)]
  if reassigned then
    report.withSuggestion (info.message "wrapWithUnref" [("name", reference.name)])
      (file.draft.replace reference.span ("unref(" ++ reference.name ++ ")")).build?
  else report.withFix (file.draft.insertAfter reference.span ".value").build?

/-- Whether a reference uses the object itself in a script. -/
def isMisused (reference : Reference) : Bool :=
  !reference.inTemplate && (reference.use.usage == .operand || reference.use.usage == .call)

/-- Reports the uses of a variable that holds a reference object. -/
def checkVariable (file : File) (holder : RefVariable) : List Report :=
  match file.scopes.bindingAt? holder.declared with
  | some binding =>
    let references := file.scopes.referencesTo binding
    let reassigned := references.any (·.use.usage == .write)
    (references.filter isMisused).map (reportUse file holder reassigned)
  | none => []

/-- Checks the scripts. -/
def check (file : File) : List Report :=
  (Script.Node.gatherEverywhere (refVariables file.scopes) (file.component.scripts.flatMap (·.statements))).flatMap
    (checkVariable file)

/-- The rule. -/
def rule : Rule where
  info := info
  checks? _ _ := some { scripts := fun file => .reporting (check file) }

end ComponentLint.Rules.RefOperand
