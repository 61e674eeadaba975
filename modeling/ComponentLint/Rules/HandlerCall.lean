import ComponentLint.Config.Value
import ComponentLint.Lint.Rule

/-!
# Calls in handlers

A handler that only calls a method without arguments names the method, with parentheses or without.
-/

namespace ComponentLint.Rules.HandlerCall

open Text Markup

/-- Whether the method is written with parentheses. -/
inductive Style where
  | always
  | never
  deriving DecidableEq, Repr

/-- The style, and whether a call that holds a comment is left alone. -/
structure Settings where
  style : Style
  ignoreIncludesComment : Bool

/-- Reads whether a call that holds a comment is left alone. -/
def readIgnoreComment? (value : Json) : Option Bool := do
  let record ← Record.ofJson? 0 1 value
  record.field? 0 "ignoreIncludesComment" Json.asBool? false

/-- The settings of the options. -/
def Settings.ofOptions? (options : List Json) : Option Settings := do
  let style ← Json.option? options 0 (Json.variant? [("always", .always), ("never", .never)]) .never
  let ignoreIncludesComment ← Json.option? options 1 readIgnoreComment? false
  return ⟨style, ignoreIncludesComment⟩

/-- The description of the rule. -/
def info : RuleInfo where
  name := "v-on-function-call"
  category := .uncategorized
  description := "enforce or forbid parentheses after method calls without arguments in `v-on` directives"
  fixable := true
  messages :=
    [("always", "Method calls inside of 'v-on' directives must have parentheses."),
     ("never", "Method calls without arguments inside of 'v-on' directives must not have parentheses.")]
  schema := .tuple [.choice ["always", "never"], .object [("ignoreIncludesComment", .boolean)]]

/-- The one expression that a handler consists of, and where its statement ends. -/
def singleExpression? : DirectiveValue → Option (Script.Node × Nat)
  | .expression node => some (node, node.span.stop)
  | .handler statements =>
    match statements.filter (·.kind != .empty) with
    | [⟨.expressionStatement, span, [node]⟩] => some (node, span.stop)
    | _ => none
  | _ => none

/-- Whether an expression is a variable or a path of members from one. -/
def isMethodPath : Script.Node → Bool
  | ⟨.identifier _, _, _⟩ => true
  | ⟨.member _ _ false, _, [object]⟩ => isMethodPath object
  | _ => false

/-- Whether a callee is a name that an element of the template declares. -/
def isTemplateLocal (scopes : ScopeTable) : Script.Node → Bool
  | ⟨.identifier _, span, _⟩ => ((scopes.resolvedAt? span).bind scopes.binding?).any (·.kind.isTemplateLocal)
  | _ => false

/-- The callee of a call without arguments. -/
def bareCallee? : Script.Node → Option Script.Node
  | ⟨.call false false, _, [callee]⟩ => some callee
  | _ => none

/-- Reports a call without arguments. The fix removes all from the callee to the end of the statement, unless that holds
a comment. -/
def checkCall (settings : Settings) (file : File) (call : Script.Node) (stop : Nat) : List Report :=
  match bareCallee? call with
  | none => []
  | some callee =>
    let rest : Span := ⟨callee.span.stop, stop⟩
    let text := file.text rest
    let commented := occurs ['/', '*'] text || occurs ['/', '/'] text
    if !isMethodPath callee || isTemplateLocal file.scopes callee || (commented && settings.ignoreIncludesComment) then []
    else
      let fix := if commented then none else (file.draft.remove rest).build?
      [(info.report "never" call.span).withFix fix]

/-- Checks the value of a handler with an argument. -/
def check (settings : Settings) (file : File) (_ : NodeId) (attr : Attribute) (key : DirectiveKey) : List Report :=
  match key.argument, attr.meaning? with
  | some _, some value =>
    match settings.style with
    | .always =>
      match value with
      | .expression ⟨.identifier _, span, _⟩ => [info.report "always" span]
      | _ => []
    | .never =>
      match singleExpression? value with
      | some (node, stop) => checkCall settings file node.unparenthesized stop
      | none => []
  | _, _ => []

/-- The rule. -/
def rule : Rule where
  info := info
  checks? _ options := (Settings.ofOptions? options).map fun settings =>
    { watches := [.directives { name := "on" } (check settings)] }

end ComponentLint.Rules.HandlerCall
