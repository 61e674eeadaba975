import ComponentLint.Config.Value
import ComponentLint.Lint.Rule

/-!
# Conditions on loops

An element does not carry a loop and a condition at once. A condition on the loop variable belongs into the data, any
other condition around the loop.
-/

namespace ComponentLint.Rules.LoopCondition

open Markup

/-- The description of the rule. -/
def info : RuleInfo where
  name := "no-use-v-if-with-v-for"
  category := .essential
  description := "disallow using `v-if` on the same element as `v-for`"
  messages :=
    [("movedToComputed",
      "The '\x7b\x7biteratorName\x7d\x7d' \x7b\x7bkind\x7d\x7d inside 'v-for' directive should " ++
        "be replaced with a computed property that returns filtered array instead. " ++
        "You should not mix 'v-for' with 'v-if'."),
     ("movedToWrapper", "This 'v-if' should be moved to the wrapper element.")]
  schema := .tuple [.object [("allowUsingIterationVar", .boolean)]]

/-- Whether a reference in a span stands for a variable of the loop on an element. -/
def usesAlias (scopes : ScopeTable) (span : Span) (id : NodeId) : Bool :=
  scopes.references.any fun reference =>
    span.start ≤ reference.span.start && reference.span.stop ≤ span.stop &&
      (reference.resolved.bind scopes.binding?).any fun binding =>
        binding.kind == .loopAlias && binding.node == some id

/-- How the source of a loop is named in the message, and what it is called. -/
def sourceName (file : File) (source : Script.Node) : String × String :=
  match source.unparenthesized with
  | ⟨.identifier name, _, _⟩ => (name, "variable")
  | other => (file.string other.span, "expression")

/-- Reports a condition on an element with a loop. -/
def check (allowAlias : Bool) (file : File) (id : NodeId) (element : Element) : List Report :=
  match element.directive? "if" with
  | none => []
  | some condition =>
    match condition.expression? with
    | none => []
    | some test =>
      if !usesAlias file.scopes test.span id then [info.report "movedToWrapper" condition.span]
      else if allowAlias then []
      else
        match (element.directive? "for").bind (·.meaning?) with
        | some (.loop _ source _) =>
          let (name, kind) := sourceName file source
          [info.report "movedToComputed" condition.span [("iteratorName", name), ("kind", kind)]]
        | _ => []

/-- Reads whether a condition on the loop variable is allowed. -/
def readAllowAlias? (value : Json) : Option Bool := do
  let record ← Record.ofJson? 0 1 value
  record.field? 0 "allowUsingIterationVar" Json.asBool? false

/-- The rule. -/
def rule : Rule where
  info := info
  checks? _ options := (Json.option? options 0 readAllowAlias? false).map fun allowAlias =>
    { watches := [.elementsWith "for" (check allowAlias)] }

end ComponentLint.Rules.LoopCondition
