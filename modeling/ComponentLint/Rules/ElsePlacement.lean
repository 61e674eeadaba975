import ComponentLint.Lint.Rule
import ComponentLint.Markup.Sibling

/-!
# Placement of `v-else`

The alternative of a conditional follows a branch with a condition, has no condition itself, and takes neither an
argument nor modifiers nor a value.
-/

namespace ComponentLint.Rules.ElsePlacement

open Markup

/-- The description of the rule. -/
def info : RuleInfo where
  name := "valid-v-else"
  category := .essential
  description := "enforce valid `v-else` directives"
  messages :=
    [("missingVIf",
      "'v-else' directives require being preceded by the element which has a 'v-if' or 'v-else-if' directive."),
     ("withVIf",
      "'v-else' and 'v-if' directives can't exist on the same element. You may want 'v-else-if' directives."),
     ("withVElseIf", "'v-else' and 'v-else-if' directives can't exist on the same element."),
     ("unexpectedArgument", "'v-else' directives require no argument."),
     ("unexpectedModifier", "'v-else' directives require no modifier."),
     ("unexpectedValue", "'v-else' directives require no attribute value.")]

/-- Whether the element before a node is a branch with a condition. -/
def followsCondition (document : Document) (id : NodeId) : Bool :=
  match ((document.previousElement? id).bind document.element?).bind (·.branch?) with
  | some .ifBranch => true
  | some .elseIfBranch => true
  | _ => false

/-- What is wrong with an alternative, by the names of the messages. -/
def faults (document : Document) (id : NodeId) (attr : Attribute) (key : DirectiveKey) : List String :=
  let has (name : String) : Bool := (document.element? id).any (·.hasDirective name)
  ([("missingVIf", !followsCondition document id), ("withVIf", has "if"), ("withVElseIf", has "else-if"),
    ("unexpectedArgument", key.argument.isSome), ("unexpectedModifier", !key.modifiers.isEmpty),
    ("unexpectedValue", attr.value.isSome)].filter (·.2)).map (·.1)

/-- Reports all that is wrong with an alternative. -/
def check (file : File) (id : NodeId) (attr : Attribute) (key : DirectiveKey) : List Report :=
  (faults file.document id attr key).map (info.report · attr.span)

/-- The rule. -/
def rule : Rule where
  info := info
  checks? _ _ := some { watches := [.directives { name := "else" } check] }

end ComponentLint.Rules.ElsePlacement
