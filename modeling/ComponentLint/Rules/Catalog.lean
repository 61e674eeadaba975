import ComponentLint.Rules.ClosingBracket
import ComponentLint.Rules.ContentBreaks
import ComponentLint.Rules.DeadBranch
import ComponentLint.Rules.DestroyedHooks
import ComponentLint.Rules.DirectiveStyle
import ComponentLint.Rules.DuplicateAttributes
import ComponentLint.Rules.ElsePlacement
import ComponentLint.Rules.EventCasing
import ComponentLint.Rules.HandlerCall
import ComponentLint.Rules.KeyCodes
import ComponentLint.Rules.LoopCondition
import ComponentLint.Rules.LoopKey
import ComponentLint.Rules.MustacheSpacing
import ComponentLint.Rules.NegatedCondition
import ComponentLint.Rules.PropsReactivity
import ComponentLint.Rules.RefOperand
import ComponentLint.Rules.SelfClosing
import ComponentLint.Rules.SyncModifier
import ComponentLint.Rules.TemplateShadow
import ComponentLint.Rules.ThisUsage
import ComponentLint.Rules.UnusedVariables

/-!
# The catalog of rules

Every rule, in the order of their names. A rule is found by its name with or without the namespace.
-/

namespace ComponentLint.Rule

/-- Every rule, in the order of their names. -/
def all : List Rule :=
  [Rules.EventCasing.rule,
   Rules.ClosingBracket.rule,
   Rules.SelfClosing.rule,
   Rules.MustacheSpacing.rule,
   Rules.DestroyedHooks.rule,
   Rules.SyncModifier.rule,
   Rules.KeyCodes.rule,
   Rules.DeadBranch.rule,
   Rules.DuplicateAttributes.rule,
   Rules.NegatedCondition.rule,
   Rules.RefOperand.rule,
   Rules.PropsReactivity.rule,
   Rules.TemplateShadow.rule,
   Rules.UnusedVariables.rule,
   Rules.LoopCondition.rule,
   Rules.LoopKey.rule,
   Rules.ContentBreaks.rule,
   Rules.ThisUsage.rule,
   Rules.BindStyle.rule,
   Rules.HandlerCall.rule,
   Rules.OnStyle.rule,
   Rules.ElsePlacement.rule]

/-- A rule name without the namespace. -/
def bareName (name : String) : String :=
  match Text.afterMark? namespaceMark.toList name.toList with
  | some rest => String.ofList rest
  | none => name

/-- The rule of a name. -/
def find? (name : String) : Option Rule :=
  all.find? (·.info.name == bareName name)

/-- The rules of a category. -/
def ofCategory (category : Category) : List Rule :=
  all.filter (·.info.category = category)

end ComponentLint.Rule
