import ComponentLint.Lint.Rule

/-!
# The `sync` modifier

A binding with the `sync` modifier is written as `v-model` with an argument.
-/

namespace ComponentLint.Rules.SyncModifier

open Markup

/-- The description of the rule. -/
def info : RuleInfo where
  name := "no-deprecated-v-bind-sync"
  category := .essential
  description := "disallow use of deprecated `.sync` modifier on `v-bind` directive (in Vue.js 3.0.0+)"
  fixable := true
  messages :=
    [("syncModifierIsDeprecated",
      "'.sync' modifier on 'v-bind' directive is deprecated. Use 'v-model:propName' instead.")]

/-- The fix, for a static argument, no other modifier and a value that can be written to. -/
def fix? (file : File) (attr : Attribute) (key : DirectiveKey) : Option Fix :=
  match key.argument with
  | some (.static argument) =>
    if key.modifiers.length == 1 && attr.expression?.any (·.isAssignable) then
      (file.draft.replace key.span ("v-model:" ++ argument.text)).build?
    else none
  | _ => none

/-- Reports a binding with the modifier. -/
def check (file : File) (_ : NodeId) (attr : Attribute) (key : DirectiveKey) : List Report :=
  [(info.report "syncModifierIsDeprecated" attr.span).withFix (fix? file attr key)]

/-- The rule. -/
def rule : Rule where
  info := info
  checks? _ _ := some { watches := [.directives { name := "bind", modifiers := ["sync"] } check] }

end ComponentLint.Rules.SyncModifier
