import ComponentLint.Lint.Rule

/-!
# Renamed lifecycle hooks

The hooks `beforeDestroy` and `destroyed` have new names.
-/

namespace ComponentLint.Rules.DestroyedHooks

open Markup

/-- A hook with a new name, and the message about it. -/
structure RenamedHook where
  oldName : String
  messageId : String
  newName : String
  deriving DecidableEq, Repr

/-- The hooks with new names. -/
def renamedHooks : List RenamedHook :=
  [⟨"beforeDestroy", "deprecatedBeforeDestroy", "beforeUnmount"⟩, ⟨"destroyed", "deprecatedDestroyed", "unmounted"⟩]

/-- The description of the rule. -/
def info : RuleInfo where
  name := "no-deprecated-destroyed-lifecycle"
  category := .essential
  description := "disallow using deprecated `destroyed` and `beforeDestroy` lifecycle hooks"
  fixable := true
  messages :=
    [("deprecatedBeforeDestroy",
      "The `beforeDestroy` lifecycle hook is deprecated. Use `beforeUnmount` instead."),
     ("deprecatedDestroyed", "The `destroyed` lifecycle hook is deprecated. Use `unmounted` instead.")]

/-- The keys of an object that are not computed. -/
def plainKeys (object : Script.Node) : List Name :=
  ((Options.properties object).filter (!·.computed)).map fun property => ⟨property.name, property.key.span⟩

/-- Reports a key that names a hook with a new name; the fix is left out where the new name is taken. -/
def checkKey (file : File) (keys : List Name) (key : Name) : List Report :=
  match renamedHooks.find? (·.oldName == key.text) with
  | none => []
  | some hook =>
    let report := info.report hook.messageId key.span
    if keys.any (·.text == hook.newName) then
      [report.withHelp ("`" ++ hook.newName ++ "` is already defined; merge the two hooks by hand.")]
    else [report.withFix (file.draft.replace key.span hook.newName).build?]

/-- Checks the keys of the options object. -/
def check (file : File) : List Report :=
  match file.options? with
  | some object => (plainKeys object).flatMap (checkKey file (plainKeys object))
  | none => []

/-- The rule. -/
def rule : Rule where
  info := info
  checks? _ _ := some { scripts := fun file => .reporting (check file) }

end ComponentLint.Rules.DestroyedHooks
