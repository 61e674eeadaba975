import ComponentLint.Config.Value
import ComponentLint.Lint.Rule

/-!
# Unused variables of the template

The names that a loop or a slot declares and nothing uses. A name before a used one holds its place in the list, so
only the names after the last used one are reported.
-/

namespace ComponentLint.Rules.UnusedVariables

/-- The names that are left alone. -/
structure Settings where
  ignore : Option (String → Bool)

/-- Reads the pattern of the names that are left alone. -/
def readPattern? (value : Json) : Option (Option String) := do
  let record ← Record.ofJson? 0 1 value
  record.field? 0 "ignorePattern" (Json.nullable? Json.asString?) none

/-- The settings of the options; there are none if the engine rejects the pattern. -/
def Settings.ofOptions? (patterns : PatternEngine) (options : List Json) : Option Settings := do
  match ← Json.option? options 0 readPattern? none with
  | some pattern => (patterns.compile? pattern).map fun test => ⟨some test⟩
  | none => some ⟨none⟩

/-- The description of the rule. -/
def info : RuleInfo where
  name := "no-unused-vars"
  category := .essential
  description := "disallow unused variable definitions of v-for directives or scope attributes"
  hasSuggestions := true
  messages :=
    [("unusedVariable", "'\x7b\x7bname\x7d\x7d' is defined but never used."),
     ("replaceWithUnderscore", "Replace `\x7b\x7bname\x7d\x7d` with `_\x7b\x7bname\x7d\x7d`.")]
  schema := .tuple [.object [("ignorePattern", .text)]]

/-- Whether a name is left alone. -/
def Settings.ignores (settings : Settings) (name : String) : Bool :=
  settings.ignore.any (· name)

/-- Reports an unused name; a low line before it is suggested where that makes it a name left alone. -/
def reportUnused (settings : Settings) (file : File) (binding : Binding) : Report :=
  let data := [("name", binding.name)]
  let report := info.report "unusedVariable" binding.span data
  let marked := "_" ++ binding.name
  if settings.ignores marked then
    report.withSuggestion (info.message "replaceWithUnderscore" data) (file.draft.replace binding.span marked).build?
  else report

/-- The bindings of each element, in order of declaration. -/
def groups (file : File) : List (List (Binding × Nat)) :=
  file.templateLocals.splitBy fun a b => a.1.node == b.1.node

/-- The unused bindings at the end of a group, last first. -/
def trailingUnused (scopes : ScopeTable) (group : List (Binding × Nat)) : List Binding :=
  (group.reverse.takeWhile fun (_, id) => !scopes.isReferenced id).map (·.1)

/-- Reports the unused names of each element. -/
def check (settings : Settings) (file : File) : List Report :=
  (groups file).flatMap fun group =>
    ((trailingUnused file.scopes group).filter (!settings.ignores ·.name)).map (reportUnused settings file)

/-- The rule. -/
def rule : Rule where
  info := info
  checks? patterns options := (Settings.ofOptions? patterns options).map fun settings =>
    { closing := fun file => .reporting (check settings file) }

end ComponentLint.Rules.UnusedVariables
