import ComponentLint.Lint.FixLoop

/-!
# Located diagnostics

Diagnostics for editors: lines and columns count from one, and fixes and suggestions are written as JSON.
-/

namespace ComponentLint

/-- An edit as JSON. -/
def Edit.toJson (edit : Edit) : Json :=
  .obj [("start", .nat edit.span.start), ("end", .nat edit.span.stop), ("replacement", .str edit.replacement)]

/-- The edits of a fix as JSON. -/
def Fix.editsJson (fix : Fix) : Json :=
  .list Edit.toJson fix.edits

/-- A suggestion as JSON. -/
def Suggestion.toJson (suggestion : Suggestion) : Json :=
  .obj
    [("message", .str suggestion.message),
     ("fix", .obj [("edits", suggestion.fix.editsJson), ("message", .optional Json.str suggestion.fix.message)])]

/-- A diagnostic with the lines and columns of its ends. -/
structure LocatedDiagnostic where
  diagnostic : Diagnostic
  start : LineColumn
  stop : LineColumn

namespace LocatedDiagnostic

/-- The position as editors count it. -/
def countedFromOne (position : LineColumn) : LineColumn :=
  ⟨position.line + 1, position.column + 1⟩

/-- Looks up the lines and columns of a diagnostic. -/
def ofDiagnostic (lines : LineIndex) (diagnostic : Diagnostic) : LocatedDiagnostic :=
  ⟨diagnostic, countedFromOne (lines.position diagnostic.report.span.start),
    countedFromOne (lines.position diagnostic.report.span.stop)⟩

/-- The name of the rule with its namespace. -/
def ruleId (located : LocatedDiagnostic) : String :=
  namespaceMark ++ located.diagnostic.rule

/-- The edits of the fix, written as JSON. -/
def fixText? (located : LocatedDiagnostic) : Option String :=
  located.diagnostic.report.fix.map (·.editsJson.compact)

/-- The suggestions, written as JSON. -/
def suggestionTexts (located : LocatedDiagnostic) : List String :=
  located.diagnostic.report.suggestions.map (·.toJson.compact)

end LocatedDiagnostic

/-- What editors are told about a component. -/
structure LintReport where
  diagnostics : List LocatedDiagnostic
  problems : List String
  /-- The text after fixing, if fixing was asked for. -/
  output : Option (List Char)

namespace LintReport

/-- The report of what is found in a text. -/
def ofResult (source : List Char) (result : LintResult) (output : Option (List Char)) : LintReport :=
  ⟨result.diagnostics.map (.ofDiagnostic (.ofText source)), result.problems.map (·.message), output⟩

end LintReport

/-- Lints a text and locates what is found. -/
def Config.lintLocated (libraries : Libraries) (config : Config) (source : List Char) : Except ConfigError LintReport :=
  (config.lint libraries source).map fun result => .ofResult source result none

/-- Fixes a text and locates what is left. -/
def Config.fixLocated (libraries : Libraries) (config : Config) (source : List Char) : Except ConfigError LintReport :=
  (config.fix libraries source).map fun outcome => .ofResult outcome.output outcome.result (some outcome.output)

end ComponentLint
