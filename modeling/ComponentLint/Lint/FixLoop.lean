import ComponentLint.Fix.Apply
import ComponentLint.Lint.Run

/-!
# Fixing until nothing changes

A fix may make room for another one, so passes are made until one changes nothing. A text with problems is left as
it is.
-/

namespace ComponentLint

/-- A text after passes of fixes. -/
structure FixOutcome where
  output : List Char
  /-- The passes that changed the text. -/
  passes : Nat
  /-- The fixes made in all passes. -/
  fixed : Nat
  /-- What is found in the output. -/
  result : LintResult

/-- The most passes that are made. -/
def passLimit : Nat := 10

/-- Makes passes of fixes, at most `limit` of them. -/
def fixWithin (languages : Script.Languages) (rules : List ActiveRule) : Nat → List Char → FixOutcome
  | 0, source => ⟨source, 0, 0, lintWith languages rules source⟩
  | limit + 1, source =>
    let result := lintWith languages rules source
    if !result.problems.isEmpty then ⟨source, 0, 0, result⟩
    else
      let pass := Fix.applyAll source result.fixes
      if pass.changed then
        let rest := fixWithin languages rules limit pass.output
        { rest with passes := rest.passes + 1, fixed := rest.fixed + pass.applied }
      else ⟨source, 0, 0, result⟩

/-- Fixes a source text until a pass changes nothing or the passes are used up. -/
def Config.fix (libraries : Libraries) (config : Config) (source : List Char) : Except ConfigError FixOutcome :=
  (config.activeRules libraries.patterns).map (fixWithin libraries.languages · passLimit source)

end ComponentLint
