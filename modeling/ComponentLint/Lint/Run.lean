import ComponentLint.Config.Basic
import ComponentLint.Regex.Parser
import ComponentLint.Script.Parser

/-!
# Running rules

The template is walked once; each node is shown to every rule on the way down and again on the way up. The scripts
follow, rule by rule. All rules report into one list, and what a call has added to it is put under the name of the rule
that was called. What is found is put in the order of its place.
-/

namespace ComponentLint

open Text Markup

/-- The visits of a walk under a node, at most `fuel` levels deep: a node is entered, the nodes under it are visited,
and it is left. -/
def Markup.Document.visitsWithin (document : Document) : Nat → NodeId → List (NodeId × Phase)
  | 0, _ => []
  | fuel + 1, id =>
    (id, .enter) :: (document.children id).flatMap (document.visitsWithin fuel) ++ [(id, .leave)]

/-- The visits of a walk that starts at a node. -/
def Markup.Document.visits (document : Document) (id : NodeId) : List (NodeId × Phase) :=
  document.visitsWithin document.size id

namespace ActiveRule

/-- A report as it is noted first. -/
def note (rule : ActiveRule) (report : Report) : Diagnostic :=
  ⟨rule.info.name, .warning, report⟩

/-- A diagnostic under the name of the rule and at its level. -/
def stamp (rule : ActiveRule) (diagnostic : Diagnostic) : Diagnostic :=
  { diagnostic with rule := rule.info.name, level := rule.level }

/-- Puts the diagnostics from an index on under the name of the rule and at its level. -/
def stampFrom (rule : ActiveRule) (first : Nat) (diagnostics : Array Diagnostic) : Array Diagnostic :=
  (List.range' first (diagnostics.size - first)).foldl (fun noted index => noted.modify index rule.stamp) diagnostics

/-- The calls that a visit asks for: one for each selection of a watch of its phase. -/
def callsAt (file : File) (visit : NodeId × Phase) (rule : ActiveRule) : List Callback :=
  rule.checks.watches.flatMap fun watch =>
    if watch.phase = visit.2 then (watch.selector.select file.document visit.1).map (watch.react file) else []

/-- The calls after the walk. -/
def lastCalls (file : File) (rule : ActiveRule) : List Callback :=
  [rule.checks.scripts file, rule.checks.closing file]

end ActiveRule

/-- A rule in the course of a run, with what it keeps in mind. -/
structure RunningRule where
  rule : ActiveRule
  memory : Memory

/-- A run under way: the rules, and what they have reported so far. -/
structure LintRun where
  rules : List RunningRule
  diagnostics : Array Diagnostic

namespace RunningRule

/-- Calls a rule: what it reports is noted at the end of the list, and stamped from there on. -/
def dispatch (state : RunningRule × Array Diagnostic) (callback : Callback) : RunningRule × Array Diagnostic :=
  let (running, diagnostics) := state
  let (memory, reports) := callback.run running.memory
  let noted := diagnostics ++ (reports.map running.rule.note).toArray
  ({ running with memory }, running.rule.stampFrom diagnostics.size noted)

/-- Calls rules one after the other, each as often as it is asked for. -/
def callEach (calls : ActiveRule → List Callback) :
    List RunningRule → Array Diagnostic → List RunningRule × Array Diagnostic
  | [], diagnostics => ([], diagnostics)
  | running :: rest, diagnostics =>
    let (running, diagnostics) := (calls running.rule).foldl dispatch (running, diagnostics)
    let (rest, diagnostics) := callEach calls rest diagnostics
    (running :: rest, diagnostics)

end RunningRule

namespace LintRun

/-- A run before its first call. -/
def start (rules : List ActiveRule) : LintRun :=
  ⟨rules.map (⟨·, {}⟩), #[]⟩

/-- Calls every rule. -/
def call (calls : ActiveRule → List Callback) (run : LintRun) : LintRun :=
  let (rules, diagnostics) := RunningRule.callEach calls run.rules run.diagnostics
  ⟨rules, diagnostics⟩

end LintRun

/-- What is found in a component: the diagnostics in the order of their spans, and the problems of its text. -/
structure LintResult where
  diagnostics : List Diagnostic
  problems : List Problem

namespace LintResult

/-- The number of diagnostics of a level. -/
def count (result : LintResult) (level : Level) : Nat :=
  (result.diagnostics.filter (·.level = level)).length

/-- Whether there are diagnostics of a level. -/
def has (result : LintResult) (level : Level) : Bool :=
  result.diagnostics.any (·.level = level)

/-- The fixes of the diagnostics that have one. -/
def fixes (result : LintResult) : List Fix :=
  result.diagnostics.filterMap (·.report.fix)

/-- The first suggestion of the first diagnostic that has one. -/
def suggestion? (result : LintResult) : Option Suggestion :=
  result.diagnostics.findSome? (·.report.suggestions.head?)

end LintResult

/-- The visits of the template of a file. -/
def File.visits (file : File) : List (NodeId × Phase) :=
  match file.component.template with
  | some template => file.document.visits template
  | none => []

/-- The run of rules over a file: the walk of its template, and what follows it. -/
def runOver (file : File) (rules : List ActiveRule) : LintRun :=
  (file.visits.foldl (fun run visit => run.call (·.callsAt file visit)) (LintRun.start rules)).call (·.lastCalls file)

/-- Runs rules on a file. -/
def lintFile (rules : List ActiveRule) (file : File) : LintResult :=
  ⟨(runOver file rules).diagnostics.toList.mergeSort Diagnostic.le, file.component.problems⟩

/-- What the linter takes from outside: a parser of scripts for each dialect, and an engine for patterns. -/
structure Libraries where
  languages : Script.Languages
  patterns : PatternEngine

/-- The grammar and the engine of this library. -/
def Libraries.standard : Libraries :=
  ⟨Script.Dialect.language, Regex.engine⟩

/-- Runs rules on a source text. -/
def lintWith (languages : Script.Languages) (rules : List ActiveRule) (source : List Char) : LintResult :=
  lintFile rules (.ofSource languages source)

/-- Runs the rules of a configuration on a source text. -/
def Config.lint (libraries : Libraries) (config : Config) (source : List Char) : Except ConfigError LintResult :=
  (config.activeRules libraries.patterns).map (lintWith libraries.languages · source)

/-- Runs the standard rules on a source text. -/
def lint (libraries : Libraries) (source : List Char) : LintResult :=
  match Config.standard.activeRules libraries.patterns with
  | .ok rules => lintWith libraries.languages rules source
  | .error _ => lintWith libraries.languages [] source

end ComponentLint
