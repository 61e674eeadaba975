import ComponentLint.Text.Scan
import ComponentLint.Fix.Basic

/-!
# Message templates

A template is a text with names in double braces that stand for values.
-/

namespace ComponentLint

open Text

/-- The marks around a name. -/
def openMark : List Char := ['\x7b', '\x7b']

/-- The mark that ends a name. -/
def closeMark : List Char := ['\x7d', '\x7d']

/-- The text that stands for a name in a template: its value, or the name as it is written if it has none. -/
def placeholderText (data : List (String × String)) (inner : List Char) : List Char :=
  match data.find? (·.1 == String.ofList (trim inner)) with
  | some (_, value) => value.toList
  | none => openMark ++ inner ++ closeMark

/-- A template with its names replaced, with enough `fuel` for each of them. -/
def renderWithin (data : List (String × String)) : Nat → List Char → List Char
  | 0, template => template
  | fuel + 1, template =>
    match cutAt? openMark template with
    | none => template
    | some (before, after) =>
      match cutAt? closeMark after with
      | none => template
      | some (inner, rest) => before ++ placeholderText data inner ++ renderWithin data fuel rest

/-- The message of a template. -/
def renderMessage (template : String) (data : List (String × String)) : String :=
  String.ofList (renderWithin data template.toList.length template.toList)

end ComponentLint

/-!
## Reports and diagnostics

A rule gives reports; a diagnostic is a report with the name of the rule and the level it is configured to.
-/

namespace ComponentLint

/-- How serious a diagnostic is. -/
inductive Level where
  | error
  | warning
  deriving DecidableEq, Repr

/-- A note on a related place. -/
structure Label where
  span : Span
  text : String
  deriving DecidableEq, Repr

/-- What a rule has to say about a place. -/
structure Report where
  /-- The template of the message. -/
  messageId : String
  span : Span
  message : String
  help : Option String := none
  labels : List Label := []
  fix : Option Fix := none
  suggestions : List Suggestion := []
  deriving DecidableEq, Repr

namespace Report

/-- The report with a fix, if there is one. -/
def withFix (report : Report) (fix : Option Fix) : Report :=
  { report with fix := fix }

/-- The report with one more suggestion, if there is one. -/
def withSuggestion (report : Report) (message : String) (fix : Option Fix) : Report :=
  match fix with
  | some fix => { report with suggestions := report.suggestions ++ [⟨message, fix⟩] }
  | none => report

/-- The report with one more label. -/
def withLabel (report : Report) (span : Span) (text : String) : Report :=
  { report with labels := report.labels ++ [⟨span, text⟩] }

/-- The report with advice on what to do. -/
def withHelp (report : Report) (help : String) : Report :=
  { report with help := some help }

end Report

/-- A report of a rule at a level. -/
structure Diagnostic where
  rule : String
  level : Level
  report : Report
  deriving DecidableEq, Repr

/-- Diagnostics are ordered by their spans. -/
def Diagnostic.le (a b : Diagnostic) : Bool :=
  a.report.span.le b.report.span

end ComponentLint
