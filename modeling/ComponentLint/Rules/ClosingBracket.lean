import ComponentLint.Config.Value
import ComponentLint.Lint.Rule

/-!
# Line breaks before closing brackets

The `>` or `/>` of a tag stands on a line of its own or follows what is before it, as configured for tags that take
one line and for tags that take several.
-/

namespace ComponentLint.Rules.ClosingBracket

open Text Markup

/-- Whether a line break stands before the bracket. -/
inductive LineBreak where
  | always
  | never
  deriving DecidableEq, Repr

/-- The number of line breaks asked for. -/
def LineBreak.count : LineBreak → Nat
  | .always => 1
  | .never => 0

/-- What is asked of tags; self-closing tags may differ. -/
structure Settings where
  singleline : LineBreak
  multiline : LineBreak
  selfClosingSingleline : Option LineBreak
  selfClosingMultiline : Option LineBreak

/-- The spellings of the settings. -/
def lineBreaks : List (String × LineBreak) :=
  [("always", .always), ("never", .never)]

/-- Reads what is asked of self-closing tags that take one line and of those that take several. -/
def readSelfClosing? (value : Json) : Option (Option LineBreak × Option LineBreak) := do
  let record ← Record.ofJson? 2 2 value
  let singleline ← record.field? 0 "singleline" (Json.nullable? (Json.variant? lineBreaks)) none
  let multiline ← record.field? 1 "multiline" (Json.nullable? (Json.variant? lineBreaks)) none
  return (singleline, multiline)

/-- Reads what is asked of tags. -/
def Settings.ofJson? (value : Json) : Option Settings := do
  let record ← Record.ofJson? 0 3 value
  let singleline ← record.field? 0 "singleline" (Json.variant? lineBreaks) .never
  let multiline ← record.field? 1 "multiline" (Json.variant? lineBreaks) .always
  let selfClosing ← record.field? 2 "selfClosingTag" readSelfClosing? (none, none)
  return ⟨singleline, multiline, selfClosing.1, selfClosing.2⟩

/-- The settings of the options. -/
def Settings.ofOptions? (options : List Json) : Option Settings :=
  Json.option? options 0 Settings.ofJson? ⟨.never, .always, none, none⟩

/-- What is asked of a tag. -/
def Settings.expected (settings : Settings) (multiline selfClosing : Bool) : LineBreak :=
  match multiline, selfClosing with
  | false, true => settings.selfClosingSingleline.getD settings.singleline
  | true, true => settings.selfClosingMultiline.getD settings.multiline
  | false, false => settings.singleline
  | true, false => settings.multiline

/-- The schema of a setting. -/
def lineBreakSchema : Schema := .choice ["always", "never"]

/-- The description of the rule. -/
def info : RuleInfo where
  name := "html-closing-bracket-newline"
  category := .stronglyRecommended
  description := "require or disallow a line break before tag's closing brackets"
  fixable := true
  messages :=
    [("expectedBeforeClosingBracket",
      "Expected \x7b\x7bexpected\x7d\x7d before closing bracket, but \x7b\x7bactual\x7d\x7d found.")]
  schema :=
    .tuple
      [.object
        [("singleline", lineBreakSchema), ("multiline", lineBreakSchema),
         ("selfClosingTag", .object [("singleline", lineBreakSchema), ("multiline", lineBreakSchema)])]]

/-- The bracket that closes a tag, if the tag is closed. -/
def bracket? (document : Document) (tag : Span) : Option Token :=
  match (document.tokensIn tag).getLast? with
  | some token => if token.kind == .tagClose || token.kind == .tagSelfClose then some token else none
  | none => none

/-- Reports a tag whose closing bracket does not stand where it should. -/
def checkTag (settings : Settings) (file : File) (tag : Span) : List Report :=
  match bracket? file.document tag with
  | none => []
  | some close =>
    match file.document.lastTokenBefore? close.span.start with
    | none => []
    | some previous =>
      let line := file.line previous.span.stop
      let expected := (settings.expected (file.line tag.start != line) (close.kind == .tagSelfClose)).count
      let actual := file.line close.span.start - line
      if actual == expected then []
      else
        let fix := (file.draft.replaceBetween previous.span.stop close.span.start
          (String.ofList (List.replicate expected '\n'))).build?
        [(info.report "expectedBeforeClosingBracket" ⟨previous.span.stop, close.span.stop⟩
          [("expected", lineBreakPhrase expected), ("actual", lineBreakPhrase actual)]).withFix fix]

/-- Checks the tags of an element. -/
def check (settings : Settings) (file : File) (_ : NodeId) (element : Element) : List Report :=
  (element.startTag.span :: element.endTag.toList).flatMap (checkTag settings file)

/-- The rule. -/
def rule : Rule where
  info := info
  checks? _ options := (Settings.ofOptions? options).map fun settings => { watches := [.elements (check settings)] }

end ComponentLint.Rules.ClosingBracket
