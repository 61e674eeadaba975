import ComponentLint.Config.Value
import ComponentLint.Lint.Rule
import ComponentLint.Text.Case

/-!
# Line breaks around content

The content of an element that is written on one line is set off from its tags by line breaks. Inline elements and
elements that keep white space are left alone, with all that is in them.
-/

namespace ComponentLint.Rules.ContentBreaks

open Text Markup

/-- The elements that are part of a line of text. -/
def inlineElements : List String :=
  ["a", "abbr", "audio", "b", "bdi", "bdo", "canvas", "cite", "code", "data", "del", "dfn", "em", "i", "iframe", "ins",
   "kbd", "label", "map", "mark", "noscript", "object", "output", "picture", "q", "ruby", "s", "samp", "small", "span",
   "strong", "sub", "sup", "svg", "time", "u", "var", "video"]

/-- Which elements are left alone. -/
structure Settings where
  ignoreWhenNoAttributes : Bool
  ignoreWhenEmpty : Bool
  ignores : List String

/-- The elements that are left alone if nothing else is configured. -/
def ignoredElements : List String :=
  "pre" :: "textarea" :: inlineElements

/-- Reads which elements are left alone. -/
def Settings.ofJson? (value : Json) : Option Settings := do
  let record ← Record.ofJson? 0 4 value
  let ignoreWhenNoAttributes ← record.field? 0 "ignoreWhenNoAttributes" Json.asBool? true
  let ignoreWhenEmpty ← record.field? 1 "ignoreWhenEmpty" Json.asBool? true
  let ignores ← record.field? 2 "ignores" Json.textList? ignoredElements
  let externalIgnores ← record.field? 3 "externalIgnores" Json.textList? []
  return ⟨ignoreWhenNoAttributes, ignoreWhenEmpty, ignores ++ externalIgnores⟩

/-- The settings of the options. -/
def Settings.ofOptions? (options : List Json) : Option Settings :=
  Json.option? options 0 Settings.ofJson? ⟨true, true, ignoredElements⟩

/-- The description of the rule. -/
def info : RuleInfo where
  name := "singleline-html-element-content-newline"
  category := .stronglyRecommended
  description := "require a line break before and after the contents of a singleline element"
  fixable := true
  messages :=
    [("unexpectedAfterClosingBracket",
      "Expected 1 line break after opening tag (`<\x7b\x7bname\x7d\x7d>`), but no line breaks found."),
     ("unexpectedBeforeClosingBracket",
      "Expected 1 line break before closing tag (`</\x7b\x7bname\x7d\x7d>`), but no line breaks found.")]
  schema :=
    .tuple
      [.object
        [("ignoreWhenNoAttributes", .boolean), ("ignoreWhenEmpty", .boolean), ("ignores", .texts),
         ("externalIgnores", .texts)]]

/-- Whether an element is named among those that are left alone. -/
def Settings.ignoresElement (settings : Settings) (element : Element) : Bool :=
  let pascal := String.ofList (toPascalCase element.rawName.toList)
  settings.ignores.any fun name => name == element.name || name == element.rawName || name == pascal

/-- Reports the two ends of the content that lies between two tags. -/
def checkContent (settings : Settings) (file : File) (element : Element) (content : Span) : List Report :=
  let document := file.document
  let filled := (document.tokensIn content).any (·.kind != .whitespace)
  let first := match document.firstTokenAfter? content.start with
    | some token => min token.span.start content.stop
    | none => content.stop
  let last := match document.lastTokenBefore? content.stop with
    | some token => max token.span.stop content.start
    | none => content.start
  let data := [("name", element.rawName)]
  let after := (info.report "unexpectedAfterClosingBracket" ⟨content.start, first⟩ data).withFix
    (file.draft.replaceBetween content.start first "\n").build?
  let before := (info.report "unexpectedBeforeClosingBracket" ⟨last, content.stop⟩ data).withFix
    (file.draft.replaceBetween last content.stop "\n").build?
  if settings.ignoreWhenEmpty && !filled then [] else if filled then [after, before] else [after]

/-- Checks an element that is written on one line. -/
def check (settings : Settings) (file : File) (element : Element) : List Report :=
  match element.endTag with
  | none => []
  | some tag =>
    if element.startTag.selfClosing || file.line element.startTag.span.start != file.line tag.start ||
        (settings.ignoreWhenNoAttributes && element.attributes.isEmpty) then []
    else checkContent settings file element ⟨element.startTag.span.stop, tag.start⟩

/-- What happens when an element is entered: nothing inside one that is left alone, and one that is to be left alone is
kept in mind. -/
def enter (settings : Settings) (file : File) (id : NodeId) (memory : Memory) : Memory × List Report :=
  if memory.ignored.isSome then (memory, [])
  else
    match file.document.element? id with
    | some element =>
      if settings.ignoresElement element then ({ memory with ignored := some id }, [])
      else (memory, check settings file element)
    | none => (memory, [])

/-- What happens when an element is left: the one that was left alone is forgotten. -/
def leave (id : NodeId) (memory : Memory) : Memory × List Report :=
  (if memory.ignored = some id then { memory with ignored := none } else memory, [])

/-- The rule. -/
def rule : Rule where
  info := info
  checks? _ options := (Settings.ofOptions? options).map fun settings =>
    { watches :=
        [{ selector := .element {}, react := fun file selection => ⟨enter settings file selection.node⟩ },
         { phase := .leave, selector := .element {}, react := fun _ selection => ⟨leave selection.node⟩ }] }

end ComponentLint.Rules.ContentBreaks
