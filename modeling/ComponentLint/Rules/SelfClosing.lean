import ComponentLint.Config.Value
import ComponentLint.Lint.Rule

/-!
# Self-closing tags

Elements without content are written as one self-closing tag or as a pair of tags, as configured for their kind.
-/

namespace ComponentLint.Rules.SelfClosing

open Text Markup

/-- Whether elements without content close themselves. -/
inductive Mode where
  | always
  | never
  | either
  deriving DecidableEq, Repr

/-- The kinds of elements that are configured apart. -/
inductive ElementKind where
  | component
  | void
  | normal
  | svg
  | math
  deriving DecidableEq, Repr

namespace ElementKind

/-- The kind of an element. -/
def of (element : Element) : ElementKind :=
  if element.isComponent then .component
  else
    match element.vocabulary with
    | .html => if isVoidName element.name then .void else .normal
    | .svg => .svg
    | .math => .math

/-- The wording of a kind. -/
def wording : ElementKind → String
  | .component => "Vue.js custom components"
  | .void => "HTML void elements"
  | .normal => "HTML elements"
  | .svg => "SVG elements"
  | .math => "MathML elements"

end ElementKind

/-- The mode of each kind. -/
structure Settings where
  mode : ElementKind → Mode

/-- The spellings of the modes. -/
def modes : List (String × Mode) :=
  [("always", .always), ("never", .never), ("any", .either)]

/-- The modes of the kinds of elements in HTML. -/
structure HtmlModes where
  void : Mode
  normal : Mode
  component : Mode

/-- The modes if nothing is configured: void elements do not close themselves, all others do. -/
def HtmlModes.usual : HtmlModes :=
  ⟨.never, .always, .always⟩

/-- Reads the modes of the kinds of elements in HTML. -/
def HtmlModes.ofJson? (value : Json) : Option HtmlModes := do
  let record ← Record.ofJson? 0 3 value
  let void ← record.field? 0 "void" (Json.variant? modes) usual.void
  let normal ← record.field? 1 "normal" (Json.variant? modes) usual.normal
  let component ← record.field? 2 "component" (Json.variant? modes) usual.component
  return ⟨void, normal, component⟩

/-- The settings of the modes. -/
def Settings.ofModes (html : HtmlModes) (svg math : Mode) : Settings where
  mode
    | .component => html.component
    | .void => html.void
    | .normal => html.normal
    | .svg => svg
    | .math => math

/-- Reads the mode of each kind. -/
def Settings.ofJson? (value : Json) : Option Settings := do
  let record ← Record.ofJson? 0 3 value
  let html ← record.field? 0 "html" HtmlModes.ofJson? .usual
  let svg ← record.field? 1 "svg" (Json.variant? modes) .always
  let math ← record.field? 2 "math" (Json.variant? modes) .always
  return .ofModes html svg math

/-- The settings of the options. -/
def Settings.ofOptions? (options : List Json) : Option Settings :=
  Json.option? options 0 Settings.ofJson? (.ofModes .usual .always .always)

/-- The schema of a mode. -/
def modeSchema : Schema := .choice ["always", "never", "any"]

/-- The description of the rule. -/
def info : RuleInfo where
  name := "html-self-closing"
  category := .stronglyRecommended
  description := "enforce self-closing style"
  fixable := true
  messages :=
    [("requireSelfClosing", "Require self-closing on \x7b\x7belementType\x7d\x7d (<\x7b\x7bname\x7d\x7d>)."),
     ("disallowSelfClosing", "Disallow self-closing on \x7b\x7belementType\x7d\x7d (<\x7b\x7bname\x7d\x7d/>).")]
  schema :=
    .tuple
      [.object
        [("html", .object [("normal", modeSchema), ("void", modeSchema), ("component", modeSchema)]),
         ("svg", modeSchema), ("math", modeSchema)]]

/-- The values that the messages name. -/
def data (element : Element) : List (String × String) :=
  [("elementType", (ElementKind.of element).wording), ("name", element.rawName)]

/-- The fix that turns a pair of tags into one. -/
def closingFix (file : File) (id : NodeId) (element : Element) : Option Fix :=
  let stop := element.startTag.span.stop
  let draft := file.draft.describe "Make self-closing"
  if file.text ⟨stop - 1, stop⟩ == ['>'] then
    (draft.replace ⟨stop - 1, (file.document.spanOf id).stop⟩ "/>").build?
  else draft.build?

/-- The fix that turns a self-closing tag into a pair, or into a bare tag for a void element. -/
def openingFix (file : File) (id : NodeId) (element : Element) : Option Fix :=
  let span := file.document.spanOf id
  let mark : Span := ⟨element.startTag.span.stop - 2, element.startTag.span.stop⟩
  let draft := file.draft.describe "Add closing tag"
  if file.text mark == ['/', '>'] then
    if ElementKind.of element == .void then (draft.replace mark ">").build?
    else (draft.replace span (file.string ⟨span.start, mark.start⟩ ++ "></" ++ element.rawName ++ ">")).build?
  else draft.build?

/-- Reports an element without content that is not self-closing. -/
def requireClosing (file : File) (id : NodeId) (element : Element) : List Report :=
  match element.endTag with
  | some tag =>
    if isBlank (file.text ⟨element.startTag.span.stop, tag.start⟩) then
      [(info.report "requireSelfClosing" tag (data element)).withFix (closingFix file id element)]
    else []
  | none => []

/-- Reports what the settings ask for; blocks at the top of the file are left alone. -/
def check (settings : Settings) (file : File) (id : NodeId) (element : Element) : List Report :=
  if file.document.parent? id == some 0 then []
  else
    match settings.mode (ElementKind.of element), element.startTag.selfClosing with
    | .always, false => requireClosing file id element
    | .never, true =>
      [(info.report "disallowSelfClosing" (file.document.spanOf id) (data element)).withFix (openingFix file id element)]
    | _, _ => []

/-- The rule. -/
def rule : Rule where
  info := info
  checks? _ options := (Settings.ofOptions? options).map fun settings => { watches := [.elements (check settings)] }

end ComponentLint.Rules.SelfClosing
