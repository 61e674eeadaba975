import ComponentLint.Markup.Parser

/-!
# Components

A component is a file of blocks: a template, scripts and styles. Expressions in the template are written in the
language of the scripts. A script with errors keeps its program, as far as it was understood.
-/

namespace ComponentLint

open Text Markup

/-- A script block with its program. -/
structure ScriptBlock where
  element : NodeId
  setup : Bool
  lang : Option String
  /-- The bytes between the tags. -/
  content : Span
  program : Script.Program
  /-- The parser gave up; the program is partial. -/
  panicked : Bool

/-- A parsed component. -/
structure Component where
  document : Document
  /-- The first template block. -/
  template : Option NodeId
  scripts : List ScriptBlock
  styles : List NodeId
  problems : List Problem

namespace ScriptBlock

/-- Whether the block is written in the typed dialect. -/
def isTyped (block : ScriptBlock) : Bool :=
  block.lang == some "ts" || block.lang == some "tsx"

/-- The statements of the block. -/
def statements (block : ScriptBlock) : List Script.Node :=
  block.program.statements

/-- The dialect that a `lang` attribute chooses. -/
def dialectOf : Option String → Script.Dialect
  | some "ts" => ⟨true, false⟩
  | some "tsx" => ⟨true, true⟩
  | some "jsx" => ⟨false, true⟩
  | _ => ⟨false, false⟩

end ScriptBlock

namespace Component

/-- The spellings of a typed `lang` attribute. -/
def typedMarks : List String :=
  ["lang=\"ts\"", "lang='ts'", "lang=\"tsx\"", "lang='tsx'"]

/-- Whether some script tag in the text asks for the typed dialect. -/
def usesTypes : List Char → Bool
  | [] => false
  | c :: rest =>
    ("<script".toList.isPrefixOf (c :: rest) &&
      typedMarks.any fun mark => occurs mark.toList ((c :: rest).takeWhile (· != '>'))) || usesTypes rest

/-- The bytes between the tags of an element; without an end tag, up to the end of the node. -/
def contentOf (document : Document) (id : NodeId) (element : Element) : Span :=
  match element.endTag with
  | some tag => ⟨element.startTag.span.stop, tag.start⟩
  | none => ⟨element.startTag.span.stop, (document.spanOf id).stop⟩

/-- The script block of an element, and the problems of its script: one for each error, at the content of the block. -/
def readScript (languages : Script.Languages) (document : Document) (id : NodeId) (element : Element) :
    ScriptBlock × List Problem :=
  let lang := ((element.attribute? "lang").bind (·.value)).map (·.raw)
  let content := contentOf document id element
  let parsed := (languages (ScriptBlock.dialectOf lang)).program (document.text content)
  (⟨id, element.hasAttribute "setup", lang, content, parsed.program.shift content.start, parsed.panicked⟩,
    parsed.errors.map fun message => ⟨.script message, content⟩)

/-- Parses a component. -/
def parse (languages : Script.Languages) (source : List Char) : Component :=
  let language := languages ⟨usesTypes source, false⟩
  let (document, problems) := Markup.parse language source
  let blocks := (document.children 0).filterMap fun id => (document.element? id).map (id, ·)
  let scripts := (blocks.filter (·.2.name == "script")).map fun (id, element) => readScript languages document id element
  { document := document
    template := (blocks.find? (·.2.name == "template")).map (·.1)
    scripts := scripts.map (·.1)
    styles := (blocks.filter (·.2.name == "style")).map (·.1)
    problems := problems ++ scripts.flatMap (·.2) }

/-- A script block is that of a top-level element named so. -/
theorem mem_scripts {languages : Script.Languages} {source : List Char} {block : ScriptBlock}
    (h : block ∈ (parse languages source).scripts) : ∃ id element,
      id ∈ (parse languages source).document.children 0 ∧
      (parse languages source).document.element? id = some element ∧ element.name = "script" ∧
      block = (readScript languages (parse languages source).document id element).1 := by
  obtain ⟨pair, hpair, rfl⟩ := List.mem_map.1 h
  obtain ⟨⟨id, element⟩, hmem, rfl⟩ := List.mem_map.1 hpair
  obtain ⟨hmem, hname⟩ := List.mem_filter.1 hmem
  obtain ⟨child, hchild, hsome⟩ := List.mem_filterMap.1 hmem
  obtain ⟨found, helement, hfound⟩ := Option.map_eq_some_iff.1 hsome
  cases hfound
  exact ⟨id, element, hchild, helement, beq_iff_eq.1 hname, rfl⟩

/-- The first setup script. -/
def setupScript? (component : Component) : Option ScriptBlock :=
  component.scripts.find? (·.setup)

/-- The first script that is not a setup script. -/
def plainScript? (component : Component) : Option ScriptBlock :=
  component.scripts.find? (!·.setup)

end Component

end ComponentLint
