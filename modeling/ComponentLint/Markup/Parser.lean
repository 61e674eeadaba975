import ComponentLint.Markup.Piece

/-!
# Building the tree

The tree is built piece by piece with a stack of open elements. Building never fails: an end tag that matches nothing
is dropped, and an element that is not closed ends where its parent does.
-/

namespace ComponentLint.Markup

open Text

/-- The tree under construction. -/
structure Builder where
  nodes : Array Node
  tokens : Array Token
  /-- The open nodes, innermost first; the last is the root. -/
  stack : List NodeId
  problems : Array Problem

namespace Builder

/-- The tree of a file of a length before its first piece. -/
def start (length : Nat) : Builder :=
  ⟨#[⟨0, none, #[], ⟨0, length⟩, .root⟩], #[], [0], #[]⟩

/-- The innermost open node. -/
def current (builder : Builder) : NodeId :=
  builder.stack.headD 0

/-- The element of a node. -/
def element? (builder : Builder) (id : NodeId) : Option Element :=
  match builder.nodes[id]? with
  | some { kind := .element element, .. } => some element
  | _ => none

/-- Adds a node under the innermost open one, which takes it as its last child. -/
def push (builder : Builder) (span : Span) (kind : NodeKind) : Builder :=
  let id := builder.nodes.size
  { builder with
    nodes := (builder.nodes.push ⟨id, some builder.current, #[], span, kind⟩).modify builder.current (·.adopt id) }

/-- Adds the tokens and problems of a piece. -/
def record (builder : Builder) (fileStop : Nat) (piece : Piece) : Builder :=
  { builder with
    tokens := builder.tokens ++ piece.tokens.toArray, problems := builder.problems ++ (piece.problems fileStop).toArray }

/-- The open top-level element. -/
def topLevel? (builder : Builder) : Option Element :=
  match builder.stack.reverse with
  | _ :: id :: _ => builder.element? id
  | _ => none

/-- What reading the next piece depends on: double braces hold expressions inside the top-level template only. -/
def surroundings (builder : Builder) (language : Script.Language) : Surroundings :=
  ⟨language, builder.current == 0, ((builder.topLevel?).map (·.name == "template")).getD false⟩

/-- The vocabulary of an element of a name under the innermost open node. -/
def vocabularyFor (builder : Builder) (rawName : List Char) : Vocabulary :=
  if eqIgnoreAsciiCase rawName "svg".toList then .svg
  else if eqIgnoreAsciiCase rawName "math".toList then .math
  else
    match builder.element? builder.current with
    | some element => if element.rawName != "foreignObject" then element.vocabulary else .html
    | none => .html

/-- The element of a start tag. -/
def elementOf (builder : Builder) (tag : ReadTag) : Element :=
  let vocabulary := builder.vocabularyFor tag.rawName
  let rawName := String.ofList tag.rawName
  let name := if vocabulary == .html then String.ofList (tag.rawName.map asciiLower) else rawName
  ⟨name, rawName, vocabulary, ⟨⟨tag.start, tag.stop⟩, tag.attributes.map (·.attr), tag.ending == .selfClosing⟩, none⟩

end Builder

namespace Element

/-- Whether an element never has content. -/
def isVoid (element : Element) : Bool :=
  element.vocabulary == .html && isVoidName element.name

/-- Whether the content of an element is not read as markup: scripts and styles, and every top-level block but a
template in HTML. -/
def isRaw (element : Element) (topLevel : Bool) : Bool :=
  ["script", "style"].contains element.name ||
    (topLevel &&
      (element.name != "template" ||
        (((element.attribute? "lang").bind (·.value)).map (·.raw != "html")).getD false))

end Element

namespace Builder

/-- Closes an open node at an offset. -/
def closeAt (offset : Nat) (builder : Builder) (id : NodeId) : Builder :=
  { builder with nodes := builder.nodes.modify id fun node => { node with span := ⟨node.span.start, offset⟩ } }

/-- Gives an element its end tag and closes it there. -/
def closeWith (tag : Span) (builder : Builder) (id : NodeId) : Builder :=
  { builder with
    nodes := builder.nodes.modify id fun node =>
      match node.kind with
      | .element element =>
        { node with span := ⟨node.span.start, tag.stop⟩, kind := .element { element with endTag := some tag } }
      | _ => { node with span := ⟨node.span.start, tag.stop⟩ } }

/-- Whether an end tag of a name closes a node. -/
def closes (builder : Builder) (name : List Char) (id : NodeId) : Bool :=
  match builder.element? id with
  | some element => eqIgnoreAsciiCase element.rawName.toList name
  | none => false

/-- Closes the innermost element of a name, and the elements inside it where the end tag starts. -/
def endElement (builder : Builder) (name : List Char) (span : Span) : Builder :=
  let inner := builder.stack.takeWhile fun id => !builder.closes name id
  match builder.stack.dropWhile fun id => !builder.closes name id with
  | matched :: outer =>
    let closed := inner.foldl (closeAt span.start) builder
    { closeWith span closed matched with stack := outer }
  | [] =>
    { builder with problems := builder.problems.push ⟨.unexpectedEndTag (String.ofList name), span⟩ }

/-- Adds the element of a start tag, which stays open unless it has no content. -/
def startElement (builder : Builder) (element : Element) : Builder :=
  let id := builder.nodes.size
  let added := builder.push element.startTag.span (.element element)
  if element.startTag.selfClosing || element.isVoid then added else { added with stack := id :: added.stack }

/-- What a piece does to the tree. -/
def apply (builder : Builder) : Piece → Builder
  | .comment span _ => builder.push span .comment
  | .text start chars => builder.push ⟨start, start + byteLength chars⟩ .text
  | .interpolation content _ => builder.push ⟨content.opening.start, content.closing.stop⟩ (.interpolation content)
  | .endTag name span _ => builder.endElement name span
  | .startTag tag => builder.startElement (builder.elementOf tag)
  | .raw span => if span.start < span.stop then builder.push span .text else builder

/-- Adds a piece: its tokens and problems, and what it does to the tree. -/
def add (builder : Builder) (fileStop : Nat) (piece : Piece) : Builder :=
  (builder.record fileStop piece).apply piece

/-- The raw content that follows a start tag, if the element has such content. -/
def rawName? (builder : Builder) : Piece → Option (List Char)
  | .startTag tag =>
    let element := builder.elementOf tag
    if !(element.startTag.selfClosing || element.isVoid) && element.isRaw (builder.current == 0) then some tag.rawName
    else none
  | _ => none

/-- Reads the next piece, with the raw content after it, and adds it. -/
def advance (language : Script.Language) (fileStop : Nat) (builder : Builder) (stream : Stream) : Builder × Stream :=
  let (piece, stream) := readPiece (builder.surroundings language) stream
  let added := builder.add fileStop piece
  match builder.rawName? piece with
  | some name =>
    let (raw, stream) := readRaw name stream
    (added.add fileStop raw, stream)
  | none => (added, stream)

/-- Reads pieces to the end of the file, and tells what is left of it; each piece takes at least one character, so the
length of the file is fuel enough. -/
def run (language : Script.Language) (fileStop : Nat) : Nat → Builder → Stream → Builder × Stream
  | 0, builder, stream => (builder, stream)
  | fuel + 1, builder, stream =>
    if stream.chars.isEmpty then (builder, stream)
    else
      let (builder, stream) := advance language fileStop builder stream
      run language fileStop fuel builder stream

/-- Closes what is still open at the end of the file. -/
def finish (fileStop : Nat) (builder : Builder) : Builder :=
  builder.stack.dropLast.foldl (closeAt fileStop) builder

end Builder

/-- Reads a file as markup: its tree, and the problems found. -/
def parse (language : Script.Language) (source : List Char) : Document × List Problem :=
  let fileStop := byteLength source
  let built := (Builder.run language fileStop source.length (.start fileStop) ⟨0, source⟩).1.finish fileStop
  (⟨source, built.nodes, built.tokens⟩, built.problems.toList)

end ComponentLint.Markup
