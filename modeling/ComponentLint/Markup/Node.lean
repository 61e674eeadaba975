import ComponentLint.Markup.Key
import ComponentLint.Markup.Token
import ComponentLint.Markup.Fragment
import ComponentLint.Markup.Names

/-!
# The tree of a file

The nodes of a file are numbered in the order in which they start; node 0 is the file as a whole. A node knows its
number, its parent and its children.
-/

namespace ComponentLint.Markup

open Text

/-- The number of a node. -/
abbrev NodeId := Nat

/-- The value of an attribute. -/
structure AttributeValue where
  /-- With the quotes. -/
  span : Span
  /-- Between the quotes. -/
  valueSpan : Span
  raw : String
  quote : Option Char
  /-- What the value says, if the attribute is a directive. -/
  meaning : Option DirectiveValue
  deriving Repr

/-- An attribute of a start tag. -/
structure Attribute where
  span : Span
  key : Key
  value : Option AttributeValue
  deriving Repr

/-- A start tag. -/
structure StartTag where
  span : Span
  attributes : List Attribute
  selfClosing : Bool
  deriving Repr

/-- An element. -/
structure Element where
  /-- In lower case for elements of HTML, and as written otherwise. -/
  name : String
  rawName : String
  vocabulary : Vocabulary
  startTag : StartTag
  endTag : Option Span
  deriving Repr

/-- An expression between double braces. -/
structure Interpolation where
  opening : Span
  closing : Span
  expression : Option Script.Node
  deriving Repr

/-- What a node is. -/
inductive NodeKind where
  | root
  | element (element : Element)
  | text
  | interpolation (interpolation : Interpolation)
  | comment
  deriving Repr

/-- A node of the tree. -/
structure Node where
  id : NodeId
  parent : Option NodeId
  /-- In order; only the root and elements have any. -/
  children : Array NodeId
  span : Span
  kind : NodeKind
  deriving Repr

instance : Inhabited Node := ⟨⟨0, none, #[], ⟨0, 0⟩, .comment⟩⟩

/-- Whether nodes can stand under a node of a kind. -/
def NodeKind.hasContent : NodeKind → Bool
  | .root => true
  | .element _ => true
  | _ => false

/-- The node with one more child, if it can have any. -/
def Node.adopt (node : Node) (child : NodeId) : Node :=
  if node.kind.hasContent then { node with children := node.children.push child } else node

/-- The tree of a file, with the tokens it was read from. -/
structure Document where
  source : List Char
  nodes : Array Node
  tokens : Array Token

namespace Attribute

/-- The directive of an attribute. -/
def directive? (attr : Attribute) : Option DirectiveKey :=
  attr.key.directive?

/-- What the value of a directive says. -/
def meaning? (attr : Attribute) : Option DirectiveValue :=
  attr.value.bind (·.meaning)

/-- The expression that is the value of a directive. -/
def expression? (attr : Attribute) : Option Script.Node :=
  match attr.meaning? with
  | some (.expression node) => some node
  | _ => none

/-- Whether the attribute is a directive of a name. -/
def isDirective (attr : Attribute) (name : String) : Bool :=
  match attr.directive? with
  | some key => key.name.text == name
  | none => false

/-- Whether the attribute is plain and of a name. -/
def isPlain (attr : Attribute) (name : String) : Bool :=
  match attr.key with
  | .plain found => found.text == name
  | .directive _ => false

/-- Whether the attribute is a directive of a name with a static argument. -/
def isDirectiveFor (attr : Attribute) (name argument : String) : Bool :=
  match attr.directive? with
  | some key => key.name.text == name && key.argument.bind (·.staticName?) == some argument
  | none => false

end Attribute

namespace Element

/-- The attributes of an element. -/
def attributes (element : Element) : List Attribute :=
  element.startTag.attributes

/-- The first plain attribute of a name. -/
def attribute? (element : Element) (name : String) : Option Attribute :=
  element.attributes.find? (·.isPlain name)

/-- Whether the element has a plain attribute of a name. -/
def hasAttribute (element : Element) (name : String) : Bool :=
  (element.attribute? name).isSome

/-- The first directive of a name. -/
def directive? (element : Element) (name : String) : Option Attribute :=
  element.attributes.find? (·.isDirective name)

/-- Whether the element has a directive of a name. -/
def hasDirective (element : Element) (name : String) : Bool :=
  (element.directive? name).isSome

/-- The first directive of a name with a static argument. -/
def directiveFor? (element : Element) (name argument : String) : Option Attribute :=
  element.attributes.find? (·.isDirectiveFor name argument)

/-- Whether an element is a component: its name is unknown to its vocabulary, or `is` chooses what is rendered. -/
def isComponent (element : Element) : Bool :=
  !element.vocabulary.knows element.rawName || element.hasAttribute "is" || (element.directiveFor? "bind" "is").isSome

end Element

/-- The pieces of script that a value runs: an expression, the source of a loop, or the statements of a handler. -/
def DirectiveValue.fragments : DirectiveValue → List Script.Node
  | .expression node => [node]
  | .loop _ source _ => [source]
  | .handler statements => statements
  | .slotScope _ => []
  | .invalid => []

/-- The pieces of script that a node of a template runs, in source order. -/
def Node.fragments (node : Node) : List Script.Node :=
  match node.kind with
  | .element element => (element.attributes.filterMap (·.meaning?)).flatMap (·.fragments)
  | .interpolation content => content.expression.toList
  | _ => []

namespace Document

/-- The node of a number, if there is one. -/
def node? (document : Document) (id : NodeId) : Option Node :=
  document.nodes[id]?

/-- The number of nodes. -/
def size (document : Document) : Nat :=
  document.nodes.size

/-- The element of a node. -/
def element? (document : Document) (id : NodeId) : Option Element :=
  match document.node? id with
  | some { kind := .element element, .. } => some element
  | _ => none

/-- The parent of a node. -/
def parent? (document : Document) (id : NodeId) : Option NodeId :=
  (document.node? id).bind (·.parent)

/-- The bytes of a node. -/
def spanOf (document : Document) (id : NodeId) : Span :=
  ((document.node? id).map (·.span)).getD ⟨0, 0⟩

/-- The children of a node, in order. -/
def children (document : Document) (id : NodeId) : List NodeId :=
  ((document.node? id).map (·.children.toList)).getD []

/-- The nodes above a node, nearest first, at most `fuel` of them. -/
def ancestorsWithin (document : Document) : Nat → NodeId → List NodeId
  | 0, _ => []
  | fuel + 1, id =>
    match document.parent? id with
    | some parent => parent :: document.ancestorsWithin fuel parent
    | none => []

/-- The nodes above a node, nearest first. -/
def ancestors (document : Document) (id : NodeId) : List NodeId :=
  document.ancestorsWithin document.size id

/-- The nodes under a node in document order, at most `fuel` levels deep. -/
def descendantsWithin (document : Document) : Nat → NodeId → List NodeId
  | 0, _ => []
  | fuel + 1, id => (document.children id).flatMap fun child => child :: document.descendantsWithin fuel child

/-- The nodes under a node in document order. -/
def descendants (document : Document) (id : NodeId) : List NodeId :=
  document.descendantsWithin document.size id

/-- The text of a span. -/
def text (document : Document) (span : Span) : List Char :=
  slice document.source span

/-- The text of a node. -/
def nodeText (document : Document) (id : NodeId) : List Char :=
  document.text (document.spanOf id)

/-- Whether a node is a comment or holds nothing but white space. -/
def isTrivia (document : Document) (id : NodeId) : Bool :=
  match document.node? id with
  | some { span, kind := .text, .. } => isBlank (document.text span)
  | some { kind := .comment, .. } => true
  | _ => false

/-! ## Tokens -/

/-- The number of tokens that start before an offset: the index of the first that does not. -/
def tokenIndexAt (document : Document) (offset : Nat) : Nat :=
  (document.tokens.toList.takeWhile (·.span.start < offset)).length

/-- The number of tokens that end at or before an offset. -/
def tokensEndingBy (document : Document) (offset : Nat) : Nat :=
  (document.tokens.toList.takeWhile (·.span.stop ≤ offset)).length

/-- The first token at or after an offset that is not white space. -/
def firstTokenAfter? (document : Document) (offset : Nat) : Option Token :=
  (document.tokens.toList.drop (document.tokenIndexAt offset)).find? (·.kind != .whitespace)

/-- The last token that ends at or before an offset and is not white space. -/
def lastTokenBefore? (document : Document) (offset : Nat) : Option Token :=
  (document.tokens.toList.take (document.tokensEndingBy offset)).reverse.find? (·.kind != .whitespace)

/-- The tokens inside a span. -/
def tokensIn (document : Document) (span : Span) : List Token :=
  (document.tokens.toList.take (document.tokensEndingBy span.stop)).drop (document.tokenIndexAt span.start)

end Document

end ComponentLint.Markup
