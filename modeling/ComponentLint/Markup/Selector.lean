import ComponentLint.Markup.Node

/-!
# Selectors

A selector says which nodes of a template, or which attributes of its elements, are of interest.
-/

namespace ComponentLint.Markup

/-- A condition on the argument of a directive. -/
inductive ArgumentPattern where
  | any
  | missing
  /-- A static argument of a name. -/
  | named (name : String)
  | dynamic
  deriving DecidableEq, Repr

/-- Whether an argument meets a condition. -/
def ArgumentPattern.accepts : ArgumentPattern → Option Argument → Bool
  | .any, _ => true
  | .missing, argument => argument.isNone
  | .named name, some (.static found) => found.text == name
  | .dynamic, some (.dynamic ..) => true
  | _, _ => false

/-- A condition on elements; a missing part holds of every element. -/
structure ElementPattern where
  /-- The names to accept, and every name if there are none. -/
  names : List String := []
  directive : Option String := none
  attr : Option String := none
  excludeComponents : Bool := false
  deriving DecidableEq, Repr

/-- Whether an element meets a condition. -/
def ElementPattern.accepts (pattern : ElementPattern) (element : Element) : Bool :=
  (pattern.names.isEmpty || pattern.names.contains element.name) && pattern.directive.all element.hasDirective &&
    pattern.attr.all element.hasAttribute && !(pattern.excludeComponents && element.isComponent)

/-- A condition on directives: a name, a condition on the argument, and modifiers that must all be there. -/
structure DirectivePattern where
  name : String
  argument : ArgumentPattern := .any
  modifiers : List String := []
  deriving DecidableEq, Repr

/-- Whether an attribute is a directive that meets a condition. -/
def DirectivePattern.accepts (pattern : DirectivePattern) (attr : Attribute) : Bool :=
  match attr.directive? with
  | some key =>
    key.name.text == pattern.name && pattern.argument.accepts key.argument &&
      pattern.modifiers.all fun required => key.modifiers.any (·.text == required)
  | none => false

/-- What to select. -/
inductive Selector where
  | element (pattern : ElementPattern)
  | directive (pattern : DirectivePattern)
  /-- The plain attributes of a name. -/
  | plain (name : String)
  | interpolation
  deriving DecidableEq, Repr

/-- A node that was selected, with the index of the attribute if the selector asks for attributes. -/
structure Selection where
  node : NodeId
  attributeIndex : Option Nat
  deriving DecidableEq, Repr

namespace Selector

/-- The attributes of an element that pass a test, by their indices. -/
def attributesWhere (id : NodeId) (found : Element) (test : Attribute → Bool) : List Selection :=
  (found.attributes.zipIdx.filter (test ·.1)).map fun (_, index) => ⟨id, some index⟩

/-- What a selector selects at a node, in source order. -/
def select (document : Document) (selector : Selector) (id : NodeId) : List Selection :=
  match selector, document.node? id with
  | .element pattern, some { kind := .element found, .. } => if pattern.accepts found then [⟨id, none⟩] else []
  | .directive pattern, some { kind := .element found, .. } => attributesWhere id found pattern.accepts
  | .plain name, some { kind := .element found, .. } => attributesWhere id found (·.isPlain name)
  | .interpolation, some { kind := .interpolation _, .. } => [⟨id, none⟩]
  | _, _ => []

end Selector

/-- The attribute that was selected. -/
def Selection.attribute? (selection : Selection) (document : Document) : Option Attribute := do
  let element ← document.element? selection.node
  element.attributes[(← selection.attributeIndex)]?

end ComponentLint.Markup
