import ComponentLint.Markup.Node

/-!
# Neighbours in the tree

The element before and after a node, the chain of conditional branches that an element continues, and searches upward.
Comments and blank text stand between two neighbours without separating them.
-/

namespace ComponentLint.Markup

/-- The branches of a conditional chain. -/
inductive Branch where
  | ifBranch
  | elseIfBranch
  | elseBranch
  deriving DecidableEq, Repr

/-- The branch that an element is. -/
def Element.branch? (element : Element) : Option Branch :=
  if element.hasDirective "if" then some .ifBranch
  else if element.hasDirective "else-if" then some .elseIfBranch
  else if element.hasDirective "else" then some .elseBranch
  else none

/-- Where an upward search ends. -/
inductive Boundary where
  | root
  /-- The nearest template element. -/
  | template
  | node (id : NodeId)
  deriving DecidableEq, Repr

namespace Document

/-- The children of a node's parent, the node among them. -/
def siblings (document : Document) (id : NodeId) : List NodeId :=
  match document.parent? id with
  | some parent => document.children parent
  | none => []

/-- The siblings before a node, nearest first. -/
def siblingsBefore (document : Document) (id : NodeId) : List NodeId :=
  ((document.siblings id).takeWhile (· != id)).reverse

/-- The siblings after a node, nearest first. -/
def siblingsAfter (document : Document) (id : NodeId) : List NodeId :=
  ((document.siblings id).dropWhile (· != id)).drop 1

/-- The first node that is not trivia, if it is an element. -/
def firstElement? (document : Document) (ids : List NodeId) : Option NodeId := do
  let id ← ids.find? (!document.isTrivia ·)
  if (document.element? id).isSome then some id else none

/-- The element before a node. -/
def previousElement? (document : Document) (id : NodeId) : Option NodeId :=
  document.firstElement? (document.siblingsBefore id)

/-- The element after a node. -/
def nextElement? (document : Document) (id : NodeId) : Option NodeId :=
  document.firstElement? (document.siblingsAfter id)

/-- The chain of branches at the front of a list of nodes, up to the `if` that starts it. -/
def chainAmong? (document : Document) : List NodeId → Option (List NodeId)
  | [] => none
  | id :: rest =>
    if document.isTrivia id then document.chainAmong? rest
    else
      match (document.element? id).bind (·.branch?) with
      | some .elseIfBranch => (document.chainAmong? rest).map (id :: ·)
      | some .ifBranch => some [id]
      | _ => none

/-- The branches before a node in its conditional chain, nearest first; none if the chain is broken. -/
def chainBefore (document : Document) (id : NodeId) : List NodeId :=
  (document.chainAmong? (document.siblingsBefore id)).getD []

/-- Whether an upward search ends at a node. -/
def isAt (document : Document) (boundary : Boundary) (id : NodeId) : Bool :=
  match boundary with
  | .root => id == 0
  | .template => (document.element? id).any (·.name == "template")
  | .node other => id == other

/-- The nearest node above a node that passes a test, below a boundary. -/
def findAncestor? (document : Document) (id : NodeId) (test : NodeId → Bool) (boundary : Boundary) : Option NodeId :=
  ((document.ancestors id).takeWhile fun above => !document.isAt boundary above).find? test

end Document

end ComponentLint.Markup
