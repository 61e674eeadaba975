import ComponentLint.Script.Node
import ComponentLint.Markup.Node

/-!
# Scopes, bindings and references

A scope is a region in which names are declared, a binding is a declaration, and a reference is a use of a name. All
three are numbered in the order in which they are found. The table of a file holds them. A scope knows the latest binding of each
name that is declared in it, and a reference is resolved to that of the nearest scope that knows its name.
-/

namespace ComponentLint

open Markup

/-- A map as the list of its entries, at most one for each key. -/
abbrev Entries (α β : Type) := List (α × β)

namespace Entries

variable {α β : Type} [DecidableEq α]

/-- The value of a key. -/
def get? (entries : Entries α β) (key : α) : Option β :=
  List.lookup key entries

/-- The map with a value for a key, which takes the place of the one that the key had. -/
def insert (entries : Entries α β) (key : α) (value : β) : Entries α β :=
  (key, value) :: entries.filter (·.1 != key)

/-- The map with all values changed. -/
def mapValues {γ : Type} (entries : Entries α β) (f : β → γ) : Entries α γ :=
  entries.map fun (key, value) => (key, f value)

@[simp] theorem get?_nil (key : α) : get? ([] : Entries α β) key = none := rfl

theorem lookup_filter_ne {key other : α} (hne : other ≠ key) (entries : Entries α β) :
    List.lookup other (entries.filter (·.1 != key)) = List.lookup other entries := by
  induction entries with
  | nil => rfl
  | cons entry rest ih =>
    by_cases hkey : entry.1 = key
    · rw [List.filter_cons_of_neg (by simpa using hkey), ih, List.lookup_cons, hkey, beq_false_of_ne hne]
    · rw [List.filter_cons_of_pos (by simpa using hkey), List.lookup_cons, List.lookup_cons, ih]

theorem get?_insert (entries : Entries α β) (key other : α) (value : β) :
    (entries.insert key value).get? other = if other = key then some value else entries.get? other := by
  unfold get? insert
  by_cases heq : other = key
  · rw [if_pos heq, heq, List.lookup_cons_self]
  · rw [if_neg heq, List.lookup_cons, beq_false_of_ne heq]
    exact lookup_filter_ne heq entries

@[simp] theorem get?_insert_self (entries : Entries α β) (key : α) (value : β) :
    (entries.insert key value).get? key = some value := by
  rw [get?_insert, if_pos rfl]

theorem get?_mapValues {γ : Type} (f : β → γ) (entries : Entries α β) (key : α) :
    (entries.mapValues f).get? key = (entries.get? key).map f := by
  unfold get? mapValues
  induction entries with
  | nil => rfl
  | cons entry rest ih =>
    rw [List.map_cons, List.lookup_cons, List.lookup_cons, ih]
    cases key == entry.1
    · rfl
    · rfl

end Entries

/-- What a scope belongs to. -/
inductive ScopeKind where
  | module
  | function
  | block
  | catchBlock
  /-- The template as a whole. -/
  | template
  /-- An element with a loop. -/
  | loop
  /-- An element with slot parameters. -/
  | slot
  deriving DecidableEq, Repr

/-- Whether a scope belongs to the template. -/
def ScopeKind.isTemplate : ScopeKind → Bool
  | .template => true
  | .loop => true
  | .slot => true
  | _ => false

/-- How a name is declared. -/
inductive BindingKind where
  | varVariable
  | letVariable
  | constVariable
  | function
  | classDef
  | param
  /-- An `import`, or a variable that holds what `require` gave. -/
  | imported (source : String) (what : Script.Imported)
  | catchParam
  | loopAlias
  | slotParam
  deriving DecidableEq, Repr

/-- Whether a name is declared by an element of the template. -/
def BindingKind.isTemplateLocal : BindingKind → Bool
  | .loopAlias => true
  | .slotParam => true
  | _ => false

/-- How a reference is used by the node around it. -/
inductive Usage where
  | read
  /-- Operand of an operator, condition or part of a template. -/
  | operand
  /-- What is called or constructed. -/
  | call
  /-- Object of a member whose name is known. -/
  | member (name : String)
  /-- Source of a destructuring. -/
  | destructured
  | write
  /-- A use that cannot be told apart. -/
  | unknown
  deriving DecidableEq, Repr

/-- A use of a name: how, and whether the variable is read or written. -/
structure Use where
  usage : Usage
  reads : Bool
  writes : Bool
  deriving DecidableEq, Repr

namespace Use

/-- A use that reads. -/
def reading (usage : Usage) : Use := ⟨usage, true, false⟩

/-- A plain read. -/
def plain : Use := reading .read

/-- A plain write. -/
def write : Use := ⟨.write, false, true⟩

/-- An operand that is changed. -/
def changed : Use := ⟨.operand, true, true⟩

end Use

/-- A scope. -/
structure Scope where
  kind : ScopeKind
  parent : Option Nat
  span : Span
  /-- The element of the template that the scope belongs to. -/
  node : Option NodeId
  /-- Whether the scope lies in a setup script. -/
  setup : Bool
  /-- The latest binding of each name that is declared in the scope. -/
  names : Entries String Nat
  deriving Repr

/-- A declaration of a name. -/
structure Binding where
  name : String
  span : Span
  kind : BindingKind
  scope : Nat
  /-- The element that declares a name of the template. -/
  node : Option NodeId
  deriving Repr

/-- A use of a name in a scope. -/
structure Reference where
  name : String
  span : Span
  scope : Nat
  use : Use
  inTemplate : Bool
  /-- The binding that the reference stands for, once it is resolved. -/
  resolved : Option Nat
  deriving Repr

/-- The scopes, bindings and references of a file. -/
structure ScopeTable where
  scopes : Array Scope
  bindings : Array Binding
  references : Array Reference
  /-- The latest binding that is declared at each span. -/
  bindingSpans : Entries Span Nat
  /-- The latest reference at each span. -/
  referenceSpans : Entries Span Nat
  /-- The references of each binding that has some. -/
  referencesByBinding : Entries Nat (List Nat)
  /-- The scopes of elements, latest first. -/
  elementScopes : List (NodeId × Nat)
  /-- The scope of the plain script. -/
  moduleScope : Option Nat
  /-- The scope of the setup script. -/
  setupScope : Option Nat
  templateScope : Option Nat

namespace ScopeTable

/-- The table of nothing. -/
def empty : ScopeTable := ⟨#[], #[], #[], [], [], [], [], none, none, none⟩

/-- The latest binding of a name in a scope. -/
def own? (table : ScopeTable) (scope : Nat) (name : String) : Option Nat :=
  (table.scopes[scope]?).bind (·.names.get? name)

/-- A scope and the scopes around it, innermost first, at most `fuel` of them. -/
def chainWithin (table : ScopeTable) : Nat → Nat → List Nat
  | 0, _ => []
  | fuel + 1, scope =>
    scope :: (match (table.scopes[scope]?).bind (·.parent) with
      | some parent => table.chainWithin fuel parent
      | none => [])

/-- A scope and the scopes around it, innermost first. -/
def chain (table : ScopeTable) (scope : Nat) : List Nat :=
  table.chainWithin (table.scopes.size + 1) scope

/-- The binding that a name stands for in a scope. -/
def resolve? (table : ScopeTable) (scope : Nat) (name : String) : Option Nat :=
  (table.chain scope).findSome? (table.own? · name)

/-- The binding of a number. -/
def binding? (table : ScopeTable) (id : Nat) : Option Binding :=
  table.bindings[id]?

/-- The references that were resolved to a binding, in source order. -/
def referencesTo (table : ScopeTable) (id : Nat) : List Reference :=
  ((table.referencesByBinding.get? id).getD []).filterMap (table.references[·]?)

theorem mem_of_mem_referencesTo {table : ScopeTable} {id : Nat} {reference : Reference}
    (h : reference ∈ table.referencesTo id) : reference ∈ table.references := by
  obtain ⟨index, -, hreference⟩ := List.mem_filterMap.1 h
  exact Array.mem_of_getElem? hreference

/-- Whether some reference was resolved to a binding. -/
def isReferenced (table : ScopeTable) (id : Nat) : Bool :=
  (table.referencesByBinding.get? id).any (!·.isEmpty)

/-- The binding declared at exactly a span; of several the latest. -/
def bindingAt? (table : ScopeTable) (span : Span) : Option Nat :=
  table.bindingSpans.get? span

/-- The reference at exactly a span; of several the latest. -/
def referenceAt? (table : ScopeTable) (span : Span) : Option Nat :=
  table.referenceSpans.get? span

/-- The binding that the reference at exactly a span was resolved to. -/
def resolvedAt? (table : ScopeTable) (span : Span) : Option Nat := do
  let id ← table.referenceAt? span
  let reference ← table.references[id]?
  reference.resolved

/-- The scope in effect at a node of the template: that of the node or of the nearest node above with one. -/
def scopeOf? (table : ScopeTable) (document : Document) (node : NodeId) : Option Nat :=
  match (node :: document.ancestors node).findSome? fun id => (table.elementScopes.find? (·.1 == id)).map (·.2) with
  | some scope => some scope
  | none => table.templateScope

/-- Whether a name stands for another binding than the given one in a scope. -/
def isShadowed (table : ScopeTable) (scope : Nat) (name : String) (binding : Nat) : Bool :=
  match table.resolve? scope name with
  | some found => found != binding
  | none => false

/-- The binding of a name in a scope, if an element of the template declares it. -/
def templateLocal? (table : ScopeTable) (scope : Nat) (name : String) : Option Nat := do
  let id ← table.resolve? scope name
  let binding ← table.binding? id
  if binding.kind.isTemplateLocal then some id else none

/-! ## Resolving references -/

/-- Resolves the reference of a number: the binding that is found is stored in the reference, and the reference is added to those
of the binding. -/
def resolveReference (table : ScopeTable) (id : Nat) : ScopeTable :=
  match table.references[id]? with
  | none => table
  | some reference =>
    let resolved := table.resolve? reference.scope reference.name
    { table with
      references := table.references.modify id fun reference => { reference with resolved := resolved }
      referencesByBinding := match resolved with
        | some binding =>
          table.referencesByBinding.insert binding (((table.referencesByBinding.get? binding).getD []) ++ [id])
        | none => table.referencesByBinding }

/-- Where the reference of a number starts. -/
def startOf (table : ScopeTable) (id : Nat) : Nat :=
  ((table.references[id]?).map (·.span.start)).getD 0

/-- Puts the references of each binding in source order. -/
def sortReferences (table : ScopeTable) : ScopeTable :=
  { table with
    referencesByBinding := table.referencesByBinding.mapValues
      (·.mergeSort fun a b => table.startOf a ≤ table.startOf b) }

/-- Resolves all references, one after the other. -/
def resolveAll (table : ScopeTable) : ScopeTable :=
  ((List.range table.references.size).foldl resolveReference table).sortReferences

end ScopeTable

end ComponentLint

/-!
## How a node uses its parts

A variable is read, written or both, depending on the node it is a direct part of. Parentheses around a variable are
such a node, so a variable in parentheses is plainly read.
-/

namespace ComponentLint

open Script

/-- How a node uses the variable that is its part of an index. -/
def Use.ofPart (node : Script.Node) (index : Nat) : Use :=
  match node.kind, index with
  | .ifStatement, 0 => reading .operand
  | .whileLoop, 0 => reading .operand
  | .doWhile, 1 => reading .operand
  | .forLoop, 1 => reading .operand
  | .switchStatement, 0 => reading .operand
  | .conditional, 0 => reading .operand
  | .binary _, _ => reading .operand
  | .logical _, 0 => reading .operand
  | .unary operator, _ => if ["!", "-", "+", "~"].contains operator then reading .operand else plain
  | .template _, _ => reading .operand
  | .update _, _ => changed
  | .assign operator, 0 => if operator == "=" then write else changed
  | .assign operator, _ =>
    if operator != "=" then reading .operand
    else
      match node.children with
      | ⟨.arrayTarget, _, _⟩ :: _ => reading .destructured
      | ⟨.objectTarget, _, _⟩ :: _ => reading .destructured
      | _ => plain
  | .declarator, 1 =>
    match node.children with
    | ⟨.binding _, _, _⟩ :: _ => plain
    | _ => reading .destructured
  | .call .., 0 => reading .call
  | .newInstance, 0 => reading .call
  | .member name _ _, _ => reading (.member name)
  | .index _, 0 =>
    match node.children with
    | [_, ⟨.string value, _, _⟩] => reading (.member value)
    | _ => reading .unknown
  | .spread, _ => reading .unknown
  | .arrayTarget, _ => write
  | .defaultTarget, 0 => write
  | .restTarget, _ => write
  | .targetProperty, 1 => write
  | .shorthandTarget, 0 => write
  | .forIn, 0 => write
  | .forOf, 0 => write
  | _, _ => plain

end ComponentLint
