import ComponentLint.Scope.Basic
import ComponentLint.Component.Basic

/-!
# Collecting scopes

One walk over the scripts and the template of a component gathers its scopes, bindings and references. What a node
means for its parts is passed down; what has been found is passed along.
-/

namespace ComponentLint

open Markup

/-- Where a node stands: the scopes around it and what the names in it are. -/
structure Place where
  /-- The open scopes, innermost first. -/
  stack : List Nat
  /-- How names are declared here, and in which scope, if they are. -/
  declaring : Option (BindingKind × Nat)
  inTemplate : Bool
  /-- The element of the template at hand. -/
  element : Option NodeId

namespace Place

/-- The innermost scope. -/
def scope? (place : Place) : Option Nat :=
  place.stack.head?

/-- The place inside a scope. -/
def inside (place : Place) (scope : Nat) : Place :=
  { place with stack := scope :: place.stack }

/-- The place where names are declared in a way. -/
def declares (place : Place) (kind : BindingKind) (scope : Nat) : Place :=
  { place with declaring := some (kind, scope) }

/-- The place where names are not declared. -/
def plain (place : Place) : Place :=
  { place with declaring := none }

end Place

namespace ScopeTable

/-- Opens a scope under a parent. -/
def openUnder (table : ScopeTable) (kind : ScopeKind) (span : Span) (parent : Option Nat) (node : Option NodeId) :
    Nat × ScopeTable :=
  let setup := ((parent.bind (table.scopes[·]?)).map (·.setup)).getD false && !kind.isTemplate
  (table.scopes.size, { table with scopes := table.scopes.push ⟨kind, parent, span, node, setup, []⟩ })

/-- Opens a scope under the innermost one of a place. -/
def openAt (table : ScopeTable) (place : Place) (kind : ScopeKind) (span : Span) : Nat × ScopeTable :=
  table.openUnder kind span place.scope? none

/-- Declares a name in a scope, which knows the name by the new binding from then on. -/
def declare (table : ScopeTable) (place : Place) (name : String) (span : Span) (kind : BindingKind) (scope : Nat) :
    ScopeTable :=
  let id := table.bindings.size
  let node := if kind.isTemplateLocal then place.element else none
  { table with
    bindings := table.bindings.push ⟨name, span, kind, scope, node⟩
    scopes := table.scopes.modify scope fun scope => { scope with names := scope.names.insert name id }
    bindingSpans := table.bindingSpans.insert span id }

/-- Declares the name of a binding node in the innermost scope. -/
def declareHere (table : ScopeTable) (place : Place) (node : Script.Node) (kind : BindingKind) : ScopeTable :=
  match node.kind, place.scope? with
  | .binding name, some scope => table.declare place name node.span kind scope
  | _, _ => table

/-- Records a use of a name. -/
def refer (table : ScopeTable) (place : Place) (name : String) (span : Span) (use : Use) : ScopeTable :=
  match place.scope? with
  | some scope =>
    { table with
      references := table.references.push ⟨name, span, scope, use, place.inTemplate, none⟩
      referenceSpans := table.referenceSpans.insert span table.references.size }
  | none => table

/-- The nearest function or module scope, where `var` declares. -/
def hoistTarget? (table : ScopeTable) (place : Place) : Option Nat :=
  place.stack.find? fun scope =>
    match table.scopes[scope]? with
    | some { kind := .function, .. } => true
    | some { kind := .module, .. } => true
    | _ => false

/-- How the declarators of a keyword declare, and in which scope. -/
def variableTarget (table : ScopeTable) (place : Place) : Script.VariableKind → BindingKind × Option Nat
  | .varKeyword => (.varVariable, table.hoistTarget? place)
  | .letKeyword => (.letVariable, place.scope?)
  | _ => (.constVariable, place.scope?)

end ScopeTable

namespace Script.Node

/-- The name declared by a binding node or by one with a default. -/
def bound? : Node → Option (String × Span)
  | ⟨.binding name, span, _⟩ => some (name, span)
  | ⟨.defaultPattern, _, ⟨.binding name, span, _⟩ :: _⟩ => some (name, span)
  | _ => none

/-- The module that a call of `require` names. -/
def requiredModule? : Node → Option String
  | ⟨.call .., _, [⟨.identifier "require", _, _⟩, ⟨.string source, _, _⟩]⟩ => some source
  | _ => none

end Script.Node

namespace ScopeTable

/-- Whether the parts of a node lie in a block scope of their own. -/
def opensBlock : Script.Kind → Bool
  | .block => true
  | .forLoop => true
  | .forIn => true
  | .forOf => true
  | _ => false

/-- Declares the specifiers of an import; types declare nothing that runs. -/
def declareImports (place : Place) (source : String) (table : ScopeTable) : List Script.Node → ScopeTable
  | [] => table
  | ⟨.importSpecifier what false, _, local' :: _⟩ :: rest =>
    declareImports place source (table.declareHere place local' (.imported source what)) rest
  | _ :: rest => declareImports place source table rest

/-- Declares the name of a function or class in the innermost scope. -/
def declareName (place : Place) (kind : BindingKind) (table : ScopeTable) : List Script.Node → ScopeTable
  | [] => table
  | part :: rest =>
    match part.kind with
    | .binding _ => table.declareHere place part kind
    | _ => declareName place kind table rest

mutual

/-- Collects from a node that its parent uses in a way. -/
def collect (place : Place) (use : Use) (table : ScopeTable) : Script.Node → ScopeTable
  | ⟨kind, span, children⟩ =>
    match kind with
    | .identifier name => table.refer place name span use
    | .binding name =>
      match place.declaring with
      | some (kind, scope) => table.declare place name span kind scope
      | none => table
    | .importDeclaration source typeOnly => if typeOnly then table else declareImports place source table children
    | .variables keyword =>
      let (kind, scope) := table.variableTarget place keyword
      collectDeclarators place kind scope table children
    | .functionDef declaration =>
      let table := if declaration then declareName place .function table children else table
      let (scope, table) := table.openAt place .function span
      let inner := place.inside scope
      let table := if declaration then table else declareName inner .function table children
      collectFunction inner scope table children
    | .arrow _ =>
      let (scope, table) := table.openAt place .function span
      collectFunction (place.inside scope) scope table children
    | .classDef =>
      let table := declareName place .classDef table children
      collectParts place.plain ⟨kind, span, children⟩ 0 table children
    | .switchStatement =>
      match children with
      | subject :: cases =>
        let table := collect place (.reading .operand) table subject
        let (scope, table) := table.openAt place .block span
        collectParts (place.inside scope) ⟨kind, span, []⟩ 1 table cases
      | [] => table
    | .catchClause =>
      let (scope, table) := table.openAt place .catchBlock span
      collectCatch (place.inside scope) scope table children
    | _ =>
      if opensBlock kind then
        let (scope, table) := table.openAt place .block span
        collectParts (place.inside scope) ⟨kind, span, children⟩ 0 table children
      else collectParts place ⟨kind, span, children⟩ 0 table children

/-- Collects from the parts of a node, from an index on. -/
def collectParts (place : Place) (node : Script.Node) (index : Nat) (table : ScopeTable) : List Script.Node → ScopeTable
  | [] => table
  | part :: rest =>
    collectParts place node (index + 1) (collect place (Use.ofPart node index) table part) rest

/-- Collects from the parts of a catch clause: the last is its body, and one before it declares names. -/
def collectCatch (place : Place) (scope : Nat) (table : ScopeTable) : List Script.Node → ScopeTable
  | [] => table
  | [body] => collect place .plain table body
  | param :: rest => collectCatch place scope (collect (place.declares .catchParam scope) .plain table param) rest

/-- Collects from the parameters and the body of a function. -/
def collectFunction (place : Place) (scope : Nat) (table : ScopeTable) : List Script.Node → ScopeTable
  | [] => table
  | part :: rest =>
    match part.kind with
    | .params => collectFunction place scope (collect (place.declares .param scope) .plain table part) rest
    | .body => collectFunction place scope (collect place.plain .plain table part) rest
    | _ => collectFunction place scope table rest

/-- Collects from the declarators of a variable declaration. -/
def collectDeclarators (place : Place) (kind : BindingKind) (scope : Option Nat) (table : ScopeTable) :
    List Script.Node → ScopeTable
  | [] => table
  | ⟨form, span, pattern :: values⟩ :: rest =>
    let table := match scope with
      | some scope =>
        match (values.head?).bind (·.requiredModule?) with
        | some source => collectRequired place kind scope source table pattern
        | none => collect (place.declares kind scope) .plain table pattern
      | none => table
    let table := collectParts place.plain ⟨form, span, pattern :: values⟩ 1 table values
    collectDeclarators place kind scope table rest
  | _ :: rest => collectDeclarators place kind scope table rest

/-- Collects from a pattern that takes what `require` gave, as a whole or by its properties. -/
def collectRequired (place : Place) (kind : BindingKind) (scope : Nat) (source : String) (table : ScopeTable) :
    Script.Node → ScopeTable
  | ⟨.binding name, span, _⟩ => table.declare place name span (.imported source .wholeModule) scope
  | ⟨.objectPattern, _, parts⟩ => collectRequiredParts place scope source table parts
  | ⟨other, span, parts⟩ => collectParts (place.declares kind scope) ⟨other, span, parts⟩ 0 table parts

/-- Collects from the properties of a pattern that takes apart what `require` gave. -/
def collectRequiredParts (place : Place) (scope : Nat) (source : String) (table : ScopeTable) :
    List Script.Node → ScopeTable
  | [] => table
  | ⟨.patternProperty _, _, [key, value]⟩ :: rest =>
    let table := match key.staticName?, value.bound? with
      | some imported, some (name, span) => table.declare place name span (.imported source (.named imported)) scope
      | _, _ => collect (place.declares .constVariable scope) .plain table value
    collectRequiredParts place scope source table rest
  | part :: rest =>
    collectRequiredParts place scope source (collect (place.declares .constVariable scope) .plain table part) rest

end

/-! ## The template -/

/-- Collects from what the value of a directive runs in the scope of its element. -/
def collectValue (place : Place) (table : ScopeTable) : DirectiveValue → ScopeTable
  | .expression node => table.collect place .plain node
  | .handler statements => statements.foldl (collect place .plain) table
  | _ => table

/-- Opens the scope of an element and declares its names there. -/
def openElement (place : Place) (kind : ScopeKind) (declared : BindingKind) (span : Span) (id : NodeId)
    (params : Script.Node) (table : ScopeTable) : Place × ScopeTable :=
  let (scope, table) := table.openUnder kind span place.scope? (some id)
  let table := { table with elementScopes := (id, scope) :: table.elementScopes }
  let inner := place.inside scope
  (inner, table.collect (inner.declares declared scope) .plain params)

/-- Opens the scopes of an element: one for its loop, whose source lies outside, and one for its slot parameters. -/
def enterElement (place : Place) (table : ScopeTable) (id : NodeId) (span : Span) (element : Element) :
    Place × ScopeTable :=
  let place := { place with element := some id }
  let (place, table) := match (element.directive? "for").bind (·.meaning?) with
    | some (.loop aliases source _) =>
      openElement place .loop .loopAlias span id aliases (table.collect place .plain source)
    | _ => (place, table)
  match (element.directive? "slot").bind (·.meaning?) with
  | some (.slotScope params) => openElement place .slot .slotParam span id params table
  | _ => (place, table)

/-- Collects from a node of the template and the nodes under it, at most `fuel` levels deep. -/
def collectNode (document : Document) : Nat → Place → ScopeTable → NodeId → ScopeTable
  | 0, _, table, _ => table
  | fuel + 1, place, table, id =>
    match document.node? id with
    | some { kind := .interpolation content, .. } =>
      match content.expression with
      | some node => table.collect place .plain node
      | none => table
    | some { span, kind := .element element, .. } =>
      let (inner, table) := enterElement place table id span element
      let table := (element.attributes.filterMap (·.meaning?)).foldl (collectValue inner) table
      (document.children id).foldl (collectNode document fuel inner) table
    | _ => table

/-! ## The component -/

/-- Collects from a script block in a module scope of its own. -/
def collectScript (table : ScopeTable) (scope : Nat) (block : ScriptBlock) : ScopeTable :=
  block.statements.foldl (collect ⟨[scope], none, false, none⟩ .plain) table

/-- Collects from the plain script. -/
def withPlainScript (component : Component) (table : ScopeTable) : ScopeTable :=
  match component.plainScript? with
  | some block =>
    let (scope, table) := table.openUnder .module block.program.span none none
    collectScript { table with moduleScope := some scope } scope block
  | none => table

/-- Collects from the setup script, which sees the names of the plain one. -/
def withSetupScript (component : Component) (table : ScopeTable) : ScopeTable :=
  match component.setupScript? with
  | some block =>
    let (scope, table) := table.openUnder .module block.program.span table.moduleScope none
    let scopes := table.scopes.modify scope fun opened => { opened with setup := true }
    collectScript { table with scopes := scopes, setupScope := some scope } scope block
  | none => table

/-- Collects from the template, which sees the names of the setup script. -/
def withTemplate (component : Component) (table : ScopeTable) : ScopeTable :=
  match component.template with
  | some id =>
    let document := component.document
    let (scope, table) := table.openUnder .template (document.spanOf id) table.setupScope (some id)
    let table := { table with templateScope := some scope }
    (document.children id).foldl (collectNode document document.size ⟨[scope], none, true, none⟩) table
  | none => table

/-- What the walk over a component finds. -/
def gather (component : Component) : ScopeTable :=
  withTemplate component (withSetupScript component (withPlainScript component empty))

/-- The scopes, bindings and references of a component: the references are resolved when all that is declared has been found. -/
def ofComponent (component : Component) : ScopeTable :=
  (gather component).resolveAll

end ScopeTable

end ComponentLint
