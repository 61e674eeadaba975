import ComponentLint.Proofs.Markup.Construction
import ComponentLint.Proofs.Scope.Resolution
import ComponentLint.Proofs.Script.Names

/-!
# Where names stand

The bindings and references of a table are names of the trees that the table is collected from, with the spans they have
there: what the walk has found so far is kept (`Named`), and what it adds is the name of a node of a tree (`Collected`). So
the spans are spans of the text as soon as the trees lie in it.
-/

namespace ComponentLint

open Text Markup

/-! ## Trees of a component -/

/-- The trees that the value of a directive is read as. -/
def Markup.DirectiveValue.trees : DirectiveValue → List Script.Node
  | .expression node => [node]
  | .loop aliases source _ => [aliases, source]
  | .handler statements => statements
  | .slotScope params => [params]
  | .invalid => []

/-- A tree of script in a component: one of the value of a directive, the expression of an interpolation, or a statement of a
script. -/
inductive Component.HasTree (component : Component) : Script.Node → Prop where
  | value {id : NodeId} {element : Element} {attr : Attribute} {value : DirectiveValue} {tree : Script.Node}
      (helement : component.document.element? id = some element) (hattr : attr ∈ element.attributes)
      (hmeaning : attr.meaning? = some value) (htree : tree ∈ value.trees) : HasTree component tree
  | interpolation {id : NodeId} {node : Node} {content : Interpolation} {tree : Script.Node}
      (hnode : component.document.node? id = some node) (hkind : node.kind = .interpolation content)
      (htree : content.expression = some tree) : HasTree component tree
  | statement {block : ScriptBlock} {tree : Script.Node} (hblock : block ∈ component.scripts)
      (htree : tree ∈ block.statements) : HasTree component tree

namespace ScopeTable

/-- A table whose names, taken with their spans, are of a sort. -/
structure Named (P : String × Span → Prop) (table : ScopeTable) : Prop where
  bindings : ∀ binding ∈ table.bindings, P (binding.name, binding.span)
  references : ∀ reference ∈ table.references, P (reference.name, reference.span)

variable {P : String × Span → Prop} {table : ScopeTable} {place : Place}

namespace Named

/-! ## Single steps -/

theorem declare (h : table.Named P) {name : String} {span : Span} (hname : P (name, span)) (kind : BindingKind)
    (scope : Nat) : (table.declare place name span kind scope).Named P := by
  refine ⟨fun binding hbinding => ?_, h.references⟩
  rcases Array.mem_push.1 hbinding with hold | rfl
  · exact h.bindings binding hold
  · exact hname

theorem refer (h : table.Named P) {name : String} {span : Span} (hname : P (name, span)) (use : Use) :
    (table.refer place name span use).Named P := by
  unfold ScopeTable.refer
  split
  · refine ⟨h.bindings, fun reference hreference => ?_⟩
    rcases Array.mem_push.1 hreference with hold | rfl
    · exact h.references reference hold
    · exact hname
  · exact h

theorem openUnder (h : table.Named P) {kind : ScopeKind} {span : Span} {parent : Option Nat} {node : Option NodeId}
    {scope : Nat} {opened : ScopeTable} (hopen : table.openUnder kind span parent node = (scope, opened)) :
    opened.Named P := by
  cases hopen
  exact ⟨h.bindings, h.references⟩

theorem foldl {α : Type} {step : ScopeTable → α → ScopeTable} {items : List α} (h : table.Named P)
    (hstep : ∀ table : ScopeTable, ∀ item ∈ items, table.Named P → (step table item).Named P) :
    (items.foldl step table).Named P := by
  induction items generalizing table with
  | nil => exact h
  | cons item items ih =>
    obtain ⟨hfirst, hrest⟩ := List.forall_mem_cons.1 fun item hitem (table : ScopeTable) => hstep table item hitem
    exact ih (hfirst table h) fun table other ho => hrest other ho table

end Named

/-! ## The walk over a tree -/

/-- What is collected at nodes with names of a sort is of the sort. -/
theorem Collected.named {new : ScopeTable} (h : Collected (·.AllNames P) place table new) (htable : table.Named P) :
    new.Named P := by
  induction h with
  | none => exact htable
  | andThen _ _ ih ih' => exact ih' (ih htable)
  | refer hnode hkind use => exact htable.refer (hnode.own (.inl hkind)) use
  | declare hnode hname => exact htable.declare (hnode.own (.inr hname)) _ _
  | declares _ _ _ ih => exact ih htable
  | plain _ ih => exact ih htable
  | inside _ hopen _ ih => exact ih (htable.openUnder hopen)

namespace Named

theorem collect (h : table.Named P) {node : Script.Node} (hnode : node.AllNames P) (place : Place) (use : Use) :
    (table.collect place use node).Named P :=
  (collected_collect (fun _ hnames => hnames.parts) place use table hnode).named h

/-! ## The walk over the template -/

theorem collectValue (h : table.Named P) {value : DirectiveValue} (hvalue : ∀ tree ∈ value.trees, tree.AllNames P)
    (place : Place) : (collectValue place table value).Named P := by
  unfold ScopeTable.collectValue
  split
  · exact h.collect (hvalue _ List.mem_cons_self) place .plain
  · exact h.foldl fun table node hnode htable => htable.collect (hvalue node hnode) place .plain
  · exact h

theorem openElement (h : table.Named P) {params : Script.Node} (hparams : params.AllNames P) (kind : ScopeKind)
    (declared : BindingKind) (span : Span) (id : NodeId) :
    (openElement place kind declared span id params table).2.Named P := by
  unfold ScopeTable.openElement
  split
  next scope opened hopen =>
  have hopened := h.openUnder hopen
  refine collect ?_ hparams _ .plain
  exact ⟨hopened.bindings, hopened.references⟩

theorem enterElement (h : table.Named P) {element : Element}
    (hvalues : ∀ attr ∈ element.attributes, ∀ value, attr.meaning? = some value → ∀ tree ∈ value.trees, tree.AllNames P)
    (place : Place) (id : NodeId) (span : Span) : (enterElement place table id span element).2.Named P := by
  have hdirective : ∀ name value, (element.directive? name).bind (·.meaning?) = some value →
      ∀ tree ∈ value.trees, tree.AllNames P := by
    intro name value hvalue
    obtain ⟨attr, hattr, hmeaning⟩ := Option.bind_eq_some_iff.1 hvalue
    exact hvalues attr (List.mem_of_find?_eq_some hattr) value hmeaning
  unfold ScopeTable.enterElement
  extract_lets outer
  split
  next inner looped hlooped =>
  have hloop : (inner, looped).2.Named P := by
    rw [← hlooped]
    split
    · next aliases source _ hmeaning =>
      have htrees := hdirective _ _ hmeaning
      exact (h.collect (htrees source (by simp [DirectiveValue.trees])) outer .plain).openElement
        (htrees aliases List.mem_cons_self) _ _ _ _
    · exact h
  split
  · next params hmeaning => exact hloop.openElement (hdirective _ _ hmeaning params List.mem_cons_self) _ _ _ _
  · exact hloop

theorem collectNode {component : Component} (htrees : ∀ tree, component.HasTree tree → tree.AllNames P) (fuel : Nat)
    (h : table.Named P) (place : Place) (id : NodeId) :
    (collectNode component.document fuel place table id).Named P := by
  induction fuel generalizing table place id with
  | zero => exact h
  | succ fuel ih =>
    unfold ScopeTable.collectNode
    split
    · next node hnode =>
      split
      · next expression hexpression => exact h.collect (htrees _ (.interpolation hnode rfl hexpression)) place .plain
      · exact h
    · next span element hnode =>
      have helement : component.document.element? id = some element := by
        rw [Document.element?, hnode]
      have hvalues : ∀ attr ∈ element.attributes, ∀ value, attr.meaning? = some value →
          ∀ tree ∈ value.trees, tree.AllNames P :=
        fun attr hattr value hmeaning tree htree => htrees tree (.value helement hattr hmeaning htree)
      have hentered := enterElement h hvalues place id span
      generalize ScopeTable.enterElement place table id span element = result at hentered ⊢
      refine foldl (foldl hentered fun table value hvalue htable => ?_) fun table child _ htable => ih htable result.1 child
      obtain ⟨attr, hattr, hmeaning⟩ := List.mem_filterMap.1 hvalue
      exact htable.collectValue (hvalues attr hattr value hmeaning) result.1
    · exact h

/-! ## The walk over the component -/

theorem collectScript (h : table.Named P) {block : ScriptBlock}
    (hstatements : ∀ statement ∈ block.statements, statement.AllNames P) (scope : Nat) :
    (collectScript table scope block).Named P :=
  h.foldl fun _ statement hstatement htable => htable.collect (hstatements statement hstatement) _ .plain

end Named

theorem named_gather {component : Component} (htrees : ∀ tree, component.HasTree tree → tree.AllNames P) :
    (gather component).Named P := by
  have hplain : (withPlainScript component empty).Named P := by
    unfold withPlainScript
    have hempty : empty.Named P := ⟨by simp [empty], by simp [empty]⟩
    split
    · next block hblock =>
      split
      next scope opened hopen =>
      have hopened := hempty.openUnder hopen
      refine Named.collectScript ?_ (fun _ htree => htrees _ (.statement (List.mem_of_find?_eq_some hblock) htree)) _
      exact ⟨hopened.bindings, hopened.references⟩
    · exact hempty
  have hsetup : (withSetupScript component (withPlainScript component empty)).Named P := by
    unfold withSetupScript
    split
    · next block hblock =>
      split
      next scope opened hopen =>
      have hopened := hplain.openUnder hopen
      refine Named.collectScript ?_ (fun _ htree => htrees _ (.statement (List.mem_of_find?_eq_some hblock) htree)) _
      exact ⟨hopened.bindings, hopened.references⟩
    · exact hplain
  unfold gather withTemplate
  split
  · next id _ =>
    extract_lets document
    split
    next scope opened hopen =>
    have hopened := hsetup.openUnder hopen
    refine Named.foldl ?_ fun table child _ htable => htable.collectNode htrees _ _ child
    exact ⟨hopened.bindings, hopened.references⟩
  · exact hsetup

/-- What is true of the names in the trees of a component is true of the names in its table. -/
theorem named_ofComponent {component : Component} (htrees : ∀ tree, component.HasTree tree → tree.AllNames P) :
    (ofComponent component).Named P := by
  have hall := resolvedAll_ofComponent component
  have hnamed := named_gather htrees
  refine ⟨hall.bindings ▸ hnamed.bindings, fun reference hreference => ?_⟩
  obtain ⟨old, hold, rfl⟩ := hall.exists_of_mem hreference
  exact hnamed.references old hold

end ScopeTable

/-! ## Trees that lie in a text -/

/-- What a value says, with its trees in a text. Of a list of parameters only the parts are written in every case, since its
parentheses may be left out. -/
def Markup.DirectiveValue.LiesIn (text : List Char) : DirectiveValue → Prop
  | .expression node => node.LiesIn text
  | .loop aliases source _ => (aliases.kind = .params ∧ ∀ part ∈ aliases.children, part.LiesIn text) ∧ source.LiesIn text
  | .handler statements => ∀ statement ∈ statements, statement.LiesIn text
  | .slotScope params => params.kind = .params ∧ ∀ part ∈ params.children, part.LiesIn text
  | .invalid => True

/-- A component whose scripts and fragments lie in its text. -/
structure Component.ScriptsLie (component : Component) : Prop where
  values : ∀ id element, component.document.element? id = some element → ∀ attr ∈ element.attributes, ∀ value,
    attr.meaning? = some value → value.LiesIn component.document.source
  interpolations : ∀ id node content expression, component.document.node? id = some node →
    node.kind = .interpolation content → content.expression = some expression → expression.LiesIn component.document.source
  statements : ∀ block ∈ component.scripts, ∀ statement ∈ block.statements, statement.LiesIn component.document.source

instance (text : List Char) : (value : DirectiveValue) → Decidable (value.LiesIn text)
  | .expression node => inferInstanceAs (Decidable (node.LiesIn text))
  | .loop aliases source _ => inferInstanceAs (Decidable ((aliases.kind = .params ∧
      ∀ part ∈ aliases.children, part.LiesIn text) ∧ source.LiesIn text))
  | .handler statements => inferInstanceAs (Decidable (∀ statement ∈ statements, statement.LiesIn text))
  | .slotScope params => inferInstanceAs (Decidable (params.kind = .params ∧ ∀ part ∈ params.children, part.LiesIn text))
  | .invalid => inferInstanceAs (Decidable True)

/-- What a node is, with its trees in a text. -/
def Markup.NodeKind.ScriptsLieIn (text : List Char) : NodeKind → Prop
  | .element found => ∀ attr ∈ found.attributes, ∀ value ∈ attr.meaning?, value.LiesIn text
  | .interpolation content => ∀ expression ∈ content.expression, expression.LiesIn text
  | _ => True

instance (text : List Char) : (kind : NodeKind) → Decidable (kind.ScriptsLieIn text)
  | .element found => inferInstanceAs (Decidable (∀ attr ∈ found.attributes, ∀ value ∈ attr.meaning?, value.LiesIn text))
  | .interpolation content => inferInstanceAs (Decidable (∀ expression ∈ content.expression, expression.LiesIn text))
  | .root => inferInstanceAs (Decidable True)
  | .text => inferInstanceAs (Decidable True)
  | .comment => inferInstanceAs (Decidable True)

/-- The scripts of a component lie in its text if those of each node and each block do. -/
theorem Component.scriptsLie_iff {component : Component} : component.ScriptsLie ↔
    (∀ node ∈ component.document.nodes, node.kind.ScriptsLieIn component.document.source) ∧
      ∀ block ∈ component.scripts, ∀ statement ∈ block.statements, statement.LiesIn component.document.source := by
  constructor
  · intro h
    refine ⟨fun node hnode => ?_, h.statements⟩
    obtain ⟨id, hid, hget⟩ := Array.getElem_of_mem hnode
    have hfound : component.document.node? id = some node := Array.getElem?_eq_some_iff.2 ⟨hid, hget⟩
    cases hkind : node.kind with
    | element found => exact h.values id found (Document.element?_eq_some_iff.2 ⟨node, hfound, hkind⟩)
    | interpolation content => exact fun expression => h.interpolations id node content expression hfound hkind
    | root | text | comment => trivial
  · rintro ⟨hnodes, hstatements⟩
    refine ⟨fun id element helement => ?_, fun id node content expression hfound hkind => ?_, hstatements⟩
    · obtain ⟨node, hfound, hkind⟩ := Document.element?_eq_some_iff.1 helement
      have hlies := hnodes node (Array.mem_of_getElem? hfound)
      rw [hkind] at hlies
      exact hlies
    · have hlies := hnodes node (Array.mem_of_getElem? hfound)
      rw [hkind] at hlies
      exact hlies expression

instance (component : Component) : Decidable component.ScriptsLie :=
  decidable_of_iff _ Component.scriptsLie_iff.symm

theorem Markup.DirectiveValue.LiesIn.allNames {text : List Char} {value : DirectiveValue} (h : value.LiesIn text) :
    ∀ tree ∈ value.trees, tree.AllNames (·.2.InText text) := by
  have hparams : ∀ params : Script.Node, params.kind = .params → (∀ part ∈ params.children, part.LiesIn text) →
      params.AllNames (·.2.InText text) :=
    fun _ hkind hparts => .of_params hkind fun part hpart => (hparts part hpart).allNames
  cases value with
  | expression node => simpa [trees] using Script.Node.Lies.allNames h
  | loop aliases source word =>
    obtain ⟨⟨hkind, haliases⟩, hsource⟩ := h
    simpa [trees] using ⟨hparams aliases hkind haliases, hsource.allNames⟩
  | handler statements => exact fun tree htree => (h tree htree).allNames
  | slotScope params => simpa [trees] using hparams params h.1 h.2
  | invalid => simp [trees]

/-- A table whose names stand in a text. -/
structure ScopeTable.Spanned (text : List Char) (table : ScopeTable) : Prop where
  bindings : ∀ binding ∈ table.bindings, binding.span.InText text
  references : ∀ reference ∈ table.references, reference.span.InText text

/-- The names of a component stand in its text. -/
theorem ScopeTable.spanned_ofComponent {component : Component} (h : component.ScriptsLie) :
    (ofComponent component).Spanned component.document.source := by
  have hnamed : (ofComponent component).Named (·.2.InText component.document.source) := by
    refine named_ofComponent fun tree htree => ?_
    cases htree with
    | value helement hattr hmeaning htree => exact (h.values _ _ helement _ hattr _ hmeaning).allNames tree htree
    | interpolation hnode hkind htree => exact (h.interpolations _ _ _ _ hnode hkind htree).allNames
    | statement hblock htree => exact (h.statements _ hblock _ htree).allNames
  exact ⟨hnamed.bindings, hnamed.references⟩

end ComponentLint
