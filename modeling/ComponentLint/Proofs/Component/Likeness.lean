import ComponentLint.Component.Options
import ComponentLint.Proofs.Scope.Likeness
import ComponentLint.Proofs.Script.Places

/-!
# Components that are alike

Components are alike (`Component.Alike`) if their trees have the same nodes and what their scripts and the
fragments in them say is alike. Their tables are alike then (`Component.Alike.ofComponent`): every reference of
the second stands for a reference of the first and was resolved to the same binding, but for those that the edit
adds, which are resolved as they would be in the first.
-/

namespace ComponentLint

open Script Markup

/-! ## Parts of components -/

/-- Values of directives that say the same, but for what is exchanged in them. -/
inductive Markup.DirectiveValue.Alike (likeness : Likeness) : DirectiveValue → DirectiveValue → Prop where
  | expression {node node' : Script.Node} (h : likeness.Alike .absent node node') :
      Alike likeness (.expression node) (.expression node')
  | loop {aliases aliases' source source' : Script.Node} {word : LoopWord} (hkind : aliases.kind = .params)
      (hkind' : aliases'.kind = .params) (haliases : likeness.AllAlike .params aliases.children aliases'.children)
      (hsource : likeness.Alike .absent source source') : Alike likeness (.loop aliases source word) (.loop aliases' source' word)
  | handler {statements statements' : List Script.Node} (h : likeness.AllAlike .absent statements statements') :
      Alike likeness (.handler statements) (.handler statements')
  | slotScope {params params' : Script.Node} (hkind : params.kind = .params) (hkind' : params'.kind = .params)
      (hparams : likeness.AllAlike .params params.children params'.children) :
      Alike likeness (.slotScope params) (.slotScope params')
  | invalid : Alike likeness .invalid .invalid

instance (likeness : Likeness) [DecidableRel likeness.place] : (old new : DirectiveValue) → Decidable (old.Alike likeness new)
  | .expression node, new => match new with
    | .expression node' => decidable_of_iff (likeness.Alike .absent node node') ⟨.expression, fun h => by cases h; assumption⟩
    | .loop .. | .handler _ | .slotScope _ | .invalid => .isFalse fun h => by cases h
  | .loop aliases source word, new => match new with
    | .loop aliases' source' word' =>
      decidable_of_iff (aliases.kind = .params ∧ aliases'.kind = .params ∧
          likeness.AllAlike .params aliases.children aliases'.children ∧ likeness.Alike .absent source source' ∧ word' = word)
        ⟨fun h => h.2.2.2.2 ▸ .loop h.1 h.2.1 h.2.2.1 h.2.2.2.1, fun h => by
          cases h with
          | loop hkind hkind' haliases hsource => exact ⟨hkind, hkind', haliases, hsource, rfl⟩⟩
    | .expression _ | .handler _ | .slotScope _ | .invalid => .isFalse fun h => by cases h
  | .handler statements, new => match new with
    | .handler statements' =>
      decidable_of_iff (likeness.AllAlike .absent statements statements') ⟨.handler, fun h => by cases h; assumption⟩
    | .expression _ | .loop .. | .slotScope _ | .invalid => .isFalse fun h => by cases h
  | .slotScope params, new => match new with
    | .slotScope params' =>
      decidable_of_iff (params.kind = .params ∧ params'.kind = .params ∧
        likeness.AllAlike .params params.children params'.children)
        ⟨fun h => .slotScope h.1 h.2.1 h.2.2, fun h => by
          cases h with
          | slotScope hkind hkind' hparams => exact ⟨hkind, hkind', hparams⟩⟩
    | .expression _ | .loop .. | .handler _ | .invalid => .isFalse fun h => by cases h
  | .invalid, new => match new with
    | .invalid => .isTrue .invalid
    | .expression _ | .loop .. | .handler _ | .slotScope _ => .isFalse fun h => by cases h

/-- Attributes for the same directive, whose values say the same but for what is exchanged in them. -/
structure Markup.Attribute.Alike (likeness : Likeness) (old new : Attribute) : Prop where
  directive : ∀ name, new.isDirective name = old.isDirective name
  meaning : Option.Rel (DirectiveValue.Alike likeness) old.meaning? new.meaning?

/-- Kinds of nodes that hold the same fragments of script, but for what is exchanged in them. -/
inductive Markup.NodeKind.Alike (likeness : Likeness) : NodeKind → NodeKind → Prop where
  | root : Alike likeness .root .root
  | element {old new : Element} (h : List.Forall₂ (Attribute.Alike likeness) old.attributes new.attributes) :
      Alike likeness (.element old) (.element new)
  | text : Alike likeness .text .text
  | interpolation {old new : Interpolation} (h : Option.Rel (likeness.Alike .absent) old.expression new.expression) :
      Alike likeness (.interpolation old) (.interpolation new)
  | comment : Alike likeness .comment .comment

/-- Script blocks with the same statements, but for what is exchanged in them. -/
structure ScriptBlock.Alike (likeness : Likeness) (old new : ScriptBlock) : Prop where
  setup : new.setup = old.setup
  statements : likeness.AllAlike .absent old.statements new.statements

/-- Components with the same tree, and the same scripts and fragments of script but for what is exchanged in them. -/
structure Component.Alike (likeness : Likeness) (old new : Component) : Prop where
  size : new.document.size = old.document.size
  children : ∀ id, new.document.children id = old.document.children id
  nodes : ∀ id, Option.Rel (fun node node' => node.kind.Alike likeness node'.kind) (old.document.node? id) (new.document.node? id)
  template : new.template = old.template
  scripts : List.Forall₂ (ScriptBlock.Alike likeness) old.scripts new.scripts

variable {likeness : Likeness} {extra : Reference → Prop} {old new : ScopeTable}

/-- What is found first in two lists that are related one by one is related, if the test has the same answer for both. -/
theorem find?_related {α : Type} {R : α → α → Prop} (test : α → Bool) {xs ys : List α} (h : List.Forall₂ R xs ys)
    (htest : ∀ x y, R x y → test y = test x) : Option.Rel R (xs.find? test) (ys.find? test) := by
  induction h with
  | nil => exact .none
  | @cons x y xs ys hxy _ ih =>
    rw [List.find?_cons, List.find?_cons, htest x y hxy]
    cases test x
    · exact ih
    · exact .some hxy

theorem related_cases {α β : Type} {R : α → β → Prop} {x : Option α} {y : Option β} (h : Option.Rel R x y) :
    (x = none ∧ y = none) ∨ ∃ a b, x = some a ∧ y = some b ∧ R a b := by
  cases h with
  | none => exact .inl ⟨rfl, rfl⟩
  | some hab => exact .inr ⟨_, _, rfl, rfl, hab⟩

theorem Markup.Element.directive?_alike {element element' : Element}
    (h : List.Forall₂ (Attribute.Alike likeness) element.attributes element'.attributes) (name : String) :
    Option.Rel (DirectiveValue.Alike likeness) ((element.directive? name).bind (·.meaning?))
    ((element'.directive? name).bind (·.meaning?)) := by
  have hfound := find?_related (·.isDirective name) h fun attr attr' hattr => hattr.directive name
  unfold Element.directive?
  rcases related_cases hfound with ⟨hold, hnew⟩ | ⟨attr, attr', hold, hnew, hattr⟩
  · rw [hold, hnew]
    exact .none
  · rw [hold, hnew]
    exact hattr.meaning

theorem Markup.Attribute.meanings_alike {attributes attributes' : List Attribute}
    (hattributes : List.Forall₂ (Attribute.Alike likeness) attributes attributes') :
    List.Forall₂ (DirectiveValue.Alike likeness) (attributes.filterMap (·.meaning?)) (attributes'.filterMap (·.meaning?)) := by
  induction hattributes with
  | nil => exact .nil
  | cons hattr _ ih =>
    rw [List.filterMap_cons, List.filterMap_cons]
    rcases related_cases hattr.meaning with ⟨hold, hnew⟩ | ⟨value, value', hold, hnew, hvalue⟩
    · rw [hold, hnew]
      exact ih
    · rw [hold, hnew]
      exact .cons hvalue ih

theorem Component.Alike.setupScript? {component component' : Component} (h : component.Alike likeness component') :
    Option.Rel (ScriptBlock.Alike likeness) component.setupScript? component'.setupScript? :=
  find?_related _ h.scripts fun _ _ hblock => hblock.setup

theorem Component.Alike.plainScript? {component component' : Component} (h : component.Alike likeness component') :
    Option.Rel (ScriptBlock.Alike likeness) component.plainScript? component'.plainScript? :=
  find?_related _ h.scripts fun _ _ hblock => congrArg Bool.not hblock.setup

/-! ## Collecting -/

namespace ScopeTable

/-- Folding a step that keeps tables alike. -/
theorem Alike.foldl {α : Type} {step step' : ScopeTable → α → ScopeTable} (halike : old.Alike likeness.place extra new)
    (hstep : ∀ old new item, ScopeTable.Alike likeness.place extra old new →
      ScopeTable.Alike likeness.place extra (step old item) (step' new item)) (items : List α) :
    (items.foldl step old).Alike likeness.place extra (items.foldl step' new) := by
  induction items generalizing old new with
  | nil => exact halike
  | cons item rest ih => exact ih (hstep _ _ item halike)

variable (h : Harmless likeness extra)
include h

theorem Alike.collectValue (halike : old.Alike likeness.place extra new) (here : Place) {value value' : DirectiveValue}
    (hvalue : value.Alike likeness value') :
    (collectValue here old value).Alike likeness.place extra (collectValue here new value') := by
  cases hvalue with
  | expression hnode => exact halike.collect h hnode here .plain
  | handler hstatements => exact halike.collect_foldl h hstatements here .plain
  | loop => exact halike
  | slotScope => exact halike
  | invalid => exact halike

theorem Alike.openElement (halike : old.Alike likeness.place extra new) (here : Place) (kind : ScopeKind) (declared : BindingKind)
    (span span' : Span) (id : NodeId) {params params' : Script.Node} (hkind : params.kind = .params)
    (hkind' : params'.kind = .params)
    (hparams : likeness.AllAlike .params params.children params'.children) :
    (openElement here kind declared span' id params' new).1 = (openElement here kind declared span id params old).1 ∧
      (openElement here kind declared span id params old).2.Alike likeness.place extra
        (openElement here kind declared span' id params' new).2 := by
  obtain ⟨hscope, hopened⟩ := halike.openUnder span span' kind here.scope? (some id)
  unfold ScopeTable.openElement
  dsimp only
  rw [hscope]
  refine ⟨rfl, Alike.collect_params h ?_ hkind hkind' hparams _ _⟩
  exact { hopened with elementScopes := congrArg (List.cons _) hopened.elementScopes }

theorem Alike.enterElement (halike : old.Alike likeness.place extra new) (here : Place) (id : NodeId) (span span' : Span)
    {element element' : Element} (hattributes : List.Forall₂ (Attribute.Alike likeness) element.attributes element'.attributes) :
    (enterElement here new id span' element').1 = (enterElement here old id span element).1 ∧
      (enterElement here old id span element).2.Alike likeness.place extra (enterElement here new id span' element').2 := by
  have hslot := related_cases (Element.directive?_alike hattributes "slot")
  have hfor := related_cases (Element.directive?_alike hattributes "for")
  unfold ScopeTable.enterElement
  dsimp only
  -- The scope of the loop, if there is one.
  rcases hfor with ⟨hold, hnew⟩ | ⟨value, value', hold, hnew, hvalue⟩
  on_goal 2 => cases hvalue
  case' inr.loop hkind hkind' haliases hsource =>
    obtain ⟨hinner, hopened⟩ := (halike.collect h hsource { here with element := some id } .plain).openElement h
      { here with element := some id } .loop .loopAlias span span' id hkind hkind' haliases
    rw [hold, hnew]
    dsimp only
    rw [hinner]
    replace halike := hopened
  any_goals rw [hold, hnew]
  -- The scope of the slot, if there is one.
  all_goals
    rcases hslot with ⟨hold, hnew⟩ | ⟨value, value', hold, hnew, hvalue⟩
    on_goal 2 => cases hvalue
    case' inr.slotScope hkind hkind' hparams =>
      rw [hold, hnew]
      exact halike.openElement h _ .slot .slotParam span span' id hkind hkind' hparams
    all_goals
      rw [hold, hnew]
      exact ⟨rfl, halike⟩

theorem Alike.collectValues {values values' : List DirectiveValue}
    (hvalues : List.Forall₂ (DirectiveValue.Alike likeness) values values')
    (here : Place) (halike : old.Alike likeness.place extra new) :
    (values.foldl (ScopeTable.collectValue here) old).Alike likeness.place extra
      (values'.foldl (ScopeTable.collectValue here) new) := by
  induction hvalues generalizing old new with
  | nil => exact halike
  | cons hvalue _ ih => exact ih (halike.collectValue h here hvalue)

theorem Alike.collectNode {document document' : Document} (hchildren : ∀ id, document'.children id = document.children id)
    (hnodes : ∀ id, Option.Rel (fun node node' => node.kind.Alike likeness node'.kind) (document.node? id) (document'.node? id))
    (fuel : Nat) (here : Place) (halike : old.Alike likeness.place extra new) (id : NodeId) :
    (collectNode document fuel here old id).Alike likeness.place extra (collectNode document' fuel here new id) := by
  induction fuel generalizing here old new id with
  | zero => exact halike
  | succ fuel ih =>
    rw [ScopeTable.collectNode, ScopeTable.collectNode]
    rcases related_cases (hnodes id) with ⟨hold, hnew⟩ | ⟨node, node', hold, hnew, hkinds⟩
    · rw [hold, hnew]
      exact halike
    · obtain ⟨number, parent, parts, span, kind⟩ := node
      obtain ⟨number', parent', parts', span', kind'⟩ := node'
      rw [hold, hnew]
      cases hkinds with
      | root | text | comment => exact halike
      | interpolation hexpression =>
        dsimp only
        rcases related_cases hexpression with ⟨hold, hnew⟩ | ⟨node, node', hold, hnew, hnode⟩
        · rw [hold, hnew]
          exact halike
        · rw [hold, hnew]
          exact halike.collect h hnode here .plain
      | @element element element' hattributes =>
        dsimp only
        obtain ⟨hinner, hentered⟩ := halike.enterElement h here id span span' hattributes
        have hvalues := Alike.collectValues h (Attribute.meanings_alike hattributes)
          (ScopeTable.enterElement here old id span element).1
          hentered
        rw [hinner, hchildren]
        exact hvalues.foldl (fun _ _ child halike => ih _ halike child) (document.children id)

/-- The walk over components that are alike finds the same. -/
theorem Alike.gather {component component' : Component} (hcomponent : component.Alike likeness component') :
    (gather component).Alike likeness.place extra (gather component') := by
  have hempty : empty.Alike likeness.place extra empty := by
    refine ⟨⟨rfl, ?_⟩, ⟨rfl, ?_⟩, .nil, fun _ _ _ => rfl, fun _ _ _ _ => rfl, rfl, rfl, rfl, rfl⟩ <;>
      (intro id x y hx; cases hx)
  have hplain : (withPlainScript component empty).Alike likeness.place extra (withPlainScript component' empty) := by
    unfold withPlainScript
    rcases related_cases hcomponent.plainScript? with ⟨hold, hnew⟩ | ⟨block, block', hold, hnew, hblock⟩
    · rw [hold, hnew]
      exact hempty
    · rw [hold, hnew]
      obtain ⟨hscope, hopened⟩ := hempty.openUnder block.program.span block'.program.span .module none none
      dsimp only
      rw [hscope]
      refine Alike.collect_foldl h ?_ hblock.statements _ .plain
      exact { hopened with moduleScope := rfl }
  have hsetup : (withSetupScript component (withPlainScript component empty)).Alike likeness.place extra
      (withSetupScript component' (withPlainScript component' empty)) := by
    unfold withSetupScript
    rcases related_cases hcomponent.setupScript? with ⟨hold, hnew⟩ | ⟨block, block', hold, hnew, hblock⟩
    · rw [hold, hnew]
      exact hplain
    · rw [hold, hnew]
      obtain ⟨hscope, hopened⟩ := hplain.openUnder block.program.span block'.program.span .module
        (withPlainScript component empty).moduleScope none
      dsimp only
      rw [hplain.moduleScope, hscope]
      refine Alike.collect_foldl h ?_ hblock.statements _ .plain
      exact { hopened with
        scopes := hopened.scopes.modify _ (f := fun opened => { opened with setup := true }) fun scope scope' heq => by
          rw [show scope' = _ from heq]; rfl
        setupScope := rfl }
  unfold ScopeTable.gather withTemplate
  rw [hcomponent.template]
  cases component.template with
  | none => exact hsetup
  | some id =>
    obtain ⟨hscope, hopened⟩ := hsetup.openUnder (component.document.spanOf id) (component'.document.spanOf id) .template
      (withSetupScript component (withPlainScript component empty)).setupScope (some id)
    dsimp only
    rw [hsetup.setupScope, hscope, hcomponent.children, hcomponent.size]
    refine Alike.foldl ?_ (fun _ _ child halike => ?_) (component.document.children id)
    · exact { hopened with templateScope := rfl }
    · exact Alike.collectNode h hcomponent.children hcomponent.nodes _ _ halike child

end ScopeTable

/-! ## The tables -/

/-- The tables of components that are alike: what the edit adds is resolved as it would be in the first one. -/
theorem Component.Alike.ofComponent (h : ScopeTable.Harmless likeness extra) {component component' : Component}
    (hcomponent : component.Alike likeness component') :
    (ScopeTable.ofComponent component).Alike likeness.place (fun reference => ∃ added, extra added ∧
      reference = (ScopeTable.ofComponent component).settle added) (ScopeTable.ofComponent component') := by
  have hgathered := ScopeTable.Alike.gather h hcomponent
  have hresolved := hgathered.resolveAll (ScopeTable.leads_gather component).index (ScopeTable.leads_gather component').index
  have hsettle : (ScopeTable.ofComponent component).settle = (ScopeTable.gather component).settle := by
    funext reference
    have hscopes : (ScopeTable.ofComponent component).scopes = (ScopeTable.gather component).scopes := by
      rw [(ScopeTable.resolvedAll_ofComponent component).rest]
    rw [ScopeTable.settle, ScopeTable.settle, ScopeTable.resolve?_congr hscopes]
  rw [hsettle]
  exact hresolved

/-! ## Options of components that are alike -/

section Options

variable {table table' : ScopeTable} {around : Kind} {node node' : Script.Node}

theorem getElem?_related {α β : Type} {R : α → β → Prop} {xs : List α} {ys : List β} (h : List.Forall₂ R xs ys) (index : Nat) :
    Option.Rel R xs[index]? ys[index]? := by
  induction h generalizing index with
  | nil => exact .none
  | cons hxy _ ih =>
    cases index with
    | zero => exact .some hxy
    | succ index => exact ih index

/-- Only parts of properties are exchanged. -/
def Script.Likeness.InProperties (likeness : Likeness) : Prop :=
  ∀ around node leaf, likeness.exchange? around node = some leaf → around.isProperty = true

theorem Script.Likeness.Alike.same_of_kept (hkeys : likeness.InProperties) (h : likeness.Alike around node node')
    (haround : around.isProperty = false) : likeness.Same node node' := by
  rcases h.cases with ⟨leaf, hleaf, -⟩ | ⟨-, hsame⟩
  · rw [hkeys _ _ _ hleaf] at haround
    cases haround
  · exact hsame

theorem Script.Likeness.Same.unparenthesized (hkeys : likeness.InProperties) (hnode : likeness.Same node node') :
    likeness.Same node.unparenthesized node'.unparenthesized := by
  fun_induction Node.unparenthesized node generalizing node' with
  | case1 span kind inner children ih =>
    obtain ⟨span', parts, rfl, -, hparts⟩ := hnode.inv rfl
    cases hparts with | @cons _ _ part _ _ hpart hrest =>
    cases hrest
    obtain ⟨kind', inner', children'⟩ := part
    rw [Node.unparenthesized]
    exact ih (hpart.same_of_kept hkeys rfl)
  | case2 node hother =>
    have hkept : node'.unparenthesized = node' := by
      unfold Node.unparenthesized
      split
      · next span' kind' inner' children' =>
        obtain ⟨kind, span, children⟩ := node
        rcases Kind.eq_of_placeless hnode.kind with hkind | ⟨_, _, _, _, -, hmember⟩
        · obtain rfl : kind = .paren := hkind.symm
          have hparts : likeness.AllAlike .paren children [⟨kind', inner', children'⟩] := hnode.parts
          cases hparts with | @cons _ part _ _ _ _ hrest =>
          cases hrest
          obtain ⟨kind, inner, children⟩ := part
          exact (hother _ _ _ _ rfl).elim
        · cases hmember
      · rfl
    rw [hkept]
    exact hnode

/-- A member is kept as one of the same name. -/
theorem Script.Likeness.Same.member {name : String} {place : Span} {optional : Bool} {span : Span} {children : List Script.Node}
    (h : likeness.Same ⟨.member name place optional, span, children⟩ node') : ∃ place' span' children',
      node' = ⟨.member name place' optional, span', children'⟩ ∧
        likeness.AllAlike (.member name place optional) children children' := by
  obtain ⟨kind', span', children'⟩ := node'
  rcases Kind.eq_of_placeless h.kind with heq | ⟨_, _, place', _, hmember, heq⟩
  · obtain rfl : kind' = _ := heq
    exact ⟨place, span', children', rfl, h.parts⟩
  · cases hmember
    obtain rfl : kind' = _ := heq
    exact ⟨place', span', children', rfl, h.parts⟩

namespace ScopeTable.Alike

variable (h : table.Alike likeness.place (fun _ => False) table')
include h

theorem resolvedAt?_eq {span span' : Span}
    (hspan : likeness.place span span') : table'.resolvedAt? span' = table.resolvedAt? span := by
  have hpairs := h.references.forall₂ fun _ => id
  have hat : table'.referenceAt? span' = table.referenceAt? span := h.referenceSpans (fun _ => id) span span' hspan
  unfold ScopeTable.resolvedAt?
  rw [hat]
  cases table.referenceAt? span with
  | none => rfl
  | some number =>
    have hnumber := getElem?_related hpairs number
    rw [Array.getElem?_toList, Array.getElem?_toList] at hnumber
    simp only [Option.bind_eq_bind, Option.bind_some]
    rcases related_cases hnumber with ⟨hold, hnew⟩ | ⟨reference, reference', hold, hnew, -, hreference⟩
    · rw [hold, hnew]
    · rw [hold, hnew, hreference]
      rfl

theorem frameworkImport?_eq {span span' : Span} (hspan : likeness.place span span') :
    table'.frameworkImport? span' = table.frameworkImport? span := by
  unfold ScopeTable.frameworkImport?
  rw [h.resolvedAt?_eq hspan]
  cases table.resolvedAt? span with
  | none => rfl
  | some number =>
    simp only [Option.bind_eq_bind, Option.bind_some, binding?]
    rcases h.bindings.cases number with ⟨hold, hnew⟩ | ⟨binding, binding', hold, hnew, -, hbinding⟩
    · rw [hold, hnew]
    · rw [hold, hnew, hbinding]
      rfl

/-- The same function of the framework is called. -/
theorem apiName?_eq (hkeys : likeness.InProperties) (hnode : likeness.Same node node') :
    table'.apiName? node' = table.apiName? node := by
  have hinner := hnode.unparenthesized hkeys
  unfold ScopeTable.apiName?
  generalize node.unparenthesized = inner at hinner ⊢
  generalize node'.unparenthesized = inner' at hinner ⊢
  obtain ⟨kind, span, children⟩ := inner
  cases kind with
  | identifier name =>
    obtain ⟨span', children', rfl, hspan, -⟩ := hinner.inv rfl
    dsimp only
    rw [h.resolvedAt?_eq hspan, h.frameworkImport?_eq hspan]
  | member name place optional =>
    obtain ⟨place', span', children', rfl, hparts⟩ := hinner.member
    cases hparts with
    | nil => rfl
    | @cons _ object object' _ _ hobject hrest =>
      cases hrest with
      | cons => rfl
      | nil =>
        have hobject := (hobject.same_of_kept hkeys rfl).unparenthesized hkeys
        dsimp only
        generalize object.unparenthesized = inner at hobject ⊢
        generalize object'.unparenthesized = inner' at hobject ⊢
        obtain ⟨kind, span, children⟩ := inner
        cases kind with
        | identifier name =>
          obtain ⟨span', children', rfl, hspan, -⟩ := hobject.inv rfl
          dsimp only
          rw [h.frameworkImport?_eq hspan]
        | member name place optional =>
          obtain ⟨place', span', children', rfl, -⟩ := hobject.member
          rfl
        | _ =>
          obtain ⟨span', children', rfl, -, -⟩ := hobject.inv rfl
          rfl
  | _ =>
    obtain ⟨span', children', rfl, -, -⟩ := hinner.inv rfl
    rfl

/-- Statements that are alike export the same object. -/
theorem ofStatement? (hkeys : likeness.InProperties) (hstatement : likeness.Alike .absent node node') :
    Option.Rel (fun object object' => object.kind = .object ∧ likeness.Same object object') (Options.ofStatement? table node)
      (Options.ofStatement? table' node') := by
  have hsame := hstatement.same_of_kept hkeys rfl
  obtain ⟨kind, span, children⟩ := node
  cases kind with
  | exportDefault =>
    obtain ⟨span', children', rfl, -, hparts⟩ := hsame.inv rfl
    cases hparts with
    | nil => exact .none
    | @cons _ part part' _ _ hpart hrest =>
      have hpart := hpart.same_of_kept hkeys rfl
      obtain ⟨kind, place, parts⟩ := part
      cases kind with
      | object =>
        obtain ⟨place', parts', rfl, -, -⟩ := hpart.inv rfl
        cases hrest with
        | nil => exact .some ⟨rfl, hpart⟩
        | cons => exact .none
      | call optional applied =>
        obtain ⟨place', parts', rfl, -, hoperands⟩ := hpart.inv rfl
        cases hrest with
        | cons => cases hoperands <;> exact .none
        | nil =>
          cases hoperands with
          | nil => exact .none
          | @cons _ callee callee' arguments arguments' hcallee harguments =>
            have hcalled : table'.calledApi? ⟨.call optional applied, place', callee' :: arguments'⟩ ["defineComponent"] =
                table.calledApi? ⟨.call optional applied, place, callee :: arguments⟩ ["defineComponent"] := by
              unfold ScopeTable.calledApi?
              dsimp only
              rw [h.apiName?_eq hkeys (hcallee.same_of_kept hkeys rfl)]
            unfold Options.ofStatement?
            dsimp only
            rw [hcalled]
            generalize table.calledApi? ⟨.call optional applied, place, callee :: arguments⟩ ["defineComponent"] = called
            cases called with
            | none => exact .none
            | some name =>
              cases harguments with
              | nil => exact .none
              | @cons _ first first' _ _ hfirst _ =>
                have hfirst := hfirst.same_of_kept hkeys rfl
                obtain ⟨kind, place, parts⟩ := first
                cases kind with
                | object =>
                  obtain ⟨place', parts', rfl, -, -⟩ := hfirst.inv rfl
                  exact .some ⟨rfl, hfirst⟩
                | member name nameSpan optional =>
                  obtain ⟨nameSpan', place', parts', rfl, -⟩ := hfirst.member
                  exact .none
                | _ =>
                  obtain ⟨place', parts', rfl, -, -⟩ := hfirst.inv rfl
                  exact .none
      | member name nameSpan optional =>
        obtain ⟨nameSpan', place', parts', rfl, -⟩ := hpart.member
        cases hrest <;> exact .none
      | _ =>
        obtain ⟨place', parts', rfl, -, -⟩ := hpart.inv rfl
        cases hrest <;> exact .none
  | member name nameSpan optional =>
    obtain ⟨nameSpan', place', parts', rfl, -⟩ := hsame.member
    exact .none
  | _ =>
    obtain ⟨span', children', rfl, -, -⟩ := hsame.inv rfl
    exact .none

/-- Blocks that are alike export the same object. -/
theorem ofBlock? (hkeys : likeness.InProperties) {block block' : ScriptBlock} (hblock : block.Alike likeness block') :
    Option.Rel (fun object object' => object.kind = .object ∧ likeness.Same object object') (Options.ofBlock? table block)
      (Options.ofBlock? table' block') := by
  have hstatements := hblock.statements
  unfold Options.ofBlock?
  generalize block.statements = statements at hstatements ⊢
  generalize block'.statements = statements' at hstatements ⊢
  induction statements generalizing statements' with
  | nil =>
    cases hstatements
    exact .none
  | cons statement rest ih =>
    cases hstatements with | cons hstatement hrest =>
    rw [List.findSome?_cons, List.findSome?_cons]
    rcases related_cases (h.ofStatement? hkeys hstatement) with ⟨hold, hnew⟩ | ⟨object, object', hold, hnew, hobject⟩
    · rw [hold, hnew]
      exact ih _ hrest
    · rw [hold, hnew]
      exact .some hobject

end ScopeTable.Alike

end Options

/-- The options of components that are alike are given by the same object, if only parts of properties are exchanged. -/
theorem Component.Alike.options? (hkeys : likeness.InProperties) {component component' : Component}
    (h : component.Alike likeness component')
    {table table' : ScopeTable} (htable : table.Alike likeness.place (fun _ => False) table') :
    Option.Rel (fun object object' => object.kind = .object ∧ likeness.Same object object')
      (component.plainScript?.bind (Options.ofBlock? table)) (component'.plainScript?.bind (Options.ofBlock? table')) := by
  rcases related_cases h.plainScript? with ⟨hold, hnew⟩ | ⟨block, block', hold, hnew, hblock⟩
  · rw [hold, hnew]
    exact .none
  · rw [hold, hnew]
    exact htable.ofBlock? hkeys hblock

end ComponentLint
