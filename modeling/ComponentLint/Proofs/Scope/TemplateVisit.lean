import ComponentLint.Proofs.Scope.TemplateWalk

/-!
# Visiting the nodes of a template

One visit of a node keeps all that is known of the nodes before it (`Walked`). An element is entered in stages: the source of its
loop is read outside, the scope of the loop is opened, and then that of its slot parameters (`Entering`). What is under it follows
by induction on the depth, child after child.
-/

namespace ComponentLint.ScopeTable

open Markup

variable {document : Document} {stack : List Nat} {seen : NodeId → Prop} {id parent : NodeId}

/-! ## Opening the scope of an element -/

/-- What opening a scope of an element and declaring its names there does. -/
structure Opens (document : Document) (Q : Script.Node → Prop) (id : NodeId) (old : ScopeTable)
    (result : Place × ScopeTable) : Prop where
  place : result.1.At document result.2 id
  element : result.1.element = some id
  nested : result.2.WellScoped
  grows : Grows id old result.2
  elementScopes : ∀ entry ∈ result.2.elementScopes, entry ∈ old.elementScopes ∨ entry.1 = id
  bindings : ∀ binding ∈ result.2.bindings, binding ∈ old.bindings ∨ ∀ node ∈ binding.node, node = id
  /-- What the names use is below the opened scope. -/
  references : ∀ reference ∈ result.2.references, reference ∈ old.references ∨
    ((∃ node, Q node ∧ reference.span = node.span) ∧ Visible document result.2 reference.scope id)

theorem opens_openElement (hshape : Shaped document.nodes stack) {place : Place} {table : ScopeTable}
    (hscoped : table.WellScoped) (hplace : place.At document table id) (helement : place.element = some id)
    (kind : ScopeKind) (declared : BindingKind) (span : Span) {Q : Script.Node → Prop}
    (hQ : ∀ node, Q node → ∀ part ∈ node.children, Q part) {params : Script.Node} (hkind : params.kind = .params)
    (hparts : ∀ part ∈ params.children, Q part) :
    Opens document Q id table (openElement place kind declared span id params table) := by
  have hreaches := reaches_openElement hplace.within kind declared span id params
  revert hreaches
  unfold openElement
  split
  next scope opened hopen =>
  extract_lets noted inner
  intro hreaches
  obtain ⟨hnext, _, hkeeps, hbindings, hreferences, helements, htemplate⟩ := openUnder_spec hopen
  have hadds := (collected_params hQ (inner.declares declared scope) .plain noted hkind hparts).adds
  have hnoted : noted.elementScopes = (id, scope) :: table.elementScopes := by
    rw [← helements]
  generalize collect (inner.declares declared scope) .plain noted params = new at hreaches hadds
  have hscope : new.scopeOf? document id = some scope := by
    rw [scopeOf?_eq hshape, elementScope?, hadds.elementScopes, hnoted]
    simp
  -- The names of the element are declared in the scope that was opened last.
  have hnames : ∀ binding ∈ new.bindings, binding ∈ table.bindings ∨
      ∀ node ∈ binding.node, node = id ∧ table.scopes.size ≤ binding.scope := by
    intro binding hbinding
    rcases hadds.bindings binding hbinding with hold | hnone | ⟨_, _, hdeclaring, hnode⟩
    · exact .inl (hbindings ▸ hold)
    · rw [hnone]
      exact .inr (by simp)
    · have hhome : scope = binding.scope := congrArg Prod.snd (Option.some.inj hdeclaring)
      rw [hnode, show (inner.declares declared scope).element = some id from helement, ← hhome, hnext]
      exact .inr fun node hnode => ⟨(Option.some.inj hnode).symm, Nat.le_refl _⟩
  refine ⟨⟨⟨scope, rfl, hscope⟩, hplace.declaring, hplace.inTemplate, hreaches.within⟩, helement, hreaches.leads.kept hscoped,
    ⟨hkeeps.trans hadds.scopes, hadds.templateScope.trans htemplate,
      ⟨[(id, scope)], hadds.elementScopes.trans hnoted, ?_⟩, ?_⟩, ?_, ?_, ?_⟩
  · intro entry hentry
    exact Nat.le_of_eq (congrArg Prod.fst (List.mem_singleton.1 hentry)).symm
  · intro binding hbinding
    exact (hnames binding hbinding).imp_right fun hnew node hnode => ⟨Nat.le_of_eq (hnew node hnode).1.symm, (hnew node hnode).2⟩
  · intro entry hentry
    rw [hadds.elementScopes, hnoted] at hentry
    rcases List.mem_cons.1 hentry with rfl | hold
    · exact .inr rfl
    · exact .inl hold
  · intro binding hbinding
    exact (hnames binding hbinding).imp_right fun hnew node hnode => (hnew node hnode).1
  · intro reference hreference
    rcases hadds.references reference hreference with hold | ⟨hspan, _, hbelow⟩
    · exact .inl (hreferences ▸ hold)
    · exact .inr ⟨hspan, scope, hscope, hbelow scope rfl⟩

/-! ## Entering an element -/

/-- The scopes of an element are being opened: what was recorded at nodes seen before stays, and at the element itself only
references of its loop have been recorded. -/
structure Entering (document : Document) (seen : NodeId → Prop) (id : NodeId) (old : ScopeTable)
    (result : Place × ScopeTable) : Prop where
  place : result.1.At document result.2 id
  element : result.1.element = some id
  nested : result.2.WellScoped
  grows : Grows id old result.2
  elementScopes : ∀ entry ∈ result.2.elementScopes, seen entry.1 ∨ entry.1 = id
  bindings : ∀ binding ∈ result.2.bindings, ∀ node ∈ binding.node, seen node ∨ node = id
  references : ∀ reference ∈ result.2.references, reference.inTemplate = true →
    (∃ other, seen other ∧ Recorded document result.2 reference other) ∨ InLoop document result.2 reference id

/-- All scopes of an element are open. -/
structure Entered (document : Document) (seen : NodeId → Prop) (id : NodeId) (old : ScopeTable)
    (result : Place × ScopeTable) : Prop where
  place : result.1.At document result.2 id
  nested : result.2.WellScoped
  grows : Grows id old result.2
  walked : Walked document (fun other => seen other ∨ other = id) result.2

namespace Entering

variable {place : Place} {old table : ScopeTable} {result : Place × ScopeTable}

/-- Before its scopes are opened, an element is where its parent is. -/
theorem start (hshape : Shaped document.nodes stack) (hwalked : Walked document seen table) (hscoped : table.WellScoped)
    (hplace : place.At document table parent) (hparent : document.parent? id = some parent) (hseen : ¬ seen id) :
    Entering document seen id table ({ place with element := some id }, table) := by
  have hhere := hplace.ofParent hshape hparent (hwalked.elementScope?_eq_none hseen)
  refine ⟨⟨hhere.scope, hhere.declaring, hhere.inTemplate, ⟨hhere.within.stack, hhere.within.declaring⟩⟩, rfl, hscoped,
    .refl id table, fun entry hentry => .inl (hwalked.elementScopes entry hentry),
    fun binding hbinding node hnode => .inl (hwalked.bindings binding hbinding node hnode), ?_⟩
  exact fun reference hreference htemplate => .inl (hwalked.references reference hreference htemplate)

/-- What was recorded before stays while the element is entered. -/
theorem kept (hshape : Shaped document.nodes stack) (h : Entering document seen id old (place, table))
    (hseen : ∀ other, seen other → other < id) {new : ScopeTable} (hgrows : Grows id table new) {reference : Reference}
    (hreference : reference ∈ table.references) (htemplate : reference.inTemplate = true) :
    (∃ other, seen other ∧ Recorded document new reference other) ∨ InLoop document new reference id := by
  have hscope := h.nested.references reference hreference
  rcases h.references reference hreference htemplate with ⟨other, hother, hrecorded⟩ | hloop
  · exact .inl ⟨other, hother, hrecorded.grow hshape hgrows (hseen other hother) hscope⟩
  · exact .inr (hloop.grow hshape hgrows (Nat.le_refl id) hscope)

/-- The source of a loop is read where the parent is, before the element declares anything. -/
theorem source (hshape : Shaped document.nodes stack) (h : Entering document seen id old (place, table))
    (hseen : ∀ other, seen other → other < id) (hparent : document.parent? id = some parent)
    (hplace : place.At document table parent) (hfresh : ∀ binding ∈ table.bindings, binding.node ≠ some id)
    {new : ScopeTable} {Q : Script.Node → Prop} (hsteps : Collected Q place table new) {attr : Attribute}
    {value : AttributeValue} (hfor : attr.isDirective "for" = true)
    (hQ : ∀ node, Q node → document.RunsIn id attr value node.span) : Entering document seen id old (place, new) := by
  have hadds := hsteps.adds
  have hgrows := hadds.grows hplace.declaring id
  have hbindings := hadds.bindings_plain hplace.declaring
  refine ⟨h.place.adds hadds, h.element, (hsteps.leads hplace.within).kept h.nested, h.grows.trans hgrows,
    fun entry hentry => ?_, fun binding hbinding node hnode => ?_, fun reference hreference htemplate => ?_⟩
  · rw [hadds.elementScopes] at hentry
    exact h.elementScopes entry hentry
  · rcases hbindings binding hbinding with hold | hnone
    · exact h.bindings binding hold node hnode
    · rw [hnone] at hnode
      cases hnode
  · rcases hadds.references reference hreference with hold | ⟨⟨node, hnode, hspan⟩, _, hbelow⟩
    · exact h.kept hshape hseen hgrows hold htemplate
    · refine .inr (.source (hspan ▸ hQ node hnode) hfor hparent (hplace.visible hadds hbelow) fun binding hbinding hnode => ?_)
      rcases hbindings binding hbinding with hold | hnone
      · exact absurd hnode (hfresh binding hold)
      · rw [hnone] at hnode
        cases hnode

/-- When a scope is opened, scopes and names are added for the element only. -/
theorem opened (h : Entering document seen id old (place, table)) {Q : Script.Node → Prop}
    (hopens : Opens document Q id table result) : (∀ entry ∈ result.2.elementScopes, seen entry.1 ∨ entry.1 = id) ∧
      ∀ binding ∈ result.2.bindings, ∀ node ∈ binding.node, seen node ∨ node = id := by
  refine ⟨fun entry hentry => ?_, fun binding hbinding node hnode => ?_⟩
  · rcases hopens.elementScopes entry hentry with hold | hnew
    · exact h.elementScopes entry hold
    · exact .inr hnew
  · rcases hopens.bindings binding hbinding with hold | hnew
    · exact h.bindings binding hold node hnode
    · exact .inr (hnew node hnode)

/-- The scope of the loop is opened; what its aliases use is no more than recorded. -/
theorem aliases (hshape : Shaped document.nodes stack) (h : Entering document seen id old (place, table))
    (hseen : ∀ other, seen other → other < id) {Q : Script.Node → Prop} (hopens : Opens document Q id table result)
    {attr : Attribute} {value : AttributeValue} {split : Nat × LoopWord × Nat} (hfor : attr.isDirective "for" = true)
    (hsplit : Fragment.splitLoop? value.raw.toList = some split)
    (hQ : ∀ node, Q node → document.RunsIn id attr value node.span ∧ node.span.stop ≤ value.valueSpan.start + split.1) :
    Entering document seen id old result := by
  obtain ⟨helements, hbindings⟩ := h.opened hopens
  refine ⟨hopens.place, hopens.element, hopens.nested, h.grows.trans hopens.grows, helements, hbindings, ?_⟩
  intro reference hreference htemplate
  rcases hopens.references reference hreference with hold | ⟨⟨node, hnode, hspan⟩, _⟩
  · exact h.kept hshape hseen hopens.grows hold htemplate
  · obtain ⟨hruns, hstop⟩ := hQ node hnode
    exact .inr (.aliases (hspan ▸ hruns) hfor hsplit (hspan ▸ hstop))

/-- The scope of the slot parameters is opened last, so what they use sees what the element sees. -/
theorem params (hshape : Shaped document.nodes stack) (h : Entering document seen id old (place, table))
    (hseen : ∀ other, seen other → other < id) {Q : Script.Node → Prop} (hopens : Opens document Q id table result)
    (hQ : ∀ node, Q node → RunsHere document id node.span) : Entered document seen id old result := by
  obtain ⟨helements, hbindings⟩ := h.opened hopens
  refine ⟨hopens.place, hopens.nested, h.grows.trans hopens.grows, helements, hbindings, ?_⟩
  intro reference hreference htemplate
  rcases hopens.references reference hreference with hold | ⟨⟨node, hnode, hspan⟩, hvisible⟩
  · rcases h.kept hshape hseen hopens.grows hold htemplate with ⟨other, hother, hrecorded⟩ | hloop
    · exact ⟨other, .inl hother, hrecorded⟩
    · exact ⟨id, .inr rfl, .loop hloop⟩
  · exact ⟨id, .inr rfl, .here (hspan ▸ hQ node hnode) hvisible⟩

/-- An element without slot parameters has no more scopes to open. -/
theorem entered (h : Entering document seen id old result) : Entered document seen id old result := by
  refine ⟨h.place, h.nested, h.grows, h.elementScopes, h.bindings, fun reference hreference htemplate => ?_⟩
  rcases h.references reference hreference htemplate with ⟨other, hother, hrecorded⟩ | hloop
  · exact ⟨other, .inl hother, hrecorded⟩
  · exact ⟨id, .inr rfl, .loop hloop⟩

end Entering

/-- Collecting script that runs in the scope of the element. -/
theorem Entered.collected (hshape : Shaped document.nodes stack) {place : Place} {old table new : ScopeTable}
    (h : Entered document seen id old (place, table)) {Q : Script.Node → Prop}
    (hQ : ∀ node, Q node → RunsHere document id node.span) (hsteps : Collected Q place table new) :
    Entered document seen id old (place, new) := by
  have hadds := hsteps.adds
  exact ⟨h.place.adds hadds, (hsteps.leads h.place.within).kept h.nested, h.grows.trans (hadds.grows h.place.declaring id),
    h.walked.collected hshape h.nested (.inr rfl) h.place hQ hsteps⟩

/-- What a directive of a name says is the value of an attribute. -/
theorem exists_of_directive? {element : Element} {name : String} {meaning : DirectiveValue}
    (h : (element.directive? name).bind (·.meaning?) = some meaning) : ∃ attr value, attr ∈ element.attributes ∧
      attr.isDirective name = true ∧ attr.value = some value ∧ value.meaning = some meaning := by
  obtain ⟨attr, hattr, hmeaning⟩ := Option.bind_eq_some_iff.1 h
  obtain ⟨value, hvalue, hmeaning⟩ := Option.bind_eq_some_iff.1 hmeaning
  have hfound : element.attributes.find? (·.isDirective name) = some attr := hattr
  have hnamed := List.find?_some hfound
  exact ⟨attr, value, List.mem_of_find?_eq_some hfound, hnamed, hvalue, hmeaning⟩

/-- What lies in the text of a value that is not a loop runs in the scope of the element. -/
theorem runsHere_of_value {element : Element} (helement : document.element? id = some element) {attr : Attribute}
    (hattr : attr ∈ element.attributes) {value : AttributeValue} (hvalue : attr.value = some value)
    (hloop : ∀ aliases source word, value.meaning ≠ some (.loop aliases source word)) {node : Script.Node}
    (hnode : node.Between value.valueSpan.start value.valueSpan.stop) : RunsHere document id node.span :=
  .inr ⟨attr, value, ⟨⟨element, helement, hattr⟩, hvalue, hnode.span⟩, hloop⟩

section Visiting

variable (hlaid : document.Laid)
include hlaid

/-- The meaning of a value lies in its text. -/
theorem meaning_between {element : Element} (helement : document.element? id = some element) {attr : Attribute}
    (hattr : attr ∈ element.attributes) {value : AttributeValue} (hvalue : attr.value = some value) {meaning : DirectiveValue}
    (hmeaning : value.meaning = some meaning) :
    meaning.Between value.raw.toList value.valueSpan.start value.valueSpan.stop := by
  obtain ⟨node, hnode, hkind⟩ := Document.element?_eq_some_iff.1 helement
  have hlie := hlaid.fragments node (Array.mem_of_getElem? hnode)
  rw [hkind] at hlie
  exact hlie attr hattr value hvalue meaning hmeaning

theorem entered_enterElement {element : Element} (helement : document.element? id = some element)
    (hparent : document.parent? id = some parent) {place : Place} {table : ScopeTable}
    (hplace : place.At document table parent) (hscoped : table.WellScoped) (hwalked : Walked document seen table)
    (hseen : ∀ other, seen other → other < id) (span : Span) :
    Entered document seen id table (enterElement place table id span element) := by
  have hshape := hlaid.standing.shaped
  have hnot : ¬ seen id := fun hid => Nat.lt_irrefl id (hseen id hid)
  unfold enterElement
  extract_lets outer
  have hstart : Entering document seen id table (outer, table) := .start hshape hwalked hscoped hplace hparent hnot
  split
  next inner looped hlooped =>
  have hloop : Entering document seen id table (inner, looped) := by
    rw [← hlooped]
    split
    · next aliases source word hmeaning =>
      obtain ⟨attr, value, hattr, hfor, hvalue, hmeaning⟩ := exists_of_directive? hmeaning
      obtain ⟨split, hsplit, hlt, hparams, haliases, hsource⟩ := hlaid.loop_split helement hattr hvalue hmeaning
      have houter : outer.At document table parent :=
        ⟨hplace.scope, hplace.declaring, hplace.inTemplate, hplace.within.stack, hplace.within.declaring⟩
      have hfresh : ∀ binding ∈ table.bindings, binding.node ≠ some id :=
        fun binding hbinding hnode => hnot (hwalked.bindings binding hbinding id hnode)
      have hruns : ∀ node : Script.Node, node.Between (value.valueSpan.start + split.2.2) value.valueSpan.stop →
          document.RunsIn id attr value node.span := by
        intro node hnode
        obtain ⟨hfirst, hordered, hlast⟩ := hnode.span
        exact ⟨⟨element, helement, hattr⟩, hvalue, by omega, hordered, hlast⟩
      have hread := hstart.source hshape hseen hparent houter hfresh
        (collected_collect (fun _ hbetween => hbetween.parts) outer .plain table hsource) hfor hruns
      have hopens := opens_openElement hshape hread.nested hread.place hread.element .loop .loopAlias span
        (fun _ hbetween => hbetween.parts) hparams haliases
      refine hread.aliases hshape hseen hopens hfor hsplit fun node hnode => ?_
      obtain ⟨hfirst, hordered, hlast⟩ := hnode.span
      obtain ⟨hsourceFirst, hsourceOrdered, hsourceLast⟩ := hsource.span
      exact ⟨⟨⟨element, helement, hattr⟩, hvalue, hfirst, hordered, by omega⟩, hlast⟩
    · exact hstart
  split
  · next params hmeaning =>
    obtain ⟨attr, value, hattr, _, hvalue, hmeaning⟩ := exists_of_directive? hmeaning
    obtain ⟨hkind, hparts⟩ := meaning_between hlaid helement hattr hvalue hmeaning
    have hopens := opens_openElement hshape hloop.nested hloop.place hloop.element .slot .slotParam span
      (fun _ hbetween => hbetween.parts) hkind hparts
    refine hloop.params hshape hseen hopens fun node hnode => runsHere_of_value helement hattr hvalue ?_ hnode
    simp [hmeaning]
  · exact hloop.entered

/-- The values of an element are collected in its innermost scope. -/
theorem Entered.values {element : Element} (helement : document.element? id = some element) {place : Place}
    {old table : ScopeTable} (h : Entered document seen id old (place, table)) :
    Entered document seen id old (place, (element.attributes.filterMap (·.meaning?)).foldl (collectValue place) table) := by
  have hshape := hlaid.standing.shaped
  have hvalues : ∀ meaning ∈ element.attributes.filterMap (·.meaning?), ∀ table,
      Entered document seen id old (place, table) → Entered document seen id old (place, collectValue place table meaning) := by
    intro meaning hmem table htable
    obtain ⟨attr, hattr, hmeaning⟩ := List.mem_filterMap.1 hmem
    obtain ⟨value, hvalue, hmeaning⟩ := Option.bind_eq_some_iff.1 hmeaning
    have hbetween := meaning_between hlaid helement hattr hvalue hmeaning
    unfold collectValue
    split
    · refine htable.collected hshape (fun node hnode => runsHere_of_value helement hattr hvalue ?_ hnode)
        (collected_collect (fun _ hbetween => hbetween.parts) place .plain table hbetween)
      simp [hmeaning]
    · refine htable.collected hshape (fun node hnode => runsHere_of_value helement hattr hvalue ?_ hnode)
        (collected_foldl (fun _ hbetween => hbetween.parts) place .plain table hbetween)
      simp [hmeaning]
    · exact htable
  generalize element.attributes.filterMap (·.meaning?) = meanings at hvalues
  induction meanings generalizing table with
  | nil => exact h
  | cons meaning rest ih =>
    obtain ⟨hfirst, hrest⟩ := List.forall_mem_cons.1 hvalues
    exact ih (hfirst table h) hrest

/-! ## Visiting a node and what is under it -/

omit hlaid in
/-- Children are visited one after the other, each with what is under it. -/
theorem walked_children (hshape : Shaped document.nodes stack) {fuel : Nat} {place : Place}
    (hstep : ∀ (child : NodeId) (seen : NodeId → Prop) (table : ScopeTable), document.parent? child = some id →
      place.At document table id → table.WellScoped → Walked document seen table → (∀ other, seen other → other < child) →
      Walked document (fun other => seen other ∨ Above document.nodes child other) (collectNode document fuel place table child) ∧
        Grows child table (collectNode document fuel place table child)) {table : ScopeTable}
    (hplace : place.At document table id) (hscoped : table.WellScoped) (hwalked : Walked document seen table)
    {children : List NodeId} (hchildren : ∀ child ∈ children, document.parent? child = some id)
    (hsorted : children.Pairwise fun a b : Nat => a < b) (hseen : ∀ child ∈ children, ∀ other, seen other → other < child) :
    Walked document (fun other => seen other ∨ ∃ child ∈ children, Above document.nodes child other)
        (children.foldl (collectNode document fuel place) table) ∧
      Grows (id + 1) table (children.foldl (collectNode document fuel place) table) := by
  induction children generalizing table seen with
  | nil => exact ⟨hwalked.mono fun other hother => .inl hother, .refl _ _⟩
  | cons child rest ih =>
    obtain ⟨hchild, hrest⟩ := List.forall_mem_cons.1 hchildren
    obtain ⟨hbefore, hsorted⟩ := List.pairwise_cons.1 hsorted
    obtain ⟨hseenChild, hseenRest⟩ := List.forall_mem_cons.1 hseen
    have hlt := (hshape.parentOf_lt hchild).1
    obtain ⟨hvisited, hgrows⟩ := hstep child seen table hchild hplace hscoped hwalked hseenChild
    have hscoped' := (leads_collectNode document fuel hplace.within child).kept hscoped
    obtain ⟨hall, hgrown⟩ := ih (hplace.grow hshape hgrows hlt) hscoped' hvisited hrest hsorted
      fun later hlater other hother => by
      rcases hother with hother | habove
      · exact hseenRest later hlater other hother
      · have hsize : other < document.nodes.size := by
          cases habove with
          | refl => exact (hshape.parentOf_lt hchild).2
          | step hparent _ => exact (hshape.parentOf_lt hparent).2
        exact hshape.lt_of_children hchild (hrest later hlater) (hbefore later hlater) habove hsize
    refine ⟨hall.mono fun other hother => ?_, (hgrows.mono hlt).trans hgrown⟩
    rcases hother with (hother | habove) | ⟨later, hlater, habove⟩
    · exact .inl hother
    · exact .inr ⟨child, List.mem_cons_self, habove⟩
    · exact .inr ⟨later, List.mem_cons_of_mem _ hlater, habove⟩

/-- One visit of a node and of what is under it. -/
theorem walked_collectNode (fuel : Nat) {place : Place} {table : ScopeTable} (hparent : document.parent? id = some parent)
    (hplace : place.At document table parent) (hscoped : table.WellScoped) (hwalked : Walked document seen table)
    (hseen : ∀ other, seen other → other < id) :
    Walked document (fun other => seen other ∨ Above document.nodes id other) (collectNode document fuel place table id) ∧
      Grows id table (collectNode document fuel place table id) := by
  have hshape := hlaid.standing.shaped
  induction fuel generalizing place table id parent seen with
  | zero => exact ⟨hwalked.mono fun other hother => .inl hother, .refl id table⟩
  | succ fuel ih =>
    have hnot : ¬ seen id := fun hid => Nat.lt_irrefl id (hseen id hid)
    have hstay : Walked document (fun other => seen other ∨ Above document.nodes id other) table :=
      hwalked.mono fun other hother => .inl hother
    unfold collectNode
    split
    · next content hnode =>
      split
      · next expression hexpression =>
        have hlie := hlaid.fragments _ (Array.mem_of_getElem? hnode) expression hexpression
        have hsteps := collected_collect (fun _ hbetween => Script.Node.Between.parts hbetween) place .plain table hlie
        have hhere := hplace.ofParent hshape hparent (hwalked.elementScope?_eq_none hnot)
        refine ⟨hstay.collected hshape hscoped (.inr .refl) hhere (fun node hbetween => .inl ?_) hsteps,
          hsteps.adds.grows hplace.declaring id⟩
        exact ⟨_, content, hnode, rfl, hbetween.span⟩
      · exact ⟨hstay, .refl id table⟩
    · next span element hnode =>
      have helement : document.element? id = some element := by
        rw [Document.element?, hnode]
      have hentered := entered_enterElement hlaid helement hparent hplace hscoped hwalked hseen span
      generalize enterElement place table id span element = result at hentered ⊢
      obtain ⟨inner, entered⟩ := result
      have hvalues := hentered.values hlaid helement
      have hchildren : ∀ child ∈ document.children id, document.parent? child = some id :=
        fun child hchild => hshape.mem_children.1 hchild
      obtain ⟨hall, hgrown⟩ := walked_children hshape (fun child seen table hchild hat hnested hbefore hless =>
        ih hchild hat hnested hbefore hless) hvalues.place hvalues.nested hvalues.walked hchildren
        (hshape.pairwise_children id) fun child hchild other hother => by
          have hlt := (hshape.parentOf_lt (hchildren child hchild)).1
          rcases hother with hother | rfl
          · exact Nat.lt_trans (hseen other hother) hlt
          · exact hlt
      refine ⟨hall.mono fun other hother => ?_, hvalues.grows.trans (hgrown.mono (Nat.le_succ id))⟩
      rcases hother with (hother | rfl) | ⟨child, hchild, habove⟩
      · exact .inl hother
      · exact .inr .refl
      · exact .inr ((Above.step (hchildren child hchild) .refl).trans habove)
    · exact ⟨hstay, .refl id table⟩

end Visiting

/-! ## The component -/

section Component

variable {table : ScopeTable}

/-- Scripts record nothing for the template. -/
theorem Walked.collectScript (h : Walked document (fun _ => False) table) (scope : Nat) (block : ScriptBlock) :
    Walked document (fun _ => False) (collectScript table scope block) := by
  have hsteps : Collected (fun _ => True) ⟨[scope], none, false, none⟩ table (ScopeTable.collectScript table scope block) :=
    collected_foldl (fun _ _ _ _ => trivial) _ .plain table fun _ _ => trivial
  have hadds := hsteps.adds
  refine ⟨fun entry hentry => ?_, fun binding hbinding node hnode => ?_, fun reference hreference htemplate => ?_⟩
  · rw [hadds.elementScopes] at hentry
    exact h.elementScopes entry hentry
  · rcases hadds.bindings_plain rfl binding hbinding with hold | hnone
    · exact h.bindings binding hold node hnode
    · rw [hnone] at hnode
      cases hnode
  · rcases hadds.references reference hreference with hold | ⟨_, hplain, _⟩
    · obtain ⟨_, hnever, _⟩ := h.references reference hold htemplate
      exact hnever.elim
    · rw [hplain] at htemplate
      cases htemplate

/-- Only the elements, bindings and references of a table tell what was recorded for the template. -/
theorem Walked.of_eq {new : ScopeTable} (h : Walked document (fun _ => False) table)
    (hbindings : new.bindings = table.bindings) (hreferences : new.references = table.references)
    (helements : new.elementScopes = table.elementScopes) : Walked document (fun _ => False) new := by
  refine ⟨helements ▸ h.elementScopes, hbindings ▸ h.bindings, fun reference hreference htemplate => ?_⟩
  obtain ⟨_, hnever, _⟩ := h.references reference (hreferences ▸ hreference) htemplate
  exact hnever.elim

theorem walked_scripts (document : Document) (component : Component) :
    Walked document (fun _ => False) (withSetupScript component (withPlainScript component empty)) := by
  have hempty : Walked document (fun _ => False) empty := ⟨nofun, by simp [empty], by simp [empty]⟩
  have hplain : Walked document (fun _ => False) (withPlainScript component empty) := by
    unfold withPlainScript
    split
    · split
      next scope opened hopen =>
      obtain ⟨_, _, _, hbindings, hreferences, helements, _⟩ := openUnder_spec hopen
      refine Walked.collectScript ?_ _ _
      exact hempty.of_eq hbindings hreferences helements
    · exact hempty
  unfold withSetupScript
  split
  · split
    next scope opened hopen =>
    obtain ⟨_, _, _, hbindings, hreferences, helements, _⟩ := openUnder_spec hopen
    refine Walked.collectScript ?_ _ _
    exact hplain.of_eq hbindings hreferences helements
  · exact hplain

/-- What the walk over a component finds is walked: every reference in the template was recorded at a node. -/
theorem walked_gather {component : Component} (hlaid : component.document.Laid) :
    ∃ seen, Walked component.document seen (gather component) := by
  have hshape := hlaid.standing.shaped
  have hscripts := walked_scripts component.document component
  have hplain := (leads_withPlainScript empty component).kept wellScoped_empty
  have hscoped := (hplain.leads_withSetupScript component).kept hplain
  unfold gather
  generalize withSetupScript component (withPlainScript component empty) = table at hscripts hscoped ⊢
  unfold withTemplate
  split
  · next id _ =>
    extract_lets document
    split
    next scope opened hopen =>
    extract_lets noted
    obtain ⟨_, _, _, hbindings, hreferences, helements, _⟩ := openUnder_spec hopen
    obtain ⟨hopened, hscope⟩ := leads_openUnder hscoped.setupScope hopen
    have hnested := hopened.kept hscoped
    have hwalked : Walked document (fun _ => False) noted := hscripts.of_eq hbindings hreferences helements
    -- No element has a scope yet, so at every node the scope of the template is in effect.
    have hnone : noted.elementScopes = [] := by
      refine List.eq_nil_iff_forall_not_mem.2 fun entry hentry => ?_
      exact hwalked.elementScopes entry hentry
    have hat : Place.At document noted id ⟨[scope], none, true, none⟩ := by
      refine ⟨⟨scope, rfl, ?_⟩, rfl, rfl, within_alone hscope true⟩
      have hfound : (id :: document.ancestors id).findSome? (fun id => (noted.elementScopes.find? (·.1 == id)).map (·.2)) =
          none := List.findSome?_eq_none_iff.2 (by simp [hnone])
      rw [scopeOf?, hfound]
    exact ⟨_, (walked_children hshape (fun child seen table hchild hplace hscoped hwalked hseen =>
      walked_collectNode hlaid document.size hchild hplace hscoped hwalked hseen) hat
      ⟨hnested.parents, hnested.bindings, hnested.references, hnested.moduleScope, hnested.setupScope, hnested.names⟩ hwalked
      (fun child hchild => hshape.mem_children.1 hchild) (hshape.pairwise_children id) fun _ _ _ hnever => hnever.elim).1⟩
  · exact ⟨_, hscripts⟩

end Component

end ComponentLint.ScopeTable
