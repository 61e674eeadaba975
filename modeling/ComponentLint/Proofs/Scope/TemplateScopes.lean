import ComponentLint.Script.Parser
import ComponentLint.Proofs.Scope.TemplateVisit
import ComponentLint.Proofs.Scope.Resolution

/-!
# The scopes of a template

What is visible at a place of a template is decided twice: by the scopes that are open when the walk records a reference, and by
the search upwards from a node that rules use later. `parse_scopesAgree` says that the two coincide: from the scope of a reference
the scope found at its node is reached through functions, blocks and catch clauses only, and the source of a loop sees what the
parent of its element sees.
-/

namespace ComponentLint

open Markup

namespace ScopeTable

variable {languages : Script.Languages}

/-- The scope in effect at a node is on the chain of a scope, and the scopes before it there are functions, blocks or catch
clauses. -/
def ReachesNode (table : ScopeTable) (document : Document) (inner : Nat) (id : NodeId) : Prop :=
  ∃ scope below above, table.scopeOf? document id = some scope ∧ table.chain inner = below ++ scope :: above ∧
    ∀ other ∈ below, ∃ found, table.scopes[other]? = some found ∧ InnerScript found.kind

/-- The scopes of a template agree with the search upwards, for all references of the template: those in an interpolation, those
in the value of an attribute that is not a loop, and those in the source of a loop, which never stand for a name that the element
of the loop declares. -/
structure AgreesWith (table : ScopeTable) (document : Document) : Prop where
  interpolation : ∀ reference ∈ table.references, reference.inTemplate = true → ∀ id node content,
    document.node? id = some node → node.kind = .interpolation content → reference.span.Within node.span →
    table.ReachesNode document reference.scope id
  value : ∀ reference ∈ table.references, reference.inTemplate = true → ∀ id element,
    document.element? id = some element → ∀ attr ∈ element.attributes, attr.isDirective "for" = false → ∀ value,
    attr.value = some value → reference.span.Within value.span → table.ReachesNode document reference.scope id
  source : ∀ reference ∈ table.references, reference.inTemplate = true → ∀ id element,
    document.element? id = some element → ∀ attr ∈ element.attributes, attr.isDirective "for" = true →
    ∀ aliases source word, attr.meaning? = some (.loop aliases source word) → reference.span.Within source.span →
    (∃ parent, document.parent? id = some parent ∧ table.ReachesNode document reference.scope parent) ∧
      ∀ target binding, reference.resolved = some target → table.binding? target = some binding → binding.node ≠ some id

variable {table : ScopeTable} {document : Document}

/-- The scopes up to one below which only scopes of scripts lie. -/
theorem Below.chain (hscoped : table.WellScoped) {inner outer : Nat} (h : table.Below inner outer) :
    ∃ below above, table.chain inner = below ++ outer :: above ∧
      ∀ other ∈ below, ∃ found, table.scopes[other]? = some found ∧ InnerScript found.kind := by
  induction h with
  | self scope => exact ⟨[], _, hscoped.chain_eq scope, nofun⟩
  | @up inner parent outer scope hscope hkind hparent _ ih =>
    obtain ⟨below, above, hchain, hbelow⟩ := ih
    refine ⟨inner :: below, above, ?_, List.forall_mem_cons.2 ⟨⟨scope, hscope, hkind⟩, hbelow⟩⟩
    rw [hscoped.chain_eq, hscope, Option.bind_some, hparent, Option.map_some, Option.getD_some, hchain, List.cons_append]

theorem Visible.reachesNode (hscoped : table.WellScoped) {inner : Nat} {id : NodeId} (h : Visible document table inner id) :
    table.ReachesNode document inner id := by
  obtain ⟨scope, hscope, hbelow⟩ := h
  obtain ⟨below, above, hchain, hkinds⟩ := hbelow.chain hscoped
  exact ⟨scope, below, above, hscope, hchain, hkinds⟩

/-- A name stands for nothing that is declared in later scopes. -/
theorem scope_le_of_resolve? (hscoped : table.WellScoped) {scope target : Nat} {name : String} {binding : Binding}
    (htarget : table.resolve? scope name = some target) (hbinding : table.binding? target = some binding) :
    binding.scope ≤ scope := by
  obtain ⟨home, haround, _, ⟨found, hfound, hhome, _⟩, _⟩ := hscoped.resolve?_eq_some_iff.1 htarget
  obtain rfl : found = binding := Option.some.inj (hfound.symm.trans hbinding)
  rw [hhome]
  exact hscoped.around_le haround

/-! ## Resolved tables -/

/-- Resolving changes nothing that the walk over a template looks at. -/
theorem ResolvedAll.grows {start : ScopeTable} (h : ResolvedAll start table) (first : NodeId) : Grows first start table := by
  rw [h.rest]
  exact ⟨.refl start, rfl, ⟨[], rfl, by simp⟩, fun _ hbinding => .inl hbinding⟩

/-- Where a reference was recorded does not depend on what it is resolved to. -/
theorem Recorded.settle {start : ScopeTable} {reference : Reference} {id : NodeId}
    (h : Recorded document table reference id) : Recorded document table (start.settle reference) id := by
  cases h with
  | here hruns hvisible => exact .here hruns hvisible
  | loop h =>
    cases h with
    | source hruns hfor hparent hvisible hlater => exact .loop (.source hruns hfor hparent hvisible hlater)
    | aliases hruns hfor hsplit hstop => exact .loop (.aliases hruns hfor hsplit hstop)

/-- The table of a component is walked: every reference in the template was recorded at a node. -/
theorem walked_ofComponent {component : Component} (hlaid : component.document.Laid) :
    ∃ seen, Walked component.document seen (ofComponent component) := by
  obtain ⟨seen, hwalked⟩ := walked_gather hlaid
  have hall := resolvedAll_ofComponent component
  have helements : (ofComponent component).elementScopes = (gather component).elementScopes := by rw [hall.rest]
  refine ⟨seen, helements ▸ hwalked.elementScopes, hall.bindings ▸ hwalked.bindings, fun reference hreference htemplate => ?_⟩
  obtain ⟨old, hold, rfl⟩ := hall.exists_of_mem hreference
  obtain ⟨id, hid, hrecorded⟩ := hwalked.references old hold htemplate
  exact ⟨id, hid, (hrecorded.grow hlaid.standing.shaped (hall.grows (id + 1)) (Nat.lt_succ_self id)
    ((wellScoped_gather component).references old hold)).settle⟩

/-! ## References by where they stand -/

section Recorded

variable {reference : Reference} {id other : NodeId}

/-- A reference that was recorded at a node is owned by it. -/
theorem Recorded.owns (hlaid : document.Laid) (h : Recorded document table reference id) : document.Owns id reference.span := by
  cases h with
  | here hruns _ =>
    rcases hruns with hbraces | ⟨attr, value, hruns, _⟩
    · exact hlaid.owns_of_braces hbraces
    · exact (hlaid.owns_of_runsIn hruns).1
  | loop h =>
    cases h with
    | source hruns => exact (hlaid.owns_of_runsIn hruns).1
    | aliases hruns => exact (hlaid.owns_of_runsIn hruns).1

/-- A reference between braces was recorded there. -/
theorem Recorded.of_interpolation (hlaid : document.Laid) (h : Recorded document table reference id) {node : Node}
    {content : Interpolation} (hnode : document.node? other = some node) (hkind : node.kind = .interpolation content)
    (hwithin : reference.span.Within node.span) : Visible document table reference.scope other := by
  obtain rfl := hlaid.owner_of_interpolation (h.owns hlaid) hnode hkind hwithin
  have hnone : ∀ {attr value}, ¬ document.RunsIn id attr value reference.span := by
    intro attr value hruns
    obtain ⟨element, helement, _⟩ := hruns.element
    rw [Document.element?, hnode] at helement
    obtain ⟨_, _, _, _, kind⟩ := node
    cases hkind
    cases helement
  cases h with
  | here _ hvisible => exact hvisible
  | loop h =>
    cases h with
    | source hruns => exact absurd hruns hnone
    | aliases hruns => exact absurd hruns hnone

/-- A reference in the value of an attribute was recorded at the element: in the scope of the element, or in its loop. -/
theorem Recorded.of_value (hlaid : document.Laid) (h : Recorded document table reference id) {element : Element}
    (helement : document.element? other = some element) {attr : Attribute} (hattr : attr ∈ element.attributes)
    {value : AttributeValue} (hvalue : attr.value = some value) (hwithin : reference.span.Within value.span) :
    (Visible document table reference.scope other ∧ ∀ aliases source word, value.meaning ≠ some (.loop aliases source word)) ∨
      (attr.isDirective "for" = true ∧ InLoop document table reference other) := by
  have hunique : ∀ {found : Attribute} {text : AttributeValue}, document.RunsIn id found text reference.span →
      id = other ∧ found = attr ∧ text = value := by
    intro found text hruns
    obtain ⟨hid, rfl⟩ := hlaid.runsIn_unique hruns helement hattr hvalue hwithin
    exact ⟨hid, rfl, Option.some.inj (hruns.hasValue.symm.trans hvalue)⟩
  cases h with
  | here hruns hvisible =>
    rcases hruns with hbraces | ⟨found, text, hruns, hmeaning⟩
    · -- An interpolation has no attributes.
      have howns := hlaid.owns_of_braces hbraces
      obtain ⟨node, content, hnode, hkind, _, hordered, _⟩ := hbraces
      obtain rfl := hlaid.owner_unique howns (hlaid.owns_of_value helement hattr hvalue hordered hwithin)
      obtain ⟨node', hnode', hkind'⟩ := Document.element?_eq_some_iff.1 helement
      obtain rfl : node = node' := Option.some.inj (hnode.symm.trans hnode')
      cases hkind.symm.trans hkind'
    · obtain ⟨rfl, rfl, rfl⟩ := hunique hruns
      exact .inl ⟨hvisible, hmeaning⟩
  | loop h =>
    cases h with
    | source hruns hfor hparent hvisible hlater =>
      obtain ⟨rfl, rfl, rfl⟩ := hunique hruns
      exact .inr ⟨hfor, .source hruns hfor hparent hvisible hlater⟩
    | aliases hruns hfor hsplit hstop =>
      obtain ⟨rfl, rfl, rfl⟩ := hunique hruns
      exact .inr ⟨hfor, .aliases hruns hfor hsplit hstop⟩

/-- A reference in the source of a loop was recorded as such. -/
theorem Recorded.of_source (hlaid : document.Laid) (h : Recorded document table reference id) {element : Element}
    (helement : document.element? other = some element) {attr : Attribute} (hattr : attr ∈ element.attributes)
    {value : AttributeValue} (hvalue : attr.value = some value) {aliases source : Script.Node} {word : LoopWord}
    (hmeaning : value.meaning = some (.loop aliases source word)) (hwithin : reference.span.Within source.span) :
    ∃ parent, document.parent? other = some parent ∧ Visible document table reference.scope parent ∧
      ∀ binding ∈ table.bindings, binding.node = some other → reference.scope < binding.scope := by
  obtain ⟨split, hsplit, hlt, _, _, hsource⟩ := hlaid.loop_split helement hattr hvalue hmeaning
  obtain ⟨hfirst, _, hlast⟩ := hsource.span
  obtain ⟨hstart, hinner, hend⟩ := (hlaid.value_sits helement hattr hvalue).ordered
  obtain ⟨hafter, hbefore⟩ := hwithin
  have hinside : reference.span.Within value.span := ⟨by omega, by omega⟩
  rcases h.of_value hlaid helement hattr hvalue hinside with ⟨_, hnot⟩ | ⟨_, hloop⟩
  · exact absurd hmeaning (hnot aliases source word)
  · cases hloop with
    | source _ _ hparent hvisible hlater => exact ⟨_, hparent, hvisible, hlater⟩
    | @aliases found text split' hruns _ hsplit' hstop =>
      -- The aliases end before the word of the loop, and the source starts behind it.
      obtain ⟨_, rfl⟩ := hlaid.runsIn_unique hruns helement hattr hvalue hinside
      obtain rfl : text = value := Option.some.inj (hruns.hasValue.symm.trans hvalue)
      obtain rfl : split' = split := Option.some.inj (hsplit'.symm.trans hsplit)
      have hordered := hruns.inside.2.1
      omega

end Recorded

/-- The scopes of every template agree with the search upwards, as far as the script parser keeps the spans of fragments inside
them. -/
theorem parse_scopesAgree (source : List Char) (hlie : (Component.parse languages source).document.FragmentsLie) :
    (ofComponent (Component.parse languages source)).AgreesWith (Component.parse languages source).document := by
  have hlaid : (Component.parse languages source).document.Laid := Document.laid_parse _ source hlie
  have hscoped := wellScoped_ofComponent (Component.parse languages source)
  obtain ⟨seen, hwalked⟩ := walked_ofComponent hlaid
  refine ⟨?_, ?_, ?_⟩
  · intro reference hreference htemplate id node content hnode hkind hwithin
    obtain ⟨_, _, hrecorded⟩ := hwalked.references reference hreference htemplate
    exact (hrecorded.of_interpolation hlaid hnode hkind hwithin).reachesNode hscoped
  · intro reference hreference htemplate id element helement attr hattr hfor value hvalue hwithin
    obtain ⟨_, _, hrecorded⟩ := hwalked.references reference hreference htemplate
    rcases hrecorded.of_value hlaid helement hattr hvalue hwithin with ⟨hvisible, _⟩ | ⟨hloop, _⟩
    · exact hvisible.reachesNode hscoped
    · rw [hfor] at hloop
      cases hloop
  · intro reference hreference htemplate id element helement attr hattr _ aliases source word hmeaning hwithin
    obtain ⟨value, hvalue, hmeaning⟩ := Option.bind_eq_some_iff.1 hmeaning
    obtain ⟨_, _, hrecorded⟩ := hwalked.references reference hreference htemplate
    obtain ⟨parent, hparent, hvisible, hlater⟩ :=
      hrecorded.of_source hlaid helement hattr hvalue hmeaning hwithin
    refine ⟨⟨parent, hparent, hvisible.reachesNode hscoped⟩, fun target binding htarget hbinding hnode => ?_⟩
    rw [(resolvedAll_ofComponent _).resolved hreference] at htarget
    have hle := scope_le_of_resolve? hscoped htarget hbinding
    have hlt := hlater binding (Array.mem_of_getElem? hbinding) hnode
    exact absurd hlt (Nat.not_lt_of_le hle)

/-- Rows of a list, each with a handler and a text. -/
def rowsTemplate : List Char :=
  "<template><p v-for=\"row in rows\" @click=\"() => open(row)\">\x7b\x7brow\x7d\x7d</p></template>".toList

theorem parse_scopesAgree_rows :
    ((ofComponent (Component.parse Script.Dialect.language rowsTemplate)).references.toList.map fun reference =>
      (reference.name, reference.scope)) =
        [("rows", 0), ("open", 2), ("row", 2), ("row", 1)] ∧
      (ofComponent (Component.parse Script.Dialect.language rowsTemplate)).AgreesWith
        (Component.parse Script.Dialect.language rowsTemplate).document :=
  ⟨by decide +kernel, parse_scopesAgree rowsTemplate (by decide +kernel)⟩

end ScopeTable

end ComponentLint
