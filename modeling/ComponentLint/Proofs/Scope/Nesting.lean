import ComponentLint.Proofs.Scope.Walk

/-!
# Scopes nest

The walk over a component numbers scopes as it opens them, and opens each one under a scope that is open. So a parent is
always numbered before its scopes, names are declared and used only in scopes that exist, and a scope knows the latest binding of
each of its names (`WellScoped`). Each step of the walk keeps this (`Leads`), whatever the tree under it.
-/

namespace ComponentLint

open Markup

namespace ScopeTable

/-- A scope declares a name by a binding. -/
def Declares (table : ScopeTable) (scope : Nat) (name : String) (id : Nat) : Prop :=
  ∃ binding, table.bindings[id]? = some binding ∧ binding.scope = scope ∧ binding.name = name

/-- A binding is the latest by which a scope declares a name. -/
def Latest (table : ScopeTable) (scope : Nat) (name : String) (id : Nat) : Prop :=
  table.Declares scope name id ∧ ∀ other, table.Declares scope name other → other ≤ id

theorem Declares.lt_size {table : ScopeTable} {scope id : Nat} {name : String} (h : table.Declares scope name id) :
    id < table.bindings.size :=
  let ⟨_, hbinding, _⟩ := h
  (Array.getElem?_eq_some_iff.1 hbinding).1

/-- Parents come before their scopes, what refers to a scope refers to one of the table, and scopes know their names. -/
structure WellScoped (table : ScopeTable) : Prop where
  parents : ∀ (id : Nat) (scope : Scope) (parent : Nat), table.scopes[id]? = some scope → scope.parent = some parent →
    parent < id
  bindings : ∀ binding ∈ table.bindings, binding.scope < table.scopes.size
  references : ∀ reference ∈ table.references, reference.scope < table.scopes.size
  moduleScope : ∀ scope ∈ table.moduleScope, scope < table.scopes.size
  setupScope : ∀ scope ∈ table.setupScope, scope < table.scopes.size
  names : ∀ scope name id, table.own? scope name = some id ↔ table.Latest scope name id

/-- No scope of a table is changed, but for the names that it knows. -/
def KeepsScopes (old new : ScopeTable) : Prop :=
  ∀ (id : Nat) scope, old.scopes[id]? = some scope → ∃ names, new.scopes[id]? = some { scope with names := names }

theorem KeepsScopes.refl (table : ScopeTable) : KeepsScopes table table :=
  fun _ scope h => ⟨scope.names, h⟩

theorem KeepsScopes.trans {first second third : ScopeTable} (h : KeepsScopes first second) (h' : KeepsScopes second third) :
    KeepsScopes first third := by
  intro id scope hscope
  obtain ⟨names, hnames⟩ := h id scope hscope
  obtain ⟨names', hnames'⟩ := h' id _ hnames
  exact ⟨names', hnames'⟩

theorem KeepsScopes.size_le {old new : ScopeTable} (h : KeepsScopes old new) : old.scopes.size ≤ new.scopes.size := by
  refine Nat.le_of_not_lt fun hlt => ?_
  obtain ⟨_, hlast⟩ := h new.scopes.size _ (Array.getElem?_eq_getElem hlt)
  simp at hlast

/-- The walk may go from one table to the other: no scope is lost, scopes stay nested, and nothing is resolved yet. -/
structure Leads (old new : ScopeTable) : Prop where
  kept : old.WellScoped → new.WellScoped
  grown : old.scopes.size ≤ new.scopes.size
  index : new.referencesByBinding = old.referencesByBinding

namespace Leads

theorem refl (table : ScopeTable) : Leads table table :=
  ⟨id, Nat.le_refl _, rfl⟩

theorem trans {first second third : ScopeTable} (h : Leads first second) (h' : Leads second third) :
    Leads first third :=
  ⟨h'.kept ∘ h.kept, Nat.le_trans h.grown h'.grown, h'.index.trans h.index⟩

theorem andThen {first second third : ScopeTable} (h : Leads first second)
    (next : first.scopes.size ≤ second.scopes.size → Leads second third) : Leads first third :=
  h.trans (next h.grown)

/-- A walk over a list leads on if each of its steps does, for what stays true as tables grow. -/
theorem foldl {α : Type} {step : ScopeTable → α → ScopeTable} {bound : Nat}
    (hstep : ∀ table item, bound ≤ table.scopes.size → Leads table (step table item)) (items : List α)
    {table : ScopeTable} (hbound : bound ≤ table.scopes.size) : Leads table (items.foldl step table) := by
  induction items generalizing table with
  | nil => exact refl table
  | cons item items ih =>
    have hfirst := hstep table item hbound
    exact hfirst.trans (ih (Nat.le_trans hbound hfirst.grown))

end Leads

end ScopeTable

/-- The scopes that a place knows are among the first `size`. -/
structure Place.Within (place : Place) (size : Nat) : Prop where
  stack : ∀ scope ∈ place.stack, scope < size
  declaring : ∀ target ∈ place.declaring, target.2 < size

namespace Place.Within

variable {place : Place} {size : Nat}

theorem mono {larger : Nat} (h : place.Within size) (hle : size ≤ larger) : place.Within larger :=
  ⟨fun scope hscope => Nat.lt_of_lt_of_le (h.stack scope hscope) hle,
    fun target htarget => Nat.lt_of_lt_of_le (h.declaring target htarget) hle⟩

theorem scope (h : place.Within size) : ∀ scope ∈ place.scope?, scope < size :=
  fun scope hscope => h.stack scope (List.mem_of_mem_head? hscope)

theorem inside (h : place.Within size) {scope : Nat} (hscope : scope < size) : (place.inside scope).Within size :=
  ⟨fun other hother => (List.mem_cons.1 hother).elim (fun heq => heq ▸ hscope) (h.stack other), h.declaring⟩

theorem declares (h : place.Within size) (kind : BindingKind) {scope : Nat} (hscope : scope < size) :
    (place.declares kind scope).Within size := by
  refine ⟨h.stack, fun target htarget => ?_⟩
  cases htarget
  exact hscope

theorem plain (h : place.Within size) : place.plain.Within size :=
  ⟨h.stack, nofun⟩

end Place.Within

namespace ScopeTable

variable {table : ScopeTable} {place : Place}

/-! ## Single steps -/

/-- A scope after a declaration: the scope that declares knows one more name. -/
theorem declare_scopes (name : String) (span : Span) (kind : BindingKind) (scope id : Nat) :
    (table.declare place name span kind scope).scopes[id]? = (table.scopes[id]?).map fun found =>
      if scope = id then { found with names := found.names.insert name table.bindings.size } else found := by
  rw [declare, Array.getElem?_modify]
  split
  · rfl
  · simp

theorem keepsScopes_declare (name : String) (span : Span) (kind : BindingKind) (scope : Nat) :
    KeepsScopes table (table.declare place name span kind scope) := by
  intro id found hfound
  rw [declare_scopes, hfound, Option.map_some]
  split
  · exact ⟨_, rfl⟩
  · exact ⟨found.names, rfl⟩

/-- What the scopes declare after a declaration. -/
theorem declares_declare_iff {name : String} {span : Span} {kind : BindingKind} {scope other id : Nat} {name' : String} :
    (table.declare place name span kind scope).Declares other name' id ↔
      table.Declares other name' id ∨ (id = table.bindings.size ∧ other = scope ∧ name' = name) := by
  unfold Declares
  simp only [declare, Array.getElem?_push]
  split
  · next heq => simp [heq, @eq_comm _ scope, @eq_comm _ name]
  · next hne => simp [hne]

/-- A new declaration is the latest of its name, and changes no other name. -/
theorem WellScoped.names_declare (h : table.WellScoped) (name : String) (span : Span) (kind : BindingKind) {scope : Nat}
    (hscope : scope < table.scopes.size) (other : Nat) (name' : String) (id : Nat) :
    (table.declare place name span kind scope).own? other name' = some id ↔
      (table.declare place name span kind scope).Latest other name' id := by
  have hlast : ∀ other name' id, table.Declares other name' id → id < table.bindings.size := fun _ _ _ h => h.lt_size
  have hnew : (table.declare place name span kind scope).own? other name' =
      if other = scope ∧ name' = name then some table.bindings.size else table.own? other name' := by
    unfold own?
    rw [declare_scopes]
    by_cases heq : scope = other
    · subst heq
      simp [Array.getElem?_eq_getElem hscope, Entries.get?_insert]
    · simp [heq, Ne.symm heq]
  unfold Latest
  simp only [hnew, declares_declare_iff]
  split
  · next heq =>
    obtain ⟨rfl, rfl⟩ := heq
    constructor
    · rintro ⟨⟩
      exact ⟨.inr ⟨rfl, rfl, rfl⟩, fun found hfound =>
        hfound.elim (fun hold => Nat.le_of_lt hold.lt_size) fun hsame => Nat.le_of_eq hsame.1⟩
    · rintro ⟨hdeclares, hlatest⟩
      have hle := hlatest table.bindings.size (.inr ⟨rfl, rfl, rfl⟩)
      rcases hdeclares with hold | ⟨rfl, -⟩
      · exact absurd hold.lt_size (Nat.not_lt_of_le hle)
      · rfl
  · next hne =>
    have hold : ∀ id, (table.Declares other name' id ∨ (id = table.bindings.size ∧ other = scope ∧ name' = name)) ↔
        table.Declares other name' id := fun id => or_iff_left fun hsame => hne hsame.2
    simp only [hold]
    exact h.names other name' id

/-- A declaration in a scope of the table. -/
theorem leads_declare (name : String) (span : Span) (kind : BindingKind) {scope : Nat}
    (hscope : scope < table.scopes.size) : Leads table (table.declare place name span kind scope) := by
  have hsize : (table.declare place name span kind scope).scopes.size = table.scopes.size := Array.size_modify
  refine ⟨fun h => ⟨?_, ?_, ?_, ?_, ?_, h.names_declare name span kind hscope⟩, Nat.le_of_eq hsize.symm, rfl⟩
  · intro id found parent hfound hparent
    rw [declare_scopes] at hfound
    obtain ⟨old, hold, rfl⟩ := Option.map_eq_some_iff.1 hfound
    refine h.parents id old parent hold ?_
    split at hparent
    · exact hparent
    · exact hparent
  · intro binding hbinding
    rw [hsize]
    rcases Array.mem_push.1 hbinding with hold | rfl
    · exact h.bindings binding hold
    · exact hscope
  · exact hsize ▸ h.references
  · exact hsize ▸ h.moduleScope
  · exact hsize ▸ h.setupScope

/-- A use in the innermost scope. -/
theorem leads_refer (hplace : place.Within table.scopes.size) (name : String) (span : Span) (use : Use) :
    Leads table (table.refer place name span use) := by
  unfold refer
  split
  · next scope hscope =>
    refine ⟨fun h => ⟨h.parents, h.bindings, ?_, h.moduleScope, h.setupScope, h.names⟩, Nat.le_refl _, rfl⟩
    intro reference hreference
    rcases Array.mem_push.1 hreference with hold | rfl
    · exact h.references reference hold
    · exact hplace.scope scope hscope
  · exact .refl table

/-- A scope opened under one of the table leads on, and is then one of the table. -/
theorem leads_openUnder {kind : ScopeKind} {span : Span} {parent : Option Nat} {node : Option NodeId} {scope : Nat}
    {opened : ScopeTable} (hparent : ∀ above ∈ parent, above < table.scopes.size)
    (hopen : table.openUnder kind span parent node = (scope, opened)) :
    Leads table opened ∧ scope < opened.scopes.size := by
  cases hopen
  have hgrown : table.scopes.size ≤ (table.scopes.push ⟨kind, parent, span, node,
    ((parent.bind (table.scopes[·]?)).map (·.setup)).getD false && !kind.isTemplate, []⟩).size := by simp
  refine ⟨⟨fun h => ⟨?_, fun b hb => Nat.lt_of_lt_of_le (h.bindings b hb) hgrown,
    fun r hr => Nat.lt_of_lt_of_le (h.references r hr) hgrown, fun s hs => Nat.lt_of_lt_of_le (h.moduleScope s hs) hgrown,
    fun s hs => Nat.lt_of_lt_of_le (h.setupScope s hs) hgrown, ?_⟩, hgrown, rfl⟩, by simp⟩
  · intro id scope above hscope habove
    rw [Array.getElem?_push] at hscope
    split at hscope
    · next heq =>
      cases hscope
      exact heq ▸ hparent above habove
    · exact h.parents id scope above hscope habove
  · intro scope name id
    by_cases hnew : scope = table.scopes.size
    · -- Nothing is declared in the new scope yet.
      constructor
      · simp [own?, hnew]
      · rintro ⟨⟨binding, hbinding, hscope, -⟩, -⟩
        have hlt := h.bindings binding (Array.mem_of_getElem? hbinding)
        exact absurd hlt (by omega)
    · refine (iff_of_eq (congrArg (· = some id) ?_)).trans (h.names scope name id)
      simp [own?, Array.getElem?_push, hnew]

/-! ## The walk over scripts -/

/-- What collecting does leads on from any place of the table. -/
theorem Collected.leads {Q : Script.Node → Prop} {new : ScopeTable} (h : Collected Q place table new)
    (hplace : place.Within table.scopes.size) : Leads table new := by
  induction h with
  | none _ table => exact .refl table
  | andThen _ _ ih ih' => exact (ih hplace).andThen fun hle => ih' (hplace.mono hle)
  | refer _ _ use => exact leads_refer hplace _ _ use
  | declare _ _ hdeclaring => exact leads_declare _ _ _ (hplace.declaring _ hdeclaring)
  | declares _ hscope _ ih => exact ih (hplace.declares _ (hplace.stack _ hscope))
  | plain _ ih => exact ih hplace.plain
  | inside _ hopen _ ih =>
    obtain ⟨hopened, hscope⟩ := leads_openUnder hplace.scope hopen
    exact hopened.trans (ih ((hplace.mono hopened.grown).inside hscope))

/-- Collecting from a node leads on from any place of the table. -/
theorem leads_collect (hplace : place.Within table.scopes.size) (use : Use) (node : Script.Node) :
    Leads table (collect place use table node) := by
  have hsteps : Collected (fun _ => True) place table (collect place use table node) :=
    collected_collect (fun _ _ _ _ => trivial) place use table trivial
  exact hsteps.leads hplace

/-! ## The walk over the template -/

theorem leads_collectValue (hplace : place.Within table.scopes.size) (value : DirectiveValue) :
    Leads table (collectValue place table value) := by
  unfold collectValue
  split
  · exact leads_collect hplace .plain _
  · exact .foldl (fun _ node hle => leads_collect (hplace.mono hle) .plain node) _ (Nat.le_refl _)
  · exact .refl table

/-- A table and a place in it are reached from a table. -/
structure Reaches (table : ScopeTable) (result : Place × ScopeTable) : Prop where
  leads : Leads table result.2
  within : result.1.Within result.2.scopes.size

theorem reaches_openElement (hplace : place.Within table.scopes.size) (kind : ScopeKind) (declared : BindingKind)
    (span : Span) (id : NodeId) (params : Script.Node) :
    Reaches table (openElement place kind declared span id params table) := by
  unfold openElement
  split
  next scope opened hopen =>
  obtain ⟨hopened, hscope⟩ := leads_openUnder hplace.scope hopen
  extract_lets noted inner
  have hnoted : Leads opened noted :=
    ⟨fun h => ⟨h.parents, h.bindings, h.references, h.moduleScope, h.setupScope, h.names⟩, Nat.le_refl _, rfl⟩
  have hinner : inner.Within noted.scopes.size := (hplace.mono hopened.grown).inside hscope
  have hparams := leads_collect (hinner.declares declared hscope) .plain params
  exact ⟨hopened.trans (hnoted.trans hparams), hinner.mono hparams.grown⟩

theorem reaches_enterElement (hplace : place.Within table.scopes.size) (id : NodeId) (span : Span) (element : Element) :
    Reaches table (enterElement place table id span element) := by
  unfold enterElement
  extract_lets outer
  have houter : outer.Within table.scopes.size := ⟨hplace.stack, hplace.declaring⟩
  split
  next inner looped hlooped =>
  have hloop : Reaches table (inner, looped) := by
    rw [← hlooped]
    split
    · next aliases source _ _ =>
      -- The source of a loop is read outside the loop's scope.
      have hsource := leads_collect houter .plain source
      have hopened := reaches_openElement (houter.mono hsource.grown) .loop .loopAlias span id aliases
      exact ⟨hsource.trans hopened.leads, hopened.within⟩
    · exact ⟨.refl table, houter⟩
  split
  · next params _ =>
    have hopened := reaches_openElement hloop.within .slot .slotParam span id params
    exact ⟨hloop.leads.trans hopened.leads, hopened.within⟩
  · exact hloop

/-- Collecting from a node of the template and what is under it leads on. -/
theorem leads_collectNode (document : Document) (fuel : Nat) (hplace : place.Within table.scopes.size) (id : NodeId) :
    Leads table (collectNode document fuel place table id) := by
  induction fuel generalizing place table id with
  | zero => exact .refl table
  | succ fuel ih =>
    unfold collectNode
    split
    · split
      · exact leads_collect hplace .plain _
      · exact .refl table
    · next span element _ =>
      obtain ⟨hentered, hinner⟩ := reaches_enterElement hplace id span element
      generalize enterElement place table id span element = result at hentered hinner
      obtain ⟨inner, entered⟩ := result
      have hvalues : Leads entered ((element.attributes.filterMap (·.meaning?)).foldl (collectValue inner) entered) :=
        .foldl (fun _ value hle => leads_collectValue (hinner.mono hle) value) _ (Nat.le_refl _)
      have hchildren := Leads.foldl (fun _ child hle => ih (hinner.mono hle) child) (document.children id) hvalues.grown
      exact hentered.trans (hvalues.trans hchildren)
    · exact .refl table

/-! ## The walk over the component -/

/-- In a scope of its own, only that scope is open. -/
theorem within_alone {scope size : Nat} (hscope : scope < size) (inTemplate : Bool) :
    Place.Within ⟨[scope], none, inTemplate, none⟩ size :=
  ⟨fun _ hother => List.mem_singleton.1 hother ▸ hscope, nofun⟩

theorem leads_collectScript {scope : Nat} (hscope : scope < table.scopes.size) (block : ScriptBlock) :
    Leads table (collectScript table scope block) :=
  .foldl (fun _ node hle => leads_collect ((within_alone hscope false).mono hle) .plain node) _ (Nat.le_refl _)

theorem wellScoped_empty : WellScoped empty := by
  constructor <;> intros <;> simp_all [empty, own?, Latest, Declares]

theorem leads_withPlainScript (table : ScopeTable) (component : Component) :
    Leads table (withPlainScript component table) := by
  unfold withPlainScript
  split
  · next block _ =>
    split
    next scope opened hopen =>
    obtain ⟨hopened, hscope⟩ := leads_openUnder (by simp) hopen
    have hnoted : Leads opened { opened with moduleScope := some scope } :=
      ⟨fun hopen => ⟨hopen.parents, hopen.bindings, hopen.references, fun _ heq => Option.mem_some.1 heq ▸ hscope,
        hopen.setupScope, hopen.names⟩, Nat.le_refl _, rfl⟩
    exact hopened.trans (hnoted.trans (leads_collectScript (Nat.lt_of_lt_of_le hscope hnoted.grown) block))
  · exact .refl table

theorem WellScoped.leads_withSetupScript (h : table.WellScoped) (component : Component) :
    Leads table (withSetupScript component table) := by
  unfold withSetupScript
  split
  · next block _ =>
    split
    next scope opened hopen =>
    obtain ⟨hopened, hscope⟩ := leads_openUnder h.moduleScope hopen
    extract_lets marked
    have hsize : marked.size = opened.scopes.size := Array.size_modify
    -- The opened scope is marked as that of the setup script, and keeps its parent and its names.
    have hmarked : Leads opened { opened with scopes := marked, setupScope := some scope } := by
      refine ⟨fun hopen => ⟨?_, hsize ▸ hopen.bindings, hsize ▸ hopen.references, hsize ▸ hopen.moduleScope,
        fun _ heq => Option.mem_some.1 heq ▸ hsize ▸ hscope, ?_⟩, Nat.le_of_eq hsize.symm, rfl⟩
      · intro id new parent hnew hparent
        rw [Array.getElem?_modify] at hnew
        split at hnew
        · obtain ⟨old, hold, rfl⟩ := Option.map_eq_some_iff.1 hnew
          exact hopen.parents id old parent hold hparent
        · exact hopen.parents id new parent hnew hparent
      · intro other name id
        refine (iff_of_eq (congrArg (· = some id) ?_)).trans (hopen.names other name id)
        unfold own?
        rw [Array.getElem?_modify]
        split
        · rw [Option.bind_map]
          rfl
        · rfl
    exact hopened.trans (hmarked.trans (leads_collectScript (hsize ▸ hscope) block))
  · exact .refl table

theorem WellScoped.leads_withTemplate (h : table.WellScoped) (component : Component) :
    Leads table (withTemplate component table) := by
  unfold withTemplate
  split
  · next id _ =>
    extract_lets document
    split
    next scope opened hopen =>
    obtain ⟨hopened, hscope⟩ := leads_openUnder h.setupScope hopen
    extract_lets noted
    have hnoted : Leads opened noted :=
      ⟨fun hopen => ⟨hopen.parents, hopen.bindings, hopen.references, hopen.moduleScope, hopen.setupScope, hopen.names⟩,
        Nat.le_refl _, rfl⟩
    have hstep : ∀ later child, noted.scopes.size ≤ later.scopes.size →
        Leads later (collectNode document document.size ⟨[scope], none, true, none⟩ later child) :=
      fun later child hle => leads_collectNode _ _ ((within_alone hscope true).mono hle) child
    exact hopened.trans (hnoted.trans (.foldl hstep _ (Nat.le_refl _)))
  · exact .refl table

/-- The walk over a component goes from the empty table to what it finds. -/
theorem leads_gather (component : Component) : Leads empty (gather component) := by
  have hplain := leads_withPlainScript empty component
  have hsetup := (hplain.kept wellScoped_empty).leads_withSetupScript component
  exact hplain.trans (hsetup.trans ((hsetup.kept (hplain.kept wellScoped_empty)).leads_withTemplate component))

/-- What the walk over a component finds is well scoped. -/
theorem wellScoped_gather (component : Component) : (gather component).WellScoped :=
  (leads_gather component).kept wellScoped_empty

end ScopeTable

end ComponentLint
