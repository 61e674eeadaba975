import ComponentLint.Proofs.Scope.Nesting
import Mathlib.Data.Nat.Find
import Mathlib.Data.List.Range

/-!
# What names stand for

`Around` is the walk from a scope through its parents, `Declares` says that a scope declares a name, and `StandsFor` puts
the two together: of the scopes around a use that declare its name the nearest, and of its declarations there the latest.
Neither speaks of the order of declarations and uses in the source. Looking a name up finds exactly what it stands for
(`resolve?_eq_some_iff`), in every table whose scopes nest.

References are resolved when all names have been found. After the first `count` of them, these hold what was
found for them, and the index lists them, binding by binding, in the order in which they were recorded
(`ResolvedFirst`). In the end the lists are put in source order (`ofComponent_resolved`).
-/

namespace ComponentLint.ScopeTable

/-- A scope is the given one or, through parents, around it. -/
inductive Around (table : ScopeTable) : Nat → Nat → Prop
  | self (scope : Nat) : table.Around scope scope
  | up {inner parent outer : Nat} {scope : Scope} (hscope : table.scopes[inner]? = some scope)
      (hparent : scope.parent = some parent) (hrest : table.Around parent outer) : table.Around inner outer

/-- In a scope a name stands for a binding: some scope around declares the name, all others that do lie around that one,
and the binding is the latest of the name there. -/
def StandsFor (table : ScopeTable) (scope : Nat) (name : String) (id : Nat) : Prop :=
  ∃ home, table.Around scope home ∧ (∀ other any, table.Around scope other → table.Declares other name any →
    table.Around home other) ∧ table.Latest home name id

/-- A list goes through the references that were resolved to a binding, each of them once. -/
def Enumerates (table : ScopeTable) (id : Nat) (found : List Reference) : Prop :=
  ∃ positions : List Nat, positions.Nodup ∧
    (∀ position, position ∈ positions ↔ ∃ reference,
      table.references[(position : Nat)]? = some reference ∧ reference.resolved = some id) ∧
    found = positions.filterMap (table.references[·]?)

variable {table : ScopeTable}

/-! ## The scopes around a scope -/

/-- The scopes around a scope are the scope, and those around its parent. -/
theorem around_iff {scope outer : Nat} :
    table.Around scope outer ↔
      outer = scope ∨ ∃ parent ∈ (table.scopes[scope]?).bind (·.parent), table.Around parent outer := by
  constructor
  · intro h
    cases h with
    | self => exact .inl rfl
    | up hscope hparent hrest => exact .inr ⟨_, by simp [hscope, hparent], hrest⟩
  · rintro (rfl | ⟨parent, hparent, hrest⟩)
    · exact .self _
    · obtain ⟨found, hfound, heq⟩ := Option.bind_eq_some_iff.1 hparent
      exact .up hfound heq hrest

theorem WellScoped.parent_lt (h : table.WellScoped) {scope parent : Nat}
    (hparent : parent ∈ (table.scopes[scope]?).bind (·.parent)) : parent < scope := by
  obtain ⟨found, hfound, heq⟩ := Option.bind_eq_some_iff.1 hparent
  exact h.parents scope found parent hfound heq

theorem WellScoped.around_le (h : table.WellScoped) {inner outer : Nat} (haround : table.Around inner outer) :
    outer ≤ inner := by
  induction haround with
  | self => exact Nat.le_refl _
  | up hscope hparent _ ih => exact Nat.le_of_lt (Nat.lt_of_le_of_lt ih (h.parents _ _ _ hscope hparent))

/-- The bound on a chain is never felt. -/
theorem WellScoped.chainWithin_eq (h : table.WellScoped) {fuel fuel' scope : Nat} (hfuel : scope < fuel)
    (hfuel' : scope < fuel') : table.chainWithin fuel scope = table.chainWithin fuel' scope := by
  induction fuel generalizing fuel' scope with
  | zero => omega
  | succ fuel ih =>
    cases fuel' with
    | zero => omega
    | succ fuel' =>
      rw [chainWithin, chainWithin]
      split
      · next parent hparent =>
        have hlt := h.parent_lt hparent
        rw [ih (show parent < fuel by omega) (show parent < fuel' by omega)]
      · rfl

/-- A chain is a scope and the chain of its parent. -/
theorem WellScoped.chain_eq (h : table.WellScoped) (scope : Nat) :
    table.chain scope = scope :: (((table.scopes[scope]?).bind (·.parent)).map table.chain).getD [] := by
  rw [chain, chainWithin]
  cases hparent : (table.scopes[scope]?).bind (·.parent) with
  | none => rfl
  | some parent =>
    obtain ⟨found, hfound, -⟩ := Option.bind_eq_some_iff.1 hparent
    have hsize : scope < table.scopes.size := (Array.getElem?_eq_some_iff.1 hfound).1
    have hlt := h.parent_lt hparent
    simp only [Option.map_some, Option.getD_some, chain]
    rw [h.chainWithin_eq (show parent < table.scopes.size by omega) (show parent < table.scopes.size + 1 by omega)]

/-! ## Looking names up -/

/-- Where a name is declared there is a latest declaration of it. -/
theorem exists_latest {scope id : Nat} {name : String} (h : table.Declares scope name id) :
    ∃ last, table.Latest scope name last := by
  classical
  exact ⟨Nat.findGreatest (table.Declares scope name) table.bindings.size,
    Nat.findGreatest_spec (Nat.le_of_lt h.lt_size) h, fun _ hother => Nat.le_findGreatest (Nat.le_of_lt hother.lt_size) hother⟩

theorem WellScoped.own?_eq_none_iff (h : table.WellScoped) {scope : Nat} {name : String} :
    table.own? scope name = none ↔ ∀ id, ¬ table.Declares scope name id := by
  constructor
  · intro hnone id hid
    -- Of the finitely many declarations there is a latest one, which the scope would know.
    obtain ⟨last, hlast, hgreatest⟩ := exists_latest hid
    rw [(h.names scope name last).2 ⟨hlast, hgreatest⟩] at hnone
    cases hnone
  · intro hnot
    rw [Option.eq_none_iff_forall_ne_some]
    exact fun id hid => hnot id ((h.names scope name id).1 hid).1

/-- The binding of a name in a scope: its own, or else that of the parent. -/
theorem WellScoped.resolve?_eq (h : table.WellScoped) (scope : Nat) (name : String) :
    table.resolve? scope name =
      (table.own? scope name).or (((table.scopes[scope]?).bind (·.parent)).bind (table.resolve? · name)) := by
  rw [resolve?, h.chain_eq, List.findSome?_cons]
  cases table.own? scope name with
  | some id => rfl
  | none =>
    cases (table.scopes[scope]?).bind (·.parent) with
    | none => rfl
    | some parent => rfl

/-- Looking a name up finds exactly what it stands for. -/
theorem WellScoped.resolve?_eq_some_iff (h : table.WellScoped) {scope id : Nat} {name : String} :
    table.resolve? scope name = some id ↔ table.StandsFor scope name id := by
  induction scope using Nat.strongRecOn generalizing id with
  | ind scope ih =>
    rw [h.resolve?_eq]
    cases hown : table.own? scope name with
    | some own =>
      -- The scope itself is the nearest, so nothing else is.
      obtain ⟨hdeclares, hlatest⟩ := (h.names scope name own).1 hown
      rw [Option.some_or, Option.some_inj]
      constructor
      · rintro rfl
        exact ⟨scope, .self scope, fun other _ haround _ => haround, hdeclares, hlatest⟩
      · rintro ⟨home, haround, hnearest, hid, hlast⟩
        have hback := hnearest scope own (.self scope) hdeclares
        obtain rfl := Nat.le_antisymm (h.around_le haround) (h.around_le hback)
        exact Nat.le_antisymm (hlast own hdeclares) (hlatest id hid)
    | none =>
      -- The scope declares nothing, so all that matters lies around its parent.
      have hnot := h.own?_eq_none_iff.1 hown
      rw [Option.none_or, Option.bind_eq_some_iff]
      constructor
      · rintro ⟨parent, hparent, hfound⟩
        obtain ⟨home, haround, hnearest, hrest⟩ := (ih parent (h.parent_lt hparent)).1 hfound
        refine ⟨home, around_iff.2 (.inr ⟨parent, hparent, haround⟩), fun other any hother hany => ?_, hrest⟩
        rcases around_iff.1 hother with rfl | ⟨above, habove, hother⟩
        · exact absurd hany (hnot any)
        · obtain rfl : above = parent := Option.some_inj.1 (habove.symm.trans hparent)
          exact hnearest other any hother hany
      · rintro ⟨home, haround, hnearest, hid, hlast⟩
        rcases around_iff.1 haround with rfl | ⟨parent, hparent, haround⟩
        · exact absurd hid (hnot id)
        · refine ⟨parent, hparent, (ih parent (h.parent_lt hparent)).2 ⟨home, haround, ?_, hid, hlast⟩⟩
          exact fun other any hother => hnearest other any (around_iff.2 (.inr ⟨parent, hparent, hother⟩))

/-- A name stands for something exactly where a scope around declares it. -/
theorem WellScoped.resolve?_isSome_iff (h : table.WellScoped) {scope : Nat} {name : String} :
    (table.resolve? scope name).isSome ↔ ∃ home id, table.Around scope home ∧ table.Declares home name id := by
  rw [Option.isSome_iff_exists]
  constructor
  · rintro ⟨id, hid⟩
    obtain ⟨home, haround, -, hdeclares, -⟩ := h.resolve?_eq_some_iff.1 hid
    exact ⟨home, id, haround, hdeclares⟩
  · rintro ⟨home, id, haround, hdeclares⟩
    induction haround with
    | self scope =>
      rw [h.resolve?_eq]
      cases hown : table.own? scope name with
      | some own => exact ⟨own, rfl⟩
      | none => exact absurd hdeclares (h.own?_eq_none_iff.1 hown id)
    | @up inner parent outer scope hscope hparent _ ih =>
      rw [h.resolve?_eq]
      cases table.own? inner name with
      | some own => exact ⟨own, rfl⟩
      | none =>
        obtain ⟨found, hfound⟩ := ih hdeclares
        exact ⟨found, by simp [hscope, hparent, hfound]⟩

/-! ## Resolving references -/

/-- A reference with the binding that its name stands for. -/
def settle (table : ScopeTable) (reference : Reference) : Reference :=
  { reference with resolved := table.resolve? reference.scope reference.name }

/-- What the reference of a number is resolved to. -/
def resolution? (table : ScopeTable) (id : Nat) : Option Nat :=
  (table.references[id]?).bind fun reference => table.resolve? reference.scope reference.name

/-- A table in which the first references of another one are resolved: they hold what was found for them, the index lists them
under their bindings in the order in which they were recorded, and nothing else is changed. -/
structure ResolvedFirst (start : ScopeTable) (count : Nat) (table : ScopeTable) : Prop where
  references : ∀ id : Nat, table.references[id]? = (start.references[id]?).map fun reference =>
    if id < count then start.settle reference else reference
  index : ∀ binding, (table.referencesByBinding.get? binding).getD [] =
    (List.range count).filter (start.resolution? · = some binding)
  rest : table = { start with references := table.references, referencesByBinding := table.referencesByBinding }

/-- What is resolved next changes no more than references and index. -/
theorem ResolvedFirst.rest_with {start : ScopeTable} {count : Nat} (h : ResolvedFirst start count table)
    (references : Array Reference) (index : Entries Nat (List Nat)) :
    { table with references := references, referencesByBinding := index } =
      { start with references := references, referencesByBinding := index } := by
  rw [h.rest]

/-- Before any reference is resolved. -/
theorem ResolvedFirst.start (hindex : table.referencesByBinding = []) : ResolvedFirst table 0 table where
  references id := by simp
  index binding := by simp [hindex]
  rest := rfl

/-- What a name is resolved to depends on the scopes only. -/
theorem resolve?_congr {other : ScopeTable} (h : other.scopes = table.scopes) (scope : Nat) (name : String) :
    other.resolve? scope name = table.resolve? scope name := by
  have hchain : ∀ fuel scope, other.chainWithin fuel scope = table.chainWithin fuel scope := by
    intro fuel
    induction fuel with
    | zero => intro scope; rfl
    | succ fuel ih =>
      intro scope
      rw [chainWithin, chainWithin, h]
      split
      · rw [ih]
      · rfl
  have hown : ∀ scope, other.own? scope name = table.own? scope name := fun scope => by rw [own?, own?, h]
  simp only [resolve?, chain, hchain, hown, h]

/-- Resolving one more reference. -/
theorem ResolvedFirst.step {start : ScopeTable} {count : Nat} (h : ResolvedFirst start count table)
    (hcount : count < start.references.size) : ResolvedFirst start (count + 1) (table.resolveReference count) := by
  have hfound : start.references[count]? = some start.references[count] := Array.getElem?_eq_getElem hcount
  have hreference : table.references[count]? = some start.references[count] := by
    rw [h.references, hfound, Option.map_some, if_neg (Nat.lt_irrefl count)]
  have hscopes : table.scopes = start.scopes := by rw [h.rest]
  rw [resolveReference, hreference]
  simp only [resolve?_congr hscopes]
  refine ⟨fun id => ?_, fun binding => ?_, h.rest_with _ _⟩
  · -- The reference at hand is the only one that is changed.
    rw [Array.getElem?_modify]
    split
    · next heq =>
      subst heq
      simp [hreference, hfound, settle]
    · next hne =>
      rw [h.references]
      have hlt : id < count + 1 ↔ id < count := by omega
      simp only [hlt]
  · have hresolution : start.resolution? count =
        start.resolve? start.references[count].scope start.references[count].name := by
      rw [resolution?, hfound, Option.bind_some]
    rw [List.range_succ, List.filter_append, ← h.index binding, ← hresolution]
    cases htarget : start.resolution? count with
    | none => simp [htarget]
    | some target =>
      simp only [Entries.get?_insert]
      by_cases heq : binding = target
      · simp [heq, htarget]
      · simp [heq, Ne.symm heq, htarget]

/-- Resolving the first references, one after the other. -/
theorem ResolvedFirst.loop {start : ScopeTable} (h : ResolvedFirst start 0 table) {count : Nat}
    (hcount : count ≤ start.references.size) : ResolvedFirst start count ((List.range count).foldl resolveReference table) := by
  induction count with
  | zero => exact h
  | succ count ih =>
    rw [List.range_succ, List.foldl_append]
    exact (ih (Nat.le_of_lt hcount)).step hcount

/-- What resolving all references leaves: each holds what its name stands for, and the index lists those of each binding in
source order. -/
structure ResolvedAll (start table : ScopeTable) : Prop where
  references : ∀ id : Nat, table.references[id]? = (start.references[id]?).map start.settle
  index : ∀ binding, (table.referencesByBinding.get? binding).getD [] =
    ((List.range start.references.size).filter (start.resolution? · = some binding)).mergeSort
      (fun a b => start.startOf a ≤ start.startOf b)
  rest : table = { start with references := table.references, referencesByBinding := table.referencesByBinding }

/-- All references are resolved. -/
theorem resolvedAll_resolveAll (hindex : table.referencesByBinding = []) : ResolvedAll table table.resolveAll := by
  have h := (ResolvedFirst.start hindex).loop (Nat.le_refl table.references.size)
  unfold resolveAll sortReferences
  generalize (List.range table.references.size).foldl resolveReference table = looped at h
  have hreferences : ∀ id : Nat, looped.references[id]? = (table.references[id]?).map table.settle := by
    intro id
    rw [h.references]
    cases hfound : table.references[id]? with
    | none => rfl
    | some reference => simp [(Array.getElem?_eq_some_iff.1 hfound).1]
  refine ⟨hreferences, fun binding => ?_, h.rest_with _ _⟩
  have hstart : ∀ id, looped.startOf id = table.startOf id := by
    intro id
    rw [startOf, startOf, hreferences, Option.map_map]
    rfl
  simp only [Entries.get?_mapValues, hstart, ← h.index binding]
  cases looped.referencesByBinding.get? binding with
  | none => simp
  | some ids => rfl

namespace ResolvedAll

variable {start : ScopeTable}

/-- Resolving leaves the scopes and the bindings alone. -/
theorem scopes (h : ResolvedAll start table) : table.scopes = start.scopes := by
  rw [h.rest]

theorem bindings (h : ResolvedAll start table) : table.bindings = start.bindings := by
  rw [h.rest]

theorem exists_of_mem (h : ResolvedAll start table) {reference : Reference} (hreference : reference ∈ table.references) :
    ∃ old ∈ start.references, reference = start.settle old := by
  obtain ⟨id, hid⟩ := Array.mem_iff_getElem?.1 hreference
  rw [h.references] at hid
  obtain ⟨old, hold, rfl⟩ := Option.map_eq_some_iff.1 hid
  exact ⟨old, Array.mem_of_getElem? hold, rfl⟩

theorem wellScoped (h : ResolvedAll start table) (hscoped : start.WellScoped) : table.WellScoped := by
  have hscopes := h.scopes
  have hbindings := h.bindings
  refine ⟨?_, ?_, fun reference hreference => ?_, ?_, ?_, fun scope name id => ?_⟩
  · exact hscopes ▸ hscoped.parents
  · exact hscopes ▸ hbindings ▸ hscoped.bindings
  · obtain ⟨old, hold, rfl⟩ := h.exists_of_mem hreference
    exact hscopes ▸ hscoped.references old hold
  · rw [h.rest]
    exact hscoped.moduleScope
  · rw [h.rest]
    exact hscoped.setupScope
  · rw [h.rest]
    exact hscoped.names scope name id

/-- A reference holds what its name stands for in the finished table. -/
theorem resolved (h : ResolvedAll start table) {reference : Reference} (hreference : reference ∈ table.references) :
    reference.resolved = table.resolve? reference.scope reference.name := by
  obtain ⟨old, -, rfl⟩ := h.exists_of_mem hreference
  exact (resolve?_congr h.scopes _ _).symm

/-- The references that the index lists for a binding are those that were resolved to it. -/
theorem mem_index (h : ResolvedAll start table) {id position : Nat} :
    position ∈ (table.referencesByBinding.get? id).getD [] ↔
      ∃ reference, table.references[(position : Nat)]? = some reference ∧ reference.resolved = some id := by
  rw [h.index, List.mem_mergeSort, List.mem_filter, List.mem_range, h.references, resolution?]
  cases hold : start.references[position]? with
  | none => simp
  | some old => simp [settle, (Array.getElem?_eq_some_iff.1 hold).1]

theorem enumerates (h : ResolvedAll start table) (id : Nat) : table.Enumerates id (table.referencesTo id) := by
  refine ⟨_, ?_, fun _ => h.mem_index, rfl⟩
  rw [h.index]
  exact (List.mergeSort_perm _ _).nodup_iff.2 (List.nodup_range.filter _)

theorem ordered (h : ResolvedAll start table) (id : Nat) :
    (table.referencesTo id).Pairwise fun a b => a.span.start ≤ b.span.start := by
  have hsorted : (((List.range start.references.size).filter (start.resolution? · = some id)).mergeSort
      (fun a b => start.startOf a ≤ start.startOf b)).Pairwise fun a b => start.startOf a ≤ start.startOf b := by
    refine (List.pairwise_mergeSort (fun a b c => ?_) (fun a b => ?_) _).imp of_decide_eq_true
    · simpa using Nat.le_trans
    · simpa using Nat.le_total _ _
  rw [referencesTo, h.index, List.pairwise_filterMap]
  refine hsorted.imp fun hle reference hreference other hother => ?_
  rw [h.references] at hreference hother
  obtain ⟨old, hold, rfl⟩ := Option.map_eq_some_iff.1 hreference
  obtain ⟨old', hold', rfl⟩ := Option.map_eq_some_iff.1 hother
  simpa [startOf, hold, hold', settle] using hle

/-- A binding is referenced exactly if it has references. -/
theorem isReferenced_iff (h : ResolvedAll start table) (id : Nat) :
    table.isReferenced id = true ↔ table.referencesTo id ≠ [] := by
  have hempty : table.referencesTo id = [] ↔ (table.referencesByBinding.get? id).getD [] = [] := by
    rw [referencesTo, List.filterMap_eq_nil_iff, List.eq_nil_iff_forall_not_mem]
    refine forall_congr' fun position => ⟨fun hnone hmem => ?_, fun hnot hmem => absurd hmem hnot⟩
    obtain ⟨reference, hreference, -⟩ := h.mem_index.1 hmem
    rw [hnone hmem] at hreference
    cases hreference
  rw [Ne, hempty, isReferenced]
  cases table.referencesByBinding.get? id with
  | none => simp
  | some ids => simp

end ResolvedAll

/-! ## The table of a component -/

/-- The table of a component is what the walk finds, resolved. -/
theorem resolvedAll_ofComponent (component : Component) : ResolvedAll (gather component) (ofComponent component) :=
  resolvedAll_resolveAll (leads_gather component).index

/-- The table of a component is well scoped. -/
theorem wellScoped_ofComponent (component : Component) : (ofComponent component).WellScoped :=
  (resolvedAll_ofComponent component).wellScoped (wellScoped_gather component)

/-- What a table says of names: scopes are numbered after their parents; a use was resolved to the latest binding of its name in
the nearest scope around it that declares the name, if there is one; and the references of a binding are the uses that were
resolved to it, each once, in source order. -/
structure Resolved (table : ScopeTable) : Prop where
  nested : ∀ (id : Nat) (scope : Scope) (parent : Nat), table.scopes[id]? = some scope → scope.parent = some parent →
    parent < id
  placed : ∀ reference ∈ table.references, reference.scope < table.scopes.size
  bound : ∀ reference ∈ table.references, reference.resolved.isSome ↔
    ∃ home id, table.Around reference.scope home ∧ table.Declares home reference.name id
  nearest : ∀ reference ∈ table.references, ∀ id, reference.resolved = some id ↔
    table.StandsFor reference.scope reference.name id
  enumerated : ∀ id, table.Enumerates id (table.referencesTo id)
  ordered : ∀ id, (table.referencesTo id).Pairwise fun a b => a.span.start ≤ b.span.start
  referenced : ∀ id, table.isReferenced id = true ↔ table.referencesTo id ≠ []

/-- The names of every component are resolved. -/
theorem ofComponent_resolved (component : Component) : (ofComponent component).Resolved := by
  have hall := resolvedAll_ofComponent component
  have h := wellScoped_ofComponent component
  exact {
    nested := h.parents
    placed := h.references
    bound := fun _ hreference => hall.resolved hreference ▸ h.resolve?_isSome_iff
    nearest := fun _ hreference _ => hall.resolved hreference ▸ h.resolve?_eq_some_iff
    enumerated := hall.enumerates
    ordered := hall.ordered
    referenced := hall.isReferenced_iff }

end ComponentLint.ScopeTable
