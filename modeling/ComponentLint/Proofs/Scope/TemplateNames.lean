import ComponentLint.Proofs.Scope.TemplateWalk
import ComponentLint.Proofs.Scope.Resolution

/-!
# The names of a template

Names that elements of the template declare are declared in scopes of the template only, whatever the scripts in it declare
(`LocalsInTemplate`). So a function, a block or a catch clause inside an expression has none of them, and a name that stands for
none where the expression begins stands for none inside it (`templateLocal?_eq_none_of_below`).
-/

namespace ComponentLint.ScopeTable

open Markup

/-- A scope belongs to the template. -/
def IsTemplate (table : ScopeTable) (scope : Nat) : Prop :=
  ∃ found, table.scopes[scope]? = some found ∧ found.kind.isTemplate = true

/-- What elements declare is declared in scopes of the template. -/
def LocalsInTemplate (table : ScopeTable) : Prop :=
  ∀ binding ∈ table.bindings, binding.kind.isTemplateLocal = true → table.IsTemplate binding.scope

variable {table old new : ScopeTable} {place : Place}

theorem IsTemplate.mono {scope : Nat} (h : old.IsTemplate scope) (hkeeps : KeepsScopes old new) : new.IsTemplate scope :=
  let ⟨_, hfound, hkind⟩ := h
  let ⟨_, hkept⟩ := hkeeps _ _ hfound
  ⟨_, hkept, hkind⟩

/-- A scope of a script inside the template is none of the template itself. -/
theorem InnerScript.isTemplate_eq {kind : ScopeKind} (h : InnerScript kind) : kind.isTemplate = false := by
  rcases h with rfl | rfl | rfl <;> rfl

namespace LocalsInTemplate

/-- Nothing is declared, and scopes are only added. -/
theorem grow (h : old.LocalsInTemplate) (hkeeps : KeepsScopes old new) (hbindings : new.bindings = old.bindings) :
    new.LocalsInTemplate :=
  fun binding hbinding hlocal => (h binding (hbindings ▸ hbinding) hlocal).mono hkeeps

/-! ## The walk over a tree -/

/-- Collecting at a place that declares names of elements in scopes of the template, if at all. -/
theorem collected {Q : Script.Node → Prop} (hsteps : Collected Q place old new) (h : old.LocalsInTemplate)
    (hplace : ∀ target ∈ place.declaring, target.1.isTemplateLocal = true → old.IsTemplate target.2) :
    new.LocalsInTemplate := by
  induction hsteps with
  | none => exact h
  | andThen hfirst _ ih ih' =>
    exact ih' (ih h hplace) fun target htarget hlocal => (hplace target htarget hlocal).mono hfirst.adds.scopes
  | refer =>
    unfold ScopeTable.refer
    split
    · exact h
    · exact h
  | @declare place table node name kind scope _ _ hdeclaring =>
    intro binding hbinding hlocal
    have hkeeps : KeepsScopes table (table.declare place name node.span kind scope) := keepsScopes_declare _ _ _ _
    rcases Array.mem_push.1 hbinding with hold | rfl
    · exact (h binding hold hlocal).mono hkeeps
    · exact (hplace _ hdeclaring hlocal).mono hkeeps
  | declares hkind _ _ ih =>
    refine ih h fun target htarget hlocal => ?_
    cases htarget
    rw [hkind] at hlocal
    cases hlocal
  | plain _ ih => exact ih h (by simp [Place.plain])
  | inside _ hopen _ ih =>
    obtain ⟨-, -, hkeeps, hbindings, -⟩ := openUnder_spec hopen
    exact ih (h.grow hkeeps hbindings) fun target htarget hlocal => (hplace target htarget hlocal).mono hkeeps

theorem collect (h : table.LocalsInTemplate)
    (hplace : ∀ target ∈ place.declaring, target.1.isTemplateLocal = true → table.IsTemplate target.2) (use : Use)
    (node : Script.Node) : (table.collect place use node).LocalsInTemplate := by
  have hsteps : Collected (fun _ => True) place table (table.collect place use node) :=
    collected_collect (fun _ _ _ _ => trivial) place use table trivial
  exact h.collected hsteps hplace

/-- Collecting where no names are declared. -/
theorem collectPlain (h : table.LocalsInTemplate) (hplace : place.declaring = none) (use : Use) (node : Script.Node) :
    (table.collect place use node).LocalsInTemplate :=
  h.collect (by simp [hplace]) use node

theorem foldl {α : Type} {step : ScopeTable → α → ScopeTable} (h : table.LocalsInTemplate)
    (hstep : ∀ (table : ScopeTable) item, table.LocalsInTemplate → (step table item).LocalsInTemplate) (items : List α) :
    (items.foldl step table).LocalsInTemplate := by
  induction items generalizing table with
  | nil => exact h
  | cons item items ih => exact ih (hstep table item h)

/-! ## The walk over the template -/

theorem collectValue (h : table.LocalsInTemplate) (hplace : place.declaring = none) (value : DirectiveValue) :
    (collectValue place table value).LocalsInTemplate := by
  unfold ScopeTable.collectValue
  split
  · exact h.collectPlain hplace .plain _
  · exact h.foldl (fun _ node htable => htable.collectPlain hplace .plain node) _
  · exact h

/-- The names of an element are declared in the scope that is opened for them. -/
theorem openElement (h : table.LocalsInTemplate) (hplace : place.declaring = none) {kind : ScopeKind}
    (hkind : kind.isTemplate = true) (declared : BindingKind) (span : Span) (id : NodeId) (params : Script.Node) :
    (openElement place kind declared span id params table).2.LocalsInTemplate ∧
      (ScopeTable.openElement place kind declared span id params table).1.declaring = none := by
  unfold ScopeTable.openElement
  split
  next scope opened hopen =>
  obtain ⟨-, ⟨found, hfound, hfoundKind, -⟩, hkeeps, hbindings, -⟩ := openUnder_spec hopen
  extract_lets noted inner
  have hnoted : noted.LocalsInTemplate := h.grow hkeeps hbindings
  refine ⟨hnoted.collect (fun target htarget _ => ?_) .plain params, hplace⟩
  cases htarget
  exact ⟨found, hfound, hfoundKind ▸ hkind⟩

theorem enterElement (h : table.LocalsInTemplate) (hplace : place.declaring = none) (id : NodeId) (span : Span)
    (element : Element) : (enterElement place table id span element).2.LocalsInTemplate ∧
      (ScopeTable.enterElement place table id span element).1.declaring = none := by
  unfold ScopeTable.enterElement
  extract_lets outer
  have houter : outer.declaring = none := hplace
  split
  next inner looped hlooped =>
  have hloop : looped.LocalsInTemplate ∧ inner.declaring = none := by
    have heq : looped = (inner, looped).2 ∧ inner = (inner, looped).1 := ⟨rfl, rfl⟩
    rw [heq.1, heq.2, ← hlooped]
    split
    · exact (h.collectPlain houter .plain _).openElement houter rfl _ _ _ _
    · exact ⟨h, houter⟩
  split
  · exact hloop.1.openElement hloop.2 rfl _ _ _ _
  · exact hloop

theorem collectNode (document : Document) (fuel : Nat) (h : table.LocalsInTemplate) (hplace : place.declaring = none)
    (id : NodeId) : (collectNode document fuel place table id).LocalsInTemplate := by
  induction fuel generalizing place table id with
  | zero => exact h
  | succ fuel ih =>
    unfold ScopeTable.collectNode
    split
    · split
      · exact h.collectPlain hplace .plain _
      · exact h
    · next span element _ =>
      obtain ⟨hentered, hinner⟩ := h.enterElement hplace id span element
      generalize ScopeTable.enterElement place table id span element = result at hentered hinner ⊢
      have hvalues := hentered.foldl (fun _ value htable => htable.collectValue hinner value)
        (element.attributes.filterMap (·.meaning?))
      exact hvalues.foldl (fun _ child htable => ih htable hinner child) (document.children id)
    · exact h

/-! ## The walk over the component -/

theorem collectScript (h : table.LocalsInTemplate) (scope : Nat) (block : ScriptBlock) :
    (collectScript table scope block).LocalsInTemplate :=
  h.foldl (fun _ statement htable => htable.collectPlain rfl .plain statement) block.statements

end LocalsInTemplate

theorem localsInTemplate_gather (component : Component) : (gather component).LocalsInTemplate := by
  have hplain : (withPlainScript component empty).LocalsInTemplate := by
    have hempty : empty.LocalsInTemplate := by
      intro binding hbinding
      simp [empty] at hbinding
    unfold withPlainScript
    split
    · next block _ =>
      split
      next scope opened hopen =>
      obtain ⟨-, -, hkeeps, hbindings, -⟩ := openUnder_spec hopen
      have hopened : LocalsInTemplate { opened with moduleScope := some scope } := hempty.grow hkeeps hbindings
      exact hopened.collectScript scope block
    · exact hempty
  have hsetup : (withSetupScript component (withPlainScript component empty)).LocalsInTemplate := by
    unfold withSetupScript
    split
    · next block _ =>
      split
      next scope opened hopen =>
      obtain ⟨-, -, hkeeps, hbindings, -⟩ := openUnder_spec hopen
      have hopened := hplain.grow hkeeps hbindings
      extract_lets marked
      refine LocalsInTemplate.collectScript (fun binding hbinding hlocal => ?_) scope block
      -- Marking the scope of the setup script leaves the kinds of scopes alone.
      obtain ⟨found, hfound, hkind⟩ := hopened binding hbinding hlocal
      have hmarked : marked[binding.scope]? =
          some (if scope = binding.scope then { found with setup := true } else found) := by
        rw [Array.getElem?_modify, hfound]
        split <;> rfl
      refine ⟨_, hmarked, ?_⟩
      split
      · exact hkind
      · exact hkind
    · exact hplain
  unfold gather withTemplate
  split
  · next id _ =>
    extract_lets document
    split
    next scope opened hopen =>
    obtain ⟨-, -, hkeeps, hbindings, -⟩ := openUnder_spec hopen
    have hopened : LocalsInTemplate { opened with templateScope := some scope } := hsetup.grow hkeeps hbindings
    exact hopened.foldl (fun table child htable => htable.collectNode document document.size rfl child) _
  · exact hsetup

/-- The elements of every component declare names in scopes of the template. -/
theorem localsInTemplate_ofComponent (component : Component) : (ofComponent component).LocalsInTemplate := by
  rw [(resolvedAll_ofComponent component).rest]
  exact localsInTemplate_gather component

/-! ## Names inside an expression -/

/-- A name that stands for no name of an element stands for none in the functions, blocks and catch clauses inside. -/
theorem templateLocal?_eq_none_of_below (hscoped : table.WellScoped) (hlocals : table.LocalsInTemplate)
    {inner outer : Nat} (hbelow : table.Below inner outer) {name : String} (h : table.templateLocal? outer name = none) :
    table.templateLocal? inner name = none := by
  induction hbelow with
  | self => exact h
  | @up inner parent outer scope hscope hkind hparent _ ih =>
    have hrest := ih h
    unfold templateLocal? at hrest ⊢
    rw [hscoped.resolve?_eq, hscope, Option.bind_some, hparent, Option.bind_some]
    cases hown : table.own? inner name with
    | none => exact hrest
    | some id =>
      obtain ⟨binding, hbinding, hhome, -⟩ := ((hscoped.names inner name id).1 hown).1
      have hnot : binding.kind.isTemplateLocal = false := by
        -- The scope is one of a script, so it declares no name of an element.
        by_contra hlocal
        obtain ⟨found, hfound, htemplate⟩ :=
          hlocals binding (Array.mem_of_getElem? hbinding) (by simpa using hlocal)
        rw [hhome, hscope] at hfound
        cases hfound
        rw [hkind.isTemplate_eq] at htemplate
        cases htemplate
      simp [binding?, hbinding, hnot]

/-- What a name stands for in a scope where it stands for no name of an element. -/
theorem StandsFor.isTemplateLocal_eq (hscoped : table.WellScoped) {scope id : Nat} {name : String}
    (h : table.StandsFor scope name id) (hnot : table.templateLocal? scope name = none) {binding : Binding}
    (hbinding : table.bindings[id]? = some binding) : binding.kind.isTemplateLocal = false := by
  rw [← hscoped.resolve?_eq_some_iff] at h
  by_contra hlocal
  simp [templateLocal?, h, binding?, hbinding, hlocal] at hnot

end ComponentLint.ScopeTable
