import ComponentLint.Proofs.Scope.Resolution
import ComponentLint.Proofs.Markup.Construction
import Mathlib.Data.List.Induction

/-!
# The order of declarations

Names are only ever added behind those that are declared already. The template is walked in the order of its nodes, and an element
declares the aliases of its loop before the parameters of its slot, so the names of the template stand in the order of their
elements, and those of one loop or one slot stand side by side (`ranked_ofComponent`).
-/

namespace ComponentLint

open Markup

/-- Where an element declares names: elements count in their order, and the loop of an element before its slot. -/
def BindingKind.rankAt (kind : BindingKind) (id : NodeId) : Nat :=
  2 * id + if kind = .slotParam then 1 else 0

theorem BindingKind.lt_of_rankAt_lt {kind : BindingKind} {id limit : Nat} (h : kind.rankAt id < 2 * limit) : id < limit := by
  rw [rankAt] at h
  omega

theorem BindingKind.le_of_rankAt_le {kind kind' : BindingKind} {id other : Nat} (h : kind.rankAt id ≤ kind'.rankAt other) :
    id ≤ other := by
  rw [rankAt, rankAt] at h
  split at h <;> split at h <;> omega

/-- Where the template declares a name. -/
def Binding.rank (binding : Binding) : Nat :=
  binding.kind.rankAt (binding.node.getD 0)

/-- Declarations of which those of the template are made by elements, in order and within bounds. -/
structure Ranked (first last : Nat) (bindings : List Binding) : Prop where
  owned : ∀ binding ∈ bindings, binding.kind.isTemplateLocal = true → ∃ id, binding.node = some id
  within : ∀ binding ∈ bindings, binding.kind.isTemplateLocal = true → first ≤ binding.rank ∧ binding.rank < last
  sorted : (bindings.filter (·.kind.isTemplateLocal)).Pairwise fun a b => a.rank ≤ b.rank

namespace Ranked

variable {first middle last : Nat} {bindings : List Binding}

/-- Declarations of scripts are bound by nothing. -/
theorem of_script (h : ∀ binding ∈ bindings, binding.kind.isTemplateLocal = false) : Ranked first last bindings := by
  refine ⟨fun binding hbinding hlocal => ?_, fun binding hbinding hlocal => ?_, ?_⟩
  · rw [h binding hbinding] at hlocal
    cases hlocal
  · rw [h binding hbinding] at hlocal
    cases hlocal
  · rw [List.filter_eq_nil_iff.2 fun binding hbinding => by simp [h binding hbinding]]
    exact .nil

/-- Declarations that an element makes of one kind. -/
theorem of_rank {rank : Nat}
    (howned : ∀ binding ∈ bindings, binding.kind.isTemplateLocal = true → ∃ id, binding.node = some id)
    (hrank : ∀ binding ∈ bindings, binding.kind.isTemplateLocal = true → binding.rank = rank) :
    Ranked rank (rank + 1) bindings := by
  refine ⟨howned, fun binding hbinding hlocal => ?_, ?_⟩
  · rw [hrank binding hbinding hlocal]
    exact ⟨Nat.le_refl rank, Nat.lt_succ_self rank⟩
  · refine List.pairwise_of_forall_mem_list fun a ha b hb => ?_
    obtain ⟨ha, hlocal⟩ := List.mem_filter.1 ha
    obtain ⟨hb, hlocal'⟩ := List.mem_filter.1 hb
    rw [hrank a ha hlocal, hrank b hb hlocal']

theorem mono {first' last' : Nat} (h : Ranked first last bindings) (hfirst : first' ≤ first) (hlast : last ≤ last') :
    Ranked first' last' bindings := by
  refine ⟨h.owned, fun binding hbinding hlocal => ?_, h.sorted⟩
  obtain ⟨hfrom, hbelow⟩ := h.within binding hbinding hlocal
  exact ⟨Nat.le_trans hfirst hfrom, Nat.lt_of_lt_of_le hbelow hlast⟩

theorem append {later : List Binding} (h : Ranked first middle bindings) (h' : Ranked middle last later)
    (hfirst : first ≤ middle) (hlast : middle ≤ last) : Ranked first last (bindings ++ later) := by
  refine ⟨List.forall_mem_append.2 ⟨h.owned, h'.owned⟩,
    List.forall_mem_append.2 ⟨(h.mono (Nat.le_refl first) hlast).within, (h'.mono hfirst (Nat.le_refl last)).within⟩, ?_⟩
  rw [List.filter_append]
  refine List.pairwise_append.2 ⟨h.sorted, h'.sorted, fun a ha b hb => ?_⟩
  obtain ⟨ha, hlocal⟩ := List.mem_filter.1 ha
  obtain ⟨hb, hlocal'⟩ := List.mem_filter.1 hb
  exact Nat.le_trans (Nat.le_of_lt (h.within a ha hlocal).2) (h'.within b hb hlocal').1

end Ranked

namespace ScopeTable

/-- New declarations are added behind the old ones, those of the template in order and within bounds. -/
def DeclaresWithin (first last : Nat) (old new : ScopeTable) : Prop :=
  ∃ added, new.bindings.toList = old.bindings.toList ++ added ∧ Ranked first last added

namespace DeclaresWithin

variable {first middle last : Nat} {old new : ScopeTable}

theorem of_eq (first last : Nat) (h : new.bindings = old.bindings) : DeclaresWithin first last old new :=
  ⟨[], by rw [h, List.append_nil], .of_script nofun⟩

theorem trans {between : ScopeTable} (h : DeclaresWithin first middle old between)
    (h' : DeclaresWithin middle last between new) (hfirst : first ≤ middle) (hlast : middle ≤ last) :
    DeclaresWithin first last old new := by
  obtain ⟨added, heq, hadded⟩ := h
  obtain ⟨later, heq', hlater⟩ := h'
  exact ⟨added ++ later, by rw [heq', heq, List.append_assoc], hadded.append hlater hfirst hlast⟩

theorem mono {first' last' : Nat} (h : DeclaresWithin first last old new) (hfirst : first' ≤ first) (hlast : last ≤ last') :
    DeclaresWithin first' last' old new := by
  obtain ⟨added, heq, hadded⟩ := h
  exact ⟨added, heq, hadded.mono hfirst hlast⟩

/-- What a fold declares, step after step, if none of its steps declares for the template. -/
theorem foldl {α : Type} {step : ScopeTable → α → ScopeTable}
    (hstep : ∀ table item, DeclaresWithin first first table (step table item)) (items : List α) (table : ScopeTable) :
    DeclaresWithin first first table (items.foldl step table) := by
  induction items generalizing table with
  | nil => exact .of_eq first first rfl
  | cons item items ih => exact (hstep table item).trans (ih _) (Nat.le_refl first) (Nat.le_refl first)

end DeclaresWithin

variable {old new table : ScopeTable} {place : Place} {id : NodeId}

/-! ## Trees -/

/-- What collecting at a place declares: of the names of the template, only those that the place declares. -/
theorem Collected.added {Q : Script.Node → Prop} (h : Collected Q place old new) :
    ∃ added, new.bindings.toList = old.bindings.toList ++ added ∧ ∀ binding ∈ added, binding.kind.isTemplateLocal = true →
      (∃ scope, place.declaring = some (binding.kind, scope)) ∧ binding.node = place.element := by
  induction h with
  | none => exact ⟨[], by simp, nofun⟩
  | andThen _ _ ih ih' =>
    obtain ⟨added, heq, hadded⟩ := ih
    obtain ⟨later, heq', hlater⟩ := ih'
    exact ⟨added ++ later, by rw [heq', heq, List.append_assoc], List.forall_mem_append.2 ⟨hadded, hlater⟩⟩
  | @refer place table =>
    refine ⟨[], ?_, nofun⟩
    unfold ScopeTable.refer
    split <;> simp
  | @declare place table node name kind scope _ _ hdeclaring =>
    refine ⟨[_], Array.toList_push, fun binding hbinding hlocal => ?_⟩
    obtain rfl := List.mem_singleton.1 hbinding
    exact ⟨⟨scope, hdeclaring⟩, if_pos hlocal⟩
  | declares hkind _ _ ih =>
    obtain ⟨added, heq, hadded⟩ := ih
    refine ⟨added, heq, fun binding hbinding hlocal => ?_⟩
    obtain ⟨⟨scope, hdeclaring⟩, -⟩ := hadded binding hbinding hlocal
    cases hdeclaring
    rw [hkind] at hlocal
    cases hlocal
  | plain _ ih =>
    obtain ⟨added, heq, hadded⟩ := ih
    refine ⟨added, heq, fun binding hbinding hlocal => ?_⟩
    obtain ⟨⟨scope, hdeclaring⟩, -⟩ := hadded binding hbinding hlocal
    cases hdeclaring
  | inside _ hopen _ ih =>
    cases hopen
    exact ih

/-- Collecting from a tree at a place takes the steps that are allowed there. -/
theorem collected_any (place : Place) (use : Use) (table : ScopeTable) (node : Script.Node) :
    Collected (fun _ => True) place table (collect place use table node) :=
  collected_collect (fun _ _ _ _ => trivial) place use table trivial

/-- Where no names are declared, collecting declares nothing for the template. -/
theorem declaresWithin_collect (hdeclaring : place.declaring = none) (first last : Nat) (use : Use) (table : ScopeTable)
    (node : Script.Node) : DeclaresWithin first last table (collect place use table node) := by
  obtain ⟨added, heq, hadded⟩ := (collected_any place use table node).added
  refine ⟨added, heq, .of_script fun binding hbinding => Bool.eq_false_iff.2 fun hlocal => ?_⟩
  obtain ⟨⟨scope, hsome⟩, -⟩ := hadded binding hbinding hlocal
  rw [hdeclaring] at hsome
  cases hsome

theorem declaresWithin_collectValue (hdeclaring : place.declaring = none) (first : Nat) (table : ScopeTable)
    (value : DirectiveValue) : DeclaresWithin first first table (collectValue place table value) := by
  unfold collectValue
  split
  · exact declaresWithin_collect hdeclaring first first .plain table _
  · exact .foldl (declaresWithin_collect hdeclaring first first .plain) _ table
  · exact .of_eq first first rfl

/-! ## Elements -/

/-- Opening the scope of an element declares names of one rank there. -/
theorem declaresWithin_openElement (helement : place.element = some id) (kind : ScopeKind) (declared : BindingKind) (span : Span)
    (params : Script.Node) (table : ScopeTable) :
    DeclaresWithin (declared.rankAt id) (declared.rankAt id + 1) table
      (openElement place kind declared span id params table).2 := by
  unfold openElement
  split
  next scope opened hopen =>
  extract_lets noted inner
  obtain ⟨added, heq, hadded⟩ := (collected_any (inner.declares declared scope) .plain noted params).added
  have hbindings : noted.bindings = table.bindings := by
    cases hopen
    rfl
  rw [hbindings] at heq
  refine ⟨added, heq, .of_rank (fun binding hbinding hlocal => ?_) fun binding hbinding hlocal => ?_⟩
  · exact ⟨id, (hadded binding hbinding hlocal).2.trans helement⟩
  · obtain ⟨⟨_, hdeclaring⟩, hnode⟩ := hadded binding hbinding hlocal
    have hkind : declared = binding.kind := congrArg Prod.fst (Option.some.inj hdeclaring)
    rw [Binding.rank, hnode.trans helement, hkind]
    rfl

theorem openElement_place (place : Place) (kind : ScopeKind) (declared : BindingKind) (span : Span) (id : NodeId)
    (params : Script.Node) (table : ScopeTable) :
    (openElement place kind declared span id params table).1.declaring = place.declaring ∧
      (openElement place kind declared span id params table).1.element = place.element :=
  ⟨rfl, rfl⟩

/-- Entering an element declares the aliases of its loop, and then the parameters of its slot. -/
theorem declaresWithin_enterElement (hdeclaring : place.declaring = none) (table : ScopeTable) (id : NodeId) (span : Span)
    (element : Element) : (enterElement place table id span element).1.declaring = none ∧
      DeclaresWithin (2 * id) (2 * id + 2) table (enterElement place table id span element).2 := by
  unfold enterElement
  extract_lets outer
  split
  next inner looped hlooped =>
  have hloop : (inner.declaring = none ∧ inner.element = some id) ∧ DeclaresWithin (2 * id) (2 * id + 1) table looped := by
    split at hlooped
    · next aliases source _ _ =>
      have houter : outer.declaring = none := hdeclaring
      have hnode : outer.element = some id := rfl
      have hsource := declaresWithin_collect houter (2 * id) (2 * id) .plain table source
      have hopened := declaresWithin_openElement hnode .loop .loopAlias span aliases (table.collect outer .plain source)
      obtain ⟨hplain, hnode⟩ := openElement_place outer .loop .loopAlias span id aliases (table.collect outer .plain source)
      rw [hlooped] at hopened hplain hnode
      exact ⟨⟨hplain.trans hdeclaring, hnode⟩, hsource.trans hopened (Nat.le_refl _) (Nat.le_succ _)⟩
    · cases hlooped
      exact ⟨⟨hdeclaring, rfl⟩, .of_eq _ _ rfl⟩
  obtain ⟨⟨hplain, hnode⟩, hloop⟩ := hloop
  split
  · next params _ =>
    obtain ⟨hplain', -⟩ := openElement_place inner .slot .slotParam span id params looped
    have hopened := declaresWithin_openElement hnode .slot .slotParam span params looped
    exact ⟨hplain'.trans hplain, hloop.trans hopened (Nat.le_succ _) (Nat.le_succ _)⟩
  · exact ⟨hplain, hloop.mono (Nat.le_refl _) (Nat.le_succ _)⟩

/-! ## The template -/

section Template

variable {document : Document} {stack : List Nat} {fuel : Nat}

/-- Children declare one after the other, each with what is under it. -/
theorem declaresWithin_children (hshape : Shaped document.nodes stack) {first limit : Nat} {children : List NodeId}
    (hchildren : ∀ child ∈ children, document.parent? child = some id) (hsorted : children.Pairwise fun a b : Nat => a < b)
    (hfirst : ∀ child ∈ children, first ≤ child) (hle : first ≤ limit)
    (hlimit : ∀ child ∈ children, ∀ under, Above document.nodes child under → under < document.nodes.size → under < limit)
    (hstep : ∀ child ∈ children, ∀ bound table,
      (∀ under, Above document.nodes child under → under < document.nodes.size → under < bound) →
      DeclaresWithin (2 * child) (2 * bound) table (collectNode document fuel place table child)) (table : ScopeTable) :
    DeclaresWithin (2 * first) (2 * limit) table (children.foldl (collectNode document fuel place) table) := by
  induction children using List.reverseRecOn generalizing limit with
  | nil => exact .of_eq _ _ rfl
  | append_singleton earlier child ih =>
    obtain ⟨hearlier, hchild⟩ := List.forall_mem_append.1 hchildren
    obtain ⟨hfirstEarlier, hfirstChild⟩ := List.forall_mem_append.1 hfirst
    obtain ⟨hstepEarlier, hstepChild⟩ := List.forall_mem_append.1 hstep
    obtain ⟨hsortedEarlier, -, hless⟩ := List.pairwise_append.1 hsorted
    have hlast := List.mem_singleton_self child
    have hparent := hchild child hlast
    -- What the children before it declare comes before the child.
    have hbefore := ih hearlier hsortedEarlier hfirstEarlier (hfirstChild child hlast) (fun other hother under habove hsize =>
      hshape.lt_of_children (hearlier other hother) hparent (hless other hother child hlast) habove hsize) hstepEarlier
    have hbelow := hlimit child (List.mem_append_right earlier hlast)
    rw [List.foldl_append, List.foldl_cons, List.foldl_nil]
    refine hbefore.trans (hstepChild child hlast limit _ hbelow) ?_ ?_
    · exact Nat.mul_le_mul_left 2 (hfirstChild child hlast)
    · exact Nat.mul_le_mul_left 2 (Nat.le_of_lt (hbelow child .refl (hshape.parentOf_lt hparent).2))

/-- A node and what is under it declare in the order of their numbers. -/
theorem declaresWithin_collectNode (hshape : Shaped document.nodes stack) (fuel : Nat) (hdeclaring : place.declaring = none)
    {limit : Nat} (hid : id < limit)
    (hlimit : ∀ under, Above document.nodes id under → under < document.nodes.size → under < limit) (table : ScopeTable) :
    DeclaresWithin (2 * id) (2 * limit) table (collectNode document fuel place table id) := by
  induction fuel generalizing place table id limit with
  | zero => exact .of_eq _ _ rfl
  | succ fuel ih =>
    unfold collectNode
    split
    · split
      · exact declaresWithin_collect hdeclaring _ _ .plain table _
      · exact .of_eq _ _ rfl
    · next span element _ =>
      obtain ⟨hplain, hentered⟩ := declaresWithin_enterElement hdeclaring table id span element
      generalize enterElement place table id span element = result at hplain hentered ⊢
      obtain ⟨inner, entered⟩ := result
      have hvalues := DeclaresWithin.foldl (declaresWithin_collectValue hplain (2 * id + 2))
        (element.attributes.filterMap (·.meaning?)) entered
      have hparent : ∀ child ∈ document.children id, document.parent? child = some id := fun child hchild =>
        hshape.mem_children.1 hchild
      have hbelow : ∀ child ∈ document.children id, ∀ under, Above document.nodes child under →
          under < document.nodes.size → under < limit := fun child hchild under habove =>
        hlimit under ((Above.step (hparent child hchild) .refl).trans habove)
      have hchildren := declaresWithin_children hshape hparent (hshape.pairwise_children id)
        (fun child hchild => (hshape.parentOf_lt (hparent child hchild)).1) hid hbelow (fun child hchild bound table hbound =>
          ih hplain (hbound child .refl (hshape.parentOf_lt (hparent child hchild)).2) hbound table)
        ((element.attributes.filterMap (·.meaning?)).foldl (collectValue inner) entered)
      have hle : 2 * (id + 1) ≤ 2 * limit := Nat.mul_le_mul_left 2 hid
      exact (hentered.trans hvalues (Nat.le_add_right _ 2) (Nat.le_refl _)).trans hchildren (Nat.le_add_right _ 2) hle
    · exact .of_eq _ _ rfl

end Template

/-! ## The component -/

theorem declaresWithin_collectScript (table : ScopeTable) (scope : Nat) (block : ScriptBlock) :
    DeclaresWithin 0 0 table (collectScript table scope block) :=
  .foldl (declaresWithin_collect rfl 0 0 .plain) _ table

/-- The scripts declare nothing for the template. -/
theorem declaresWithin_scripts (component : Component) :
    DeclaresWithin 0 0 empty (withSetupScript component (withPlainScript component empty)) := by
  have hplain : DeclaresWithin 0 0 empty (withPlainScript component empty) := by
    unfold withPlainScript
    split
    · exact declaresWithin_collectScript _ _ _
    · exact .of_eq 0 0 rfl
  refine hplain.trans ?_ (Nat.le_refl 0) (Nat.le_refl 0)
  unfold withSetupScript
  split
  · exact declaresWithin_collectScript _ _ _
  · exact .of_eq 0 0 rfl

/-- The names of a template stand in the order of their elements, for each element the aliases of its loop before the parameters
of its slot. -/
theorem ranked_ofComponent {component : Component} {stack : List Nat} (hshape : Shaped component.document.nodes stack) :
    Ranked 0 (2 * component.document.size) (ofComponent component).bindings.toList := by
  have htemplate : DeclaresWithin 0 (2 * component.document.size) empty (gather component) := by
    refine (declaresWithin_scripts component).trans ?_ (Nat.le_refl 0) (Nat.zero_le _)
    unfold gather
    generalize withSetupScript component (withPlainScript component empty) = table
    unfold withTemplate
    split
    · next id _ =>
      have hparent : ∀ child ∈ component.document.children id, component.document.parent? child = some id :=
        fun child hchild => hshape.mem_children.1 hchild
      refine declaresWithin_children hshape hparent (hshape.pairwise_children id) (fun _ _ => Nat.zero_le _) (Nat.zero_le _)
        (fun _ _ _ _ hsize => hsize) (fun child hchild bound table hbound => ?_) _
      exact declaresWithin_collectNode hshape _ rfl
        (hbound child .refl (hshape.parentOf_lt (hparent child hchild)).2) hbound table
    · exact .of_eq _ _ rfl
  obtain ⟨added, heq, hadded⟩ := htemplate
  rw [(resolvedAll_ofComponent component).bindings, heq]
  exact hadded

end ScopeTable

end ComponentLint
