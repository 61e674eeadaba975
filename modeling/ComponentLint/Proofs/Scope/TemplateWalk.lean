import ComponentLint.Proofs.Scope.Nesting
import ComponentLint.Proofs.Markup.Fragments

/-!
# The walk over a template

The walk keeps a stack of open scopes; later, the scope in effect at a node is found by searching upwards from it. Both give the
same scope. A place agrees with a node when its innermost scope is the one found at the node (`Place.At`), and each reference is
recorded below the scope found at the node that it stands in (`Recorded`). Nodes are visited in the order of their numbers, and a
node only adds scopes and names of its own, so what was recorded stays true (`Grows`).
-/

namespace ComponentLint

open Markup

namespace ScopeTable

/-- A scope is another one, or lies in it with only functions, blocks and catch clauses between. -/
inductive Below (table : ScopeTable) : Nat → Nat → Prop where
  | self (scope : Nat) : table.Below scope scope
  | up {inner parent outer : Nat} {scope : Scope} (hscope : table.scopes[inner]? = some scope)
      (hkind : InnerScript scope.kind) (hparent : scope.parent = some parent) (hrest : table.Below parent outer) :
      table.Below inner outer

theorem Below.trans {table : ScopeTable} {inner middle outer : Nat} (h : table.Below inner middle)
    (h' : table.Below middle outer) : table.Below inner outer := by
  induction h with
  | self => exact h'
  | up hscope hkind hparent _ ih => exact .up hscope hkind hparent (ih h')

theorem Below.grow {old new : ScopeTable} {inner outer : Nat} (h : old.Below inner outer) (hkeeps : KeepsScopes old new) :
    new.Below inner outer := by
  induction h with
  | self scope => exact .self scope
  | up hscope hkind hparent _ ih =>
    obtain ⟨_, hkept⟩ := hkeeps _ _ hscope
    exact .up hkept hkind hparent ih

/-! ## What collecting adds -/

/-- What collecting at a place adds to a table: uses below the innermost scope of the place, and bindings, of which only those
that the place declares can be names of the template. -/
structure Adds (Q : Script.Node → Prop) (place : Place) (old new : ScopeTable) : Prop where
  scopes : KeepsScopes old new
  elementScopes : new.elementScopes = old.elementScopes
  templateScope : new.templateScope = old.templateScope
  bindings : ∀ binding ∈ new.bindings, binding ∈ old.bindings ∨ binding.node = none ∨ ∃ kind,
    kind.isTemplateLocal = true ∧ place.declaring = some (kind, binding.scope) ∧ binding.node = place.element
  references : ∀ reference ∈ new.references, reference ∈ old.references ∨ ((∃ node, Q node ∧ reference.span = node.span) ∧
    reference.inTemplate = place.inTemplate ∧ ∀ scope ∈ place.scope?, new.Below reference.scope scope)

section Adds

variable {Q : Script.Node → Prop} {place : Place} {old new : ScopeTable}

theorem Adds.refl (Q : Script.Node → Prop) (place : Place) (table : ScopeTable) : Adds Q place table table :=
  ⟨.refl table, rfl, rfl, fun _ h => .inl h, fun _ h => .inl h⟩

theorem Adds.trans {middle : ScopeTable} (h : Adds Q place old middle) (h' : Adds Q place middle new) :
    Adds Q place old new := by
  refine ⟨h.scopes.trans h'.scopes, h'.elementScopes.trans h.elementScopes,
    h'.templateScope.trans h.templateScope, fun binding hbinding => ?_, fun reference hreference => ?_⟩
  · rcases h'.bindings binding hbinding with hmiddle | hnew
    · exact h.bindings binding hmiddle
    · exact .inr hnew
  · rcases h'.references reference hreference with hmiddle | hnew
    · rcases h.references reference hmiddle with hold | ⟨hspan, htemplate, hbelow⟩
      · exact .inl hold
      · exact .inr ⟨hspan, htemplate, fun scope hscope => (hbelow scope hscope).grow h'.scopes⟩
    · exact .inr hnew

/-- A scope that is opened is the next one, under its parent; nothing else changes. -/
theorem openUnder_spec {kind : ScopeKind} {span : Span} {parent : Option Nat} {node : Option NodeId} {scope : Nat}
    {opened : ScopeTable} (hopen : old.openUnder kind span parent node = (scope, opened)) :
    scope = old.scopes.size ∧ (∃ found, opened.scopes[scope]? = some found ∧ found.kind = kind ∧ found.parent = parent) ∧
      KeepsScopes old opened ∧ opened.bindings = old.bindings ∧ opened.references = old.references ∧
      opened.elementScopes = old.elementScopes ∧ opened.templateScope = old.templateScope := by
  cases hopen
  refine ⟨rfl, ⟨_, Array.getElem?_push_size, rfl, rfl⟩, fun id found hfound => ?_, rfl, rfl, rfl, rfl⟩
  have hlt := (Array.getElem?_eq_some_iff.1 hfound).1
  exact ⟨found.names, by rw [Array.getElem?_push_lt hlt, ← hfound, Array.getElem?_eq_getElem hlt]⟩

/-- What collecting does, seen from the place. -/
theorem Collected.adds (h : Collected Q place old new) : Adds Q place old new := by
  induction h with
  | none place table => exact .refl Q place table
  | andThen _ _ ih ih' => exact ih.trans ih'
  | @refer place table node name hnode _ use =>
    unfold ScopeTable.refer
    split
    · next scope hscope =>
      refine ⟨.refl table, rfl, rfl, fun _ h => .inl h, fun reference hreference => ?_⟩
      rcases Array.mem_push.1 hreference with hold | rfl
      · exact .inl hold
      · refine .inr ⟨⟨node, hnode, rfl⟩, rfl, fun other hother => ?_⟩
        obtain rfl : scope = other := Option.some.inj (hscope.symm.trans hother)
        exact .self scope
    · exact .refl Q place table
  | @declare place table node name kind scope hnode _ hdeclaring =>
    refine ⟨keepsScopes_declare name node.span kind scope, rfl, rfl, fun binding hbinding => ?_, fun _ h => .inl h⟩
    rcases Array.mem_push.1 hbinding with hold | rfl
    · exact .inl hold
    · by_cases hlocal : kind.isTemplateLocal = true
      · exact .inr (.inr ⟨kind, hlocal, hdeclaring, if_pos hlocal⟩)
      · exact .inr (.inl (if_neg hlocal))
  | declares hkind _ _ ih =>
    refine ⟨ih.scopes, ih.elementScopes, ih.templateScope, fun binding hbinding => ?_, ih.references⟩
    rcases ih.bindings binding hbinding with hold | hnone | ⟨kind, hlocal, hdeclaring, _⟩
    · exact .inl hold
    · exact .inr (.inl hnone)
    · cases hdeclaring
      rw [hkind] at hlocal
      cases hlocal
  | plain _ ih =>
    refine ⟨ih.scopes, ih.elementScopes, ih.templateScope, fun binding hbinding => ?_, ih.references⟩
    rcases ih.bindings binding hbinding with hold | hnone | ⟨kind, _, hdeclaring, _⟩
    · exact .inl hold
    · exact .inr (.inl hnone)
    · cases hdeclaring
  | @inside place table opened new kind span scope hkind hopen _ ih =>
    obtain ⟨_, ⟨found, hfound, rfl, hparent⟩, hkeeps, hbindings, hreferences, helements, htemplate⟩ := openUnder_spec hopen
    refine ⟨hkeeps.trans ih.scopes, ih.elementScopes.trans helements,
      ih.templateScope.trans htemplate, fun binding hbinding => ?_, fun reference hreference => ?_⟩
    · rcases ih.bindings binding hbinding with hold | hnew
      · rw [hbindings] at hold
        exact .inl hold
      · exact .inr hnew
    · rcases ih.references reference hreference with hold | ⟨hspan, hinTemplate, hbelow⟩
      · rw [hreferences] at hold
        exact .inl hold
      · refine .inr ⟨hspan, hinTemplate, fun outer houter => ?_⟩
        obtain ⟨_, hkept⟩ := ih.scopes scope found hfound
        exact (hbelow scope rfl).trans (.up hkept hkind (hparent.trans houter) (.self outer))

/-- Where no names are declared, no binding belongs to the template. -/
theorem Adds.bindings_plain (h : Adds Q place old new) (hdeclaring : place.declaring = none) :
    ∀ binding ∈ new.bindings, binding ∈ old.bindings ∨ binding.node = none := by
  intro binding hbinding
  rcases h.bindings binding hbinding with hold | hnone | ⟨_, _, hsome, _⟩
  · exact .inl hold
  · exact .inr hnone
  · rw [hdeclaring] at hsome
    cases hsome

/-- Collecting from a tree leaves the scopes in effect at nodes alone. -/
theorem Adds.scopeOf?_eq (h : Adds Q place old new) (document : Document) (id : NodeId) :
    new.scopeOf? document id = old.scopeOf? document id := by
  rw [scopeOf?, scopeOf?, h.elementScopes, h.templateScope]

end Adds

/-! ## The scope in effect at a node -/

section ScopeOf

variable {document : Document} {stack : List Nat} {table : ScopeTable}

/-- The scope that an element opened, of several the latest. -/
def elementScope? (table : ScopeTable) (id : NodeId) : Option Nat :=
  (table.elementScopes.find? (·.1 == id)).map (·.2)

/-- The bound on the nodes above a node is never felt. -/
theorem ancestorsWithin_eq (hshape : Shaped document.nodes stack) {fuel fuel' : Nat} {id : NodeId} (hfuel : id ≤ fuel)
    (hfuel' : id ≤ fuel') : document.ancestorsWithin fuel id = document.ancestorsWithin fuel' id := by
  have hzero : ∀ fuel, document.ancestorsWithin fuel 0 = [] := by
    intro fuel
    cases fuel with
    | zero => rfl
    | succ fuel => rw [Document.ancestorsWithin, show document.parent? 0 = none from hshape.parentOf_zero]
  induction fuel generalizing fuel' id with
  | zero =>
    obtain rfl := Nat.le_zero.1 hfuel
    rw [hzero, hzero]
  | succ fuel ih =>
    cases fuel' with
    | zero =>
      obtain rfl := Nat.le_zero.1 hfuel'
      rw [hzero, hzero]
    | succ fuel' =>
      rw [Document.ancestorsWithin, Document.ancestorsWithin]
      split
      · next parent hparent =>
        have hlt := (hshape.parentOf_lt hparent).1
        rw [ih (Nat.le_of_lt_succ (Nat.lt_of_lt_of_le hlt hfuel)) (Nat.le_of_lt_succ (Nat.lt_of_lt_of_le hlt hfuel'))]
      · rfl

theorem ancestors_eq (hshape : Shaped document.nodes stack) (id : NodeId) :
    document.ancestors id = ((document.parent? id).map fun parent => parent :: document.ancestors parent).getD [] := by
  obtain ⟨size, hsize⟩ : ∃ size, document.size = size + 1 := ⟨_, (Nat.succ_pred_eq_of_pos hshape.size_pos).symm⟩
  rw [Document.ancestors, hsize, Document.ancestorsWithin]
  cases hparent : document.parent? id with
  | none => rfl
  | some parent =>
    obtain ⟨hlt, hid⟩ := hshape.parentOf_lt hparent
    have hbound : id ≤ size := Nat.le_of_lt_succ (Nat.lt_of_lt_of_eq hid hsize)
    have hless := Nat.le_of_lt (Nat.lt_of_lt_of_le hlt hbound)
    simp only [Option.map_some, Option.getD_some, Document.ancestors, hsize]
    rw [ancestorsWithin_eq hshape hless (Nat.le_succ_of_le hless)]

/-- The scope in effect at a node: one that the node opened, or else that at its parent. -/
theorem scopeOf?_eq (hshape : Shaped document.nodes stack) (table : ScopeTable) (id : NodeId) :
    table.scopeOf? document id = (table.elementScope? id).or
      (((document.parent? id).map (table.scopeOf? document)).getD table.templateScope) := by
  rw [scopeOf?, List.findSome?_cons, elementScope?]
  cases (table.elementScopes.find? (·.1 == id)).map (·.2) with
  | some scope => rfl
  | none =>
    rw [ancestors_eq hshape]
    cases hparent : document.parent? id with
    | none => rfl
    | some parent => rfl

end ScopeOf

/-! ## Growth -/

/-- The walk over nodes numbered from `first` on: no scope is changed, and what is added for elements is added for those, the
names that they declare in scopes that are new. -/
structure Grows (first : NodeId) (old new : ScopeTable) : Prop where
  scopes : KeepsScopes old new
  templateScope : new.templateScope = old.templateScope
  elementScopes : ∃ added, new.elementScopes = added ++ old.elementScopes ∧ ∀ entry ∈ added, first ≤ entry.1
  bindings : ∀ binding ∈ new.bindings, binding ∈ old.bindings ∨
    ∀ node ∈ binding.node, first ≤ node ∧ old.scopes.size ≤ binding.scope

section Grows

variable {document : Document} {stack : List Nat} {old new : ScopeTable} {first : NodeId}

theorem Grows.refl (first : NodeId) (table : ScopeTable) : Grows first table table :=
  ⟨.refl table, rfl, ⟨[], rfl, by simp⟩, fun _ h => .inl h⟩

theorem Grows.mono {first' : NodeId} (h : Grows first old new) (hle : first' ≤ first) : Grows first' old new := by
  obtain ⟨added, heq, hadded⟩ := h.elementScopes
  refine ⟨h.scopes, h.templateScope, ⟨added, heq, fun entry hentry => Nat.le_trans hle (hadded entry hentry)⟩,
    fun binding hbinding => ?_⟩
  rcases h.bindings binding hbinding with hold | hnew
  · exact .inl hold
  · exact .inr fun node hnode => ⟨Nat.le_trans hle (hnew node hnode).1, (hnew node hnode).2⟩

theorem Grows.trans {middle : ScopeTable} (h : Grows first old middle) (h' : Grows first middle new) :
    Grows first old new := by
  obtain ⟨added, heq, hadded⟩ := h.elementScopes
  obtain ⟨added', heq', hadded'⟩ := h'.elementScopes
  refine ⟨h.scopes.trans h'.scopes, h'.templateScope.trans h.templateScope,
    ⟨added' ++ added, by rw [heq', heq, List.append_assoc], fun entry hentry => ?_⟩, fun binding hbinding => ?_⟩
  · rcases List.mem_append.1 hentry with hlate | hearly
    · exact hadded' entry hlate
    · exact hadded entry hearly
  · rcases h'.bindings binding hbinding with hmiddle | hnew
    · exact h.bindings binding hmiddle
    · exact .inr fun node hnode => ⟨(hnew node hnode).1, Nat.le_trans h.scopes.size_le (hnew node hnode).2⟩

/-- Collecting where no names are declared adds nothing for elements. -/
theorem Adds.grows {Q : Script.Node → Prop} {place : Place} (h : Adds Q place old new) (hdeclaring : place.declaring = none)
    (first : NodeId) : Grows first old new := by
  refine ⟨h.scopes, h.templateScope, ⟨[], h.elementScopes, by simp⟩, fun binding hbinding => ?_⟩
  rcases h.bindings_plain hdeclaring binding hbinding with hold | hnone
  · exact .inl hold
  · rw [hnone]
    exact .inr (by simp)

/-- The scope in effect at a node that has been passed stays. -/
theorem Grows.scopeOf?_eq (hshape : Shaped document.nodes stack) (h : Grows first old new) {id : NodeId} (hid : id < first) :
    new.scopeOf? document id = old.scopeOf? document id := by
  induction id using Nat.strongRecOn with
  | ind id ih =>
    obtain ⟨added, heq, hadded⟩ := h.elementScopes
    have hown : new.elementScope? id = old.elementScope? id := by
      have hnone : added.find? (·.1 == id) = none := by
        refine List.find?_eq_none.2 fun entry hentry htest => ?_
        have hle := hadded entry hentry
        rw [eq_of_beq htest] at hle
        exact Nat.not_lt_of_le hle hid
      rw [elementScope?, heq, List.find?_append, hnone, Option.none_or]
      rfl
    rw [ScopeTable.scopeOf?_eq hshape, ScopeTable.scopeOf?_eq hshape, hown, h.templateScope]
    cases hparent : document.parent? id with
    | none => rfl
    | some parent =>
      have hlt := (hshape.parentOf_lt hparent).1
      rw [Option.map_some, Option.map_some, ih parent hlt (Nat.lt_trans hlt hid)]

end Grows

/-- A scope that lies below the one in effect at a node. -/
def Visible (document : Document) (table : ScopeTable) (inner : Nat) (id : NodeId) : Prop :=
  ∃ scope, table.scopeOf? document id = some scope ∧ table.Below inner scope

theorem Visible.grow {document : Document} {stack : List Nat} {old new : ScopeTable} {first id : NodeId} {inner : Nat}
    (hshape : Shaped document.nodes stack) (h : Visible document old inner id) (hgrows : Grows first old new)
    (hid : id < first) : Visible document new inner id := by
  obtain ⟨scope, hscope, hbelow⟩ := h
  exact ⟨scope, (hgrows.scopeOf?_eq hshape hid).trans hscope, hbelow.grow hgrows.scopes⟩

end ScopeTable

/-- A place at a node of the template: its innermost scope is the one in effect at the node. -/
structure Place.At (document : Document) (table : ScopeTable) (id : NodeId) (place : Place) : Prop where
  scope : ∃ scope, place.scope? = some scope ∧ table.scopeOf? document id = some scope
  declaring : place.declaring = none
  inTemplate : place.inTemplate = true
  within : place.Within table.scopes.size

namespace Place.At

variable {document : Document} {stack : List Nat} {table new : ScopeTable} {id : NodeId} {place : Place}

theorem grow (hshape : Shaped document.nodes stack) (h : place.At document table id) {first : NodeId}
    (hgrows : ScopeTable.Grows first table new) (hid : id < first) : place.At document new id := by
  obtain ⟨scope, hplace, hscope⟩ := h.scope
  exact ⟨⟨scope, hplace, (hgrows.scopeOf?_eq hshape hid).trans hscope⟩, h.declaring, h.inTemplate,
    h.within.mono hgrows.scopes.size_le⟩

/-- At a node that opened no scope, the place is that of its parent. -/
theorem ofParent (hshape : Shaped document.nodes stack) {parent : NodeId} (h : place.At document table parent)
    (hparent : document.parent? id = some parent) (hnone : table.elementScope? id = none) : place.At document table id := by
  obtain ⟨scope, hplace, hscope⟩ := h.scope
  refine ⟨⟨scope, hplace, ?_⟩, h.declaring, h.inTemplate, h.within⟩
  rw [ScopeTable.scopeOf?_eq hshape, hnone, hparent]
  exact hscope

theorem adds (h : place.At document table id) {Q : Script.Node → Prop} {other : Place}
    (hadds : ScopeTable.Adds Q other table new) : place.At document new id := by
  obtain ⟨scope, hplace, hscope⟩ := h.scope
  exact ⟨⟨scope, hplace, (hadds.scopeOf?_eq document id).trans hscope⟩, h.declaring, h.inTemplate,
    h.within.mono hadds.scopes.size_le⟩

/-- What is collected at a node is visible there. -/
theorem visible (h : place.At document table id) {Q : Script.Node → Prop} (hadds : ScopeTable.Adds Q place table new)
    {reference : Reference} (hbelow : ∀ scope ∈ place.scope?, new.Below reference.scope scope) :
    ScopeTable.Visible document new reference.scope id := by
  obtain ⟨scope, hplace, hscope⟩ := h.scope
  exact ⟨scope, (hadds.scopeOf?_eq document id).trans hscope, hbelow scope hplace⟩

end Place.At

namespace ScopeTable

/-! ## Where references are recorded -/

/-- A span of script that runs in the scope of its node: between braces, or in a value that is not a loop. -/
def RunsHere (document : Document) (id : NodeId) (span : Span) : Prop :=
  document.RunsBetweenBraces id span ∨ ∃ attr value, document.RunsIn id attr value span ∧
    ∀ aliases source word, value.meaning ≠ some (.loop aliases source word)

/-- A reference in the loop of an element: in its source, which sees what the parent of the element sees and none of the names
that the element declares, or among its aliases. -/
inductive InLoop (document : Document) (table : ScopeTable) (reference : Reference) (id : NodeId) : Prop where
  | source {attr : Attribute} {value : AttributeValue} {parent : NodeId}
      (hruns : document.RunsIn id attr value reference.span) (hfor : attr.isDirective "for" = true)
      (hparent : document.parent? id = some parent) (hvisible : Visible document table reference.scope parent)
      (hlater : ∀ binding ∈ table.bindings, binding.node = some id → reference.scope < binding.scope)
  | aliases {attr : Attribute} {value : AttributeValue} {split : Nat × LoopWord × Nat}
      (hruns : document.RunsIn id attr value reference.span) (hfor : attr.isDirective "for" = true)
      (hsplit : Fragment.splitLoop? value.raw.toList = some split)
      (hstop : reference.span.stop ≤ value.valueSpan.start + split.1)

/-- Where a reference of a template stands, and what it sees there. -/
inductive Recorded (document : Document) (table : ScopeTable) (reference : Reference) (id : NodeId) : Prop where
  | here (hruns : RunsHere document id reference.span) (hvisible : Visible document table reference.scope id)
  | loop (h : InLoop document table reference id)

section Recorded

variable {document : Document} {stack : List Nat} {old new : ScopeTable} {first id : NodeId} {reference : Reference}

/-- What is recorded of a loop stays true even while its element is visited. -/
theorem InLoop.grow (hshape : Shaped document.nodes stack) (h : InLoop document old reference id)
    (hgrows : Grows first old new) (hid : id ≤ first) (hscope : reference.scope < old.scopes.size) :
    InLoop document new reference id := by
  cases h with
  | source hruns hfor hparent hvisible hlater =>
    have hlt := (hshape.parentOf_lt hparent).1
    refine .source hruns hfor hparent (hvisible.grow hshape hgrows (Nat.lt_of_lt_of_le hlt hid)) fun binding hbinding hnode => ?_
    rcases hgrows.bindings binding hbinding with hold | hnew
    · exact hlater binding hold hnode
    · exact Nat.lt_of_lt_of_le hscope (hnew id hnode).2
  | aliases hruns hfor hsplit hstop => exact .aliases hruns hfor hsplit hstop

theorem Recorded.grow (hshape : Shaped document.nodes stack) (h : Recorded document old reference id)
    (hgrows : Grows first old new) (hid : id < first) (hscope : reference.scope < old.scopes.size) :
    Recorded document new reference id := by
  cases h with
  | here hruns hvisible => exact .here hruns (hvisible.grow hshape hgrows hid)
  | loop h => exact .loop (h.grow hshape hgrows (Nat.le_of_lt hid) hscope)

end Recorded

/-- A table after a walk over some nodes: what it holds for elements is for those, and its references in the template were
recorded there. -/
structure Walked (document : Document) (seen : NodeId → Prop) (table : ScopeTable) : Prop where
  elementScopes : ∀ entry ∈ table.elementScopes, seen entry.1
  bindings : ∀ binding ∈ table.bindings, ∀ node ∈ binding.node, seen node
  references : ∀ reference ∈ table.references, reference.inTemplate = true →
    ∃ id, seen id ∧ Recorded document table reference id

section Walked

variable {document : Document} {stack : List Nat} {table new : ScopeTable} {seen : NodeId → Prop} {id : NodeId}
  {place : Place}

theorem Walked.mono {seen' : NodeId → Prop} (h : Walked document seen table) (hsub : ∀ id, seen id → seen' id) :
    Walked document seen' table := by
  refine ⟨fun entry hentry => hsub _ (h.elementScopes entry hentry),
    fun binding hbinding node hnode => hsub _ (h.bindings binding hbinding node hnode), fun reference hreference htemplate => ?_⟩
  obtain ⟨id, hid, hrecorded⟩ := h.references reference hreference htemplate
  exact ⟨id, hsub id hid, hrecorded⟩

/-- A node that has not been seen opened no scope. -/
theorem Walked.elementScope?_eq_none (h : Walked document seen table) (hid : ¬ seen id) : table.elementScope? id = none := by
  rw [elementScope?, Option.map_eq_none_iff]
  refine List.find?_eq_none.2 fun entry hentry htest => hid ?_
  rw [← eq_of_beq htest]
  exact h.elementScopes entry hentry

/-- Collecting script that runs in the scope of a node, at that node. -/
theorem Walked.collected (hshape : Shaped document.nodes stack) (h : Walked document seen table)
    (hscoped : table.WellScoped) (hid : seen id) (hplace : place.At document table id) {Q : Script.Node → Prop}
    (hQ : ∀ node, Q node → RunsHere document id node.span) (hsteps : Collected Q place table new) :
    Walked document seen new := by
  have hadds := hsteps.adds
  refine ⟨fun entry hentry => ?_, fun binding hbinding node hnode => ?_, fun reference hreference htemplate => ?_⟩
  · rw [hadds.elementScopes] at hentry
    exact h.elementScopes entry hentry
  · rcases hadds.bindings_plain hplace.declaring binding hbinding with hold | hnone
    · exact h.bindings binding hold node hnode
    · rw [hnone] at hnode
      cases hnode
  · rcases hadds.references reference hreference with hold | ⟨⟨node, hnode, hspan⟩, _, hbelow⟩
    · obtain ⟨other, hother, hrecorded⟩ := h.references reference hold htemplate
      have hgrows := hadds.grows hplace.declaring (other + 1)
      exact ⟨other, hother, hrecorded.grow hshape hgrows (Nat.lt_succ_self other) (hscoped.references reference hold)⟩
    · exact ⟨id, hid, .here (hspan ▸ hQ node hnode) (hplace.visible hadds hbelow)⟩

end Walked

end ScopeTable

end ComponentLint
