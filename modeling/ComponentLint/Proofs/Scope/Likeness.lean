import ComponentLint.Proofs.Scope.Resolution
import ComponentLint.Proofs.Script.Likeness

/-!
# Tables of files that are alike

Collecting from trees that are alike makes tables that are alike (`ScopeTable.Alike`): the same scopes, bindings
and references in the same order, at the same places, and between the references perhaps those that the edit
adds. One step keeps this whatever it records (`Alike.openUnder`, `Alike.declare`, `Alike.refer`), and so does
the walk (`alike_all`).
-/

namespace ComponentLint

/-- Arrays whose entries are related one by one. -/
structure Paired {α : Type} (R : α → α → Prop) (old new : Array α) : Prop where
  size : new.size = old.size
  entries : ∀ (id : Nat) x y, old[id]? = some x → new[id]? = some y → R x y

/-- Lists whose entries are related one by one, apart from entries that the second has in addition. -/
inductive Woven {α : Type} (R : α → α → Prop) (extra : α → Prop) : List α → List α → Prop where
  | nil : Woven R extra [] []
  | both {x y : α} {xs ys : List α} (h : R x y) (hrest : Woven R extra xs ys) : Woven R extra (x :: xs) (y :: ys)
  | added {y : α} {xs ys : List α} (h : extra y) (hrest : Woven R extra xs ys) : Woven R extra xs (y :: ys)

section Pairs

variable {α : Type} {R : α → α → Prop} {extra : α → Prop}

namespace Paired

variable {old new : Array α}

theorem cases (h : Paired R old new) (id : Nat) :
    (old[id]? = none ∧ new[id]? = none) ∨ ∃ x y, old[id]? = some x ∧ new[id]? = some y ∧ R x y := by
  rcases Nat.lt_or_ge id old.size with hlt | hle
  · have hold := Array.getElem?_eq_getElem hlt
    have hnew := Array.getElem?_eq_getElem (h.size ▸ hlt : id < new.size)
    exact .inr ⟨_, _, hold, hnew, h.entries id _ _ hold hnew⟩
  · exact .inl ⟨Array.getElem?_eq_none hle, Array.getElem?_eq_none (h.size ▸ hle)⟩

theorem push (h : Paired R old new) {x y : α} (hxy : R x y) : Paired R (old.push x) (new.push y) := by
  refine ⟨by rw [Array.size_push, Array.size_push, h.size], fun id a b ha hb => ?_⟩
  rw [Array.getElem?_push] at ha hb
  rw [h.size] at hb
  split at ha
  · next heq =>
    rw [if_pos heq] at hb
    cases ha
    cases hb
    exact hxy
  · next hne =>
    rw [if_neg hne] at hb
    exact h.entries id a b ha hb

theorem modify (h : Paired R old new) (id : Nat) {f : α → α} (hf : ∀ x y, R x y → R (f x) (f y)) :
    Paired R (old.modify id f) (new.modify id f) := by
  refine ⟨by rw [Array.size_modify, Array.size_modify, h.size], fun other a b ha hb => ?_⟩
  rw [Array.getElem?_modify] at ha hb
  split at ha
  · next heq =>
    rw [if_pos heq] at hb
    obtain ⟨x, hx, rfl⟩ := Option.map_eq_some_iff.1 ha
    obtain ⟨y, hy, rfl⟩ := Option.map_eq_some_iff.1 hb
    exact hf x y (h.entries other x y hx hy)
  · next hne =>
    rw [if_neg hne] at hb
    exact h.entries other a b ha hb

end Paired

namespace Woven

variable {xs ys xs' ys' : List α}

theorem append (h : Woven R extra xs ys) (h' : Woven R extra xs' ys') : Woven R extra (xs ++ xs') (ys ++ ys') := by
  induction h with
  | nil => exact h'
  | both hxy _ ih => exact .both hxy ih
  | added hextra _ ih => exact .added hextra ih

theorem map {R' : α → α → Prop} {extra' : α → Prop} {f g : α → α} (h : Woven R extra xs ys)
    (hboth : ∀ x y, R x y → R' (f x) (g y))
    (hadded : ∀ y, extra y → extra' (g y)) : Woven R' extra' (xs.map f) (ys.map g) := by
  induction h with
  | nil => exact .nil
  | both hxy _ ih => exact .both (hboth _ _ hxy) ih
  | added hextra _ ih => exact .added (hadded _ hextra) ih

theorem mem (h : Woven R extra xs ys) {y : α} (hy : y ∈ ys) : (∃ x ∈ xs, R x y) ∨ extra y := by
  induction h with
  | nil => cases hy
  | both hxy _ ih =>
    rcases List.mem_cons.1 hy with rfl | hy
    · exact .inl ⟨_, List.mem_cons_self, hxy⟩
    · rcases ih hy with ⟨x, hx, hrel⟩ | hextra
      · exact .inl ⟨x, List.mem_cons_of_mem _ hx, hrel⟩
      · exact .inr hextra
  | added hextra _ ih =>
    rcases List.mem_cons.1 hy with rfl | hy
    · exact .inr hextra
    · exact ih hy

/-- Without entries in addition the lists are related one by one. -/
theorem forall₂ (h : Woven R extra xs ys) (hnone : ∀ y, ¬extra y) : List.Forall₂ R xs ys := by
  induction h with
  | nil => exact .nil
  | both hxy _ ih => exact .cons hxy ih
  | added hextra => exact absurd hextra (hnone _)

end Woven

end Pairs

/-- Scopes that are the same, wherever they stand. -/
def Scope.Alike (old new : Scope) : Prop :=
  new = { old with span := new.span }

/-- Bindings that are the same, at two places. -/
def Binding.Alike (place : Span → Span → Prop) (old new : Binding) : Prop :=
  place old.span new.span ∧ new = { old with span := new.span }

/-- References that are the same, at two places. -/
def Reference.Alike (place : Span → Span → Prop) (old new : Reference) : Prop :=
  place old.span new.span ∧ new = { old with span := new.span }

namespace ScopeTable

/-- Tables of two files: the same scopes, bindings and references, at the same places, and perhaps references in addition. -/
structure Alike (place : Span → Span → Prop) (extra : Reference → Prop) (old new : ScopeTable) : Prop where
  scopes : Paired Scope.Alike old.scopes new.scopes
  bindings : Paired (Binding.Alike place) old.bindings new.bindings
  references : Woven (Reference.Alike place) extra old.references.toList new.references.toList
  bindingSpans : ∀ span span', place span span' → new.bindingSpans.get? span' = old.bindingSpans.get? span
  /-- The references are numbered alike if there are none in addition. -/
  referenceSpans : (∀ reference, ¬extra reference) → ∀ span span', place span span' →
    new.referenceSpans.get? span' = old.referenceSpans.get? span
  elementScopes : new.elementScopes = old.elementScopes
  moduleScope : new.moduleScope = old.moduleScope
  setupScope : new.setupScope = old.setupScope
  templateScope : new.templateScope = old.templateScope

namespace Alike

variable {place : Span → Span → Prop} {extra : Reference → Prop} {old new : ScopeTable} {span span' : Span}

theorem openUnder (h : old.Alike place extra new) (span span' : Span) (kind : ScopeKind) (parent : Option Nat)
    (node : Option Markup.NodeId) : (new.openUnder kind span' parent node).1 = (old.openUnder kind span parent node).1 ∧
      (old.openUnder kind span parent node).2.Alike place extra (new.openUnder kind span' parent node).2 := by
  refine ⟨h.scopes.size, { h with scopes := h.scopes.push ?_ }⟩
  have hsetup : ((parent.bind (new.scopes[·]?)).map (·.setup)).getD false =
      ((parent.bind (old.scopes[·]?)).map (·.setup)).getD false := by
    cases parent with
    | none => rfl
    | some id =>
      rw [Option.bind_some, Option.bind_some]
      rcases h.scopes.cases id with ⟨hold, hnew⟩ | ⟨scope, scope', hold, hnew, hscope⟩
      · rw [hold, hnew]
      · rw [hold, hnew, show scope' = _ from hscope]
        rfl
  rw [hsetup]
  rfl

theorem openAt (h : old.Alike place extra new) (span' : Span) {here : Place} {kind : ScopeKind} {scope : Nat}
    {opened : ScopeTable} (hopen : old.openAt here kind span = (scope, opened)) :
    ∃ scope' opened', new.openAt here kind span' = (scope', opened') ∧ scope' = scope ∧ opened.Alike place extra opened' := by
  obtain ⟨hscope, hopened⟩ := h.openUnder span span' kind here.scope? none
  obtain ⟨rfl, rfl⟩ := Prod.mk.inj hopen
  exact ⟨_, _, rfl, hscope, hopened⟩

theorem declare (h : old.Alike place extra new) (hspan : place span span') (hunique : ∀ {a a' b b'}, place a a' →
      place b b' → (a = b ↔ a' = b'))
    (here : Place) (name : String) (kind : BindingKind) (scope : Nat) :
    (old.declare here name span kind scope).Alike place extra (new.declare here name span' kind scope) := by
  refine { h with
    scopes := ?_
    bindings := h.bindings.push ⟨hspan, rfl⟩
    bindingSpans := fun other other' hother => ?_ }
  · unfold ScopeTable.declare
    rw [h.bindings.size]
    refine h.scopes.modify scope (f := fun scope => { scope with names := scope.names.insert name old.bindings.size }) fun
      scope scope' hscope => ?_
    rw [show scope' = _ from hscope]
    rfl
  · unfold ScopeTable.declare
    rw [Entries.get?_insert, Entries.get?_insert, h.bindings.size, h.bindingSpans other other' hother]
    simp only [hunique hother hspan]

theorem refer (h : old.Alike place extra new) (hspan : place span span') (hunique : ∀ {a a' b b'}, place a a' →
      place b b' → (a = b ↔ a' = b'))
    (here : Place) (name : String) (use : Use) : (old.refer here name span use).Alike place extra
      (new.refer here name span' use) := by
  unfold ScopeTable.refer
  split
  · next scope hscope =>
    refine { h with
      references := ?_
      referenceSpans := fun hnone other other' hother => ?_ }
    · rw [Array.toList_push, Array.toList_push]
      exact h.references.append (.both ⟨hspan, rfl⟩ .nil)
    · have hsize : new.references.size = old.references.size := (h.references.forall₂ hnone).length_eq.symm
      rw [Entries.get?_insert, Entries.get?_insert, hsize, h.referenceSpans hnone other other' hother]
      simp only [hunique hother hspan]
  · exact h

/-- A reference in addition. -/
theorem add (h : old.Alike place extra new) (here : Place) (name : String) (span : Span) (use : Use)
    (hextra : ∀ scope, extra ⟨name, span, scope, use, here.inTemplate, none⟩) : old.Alike place extra
      (new.refer here name span use) := by
  unfold ScopeTable.refer
  split
  · next scope _ =>
    refine { h with
      references := ?_
      referenceSpans := fun hnone => absurd (hextra scope) (hnone _) }
    rw [Array.toList_push, ← List.append_nil old.references.toList]
    exact h.references.append (.added (hextra scope) .nil)
  · exact h

theorem declareHere (h : old.Alike place extra new) (hunique : ∀ {a a' b b'}, place a a' → place b b' → (a = b ↔ a' = b'))
    (here : Place) {node node' : Script.Node} {name : String} (hname : node.kind = .binding name)
    (hname' : node'.kind = .binding name)
    (hspan : place node.span node'.span) (kind : BindingKind) :
    (old.declareHere here node kind).Alike place extra (new.declareHere here node' kind) := by
  unfold ScopeTable.declareHere
  rw [hname, hname']
  split
  · next heq _ =>
    cases heq
    exact h.declare hspan hunique here _ kind _
  · exact h

theorem variableTarget_eq (h : old.Alike place extra new) (here : Place) (keyword : Script.VariableKind) :
    new.variableTarget here keyword = old.variableTarget here keyword := by
  have htarget : new.hoistTarget? here = old.hoistTarget? here := by
    unfold hoistTarget?
    congr 1
    funext scope
    rcases h.scopes.cases scope with ⟨hold, hnew⟩ | ⟨found, found', hold, hnew, hfound⟩
    · rw [hold, hnew]
    · rw [hold, hnew, show found' = _ from hfound]
      cases found with | mk kind =>
      cases kind <;> rfl
  cases keyword with
  | varKeyword => exact congrArg (Prod.mk _) htarget
  | _ => rfl

/-- Names stand for bindings of the same numbers. -/
theorem resolve?_eq (h : old.Alike place extra new) (scope : Nat) (name : String) : new.resolve? scope name =
    old.resolve? scope name := by
  have hparent : ∀ scope : Nat, (new.scopes[scope]?).bind (·.parent) = (old.scopes[scope]?).bind (·.parent) := by
    intro scope
    rcases h.scopes.cases scope with ⟨hold, hnew⟩ | ⟨found, found', hold, hnew, hfound⟩
    · rw [hold, hnew]
    · rw [hold, hnew, show found' = _ from hfound]
      rfl
  have hchain : ∀ fuel scope, new.chainWithin fuel scope = old.chainWithin fuel scope := by
    intro fuel
    induction fuel with
    | zero => intro scope; rfl
    | succ fuel ih =>
      intro scope
      rw [chainWithin, chainWithin, hparent]
      split
      · rw [ih]
      · rfl
  have hown : ∀ scope, new.own? scope name = old.own? scope name := by
    intro scope
    unfold own?
    rcases h.scopes.cases scope with ⟨hold, hnew⟩ | ⟨found, found', hold, hnew, hfound⟩
    · rw [hold, hnew]
    · rw [hold, hnew, show found' = _ from hfound]
      rfl
  unfold resolve? chain
  rw [hchain, h.scopes.size]
  simp only [hown]

theorem standsFor_iff (h : old.Alike place extra new)
    (hold : old.WellScoped) (hnew : new.WellScoped) {scope target : Nat} {name : String} :
    new.StandsFor scope name target ↔ old.StandsFor scope name target := by
  rw [← hnew.resolve?_eq_some_iff, ← hold.resolve?_eq_some_iff, h.resolve?_eq]

/-- Names of elements are names of elements in both tables. -/
theorem templateLocal?_eq (h : old.Alike place extra new) (scope : Nat) (name : String) :
    new.templateLocal? scope name = old.templateLocal? scope name := by
  unfold templateLocal?
  rw [h.resolve?_eq]
  cases old.resolve? scope name with
  | none => rfl
  | some target =>
    simp only [Option.bind_eq_bind, Option.bind_some, binding?]
    rcases h.bindings.cases target with ⟨hold, hnew⟩ | ⟨binding, binding', hold, hnew, -, hbinding⟩
    · rw [hold, hnew]
    · rw [hold, hnew, hbinding]
      rfl

/-- The same scope is in effect at a node, if it has the same nodes above it. -/
theorem scopeOf?_eq (h : old.Alike place extra new) {document document' : Markup.Document} {id : Markup.NodeId}
    (hancestors : document'.ancestors id = document.ancestors id) : new.scopeOf? document' id = old.scopeOf? document id := by
  unfold scopeOf?
  rw [hancestors, h.elementScopes, h.templateScope]

/-- More may count as an addition. -/
theorem mono {extra' : Reference → Prop} (h : old.Alike place extra new) (hextra : ∀ reference,
      extra reference → extra' reference) :
    old.Alike place extra' new where
  scopes := h.scopes
  bindings := h.bindings
  references := by
    have hwoven := h.references.map (f := id) (g := id) (fun _ _ => id) hextra
    rwa [List.map_id, List.map_id] at hwoven
  bindingSpans := h.bindingSpans
  referenceSpans hnone := h.referenceSpans fun reference hadded => hnone reference (hextra reference hadded)
  elementScopes := h.elementScopes
  moduleScope := h.moduleScope
  setupScope := h.setupScope
  templateScope := h.templateScope

end Alike

end ScopeTable

/-! ## How parts are used -/

namespace Script.Likeness

variable {likeness : Likeness} {around kind : Kind} {span : Span} {children children' : List Node} {node node' : Node}

/-- A kind that holds no place is kept as it is. -/
theorem Same.inv (h : likeness.Same ⟨kind, span, children⟩ node') (hkind : kind.isMember = false) :
    ∃ span' children', node' = ⟨kind, span', children'⟩ ∧ likeness.place span span' ∧
      likeness.AllAlike kind children children' := by
  obtain ⟨kind', span', children'⟩ := node'
  rcases Kind.eq_of_placeless h.kind with heq | ⟨name, place, -, optional, hmember, -⟩
  · obtain rfl : kind' = kind := heq
    exact ⟨span', children', rfl, h.place, h.parts⟩
  · obtain rfl : kind = _ := hmember
    cases hkind

/-- Parts are of one kind, or of kinds between which it makes no difference. -/
theorem Alike.kind_cases (hdiscreet : likeness.Discreet) (h : likeness.Alike around node node')
    (haround : around.isProperty = false) :
    node'.kind = node.kind ∨ (node.kind.isQuiet = true ∧ node'.kind.isQuiet = true) := by
  cases hquiet : node.kind.isQuiet with
  | true => exact .inr ⟨rfl, (h.isQuiet hdiscreet haround).trans hquiet⟩
  | false => exact .inl (h.same_of_loud hdiscreet haround hquiet).1

/-- The same module is required by the first of two lists. -/
theorem AllAlike.requiredModule?_eq (hdiscreet : likeness.Discreet) (h : likeness.AllAlike around children children') :
    (children'.head?.bind (·.requiredModule?)) = children.head?.bind (·.requiredModule?) := by
  cases h with
  | nil => rfl
  | cons hfirst _ => exact hfirst.requiredModule?_eq hdiscreet

/-- How a value is used by the target that it is assigned to does not depend on the target but for its kind. -/
theorem ofPart_assigned (operator : String) {target target' : Node} (h : target'.kind = target.kind ∨
    (target.kind.isQuiet = true ∧ target'.kind.isQuiet = true)) (span span' : Span) (rest rest' : List Node) (index : Nat) :
    Use.ofPart ⟨.assign operator, span', target' :: rest'⟩
      (index + 1) = Use.ofPart ⟨.assign operator, span, target :: rest⟩ (index + 1) := by
  have hquiet : ∀ {target : Node} (span : Span) (rest : List Node), target.kind.isQuiet = true →
      Use.ofPart ⟨.assign operator, span, target :: rest⟩
        (index + 1) = if operator != "=" then .reading .operand else .plain := by
    rintro ⟨kind, _, _⟩ span rest hquiet
    cases kind with
    | arrayTarget => cases hquiet
    | objectTarget => cases hquiet
    | _ => rfl
  obtain ⟨kind, _, _⟩ := target
  obtain ⟨kind', _, _⟩ := target'
  rcases h with heq | ⟨h, h'⟩
  · obtain rfl : kind' = kind := heq
    cases kind' <;> rfl
  · rw [hquiet span rest h, hquiet span' rest' h']

theorem ofPart_initial {pattern pattern' : Node} (h : pattern'.kind = pattern.kind ∨
    (pattern.kind.isQuiet = true ∧ pattern'.kind.isQuiet = true)) (span span' : Span) (rest rest' : List Node) :
    Use.ofPart ⟨.declarator, span', pattern' :: rest'⟩ 1 = Use.ofPart ⟨.declarator, span, pattern :: rest⟩ 1 := by
  have hquiet : ∀ {pattern : Node} (span : Span) (rest : List Node), pattern.kind.isQuiet = true →
      Use.ofPart ⟨.declarator, span, pattern :: rest⟩ 1 = .reading .destructured := by
    rintro ⟨kind, _, _⟩ span rest hquiet
    cases kind with
    | binding name => cases hquiet
    | _ => rfl
  obtain ⟨kind, _, _⟩ := pattern
  obtain ⟨kind', _, _⟩ := pattern'
  rcases h with heq | ⟨h, h'⟩
  · obtain rfl : kind' = kind := heq
    cases kind' <;> rfl
  · rw [hquiet span rest h, hquiet span' rest' h']

theorem ofPart_indexed {key key' : Node} (h : key'.kind = key.kind ∨ (key.kind.isQuiet = true ∧ key'.kind.isQuiet = true))
    (optional : Bool) (span span' : Span) (object object' : Node) :
    Use.ofPart ⟨.index optional, span', [object', key']⟩ 0 = Use.ofPart ⟨.index optional, span, [object, key]⟩ 0 := by
  have hquiet : ∀ {key : Node} (span : Span) (object : Node), key.kind.isQuiet = true →
      Use.ofPart ⟨.index optional, span, [object, key]⟩ 0 = .reading .unknown := by
    rintro ⟨kind, _, _⟩ span object hquiet
    cases kind with
    | string value => cases hquiet
    | _ => rfl
  obtain ⟨kind, _, _⟩ := key
  obtain ⟨kind', _, _⟩ := key'
  rcases h with heq | ⟨h, h'⟩
  · obtain rfl : kind' = kind := heq
    cases kind' <;> rfl
  · rw [hquiet span object h, hquiet span' object' h']

/-- Nodes of one kind with parts that are alike use these parts in the same way. -/
theorem Same.ofPart_eq (hdiscreet : likeness.Discreet) (h : likeness.Same node node') (index : Nat) :
    Use.ofPart node' index = Use.ofPart node index := by
  obtain ⟨kind, span, children⟩ := node
  obtain ⟨kind', span', children'⟩ := node'
  obtain ⟨hkind, -, hparts⟩ := h
  rcases Kind.eq_of_placeless hkind with heq | ⟨name, place, place', optional, hmember, hmember'⟩
  · obtain rfl : kind = kind' := heq.symm
    cases kind with
    | assign operator =>
      cases index with
      | zero => rfl
      | succ index =>
        cases hparts with
        | nil => rfl
        | cons htarget _ => exact ofPart_assigned operator (htarget.kind_cases hdiscreet rfl) _ _ _ _ index
    | declarator =>
      rcases index with _ | _ | index
      · rfl
      · cases hparts with
        | nil => rfl
        | cons hpattern _ => exact ofPart_initial (hpattern.kind_cases hdiscreet rfl) _ _ _ _
      · rfl
    | index optional =>
      cases index with
      | succ index => rfl
      | zero =>
        cases hparts with
        | nil => rfl
        | cons _ hparts =>
          cases hparts with
          | nil => rfl
          | cons hkey hparts =>
            cases hparts with
            | nil => exact ofPart_indexed (hkey.kind_cases hdiscreet rfl) optional _ _ _ _
            | cons _ _ => simp [Use.ofPart]
    | _ => rcases index with _ | _ | index <;> rfl
  · obtain rfl : kind = _ := hmember
    obtain rfl : kind' = _ := hmember'
    rfl

end Script.Likeness

/-! ## Collecting -/

namespace ScopeTable

open Script

/-- An edit that collecting does not see but for the references that it adds. -/
structure Harmless (likeness : Likeness) (extra : Reference → Prop) : Prop extends likeness.Discreet where
  /-- Different places stay different. -/
  unique : ∀ {a a' b b'}, likeness.place a a' → likeness.place b b' → (a = b ↔ a' = b')
  collects : ∀ around node leaf, likeness.exchange? around node = some leaf → ∀ here use old new,
    ScopeTable.Alike likeness.place extra old new →
      (collect here use old node).Alike likeness.place extra (collect here use new ⟨leaf.1, leaf.2, []⟩)
  requires : ∀ around node leaf, likeness.exchange? around node = some leaf → ∀ here kind scope source old new,
    ScopeTable.Alike likeness.place extra old new →
      (collectRequired here kind scope source old node).Alike likeness.place extra
        (collectRequired here kind scope source new ⟨leaf.1, leaf.2, []⟩)

variable {likeness : Likeness} {extra : Reference → Prop} {around : Kind} {here : Place} {use : Use} {old new : ScopeTable}
  {node node' : Node} {nodes nodes' : List Node} (h : Harmless likeness extra)

theorem declareHere_of_ne {table : ScopeTable} (hother : ∀ name, node.kind ≠ .binding name) (kind : BindingKind) :
    table.declareHere here node kind = table := by
  unfold declareHere
  split
  · next name _ hname _ => exact absurd hname (hother name)
  · rfl

section Walk

include h

theorem Alike.declareName (halike : old.Alike likeness.place extra new) (hparts : likeness.AllAlike around nodes nodes')
    (haround : around.isProperty = false) (kind : BindingKind) :
    (declareName here kind old nodes).Alike likeness.place extra (declareName here kind new nodes') := by
  induction nodes generalizing nodes' with
  | nil =>
    cases hparts
    exact halike
  | cons part rest ih =>
    cases hparts with
    | cons hfirst hrest =>
      rcases hfirst.declared h.toDiscreet haround with ⟨name, hname, hname', hplace⟩ | ⟨hother, hother'⟩
      · simp only [ScopeTable.declareName, hname, hname']
        exact halike.declareHere h.unique here hname hname' hplace kind
      · rw [ScopeTable.declareName, ScopeTable.declareName]
        split
        · next name hname => exact absurd hname (hother name)
        · exact ih hrest

theorem Alike.declareImports (halike : old.Alike likeness.place extra new) (source : String) {typeOnly : Bool}
    (hparts : likeness.AllAlike (.importDeclaration source typeOnly) nodes nodes') :
    (declareImports here source old nodes).Alike likeness.place extra (declareImports here source new nodes') := by
  fun_induction ScopeTable.declareImports here source old nodes generalizing new nodes' with
  | case1 =>
    cases hparts
    exact halike
  | case2 table what span local' others rest ih =>
    cases hparts with
    | cons hfirst hrest =>
      obtain ⟨-, hsame⟩ := hfirst.same_of_loud h.toDiscreet rfl rfl
      obtain ⟨span', children', rfl, -, hchildren⟩ := hsame.inv rfl
      cases hchildren with
      | cons hlocal _ =>
        simp only [ScopeTable.declareImports]
        refine ih ?_ hrest
        rcases hlocal.declared h.toDiscreet rfl with ⟨name, hname, hname', hplace⟩ | ⟨hother, hother'⟩
        · exact halike.declareHere h.unique here hname hname' hplace _
        · rw [declareHere_of_ne hother, declareHere_of_ne hother']
          exact halike
  | case3 table head rest hhead ih =>
    cases hparts with
    | @cons _ _ head' _ rest' hfirst hrest =>
      rw [ScopeTable.declareImports]
      · exact ih halike hrest
      · rintro what span local' others rfl
        have hkind := (hfirst.kind_eq_iff h.toDiscreet rfl (.importSpecifier what false) rfl).1 rfl
        obtain ⟨-, -, -, hchildren⟩ := hfirst.same_of_loud h.toDiscreet rfl (hkind ▸ rfl)
        obtain ⟨kind, span, children⟩ := head
        obtain rfl : kind = _ := hkind
        cases hchildren with
        | cons => exact hhead _ _ _ _ rfl

/-- Collecting from a part keeps tables alike if it does so from a part that is kept. -/
theorem Alike.collect_part (hpart : ∀ node' new, likeness.Same node node' → old.Alike likeness.place extra new →
      (collect here use old node).Alike likeness.place extra (collect here use new node'))
    (halike : old.Alike likeness.place extra new) (hnode : likeness.Alike around node node') :
    (collect here use old node).Alike likeness.place extra (collect here use new node') := by
  rcases hnode.cases with ⟨leaf, hleaf, rfl⟩ | ⟨-, hsame⟩
  · exact h.collects _ _ _ hleaf here use old new halike
  · exact hpart node' new hsame halike

/-- Collecting from trees that are alike, and from each kind of list of parts, keeps tables alike. -/
theorem alike_all :
    (∀ here use old node, ∀ node' new, likeness.Same node node' → old.Alike likeness.place extra new →
      (collect here use old node).Alike likeness.place extra (collect here use new node')) ∧
    (∀ here scope old parts, ∀ around parts' new, likeness.AllAlike around parts parts' → old.Alike likeness.place extra new →
      (collectCatch here scope old parts).Alike likeness.place extra (collectCatch here scope new parts')) ∧
    (∀ here node index old parts, ∀ around node' parts' new, (∀ index, Use.ofPart node' index = Use.ofPart node index) →
      likeness.AllAlike around parts parts' → old.Alike likeness.place extra new →
      (collectParts here node index old parts).Alike likeness.place extra (collectParts here node' index new parts')) ∧
    (∀ here scope old parts, ∀ around parts' new, around.isProperty = false → likeness.AllAlike around parts parts' →
      old.Alike likeness.place extra new →
      (collectFunction here scope old parts).Alike likeness.place extra (collectFunction here scope new parts')) ∧
    (∀ here kind scope old parts, ∀ keyword parts' new, likeness.AllAlike (.variables keyword) parts parts' →
      old.Alike likeness.place extra new →
      (collectDeclarators here kind scope old parts).Alike likeness.place extra (collectDeclarators here kind scope new parts')) ∧
    (∀ here kind scope source old pattern, ∀ pattern' new, likeness.Same pattern pattern' → old.Alike likeness.place extra new →
      (collectRequired here kind scope source old pattern).Alike likeness.place extra
        (collectRequired here kind scope source new pattern')) ∧
    (∀ here scope source old parts, ∀ around parts' new, around.isProperty = false → likeness.AllAlike around parts parts' →
      old.Alike likeness.place extra new →
      (collectRequiredParts here scope source old parts).Alike likeness.place extra
        (collectRequiredParts here scope source new parts')) := by
  apply collect.mutual_induct
  -- The nodes that stand for names.
  case case1 =>
    intro here use old span children name node' new hsame halike
    obtain ⟨span', children', rfl, hplace, -⟩ := hsame.inv rfl
    simp only [collect]
    exact halike.refer hplace h.unique here name use
  case case2 =>
    intro here use old span children name kind scope hdeclaring node' new hsame halike
    obtain ⟨span', children', rfl, hplace, -⟩ := hsame.inv rfl
    simp only [collect, hdeclaring]
    exact halike.declare hplace h.unique here name kind scope
  case case3 =>
    intro here use old span children name hdeclaring node' new hsame halike
    obtain ⟨span', children', rfl, -, -⟩ := hsame.inv rfl
    simp only [collect, hdeclaring]
    exact halike
  case case4 =>
    intro here use old span children source node' new hsame halike
    obtain ⟨span', children', rfl, -, -⟩ := hsame.inv rfl
    simp only [collect, if_true]
    exact halike
  case case5 =>
    intro here use old span children source typeOnly htype node' new hsame halike
    obtain ⟨span', children', rfl, -, hparts⟩ := hsame.inv rfl
    simp only [collect, if_neg htype]
    exact halike.declareImports h source hparts
  case case6 =>
    intro here use old span children keyword kind scope htarget ih node' new hsame halike
    obtain ⟨span', children', rfl, -, hparts⟩ := hsame.inv rfl
    simp only [collect, htarget, halike.variableTarget_eq]
    exact ih keyword children' new hparts halike
  -- The nodes that open scopes.
  case case7 =>
    intro here use old span children declaration declared scope opened hopen inner named ih node' new hsame halike
    obtain ⟨span', children', rfl, hplace, hparts⟩ := hsame.inv rfl
    simp only [collect]
    rw [hopen]
    generalize hdeclared' : (if declaration = true then ScopeTable.declareName here .function new children' else new) = declared'
    have hdeclared : declared.Alike likeness.place extra declared' := by
      rw [← hdeclared']
      unfold declared
      split
      · exact halike.declareName h hparts rfl .function
      · exact halike
    obtain ⟨scope', opened', hopen', rfl, hopened⟩ := hdeclared.openAt span' hopen
    rw [hopen']
    refine ih _ _ _ rfl hparts ?_
    unfold named
    split
    · exact hopened
    · exact hopened.declareName h hparts rfl .function
  case case8 =>
    intro here use old span children concise scope opened hopen ih node' new hsame halike
    obtain ⟨span', children', rfl, hplace, hparts⟩ := hsame.inv rfl
    obtain ⟨scope', opened', hopen', rfl, hopened⟩ := halike.openAt span' hopen
    simp only [collect, hopen, hopen']
    exact ih _ _ _ rfl hparts hopened
  case case9 =>
    intro here use old span children declared ih node' new hsame halike
    have huses := hsame.ofPart_eq h.toDiscreet
    obtain ⟨span', children', rfl, -, hparts⟩ := hsame.inv rfl
    simp only [collect]
    exact ih _ _ _ _ huses hparts (halike.declareName h hparts rfl .classDef)
  case case10 =>
    intro here use old span subject cases after scope opened hopen ihSubject ihCases node' new hsame halike
    obtain ⟨span', children', rfl, hplace, hparts⟩ := hsame.inv rfl
    cases hparts with
    | cons hsubject hcases =>
      simp only [collect]
      rw [hopen]
      obtain ⟨scope', opened', hopen', rfl, hopened⟩ := (halike.collect_part h ihSubject hsubject).openAt span' hopen
      rw [hopen']
      exact ihCases _ _ _ _ (fun _ => rfl) hcases hopened
  case case11 =>
    intro here use old span node' new hsame halike
    obtain ⟨span', children', rfl, -, hparts⟩ := hsame.inv rfl
    cases hparts
    simp only [collect]
    exact halike
  case case12 =>
    intro here use old span children scope opened hopen ih node' new hsame halike
    obtain ⟨span', children', rfl, hplace, hparts⟩ := hsame.inv rfl
    obtain ⟨scope', opened', hopen', rfl, hopened⟩ := halike.openAt span' hopen
    simp only [collect, hopen, hopen']
    exact ih _ _ _ hparts hopened
  case case13 =>
    intro here use old kind span children hblock scope opened hopen _ _ _ _ _ _ _ _ _ ih node' new hsame halike
    have huses := hsame.ofPart_eq h.toDiscreet
    obtain ⟨span', children', rfl, hplace, hparts⟩ := hsame.inv (by cases kind <;> first | rfl | cases hblock)
    obtain ⟨scope', opened', hopen', rfl, hopened⟩ := halike.openAt span' hopen
    simp only [collect, hblock, if_true, hopen, hopen']
    exact ih _ _ _ _ huses hparts hopened
  case case14 =>
    intro here use old kind span children hblock _ _ _ _ _ _ _ _ _ ih node' new hsame halike
    have huses := hsame.ofPart_eq h.toDiscreet
    have hparts := hsame.parts
    obtain ⟨kind', span', children'⟩ := node'
    rcases Kind.eq_of_placeless hsame.kind with heq | ⟨name, place, place', optional, hmember, hmember'⟩
    · obtain rfl : kind = kind' := heq.symm
      simp only [collect, hblock]
      exact ih _ _ _ _ huses hparts halike
    · obtain rfl : kind = _ := hmember
      obtain rfl : kind' = _ := hmember'
      simp only [collect, opensBlock]
      exact ih _ _ _ _ huses hparts halike
  -- The patterns that take what `require` gave.
  case case15 =>
    intro here kind scope source old name span children node' new hsame halike
    obtain ⟨span', children', rfl, hplace, -⟩ := hsame.inv rfl
    simp only [collectRequired]
    exact halike.declare hplace h.unique here name _ scope
  case case16 =>
    intro here kind scope source old span parts ih node' new hsame halike
    obtain ⟨span', children', rfl, -, hparts⟩ := hsame.inv rfl
    simp only [collectRequired]
    exact ih _ _ _ rfl hparts halike
  case case17 =>
    intro here kind scope source old other span parts hbinding hobject ih node' new hsame halike
    have huses := hsame.ofPart_eq h.toDiscreet
    have hparts := hsame.parts
    obtain ⟨other', span', parts'⟩ := node'
    have hkept : ∀ kind : Kind, kind.isMember = false → other' = kind → other = kind := by
      rintro kind hkind rfl
      rcases Kind.eq_of_placeless hsame.kind with heq | ⟨_, _, _, _, -, hmember⟩
      · exact heq.symm
      · obtain rfl : other' = _ := hmember
        cases hkind
    rw [collectRequired]
    · rw [collectRequired]
      · exact ih _ _ _ _ huses hparts halike
      · exact fun name hkind => hbinding name (hkept _ rfl hkind)
      · exact fun hkind => hobject (hkept _ rfl hkind)
    · exact hbinding
    · exact hobject
  -- The parts of a catch clause.
  case case18 =>
    intro here scope old around parts' new hparts halike
    cases hparts
    simp only [collectCatch]
    exact halike
  case case19 =>
    intro here scope old body ih around parts' new hparts halike
    cases hparts with
    | cons hbody hrest =>
      cases hrest
      simp only [collectCatch]
      exact halike.collect_part h ih hbody
  case case20 =>
    intro here scope old param rest hrest ihParam ihRest around parts' new hparts halike
    cases hparts with
    | cons hparam hlater =>
      rw [collectCatch]
      · rw [collectCatch]
        · exact ihRest _ _ _ hlater (halike.collect_part h ihParam hparam)
        · rintro rfl
          cases hlater
          exact hrest rfl
      · exact hrest
  -- The parts of other nodes.
  case case21 =>
    intro here node index old around node' parts' new huses hparts halike
    cases hparts
    simp only [collectParts]
    exact halike
  case case22 =>
    intro here node index old part rest ihPart ihRest around node' parts' new huses hparts halike
    cases hparts with
    | cons hpart hrest =>
      simp only [collectParts]
      rw [huses]
      exact ihRest _ _ _ _ huses hrest (halike.collect_part h ihPart hpart)
  -- The parts of a function.
  case case23 =>
    intro here scope old around parts' new haround hparts halike
    cases hparts
    simp only [collectFunction]
    exact halike
  case case24 =>
    intro here scope old part rest hkind ihPart ihRest around parts' new haround hparts halike
    cases hparts with
    | cons hpart hrest =>
      have hkind' := (hpart.kind_eq_iff h.toDiscreet haround _ rfl).2 hkind
      simp only [collectFunction, hkind, hkind']
      exact ihRest _ _ _ haround hrest (halike.collect_part h ihPart hpart)
  case case25 =>
    intro here scope old part rest hkind ihPart ihRest around parts' new haround hparts halike
    cases hparts with
    | cons hpart hrest =>
      have hkind' := (hpart.kind_eq_iff h.toDiscreet haround _ rfl).2 hkind
      simp only [collectFunction, hkind, hkind']
      exact ihRest _ _ _ haround hrest (halike.collect_part h ihPart hpart)
  case case26 =>
    intro here scope old part rest hparams hbody ih around parts' new haround hparts halike
    cases hparts with
    | cons hpart hrest =>
      have hparams' := fun hkind => hparams ((hpart.kind_eq_iff h.toDiscreet haround .params rfl).1 hkind)
      have hbody' := fun hkind => hbody ((hpart.kind_eq_iff h.toDiscreet haround .body rfl).1 hkind)
      simp only [collectFunction]
      exact ih _ _ _ haround hrest halike
  -- The declarators of variables.
  case case27 =>
    intro here kind scope old keyword parts' new hparts halike
    cases hparts
    simp only [collectDeclarators]
    exact halike
  case case28 =>
    intro here kind target old form span pattern values rest declared valued ihRequired ihPattern
      ihValues ihRest keyword parts' new
      hparts halike
    cases hparts with
    | @cons _ _ head' _ rest' hfirst hrest =>
      obtain ⟨leaf, hleaf, -⟩ | ⟨-, hsame⟩ := hfirst.cases
      · cases (h.declarators keyword _).symm.trans hleaf
      have huses := hsame.ofPart_eq h.toDiscreet
      have hchildren := hsame.parts
      obtain ⟨form', span', children'⟩ := head'
      cases hchildren with
      | @cons _ _ pattern' _ values' hpattern hvalues =>
        simp only [collectDeclarators]
        refine ihRest _ _ _ hrest (ihValues _ _ _ _ huses hvalues ?_)
        unfold declared
        rw [hvalues.requiredModule?_eq h.toDiscreet]
        split
        · next scope =>
          split
          · next source _ =>
            rcases hpattern.cases with ⟨leaf, hleaf, rfl⟩ | ⟨-, hsame⟩
            · exact h.requires _ _ _ hleaf here kind scope source old new halike
            · exact ihRequired scope source pattern' new hsame halike
          · exact halike.collect_part h (ihPattern scope) hpattern
        · exact halike
  case case29 =>
    intro here kind target old head rest hhead ih keyword parts' new hparts halike
    cases hparts with
    | @cons _ _ head' _ rest' hfirst hrest =>
      obtain ⟨leaf, hleaf, -⟩ | ⟨-, hsame⟩ := hfirst.cases
      · cases (h.declarators keyword _).symm.trans hleaf
      rw [collectDeclarators]
      · rw [collectDeclarators]
        · exact ih _ _ _ hrest halike
        · rintro form span pattern values rfl
          obtain ⟨kind, place, children⟩ := head
          cases hsame.parts with
          | cons => exact hhead _ _ _ _ rfl
      · exact hhead
  -- The properties of a pattern.
  case case30 =>
    intro here scope source old around parts' new haround hparts halike
    cases hparts
    simp only [collectRequiredParts]
    exact halike
  case case31 =>
    intro here scope source old computed span key value rest declared ihValue ihRest around parts' new haround hparts halike
    cases hparts with
    | cons hfirst hrest =>
      obtain ⟨-, hsame⟩ := hfirst.same_of_loud h.toDiscreet haround rfl
      obtain ⟨span', children', rfl, -, hchildren⟩ := hsame.inv rfl
      cases hchildren with
      | @cons _ _ key' _ _ hkey hchildren =>
        cases hchildren with
        | @cons _ _ value' _ _ hvalue hchildren =>
          cases hchildren
          simp only [collectRequiredParts]
          refine ihRest _ _ _ haround hrest ?_
          unfold declared
          rw [hkey.staticName?_eq h.toDiscreet rfl]
          have hother := halike.collect_part h ihValue hvalue
          rcases hvalue.bound? h.toDiscreet rfl with ⟨hbound, hbound'⟩ | ⟨name, place, place', hbound, hbound', hplace⟩
          · rw [hbound, hbound']
            cases key.staticName? <;> exact hother
          · rw [hbound, hbound']
            cases key.staticName? with
            | none => exact hother
            | some imported => exact halike.declare hplace h.unique here name _ scope
  case case32 =>
    intro here scope source old part rest hpart ihPart ihRest around parts' new haround hparts halike
    cases hparts with
    | @cons _ _ part' _ rest' hfirst hrest =>
      rw [collectRequiredParts]
      · rw [collectRequiredParts]
        · exact ihRest _ _ _ haround hrest (halike.collect_part h ihPart hfirst)
        · rintro computed span key value rfl
          have hkind := (hfirst.kind_eq_iff h.toDiscreet haround (.patternProperty computed) rfl).1 rfl
          obtain ⟨-, -, -, hchildren⟩ := hfirst.same_of_loud h.toDiscreet haround (hkind ▸ rfl)
          obtain ⟨kind, place, children⟩ := part
          obtain rfl : kind = _ := hkind
          cases hchildren with
          | cons _ hchildren =>
            cases hchildren with
            | cons _ hchildren =>
              cases hchildren
              exact hpart _ _ _ _ rfl
      · exact hpart

/-- Collecting from trees that are alike keeps tables alike. -/
theorem Alike.collect (halike : old.Alike likeness.place extra new) (hnode : likeness.Alike around node node')
    (here : Place) (use : Use) :
    (collect here use old node).Alike likeness.place extra (collect here use new node') :=
  halike.collect_part h ((alike_all h).1 here use old node) hnode

theorem Alike.collect_foldl (halike : old.Alike likeness.place extra new) (hnodes : likeness.AllAlike around nodes nodes')
    (here : Place) (use : Use) :
    (nodes.foldl (ScopeTable.collect here use) old).Alike likeness.place extra
      (nodes'.foldl (ScopeTable.collect here use) new) := by
  induction nodes generalizing nodes' old new with
  | nil =>
    cases hnodes
    exact halike
  | cons node rest ih =>
    cases hnodes with
    | cons hfirst hrest =>
      have hcollected := halike.collect h hfirst here use
      rw [List.foldl_cons, List.foldl_cons]
      exact ih hcollected hrest

/-- Of a list of parameters only the parts are collected. -/
theorem Alike.collect_params (halike : old.Alike likeness.place extra new)
    (hkind : node.kind = .params) (hkind' : node'.kind = .params)
    (hparts : likeness.AllAlike .params node.children node'.children) (here : Place) (use : Use) :
    (ScopeTable.collect here use old node).Alike likeness.place extra (ScopeTable.collect here use new node') := by
  obtain ⟨kind, span, children⟩ := node
  obtain ⟨kind', span', children'⟩ := node'
  obtain rfl : kind = .params := hkind
  obtain rfl : kind' = .params := hkind'
  simp only [ScopeTable.collect]
  exact (alike_all h).2.2.1 here _ 0 old children _ _ _ _ (fun _ => rfl) hparts halike

end Walk

/-! ## Resolving -/

/-- Names stand for bindings of the same numbers in tables that are alike, so what is added is resolved as in the first table. -/
theorem Alike.resolveAll {place : Span → Span → Prop} (halike : old.Alike place extra new) (hold : old.referencesByBinding = [])
    (hnew : new.referencesByBinding = []) :
    old.resolveAll.Alike place (fun reference => ∃ added, extra added ∧ reference = old.settle added) new.resolveAll := by
  have hresolved := resolvedAll_resolveAll hold
  have hresolved' := resolvedAll_resolveAll hnew
  have hlist : ∀ {start table : ScopeTable}, ResolvedAll start table →
      table.references.toList = start.references.toList.map start.settle := by
    intro start table h
    refine List.ext_getElem? fun id => ?_
    rw [List.getElem?_map, Array.getElem?_toList, Array.getElem?_toList, h.references]
  have hsettle : new.settle = fun reference => { reference with resolved := old.resolve? reference.scope reference.name } := by
    funext reference
    rw [settle, halike.resolve?_eq]
  have hrest := hresolved.rest
  have hrest' := hresolved'.rest
  rw [hrest, hrest']
  refine { halike with references := ?_, referenceSpans := fun hnone => ?_ }
  · dsimp only
    rw [hlist hresolved, hlist hresolved', hsettle]
    refine halike.references.map (fun reference reference' hreference => ?_) fun reference hextra => ⟨reference, hextra, rfl⟩
    obtain ⟨hplace, heq⟩ := hreference
    refine ⟨hplace, ?_⟩
    rw [heq]
    rfl
  · exact halike.referenceSpans fun reference hextra => hnone _ ⟨reference, hextra, rfl⟩

end ScopeTable

end ComponentLint
