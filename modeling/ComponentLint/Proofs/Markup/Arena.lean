import Mathlib.Data.List.Sort
import ComponentLint.Markup.Parser

/-!
# The shape of the tree

The nodes of a tree under construction, seen as an array, and the stack of those that are open. `Shaped` is the invariant
that makes the array a tree in document order; it says nothing about spans. A node is added under the innermost open one,
and only nodes on the stack are changed later, so each open node stands above the node that was added last. That is why the
nodes under any node are numbered without a break (`Shaped.interval`), and why a walk downwards meets them in order
(`Shaped.descendants_root`).
-/

namespace ComponentLint.Markup

/-- The parent of a node of an array. -/
def parentOf (nodes : Array Node) (id : Nat) : Option Nat :=
  nodes[id]?.bind (·.parent)

/-- `above` is `id` or stands above it. -/
inductive Above (nodes : Array Node) (above : Nat) : Nat → Prop where
  | refl : Above nodes above above
  | step {id parent : Nat} (hparent : parentOf nodes id = some parent) (h : Above nodes above parent) :
      Above nodes above id

/-- Open nodes, innermost first: each is the child of the next, and the last is the root. -/
def OpenChain (nodes : Array Node) : List Nat → Prop
  | [] => False
  | [last] => last = 0
  | id :: above :: rest => parentOf nodes id = some above ∧ OpenChain nodes (above :: rest)

/-- The invariant on the numbers, parents and children of nodes, and on the stack of open ones. -/
structure Shaped (nodes : Array Node) (stack : List Nat) : Prop where
  /-- Node 0 is the root. -/
  root : ∃ node, nodes[0]? = some node ∧ node.kind = .root ∧ node.parent = none
  /-- Every other node stands under a node that was added before it. -/
  parent : ∀ (id : Nat) node, nodes[id]? = some node → 0 < id →
    node.kind ≠ .root ∧ ∃ above : Nat, node.parent = some above ∧ above < id
  numbered : ∀ (id : Nat) (node : Node), nodes[id]? = some node → node.id = id
  children : ∀ (id : Nat) node, nodes[id]? = some node →
    node.children.toList = (List.range nodes.size).filter fun child => parentOf nodes child == some id
  chain : OpenChain nodes stack
  /-- Open nodes can have children. -/
  hasContent : ∀ id ∈ stack, ∀ node, nodes[id]? = some node → node.kind.hasContent = true
  /-- The innermost open node stands above the node that was added last. -/
  last : Above nodes (stack.headD 0) (nodes.size - 1)
  /-- The nodes under a node are numbered without a break. -/
  interval : ∀ above id between : Nat, id < nodes.size → Above nodes above id → above ≤ between → between ≤ id →
    Above nodes above between

/-! ## Standing above -/

theorem Above.trans {nodes : Array Node} {a b c : Nat} (h : Above nodes a b) (h' : Above nodes b c) : Above nodes a c := by
  induction h' with
  | refl => exact h
  | step hparent _ ih => exact Above.step hparent ih

/-- Standing above only depends on the parents. -/
theorem Above.mono {nodes nodes' : Array Node} {a b : Nat} (h : Above nodes a b)
    (hsub : ∀ id parent, parentOf nodes id = some parent → parentOf nodes' id = some parent) : Above nodes' a b := by
  induction h with
  | refl => exact Above.refl
  | step hparent _ ih => exact Above.step (hsub _ _ hparent) ih

theorem parentOf_eq_some {nodes : Array Node} {id parent : Nat} (h : parentOf nodes id = some parent) :
    ∃ node, nodes[id]? = some node ∧ node.parent = some parent :=
  Option.bind_eq_some_iff.1 h

namespace Shaped

variable {nodes : Array Node} {stack : List Nat}

theorem size_pos (h : Shaped nodes stack) : 0 < nodes.size := by
  obtain ⟨node, hnode, _⟩ := h.root
  obtain ⟨hlt, _⟩ := Array.getElem?_eq_some_iff.1 hnode
  exact hlt

theorem parentOf_zero (h : Shaped nodes stack) : parentOf nodes 0 = none := by
  obtain ⟨node, hnode, _, hparent⟩ := h.root
  simp [parentOf, hnode, hparent]

/-- A parent was added before its child. -/
theorem parentOf_lt (h : Shaped nodes stack) {id parent : Nat} (hp : parentOf nodes id = some parent) :
    parent < id ∧ id < nodes.size := by
  obtain ⟨node, hnode, hparent⟩ := parentOf_eq_some hp
  obtain ⟨hlt, _⟩ := Array.getElem?_eq_some_iff.1 hnode
  refine ⟨?_, hlt⟩
  rcases Nat.eq_zero_or_pos id with rfl | hpos
  · rw [h.parentOf_zero] at hp
    cases hp
  · obtain ⟨_, above, habove, hlt'⟩ := h.parent id node hnode hpos
    rw [hparent] at habove
    cases habove
    exact hlt'

/-- Every node but the root has a parent. -/
theorem exists_parentOf (h : Shaped nodes stack) {id : Nat} (hpos : 0 < id) (hlt : id < nodes.size) :
    ∃ parent : Nat, parentOf nodes id = some parent ∧ parent < id := by
  have hnode : nodes[id]? = some nodes[id] := Array.getElem?_eq_getElem hlt
  obtain ⟨_, above, habove, hab⟩ := h.parent id _ hnode hpos
  exact ⟨above, by simp [parentOf, habove, hlt], hab⟩

theorem above_le (h : Shaped nodes stack) {a b : Nat} (hab : Above nodes a b) : a ≤ b := by
  induction hab with
  | refl => exact Nat.le_refl _
  | step hparent _ ih => exact Nat.le_trans ih (Nat.le_of_lt (h.parentOf_lt hparent).1)

/-- The root stands above every node. -/
theorem above_root (h : Shaped nodes stack) {id : Nat} (hlt : id < nodes.size) : Above nodes 0 id := by
  induction id using Nat.strongRecOn with
  | ind id ih =>
    rcases Nat.eq_zero_or_pos id with rfl | hpos
    · exact Above.refl
    · obtain ⟨parent, hparent, hlt'⟩ := h.exists_parentOf hpos hlt
      exact Above.step hparent (ih parent hlt' (by omega))

/-! ## The stack -/

end Shaped

theorem OpenChain.ne_nil {nodes : Array Node} {stack : List Nat} (h : OpenChain nodes stack) : stack ≠ [] := by
  rintro rfl
  exact h

theorem OpenChain.getLast? {nodes : Array Node} {stack : List Nat} (h : OpenChain nodes stack) :
    stack.getLast? = some 0 := by
  induction stack with
  | nil => exact h.elim
  | cons id rest ih =>
    cases rest with
    | nil => exact congrArg some h
    | cons above rest => rw [List.getLast?_cons_cons]; exact ih h.2

theorem OpenChain.mono {nodes nodes' : Array Node} {stack : List Nat} (h : OpenChain nodes stack)
    (hsub : ∀ id parent, parentOf nodes id = some parent → parentOf nodes' id = some parent) : OpenChain nodes' stack := by
  induction stack with
  | nil => exact h
  | cons id rest ih =>
    cases rest with
    | nil => exact h
    | cons above rest => exact ⟨hsub _ _ h.1, ih h.2⟩

namespace Shaped

variable {nodes : Array Node} {stack : List Nat}

/-- An open node is a node, and it is numbered no higher than the innermost one. -/
theorem mem_stack (h : Shaped nodes stack) {id : Nat} (hid : id ∈ stack) : id ≤ stack.headD 0 ∧ id < nodes.size := by
  have hchain := h.chain
  have hpos := h.size_pos
  have hlast : stack.headD 0 ≤ nodes.size - 1 := h.above_le h.last
  have hle : ∀ {stack : List Nat}, OpenChain nodes stack → ∀ id ∈ stack, id ≤ stack.headD 0 := by
    intro stack hc
    induction stack with
    | nil => exact hc.elim
    | cons first rest ih =>
      intro id hid
      rcases List.mem_cons.1 hid with rfl | hid
      · exact Nat.le_refl _
      · cases rest with
        | nil => cases hid
        | cons above rest =>
          have h1 := ih hc.2 id hid
          have h2 := (h.parentOf_lt hc.1).1
          simp only [List.headD_cons] at h1 ⊢
          omega
  have := hle hchain id hid
  omega

/-- The innermost open node is on the stack. -/
theorem current_mem (h : Shaped nodes stack) : stack.headD 0 ∈ stack := by
  cases hstack : stack with
  | nil => exact absurd hstack h.chain.ne_nil
  | cons first rest => exact List.mem_cons_self

theorem current_lt (h : Shaped nodes stack) : stack.headD 0 < nodes.size := by
  have hpos := h.size_pos
  have := h.above_le h.last
  omega

end Shaped

/-! ## Adding a node -/

namespace Node

@[simp] theorem adopt_id (node : Node) (child : Nat) : (node.adopt child).id = node.id := by
  unfold adopt; split <;> rfl

@[simp] theorem adopt_parent (node : Node) (child : Nat) : (node.adopt child).parent = node.parent := by
  unfold adopt; split <;> rfl

@[simp] theorem adopt_span (node : Node) (child : Nat) : (node.adopt child).span = node.span := by
  unfold adopt; split <;> rfl

@[simp] theorem adopt_kind (node : Node) (child : Nat) : (node.adopt child).kind = node.kind := by
  unfold adopt; split <;> rfl

theorem adopt_children {node : Node} (h : node.kind.hasContent = true) (child : Nat) :
    (node.adopt child).children = node.children.push child := by
  unfold adopt
  rw [if_pos h]

end Node

/-- Nodes that differ in their children at most. -/
structure Node.Like (node old : Node) : Prop where
  id : node.id = old.id
  parent : node.parent = old.parent
  span : node.span = old.span
  kind : node.kind = old.kind

/-- The nodes with one more, under `above`. -/
def grow (nodes : Array Node) (above : Nat) (span : Span) (kind : NodeKind) : Array Node :=
  (nodes.push ⟨nodes.size, some above, #[], span, kind⟩).modify above (·.adopt nodes.size)

section Grow

variable {nodes : Array Node} {above : Nat} {span : Span} {kind : NodeKind}

@[simp] theorem size_grow : (grow nodes above span kind).size = nodes.size + 1 := by
  simp [grow]

/-- The new node. -/
theorem grow_new (habove : above < nodes.size) :
    (grow nodes above span kind)[nodes.size]? = some ⟨nodes.size, some above, #[], span, kind⟩ := by
  rw [grow, Array.getElem?_modify, if_neg (by omega), Array.getElem?_push_size]

/-- The nodes that were there stay, and the one above the new node adopts it. -/
theorem grow_old (id : Nat) (hid : id < nodes.size) :
    (grow nodes above span kind)[id]? =
      nodes[id]?.map fun node => if id = above then node.adopt nodes.size else node := by
  have hne : id ≠ nodes.size := by omega
  rw [grow, Array.getElem?_modify, Array.getElem?_push, if_neg hne]
  by_cases h : above = id
  · subst h
    simp
  · simp [h, Ne.symm h]

/-- A node of the grown array is the new one, or an old one that may have adopted it. -/
theorem grow_cases (habove : above < nodes.size) {id : Nat} {node : Node} (h : (grow nodes above span kind)[id]? = some node) :
    (id = nodes.size ∧ node = ⟨nodes.size, some above, #[], span, kind⟩) ∨
      (id < nodes.size ∧ ∃ old, nodes[id]? = some old ∧ node = if id = above then old.adopt nodes.size else old) := by
  obtain ⟨hlt, _⟩ := Array.getElem?_eq_some_iff.1 h
  rw [size_grow] at hlt
  rcases Nat.lt_succ_iff_lt_or_eq.1 hlt with hlt | rfl
  · rw [grow_old id hlt] at h
    obtain ⟨old, hold, rfl⟩ := Option.map_eq_some_iff.1 h
    exact Or.inr ⟨hlt, old, hold, rfl⟩
  · rw [grow_new habove] at h
    exact Or.inl ⟨rfl, (Option.some.inj h).symm⟩

/-- A node of the grown array is the new one, or like an old one. -/
theorem grow_like (habove : above < nodes.size) {id : Nat} {node : Node} (h : (grow nodes above span kind)[id]? = some node) :
    (id = nodes.size ∧ node = ⟨nodes.size, some above, #[], span, kind⟩) ∨
      (id < nodes.size ∧ ∃ old, nodes[id]? = some old ∧ node.Like old) := by
  rcases grow_cases habove h with hnew | ⟨hlt, old, hold, rfl⟩
  · exact Or.inl hnew
  · refine Or.inr ⟨hlt, old, hold, ?_⟩
    split
    · exact ⟨Node.adopt_id _ _, Node.adopt_parent _ _, Node.adopt_span _ _, Node.adopt_kind _ _⟩
    · exact ⟨rfl, rfl, rfl, rfl⟩

theorem parentOf_grow_new (habove : above < nodes.size) :
    parentOf (grow nodes above span kind) nodes.size = some above := by
  rw [parentOf, grow_new habove]
  rfl

theorem parentOf_grow_old {id : Nat} (hid : id < nodes.size) :
    parentOf (grow nodes above span kind) id = parentOf nodes id := by
  rw [parentOf, grow_old id hid, parentOf]
  cases nodes[id]? with
  | none => rfl
  | some node =>
    simp only [Option.map_some, Option.bind_some]
    split <;> simp

/-- Parents are kept. -/
theorem parentOf_grow_of_some {id parent : Nat} (h : parentOf nodes id = some parent) :
    parentOf (grow nodes above span kind) id = some parent := by
  obtain ⟨node, hnode, _⟩ := parentOf_eq_some h
  obtain ⟨hlt, _⟩ := Array.getElem?_eq_some_iff.1 hnode
  rw [parentOf_grow_old hlt, h]

/-- The nodes under a node: the new one joins those of its parent. -/
theorem filter_parentOf_grow (habove : above < nodes.size) (id : Nat) :
    ((List.range (nodes.size + 1)).filter fun child => parentOf (grow nodes above span kind) child == some id) =
      ((List.range nodes.size).filter fun child => parentOf nodes child == some id) ++
        if above = id then [nodes.size] else [] := by
  rw [List.range_succ, List.filter_append]
  congr 1
  · apply List.filter_congr
    intro child hchild
    rw [parentOf_grow_old (List.mem_range.1 hchild)]
  · rw [List.filter_singleton, parentOf_grow_new habove]
    by_cases h : above = id
    · subst h
      simp
    · simp [h, beq_eq_false_iff_ne.2 h]

end Grow

/-! ## Changing a node -/

/-- A change of a node that leaves the shape of the tree alone. -/
structure KeepsShape (f : Node → Node) : Prop where
  id : ∀ node : Node, (f node).id = node.id
  parent : ∀ node, (f node).parent = node.parent
  children : ∀ node, (f node).children = node.children
  root : ∀ node, (f node).kind = .root ↔ node.kind = .root
  hasContent : ∀ node, (f node).kind.hasContent = node.kind.hasContent

theorem getElem?_modify_map (nodes : Array Node) (id i : Nat) (f : Node → Node) :
    (nodes.modify id f)[i]? = nodes[i]?.map fun node => if i = id then f node else node := by
  rw [Array.getElem?_modify]
  by_cases h : id = i
  · subst h
    simp
  · simp [h, Ne.symm h]

/-- A node of the changed array is a node of the old one, changed if it is the one in question. -/
theorem modify_cases {nodes : Array Node} {id i : Nat} {f : Node → Node} {node : Node}
    (h : (nodes.modify id f)[i]? = some node) : ∃ old, nodes[i]? = some old ∧ node = if i = id then f old else old := by
  rw [getElem?_modify_map] at h
  obtain ⟨old, hold, rfl⟩ := Option.map_eq_some_iff.1 h
  exact ⟨old, hold, rfl⟩

theorem parentOf_modify (nodes : Array Node) (id : Nat) {f : Node → Node} (hf : KeepsShape f) (i : Nat) :
    parentOf (nodes.modify id f) i = parentOf nodes i := by
  rw [parentOf, getElem?_modify_map, parentOf]
  cases nodes[i]? with
  | none => rfl
  | some node =>
    simp only [Option.map_some, Option.bind_some]
    split
    · exact hf.parent node
    · rfl

namespace Shaped

variable {nodes : Array Node} {stack : List Nat} {span : Span} {kind : NodeKind}

/-- Standing above an old node is as before. -/
theorem above_of_grow (h : Shaped nodes stack) {a id : Nat} (hid : id < nodes.size)
    (ha : Above (grow nodes (stack.headD 0) span kind) a id) : Above nodes a id := by
  induction ha with
  | refl => exact Above.refl
  | step hparent _ ih =>
    rw [parentOf_grow_old hid] at hparent
    have hlt := (h.parentOf_lt hparent).1
    exact Above.step hparent (ih (by omega))

/-- What stands above the new node, itself apart, stands above the innermost open node. -/
theorem above_grow_new (h : Shaped nodes stack) {a : Nat}
    (ha : Above (grow nodes (stack.headD 0) span kind) a nodes.size) : a = nodes.size ∨ Above nodes a (stack.headD 0) := by
  cases ha with
  | refl => exact Or.inl rfl
  | step hparent ha =>
    rw [parentOf_grow_new h.current_lt] at hparent
    cases hparent
    exact Or.inr (h.above_of_grow h.current_lt ha)

/-- Adding a node under the innermost open one keeps the shape. -/
theorem grow (h : Shaped nodes stack) (hkind : kind ≠ .root) : Shaped (grow nodes (stack.headD 0) span kind) stack := by
  have hcur := h.current_lt
  have hpos := h.size_pos
  refine ⟨?_, ?_, ?_, ?_, ?_, ?_, ?_, ?_⟩
  · obtain ⟨node, hnode, hk, hp⟩ := h.root
    refine ⟨_, by rw [grow_old 0 hpos, hnode]; rfl, ?_, ?_⟩ <;> split <;> simp [hk, hp]
  · intro id node hnode hid
    rcases grow_like hcur hnode with ⟨rfl, rfl⟩ | ⟨_, old, hold, hlike⟩
    · exact ⟨hkind, _, rfl, hcur⟩
    · rw [hlike.kind, hlike.parent]
      exact h.parent id old hold hid
  · intro id node hnode
    rcases grow_like hcur hnode with ⟨rfl, rfl⟩ | ⟨_, old, hold, hlike⟩
    · rfl
    · rw [hlike.id]
      exact h.numbered id old hold
  · intro id node hnode
    rw [size_grow, filter_parentOf_grow hcur]
    rcases grow_cases hcur hnode with ⟨rfl, rfl⟩ | ⟨hlt, old, hold, rfl⟩
    · rw [if_neg (Nat.ne_of_lt hcur), List.append_nil, eq_comm]
      refine List.filter_eq_nil_iff.2 fun child hchild hparent => ?_
      have hlt := (h.parentOf_lt (eq_of_beq hparent)).1
      have hrange := List.mem_range.1 hchild
      omega
    · rw [← h.children id old hold]
      by_cases hid : id = stack.headD 0
      · have hopen : old.kind.hasContent = true := h.hasContent id (hid ▸ h.current_mem) old hold
        rw [if_pos hid, if_pos hid.symm, Node.adopt_children hopen, Array.toList_push]
      · rw [if_neg hid, if_neg fun h' => hid h'.symm, List.append_nil]
  · exact h.chain.mono fun _ _ => parentOf_grow_of_some
  · intro id hid node hnode
    rcases grow_like hcur hnode with ⟨rfl, rfl⟩ | ⟨_, old, hold, hlike⟩
    · exact absurd (h.mem_stack hid).2 (Nat.lt_irrefl _)
    · rw [hlike.kind]
      exact h.hasContent id hid old hold
  · rw [size_grow, Nat.add_sub_cancel]
    exact Above.step (parentOf_grow_new hcur) Above.refl
  · intro a id between hid ha hle hle'
    rw [size_grow] at hid
    rcases Nat.lt_succ_iff_lt_or_eq.1 hid with hid | rfl
    · exact (h.interval a id between hid (h.above_of_grow hid ha) hle hle').mono fun _ _ => parentOf_grow_of_some
    · rcases Nat.lt_or_eq_of_le hle' with hlt | rfl
      · -- What stands above the new node stands above the last old one, and so above all between.
        rcases h.above_grow_new ha with rfl | ha
        · omega
        · have hlast := ha.trans h.last
          exact (h.interval a (nodes.size - 1) between (by omega) hlast hle (by omega)).mono fun _ _ => parentOf_grow_of_some
      · exact ha

/-- The node that was added last can be opened. -/
theorem push (h : Shaped nodes stack) {node : Node} (hlast : nodes[nodes.size - 1]? = some node)
    (hparent : node.parent = some (stack.headD 0)) (hcontent : node.kind.hasContent = true) :
    Shaped nodes ((nodes.size - 1) :: stack) := by
  refine ⟨h.root, h.parent, h.numbered, h.children, ?_, ?_, Above.refl, h.interval⟩
  · cases hstack : stack with
    | nil => exact absurd hstack h.chain.ne_nil
    | cons first rest =>
      refine ⟨?_, hstack ▸ h.chain⟩
      rw [parentOf, hlast, Option.bind_some, hparent, hstack]
      rfl
  · intro id hid other hother
    rcases List.mem_cons.1 hid with rfl | hid
    · rw [hlast] at hother
      cases hother
      exact hcontent
    · exact h.hasContent id hid other hother

/-- The innermost open node can be closed, unless it is the root. -/
theorem pop {first above : Nat} {rest : List Nat} (h : Shaped nodes (first :: above :: rest)) :
    Shaped nodes (above :: rest) := by
  refine ⟨h.root, h.parent, h.numbered, h.children, h.chain.2, ?_, ?_, h.interval⟩
  · intro id hid
    exact h.hasContent id (List.mem_cons_of_mem _ hid)
  · exact (Above.step h.chain.1 Above.refl).trans h.last

/-- A change to one node that keeps its number, its relatives and what it can hold keeps the shape. -/
theorem modify (h : Shaped nodes stack) (id : Nat) {f : Node → Node} (hf : KeepsShape f) :
    Shaped (nodes.modify id f) stack := by
  have hparent := parentOf_modify nodes id hf
  have hsub : ∀ child parent, parentOf nodes child = some parent → parentOf (nodes.modify id f) child = some parent :=
    fun child parent hp => by rw [hparent, hp]
  refine ⟨?_, ?_, ?_, ?_, h.chain.mono hsub, ?_, ?_, ?_⟩
  · obtain ⟨node, hnode, hk, hp⟩ := h.root
    refine ⟨_, by rw [getElem?_modify_map, hnode]; rfl, ?_, ?_⟩ <;> split
    · exact (hf.root node).2 hk
    · exact hk
    · rw [hf.parent, hp]
    · exact hp
  · intro i node hnode hi
    obtain ⟨old, hold, rfl⟩ := modify_cases hnode
    obtain ⟨hk, hp⟩ := h.parent i old hold hi
    split
    · exact ⟨fun hr => hk ((hf.root old).1 hr), by rw [hf.parent]; exact hp⟩
    · exact ⟨hk, hp⟩
  · intro i node hnode
    obtain ⟨old, hold, rfl⟩ := modify_cases hnode
    split
    · rw [hf.id, h.numbered i old hold]
    · exact h.numbered i old hold
  · intro i node hnode
    obtain ⟨old, hold, rfl⟩ := modify_cases hnode
    simp only [Array.size_modify, hparent]
    split
    · rw [hf.children, h.children i old hold]
    · exact h.children i old hold
  · intro i hi node hnode
    obtain ⟨old, hold, rfl⟩ := modify_cases hnode
    split
    · rw [hf.hasContent, h.hasContent i hi old hold]
    · exact h.hasContent i hi old hold
  · rw [Array.size_modify]
    exact h.last.mono hsub
  · intro a i between hi ha hle hle'
    rw [Array.size_modify] at hi
    exact (h.interval a i between hi (ha.mono fun _ _ hp => by rwa [hparent] at hp) hle hle').mono hsub

end Shaped

/-! ## Walking down -/

/-- A node above another one has a child that is that one or stands above it. -/
theorem Above.exists_child {nodes : Array Node} {a b : Nat} (h : Above nodes a b) (hne : b ≠ a) :
    ∃ child, parentOf nodes child = some a ∧ Above nodes child b := by
  induction h with
  | refl => exact absurd rfl hne
  | @step id parent hparent _ ih =>
    by_cases hpa : parent = a
    · exact ⟨id, hpa ▸ hparent, Above.refl⟩
    · obtain ⟨child, hchild, habove⟩ := ih hpa
      exact ⟨child, hchild, Above.step hparent habove⟩

namespace Shaped

variable {document : Document} {stack : List Nat}

/-- The children of a node are the nodes that name it as their parent. -/
theorem mem_children (h : Shaped document.nodes stack) {id child : Nat} :
    child ∈ document.children id ↔ parentOf document.nodes child = some id := by
  rw [Document.children, Document.node?]
  cases hnode : document.nodes[id]? with
  | none =>
    refine ⟨fun hc => (by cases hc), fun hp => ?_⟩
    have hlt := h.parentOf_lt hp
    have hsize := Array.getElem?_eq_none_iff.1 hnode
    omega
  | some node =>
    rw [Option.map_some, Option.getD_some, h.children id _ hnode, List.mem_filter, List.mem_range, beq_iff_eq]
    exact ⟨fun hc => hc.2, fun hp => ⟨(h.parentOf_lt hp).2, hp⟩⟩

theorem pairwise_children (h : Shaped document.nodes stack) (id : Nat) :
    (document.children id).Pairwise fun a b : Nat => a < b := by
  rw [Document.children, Document.node?]
  cases hnode : document.nodes[id]? with
  | none => exact List.Pairwise.nil
  | some node =>
    rw [Option.map_some, Option.getD_some, h.children id node hnode]
    exact List.pairwise_lt_range.filter _

/-- The nodes under one child of a node are numbered below its later children. -/
theorem lt_of_children (h : Shaped document.nodes stack) {id first second under : Nat}
    (hfirst : parentOf document.nodes first = some id) (hsecond : parentOf document.nodes second = some id)
    (hlt : first < second) (hunder : Above document.nodes first under) (hsize : under < document.nodes.size) :
    under < second := by
  by_contra hle
  have habove := h.interval first under second hsize hunder (by omega) (by omega)
  have hid : first ≤ id := by
    cases habove with
    | refl => omega
    | step hparent habove =>
      rw [hsecond] at hparent
      cases hparent
      exact h.above_le habove
  have := (h.parentOf_lt hfirst).1
  omega

/-- A walk downwards meets exactly the nodes under its start, in the order of their numbers. -/
theorem descendantsWithin_spec (h : Shaped document.nodes stack) {fuel id : Nat} (hid : id < document.nodes.size)
    (hfuel : document.nodes.size ≤ fuel + id) :
    ((document.descendantsWithin fuel id).Pairwise fun a b : Nat => a < b) ∧
      ∀ under : Nat, under ∈ document.descendantsWithin fuel id ↔
        under ≠ id ∧ under < document.nodes.size ∧ Above document.nodes id under := by
  induction fuel generalizing id with
  | zero => omega
  | succ fuel ih =>
    have hchild : ∀ child : Nat, child ∈ document.children id → id < child ∧ child < document.nodes.size :=
      fun child hc => h.parentOf_lt (h.mem_children.1 hc)
    have hstep : ∀ child : Nat, child ∈ document.children id → ∀ under : Nat,
        under ∈ child :: document.descendantsWithin fuel child ↔
          under < document.nodes.size ∧ Above document.nodes child under := by
      intro child hc under
      obtain ⟨hlt, hsize⟩ := hchild child hc
      rw [List.mem_cons, (ih hsize (by omega)).2 under]
      constructor
      · rintro (rfl | ⟨-, hu⟩)
        · exact ⟨hsize, Above.refl⟩
        · exact hu
      · intro hu
        by_cases heq : under = child
        · exact Or.inl heq
        · exact Or.inr ⟨heq, hu⟩
    refine ⟨?_, ?_⟩
    · refine List.pairwise_flatMap.2 ⟨?_, ?_⟩
      · intro child hc
        obtain ⟨hlt, hsize⟩ := hchild child hc
        refine List.pairwise_cons.2 ⟨?_, (ih hsize (by omega)).1⟩
        intro under hu
        obtain ⟨hne, _, habove⟩ := ((ih hsize (by omega)).2 under).1 hu
        have := h.above_le habove
        omega
      · refine (h.pairwise_children id).imp_of_mem ?_
        intro first second hf hs hlt x hx y hy
        obtain ⟨hxsize, hxabove⟩ := (hstep first hf x).1 hx
        obtain ⟨_, hyabove⟩ := (hstep second hs y).1 hy
        have h1 := h.lt_of_children (h.mem_children.1 hf) (h.mem_children.1 hs) hlt hxabove hxsize
        have h2 := h.above_le hyabove
        omega
    · intro under
      rw [Document.descendantsWithin, List.mem_flatMap]
      constructor
      · rintro ⟨child, hc, hu⟩
        obtain ⟨hsize, habove⟩ := (hstep child hc under).1 hu
        have h1 := (hchild child hc).1
        have h2 := h.above_le habove
        exact ⟨by omega, hsize, (Above.step (h.mem_children.1 hc) Above.refl).trans habove⟩
      · rintro ⟨hne, hsize, habove⟩
        obtain ⟨child, hc, hu⟩ := habove.exists_child hne
        exact ⟨child, h.mem_children.2 hc, (hstep child (h.mem_children.2 hc) under).2 ⟨hsize, hu⟩⟩

/-- The nodes under the root are all the other nodes, in order. -/
theorem descendants_root (h : Shaped document.nodes stack) :
    document.descendants 0 = List.range' 1 (document.nodes.size - 1) := by
  have hpos := h.size_pos
  obtain ⟨hsorted, hmem⟩ := h.descendantsWithin_spec hpos (Nat.le_refl document.nodes.size)
  refine hsorted.eq_of_mem_iff List.pairwise_lt_range' ?_
  intro (id : Nat)
  rw [hmem id, List.mem_range'_1]
  constructor
  · rintro ⟨hne, hlt, _⟩
    omega
  · rintro ⟨hle, hlt⟩
    exact ⟨by omega, by omega, h.above_root (by omega)⟩

end Shaped

end ComponentLint.Markup
