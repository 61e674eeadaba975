import ComponentLint.Proofs.Markup.Steps

/-!
# What a piece leaves alone

A piece changes the open nodes and adds at most one node; everything else of the tree stays as it is. The lemmas here say so for
adding a piece, for reading the next one and for closing what is open at the end of the file.
-/

namespace ComponentLint.Markup

open Text

namespace Builder

/-- Closing nodes at an offset, node by node. -/
theorem getElem?_foldl_shut (stop : Nat) (ids : List Nat) (nodes : Array Node) (id : Nat) :
    (ids.foldl (fun nodes id => nodes.modify id (Node.shut stop)) nodes)[id]? =
      nodes[id]?.map fun node => if id ∈ ids then node.shut stop else node := by
  induction ids generalizing nodes with
  | nil => simp
  | cons first ids ih =>
    rw [List.foldl_cons, ih, getElem?_modify_map, Option.map_map]
    congr 1
    funext node
    by_cases hid : id = first <;> by_cases hmem : id ∈ ids <;> simp [hid, hmem, Node.shut]

/-- An end tag changes no node but the open ones. -/
theorem endElement_apart (builder : Builder) (name : List Char) (span : Span) {id : Nat} (hid : id ∉ builder.stack) :
    (builder.endElement name span).nodes[id]? = builder.nodes[id]? := by
  unfold endElement
  dsimp only
  split
  · rename_i matched outer hdrop
    have hmatched : id ≠ matched := fun heq => hid (heq ▸ (closes_of_dropWhile hdrop).2)
    have hinner : id ∉ builder.stack.takeWhile fun id => !builder.closes name id :=
      fun hmem => hid ((List.takeWhile_prefix _).subset hmem)
    rw [foldl_closeAt, closeWith_nodes, getElem?_modify_map, getElem?_foldl_shut]
    simp [hmatched, hinner]
  · rfl

/-- A piece changes no node but the open ones. -/
theorem add_apart {builder : Builder} (h : Shaped builder.nodes builder.stack) (fileStop : Nat) (piece : Piece) {id : Nat}
    (hlt : id < builder.nodes.size) (hid : id ∉ builder.stack) :
    (builder.add fileStop piece).nodes[id]? = builder.nodes[id]? := by
  have hpush : ∀ span kind, (grow builder.nodes builder.current span kind)[id]? = builder.nodes[id]? := by
    intro span kind
    have hne : id ≠ builder.current := fun heq => hid (heq ▸ h.current_mem)
    rw [grow_old id hlt]
    simp [hne]
  cases piece with
  | comment | text | interpolation => exact hpush _ _
  | startTag tag =>
    rw [add, apply, startElement]
    split <;> exact hpush _ _
  | raw span =>
    rw [add, apply]
    split
    · exact hpush _ _
    · rfl
  | endTag name span close => exact endElement_apart (builder.record fileStop _) name span hid

/-- Only the element of a start tag is opened. -/
theorem mem_stack_add {builder : Builder} {fileStop : Nat} {piece : Piece} {id : Nat}
    (h : id ∈ (builder.add fileStop piece).stack) : id ∈ builder.stack ∨ id = builder.nodes.size := by
  cases piece with
  | comment | text | interpolation => exact Or.inl h
  | startTag tag =>
    rw [add, apply, startElement] at h
    split at h
    · exact Or.inl h
    · exact (List.mem_cons.1 h).symm
  | raw span =>
    rw [add, apply] at h
    split at h <;> exact Or.inl h
  | endTag name span close =>
    rw [add, apply, endElement] at h
    dsimp only at h
    split at h
    · rename_i matched outer hdrop
      exact Or.inl ((List.dropWhile_suffix _).subset (hdrop ▸ List.mem_cons_of_mem _ h))
    · exact Or.inl h

/-- The element that a piece adds is that of a start tag, under the innermost open node. -/
theorem add_newElement {builder : Builder} (h : Shaped builder.nodes builder.stack) {fileStop : Nat} {piece : Piece} {id : Nat}
    {node : Node} {element : Element} (hnode : (builder.add fileStop piece).nodes[id]? = some node)
    (hge : builder.nodes.size ≤ id) (hkind : node.kind = .element element) :
    ∃ tag, piece = .startTag tag ∧ element = builder.elementOf tag ∧ id = builder.nodes.size ∧
      node.parent = some builder.current ∧ node.children = #[] := by
  have hpush : ∀ span kind, (grow builder.nodes builder.current span kind)[id]? = some node →
      id = builder.nodes.size ∧ node = ⟨builder.nodes.size, some builder.current, #[], span, kind⟩ := by
    intro span kind hgrown
    rcases grow_cases h.current_lt hgrown with hnew | ⟨hlt, -⟩
    · exact hnew
    · exact absurd hge (Nat.not_le_of_gt hlt)
  have hold : builder.nodes[id]? ≠ some node := by
    intro hsome
    obtain ⟨hlt, -⟩ := Array.getElem?_eq_some_iff.1 hsome
    exact absurd hge (Nat.not_le_of_gt hlt)
  cases piece with
  | comment | text | interpolation =>
    obtain ⟨-, rfl⟩ := hpush _ _ hnode
    cases hkind
  | startTag tag =>
    rw [add, apply, startElement] at hnode
    have hgrown : (grow builder.nodes builder.current (builder.elementOf tag).startTag.span
        (.element (builder.elementOf tag)))[id]? = some node := by
      split at hnode <;> exact hnode
    obtain ⟨rfl, rfl⟩ := hpush _ _ hgrown
    cases hkind
    exact ⟨tag, rfl, rfl, rfl, rfl, rfl⟩
  | raw span =>
    rw [add, apply] at hnode
    split at hnode
    · obtain ⟨-, rfl⟩ := hpush _ _ hnode
      cases hkind
    · exact absurd hnode hold
  | endTag name span close =>
    obtain ⟨hlt, -⟩ := Array.getElem?_eq_some_iff.1 hnode
    rw [add, apply, endElement] at hlt
    dsimp only at hlt
    split at hlt
    · rw [foldl_closeAt, closeWith_nodes, Array.size_modify, size_foldl_shut] at hlt
      exact absurd hge (Nat.not_le_of_gt hlt)
    · exact absurd hge (Nat.not_le_of_gt hlt)

theorem parentOf_foldl_shut (stop : Nat) (ids : List Nat) (nodes : Array Node) (id : Nat) :
    parentOf (ids.foldl (fun nodes id => nodes.modify id (Node.shut stop)) nodes) id = parentOf nodes id := by
  induction ids generalizing nodes with
  | nil => rfl
  | cons first ids ih => rw [List.foldl_cons, ih, parentOf_modify _ _ (Node.keepsShape_shut stop)]

/-- Nodes stay under their parents. -/
theorem parentOf_add (builder : Builder) (fileStop : Nat) (piece : Piece) {id : Nat} (hlt : id < builder.nodes.size) :
    parentOf (builder.add fileStop piece).nodes id = parentOf builder.nodes id := by
  cases piece with
  | comment | text | interpolation => exact parentOf_grow_old hlt
  | startTag tag =>
    rw [add, apply, startElement]
    split <;> exact parentOf_grow_old hlt
  | raw span =>
    rw [add, apply]
    split
    · exact parentOf_grow_old hlt
    · rfl
  | endTag name span close =>
    rw [add, apply, endElement]
    dsimp only
    split
    · rw [foldl_closeAt, closeWith_nodes, parentOf_modify _ _ (Node.keepsShape_shutWith span), parentOf_foldl_shut]
      rfl
    · rfl

/-- An end tag that closes the innermost element closes nothing else. -/
theorem endElement_current (builder : Builder) {id : Nat} {name : List Char} (span : Span) {outer : List Nat}
    (hstack : builder.stack = id :: outer) (hcloses : builder.closes name id = true) :
    builder.endElement name span = { closeWith span builder id with stack := outer } := by
  simp [endElement, hstack, hcloses]

theorem advance_plain {builder : Builder} {language : Script.Language} {fileStop : Nat} {stream rest : Stream} {piece : Piece}
    (hpiece : readPiece (builder.surroundings language) stream = (piece, rest)) (hname : builder.rawName? piece = none) :
    Builder.advance language fileStop builder stream = (builder.add fileStop piece, rest) := by
  simp [Builder.advance, hpiece, hname]

theorem advance_raw {builder : Builder} {language : Script.Language} {fileStop : Nat} {stream rest : Stream}
    {piece : Piece} {name : List Char}
    (hpiece : readPiece (builder.surroundings language) stream = (piece, rest)) (hname : builder.rawName? piece = some name) :
    Builder.advance language fileStop builder stream =
      ((builder.add fileStop piece).add fileStop (readRaw name rest).1, (readRaw name rest).2) := by
  simp [Builder.advance, hpiece, hname]

/-! ## The end of the file -/

/-- Closing what is open at the end of the file, node by node. -/
theorem getElem?_finish (fileStop : Nat) (builder : Builder) (id : Nat) :
    (builder.finish fileStop).nodes[id]? =
      builder.nodes[id]?.map fun node => if id ∈ builder.stack.dropLast then node.shut fileStop else node := by
  rw [finish, foldl_closeAt]
  exact getElem?_foldl_shut fileStop builder.stack.dropLast builder.nodes id

theorem parentOf_finish (fileStop : Nat) (builder : Builder) (id : Nat) :
    parentOf (builder.finish fileStop).nodes id = parentOf builder.nodes id := by
  rw [finish, foldl_closeAt]
  exact parentOf_foldl_shut fileStop builder.stack.dropLast builder.nodes id

end Builder

end ComponentLint.Markup
