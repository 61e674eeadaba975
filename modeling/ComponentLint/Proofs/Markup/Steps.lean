import ComponentLint.Proofs.Markup.Construction

/-!
# What adding a piece does

`Steps` says what adding a piece to a tree that stands does to the nodes, the tokens and the problems: one node may be new,
and of the old ones only those that have content are changed. What holds of the nodes of every tree is proved from it, one
piece at a time (`reading_steps`), and closing what is open at the end of the file only moves ends (`finish_old`).
-/

namespace ComponentLint.Markup

open Text

variable {language : Script.Language}

/-- What an old node may be after a piece was added. -/
inductive Node.Becomes (piece : Piece) (old node : Node) : Prop where
  /-- It stays what it is, and where it is unless it has content. -/
  | same (hkind : node.kind = old.kind) (hspan : old.kind.hasContent = false → node.span = old.span)
  /-- It is an element without an end tag, and the piece is its end tag. -/
  | tagged {name : List Char} {span : Span} {close : Option Nat} {element : Element} (hpiece : piece = .endTag name span close)
      (hold : old.kind = .element element) (hopen : element.endTag = none)
      (hname : eqIgnoreAsciiCase element.rawName.toList name = true)
      (hkind : node.kind = .element { element with endTag := some span })

namespace Piece

/-- What a node that a piece adds is: the element of a start tag, or a node without content. -/
def Adds : Piece → NodeKind → Prop
  | .startTag tag, kind => ∃ element, kind = .element element ∧
      (element.startTag.span = ⟨tag.start, tag.stop⟩ ∧ element.startTag.selfClosing = (tag.ending == .selfClosing)) ∧
      element.attributes = tag.attributes.map (·.attr) ∧ element.endTag = none ∧ element.rawName = String.ofList tag.rawName
  | .endTag .., _ => False
  | .interpolation content _, kind => kind = .interpolation content
  | .comment .., kind => kind = .comment
  | _, kind => kind = .text

/-- Where a tag is found after it was added: in the tree, or among the problems if it closes nothing. -/
def Found (builder : Builder) : Piece → Prop
  | .startTag tag => ∃ (id : Nat) (node : Node) (element : Element), builder.nodes[id]? = some node ∧
      node.kind = .element element ∧ element.startTag.span = ⟨tag.start, tag.stop⟩
  | .endTag name span _ =>
      (∃ (id : Nat) (node : Node) (element : Element), builder.nodes[id]? = some node ∧ node.kind = .element element ∧
        element.endTag = some span) ∨ ⟨.unexpectedEndTag (String.ofList name), span⟩ ∈ builder.problems.toList
  | _ => True

end Piece

namespace Builder

/-- What a piece does to a tree. -/
structure Steps (builder : Builder) (piece : Piece) (added : Builder) : Prop where
  old : ∀ (id : Nat) node, builder.nodes[id]? = some node → ∃ node', added.nodes[id]? = some node' ∧ node.Becomes piece node'
  new : ∀ (id : Nat) node, added.nodes[id]? = some node → builder.nodes.size ≤ id →
    node.span = piece.span ∧ piece.Adds node.kind
  tokens : added.tokens.toList = builder.tokens.toList ++ piece.tokens
  problems : ∀ problem ∈ builder.problems.toList, problem ∈ added.problems.toList
  found : piece.Found added

/-- A node of the tree with the piece is an old one or the one that the piece adds. -/
theorem Steps.cases {builder added : Builder} {piece : Piece} (h : Steps builder piece added) {id : Nat} {node : Node}
    (hnode : added.nodes[id]? = some node) :
    (∃ old, builder.nodes[id]? = some old ∧ old.Becomes piece node) ∨ (node.span = piece.span ∧ piece.Adds node.kind) := by
  rcases Nat.lt_or_ge id builder.nodes.size with hlt | hge
  · have hold : builder.nodes[id]? = some builder.nodes[id] := Array.getElem?_eq_getElem hlt
    obtain ⟨node', hnode', hbecomes⟩ := h.old id _ hold
    cases hnode.symm.trans hnode'
    exact Or.inl ⟨_, hold, hbecomes⟩
  · exact Or.inr (h.new id node hnode hge)

/-! ## Adding a node -/

/-- A tree with one more node, of what the piece adds. -/
theorem push_steps {builder : Builder} (fileStop : Nat) {piece : Piece} {kind : NodeKind}
    (h : Shaped builder.nodes builder.stack) (hadds : piece.Adds kind)
    (hfound : piece.Found ((builder.record fileStop piece).push piece.span kind)) :
    Steps builder piece ((builder.record fileStop piece).push piece.span kind) := by
  refine ⟨?_, ?_, ?_, ?_, hfound⟩
  · intro id node hnode
    obtain ⟨hlt, _⟩ := Array.getElem?_eq_some_iff.1 hnode
    have hgrown : (grow builder.nodes builder.current piece.span kind)[id]? = _ := grow_old id hlt
    rw [hnode] at hgrown
    refine ⟨_, hgrown, .same ?_ fun _ => ?_⟩
    · split <;> simp
    · split <;> simp
  · intro id node hnode hle
    rcases grow_like h.current_lt hnode with ⟨_, rfl⟩ | ⟨hlt, _⟩
    · exact ⟨rfl, hadds⟩
    · exact absurd hle (Nat.not_le_of_gt hlt)
  · exact Array.toList_append
  · intro problem hp
    exact Array.toList_append ▸ List.mem_append_left _ hp

/-- The element of a start tag is new. -/
theorem startElement_steps {builder : Builder} (fileStop : Nat) (tag : ReadTag) (h : Shaped builder.nodes builder.stack) :
    Steps builder (.startTag tag) (builder.add fileStop (.startTag tag)) := by
  have hnew : (grow builder.nodes builder.current ⟨tag.start, tag.stop⟩ (.element (builder.elementOf tag)))[builder.nodes.size]? =
      _ := grow_new h.current_lt
  have hsteps : Steps builder (.startTag tag) ((builder.record fileStop (.startTag tag)).push ⟨tag.start, tag.stop⟩
      (.element (builder.elementOf tag))) :=
    push_steps fileStop h ⟨_, rfl, ⟨rfl, rfl⟩, rfl, rfl, rfl⟩ ⟨_, _, _, hnew, rfl, rfl⟩
  rw [add, apply, startElement]
  split
  · exact hsteps
  · exact ⟨hsteps.old, hsteps.new, hsteps.tokens, hsteps.problems, hsteps.found⟩

/-! ## Closing nodes -/

/-- Nodes that are closed one after the other are what they were, and so are all others. -/
theorem foldl_shut_old (stop : Nat) (ids : List Nat) {nodes : Array Node} {id : Nat} {old : Node} (h : nodes[id]? = some old) :
    ∃ node, (ids.foldl (fun nodes id => nodes.modify id (Node.shut stop)) nodes)[id]? = some node ∧ node.kind = old.kind ∧
      (id ∉ ids → node.span = old.span) := by
  induction ids generalizing nodes old with
  | nil => exact ⟨old, h, rfl, fun _ => rfl⟩
  | cons first ids ih =>
    have hfirst := getElem?_modify_map nodes first id (Node.shut stop)
    rw [h, Option.map_some] at hfirst
    obtain ⟨node, hnode, hkind, hspan⟩ := ih hfirst
    refine ⟨node, hnode, ?_, fun hnot => ?_⟩
    · rw [hkind]
      split <;> rfl
    · obtain ⟨hne, hrest⟩ := not_or.1 (mt List.mem_cons.2 hnot)
      rw [hspan hrest, if_neg hne]

theorem size_foldl_shut (stop : Nat) (ids : List Nat) (nodes : Array Node) :
    (ids.foldl (fun nodes id => nodes.modify id (Node.shut stop)) nodes).size = nodes.size := by
  induction ids generalizing nodes with
  | nil => rfl
  | cons first ids ih => rw [List.foldl_cons, ih, Array.size_modify]

/-- A node without content is not open. -/
theorem not_mem_stack {nodes : Array Node} {stack : List Nat} (h : Shaped nodes stack) {id : Nat} {node : Node}
    (hnode : nodes[id]? = some node) (hleaf : node.kind.hasContent = false) : id ∉ stack := by
  intro hmem
  rw [h.hasContent id hmem node hnode] at hleaf
  cases hleaf

/-- What a node is once open nodes were closed, and one more with an end tag. -/
theorem shut_then_tagged {nodes : Array Node} {stack inner : List Nat} (h : Shaped nodes stack) (hinner : inner ⊆ stack)
    (matched : Nat) (span : Span) {id : Nat} {node : Node} (hnode : nodes[id]? = some node) :
    ∃ shut, shut.kind = node.kind ∧ (node.kind.hasContent = false → shut.span = node.span) ∧
      ((inner.foldl (fun nodes id => nodes.modify id (Node.shut span.start)) nodes).modify matched (Node.shutWith span))[id]? =
        some (if id = matched then shut.shutWith span else shut) := by
  obtain ⟨shut, hshut, hkind, hspan⟩ := foldl_shut_old span.start inner hnode
  refine ⟨shut, hkind, fun hleaf => hspan fun hin => not_mem_stack h hnode hleaf (hinner hin), ?_⟩
  rw [getElem?_modify_map, hshut, Option.map_some]

/-- An end tag closes the nearest element of its name, or is a problem. -/
theorem endElement_steps {fileStop : Nat} {builder : Builder} (name : List Char) (span : Span) (close : Option Nat)
    (h : Standing fileStop builder.nodes builder.stack span.start) :
    Steps builder (.endTag name span close) (builder.add fileStop (.endTag name span close)) := by
  have hproblems : ∀ problem ∈ builder.problems.toList,
      problem ∈ (builder.record fileStop (.endTag name span close)).problems.toList := by
    intro problem hp
    exact Array.toList_append ▸ List.mem_append_left _ hp
  rw [add, apply, endElement]
  dsimp only
  split
  · rename_i matched outer hdrop
    obtain ⟨hcloses, hmem⟩ := closes_of_dropWhile hdrop
    obtain ⟨found, element, hfound, hk, hname⟩ := closes_iff.1 hcloses
    have hopen := h.placed.unclosed matched hmem found element hfound hk
    rw [foldl_closeAt]
    have hinner : (builder.stack.takeWhile fun id => !builder.closes name id) ⊆ builder.stack :=
      (List.takeWhile_prefix _).subset
    have htagged : ∀ shut : Node, shut.kind = found.kind →
        (shut.shutWith span).kind = .element { element with endTag := some span } := by
      intro shut hkind
      rw [Node.shutWith, hkind, hk]
    refine ⟨?_, ?_, Array.toList_append, hproblems, Or.inl ?_⟩
    · intro id node hnode
      obtain ⟨shut, hkind, hspan, hshut⟩ := shut_then_tagged h.shaped hinner matched span hnode
      refine ⟨_, hshut, ?_⟩
      by_cases hid : id = matched
      · subst hid
        cases hfound.symm.trans hnode
        rw [if_pos rfl]
        exact .tagged rfl hk hopen hname (htagged shut hkind)
      · rw [if_neg hid]
        exact .same hkind hspan
    · intro id node hnode hle
      obtain ⟨hlt, _⟩ := Array.getElem?_eq_some_iff.1 hnode
      have hsize := size_foldl_shut span.start (builder.stack.takeWhile fun id => !builder.closes name id) builder.nodes
      rw [closeWith_nodes, Array.size_modify] at hlt
      exact absurd (hsize ▸ hlt) (Nat.not_lt_of_ge hle)
    · obtain ⟨shut, hkind, _, hshut⟩ := shut_then_tagged h.shaped hinner matched span hfound
      rw [if_pos rfl] at hshut
      exact ⟨matched, _, _, hshut, htagged shut hkind, rfl⟩
  · refine ⟨fun id node hnode => ⟨node, hnode, .same rfl fun _ => rfl⟩, ?_, Array.toList_append, ?_, Or.inr ?_⟩
    · intro id node hnode hle
      obtain ⟨hlt, _⟩ := Array.getElem?_eq_some_iff.1 hnode
      exact absurd hle (Nat.not_le_of_gt hlt)
    · intro problem hp
      simp [hproblems problem hp]
    · simp

/-! ## Whole runs -/

/-- Adding a piece that is read where the file has been read up to. -/
theorem add_steps {fileStop : Nat} {builder : Builder} {stream rest : Stream} {piece : Piece} {taken : List Char}
    (h : Standing fileStop builder.nodes builder.stack stream.offset) (hread : piece.ReadFrom language stream taken rest)
    (hlt : stream.offset < rest.offset) : Steps builder piece (builder.add fileStop piece) := by
  have hspan := hread.span
  cases piece with
  | comment span closed => exact push_steps fileStop h.shaped rfl trivial
  | text start chars => exact push_steps fileStop h.shaped rfl trivial
  | interpolation content inner => exact push_steps fileStop h.shaped rfl trivial
  | endTag name span close =>
    cases hspan
    exact endElement_steps name _ close h
  | startTag tag => exact startElement_steps fileStop tag h.shaped
  | raw span =>
    have hif : span.start < span.stop := by
      rw [show span = _ from hspan]
      exact hlt
    rw [add, apply, if_pos hif]
    exact push_steps fileStop h.shaped rfl trivial

/-- What each piece keeps of a tree that stands holds after any number of steps. -/
theorem reading_steps (language : Script.Language) (source : List Char) {P : Builder → Stream → Prop}
    (hstart : P (start (byteLength source)) ⟨0, source⟩)
    (hP : ∀ builder stream piece taken rest, P builder stream → piece.ReadFrom language stream taken rest →
      Steps builder piece (builder.add (byteLength source) piece) → P (builder.add (byteLength source) piece) rest)
    (steps : Nat) : P (reading language source steps).1 (reading language source steps).2 := by
  have hkept : Kept language (byteLength source) fun builder stream =>
      Standing (byteLength source) builder.nodes builder.stack stream.offset ∧ P builder stream := by
    rintro builder stream piece taken rest ⟨hstanding, h⟩ hread hlt
    exact ⟨kept_standing _ builder stream piece taken rest hstanding hread hlt,
      hP builder stream piece taken rest h hread (add_steps hstanding hread hlt)⟩
  exact (run_kept language hkept steps ⟨start_standing _, hstart⟩).2

/-- Closing what is open at the end of the file leaves every node what it is, and where it is unless it has content. -/
theorem finish_old (fileStop : Nat) {builder : Builder} (h : Shaped builder.nodes builder.stack) {id : Nat} {old : Node}
    (hold : builder.nodes[id]? = some old) :
    ∃ node, (builder.finish fileStop).nodes[id]? = some node ∧ node.kind = old.kind ∧
      (old.kind.hasContent = false → node.span = old.span) := by
  obtain ⟨node, hnode, hkind, hspan⟩ := foldl_shut_old fileStop builder.stack.dropLast hold
  refine ⟨node, ?_, hkind, fun hleaf => hspan fun hmem => ?_⟩
  · rw [finish, foldl_closeAt]
    exact hnode
  · exact not_mem_stack h hold hleaf ((List.dropLast_prefix _).subset hmem)

/-- Every node of the finished tree was there before. -/
theorem of_finish {fileStop : Nat} {builder : Builder} (h : Shaped builder.nodes builder.stack) {id : Nat} {node : Node}
    (hnode : (builder.finish fileStop).nodes[id]? = some node) :
    ∃ old, builder.nodes[id]? = some old ∧ node.kind = old.kind ∧ (old.kind.hasContent = false → node.span = old.span) := by
  have hlt : id < builder.nodes.size := by
    obtain ⟨hlt, _⟩ := Array.getElem?_eq_some_iff.1 hnode
    rw [finish, foldl_closeAt] at hlt
    exact size_foldl_shut fileStop builder.stack.dropLast builder.nodes ▸ hlt
  have hold : builder.nodes[id]? = some builder.nodes[id] := Array.getElem?_eq_getElem hlt
  obtain ⟨node', hnode', hkind, hspan⟩ := finish_old fileStop h hold
  cases hnode.symm.trans hnode'
  exact ⟨_, hold, hkind, hspan⟩

/-- A piece adds one node at most, and takes none away. -/
theorem size_add (builder : Builder) (fileStop : Nat) (piece : Piece) :
    builder.nodes.size ≤ (builder.add fileStop piece).nodes.size ∧
      (builder.add fileStop piece).nodes.size ≤ builder.nodes.size + 1 := by
  have hgrown : ∀ size : Nat, size = builder.nodes.size + 1 → builder.nodes.size ≤ size ∧ size ≤ builder.nodes.size + 1 := by
    omega
  have hsame : ∀ size : Nat, size = builder.nodes.size → builder.nodes.size ≤ size ∧ size ≤ builder.nodes.size + 1 := by
    omega
  cases piece with
  | comment | text | interpolation => exact hgrown _ size_grow
  | startTag tag =>
    rw [add, apply, startElement]
    split <;> exact hgrown _ size_grow
  | endTag name span close =>
    refine hsame _ ?_
    rw [add, apply, endElement]
    dsimp only
    split
    · rw [foldl_closeAt, closeWith_nodes, Array.size_modify, size_foldl_shut]
      rfl
    · rfl
  | raw span =>
    rw [add, apply]
    split
    · exact hgrown _ size_grow
    · exact hsame _ rfl

end Builder

end ComponentLint.Markup
