import ComponentLint.Proofs.Markup.Arena
import ComponentLint.Proofs.Markup.Pieces

/-!
# Where the nodes lie

`Placed` is the invariant on the spans of a tree under construction: nodes lie in the content of their parents, one after
the other. The span of an open element is not final, so nothing is said about the end of its content yet; what lies in it
ends before the offset `pos` up to which the file has been read. Closing a node there gives its content an end.
-/

namespace ComponentLint.Markup

open Text

namespace Node

/-- Where the content of a node starts. -/
def contentStart (node : Node) : Nat :=
  match node.kind with
  | .element element => element.startTag.span.stop
  | _ => node.span.start

/-- Where the content of a node stops. -/
def contentStop (node : Node) : Nat :=
  match node.kind with
  | .element element => (element.endTag.map (·.start)).getD node.span.stop
  | _ => node.span.stop

end Node

/-- How the tags of an element lie in its span: the start tag at its front with the attributes in it in order, and the end
tag, if there is one, at its back. -/
structure Element.Fits (element : Element) (span : Span) : Prop where
  startTag : element.startTag.span.start = span.start ∧ element.startTag.span.start < element.startTag.span.stop ∧
    element.startTag.span.stop ≤ span.stop
  attributes : InOrder element.startTag.span.start element.startTag.span.stop (element.attributes.map (·.span))
  endTag : ∀ tag, element.endTag = some tag →
    element.startTag.span.stop ≤ tag.start ∧ tag.start < tag.stop ∧ tag.stop = span.stop

/-- How a node lies in itself. -/
def Node.Fits (node : Node) : Prop :=
  node.span.start < node.span.stop ∧ ∀ element, node.kind = .element element → element.Fits node.span

/-- The invariant on the spans of nodes in a file that has been read up to `pos`. -/
structure Placed (fileStop : Nat) (nodes : Array Node) (stack : List Nat) (pos : Nat) : Prop where
  root : ∀ node, nodes[0]? = some node → node.kind = .root ∧ node.span = ⟨0, fileStop⟩
  fits : ∀ (id : Nat) node, 0 < id → nodes[id]? = some node → node.Fits ∧ node.span.stop ≤ pos
  /-- Open elements have no end tag. -/
  unclosed : ∀ id ∈ stack, ∀ node element, nodes[id]? = some node → node.kind = .element element → element.endTag = none
  /-- A node lies in the content of its parent. -/
  inside : ∀ (id parent : Nat) node above, nodes[id]? = some node → node.parent = some parent → nodes[parent]? = some above →
    above.contentStart ≤ node.span.start ∧ (parent ∉ stack → node.span.stop ≤ above.contentStop)
  /-- Of two siblings the first is closed and ends before the second starts. -/
  siblings : ∀ (i j : Nat) first second, i < j → nodes[i]? = some first → nodes[j]? = some second →
    first.parent = second.parent → i ∉ stack ∧ first.span.stop ≤ second.span.start

/-- A tree under construction: its shape and its spans. -/
structure Standing (fileStop : Nat) (nodes : Array Node) (stack : List Nat) (pos : Nat) : Prop where
  shaped : Shaped nodes stack
  placed : Placed fileStop nodes stack pos

theorem Placed.weaken {fileStop : Nat} {nodes : Array Node} {stack : List Nat} {pos pos' : Nat}
    (h : Placed fileStop nodes stack pos) (hle : pos ≤ pos') : Placed fileStop nodes stack pos' := by
  refine ⟨h.root, ?_, h.unclosed, h.inside, h.siblings⟩
  intro id node hid hnode
  obtain ⟨hfits, hstop⟩ := h.fits id node hid hnode
  exact ⟨hfits, Nat.le_trans hstop hle⟩

/-- The content of an open node starts before what has not been read. -/
theorem Placed.contentStart_le {fileStop : Nat} {nodes : Array Node} {stack : List Nat} {pos id : Nat} {node : Node}
    (h : Placed fileStop nodes stack pos) (hnode : nodes[id]? = some node) : node.contentStart ≤ pos := by
  rcases Nat.eq_zero_or_pos id with rfl | hid
  · obtain ⟨hk, hs⟩ := h.root node hnode
    simp [Node.contentStart, hk, hs]
  · obtain ⟨⟨hne, helement⟩, hstop⟩ := h.fits id node hid hnode
    unfold Node.contentStart
    split
    · rename_i element hk
      have := (helement element hk).startTag
      omega
    · omega

/-! ## Adding a node -/

theorem Node.Like.contentStart {node old : Node} (h : node.Like old) : node.contentStart = old.contentStart := by
  simp [Node.contentStart, h.kind, h.span]

theorem Node.Like.contentStop {node old : Node} (h : node.Like old) : node.contentStop = old.contentStop := by
  simp [Node.contentStop, h.kind, h.span]

theorem Node.Like.fits {node old : Node} (h : node.Like old) (hfits : old.Fits) : node.Fits := by
  rw [Node.Fits, h.span, h.kind]
  exact hfits

namespace Standing

variable {fileStop : Nat} {nodes : Array Node} {stack : List Nat} {pos : Nat}

/-- A node that starts where reading has come to can be added under the innermost open one. -/
theorem grow (h : Standing fileStop nodes stack pos) {span : Span} {kind : NodeKind} (hkind : kind ≠ .root)
    (hstart : span.start = pos) (hfits : ∀ id parent children, Node.Fits ⟨id, parent, children, span, kind⟩) :
    Standing fileStop (grow nodes (stack.headD 0) span kind) stack span.stop := by
  have hcur := h.shaped.current_lt
  have hspan : span.start < span.stop := (hfits 0 none #[]).1
  have hweak := h.placed.weaken (show pos ≤ span.stop by omega)
  refine ⟨h.shaped.grow hkind, ?_, ?_, ?_, ?_, ?_⟩
  · intro node hnode
    rcases grow_like hcur hnode with ⟨hzero, _⟩ | ⟨_, old, hold, hlike⟩
    · exact absurd hzero.symm (Nat.ne_of_gt h.shaped.size_pos)
    · rw [hlike.kind, hlike.span]
      exact h.placed.root old hold
  · intro id node hid hnode
    rcases grow_like hcur hnode with ⟨_, rfl⟩ | ⟨_, old, hold, hlike⟩
    · exact ⟨hfits _ _ _, Nat.le_refl _⟩
    · obtain ⟨hold_fits, hold_stop⟩ := hweak.fits id old hid hold
      exact ⟨hlike.fits hold_fits, hlike.span ▸ hold_stop⟩
  · intro id hid node element hnode hk
    rcases grow_like hcur hnode with ⟨rfl, _⟩ | ⟨_, old, hold, hlike⟩
    · exact absurd (h.shaped.mem_stack hid).2 (Nat.lt_irrefl _)
    · exact h.placed.unclosed id hid old element hold (hlike.kind ▸ hk)
  · intro id parent node above hnode hparent habove
    rcases grow_like hcur hnode with ⟨_, rfl⟩ | ⟨hid, old, hold, hlike⟩
    · cases hparent
      rcases grow_like hcur habove with ⟨hsize, _⟩ | ⟨_, old, hold, hlike⟩
      · omega
      · refine ⟨?_, fun hnot => absurd h.shaped.current_mem hnot⟩
        rw [hlike.contentStart]
        exact hstart ▸ h.placed.contentStart_le hold
    · rw [hlike.parent] at hparent
      have hlt : parent < id := (h.shaped.parentOf_lt (by rw [parentOf, hold, Option.bind_some, hparent])).1
      rcases grow_like hcur habove with ⟨hsize, _⟩ | ⟨_, old', hold', hlike'⟩
      · omega
      · rw [hlike'.contentStart, hlike'.contentStop, hlike.span]
        exact h.placed.inside id parent old old' hold hparent hold'
  · intro i j first second hij hfirst hsecond hsame
    rcases grow_like hcur hfirst with ⟨rfl, _⟩ | ⟨hi, old, hold, hlike⟩
    · obtain ⟨hj, _⟩ := Array.getElem?_eq_some_iff.1 hsecond
      rw [size_grow] at hj
      omega
    · rw [hlike.parent] at hsame
      rw [hlike.span]
      rcases grow_like hcur hsecond with ⟨_, rfl⟩ | ⟨_, old', hold', hlike'⟩
      · -- Siblings of the new node are children of the innermost open node, so they are closed.
        have hlt := (h.shaped.parentOf_lt (by rw [parentOf, hold, Option.bind_some, hsame])).1
        refine ⟨fun hmem => ?_, ?_⟩
        · have := (h.shaped.mem_stack hmem).1
          omega
        · exact hstart ▸ (h.placed.fits i old (by omega) hold).2
      · rw [hlike'.span]
        exact h.placed.siblings i j old old' hij hold hold' (hlike'.parent ▸ hsame)

/-- The element that was added last can be opened. -/
theorem push (h : Standing fileStop nodes stack pos) {node : Node} {element : Element}
    (hlast : nodes[nodes.size - 1]? = some node) (hparent : node.parent = some (stack.headD 0))
    (hkind : node.kind = .element element) (hopen : element.endTag = none) :
    Standing fileStop nodes ((nodes.size - 1) :: stack) pos := by
  refine ⟨h.shaped.push hlast hparent (by rw [hkind]; rfl), h.placed.root, h.placed.fits, ?_, ?_, ?_⟩
  · intro id hid other element' hother hk
    rcases List.mem_cons.1 hid with rfl | hid
    · rw [hlast] at hother
      cases hother
      rw [hkind] at hk
      cases hk
      exact hopen
    · exact h.placed.unclosed id hid other element' hother hk
  · intro id parent child above hchild hp habove
    obtain ⟨h1, h2⟩ := h.placed.inside id parent child above hchild hp habove
    exact ⟨h1, fun hnot => h2 fun hmem => hnot (List.mem_cons_of_mem _ hmem)⟩
  · intro i j first second hij hfirst hsecond hsame
    obtain ⟨h1, h2⟩ := h.placed.siblings i j first second hij hfirst hsecond hsame
    obtain ⟨hj, _⟩ := Array.getElem?_eq_some_iff.1 hsecond
    refine ⟨fun hmem => ?_, h2⟩
    rcases List.mem_cons.1 hmem with rfl | hmem
    · omega
    · exact h1 hmem

/-- An open node other than the root is an element without an end tag. -/
theorem exists_element (h : Standing fileStop nodes stack pos) {id : Nat} (hid : id ∈ stack) (hpos : 0 < id) :
    ∃ node element, nodes[id]? = some node ∧ node.kind = .element element ∧ element.endTag = none := by
  have hlt := (h.shaped.mem_stack hid).2
  have hnode : nodes[id]? = some nodes[id] := Array.getElem?_eq_getElem hlt
  have hcontent := h.shaped.hasContent id hid _ hnode
  have hroot := (h.shaped.parent id _ hnode hpos).1
  cases hk : nodes[id].kind with
  | element element => exact ⟨_, element, hnode, hk, h.placed.unclosed id hid _ element hnode hk⟩
  | root => exact absurd hk hroot
  | text => rw [hk] at hcontent; cases hcontent
  | interpolation _ => rw [hk] at hcontent; cases hcontent
  | comment => rw [hk] at hcontent; cases hcontent

end Standing

/-! ## Closing a node -/

/-- What closing does to a node whose content has been read up to `pos`: it ends at `stop`, its content after `pos`. -/
structure Closes (pos stop : Nat) (node closed : Node) : Prop where
  span : closed.span = ⟨node.span.start, stop⟩
  contentStart : closed.contentStart = node.contentStart
  contentStop : pos ≤ closed.contentStop
  fits : closed.Fits

/-- What closing a node leaves alone, for that node and for all others. -/
theorem Closes.kept {nodes : Array Node} {id pos stop : Nat} {f : Node → Node} (hf : KeepsShape f)
    (hclose : ∀ node, nodes[id]? = some node → Closes pos stop node (f node)) (i : Nat) (node : Node)
    (hnode : (nodes.modify id f)[i]? = some node) :
    ∃ old, nodes[i]? = some old ∧ node.parent = old.parent ∧ node.span.start = old.span.start ∧
      node.contentStart = old.contentStart ∧ (i = id → node = f old) ∧ (i ≠ id → node = old) := by
  obtain ⟨old, hold, rfl⟩ := modify_cases hnode
  refine ⟨old, hold, ?_⟩
  by_cases heq : i = id
  · subst heq
    have hc := hclose old hold
    simp [hf.parent, hc.span, hc.contentStart]
  · simp [heq]

namespace Standing

variable {fileStop : Nat} {nodes : Array Node} {stack : List Nat} {pos : Nat}

/-- The innermost open node can be closed, unless it is the root. -/
theorem close {id above : Nat} {rest : List Nat} (h : Standing fileStop nodes (id :: above :: rest) pos) {f : Node → Node}
    {stop : Nat} (hf : KeepsShape f) (hle : pos ≤ stop)
    (hclose : ∀ node, nodes[id]? = some node → Closes pos stop node (f node)) :
    Standing fileStop (nodes.modify id f) (above :: rest) stop := by
  have hlt : above < id := (h.shaped.parentOf_lt h.shaped.chain.1).1
  have hnot : id ∉ above :: rest := fun hmem => by
    have := (h.shaped.pop.mem_stack hmem).1
    simp only [List.headD_cons] at this
    omega
  have hweak := h.placed.weaken hle
  have hkept := Closes.kept hf hclose
  refine ⟨h.shaped.pop.modify id hf, ?_, ?_, ?_, ?_, ?_⟩
  · intro node hnode
    obtain ⟨old, hold, -, -, -, -, hsame⟩ := hkept 0 node hnode
    rw [hsame (by omega)]
    exact h.placed.root old hold
  · intro i node hi hnode
    obtain ⟨old, hold, -, -, -, hclosed, hsame⟩ := hkept i node hnode
    by_cases heq : i = id
    · subst heq
      have hc := hclose old hold
      rw [hclosed rfl]
      exact ⟨hc.fits, Nat.le_of_eq (congrArg Span.stop hc.span)⟩
    · rw [hsame heq]
      exact hweak.fits i old hi hold
  · intro i hi node element hnode hk
    obtain ⟨old, hold, -, -, -, -, hsame⟩ := hkept i node hnode
    have hne : i ≠ id := fun heq => hnot (heq ▸ hi)
    exact h.placed.unclosed i (List.mem_cons_of_mem _ hi) old element hold (hsame hne ▸ hk)
  · intro i parent node up hnode hparent hup
    obtain ⟨old, hold, hp, hstart, -, -, hsame⟩ := hkept i node hnode
    obtain ⟨oldUp, holdUp, -, -, hupStart, hupClosed, hupSame⟩ := hkept parent up hup
    rw [hp] at hparent
    have hparentOf : parentOf nodes i = some parent := by rw [parentOf, hold, Option.bind_some, hparent]
    obtain ⟨hinStart, hinStop⟩ := h.placed.inside i parent old oldUp hold hparent holdUp
    have hchild := (h.shaped.parentOf_lt hparentOf).1
    refine ⟨by rw [hupStart, hstart]; exact hinStart, fun hpn => ?_⟩
    by_cases hpid : parent = id
    · subst hpid
      rw [hsame (by omega), hupClosed rfl]
      exact Nat.le_trans (h.placed.fits i old (by omega) hold).2 (hclose oldUp holdUp).contentStop
    · have hne : i ≠ id := by
        rintro rfl
        rw [h.shaped.chain.1] at hparentOf
        cases hparentOf
        exact hpn List.mem_cons_self
      rw [hsame hne, hupSame hpid]
      exact hinStop fun hmem => hpn ((List.mem_cons.1 hmem).resolve_left hpid)
  · intro i j first second hij hfirst hsecond hparent
    obtain ⟨oldFirst, holdFirst, hp, -, -, -, hsame⟩ := hkept i first hfirst
    obtain ⟨oldSecond, holdSecond, hp', hstart, -, -, -⟩ := hkept j second hsecond
    rw [hp, hp'] at hparent
    obtain ⟨hnotOpen, hstop⟩ := h.placed.siblings i j oldFirst oldSecond hij holdFirst holdSecond hparent
    have hne : i ≠ id := fun heq => hnotOpen (heq ▸ List.mem_cons_self)
    refine ⟨fun hmem => hnotOpen (List.mem_cons_of_mem _ hmem), ?_⟩
    rw [hsame hne, hstart]
    exact hstop

end Standing

/-- A node that ends at an offset. -/
def Node.shut (stop : Nat) (node : Node) : Node :=
  { node with span := ⟨node.span.start, stop⟩ }

/-- A node that ends with an end tag. -/
def Node.shutWith (tag : Span) (node : Node) : Node :=
  match node.kind with
  | .element element =>
    { node with span := ⟨node.span.start, tag.stop⟩, kind := .element { element with endTag := some tag } }
  | _ => { node with span := ⟨node.span.start, tag.stop⟩ }

theorem Builder.closeWith_nodes (tag : Span) (builder : Builder) (id : Nat) :
    (closeWith tag builder id).nodes = builder.nodes.modify id (Node.shutWith tag) := rfl

theorem Node.keepsShape_shut (stop : Nat) : KeepsShape (Node.shut stop) :=
  ⟨fun _ => rfl, fun _ => rfl, fun _ => rfl, fun _ => Iff.rfl, fun _ => rfl⟩

theorem Node.keepsShape_shutWith (tag : Span) : KeepsShape (Node.shutWith tag) := by
  refine ⟨?_, ?_, ?_, ?_, ?_⟩ <;> intro node <;> unfold Node.shutWith <;> split <;> simp_all [NodeKind.hasContent]

namespace Standing

variable {fileStop : Nat} {nodes : Array Node} {stack : List Nat} {pos : Nat}

/-- An open element, with what is known of it. -/
theorem open_fits {id : Nat} (h : Standing fileStop nodes stack pos) (hid : id ∈ stack) (hpos : 0 < id) {node : Node}
    (hnode : nodes[id]? = some node) :
    ∃ element, node.kind = .element element ∧ element.endTag = none ∧ element.Fits node.span ∧ node.span.stop ≤ pos := by
  obtain ⟨node', element, hnode', hk, hopen⟩ := h.exists_element hid hpos
  rw [hnode] at hnode'
  cases hnode'
  obtain ⟨⟨_, hfits⟩, hstop⟩ := h.placed.fits id node hpos hnode
  exact ⟨element, hk, hopen, hfits element hk, hstop⟩

/-- Closing an open element without an end tag. -/
theorem closes_shut {id : Nat} (h : Standing fileStop nodes stack pos) (hid : id ∈ stack) (hpos : 0 < id) :
    ∀ node, nodes[id]? = some node → Closes pos pos node (node.shut pos) := by
  intro node hnode
  obtain ⟨element, hk, hopen, hfit, hstop⟩ := h.open_fits hid hpos hnode
  obtain ⟨hstart, hne, htag⟩ := hfit.startTag
  refine ⟨rfl, ?_, ?_, ?_, ?_⟩
  · simp [Node.contentStart, Node.shut, hk]
  · simp [Node.contentStop, Node.shut, hk, hopen]
  · simp only [Node.shut]
    omega
  · intro element' hk'
    cases hk.symm.trans hk'
    exact ⟨⟨hstart, hne, Nat.le_trans htag hstop⟩, hfit.attributes, fun tag ht => by rw [hopen] at ht; cases ht⟩

/-- Closing an open element with an end tag that stands where reading has come to. -/
theorem closes_shutWith {id : Nat} (h : Standing fileStop nodes stack pos) (hid : id ∈ stack) (hpos : 0 < id) {tag : Span}
    (hstart : tag.start = pos) (hne : tag.start < tag.stop) :
    ∀ node, nodes[id]? = some node → Closes pos tag.stop node (node.shutWith tag) := by
  intro node hnode
  obtain ⟨element, hk, hopen, hfit, hstop⟩ := h.open_fits hid hpos hnode
  obtain ⟨hs, hn, ht⟩ := hfit.startTag
  have hshut : node.shutWith tag =
      { node with span := ⟨node.span.start, tag.stop⟩, kind := .element { element with endTag := some tag } } := by
    simp only [Node.shutWith, hk]
  rw [hshut]
  refine ⟨rfl, ?_, ?_, ?_, ?_⟩
  · simp [Node.contentStart, hk]
  · simp [Node.contentStop, hstart]
  · simp only
    omega
  · intro element' hk'
    cases hk'
    refine ⟨⟨hs, hn, by simp only; omega⟩, hfit.attributes, ?_⟩
    intro tag' htag'
    cases htag'
    exact ⟨by simp only; omega, hne, rfl⟩

/-- The innermost open node can be closed without an end tag, unless it is the root. -/
theorem closeInner {id above : Nat} {rest : List Nat} (h : Standing fileStop nodes (id :: above :: rest) pos) :
    Standing fileStop (nodes.modify id (Node.shut pos)) (above :: rest) pos := by
  have hpos : 0 < id := Nat.zero_lt_of_lt (h.shaped.parentOf_lt h.shaped.chain.1).1
  exact h.close (Node.keepsShape_shut pos) (Nat.le_refl _) (h.closes_shut List.mem_cons_self hpos)

/-- The innermost open node can be closed with an end tag, unless it is the root. -/
theorem closeTagged {id above : Nat} {rest : List Nat} (h : Standing fileStop nodes (id :: above :: rest) pos) {tag : Span}
    (hstart : tag.start = pos) (hne : tag.start < tag.stop) :
    Standing fileStop (nodes.modify id (Node.shutWith tag)) (above :: rest) tag.stop := by
  have hpos : 0 < id := Nat.zero_lt_of_lt (h.shaped.parentOf_lt h.shaped.chain.1).1
  exact h.close (Node.keepsShape_shutWith tag) (by omega) (h.closes_shutWith List.mem_cons_self hpos hstart hne)

end Standing

end ComponentLint.Markup
