import ComponentLint.Proofs.Markup.Steps

/-!
# Trees of files are well formed

`WellFormed` says what can be relied on in the tree of any file, however broken its markup is: the numbering, the links
between parents and children, how spans are nested, and that end tags belong to the elements that have them.
-/

namespace ComponentLint.Markup

open Text

/-- A tree in document order, with its spans in place. -/
structure Document.WellFormed (document : Document) : Prop where
  numbered : ∀ (id : Nat) node, document.node? id = some node → node.id = id
  /-- Node 0 is the file as a whole. -/
  root : ∃ node, document.node? 0 = some node ∧ node.kind = .root ∧ node.parent = none ∧
    node.span = ⟨0, byteLength document.source⟩
  /-- No other node is a root; each has a parent before it, which has it as a child once. -/
  parent : ∀ (id : Nat) node, document.node? id = some node → 0 < id → node.kind ≠ .root ∧
    ∃ parent : Nat, node.parent = some parent ∧ parent < id ∧ (document.children parent).count id = 1
  /-- Only nodes of the tree are children, and of their parents only. -/
  children : ∀ id child : Nat, child ∈ document.children id → document.parent? child = some id
  increasing : ∀ id : Nat, (document.children id).Pairwise fun a b : Nat => a < b
  descendants : document.descendants 0 = List.range' 1 (document.size - 1)
  /-- A child lies in its parent, and between the tags of the parent if that is an element. -/
  inside : ∀ (id parent : Nat) node above, document.node? id = some node → node.parent = some parent →
    document.node? parent = some above → node.span.Within above.span ∧
      ∀ element, above.kind = .element element → element.startTag.span.stop ≤ node.span.start ∧
        ∀ tag, element.endTag = some tag → node.span.stop ≤ tag.start
  siblings : ∀ id : Nat, (document.children id).Pairwise fun a b : Nat => (document.spanOf a).stop ≤ (document.spanOf b).start
  /-- The start tag opens the element, and the attributes lie in it one after the other. -/
  attributes : ∀ (id : Nat) element, document.element? id = some element →
    element.startTag.span.start = (document.spanOf id).start ∧ element.startTag.span.Within (document.spanOf id) ∧
      InOrder element.startTag.span.start element.startTag.span.stop (element.attributes.map (·.span))
  /-- The end tag is written with the name of the element, but for the case of its letters. -/
  endTag : ∀ (id : Nat) element tag, document.element? id = some element → element.endTag = some tag →
    ∃ name, EndTagText name (document.text tag) ∧ eqIgnoreAsciiCase element.rawName.toList name = true

/-! ## End tags -/

/-- The end tag of an element is written in the file with the name of the element. -/
def Element.EndsNamed (source : List Char) (element : Element) : Prop :=
  ∀ tag, element.endTag = some tag →
    ∃ name, EndTagText name (slice source tag) ∧ eqIgnoreAsciiCase element.rawName.toList name = true

namespace Builder

/-- End tags are written with the names of their elements after any number of steps. -/
theorem reading_endsNamed (language : Script.Language) (source : List Char) (steps : Nat) :
    ∀ (id : Nat) node element, (reading language source steps).1.nodes[id]? = some node → node.kind = .element element →
      element.EndsNamed source := by
  refine (reading_steps language source (P := fun builder stream => (∃ before, Stream.Reads ⟨0, source⟩ before stream) ∧
    ∀ (id : Nat) node element, builder.nodes[id]? = some node → node.kind = .element element → element.EndsNamed source)
    ⟨⟨[], Stream.Reads.refl _⟩, ?_⟩ ?_ steps).2
  · intro id node element hnode hk
    obtain ⟨_, rfl⟩ := start_nodes hnode
    cases hk
  · rintro builder stream piece taken rest ⟨⟨before, hbefore⟩, h⟩ hread hsteps
    refine ⟨⟨_, hbefore.trans hread.reads⟩, ?_⟩
    intro id node element hnode hk
    rcases hsteps.cases hnode with ⟨old, hold, hbecomes⟩ | ⟨_, hadds⟩
    · cases hbecomes with
      | same hkind _ => exact h id old element hold (hkind ▸ hk)
      | @tagged name span close element' hpiece _ _ hname hkind =>
        subst hpiece
        cases hkind.symm.trans hk
        rintro tag ⟨⟩
        refine ⟨name, ?_, hname⟩
        have hspan : span = ⟨stream.offset, rest.offset⟩ := hread.span
        rw [hspan, hbefore.slice hread.reads]
        exact hread.form
    · cases piece with
      | startTag tag =>
        obtain ⟨element', hk', _, _, hnone, _⟩ := hadds
        cases hk.symm.trans hk'
        intro tag' htag
        rw [hnone] at htag
        cases htag
      | endTag => exact hadds.elim
      | _ =>
        rw [hk] at hadds
        cases hadds

end Builder

/-! ## The whole tree -/

/-- A parent of a finished tree holds its children between its tags. -/
theorem Standing.inside {fileStop : Nat} {nodes : Array Node} (h : Standing fileStop nodes [0] fileStop) {id parent : Nat}
    {node above : Node} (hnode : nodes[id]? = some node) (hparent : node.parent = some parent)
    (habove : nodes[parent]? = some above) :
    node.span.Within above.span ∧ ∀ element, above.kind = .element element → element.startTag.span.stop ≤ node.span.start ∧
      ∀ tag, element.endTag = some tag → node.span.stop ≤ tag.start := by
  have hlt := (h.shaped.parentOf_lt (by rw [parentOf, hnode, Option.bind_some, hparent])).1
  obtain ⟨hstart, hstop⟩ := h.placed.inside id parent node above hnode hparent habove
  obtain ⟨⟨hne, _⟩, hend⟩ := h.placed.fits id node (by omega) hnode
  rcases Nat.eq_zero_or_pos parent with rfl | hpos
  · obtain ⟨hk, hspan⟩ := h.placed.root above habove
    refine ⟨?_, fun element hk' => ?_⟩
    · rw [hspan]
      exact ⟨Nat.zero_le _, hend⟩
    · cases hk.symm.trans hk'
  · have hcontent := hstop fun hmem => Nat.ne_of_gt hpos (List.mem_singleton.1 hmem)
    obtain ⟨⟨habove_ne, hfits⟩, _⟩ := h.placed.fits parent above hpos habove
    cases hk : above.kind with
    | element element =>
      obtain ⟨htag, htag_ne, htag_stop⟩ := (hfits element hk).startTag
      have hendTag := (hfits element hk).endTag
      simp only [Node.contentStart, Node.contentStop, hk] at hstart hcontent
      cases htagged : element.endTag with
      | none =>
        rw [htagged, Option.map_none, Option.getD_none] at hcontent
        refine ⟨⟨by omega, hcontent⟩, ?_⟩
        rintro _ ⟨⟩
        exact ⟨hstart, fun tag htag' => by rw [htagged] at htag'; cases htag'⟩
      | some tag =>
        obtain ⟨_, htag_lt, htag_end⟩ := hendTag tag htagged
        rw [htagged, Option.map_some, Option.getD_some] at hcontent
        refine ⟨⟨by omega, by omega⟩, ?_⟩
        rintro _ ⟨⟩
        refine ⟨hstart, fun tag' htag' => ?_⟩
        cases htagged.symm.trans htag'
        exact hcontent
    | _ =>
      refine ⟨?_, by simp⟩
      simp only [Node.contentStart, Node.contentStop, hk] at hstart hcontent
      exact ⟨hstart, hcontent⟩

/-- A finished tree whose end tags are named is well formed. -/
theorem Standing.wellFormed {document : Document}
    (h : Standing (byteLength document.source) document.nodes [0] (byteLength document.source))
    (hnamed : ∀ (id : Nat) node element, document.nodes[id]? = some node → node.kind = .element element →
      element.EndsNamed document.source) : document.WellFormed := by
  have hmem : ∀ id child : Nat, child ∈ document.children id → parentOf document.nodes child = some id :=
    fun _ _ => h.shaped.mem_children.1
  have helement : ∀ (id : Nat) element, document.element? id = some element →
      ∃ node, document.nodes[id]? = some node ∧ node.kind = .element element ∧ document.spanOf id = node.span ∧ 0 < id := by
    intro id element hsome
    obtain ⟨node, hnode, hk⟩ := Document.element?_eq_some_iff.1 hsome
    refine ⟨node, hnode, hk, by simp [Document.spanOf, Document.node?, hnode], Nat.pos_of_ne_zero ?_⟩
    rintro rfl
    cases hk.symm.trans (h.placed.root node hnode).1
  refine ⟨h.shaped.numbered, ?_, ?_, hmem, h.shaped.pairwise_children, h.shaped.descendants_root, ?_, ?_, ?_, ?_⟩
  · obtain ⟨node, hnode, hk, hparent⟩ := h.shaped.root
    exact ⟨node, hnode, hk, hparent, (h.placed.root node hnode).2⟩
  · intro id node hnode hpos
    obtain ⟨hk, parent, hparent, hlt⟩ := h.shaped.parent id node hnode hpos
    have hnodup : (document.children parent).Nodup := (h.shaped.pairwise_children parent).imp Nat.ne_of_lt
    have hchild : id ∈ document.children parent :=
      h.shaped.mem_children.2 (by rw [parentOf, show document.nodes[id]? = _ from hnode, Option.bind_some, hparent])
    exact ⟨hk, parent, hparent, hlt, List.count_eq_one_of_mem hnodup hchild⟩
  · intro id parent node above hnode hparent habove
    exact h.inside hnode hparent habove
  · intro id
    refine (h.shaped.pairwise_children id).imp_of_mem ?_
    intro a b ha hb hlt
    obtain ⟨first, hfirst, hfirst_parent⟩ := parentOf_eq_some (hmem id a ha)
    obtain ⟨second, hsecond, hsecond_parent⟩ := parentOf_eq_some (hmem id b hb)
    have horder := (h.placed.siblings a b first second hlt hfirst hsecond (hfirst_parent.trans hsecond_parent.symm)).2
    simpa [Document.spanOf, Document.node?, hfirst, hsecond] using horder
  · intro id element hsome
    obtain ⟨node, hnode, hk, hspan, hpos⟩ := helement id element hsome
    obtain ⟨⟨hne, hfits⟩, _⟩ := h.placed.fits id node hpos hnode
    obtain ⟨hstart, _, hstop⟩ := (hfits element hk).startTag
    rw [hspan]
    exact ⟨hstart, ⟨Nat.le_of_eq hstart.symm, hstop⟩, (hfits element hk).attributes⟩
  · intro id element tag hsome htag
    obtain ⟨node, hnode, hk, _⟩ := helement id element hsome
    exact hnamed id node element hnode hk tag htag

/-- The tree of every file is well formed. The root is never closed on the way: it is at the bottom of the stack after every
step, and when a piece was added and its raw content is yet to come. -/
theorem parse_wellFormed (language : Script.Language) (source : List Char) :
    (parse language source).1.source = source ∧ (parse language source).1.WellFormed ∧
      ∀ steps, (Builder.reading language source steps).1.stack.getLast? = some 0 ∧
        ((Builder.reading language source steps).2.chars ≠ [] →
          ((Builder.reading language source steps).1.add (byteLength source)
            (readPiece ((Builder.reading language source steps).1.surroundings language)
              (Builder.reading language source steps).2).1).stack.getLast? = some 0) := by
  have hread := Builder.reading_standing language source source.length
  rw [Builder.reading_end] at hread
  have hnamed := Builder.reading_endsNamed language source source.length
  refine ⟨rfl, Standing.wellFormed (Builder.finish_standing hread) ?_, fun steps => ?_⟩
  · intro id node element hnode hk
    obtain ⟨old, hold, hkind, _⟩ := Builder.of_finish hread.shaped hnode
    exact hnamed id old element hold (hkind ▸ hk)
  · have hstanding := Builder.reading_standing language source steps
    refine ⟨hstanding.shaped.chain.getLast?, fun hne => ?_⟩
    obtain ⟨hlt, taken, hpiece⟩ := readPiece_readFrom ((Builder.reading language source steps).1.surroundings language) hne
    exact (Builder.kept_standing _ _ _ _ _ _ hstanding hpiece hlt).shaped.chain.getLast?

end ComponentLint.Markup
