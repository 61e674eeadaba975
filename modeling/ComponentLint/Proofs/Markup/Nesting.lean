import ComponentLint.Proofs.Markup.Construction

/-!
# Nested nodes

A node of a tree lies in the content of every node above it (`contains_of_above`), and of two nodes of which neither stands above
the other one ends before the other starts (`stop_le_start`). So for any two elements of a file one stands between the tags of the
other, or they lie apart (`parse_nested`).
-/

namespace ComponentLint.Markup

open Text

/-- Whether a span lies in the content of a node. -/
def Node.Contains (node : Node) (span : Span) : Prop :=
  node.contentStart ≤ span.start ∧ span.stop ≤ node.contentStop

/-- The content of a node is a part of it. -/
theorem Node.Fits.within {node : Node} (h : node.Fits) : node.span.start ≤ node.contentStart ∧
    node.contentStop ≤ node.span.stop := by
  obtain ⟨-, helement⟩ := h
  cases hkind : node.kind with
  | element element =>
    obtain ⟨hstart, hlt, -⟩ := (helement element hkind).startTag
    simp only [Node.contentStart, Node.contentStop, hkind]
    refine ⟨by omega, ?_⟩
    cases htag : element.endTag with
    | none => exact Nat.le_refl _
    | some tag =>
      obtain ⟨-, hbefore, hstop⟩ := (helement element hkind).endTag tag htag
      rw [Option.map_some, Option.getD_some]
      omega
  | root | text | comment | interpolation _ =>
    simp only [Node.contentStart, Node.contentStop, hkind]
    exact ⟨Nat.le_refl _, Nat.le_refl _⟩

namespace Standing

variable {fileStop : Nat} {nodes : Array Node} {id other : Nat} {node above : Node}

/-- A node lies in the content of its parent. -/
theorem contains_child (h : Standing fileStop nodes [0] fileStop) (hnode : nodes[id]? = some node)
    (hparent : parentOf nodes id = some other) (habove : nodes[other]? = some above) : above.Contains node.span := by
  have hpos := (h.shaped.parentOf_lt hparent).1
  have hstop := (h.placed.fits id node (by omega) hnode).2
  rw [parentOf, hnode, Option.bind_some] at hparent
  obtain ⟨hfrom, hto⟩ := h.placed.inside id other node above hnode hparent habove
  refine ⟨hfrom, ?_⟩
  by_cases hroot : other = 0
  · subst hroot
    obtain ⟨hkind, hspan⟩ := h.placed.root above habove
    simp only [Node.contentStop, hkind, hspan]
    exact hstop
  · exact hto (mt List.mem_singleton.1 hroot)

/-- A node lies in the content of every node above it. -/
theorem contains_of_above (h : Standing fileStop nodes [0] fileStop) (hnode : nodes[id]? = some node)
    (habove : nodes[other]? = some above) (hunder : Above nodes other id) (hne : id ≠ other) : above.Contains node.span := by
  induction hunder generalizing node with
  | refl => exact absurd rfl hne
  | @step id parent hparent _ ih =>
    by_cases hother : parent = other
    · exact h.contains_child hnode (hother ▸ hparent) habove
    · obtain ⟨hpos, hlt⟩ := h.shaped.parentOf_lt hparent
      have hsize : parent < nodes.size := Nat.lt_trans hpos hlt
      have hmiddle : nodes[parent]? = some nodes[parent] := Array.getElem?_eq_getElem hsize
      obtain ⟨houter, houter'⟩ := ih hmiddle hother
      obtain ⟨hinner, hinner'⟩ := h.contains_child hnode hparent hmiddle
      have hzero : parent ≠ 0 := by
        rintro rfl
        have hle := h.shaped.above_le ‹Above nodes other 0›
        omega
      obtain ⟨hfrom, hto⟩ := (h.placed.fits parent _ (Nat.pos_of_ne_zero hzero) hmiddle).1.within
      exact ⟨by omega, by omega⟩

/-- Of two nodes of which neither stands above the other, the first ends before the second starts. -/
theorem stop_le_start (h : Standing fileStop nodes [0] fileStop) {first : Node} (hfirst : nodes[id]? = some first)
    (hnode : nodes[other]? = some node) (hlt : id < other) (hnot : ¬Above nodes id other) :
    first.span.stop ≤ node.span.start := by
  induction other using Nat.strongRecOn generalizing node with
  | ind other ih =>
    have hsize : other < nodes.size := (Array.getElem?_eq_some_iff.1 hnode).1
    obtain ⟨parent, hparent, hbelow⟩ := h.shaped.exists_parentOf (by omega) hsize
    have hmiddle : nodes[parent]? = some nodes[parent] := Array.getElem?_eq_getElem (by omega)
    rcases Nat.lt_trichotomy id parent with hid | hid | hid
    · have hapart := ih parent hbelow hmiddle hid fun hunder => hnot (.step hparent hunder)
      obtain ⟨hstart, -⟩ := h.contains_child hnode hparent hmiddle
      obtain ⟨hfrom, -⟩ := (h.placed.fits parent _ (by omega) hmiddle).1.within
      omega
    · exact absurd (.step hparent (hid ▸ .refl)) hnot
    · -- The parent stands above both, so the first lies under an earlier child of the parent, or is one.
      have hunder : Above nodes parent id :=
        h.shaped.interval parent other id hsize (.step hparent .refl) (by omega) (by omega)
      obtain ⟨child, hchild, hbetween⟩ := hunder.exists_child (by omega)
      have hchild_le := h.shaped.above_le hbetween
      have hsibling : nodes[child]? = some nodes[child] := Array.getElem?_eq_getElem (by omega)
      have hends : first.span.stop ≤ nodes[child].span.stop := by
        by_cases hsame : id = child
        · subst hsame
          rw [Option.some.inj (hfirst.symm.trans hsibling)]
        · obtain ⟨-, hstop⟩ := h.contains_of_above hfirst hsibling hbetween hsame
          have hpos := (h.shaped.parentOf_lt hchild).1
          obtain ⟨-, hto⟩ := (h.placed.fits child _ (by omega) hsibling).1.within
          omega
      rw [parentOf, hsibling, Option.bind_some] at hchild
      rw [parentOf, hnode, Option.bind_some] at hparent
      have hnext := (h.placed.siblings child other _ node (by omega) hsibling hnode (hchild.trans hparent.symm)).2
      omega

end Standing

/-! ## Elements -/

/-- Whether a span lies between the tags of an element. -/
def Element.Encloses (element : Element) (span : Span) : Prop :=
  element.startTag.span.stop ≤ span.start ∧ ∀ tag, element.endTag = some tag → span.stop ≤ tag.start

theorem Node.Contains.encloses {node : Node} {element : Element} {span : Span} (h : node.Contains span)
    (hkind : node.kind = .element element) : element.Encloses span := by
  obtain ⟨hstart, hstop⟩ := h
  simp only [Node.contentStart, Node.contentStop, hkind] at hstart hstop
  refine ⟨hstart, fun tag htag => ?_⟩
  simpa [htag] using hstop

/-- Two elements of which one stands between the tags of the other, or which lie apart. -/
def Element.Nested (first second : Element) : Prop :=
  ∃ span span', first.Fits span ∧ second.Fits span' ∧
    (first.Encloses span' ∨ second.Encloses span ∨ span.stop ≤ span'.start ∨ span'.stop ≤ span.start)

namespace Element.Nested

variable {first second : Element} {tag tag' : Span}

/-- The place where the content of an element starts lies in no other start tag, and no other start tag ends there. -/
theorem start_outside (h : first.Nested second) :
    second.startTag.span.stop < first.startTag.span.stop ∨ first.startTag.span.stop ≤ second.startTag.span.start := by
  obtain ⟨span, span', hfits, hfits', hnested⟩ := h
  obtain ⟨hstart, hlt, hle⟩ := hfits.startTag
  obtain ⟨hstart', hlt', hle'⟩ := hfits'.startTag
  rcases hnested with ⟨hfrom, -⟩ | ⟨hfrom, -⟩ | hapart | hapart
  · exact .inr (by omega)
  · exact .inl (by omega)
  · exact .inr (by omega)
  · exact .inl (by omega)

/-- The place where the content of an element stops lies in no other start tag. -/
theorem stop_outside (h : first.Nested second) (hend : first.endTag = some tag) :
    second.startTag.span.stop ≤ tag.start ∨ tag.start < second.startTag.span.start := by
  obtain ⟨span, span', hfits, hfits', hnested⟩ := h
  obtain ⟨hstart, hlt, hle⟩ := hfits.startTag
  obtain ⟨hstart', hlt', hle'⟩ := hfits'.startTag
  obtain ⟨hcontent, hends, hstop⟩ := hfits.endTag tag hend
  rcases hnested with ⟨-, hto⟩ | ⟨hfrom, -⟩ | hapart | hapart
  · have hstop' := hto tag hend
    exact .inl (by omega)
  · exact .inl (by omega)
  · exact .inr (by omega)
  · exact .inl (by omega)

/-- Two elements do not end at one place. -/
theorem endTag_ne (h : first.Nested second) (hend : first.endTag = some tag) (hend' : second.endTag = some tag') :
    tag.start ≠ tag'.start := by
  obtain ⟨span, span', hfits, hfits', hnested⟩ := h
  obtain ⟨hcontent, hends, hstop⟩ := hfits.endTag tag hend
  obtain ⟨hcontent', hends', hstop'⟩ := hfits'.endTag tag' hend'
  obtain ⟨hstart, hlt, -⟩ := hfits.startTag
  obtain ⟨hstart', hlt', -⟩ := hfits'.startTag
  rcases hnested with ⟨-, hto⟩ | ⟨-, hto⟩ | hapart | hapart
  · have hinside := hto tag hend
    omega
  · have hinside := hto tag' hend'
    omega
  · omega
  · omega

/-- An element that ends in the content of another one starts there too. -/
theorem starts_inside (h : first.Nested second) (hend : first.endTag = some tag) (hend' : second.endTag = some tag')
    (hfrom : first.startTag.span.stop ≤ tag'.start) (hto : tag'.start < tag.start) :
    first.startTag.span.stop ≤ second.startTag.span.start := by
  obtain ⟨span, span', hfits, hfits', hnested⟩ := h
  obtain ⟨hcontent, hends, hstop⟩ := hfits.endTag tag hend
  obtain ⟨hcontent', hends', hstop'⟩ := hfits'.endTag tag' hend'
  obtain ⟨hstart, hlt, -⟩ := hfits.startTag
  obtain ⟨hstart', hlt', -⟩ := hfits'.startTag
  rcases hnested with ⟨hinside, -⟩ | ⟨-, hinside⟩ | hapart | hapart
  · omega
  · have hbefore := hinside tag' hend'
    omega
  · omega
  · omega

end Element.Nested

section Parsed

variable {language : Script.Language} {source : List Char} {id other : Nat} {element element' : Element}

theorem exists_fits (h : (parse language source).1.element? id = some element) :
    ∃ node, (parse language source).1.nodes[id]? = some node ∧ node.kind = .element element ∧ element.Fits node.span ∧
      node.span.stop ≤ byteLength source := by
  have hstanding := parse_standing language source
  obtain ⟨node, hnode, hkind⟩ := Document.element?_eq_some_iff.1 h
  have hpos : 0 < id := by
    rcases Nat.eq_zero_or_pos id with rfl | hpos
    · cases (hstanding.placed.root node hnode).1.symm.trans hkind
    · exact hpos
  obtain ⟨⟨-, hfits⟩, hstop⟩ := hstanding.placed.fits id node hpos hnode
  exact ⟨node, hnode, hkind, hfits element hkind, hstop⟩

theorem parse_nested (h : (parse language source).1.element? id = some element)
    (h' : (parse language source).1.element? other = some element') (hne : id ≠ other) : element.Nested element' := by
  have hstanding := parse_standing language source
  obtain ⟨node, hnode, hkind, hfits, -⟩ := exists_fits h
  obtain ⟨node', hnode', hkind', hfits', -⟩ := exists_fits h'
  refine ⟨node.span, node'.span, hfits, hfits', ?_⟩
  by_cases hunder : Above (parse language source).1.nodes id other
  · exact .inl ((hstanding.contains_of_above hnode' hnode hunder hne.symm).encloses hkind)
  by_cases hunder' : Above (parse language source).1.nodes other id
  · exact .inr (.inl ((hstanding.contains_of_above hnode hnode' hunder' hne).encloses hkind'))
  rcases Nat.lt_or_gt_of_ne hne with hlt | hlt
  · exact .inr (.inr (.inl (hstanding.stop_le_start hnode hnode' hlt hunder)))
  · exact .inr (.inr (.inr (hstanding.stop_le_start hnode' hnode hlt hunder')))

end Parsed

end ComponentLint.Markup
