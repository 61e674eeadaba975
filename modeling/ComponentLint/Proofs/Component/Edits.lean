import ComponentLint.Proofs.Component.Likeness
import ComponentLint.Proofs.Markup.Fragments
import ComponentLint.Proofs.Markup.Nesting
import ComponentLint.Proofs.Markup.Positions
import ComponentLint.Proofs.Markup.RawEdits
import ComponentLint.Proofs.Markup.Revisions
import ComponentLint.Proofs.Markup.WordEdits

/-!
# Edits of components

A part of a node is exchanged for another text, and the trees are the same but for that node. Then the
components are alike if what the node says is (`Component.alike_of_keeps`): the script in all other nodes is
read from the same text, in front of the edit or moved behind it.
-/

namespace ComponentLint

open Text Markup

/-! ## Places -/

/-- A part of a text in which a word is exchanged for another one. -/
theorem Text.slice_exchange {front word back : List Char} {start count : Nat}
    (hinText : Span.InText (front ++ (word ++ back)) ⟨start, byteLength front + byteLength word + count⟩)
    (hstart : start ≤ byteLength front) (word' : List Char) :
    slice (front ++ (word' ++ back)) ⟨start, byteLength front + byteLength word' + count⟩ =
      slice (front ++ (word ++ back)) ⟨start, byteLength front⟩ ++
        (word' ++ slice (front ++ (word ++ back)) ⟨byteLength front + byteLength word,
          byteLength front + byteLength word + count⟩) := by
  obtain ⟨before, content, behind, hparts, hspan⟩ := hinText.parts
  obtain ⟨rfl, hcontent⟩ := Span.mk.inj hspan
  obtain ⟨early, rfl, hearly⟩ := exists_of_append_eq hparts.symm hstart
  rw [← List.append_assoc] at hearly
  obtain ⟨late, rfl, rfl⟩ := exists_of_append_eq hearly.symm (by
    simp only [byteLength_append] at hcontent ⊢
    omega)
  obtain rfl : count = byteLength late := by
    simp only [byteLength_append] at hcontent
    omega
  have hmiddle := slice_append before early (word ++ (late ++ behind))
  have hlate := slice_append (before ++ early ++ word) late behind
  have hwhole := slice_append before (early ++ (word' ++ late)) behind
  simp only [byteLength_append, List.append_assoc, Nat.add_assoc] at hmiddle hlate hwhole ⊢
  rw [hmiddle, hlate, hwhole]

/-- A region is as much longer as the word in it. -/
theorem Span.InText.byteLength_exchange {front word back : List Char}
    {region : Span} (h : region.InText (front ++ (word ++ back)))
    (hstart : region.start ≤ byteLength front) (hstop : byteLength front + byteLength word ≤ region.stop) (word' : List Char) :
    region.start + byteLength (slice (front ++ (word ++ back)) ⟨region.start, byteLength front⟩ ++
      (word' ++ slice (front ++ (word ++ back)) ⟨byteLength front + byteLength word, region.stop⟩)) =
      byteLength front + byteLength word' + (region.stop - (byteLength front + byteLength word)) := by
  have hword : Stands (front ++ (word ++ back)) (byteLength front) word := ⟨front, back, rfl, rfl⟩
  have hearly : Span.InText (front ++ (word ++ back)) ⟨region.start, byteLength front⟩ := ⟨hstart, h.start, hword.span.start⟩
  have hlate : Span.InText (front ++ (word ++ back)) ⟨byteLength front + byteLength word, region.stop⟩ :=
    ⟨hstop, hword.span.stop, h.stop⟩
  have hearlyLength := hearly.byteLength_slice
  have hlateLength := hlate.byteLength_slice
  simp only [byteLength_append] at hearlyLength hlateLength ⊢
  omega

namespace Markup.Revision

variable {source edited : List Char} {first last last' : Nat}

/-- A region around a cut is moved at its end. -/
theorem samePlace_around {start stop stop' : Nat} (hstart : start ≤ first) (hstop : last ≤ stop)
    (hstop' : stop' = last' + (stop - last)) :
    (cut source edited first last last').SamePlace ⟨start, stop⟩ ⟨start, stop'⟩ :=
  ⟨.inl ⟨rfl, hstart⟩, .inr ⟨stop - last, (Nat.add_sub_cancel' hstop).symm, hstop'⟩⟩

/-- A region apart from a cut is moved as a whole. -/
theorem cut_moves (hsome : first < last) {start start' stop count : Nat}
    (hstart : (cut source edited first last last').place start start')
    (hapart : start = stop ∨ stop ≤ first ∨ last ≤ start) (hle : start + count ≤ stop) :
    (cut source edited first last last').place (start + count) (start' + count) := by
  rcases hapart with rfl | hbefore | hbehind
  · obtain rfl : count = 0 := by omega
    exact hstart
  · rcases hstart with ⟨rfl, -⟩ | ⟨more, rfl, -⟩
    · exact .inl ⟨rfl, by omega⟩
    · omega
  · rcases hstart with ⟨-, hlt⟩ | ⟨more, rfl, rfl⟩
    · omega
    · exact .inr ⟨more + count, by omega, by omega⟩

/-- Different places stay different. -/
theorem cut_unique (hsome : first < last) (hsome' : first < last') {a a' b b' : Span}
    (ha : (cut source edited first last last').SamePlace a a') (hb : (cut source edited first last last').SamePlace b b') :
    a = b ↔ a' = b' := by
  have hplace : ∀ {x x' y y' : Nat}, (cut source edited first last last').place x x' →
      (cut source edited first last last').place y y' → (x = y ↔ x' = y') := by
    rintro x x' y y' (⟨rfl, hx⟩ | ⟨count, rfl, rfl⟩) (⟨rfl, hy⟩ | ⟨more, rfl, rfl⟩)
    · exact Iff.rfl
    · omega
    · omega
    · omega
  obtain ⟨start, stop⟩ := a
  obtain ⟨start', stop'⟩ := a'
  obtain ⟨other, stop₂⟩ := b
  obtain ⟨other', stop₂'⟩ := b'
  rw [Span.mk.injEq, Span.mk.injEq, hplace ha.1 hb.1, hplace ha.2 hb.2]

/-- Places in a region stay in it. -/
theorem cut_within_iff (hsome : first < last) (hsome' : first < last') {a a' b b' : Span}
    (ha : (cut source edited first last last').SamePlace a a') (hb : (cut source edited first last last').SamePlace b b') :
    a'.Within b' ↔ a.Within b := by
  have hplace : ∀ {x x' y y' : Nat}, (cut source edited first last last').place x x' →
      (cut source edited first last last').place y y' → (x' ≤ y' ↔ x ≤ y) := by
    rintro x x' y y' (⟨rfl, hx⟩ | ⟨count, rfl, rfl⟩) (⟨rfl, hy⟩ | ⟨more, rfl, rfl⟩)
    · exact Iff.rfl
    · omega
    · omega
    · omega
  exact and_congr (hplace hb.1 ha.1) (hplace ha.2 hb.2)

instance (source edited : List Char) (first last last' old new : Nat) :
    Decidable ((cut source edited first last last').place old new) :=
  decidable_of_iff ((old = new ∧ old ≤ first) ∨ (last ≤ old ∧ new = last' + (old - last))) <| by
    refine or_congr Iff.rfl ⟨fun ⟨hle, hnew⟩ => ⟨old - last, (Nat.add_sub_cancel' hle).symm, hnew⟩, ?_⟩
    rintro ⟨count, rfl, rfl⟩
    exact ⟨Nat.le_add_right _ _, by rw [Nat.add_sub_cancel_left]⟩

instance (source edited : List Char) (first last last' : Nat) : DecidableRel (cut source edited first last last').SamePlace :=
  fun _ _ => inferInstanceAs (Decidable (_ ∧ _))

/-- What lies apart from a cut is kept. -/
theorem slice_cut {source edited front word word' back : List Char} (hsource : source = front ++ (word ++ back))
    (hedited : edited = front ++ (word' ++ back)) (hsome : word ≠ []) {span span' : Span} (hinText : span.InText source)
    (hplace : (cut source edited (byteLength front) (byteLength front + byteLength word)
      (byteLength front + byteLength word')).SamePlace span span')
    (hapart : span.stop ≤ byteLength front ∨ byteLength front + byteLength word ≤ span.start) :
    slice edited span' = slice source span := by
  have hpos : 0 < byteLength word := (byteLength_pos_iff word).2 hsome
  obtain ⟨before, content, behind, hparts, rfl⟩ := hinText.parts
  obtain ⟨start', stop'⟩ := span'
  obtain ⟨hstart, hstop⟩ := hplace
  rw [hparts, slice_append]
  rw [hsource, ← List.append_assoc] at hparts
  dsimp only at hstart hstop hapart
  rcases hapart with hle | hle
  · obtain rfl : start' = byteLength before := by
      rcases hstart with ⟨rfl, -⟩ | ⟨count, hcount, -⟩
      · rfl
      · omega
    obtain rfl : stop' = byteLength before + byteLength content := by
      rcases hstop with ⟨rfl, -⟩ | ⟨count, hcount, -⟩
      · rfl
      · omega
    rw [← List.append_assoc before, List.append_assoc front] at hparts
    obtain ⟨between, rfl, -⟩ := exists_of_append_eq hparts.symm (by rwa [byteLength_append])
    rw [hedited, List.append_assoc, List.append_assoc]
    exact slice_append before content _
  · obtain ⟨between, rfl, rfl⟩ := exists_of_append_eq hparts (by rwa [byteLength_append])
    rw [byteLength_append, byteLength_append] at hstart hstop
    have hspan : start' = byteLength (front ++ word' ++ between) ∧
        stop' = byteLength (front ++ word' ++ between) + byteLength content := by
      simp only [byteLength_append]
      rcases hstart with ⟨-, hle⟩ | ⟨count, hcount, rfl⟩
      · omega
      · rcases hstop with ⟨-, hle⟩ | ⟨more, hmore, rfl⟩
        · omega
        · omega
    rw [hspan.1, hspan.2, hedited, show front ++ (word' ++ (between ++ (content ++ behind))) =
      front ++ word' ++ between ++ (content ++ behind) by simp]
    exact slice_append _ content behind

end Markup.Revision

/-! ## Trees that are moved -/

namespace Script

variable {likeness : Likeness} {first last distance distance' : Nat}

theorem Kind.placeless_shift (kind : Kind) : (Node.shift.shiftKind distance kind).placeless = kind.placeless := by
  cases kind <;> rfl

namespace Likeness

/-- Regions of two texts that hold the same script, moved by two distances: their places are the same, and nothing is exchanged in
the first one. -/
structure Moves (likeness : Likeness) (first last distance distance' : Nat) : Prop where
  place : ∀ span : Span, (span.shift distance).Between first last → likeness.place (span.shift distance) (span.shift distance')
  kept : ∀ around node, node.span.Between first last → likeness.exchange? around node = none

mutual

/-- A tree between two offsets is alike where it is moved. -/
theorem Moves.alike (h : likeness.Moves first last distance distance') (around : Kind) : ∀ node : Node,
    (node.shift distance).Between first last → likeness.Alike around (node.shift distance) (node.shift distance')
  | ⟨kind, span, children⟩, hbetween => by
    have hparts := h.allAlike (Node.shift.shiftKind distance kind) children fun part hpart => hbetween.parts part hpart
    have hspan := hbetween.span
    simp only [Node.shift] at hparts hspan ⊢
    exact .same (h.kept around _ hspan) ((kind.placeless_shift).trans (kind.placeless_shift).symm) (h.place span hspan) hparts

theorem Moves.allAlike (h : likeness.Moves first last distance distance') (around : Kind) : ∀ nodes : List Node,
    (∀ part ∈ Node.shiftAll distance nodes, part.Between first last) →
    likeness.AllAlike around (Node.shiftAll distance nodes) (Node.shiftAll distance' nodes)
  | [], _ => by
    simp only [Node.shiftAll]
    exact .nil
  | node :: rest, hbetween => by
    simp only [Node.shiftAll] at hbetween ⊢
    exact .cons (h.alike around node (hbetween _ List.mem_cons_self))
      (h.allAlike around rest fun part hpart => hbetween part (List.mem_cons_of_mem _ hpart))

end

theorem Moves.allAlike_map (h : likeness.Moves first last distance distance') (around : Kind) {nodes : List Node}
    (hbetween : ∀ node ∈ nodes, (node.shift distance).Between first last) :
    likeness.AllAlike around (nodes.map (·.shift distance)) (nodes.map (·.shift distance')) := by
  induction nodes with
  | nil => exact .nil
  | cons node rest ih =>
    obtain ⟨hnode, hrest⟩ := List.forall_mem_cons.1 hbetween
    exact .cons (h.alike around node hnode) (ih hrest)

/-- Parts of a region are regions that are moved. -/
theorem Moves.inside {first' last' : Nat} (h : likeness.Moves first last distance distance') (hfirst : first ≤ first')
    (hlast : last' ≤ last) : likeness.Moves first' last' distance distance' := by
  have hwiden : ∀ {span : Span}, span.Between first' last' → span.Between first last :=
    fun ⟨hstart, hle, hstop⟩ => ⟨Nat.le_trans hfirst hstart, hle, Nat.le_trans hstop hlast⟩
  exact ⟨fun span hspan => h.place span (hwiden hspan), fun around node hnode => h.kept around node (hwiden hnode)⟩

/-- An edit that replaces what stands between two offsets, where all that is exchanged lies. -/
structure Edits (likeness : Likeness) (source edited : List Char) (first last last' : Nat) : Prop where
  place : likeness.place = (Markup.Revision.cut source edited first last last').SamePlace
  ordered : first < last
  inside : ∀ around node leaf, likeness.exchange? around node = some leaf → first ≤ node.span.start ∧
    node.span.start < node.span.stop ∧ node.span.stop ≤ last

/-- A region apart from the edit is moved. -/
theorem Edits.moves {source edited : List Char} {last' start stop : Nat} (h : likeness.Edits source edited first last last')
    (hplace : (Markup.Revision.cut source edited first last last').place (start + distance) (start + distance'))
    (hapart : start + distance = stop ∨ stop ≤ first ∨ last ≤ start + distance) :
    likeness.Moves (start + distance) stop distance distance' := by
  refine ⟨fun span hspan => ?_, fun around node hnode => ?_⟩
  · obtain ⟨hstart, hle, hstop⟩ := hspan
    have hmoved : ∀ offset, start + distance ≤ offset + distance → offset + distance ≤ stop →
        (Markup.Revision.cut source edited first last last').place (offset + distance) (offset + distance') := by
      intro offset hfirst hlast
      have hcount : (Markup.Revision.cut source edited first last last').place (start + distance + (offset - start))
          (start + distance' + (offset - start)) := Markup.Revision.cut_moves h.ordered hplace hapart (by omega)
      rwa [show start + distance + (offset - start) = offset + distance by omega,
        show start + distance' + (offset - start) = offset + distance' by omega] at hcount
    rw [h.place]
    exact ⟨hmoved span.start hstart (Nat.le_trans hle hstop), hmoved span.stop (Nat.le_trans hstart hle) hstop⟩
  · obtain ⟨hstart, hle, hstop⟩ := hnode
    cases hexchange : likeness.exchange? around node with
    | none => rfl
    | some leaf =>
      obtain ⟨hfirst, hlt, hlast⟩ := h.inside around node leaf hexchange
      omega

end Likeness

theorem Node.Lies.between {text : List Char} {node : Node} (h : node.Lies text first last) : node.Between first last := by
  intro span hspan
  obtain ⟨inner, hinner, hmem⟩ := h.of_mem_gather hspan
  obtain rfl := List.mem_singleton.1 hmem
  exact ⟨hinner.first_le, hinner.span.ordered, hinner.stop_le⟩

theorem Node.Between.mono {node : Node} {first' last' : Nat} (h : node.Between first last)
    (hfirst : first' ≤ first) (hlast : last ≤ last') :
    node.Between first' last' := by
  intro span hspan
  obtain ⟨hstart, hle, hstop⟩ := h span hspan
  exact ⟨Nat.le_trans hfirst hstart, hle, Nat.le_trans hstop hlast⟩

end Script

namespace Markup

open Script

/-- The start tags of elements that match are the same, at two places. -/
theorem NodeKind.Matches.tags {rev : Revision} {old new : Element} (h : (NodeKind.element old).Matches rev (.element new)) :
    ∃ (tag : StartTag) (distance distance' : Nat), old.heading = new.heading ∧ old.startTag = tag.shift distance ∧
      new.startTag = tag.shift distance' ∧
      Option.Rel rev.SamePlace old.endTag new.endTag := by
  cases h with
  | element tag distance distance' hheading htag htag' hend => exact ⟨tag, distance, distance', hheading, htag, htag', hend⟩

/-- Each node of the one tree stands for that of the other. -/
theorem Document.Keeps.related {old new : Document} {rev : Revision} {changed : NodeId → Prop} (h : old.Keeps rev changed new)
    (id : NodeId) : Option.Rel (fun node node' => node.StandsFor rev (fun other => other) (changed id) node') (old.node? id)
      (new.node? id) := by
  cases hnode' : new.node? id with
  | none =>
    have hge : new.size ≤ id := Array.getElem?_eq_none_iff.1 hnode'
    rw [h.size] at hge
    have hnode : old.node? id = none := Array.getElem?_eq_none_iff.2 hge
    rw [hnode]
    exact .none
  | some node' =>
    obtain ⟨node, hnode, hstands⟩ := h.nodes id node' hnode'
    rw [hnode]
    exact .some hstands

theorem Document.Keeps.parent?_eq {old new : Document} {rev : Revision} {changed : NodeId → Prop} (h : old.Keeps rev changed new)
    (id : NodeId) : new.parent? id = old.parent? id := by
  unfold Document.parent?
  rcases related_cases (h.related id) with ⟨hold, hnew⟩ | ⟨node, node', hold, hnew, hstands⟩
  · rw [hold, hnew]
  · rw [hold, hnew, Option.bind_some, Option.bind_some, hstands.parent, Option.map_id']

/-- The nodes above a node are the same. -/
theorem Document.Keeps.ancestors {old new : Document} {rev : Revision} {changed : NodeId → Prop} (h : old.Keeps rev changed new)
    (id : NodeId) : new.ancestors id = old.ancestors id := by
  have hwithin : ∀ fuel id, new.ancestorsWithin fuel id = old.ancestorsWithin fuel id := by
    intro fuel
    induction fuel with
    | zero => intro id; rfl
    | succ fuel ih =>
      intro id
      rw [Document.ancestorsWithin, Document.ancestorsWithin, h.parent?_eq]
      split
      · rw [ih]
      · rfl
  rw [Document.ancestors, Document.ancestors, h.size, hwithin]

/-- Elements stand for elements of the same name. -/
theorem Document.Keeps.element {old new : Document} {rev : Revision} {changed : NodeId → Prop} (h : old.Keeps rev changed new)
    (id : NodeId) : Option.Rel (fun element element' => old.element? id = some element ∧ new.element? id = some element' ∧
      element.heading = element'.heading) (old.element? id) (new.element? id) := by
  rcases related_cases (h.related id) with ⟨hold, hnew⟩ | ⟨⟨number, parent, children, span, kind⟩,
      ⟨number', parent', children', span', kind'⟩, hold, hnew, hstands⟩
  · rw [Document.element?, Document.element?, hold, hnew]
    exact .none
  · have hkinds := hstands.kind
    unfold Document.element?
    rw [hold, hnew]
    cases hkinds with
    | element hheading => exact .some ⟨rfl, rfl, hheading⟩
    | root | text | interpolation | comment => exact .none

variable {likeness : Likeness} {first last distance distance' : Nat}

/-- What a value says is alike where it is moved. -/
theorem DirectiveValue.alike_shift (h : likeness.Moves first last distance distance') {raw : List Char} {value : DirectiveValue}
    (hbetween : (value.shift distance).Between raw first last)
    (hsplit : ∀ aliases source word, value = .loop aliases source word → ∃ split, Fragment.splitLoop? raw = some split) :
    (value.shift distance).Alike likeness (value.shift distance') := by
  have hkind : ∀ {node : Script.Node} {distance : Nat}, (node.shift distance).kind = .params → node.kind = .params := by
    rintro ⟨kind, span, children⟩ distance hparams
    simp only [Node.shift] at hparams
    cases kind <;> first | rfl | cases hparams
  have hparams : ∀ {node : Script.Node} {distance : Nat}, node.kind = .params → (node.shift distance).kind = .params := by
    rintro ⟨kind, span, children⟩ distance rfl
    rfl
  have hchildren : ∀ (node : Script.Node) (distance : Nat),
      (node.shift distance).children = Node.shiftAll distance node.children := by
    rintro ⟨kind, span, children⟩ distance
    simp only [Node.shift]
  cases value with
  | expression node => exact .expression (h.alike _ node hbetween)
  | invalid => exact .invalid
  | handler statements => exact .handler (h.allAlike_map _ fun node hnode => hbetween _ (List.mem_map_of_mem hnode))
  | slotScope params =>
    obtain ⟨hlist, hparts⟩ := hbetween
    refine .slotScope hlist (hparams (hkind hlist)) ?_
    rw [hchildren] at hparts ⊢
    rw [hchildren]
    exact h.allAlike _ params.children hparts
  | loop aliases source word =>
    obtain ⟨split, hsplit⟩ := hsplit aliases source word rfl
    obtain ⟨⟨hlist, hparts⟩, hsource⟩ := hbetween split hsplit
    have hlt := Fragment.splitLoopFrom_lt hsplit
    have hspan := hsource.span
    have hlast : first + split.1 ≤ last := by
      obtain ⟨hstart, hle, hstop⟩ := hspan
      omega
    refine .loop hlist (hparams (hkind hlist)) ?_ (h.alike _ source (hsource.mono (Nat.le_add_right _ _) (Nat.le_refl _)))
    rw [hchildren] at hparts ⊢
    rw [hchildren]
    exact h.allAlike _ aliases.children fun part hpart => (hparts part hpart).mono (Nat.le_refl _) hlast

theorem Attribute.alike_shift {attr : Attribute} (h : ∀ value meaning, attr.value = some value → value.meaning = some meaning →
    (meaning.shift distance).Alike likeness (meaning.shift distance')) :
      (attr.shift distance).Alike likeness (attr.shift distance') := by
  obtain ⟨span, key, value⟩ := attr
  refine ⟨fun name => by cases key <;> rfl, ?_⟩
  cases value with
  | none => exact .none
  | some value =>
    obtain ⟨place, quote, valueSpan, raw, meaning⟩ := value
    cases meaning with
    | none => exact .none
    | some meaning => exact .some (h _ meaning rfl rfl)

/-- An attribute in a region that is moved says the same. -/
theorem Attribute.alike_moved {language : Language} {source : List Char} (hlaid : (parse language source).1.Laid) {id : NodeId}
    {element : Element} (helement : (parse language source).1.element? id = some element) {attr : Attribute}
    (hattr : attr.shift distance ∈ element.attributes) (h : likeness.Moves first last distance distance')
    (hfirst : first ≤ (attr.shift distance).span.start) (hlast : (attr.shift distance).span.stop ≤ last) :
    (attr.shift distance).Alike likeness (attr.shift distance') := by
  refine Attribute.alike_shift fun value meaning hvalue hmeaning => ?_
  have hvalue' : (attr.shift distance).value = some (value.shift distance) := by rw [Attribute.shift, hvalue]; rfl
  have hmeaning' : (value.shift distance).meaning = some (meaning.shift distance) := by rw [AttributeValue.shift, hmeaning]; rfl
  have hsits := hlaid.value_sits helement hattr hvalue'
  have hbehind := hsits.behind
  have hordered := hsits.ordered
  have hstop := hsits.stop
  obtain ⟨node, hnode, hkind⟩ := Document.element?_eq_some_iff.1 helement
  have hlie := hlaid.fragments node (Array.mem_of_getElem? hnode)
  rw [hkind] at hlie
  refine DirectiveValue.alike_shift (h.inside ?_ ?_) (hlie _ hattr _ hvalue' _ hmeaning') ?_
  · omega
  · omega
  · rintro aliases source word rfl
    obtain ⟨split, hsplit, -⟩ := hlaid.loop_split helement hattr hvalue' hmeaning'
    exact ⟨split, hsplit⟩

/-- A node that an edit does not change says the same. -/
theorem NodeKind.alike_of_matches {language : Script.Language} {source edited : List Char} {last' : Nat}
    (h : likeness.Edits source edited first last last') (hlaid : (parse language source).1.Laid) {id : NodeId} {node node' : Node}
    (hnode : (parse language source).1.node? id = some node) (hnode' : (parse language edited).1.node? id = some node')
    (hmatches : node.Matches (.cut source edited first last last') node')
    (hapart : node.head.stop ≤ first ∨ last ≤ node.head.start) :
    node.kind.Alike likeness node'.kind := by
  have hsits := hlaid.heads.sits id node hnode
  have hsits' := (parse_heads language edited).sits id node' hnode'
  have hfragments := hlaid.fragments node (Array.mem_of_getElem? hnode)
  obtain ⟨hspan, hkind, -⟩ := hmatches
  generalize hkinds : node.kind = kind at hkind
  generalize hkinds' : node'.kind = kind' at hkind
  rw [Node.head, hkinds] at hapart
  rw [hkinds] at hfragments
  cases hkind with
  | root => exact .root
  | text => exact .text
  | comment => exact .comment
  | interpolation content distance distance' =>
    refine .interpolation ?_
    simp only [Node.Sits, hkinds, hkinds'] at hsits hsits'
    change node.span.stop ≤ first ∨ last ≤ node.span.start at hapart
    have hopening : content.opening.stop + distance = node.span.start + 2 := hsits.opening
    have hopening' : content.opening.stop + distance' = node'.span.start + 2 := hsits'.opening
    have hclosing : content.closing.start + distance + 2 = node.span.stop := hsits.closing
    obtain ⟨opening, closing, expression⟩ := content
    dsimp only at hopening hopening' hclosing
    cases expression with
    | none => exact .none
    | some expression =>
      have hbetween : (expression.shift distance).Between (opening.stop + distance) (closing.start + distance) :=
        hfragments _ rfl
      obtain ⟨hfirst, hle, hlast⟩ := hbetween.span
      have hplace : (Revision.cut source edited first last last').place (node.span.start + 2) (node'.span.start + 2) :=
        Revision.cut_moves h.ordered hspan.1 (.inr hapart) (by omega)
      rw [← hopening, ← hopening'] at hplace
      refine .some ((h.moves hplace ?_).alike .absent expression hbetween)
      omega
  | element tag distance distance' hheading htag htag' hend =>
    refine .element ?_
    have helement := Document.element?_eq_some_iff.2 ⟨node, hnode, hkinds⟩
    have hpos : 0 < id := hlaid.pos_of_kind hnode (by simp [hkinds])
    have hfits := ((hlaid.standing.placed.fits id node hpos hnode).1.2 _ hkinds).startTag
    have hfits' := (((parse_standing language edited).placed.fits id node' hpos hnode').1.2 _ hkinds').startTag
    have hinOrder := (hlaid.attributes_inOrder helement).1
    have hplace := hspan.1
    replace hapart : (tag.shift distance).span.stop ≤ first ∨ last ≤ (tag.shift distance).span.start := htag ▸ hapart
    rw [htag] at hfits hinOrder
    rw [htag'] at hfits'
    rw [← hfits.1, ← hfits'.1] at hplace
    have hmoves := h.moves hplace (.inr hapart)
    unfold Element.attributes at hinOrder ⊢
    rw [htag] at hinOrder ⊢
    rw [htag']
    refine List.forall₂_map_left_iff.2 (List.forall₂_map_right_iff.2 (List.forall₂_same.2 fun attr hattr => ?_))
    have hmem : attr.shift distance ∈ (tag.shift distance).attributes := List.mem_map_of_mem hattr
    have hin : attr.shift distance ∈ Element.attributes _ := (congrArg StartTag.attributes htag) ▸ hmem
    obtain ⟨hfirst, -, hlast⟩ := hinOrder _ (List.mem_map_of_mem hmem)
    exact Attribute.alike_moved hlaid helement hin hmoves hfirst hlast

/-- The attributes of a start tag say the same where a part of a value is exchanged, if that value does. -/
theorem ReadTag.Revalued.attributes_alike {language : Language} {source edited inner : List Char} {last' start place count : Nat}
    {tag tag' unmoved : ReadTag} {read : ReadAttribute}
    (h : tag.Revalued language tag' read place inner (last + count) (last' + count))
    (hedits : likeness.Edits source edited first last last') (hlaid : (parse language source).1.Laid)
    {id : NodeId} {element : Element}
    (helement : (parse language source).1.element? id = some element) (htag : tag = unmoved.shift start)
    (hattributes : element.attributes = tag.attributes.map (·.attr)) {key : DirectiveKey} (hkey : read.attr.key = .directive key)
    {value : AttributeValue} (hvalue : read.attr.value = some value) (hstart : value.valueSpan.start ≤ first)
    (hstop : last ≤ value.valueSpan.stop)
    (hmeaning : Option.Rel (DirectiveValue.Alike likeness) value.meaning
      (Fragment.directiveValue language key.name.text place inner)) :
    List.Forall₂ (Attribute.Alike likeness) element.attributes (tag'.attributes.map (·.attr)) := by
  obtain ⟨before, read', firsts, hold, hnew, hread⟩ := h.attributes
  have hall : element.attributes = before.map (·.attr) ++ read.attr :: (firsts.map (·.shift (last + count))).map (·.attr) := by
    rw [hattributes, hold, List.map_append, List.map_cons]
  have hmem : read.attr ∈ element.attributes := by
    rw [hall]
    exact List.mem_append_right _ List.mem_cons_self
  have hsits := hlaid.value_sits helement hmem hvalue
  have hbehind := hsits.behind
  have hinside := hsits.ordered
  have hends := hsits.stop
  obtain ⟨hin, hordered⟩ := hlaid.attributes_inOrder helement
  rw [hall, List.map_append, List.map_cons, List.pairwise_append, List.pairwise_cons] at hordered
  obtain ⟨-, ⟨hafter, -⟩, hbefore⟩ := hordered
  rw [hall, hnew, List.map_append, List.map_cons]
  refine List.rel_append (List.forall₂_same.2 fun attr hattr => ?_) (.cons ⟨fun name => ?_, ?_⟩ ?_)
  · -- In front of the value.
    have hmem : attr ∈ element.attributes := by
      rw [hall]
      exact List.mem_append_left _ hattr
    obtain ⟨found, rfl⟩ : ∃ found : Attribute, attr = found.shift start := by
      rw [hattributes, htag, show (unmoved.shift start).attributes =
        unmoved.attributes.map (·.shift start) from rfl, List.map_map] at hmem
      obtain ⟨found, -, rfl⟩ := List.mem_map.1 hmem
      exact ⟨found.attr, rfl⟩
    have hle := hbefore _ (List.mem_map_of_mem hattr) _ List.mem_cons_self
    obtain ⟨-, hlt, -⟩ := hin _ (List.mem_map_of_mem hmem)
    have hplace : (found.shift start).span.start ≤ first := by omega
    exact Attribute.alike_moved hlaid helement hmem (hedits.moves (.inl ⟨rfl, hplace⟩) (.inr (.inl (by omega)))) (Nat.le_refl _)
      (Nat.le_refl _)
  · rw [Attribute.isDirective, Attribute.isDirective, Attribute.directive?, Attribute.directive?, hread.key]
  · obtain ⟨span, quote, hvalue'⟩ := hread.value
    rw [hkey] at hvalue'
    rw [Attribute.meaning?, Attribute.meaning?, hvalue, hvalue']
    exact hmeaning
  · -- Behind it.
    rw [List.map_map, List.map_map, List.forall₂_map_left_iff, List.forall₂_map_right_iff]
    refine List.forall₂_same.2 fun found hfound => ?_
    have hmem : found.attr.shift (last + count) ∈ element.attributes := by
      rw [hall, List.map_map]
      exact List.mem_append_right _ (List.mem_cons_of_mem _ (List.mem_map_of_mem hfound))
    have hle := hafter (found.attr.shift (last + count)).span (by
      rw [List.map_map, List.map_map]
      exact List.mem_map_of_mem hfound)
    have hplace : (Revision.cut source edited first last last').place (found.attr.span.start + (last + count))
        (found.attr.span.start + (last' + count)) := .inr ⟨found.attr.span.start + count, by omega, by omega⟩
    exact Attribute.alike_moved hlaid helement hmem (hedits.moves hplace (.inr (.inr (by omega)))) (Nat.le_refl _) (Nat.le_refl _)

end Markup

namespace Component

open Script

variable {languages : Languages} {likeness : Likeness} {source edited : List Char} {first last last' : Nat} {id : NodeId}

/-- Scripts whose statements lie in the blocks that they are read from. -/
def BlocksLie (component : Component) : Prop :=
  ∀ block ∈ component.scripts, ∀ statement ∈ block.statements,
    statement.Lies component.document.source block.content.start block.content.stop

instance (component : Component) : Decidable component.BlocksLie :=
  inferInstanceAs (Decidable (∀ block ∈ component.scripts, ∀ statement ∈ block.statements, _))

/-- The content of a script is empty, or the one text in it. -/
theorem contentOf_cases {language : Language} {element : Element}
    (helement : (Markup.parse language source).1.element? id = some element)
    (hname : element.name = "script") :
    ((Markup.parse language source).1.children id = [] ∧
      contentOf (Markup.parse language source).1 id element = ⟨element.startTag.span.stop, element.startTag.span.stop⟩) ∨
    ∃ child, (Markup.parse language source).1.children id = [child] ∧ (Markup.parse language source).1.node? child =
      some ⟨child, some id, #[], contentOf (Markup.parse language source).1 id element, .text⟩ := by
  cases hself : element.startTag.selfClosing with
  | true =>
    obtain ⟨hnone, parent, hnode⟩ := parse_single helement (by rw [hself]; rfl)
    refine .inl ⟨?_, ?_⟩
    · rw [Document.children, hnode]
      rfl
    · rw [contentOf, hnone, Document.spanOf, hnode]
      rfl
  | false =>
    obtain ⟨stop, hunparsed⟩ := Markup.parse_unparsed language source helement (Element.holdsRaw_script hname hself _)
    rw [contentOf_unparsed hunparsed]
    rcases hunparsed.content with ⟨hnone, rfl⟩ | hchild
    · exact .inl ⟨hnone, rfl⟩
    · exact .inr hchild

/-- What stands in a script is text. -/
theorem kind_of_script {language : Language} {block : NodeId} {element : Element}
    (helement : (Markup.parse language source).1.element? block = some element) (hname : element.name = "script")
    (hparent : (Markup.parse language source).1.parent? id = some block) {node : Markup.Node}
    (hnode : (Markup.parse language source).1.node? id = some node) : node.kind = .text := by
  have hchild := (parse_shaped language source).mem_children.2 hparent
  rcases contentOf_cases helement hname with ⟨hnone, -⟩ | ⟨child, hchildren, htext⟩
  · rw [hnone] at hchild
    cases hchild
  · rw [hchildren, List.mem_singleton] at hchild
    obtain rfl := hchild
    obtain rfl := Option.some.inj (hnode.symm.trans htext)
    rfl

/-- A part of the head of a node, and a tree in which only that node is changed where the part is replaced. -/
structure EditsHead (language : Language) (source edited : List Char) (id : NodeId) (first last last' : Nat) : Prop where
  ordered : first < last
  keeps : (Markup.parse language source).1.Keeps (.cut source edited first last last') (· = id) (Markup.parse language edited).1
  head : ∃ node, (Markup.parse language source).1.node? id = some node ∧ node.head.start ≤ first ∧ last ≤ node.head.stop

namespace EditsHead

variable {language : Language} {block : NodeId} {element element' : Element}
    (h : EditsHead language source edited id first last last')
include h

/-- The heads of other nodes lie apart from the part. -/
theorem apart {other : NodeId} (hother : other ≠ id) {node : Markup.Node}
    (hnode : (Markup.parse language source).1.node? other = some node) : node.head.stop ≤ first ∨ last ≤ node.head.start := by
  obtain ⟨changed, hchanged, hfirst, hlast⟩ := h.head
  have hordered := (parse_heads language source).ordered
  rcases Nat.lt_or_gt_of_ne hother with hlt | hlt
  · exact .inl (Nat.le_trans (hordered other id node changed hlt hnode hchanged) hfirst)
  · exact .inr (Nat.le_trans hlast (hordered id other changed node hlt hchanged hnode))

/-- The start tag of an element that is not changed is the same in the same place. -/
theorem startTag (helement : (Markup.parse language source).1.element? block = some element)
    (helement' : (Markup.parse language edited).1.element? block = some element') (hblock : block ≠ id) :
    ∃ (tag : StartTag) (distance distance' : Nat), element.heading = element'.heading ∧
      element.startTag = tag.shift distance ∧ element'.startTag = tag.shift distance' ∧
      (Markup.Revision.cut source edited first last last').place element.startTag.span.stop element'.startTag.span.stop ∧
      Option.Rel (Markup.Revision.cut source edited first last last').SamePlace element.endTag element'.endTag := by
  obtain ⟨node, hnode, hkind, hfits, -⟩ := exists_fits helement
  obtain ⟨node', hnode', hkind', hfits', -⟩ := exists_fits helement'
  obtain ⟨old, hold, hstands⟩ := h.keeps.nodes block node' hnode'
  cases hnode.symm.trans hold
  have hmatches := hstands.same hblock
  obtain ⟨tag, distance, distance', hheading, htag, htag', hend⟩ := (hkind' ▸ hkind ▸ hmatches.kind :
    (NodeKind.element element).Matches _ (.element element')).tags
  refine ⟨tag, distance, distance', hheading, htag, htag', ?_, hend⟩
  have hplace := hmatches.span.1
  rw [← hfits.startTag.1, ← hfits'.startTag.1] at hplace
  have hlt := hfits.startTag.2.1
  have hapart := h.apart hblock hnode
  rw [Markup.Node.head, hkind] at hapart
  dsimp only at hapart
  have hinside : element.startTag.span.start + (element.startTag.span.stop - element.startTag.span.start) ≤
      element.startTag.span.stop := by
    omega
  have hmoved := Markup.Revision.cut_moves h.ordered hplace (.inr hapart) hinside
  have hstop : element'.startTag.span.start + (element.startTag.span.stop - element.startTag.span.start) =
      element'.startTag.span.stop := by
    have hlt' := hfits'.startTag.2.1
    rw [htag] at hlt ⊢
    rw [htag'] at hlt' ⊢
    change tag.span.start + distance < tag.span.stop + distance at hlt
    change tag.span.start + distance' + (tag.span.stop + distance - (tag.span.start + distance)) = tag.span.stop + distance'
    omega
  rwa [Nat.add_sub_cancel' (Nat.le_of_lt hlt), hstop] at hmoved

/-- The content of a script that is not changed lies apart from the part, and is the same in the same place. -/
theorem content (helement : (Markup.parse language source).1.element? block = some element)
    (helement' : (Markup.parse language edited).1.element? block = some element') (hname : element.name = "script")
    (hblock : block ≠ id) (hother : (Markup.parse language source).1.parent? id ≠ some block) :
    let content := contentOf (Markup.parse language source).1 block element
    let content' := contentOf (Markup.parse language edited).1 block element'
    (Markup.Revision.cut source edited first last last').place content.start content'.start ∧
      (content.start = content.stop ∨ content.stop ≤ first ∨ last ≤ content.start) ∧
      (Markup.parse language edited).1.text content' = (Markup.parse language source).1.text content := by
  obtain ⟨tag, distance, distance', hheading, htag, htag', hplace, -⟩ := h.startTag helement helement' hblock
  have hname' : element'.name = "script" := (congrArg Prod.fst hheading).symm.trans hname
  rcases contentOf_cases helement hname with ⟨hnone, hcontent⟩ | ⟨child, hchild, hnode⟩
  · rcases contentOf_cases helement' hname' with ⟨-, hcontent'⟩ | ⟨child, hchild', -⟩
    · rw [hcontent, hcontent']
      refine ⟨hplace, .inl rfl, ?_⟩
      exact (slice_empty _ _).trans (slice_empty _ _).symm
    · rw [h.keeps.children, hnone] at hchild'
      cases hchild'
  · rcases contentOf_cases helement' hname' with ⟨hnone', -⟩ | ⟨child', hchild', hnode'⟩
    · rw [h.keeps.children, hchild] at hnone'
      cases hnone'
    · rw [h.keeps.children, hchild] at hchild'
      cases hchild'
      have hne : child ≠ id := by
        rintro rfl
        exact hother (by rw [Document.parent?, hnode]; rfl)
      obtain ⟨old, hold, hstands⟩ := h.keeps.nodes child _ hnode'
      cases hnode.symm.trans hold
      have hmatches := hstands.same hne
      exact ⟨hmatches.span.1, .inr (h.apart hne hnode), (hmatches.text rfl).symm⟩

end EditsHead

theorem hasAttribute_shift {element element' : Element} {tag : StartTag} {distance distance' : Nat}
    (htag : element.startTag = tag.shift distance) (htag' : element'.startTag = tag.shift distance') (name : String) :
    element'.hasAttribute name = element.hasAttribute name := by
  rw [Element.hasAttribute, Element.hasAttribute, Element.attribute?_shift htag,
    Element.attribute?_shift htag', Option.isSome_map,
    Option.isSome_map]

/-- A script block that an edit does not change. -/
theorem readScript_alike {language : Language} {block : NodeId} {element element' : Element}
    (hhead : EditsHead language source edited id first last last') (hedits : likeness.Edits source edited first last last')
    (helement : (Markup.parse language source).1.element? block = some element)
    (helement' : (Markup.parse language edited).1.element? block = some element') (hname : element.name = "script")
    (hblock : block ≠ id) (hother : (Markup.parse language source).1.parent? id ≠ some block)
    (hbetween : ∀ statement ∈ (readScript languages (Markup.parse language source).1 block element).1.statements,
      statement.Between (contentOf (Markup.parse language source).1 block element).start
        (contentOf (Markup.parse language source).1 block element).stop) :
    (readScript languages (Markup.parse language source).1 block element).1.Alike likeness
      (readScript languages (Markup.parse language edited).1 block element').1 := by
  obtain ⟨tag, distance, distance', hheading, htag, htag', -, -⟩ := hhead.startTag helement helement' hblock
  obtain ⟨hplace, hapart, htext⟩ := hhead.content helement helement' hname hblock hother
  refine ⟨hasAttribute_shift htag htag' "setup", ?_⟩
  unfold ScriptBlock.statements readScript at hbetween ⊢
  dsimp only [Program.shift] at hbetween ⊢
  rw [htext, ← Element.attributeText_shift htag htag' "lang"]
  have hmoves : likeness.Moves (0 + (contentOf (Markup.parse language source).1 block element).start)
      (contentOf (Markup.parse language source).1 block element).stop
        (contentOf (Markup.parse language source).1 block element).start
      (contentOf (Markup.parse language edited).1 block element').start :=
    hedits.moves (by rwa [Nat.zero_add, Nat.zero_add]) (by rwa [Nat.zero_add])
  rw [Nat.zero_add] at hmoves
  exact hmoves.allAlike_map .absent fun statement hstatement => hbetween _ (List.mem_map_of_mem hstatement)

/-- Where a word in the content of a script is exchanged, the content runs to the same end tag. -/
theorem content_edited {language : Language} {block child : NodeId} {front word word' back : List Char}
    (hsource : source = front ++ (word ++ back)) (hedited : edited = front ++ (word' ++ back))
    (hhead : EditsHead language source edited child (byteLength front) (byteLength front + byteLength word)
      (byteLength front + byteLength word')) {element element' : Element}
    (helement : (Markup.parse language source).1.element? block = some element)
    (helement' : (Markup.parse language edited).1.element? block = some element') (hname : element.name = "script")
    (hblock : block ≠ child) (hstart : (contentOf (Markup.parse language source).1 block element).start ≤ byteLength front)
    (hstop : byteLength front + byteLength word ≤ (contentOf (Markup.parse language source).1 block element).stop) :
    let content := contentOf (Markup.parse language source).1 block element
    let content' := contentOf (Markup.parse language edited).1 block element'
    content'.start = content.start ∧ (Markup.parse language edited).1.text content' =
      slice source ⟨content.start, byteLength front⟩ ++
        (word' ++ slice source ⟨byteLength front + byteLength word, content.stop⟩) := by
  obtain ⟨tag, distance, distance', hheading, htag, htag', hplace, hend⟩ := hhead.startTag helement helement' hblock
  have hname' : element'.name = "script" := (congrArg Prod.fst hheading).symm.trans hname
  have hordered := hhead.ordered
  -- The content is that of a block that is not markup, in both files.
  have hself : element.startTag.selfClosing = false := by
    by_contra hself
    obtain ⟨hnone, parent, hnode⟩ := parse_single helement (by rw [Bool.not_eq_false] at hself; rw [hself]; rfl)
    rw [contentOf, hnone, Document.spanOf, hnode] at hstart hstop
    dsimp only [Option.map_some, Option.getD_some] at hstart hstop
    omega
  have hself' : element'.startTag.selfClosing = false := by
    rw [htag] at hself
    rw [htag']
    exact hself
  obtain ⟨stop, hunparsed⟩ := Markup.parse_unparsed language source helement (Element.holdsRaw_script hname hself _)
  obtain ⟨stop', hunparsed'⟩ := Markup.parse_unparsed language edited helement' (Element.holdsRaw_script hname' hself' _)
  have hinText : (contentOf (Markup.parse language source).1 block element).InText source := by
    rcases contentOf_cases helement hname with ⟨-, hcontent⟩ | ⟨text, -, htext⟩
    · rw [hcontent] at hstart hstop
      dsimp only at hstart hstop
      omega
    · exact (parse_written language source).span text _ htext
  rw [contentOf_unparsed hunparsed] at hinText hstart hstop ⊢
  rw [contentOf_unparsed hunparsed']
  dsimp only at hstart hstop hinText ⊢
  have hstart' : element'.startTag.span.stop = element.startTag.span.stop := by
    rcases hplace with ⟨heq, -⟩ | ⟨count, hcount, -⟩
    · exact heq.symm
    · omega
  have hstop' : ∃ count, stop = byteLength front + byteLength word + count ∧
      stop' = byteLength front + byteLength word' + count := by
    have hends : (Markup.Revision.cut source edited (byteLength front) (byteLength front + byteLength word)
        (byteLength front + byteLength word')).place stop stop' := by
      rcases related_cases hend with ⟨hold, hnew⟩ | ⟨close, close', hold, hnew, hclose⟩
      · rw [(hunparsed.untagged hold).2, (hunparsed'.untagged hnew).2]
        refine .inr ⟨byteLength back, ?_, ?_⟩
        · rw [show (Markup.parse language source).1.source = source from rfl, hsource, byteLength_append,
            byteLength_append, Nat.add_assoc]
        · rw [show (Markup.parse language edited).1.source = edited from rfl, hedited, byteLength_append,
            byteLength_append, Nat.add_assoc]
      · rw [← hunparsed.tagged close hold, ← hunparsed'.tagged close' hnew]
        exact hclose.1
    rcases hends with ⟨-, hle⟩ | hcount
    · omega
    · exact hcount
  refine ⟨hstart', ?_⟩
  obtain ⟨count, rfl, rfl⟩ := hstop'
  rw [hstart']
  rw [hsource] at hinText ⊢
  rw [Document.text, show (Markup.parse language edited).1.source = front ++ (word' ++ back) from hedited]
  exact slice_exchange hinText hstart word'

/-- The blocks of a document. -/
def blocksOf (document : Document) : List (NodeId × Element) :=
  (document.children 0).filterMap fun id => (document.element? id).map (id, ·)

/-- One block of two documents, with the same name in both. -/
structure SameBlock (old new : Document) (block block' : NodeId × Element) : Prop where
  id : block'.1 = block.1
  top : old.parent? block.1 = some 0
  old : old.element? block.1 = some block.2
  new : new.element? block.1 = some block'.2
  name : block'.2.name = block.2.name

/-- Files with trees of one shape have the same blocks. -/
theorem blocksOf_same {language : Language} {rev : Markup.Revision} {changed : NodeId → Prop}
    (h : (Markup.parse language source).1.Keeps rev changed (Markup.parse language edited).1) :
    List.Forall₂ (SameBlock (Markup.parse language source).1 (Markup.parse language edited).1)
      (blocksOf (Markup.parse language source).1) (blocksOf (Markup.parse language edited).1) := by
  unfold blocksOf
  rw [h.children]
  have hids : List.Forall₂ (fun block block' => block' = block ∧ (Markup.parse language source).1.parent? block = some 0)
      ((Markup.parse language source).1.children 0) ((Markup.parse language source).1.children 0) :=
    List.forall₂_same.2 fun block hmem => ⟨rfl, (parse_shaped language source).mem_children.1 hmem⟩
  refine List.rel_filterMap ?_ hids
  rintro _ block ⟨rfl, htop⟩
  dsimp only
  rcases related_cases (h.element block) with ⟨hold, hnew⟩ | ⟨element, element', -, -, hold, hnew, hheading⟩
  · rw [hold, hnew]
    exact .none
  · rw [hold, hnew]
    exact .some ⟨rfl, htop, hold, hnew, (congrArg Prod.fst hheading).symm⟩

/-- The component that holds an edited file is like that of the file if what the changed node says is. -/
theorem alike_of_keeps (hedits : likeness.Edits source edited first last last')
    (htypes : usesTypes edited = usesTypes source)
    (hhead : EditsHead (languages ⟨usesTypes source, false⟩) source edited id first last last')
    (hfragments : (Component.parse languages source).document.FragmentsLie)
    (hblocks : (Component.parse languages source).BlocksLie)
    (hname : ∀ element, (Component.parse languages source).document.element? id = some element →
      (Component.parse languages source).document.parent? id = some 0 → element.name ≠ "script")
    (hnode : ∀ node node', (Component.parse languages source).document.node? id = some node →
      (Component.parse languages edited).document.node? id = some node' → node.kind.Alike likeness node'.kind)
    (hscript : ∀ block element element', (Component.parse languages source).document.parent? id = some block →
      (Component.parse languages source).document.element? block = some element →
      (Component.parse languages edited).document.element? block = some element' → element.name = "script" →
      (readScript languages (Component.parse languages source).document block element).1.Alike likeness
        (readScript languages (Component.parse languages edited).document block element').1) :
    (Component.parse languages source).Alike likeness (Component.parse languages edited) := by
  have hsource : (Component.parse languages source).document =
    (Markup.parse (languages ⟨usesTypes source, false⟩) source).1 := rfl
  have hedited : (Component.parse languages edited).document = (Markup.parse (languages ⟨usesTypes source, false⟩) edited).1 := by
    rw [← htypes]
    rfl
  have hkeeps := hhead.keeps
  have hsame := blocksOf_same hkeeps
  have hlaid := Document.laid_parse _ _ hfragments
  rw [hsource] at hname hnode hscript
  rw [hedited] at hnode hscript
  refine ⟨?_, ?_, fun other => ?_, ?_, ?_⟩
  · rw [hsource, hedited]
    exact hkeeps.size
  · rw [hsource, hedited]
    exact hkeeps.children
  · rw [hsource, hedited]
    rcases related_cases (hkeeps.related other) with ⟨hold, hnew⟩ | ⟨node, node', hold, hnew, hstands⟩
    · rw [hold, hnew]
      exact .none
    · rw [hold, hnew]
      refine .some ?_
      by_cases hother : other = id
      · subst hother
        exact hnode node node' hold hnew
      · exact NodeKind.alike_of_matches hedits hlaid hold hnew (hstands.same hother) (hhead.apart hother hold)
  · change ((blocksOf (Component.parse languages edited).document).find? (·.2.name == "template")).map (·.1) =
      ((blocksOf (Component.parse languages source).document).find? (·.2.name == "template")).map (·.1)
    rw [hsource, hedited]
    rcases related_cases (find?_related (·.2.name == "template") hsame fun block block' hblock => by rw [hblock.name]) with
      ⟨hold, hnew⟩ | ⟨block, block', hold, hnew, hblock⟩
    · rw [hold, hnew]
    · rw [hold, hnew, Option.map_some, Option.map_some, hblock.id]
  · have hscripts := List.rel_filter (p := (·.2.name == "script")) (q := (·.2.name == "script"))
      (fun block block' hblock => by dsimp only; rw [hblock.name]) hsame
    change List.Forall₂ _ ((((blocksOf (Component.parse languages source).document).filter (·.2.name == "script")).map
      fun block => readScript languages (Component.parse languages source).document block.1 block.2).map (·.1))
      ((((blocksOf (Component.parse languages edited).document).filter (·.2.name == "script")).map
        fun block => readScript languages (Component.parse languages edited).document block.1 block.2).map (·.1))
    rw [List.map_map, List.map_map, List.forall₂_map_left_iff, List.forall₂_map_right_iff, hsource, hedited]
    refine ((List.forall₂_and_left _ _).2 ⟨fun block hblock => hblock, hscripts⟩).imp fun block block' ⟨hblock, hpair⟩ => ?_
    have hscriptName : block.2.name = "script" := beq_iff_eq.1 (List.mem_filter.1 hblock).2
    obtain ⟨number, element⟩ := block
    obtain ⟨number', element'⟩ := block'
    obtain ⟨hnumber, htop, hold, hnew, -⟩ := hpair
    obtain rfl : number' = number := hnumber
    by_cases hparent : (Markup.parse (languages ⟨usesTypes source, false⟩) source).1.parent? id = some number'
    · exact hscript number' element element' hparent hold hnew hscriptName
    · refine readScript_alike hhead hedits hold hnew hscriptName ?_ hparent ?_
      · rintro rfl
        exact hname element hold htop hscriptName
      · exact fun statement hstatement =>
          (hblocks _ (List.mem_map_of_mem (List.mem_map_of_mem hblock)) statement hstatement).between

/-- A word in a script block is exchanged for another one, with which the script is read alike: the components are alike. -/
theorem alike_of_exchange {front word word' back : List Char} (hsource : source = front ++ (word ++ back))
    (hedited : edited = front ++ (word' ++ back)) (hword : ∀ c ∈ word', Neutral c) (hsome : word ≠ []) (hlong : 6 < word'.length)
    (hedits : likeness.Edits source edited (byteLength front) (byteLength front + byteLength word)
      (byteLength front + byteLength word'))
    (hfragments : (Component.parse languages source).document.FragmentsLie)
    (hblocks : (Component.parse languages source).BlocksLie)
    (htypes : usesTypes edited = usesTypes source)
    {block : ScriptBlock} (hblock : block ∈ (Component.parse languages source).scripts)
    (hstart : block.content.start ≤ byteLength front) (hstop : byteLength front + byteLength word ≤ block.content.stop)
    (hread : likeness.AllAlike .absent block.statements (((languages (ScriptBlock.dialectOf block.lang)).program
      (slice source ⟨block.content.start, byteLength front⟩ ++
        (word' ++ slice source ⟨byteLength front + byteLength word, block.content.stop⟩))).program.shift
          block.content.start).statements) :
    (Component.parse languages source).Alike likeness (Component.parse languages edited) := by
  obtain ⟨id, element, -, helement, hname, rfl⟩ := Component.mem_scripts hblock
  change (Markup.parse (languages ⟨usesTypes source, false⟩) source).1.element? id = some element at helement
  change (contentOf (Markup.parse (languages ⟨usesTypes source, false⟩) source).1 id element).start ≤ _ at hstart
  change _ ≤ (contentOf (Markup.parse (languages ⟨usesTypes source, false⟩) source).1 id element).stop at hstop
  have hordered := hedits.ordered
  obtain ⟨child, hchild, hnode⟩ : ∃ child, (Markup.parse (languages ⟨usesTypes source, false⟩) source).1.children id = [child] ∧
      (Markup.parse (languages ⟨usesTypes source, false⟩) source).1.node? child = some ⟨child, some id, #[],
        contentOf (Markup.parse (languages ⟨usesTypes source, false⟩) source).1 id element, .text⟩ := by
    rcases contentOf_cases helement hname with ⟨-, hcontent⟩ | htext
    · rw [hcontent] at hstart hstop
      dsimp only at hstart hstop
      omega
    · exact htext
  have hself : element.startTag.selfClosing = false := by
    by_contra hself
    obtain ⟨-, parent, hnode⟩ := parse_single helement (by rw [Bool.not_eq_false] at hself; rw [hself]; rfl)
    rw [Document.children, hnode] at hchild
    cases hchild
  obtain ⟨stop, hunparsed⟩ := Markup.parse_unparsed _ source helement (Element.holdsRaw_script hname hself _)
  have hcontent := contentOf_unparsed hunparsed
  rw [hcontent] at hstart hstop
  obtain ⟨hchildren, hkeeps⟩ := Builder.parse_rawEdited helement hunparsed
    (Element.holdsRaw_script hname hself) hsource hstart hstop
    hedited hword hsome (by rw [Builder.length_rawName helement, hname]; exact hlong)
  obtain rfl : child = id + 1 := List.singleton_inj.1 (hchild.symm.trans hchildren)
  have hhead : EditsHead (languages ⟨usesTypes source, false⟩) source edited (id + 1) (byteLength front)
      (byteLength front + byteLength word) (byteLength front + byteLength word') :=
    ⟨hordered, hkeeps, _, hnode, by rw [hcontent]; exact hstart, by rw [hcontent]; exact hstop⟩
  have hedited' : (Component.parse languages edited).document =
      (Markup.parse (languages ⟨usesTypes source, false⟩) edited).1 := by
    rw [← htypes]
    rfl
  refine alike_of_keeps hedits htypes hhead hfragments hblocks (fun found hfound _ => ?_) (fun node node' hold hnew => ?_)
    fun block old new hparent hold hnew _ => ?_
  · obtain ⟨node, hfound, hkind⟩ := Document.element?_eq_some_iff.1 hfound
    cases hnode.symm.trans hfound
    cases hkind
  · cases hnode.symm.trans hold
    obtain ⟨old, hold, hstands⟩ := hkeeps.nodes (id + 1) node' (hedited' ▸ hnew)
    cases hnode.symm.trans hold
    have hkind := hstands.kind
    generalize node'.kind = kind at hkind ⊢
    cases hkind
    exact .text
  · change (Markup.parse (languages ⟨usesTypes source, false⟩) source).1.parent? (id + 1) = some block at hparent
    rw [Document.parent?, hnode] at hparent
    obtain rfl : id = block := Option.some.inj hparent
    obtain rfl : element = old := Option.some.inj (helement.symm.trans hold)
    rw [hedited'] at hnew ⊢
    obtain ⟨tag, distance, distance', -, htag, htag', -, -⟩ := hhead.startTag helement hnew (Nat.ne_of_lt (Nat.lt_succ_self id))
    obtain ⟨hstart', htext⟩ := content_edited hsource hedited hhead helement hnew hname (Nat.ne_of_lt (Nat.lt_succ_self id))
      (by rw [hcontent]; exact hstart) (by rw [hcontent]; exact hstop)
    refine ⟨hasAttribute_shift htag htag' "setup", ?_⟩
    unfold ScriptBlock.statements readScript at hread ⊢
    dsimp only [Program.shift] at hread ⊢
    rw [htext, hstart', ← Element.attributeText_shift htag htag' "lang"]
    exact hread

/-- A word in the value of a directive is exchanged for another one, with which the value is read alike: the
components are alike, and the directive still has its value. -/
theorem alike_of_value {front word word' back : List Char} (hsource : source = front ++ (word ++ back))
    (hedited : edited = front ++ (word' ++ back)) (hword : ∀ c ∈ word', Neutral c) (hsome : word ≠ []) (hsome' : word' ≠ [])
    (hedits : likeness.Edits source edited (byteLength front) (byteLength front + byteLength word)
      (byteLength front + byteLength word'))
    (hclean : (Markup.parse (languages ⟨usesTypes source, false⟩) source).2 = [])
    (hfragments : (Component.parse languages source).document.FragmentsLie)
    (hblocks : (Component.parse languages source).BlocksLie)
    (htypes : usesTypes edited = usesTypes source) {element : Element}
    (helement : (Component.parse languages source).document.element? id = some element)
    (hname : (Component.parse languages source).document.parent? id = some 0 → element.name ≠ "script") {attr : Attribute}
    (hattr : attr ∈ element.attributes) {key : DirectiveKey} (hkey : attr.key = .directive key) {value : AttributeValue}
    (hvalue : attr.value = some value) (hstart : value.valueSpan.start ≤ byteLength front)
    (hstop : byteLength front + byteLength word ≤ value.valueSpan.stop) {inner : List Char}
    (hinner : slice source ⟨value.valueSpan.start, byteLength front⟩ ++
      (word' ++ slice source ⟨byteLength front + byteLength word, value.valueSpan.stop⟩) = inner)
    (hread : Option.Rel (DirectiveValue.Alike likeness) value.meaning
      (Fragment.directiveValue (languages ⟨usesTypes source, false⟩) key.name.text value.valueSpan.start inner)) :
    (Component.parse languages source).Alike likeness (Component.parse languages edited) ∧
      (Component.parse languages source).document.Keeps
        (.cut source edited (byteLength front) (byteLength front + byteLength word)
        (byteLength front + byteLength word')) (· = id) (Component.parse languages edited).document ∧
      ∃ element' attr' value', (Component.parse languages edited).document.element? id = some element' ∧
        attr' ∈ element'.attributes ∧ attr'.key = attr.key ∧ attr'.value = some value' ∧
        (Markup.Revision.cut source edited (byteLength front) (byteLength front + byteLength word)
          (byteLength front + byteLength word')).SamePlace value.valueSpan value'.valueSpan ∧
        value'.meaning = Fragment.directiveValue (languages ⟨usesTypes source, false⟩) key.name.text
          value.valueSpan.start inner := by
  change (Markup.parse (languages ⟨usesTypes source, false⟩) source).1.element? id = some element at helement
  have hedited' : (Component.parse languages edited).document =
      (Markup.parse (languages ⟨usesTypes source, false⟩) edited).1 := by
    rw [← htypes]
    rfl
  have hlaid := Document.laid_parse _ _ hfragments
  obtain ⟨builder, last, tag, start, inside, tail, h⟩ := Builder.exists_opens hclean helement
  have hattributes : element.attributes = tag.attributes.map (·.attr) := h.attributes_eq
  obtain ⟨read, hmem, rfl⟩ := List.mem_map.1 (hattributes ▸ hattr)
  have hmeaning : Fragment.directiveValue (languages ⟨usesTypes source, false⟩) key.name.text value.valueSpan.start inner ≠
      some .invalid := by
    intro hinvalid
    rcases related_cases hread with ⟨-, hnone⟩ | ⟨meaning, meaning', hmeaning, hmeaning', halike⟩
    · cases hinvalid.symm.trans hnone
    · obtain rfl : meaning' = .invalid := Option.some.inj (hmeaning'.symm.trans hinvalid)
      cases halike
      exact h.meaning_ne_invalid hmem hkey hvalue hmeaning
  obtain ⟨hinText, hkeeps, element', tag', count, helement', hattributes', hrevalued⟩ :=
    h.exchange_word hsource hedited hword hsome hsome' hmem hkey hvalue hstart hstop (hinner ▸ hmeaning)
  rw [hinner] at hrevalued
  obtain ⟨unmoved, htag⟩ := Builder.exists_shift_of_readPiece h.readTag
  obtain ⟨node, hnode, hkind⟩ := Document.element?_eq_some_iff.1 helement
  have hhead : EditsHead (languages ⟨usesTypes source, false⟩) source edited id (byteLength front)
      (byteLength front + byteLength word) (byteLength front + byteLength word') := by
    have hsits := hlaid.value_sits helement hattr hvalue
    have hbehind := hsits.behind
    have hordered := hsits.ordered
    have hstops := hsits.stop
    obtain ⟨hfirst, -, hlast⟩ := (hlaid.attributes_inOrder helement).1 _ (List.mem_map_of_mem hattr)
    refine ⟨hedits.ordered, hkeeps, node, hnode, ?_, ?_⟩
    · rw [Markup.Node.head, hkind]
      dsimp only
      omega
    · rw [Markup.Node.head, hkind]
      dsimp only
      omega
  have hattributesAlike := hrevalued.attributes_alike hedits hlaid helement htag hattributes hkey hvalue hstart hstop hread
  refine ⟨?_, hedited' ▸ hkeeps, ?_⟩
  · refine alike_of_keeps hedits htypes hhead hfragments hblocks (fun found hfound htop => ?_) (fun node node' hold hnew => ?_)
      fun block old new hparent hold hnew hscript => ?_
    · obtain rfl : element = found := Option.some.inj (helement.symm.trans hfound)
      exact hname htop
    · rw [hedited'] at hnew
      obtain ⟨other, hother, hkind'⟩ := Document.element?_eq_some_iff.1 helement'
      obtain rfl : node' = other := Option.some.inj (hnew.symm.trans hother)
      obtain rfl := Option.some.inj (hnode.symm.trans hold)
      rw [hkind, hkind']
      exact .element (show List.Forall₂ _ _ element'.attributes from hattributes' ▸ hattributesAlike)
    · cases hkind.symm.trans (kind_of_script hold hscript hparent hnode)
  · obtain ⟨before, read', firsts, -, hnew, hread'⟩ := hrevalued.attributes
    obtain ⟨span, quote, hvalue'⟩ := hread'.value
    rw [hkey] at hvalue'
    refine ⟨element', read'.attr, _, hedited' ▸ helement', ?_, hread'.key, hvalue', ?_, rfl⟩
    · rw [hattributes', hnew]
      exact List.mem_map_of_mem (List.mem_append_right _ List.mem_cons_self)
    · rw [hsource] at hinText hinner
      exact Markup.Revision.samePlace_around hstart hstop (hinner ▸ hinText.byteLength_exchange hstart hstop word')

/-- A word in an interpolation is exchanged for another one, with which the expression is read alike: the
components are alike, and the interpolation stays where it is. -/
theorem alike_of_interpolation {front word word' back : List Char} (hsource : source = front ++ (word ++ back))
    (hedited : edited = front ++ (word' ++ back)) (hword : ∀ c ∈ word', Neutral c) (hsome' : word' ≠ [])
    (hedits : likeness.Edits source edited (byteLength front) (byteLength front + byteLength word)
      (byteLength front + byteLength word'))
    (hfragments : (Component.parse languages source).document.FragmentsLie)
    (hblocks : (Component.parse languages source).BlocksLie)
    (htypes : usesTypes edited = usesTypes source) {content : Interpolation}
    (hcontent : (Component.parse languages source).document.interpolation? id = some content)
    (hexpression : content.expression.isSome = true) (hstart : content.opening.stop ≤ byteLength front)
    (hstop : byteLength front + byteLength word ≤ content.closing.start) {inner : List Char}
    (hinner : slice source ⟨content.opening.stop, byteLength front⟩ ++
      (word' ++ slice source ⟨byteLength front + byteLength word, content.closing.start⟩) = inner)
    (hread : Option.Rel (likeness.Alike .absent) content.expression
      (Fragment.expression? (languages ⟨usesTypes source, false⟩) content.opening.stop inner)) :
    (Component.parse languages source).Alike likeness (Component.parse languages edited) ∧
      (Component.parse languages source).document.Keeps
        (.cut source edited (byteLength front) (byteLength front + byteLength word)
        (byteLength front + byteLength word')) (· = id) (Component.parse languages edited).document ∧
      ∃ content', (Component.parse languages edited).document.interpolation? id = some content' ∧
        (Markup.Revision.cut source edited (byteLength front) (byteLength front + byteLength word)
          (byteLength front + byteLength word')).SamePlace ⟨content.opening.stop, content.closing.start⟩
            ⟨content'.opening.stop, content'.closing.start⟩ ∧
        content'.expression = Fragment.expression? (languages ⟨usesTypes source, false⟩) content.opening.stop inner := by
  change (Markup.parse (languages ⟨usesTypes source, false⟩) source).1.interpolation? id = some content at hcontent
  have hedited' : (Component.parse languages edited).document =
      (Markup.parse (languages ⟨usesTypes source, false⟩) edited).1 := by
    rw [← htypes]
    rfl
  have hlaid := Document.laid_parse _ _ hfragments
  obtain ⟨builder, last, start, text, tail, h⟩ := Builder.exists_interpolates hcontent
  have hreads : (Fragment.expression? (languages ⟨usesTypes source, false⟩) content.opening.stop inner).isSome = true := by
    rcases related_cases hread with ⟨hnone, -⟩ | ⟨-, expression, -, hsome, -⟩
    · rw [hnone] at hexpression
      cases hexpression
    · rw [hsome]
      rfl
  obtain ⟨hkeeps, hcontent'⟩ := h.exchange_word hsource hedited hword hsome' hstart hstop (hinner ▸ hreads)
  rw [hinner] at hcontent'
  obtain ⟨node, hnode, hkind⟩ := Document.interpolation?_eq_some_iff.1 hcontent
  have hsits := hlaid.heads.sits id node hnode
  rw [Markup.Node.Sits, hkind] at hsits
  have hhead : EditsHead (languages ⟨usesTypes source, false⟩) source edited id (byteLength front)
      (byteLength front + byteLength word) (byteLength front + byteLength word') := by
    have hopening := hsits.opening
    have hclosing := hsits.closing
    refine ⟨hedits.ordered, hkeeps, node, hnode, ?_, ?_⟩
    · rw [Markup.Node.head, hkind]
      dsimp only
      omega
    · rw [Markup.Node.head, hkind]
      dsimp only
      omega
  have hopening : content.opening.stop = byteLength start + 2 := by
    rw [h.content_eq]
    rfl
  refine ⟨?_, hedited' ▸ hkeeps, _, hedited' ▸ hcontent', ?_, ?_⟩
  · refine alike_of_keeps hedits htypes hhead hfragments hblocks (fun found hfound htop => ?_) (fun node' node'' hold hnew => ?_)
      fun block old new hparent hold hnew hscript => ?_
    · obtain ⟨other, hother, hkind'⟩ := Document.element?_eq_some_iff.1 hfound
      obtain rfl := Option.some.inj (hnode.symm.trans hother)
      cases hkind.symm.trans hkind'
    · rw [hedited'] at hnew
      obtain ⟨other, hother, hkind'⟩ := Document.interpolation?_eq_some_iff.1 hcontent'
      obtain rfl : node'' = other := Option.some.inj (hnew.symm.trans hother)
      obtain rfl := Option.some.inj (hnode.symm.trans hold)
      rw [hkind, hkind']
      rw [hopening] at hread
      exact .interpolation hread
    · cases hkind.symm.trans (kind_of_script hold hscript hparent hnode)
  · have hwritten := (parse_written (languages ⟨usesTypes source, false⟩) source).kind id node hnode
    rw [hkind] at hwritten
    have hinText := hwritten.opening.gap hwritten.closing hwritten.ordered
    have hlength := (hsource ▸ hinText).byteLength_exchange hstart hstop word'
    dsimp only at hlength
    rw [← hsource, hinner] at hlength
    rw [hopening] at hstart hlength ⊢
    exact Markup.Revision.samePlace_around hstart hstop hlength
  · rw [hopening]
    rfl

end Component

end ComponentLint
