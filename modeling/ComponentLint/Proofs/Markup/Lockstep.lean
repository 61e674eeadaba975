import ComponentLint.Proofs.Markup.Moving
import ComponentLint.Proofs.Markup.RawBlocks

/-!
# Two files in step

The trees of a file and of an edited version of it are compared while both are being built. A `Revision` says which offsets of
the two are the same place, and `Lockstep` is the invariant that holds when both have been read to the same place: each node of
the edited file stands for one of the file. Adding the same piece to both trees, at two places, keeps it (`Lockstep.add`), and
so does closing what is open at the end of the files (`Lockstep.finish`).
-/

namespace ComponentLint.Markup

open Text

/-- A file and an edited version of it. -/
structure Revision where
  source : List Char
  edited : List Char
  /-- Whether an offset of the file and one of the edited file are the same place. -/
  place : Nat → Nat → Prop

/-- Spans whose ends are the same places. -/
def Revision.SamePlace (rev : Revision) (old new : Span) : Prop :=
  rev.place old.start new.start ∧ rev.place old.stop new.stop

/-- What of an element decides on how the nodes under it are read. -/
def Element.heading (element : Element) : String × String × Vocabulary :=
  (element.name, element.rawName, element.vocabulary)

/-- Kinds of nodes that stand for each other. -/
inductive NodeKind.Resembles : NodeKind → NodeKind → Prop where
  | root : Resembles .root .root
  | element {old new : Element} (h : old.heading = new.heading) : Resembles (.element old) (.element new)
  | text : Resembles .text .text
  | interpolation {old new : Interpolation} : Resembles (.interpolation old) (.interpolation new)
  | comment : Resembles .comment .comment

/-- Kinds of nodes that are the same, at two places. -/
inductive NodeKind.Matches (rev : Revision) : NodeKind → NodeKind → Prop where
  | root : Matches rev .root .root
  | element {old new : Element} (tag : StartTag) (distance distance' : Nat) (hheading : old.heading = new.heading)
      (hold : old.startTag = tag.shift distance) (hnew : new.startTag = tag.shift distance')
      (hend : Option.Rel rev.SamePlace old.endTag new.endTag) : Matches rev (.element old) (.element new)
  | text : Matches rev .text .text
  | interpolation (content : Interpolation) (distance distance' : Nat) :
      Matches rev (.interpolation (content.shift distance)) (.interpolation (content.shift distance'))
  | comment : Matches rev .comment .comment

/-- Nodes that are the same, at two places; what has no nodes under it has the same text. -/
structure Node.Matches (rev : Revision) (old new : Node) : Prop where
  span : rev.SamePlace old.span new.span
  kind : old.kind.Matches rev new.kind
  text : old.kind.hasContent = false → slice rev.source old.span = slice rev.edited new.span

/-- A node of a file for a node of the edited one, which is the same unless the edit changes it. -/
structure Node.StandsFor (rev : Revision) (rename : Nat → Nat) (changed : Prop) (old new : Node) : Prop where
  parent : old.parent = new.parent.map rename
  kind : old.kind.Resembles new.kind
  same : ¬changed → old.Matches rev new

/-- The trees of a file and of the edited one, read to the same place: `rename` tells which node of the file a node of the
edited one stands for, and `changed` which nodes the edit itself changes. -/
structure Lockstep (rev : Revision) (rename : Nat → Nat) (changed : Nat → Prop) (old new : Builder) : Prop where
  zero : rename 0 = 0
  injective : Function.Injective rename
  stack : old.stack = new.stack.map rename
  size : ∀ count, rename (new.nodes.size + count) = old.nodes.size + count
  nodes : ∀ (id : Nat) node, new.nodes[id]? = some node →
    ∃ node', old.nodes[rename id]? = some node' ∧ node'.StandsFor rev rename (changed id) node
  problems : old.problems = #[] → new.problems = #[]

/-- What may become of a node: another of its kind if the edit changes it, and nothing else but more children if not. -/
structure Node.Settles (changed : Prop) (node before : Node) : Prop where
  parent : node.parent = before.parent
  kind : before.kind.Resembles node.kind
  same : ¬changed → node.Like before

/-! ## Nodes that stand for each other -/

theorem NodeKind.Resembles.refl (kind : NodeKind) : kind.Resembles kind := by
  cases kind with
  | root => exact .root
  | element element => exact .element rfl
  | text => exact .text
  | interpolation => exact .interpolation
  | comment => exact .comment

theorem NodeKind.Resembles.symm {kind kind' : NodeKind} (h : kind.Resembles kind') : kind'.Resembles kind := by
  cases h with
  | root => exact .root
  | element h => exact .element h.symm
  | text => exact .text
  | interpolation => exact .interpolation
  | comment => exact .comment

theorem NodeKind.Resembles.trans {kind kind' kind'' : NodeKind} (h : kind.Resembles kind') (h' : kind'.Resembles kind'') :
    kind.Resembles kind'' := by
  cases h with
  | root => exact h'
  | element h =>
    cases h' with
    | element h' => exact .element (h.trans h')
  | text => exact h'
  | interpolation =>
    cases h' with
    | interpolation => exact .interpolation
  | comment => exact h'

theorem Node.Like.refl (node : Node) : node.Like node :=
  ⟨rfl, rfl, rfl, rfl⟩

theorem Node.Settles.of_like {changed : Prop} {node before : Node} (h : node.Like before) : node.Settles changed before :=
  ⟨h.parent, h.kind ▸ .refl _, fun _ => h⟩

theorem NodeKind.Resembles.hasContent {old new : NodeKind} (h : old.Resembles new) : old.hasContent = new.hasContent := by
  cases h <;> rfl

theorem Element.isVoid_of_heading {old new : Element} (h : old.heading = new.heading) : old.isVoid = new.isVoid := by
  obtain ⟨hname, -, hvocabulary⟩ : _ ∧ _ ∧ _ := by simpa [Element.heading] using h
  rw [isVoid, isVoid, hname, hvocabulary]

/-- The plain attributes of a tag are found wherever it stands. -/
theorem Element.attribute?_shift {element : Element} {tag : StartTag} {distance : Nat}
    (h : element.startTag = tag.shift distance) (name : String) :
    element.attribute? name = (tag.attributes.find? (·.isPlain name)).map (·.shift distance) := by
  have hplain : (Attribute.isPlain · name) ∘ (Attribute.shift · distance) = (Attribute.isPlain · name) := by
    funext attr
    exact attr.isPlain_shift distance name
  rw [attribute?, attributes, h, StartTag.shift, List.find?_map, hplain]

theorem Element.attributeText_shift {old new : Element} {tag : StartTag} {distance distance' : Nat}
    (hold : old.startTag = tag.shift distance) (hnew : new.startTag = tag.shift distance') (name : String) :
    ((old.attribute? name).bind (·.value)).map (·.raw) = ((new.attribute? name).bind (·.value)).map (·.raw) := by
  rw [attribute?_shift hold, attribute?_shift hnew]
  cases tag.attributes.find? (·.isPlain name) with
  | none => rfl
  | some attr => cases hvalue : attr.value <;> simp [Attribute.shift, AttributeValue.shift, hvalue]

/-- Whether content is read as markup is told by the heading of an element, whether it closes itself, and its language. -/
theorem Element.holdsRaw_congr {old new : Element} (h : old.heading = new.heading)
    (hself : old.startTag.selfClosing = new.startTag.selfClosing)
    (hlang : ((old.attribute? "lang").bind (·.value)).map (·.raw) = ((new.attribute? "lang").bind (·.value)).map (·.raw))
    (topLevel : Bool) : old.holdsRaw topLevel = new.holdsRaw topLevel := by
  have hother : ∀ element : Element, (((element.attribute? "lang").bind (·.value)).map (·.raw != "html")) =
      ((((element.attribute? "lang").bind (·.value)).map (·.raw)).map (· != "html")) := by
    intro element
    rw [Option.map_map]
    rfl
  obtain ⟨hname, -, -⟩ : _ ∧ _ ∧ _ := by simpa [Element.heading] using h
  rw [holdsRaw, holdsRaw, isRaw, isRaw, hself, isVoid_of_heading h, hname, hother, hother, hlang]

theorem Element.holdsRaw_shift {old new : Element} {tag : StartTag} {distance distance' : Nat} (h : old.heading = new.heading)
    (hold : old.startTag = tag.shift distance) (hnew : new.startTag = tag.shift distance') (topLevel : Bool) :
    old.holdsRaw topLevel = new.holdsRaw topLevel :=
  holdsRaw_congr h (by rw [hold, hnew]; rfl) (attributeText_shift hold hnew "lang") topLevel

theorem Node.StandsFor.like {rev : Revision} {rename : Nat → Nat} {changed : Prop} {old new old' new' : Node}
    (h : old.StandsFor rev rename changed new)
    (hold : old'.Like old) (hnew : new'.Like new) : old'.StandsFor rev rename changed new' := by
  refine ⟨?_, ?_, fun hid => ⟨?_, ?_, ?_⟩⟩
  · rw [hold.parent, hnew.parent, h.parent]
  · rw [hold.kind, hnew.kind]
    exact h.kind
  · rw [hold.span, hnew.span]
    exact (h.same hid).span
  · rw [hold.kind, hnew.kind]
    exact (h.same hid).kind
  · rw [hold.kind, hold.span, hnew.span]
    exact (h.same hid).text

/-- Nodes with content stand for each other after they are closed in the same place. -/
theorem Node.StandsFor.shut {rev : Revision} {rename : Nat → Nat} {changed : Prop} {old new : Node}
    (h : old.StandsFor rev rename changed new)
    (hcontent : old.kind.hasContent = true) {stop stop' : Nat} (hstop : rev.place stop stop') :
    (old.shut stop).StandsFor rev rename changed (new.shut stop') := by
  refine ⟨h.parent, h.kind, fun hid => ⟨⟨(h.same hid).span.1, hstop⟩, (h.same hid).kind, fun hleaf => ?_⟩⟩
  rw [show (old.shut stop).kind.hasContent = old.kind.hasContent from rfl, hcontent] at hleaf
  cases hleaf

/-- Nodes with content stand for each other after end tags in the same place. -/
theorem Node.StandsFor.shutWith {rev : Revision} {rename : Nat → Nat} {changed : Prop} {old new : Node}
    (h : old.StandsFor rev rename changed new)
    (hcontent : old.kind.hasContent = true) {tag tag' : Span} (htag : rev.SamePlace tag tag') :
    (old.shutWith tag).StandsFor rev rename changed (new.shutWith tag') := by
  have hkeeps := Node.keepsShape_shutWith tag
  have hkeeps' := Node.keepsShape_shutWith tag'
  have hspan : ∀ (tag : Span) (node : Node), (node.shutWith tag).span = ⟨node.span.start, tag.stop⟩ := by
    intro tag node
    unfold Node.shutWith
    split <;> rfl
  obtain ⟨oldId, oldParent, oldChildren, oldSpan, oldKind⟩ := old
  obtain ⟨newId, newParent, newChildren, newSpan, newKind⟩ := new
  refine ⟨?_, ?_, fun hid => ⟨?_, ?_, fun hleaf => ?_⟩⟩
  · rw [hkeeps.parent, hkeeps'.parent]
    exact h.parent
  · cases h.kind with
    | element hheading => exact .element hheading
    | root => exact .root
    | text => exact .text
    | interpolation => exact .interpolation
    | comment => exact .comment
  · rw [hspan, hspan]
    exact ⟨(h.same hid).span.1, htag.2⟩
  · cases (h.same hid).kind with
    | element start distance distance' hheading hold hnew hend =>
      exact .element start distance distance' hheading hold hnew (.some htag)
    | root => exact .root
    | text => exact .text
    | interpolation content distance distance' => exact .interpolation content distance distance'
    | comment => exact .comment
  · rw [hkeeps.hasContent, hcontent] at hleaf
    cases hleaf

theorem grow_keeps {nodes : Array Node} {above : Nat} {span : Span} {kind : NodeKind} {id : Nat} {node : Node}
    (h : nodes[id]? = some node) : ∃ node', (grow nodes above span kind)[id]? = some node' ∧ node'.Like node := by
  obtain ⟨hlt, -⟩ := Array.getElem?_eq_some_iff.1 h
  have hgrown : (grow nodes above span kind)[id]? = _ := grow_old id hlt
  rw [h, Option.map_some] at hgrown
  refine ⟨_, hgrown, ?_⟩
  split
  · exact ⟨Node.adopt_id _ _, Node.adopt_parent _ _, Node.adopt_span _ _, Node.adopt_kind _ _⟩
  · exact ⟨rfl, rfl, rfl, rfl⟩

namespace Lockstep

variable {language : Script.Language} {rev : Revision} {rename : Nat → Nat} {changed : Nat → Prop} {old new : Builder}

/-! ## What reading depends on -/

theorem current (h : Lockstep rev rename changed old new) : old.current = rename new.current := by
  rw [Builder.current, Builder.current, h.stack]
  cases new.stack with
  | nil => exact h.zero.symm
  | cons first rest => rfl

/-- Elements that stand for each other have the same names. -/
theorem heading (h : Lockstep rev rename changed old new) (id : Nat) :
    (old.element? (rename id)).map Element.heading = (new.element? id).map Element.heading := by
  cases hnode : new.nodes[id]? with
  | none =>
    have hge : new.nodes.size ≤ id := Array.getElem?_eq_none_iff.1 hnode
    obtain ⟨count, rfl⟩ : ∃ count, id = new.nodes.size + count := ⟨id - new.nodes.size, by omega⟩
    have hold : old.nodes[rename (new.nodes.size + count)]? = none := by
      rw [h.size]
      exact Array.getElem?_eq_none_iff.2 (Nat.le_add_right _ _)
    rw [Builder.element?, Builder.element?, hnode, hold]
  | some node =>
    obtain ⟨node', hnode', hstands⟩ := h.nodes id node hnode
    have hkind := hstands.kind
    obtain ⟨_, _, _, _, kind⟩ := node
    obtain ⟨_, _, _, _, kind'⟩ := node'
    rw [Builder.element?, Builder.element?, hnode, hnode']
    cases hkind with
    | element hheading => exact congrArg some hheading
    | root => rfl
    | text => rfl
    | interpolation => rfl
    | comment => rfl

theorem closes (h : Lockstep rev rename changed old new) (name : List Char) (id : Nat) :
    old.closes name (rename id) = new.closes name id := by
  have hclose : ∀ builder : Builder, ∀ id, builder.closes name id =
      (((builder.element? id).map Element.heading).any fun heading => eqIgnoreAsciiCase heading.2.1.toList name) := by
    intro builder id
    unfold Builder.closes
    cases builder.element? id <;> rfl
  rw [hclose, hclose, h.heading]

theorem vocabularyFor (h : Lockstep rev rename changed old new) (name : List Char) : old.vocabularyFor name =
    new.vocabularyFor name := by
  have hcurrent := h.heading new.current
  rw [← h.current] at hcurrent
  unfold Builder.vocabularyFor
  split
  · rfl
  split
  · rfl
  cases hold : old.element? old.current <;> cases hnew : new.element? new.current <;> rw [hold, hnew] at hcurrent
  · cases hcurrent
  · cases hcurrent
  · obtain ⟨-, hname, hvocabulary⟩ : _ ∧ _ ∧ _ := by simpa [Element.heading] using hcurrent
    dsimp only
    rw [hname, hvocabulary]

theorem isTop (h : Lockstep rev rename changed old new) : (old.current == 0) = (new.current == 0) := by
  rw [h.current, Bool.eq_iff_iff, beq_iff_eq, beq_iff_eq]
  refine ⟨fun heq => h.injective (heq.trans h.zero.symm), fun heq => ?_⟩
  rw [heq, h.zero]

theorem surroundings (h : Lockstep rev rename changed old new) (language : Script.Language) :
    old.surroundings language = new.surroundings language := by
  have htop : old.topLevel?.map Element.heading = new.topLevel?.map Element.heading := by
    unfold Builder.topLevel?
    rw [h.stack, ← List.map_reverse]
    rcases new.stack.reverse with _ | ⟨root, _ | ⟨id, rest⟩⟩
    · rfl
    · rfl
    · exact h.heading id
  have hname : ∀ element? : Option Element, (element?.map (·.name == "template")).getD false =
      ((element?.map Element.heading).map (·.1 == "template")).getD false := by
    intro element?
    cases element? <;> rfl
  rw [Builder.surroundings, Builder.surroundings, h.isTop, hname, hname, htop]

/-! ## Adding a piece -/

theorem record (h : Lockstep rev rename changed old new) (fileStop fileStop' : Nat) {piece piece' : Piece}
    (hproblems : piece.problems fileStop = [] → piece'.problems fileStop' = []) :
    Lockstep rev rename changed (old.record fileStop piece) (new.record fileStop' piece') := by
  refine ⟨h.zero, h.injective, h.stack, h.size, h.nodes, fun hnone => ?_⟩
  obtain ⟨hbefore, hpiece⟩ := Array.append_eq_empty_iff.1 hnone
  refine Array.append_eq_empty_iff.2 ⟨h.problems hbefore, ?_⟩
  rw [hproblems (by simpa using hpiece)]

theorem push (h : Lockstep rev rename changed old new) (hold : Shaped old.nodes old.stack) (hnew : Shaped new.nodes new.stack)
    {span span' : Span} {kind kind' : NodeKind} (hkind : kind.Resembles kind')
    (hsame : ¬changed new.nodes.size → rev.SamePlace span span' ∧ kind.Matches rev kind' ∧
      (kind.hasContent = false → slice rev.source span = slice rev.edited span')) :
    Lockstep rev rename changed (old.push span kind) (new.push span' kind') := by
  have hsize : (old.push span kind).nodes.size = old.nodes.size + 1 := size_grow
  have hsize' : (new.push span' kind').nodes.size = new.nodes.size + 1 := size_grow
  refine ⟨h.zero, h.injective, h.stack, fun count => ?_, fun id node hnode => ?_, h.problems⟩
  · rw [hsize, hsize', Nat.add_assoc, h.size, Nat.add_assoc]
  · rcases grow_like hnew.current_lt hnode with ⟨rfl, rfl⟩ | ⟨-, before, hbefore, hlike⟩
    · have hrename : rename new.nodes.size = old.nodes.size := h.size 0
      rw [hrename]
      refine ⟨_, grow_new hold.current_lt, congrArg some h.current, hkind, fun hid => ?_⟩
      obtain ⟨hspan, hmatches, htext⟩ := hsame hid
      exact ⟨hspan, hmatches, htext⟩
    · obtain ⟨before', hbefore', hstands⟩ := h.nodes id before hbefore
      obtain ⟨node', hnode', hlike'⟩ : ∃ node', (old.push span kind).nodes[rename id]? = some node' ∧ node'.Like before' :=
        grow_keeps hbefore'
      exact ⟨node', hnode', hstands.like hlike' hlike⟩

/-- Closing nodes that stand for each other in the same place. -/
theorem shutAll (h : Lockstep rev rename changed old new) (hnew : Shaped new.nodes new.stack)
    {ids : List Nat} (hids : ids ⊆ new.stack)
    {stop stop' : Nat} (hstop : rev.place stop stop') :
    ∀ (id : Nat) node, (ids.foldl (fun nodes id => nodes.modify id (Node.shut stop')) new.nodes)[id]? = some node →
      ∃ node', ((ids.map rename).foldl (fun nodes id => nodes.modify id (Node.shut stop)) old.nodes)[rename id]? = some node' ∧
        node'.StandsFor rev rename (changed id) node := by
  intro id node hnode
  rw [Builder.getElem?_foldl_shut] at hnode
  obtain ⟨before, hbefore, rfl⟩ := Option.map_eq_some_iff.1 hnode
  obtain ⟨before', hbefore', hstands⟩ := h.nodes id before hbefore
  rw [Builder.getElem?_foldl_shut, hbefore', Option.map_some]
  refine ⟨_, rfl, ?_⟩
  by_cases hmem : id ∈ ids
  · rw [if_pos (List.mem_map_of_mem hmem), if_pos hmem]
    refine hstands.shut ?_ hstop
    rw [hstands.kind.hasContent]
    exact hnew.hasContent id (hids hmem) before hbefore
  · rw [if_neg (fun hmem' => hmem ((List.mem_map_of_injective h.injective).1 hmem')), if_neg hmem]
    exact hstands

theorem endElement (h : Lockstep rev rename changed old new) (hnew : Shaped new.nodes new.stack)
    (name : List Char) {span span' : Span}
    (hspan : rev.SamePlace span span') : Lockstep rev rename changed (old.endElement name span) (new.endElement name span') := by
  have htest : ((fun id => !old.closes name id) ∘ rename) = fun id => !new.closes name id := by
    funext id
    simp [h.closes]
  have hdrop : (old.stack.dropWhile fun id => !old.closes name id) =
      (new.stack.dropWhile fun id => !new.closes name id).map rename := by
    rw [h.stack, List.dropWhile_map, htest]
  have htake : (old.stack.takeWhile fun id => !old.closes name id) =
      (new.stack.takeWhile fun id => !new.closes name id).map rename := by
    rw [h.stack, List.takeWhile_map, htest]
  unfold Builder.endElement
  dsimp only
  rw [hdrop, htake]
  cases hrest : new.stack.dropWhile fun id => !new.closes name id with
  | nil =>
    refine ⟨h.zero, h.injective, h.stack, h.size, h.nodes, fun hnone => ?_⟩
    exact absurd hnone (by simp)
  | cons matched outer =>
    rw [List.map_cons]
    dsimp only
    rw [Builder.foldl_closeAt, Builder.foldl_closeAt]
    have hinner : (new.stack.takeWhile fun id => !new.closes name id) ⊆ new.stack := (List.takeWhile_prefix _).subset
    have hshut := h.shutAll hnew hinner hspan.1
    refine ⟨h.zero, h.injective, rfl, ?_, ?_, h.problems⟩
    · intro count
      rw [Builder.closeWith_nodes, Builder.closeWith_nodes, Array.size_modify, Array.size_modify, Builder.size_foldl_shut,
        Builder.size_foldl_shut]
      exact h.size count
    · intro id node hnode
      rw [Builder.closeWith_nodes] at hnode ⊢
      rw [getElem?_modify_map] at hnode ⊢
      obtain ⟨before, hbefore, rfl⟩ := Option.map_eq_some_iff.1 hnode
      obtain ⟨before', hbefore', hstands⟩ := hshut id before hbefore
      rw [hbefore', Option.map_some]
      refine ⟨_, rfl, ?_⟩
      by_cases hid : id = matched
      · rw [if_pos (congrArg rename hid), if_pos hid]
        refine hstands.shutWith ?_ hspan
        rw [Builder.getElem?_foldl_shut] at hbefore
        obtain ⟨first, hfirst, rfl⟩ := Option.map_eq_some_iff.1 hbefore
        have hopen : first.kind.hasContent = true :=
          hnew.hasContent id (hid ▸ (Builder.closes_of_dropWhile hrest).2) first hfirst
        rw [hstands.kind.hasContent]
        split <;> exact hopen
      · rw [if_neg (fun heq => hid (h.injective heq)), if_neg hid]
        exact hstands

/-- The elements of start tags of a name. -/
theorem elementOf (h : Lockstep rev rename changed old new) (tag tag' : ReadTag) (hname : tag.rawName = tag'.rawName) :
    (old.elementOf tag).heading = (new.elementOf tag').heading := by
  simp [Builder.elementOf, Element.heading, hname, h.vocabularyFor]

theorem elementOf_eq (h : Lockstep rev rename changed old new) (tag : ReadTag) : old.elementOf tag = new.elementOf tag := by
  rw [Builder.elementOf, Builder.elementOf, h.vocabularyFor]

theorem startElement (h : Lockstep rev rename changed old new) (hold : Shaped old.nodes old.stack)
    (hnew : Shaped new.nodes new.stack) (tag : ReadTag) (distance distance' : Nat)
    (hspan : rev.SamePlace (tag.startTag.span.shift distance) (tag.startTag.span.shift distance')) :
    Lockstep rev rename changed (old.startElement (old.elementOf (tag.shift distance)))
      (new.startElement (new.elementOf (tag.shift distance'))) := by
  have hheading : (old.elementOf (tag.shift distance)).heading = (new.elementOf (tag.shift distance')).heading :=
    h.elementOf _ _ rfl
  have hself : (old.elementOf (tag.shift distance)).startTag.selfClosing =
      (new.elementOf (tag.shift distance')).startTag.selfClosing := rfl
  have hpush := h.push hold hnew (.element hheading) fun _ => ⟨hspan, .element tag.startTag distance distance' hheading
    (ReadTag.startTag_shift distance tag) (ReadTag.startTag_shift distance' tag) .none, fun hleaf => (by cases hleaf)⟩
  unfold Builder.startElement
  dsimp only
  rw [hself, Element.isVoid_of_heading hheading]
  split
  · exact hpush
  · refine ⟨h.zero, h.injective, ?_, hpush.size, hpush.nodes, hpush.problems⟩
    exact congrArg₂ List.cons (h.size 0).symm h.stack

/-- Adding the same piece to both trees, at two places. -/
theorem add (h : Lockstep rev rename changed old new) (hold : Shaped old.nodes old.stack) (hnew : Shaped new.nodes new.stack)
    (piece : Piece) (distance distance' : Nat) (fileStop fileStop' : Nat)
    (hspan : rev.SamePlace (piece.span.shift distance) (piece.span.shift distance'))
    (htext : slice rev.source (piece.span.shift distance) = slice rev.edited (piece.span.shift distance')) :
    Lockstep rev rename changed (old.add fileStop (piece.shift distance)) (new.add fileStop' (piece.shift distance')) := by
  have hrecord := h.record fileStop fileStop' fun hnone =>
    (piece.problems_shift distance' fileStop' 0).2 ((piece.problems_shift distance fileStop 0).1 hnone)
  rw [← piece.span_shift, ← piece.span_shift] at hspan htext
  cases piece with
  | comment span closed => exact hrecord.push hold hnew .comment fun _ => ⟨hspan, .comment, fun _ => htext⟩
  | text start chars => exact hrecord.push hold hnew .text fun _ => ⟨hspan, .text, fun _ => htext⟩
  | interpolation content inner =>
    exact hrecord.push hold hnew .interpolation fun _ => ⟨hspan, .interpolation content distance distance', fun _ => htext⟩
  | endTag name span close => exact hrecord.endElement hnew name hspan
  | startTag tag =>
    rw [Piece.span_shift, Piece.span_shift] at hspan
    exact hrecord.startElement hold hnew tag distance distance' hspan
  | raw span =>
    have hempty : ∀ distance, (span.shift distance).start < (span.shift distance).stop ↔ span.start < span.stop := by
      intro distance
      exact Nat.add_lt_add_iff_right
    simp only [Builder.add, Piece.shift, Builder.apply, hempty]
    split
    · exact hrecord.push hold hnew .text fun _ => ⟨hspan, .text, fun _ => htext⟩
    · exact hrecord

/-- The same raw content follows in both files. -/
theorem rawName? (h : Lockstep rev rename changed old new) (piece : Piece) (distance distance' : Nat) :
    new.rawName? (piece.shift distance') = old.rawName? (piece.shift distance) := by
  cases piece with
  | startTag tag =>
    have hholds := Element.holdsRaw_shift (h.elementOf (tag.shift distance) (tag.shift distance') rfl)
      (ReadTag.startTag_shift distance tag) (ReadTag.startTag_shift distance' tag) (old.current == 0)
    rw [Piece.shift, Piece.shift, Builder.rawName?_startTag, Builder.rawName?_startTag, hholds, h.isTop]
    rfl
  | comment | text | interpolation | endTag | raw => rfl

/-- Adding the piece that is read at two places with the same text. -/
theorem addRead (h : Lockstep rev rename changed old new) (hold : Shaped old.nodes old.stack) (hnew : Shaped new.nodes new.stack)
    {piece : Piece} {taken rest rest' chars : List Char} {length distance distance' : Nat} (fileStop fileStop' : Nat)
    (hread : piece.ReadFrom language ⟨0, chars⟩ taken ⟨length, rest⟩)
    (hsource : Stream.Before ⟨0, rev.source⟩ ⟨distance, taken ++ rest⟩)
    (hedited : Stream.Before ⟨0, rev.edited⟩ ⟨distance', taken ++ rest'⟩)
    (hstart : rev.place distance distance') (hstop : rev.place (length + distance) (length + distance')) :
    Lockstep rev rename changed (old.add fileStop (piece.shift distance)) (new.add fileStop' (piece.shift distance')) := by
  have hlength : length = byteLength taken := by simpa using hread.reads.offset
  have hspan : ∀ distance, piece.span.shift distance = ⟨distance, length + distance⟩ := by
    intro distance
    rw [hread.span, Span.shift]
    simp
  have hslice : ∀ {file tail : List Char} {distance : Nat}, Stream.Before ⟨0, file⟩ ⟨distance, taken ++ tail⟩ →
      slice file (piece.span.shift distance) = taken := by
    rintro file tail distance ⟨before, hbefore⟩
    have htaken : Stream.Reads ⟨distance, taken ++ tail⟩ taken ⟨length + distance, tail⟩ :=
      ⟨rfl, by rw [hlength, Nat.add_comm]⟩
    rw [hspan]
    exact hbefore.slice htaken
  refine h.add hold hnew piece distance distance' fileStop fileStop' ?_ ?_
  · rw [hspan, hspan]
    exact ⟨hstart, hstop⟩
  · rw [hslice hsource, hslice hedited]

/-- Closing what is open at the end of the files. -/
theorem finish (h : Lockstep rev rename changed old new) (hnew : Shaped new.nodes new.stack) {fileStop fileStop' : Nat}
    (hstop : rev.place fileStop fileStop') :
    Lockstep rev rename changed (old.finish fileStop) (new.finish fileStop') := by
  have hids : new.stack.dropLast ⊆ new.stack := (List.dropLast_prefix _).subset
  rw [Builder.finish, Builder.finish, Builder.foldl_closeAt, Builder.foldl_closeAt, h.stack, ← List.map_dropLast]
  refine ⟨h.zero, h.injective, rfl, fun count => ?_, h.shutAll hnew hids hstop, h.problems⟩
  rw [Builder.size_foldl_shut, Builder.size_foldl_shut]
  exact h.size count

/-! ## Steps of one file alone -/

/-- The edited file may be read further as long as only what the edit changes is affected. -/
theorem settleNew (h : Lockstep rev rename changed old new) {new' : Builder} (hsize : new'.nodes.size = new.nodes.size)
    (hstack : new'.stack = new.stack) (hproblems : new.problems = #[] → new'.problems = #[])
    (hnodes : ∀ (id : Nat) node, new'.nodes[id]? = some node →
      ∃ before, new.nodes[id]? = some before ∧ node.Settles (changed id) before) : Lockstep rev rename changed old new' := by
  refine ⟨h.zero, h.injective, hstack ▸ h.stack, hsize ▸ h.size, fun id node hnode => ?_,
    fun hnone => hproblems (h.problems hnone)⟩
  obtain ⟨before, hbefore, hsettles⟩ := hnodes id node hnode
  obtain ⟨node', hnode', hstands⟩ := h.nodes id before hbefore
  refine ⟨node', hnode', ?_, hstands.kind.trans hsettles.kind, fun hid => ?_⟩
  · rw [hstands.parent, hsettles.parent]
  · exact ((hstands.like (.refl _) (hsettles.same hid)).same hid)

/-- The file may be read further as long as only what the edit changes is affected; nodes that it alone has are left out. -/
theorem settleOld (h : Lockstep rev rename changed old new) (hnew : Shaped new.nodes new.stack) {old' : Builder}
    {rename' : Nat → Nat} (hzero : rename' 0 = 0) (hinjective : Function.Injective rename')
    (hagree : ∀ id < new.nodes.size, rename' id = rename id)
    (hsize : ∀ count, rename' (new.nodes.size + count) = old'.nodes.size + count) (hstack : old'.stack = old.stack)
    (hproblems : old'.problems = #[] → old.problems = #[])
    (hnodes : ∀ id before, id < new.nodes.size → old.nodes[rename id]? = some before →
      ∃ node, old'.nodes[rename id]? = some node ∧ node.Settles (changed id) before) : Lockstep rev rename' changed old' new := by
  refine ⟨hzero, hinjective, ?_, hsize, fun id node hnode => ?_, fun hnone => h.problems (hproblems hnone)⟩
  · rw [hstack, h.stack]
    exact List.map_congr_left fun id hid => (hagree id (hnew.mem_stack hid).2).symm
  · obtain ⟨hlt, -⟩ := Array.getElem?_eq_some_iff.1 hnode
    obtain ⟨before, hbefore, hstands⟩ := h.nodes id node hnode
    obtain ⟨node', hnode', hsettles⟩ := hnodes id before hlt hbefore
    rw [hagree id hlt]
    refine ⟨node', hnode', ?_, hsettles.kind.symm.trans hstands.kind, fun hid => ?_⟩
    · rw [hsettles.parent, hstands.parent]
      cases hparent : node.parent with
      | none => rfl
      | some above =>
        have habove : above < new.nodes.size := by
          rcases Nat.eq_zero_or_pos id with rfl | hpos
          · obtain ⟨root, hroot, -, hnone⟩ := hnew.root
            cases hnode.symm.trans hroot
            rw [hnone] at hparent
            cases hparent
          · obtain ⟨-, above', heq, hless⟩ := hnew.parent id node hnode hpos
            cases hparent.symm.trans heq
            exact Nat.lt_trans hless hlt
        rw [Option.map_some, Option.map_some, hagree above habove]
    · exact ((hstands.like (hsettles.same hid) (.refl _)).same hid)

end Lockstep

end ComponentLint.Markup
