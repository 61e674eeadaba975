import ComponentLint.Proofs.Markup.Editing

/-!
# Start tags behind their elements

How a file is read behind a start tag depends on the names of the elements that are open, and on nothing else of their start tags.
So the start tag of an element can be exchanged for another one at any time, and reading on gives the same tree but for that tag
(`Walks.retag`).
-/

namespace ComponentLint.Markup

open Text

/-- The node with another start tag, if it is an element. -/
def Node.retag (tag : StartTag) (node : Node) : Node :=
  match node.kind with
  | .element element => { node with kind := .element { element with startTag := tag } }
  | _ => node

section Node

variable (tag : StartTag) (node : Node)

theorem Node.keepsShape_retag : KeepsShape (Node.retag tag) := by
  refine ⟨?_, ?_, ?_, ?_, ?_⟩ <;> intro node <;> unfold Node.retag <;> split <;> simp_all [NodeKind.hasContent]

theorem Node.retag_adopt (child : NodeId) : (node.adopt child).retag tag = (node.retag tag).adopt child := by
  obtain ⟨id, parent, children, span, kind⟩ := node
  cases kind <;> rfl

theorem Node.retag_shut (stop : Nat) : (node.shut stop).retag tag = (node.retag tag).shut stop := by
  obtain ⟨id, parent, children, span, kind⟩ := node
  cases kind <;> rfl

theorem Node.retag_shutWith (close : Span) : (node.shutWith close).retag tag = (node.retag tag).shutWith close := by
  obtain ⟨id, parent, children, span, kind⟩ := node
  cases kind <;> rfl

end Node

theorem modify_comm (nodes : Array Node) (id other : Nat) {f g : Node → Node} (hfg : ∀ node, f (g node) = g (f node)) :
    (nodes.modify id f).modify other g = (nodes.modify other g).modify id f := by
  refine Array.ext_getElem? fun i => ?_
  simp only [getElem?_modify_map, Option.map_map]
  congr 1
  funext node
  dsimp only [Function.comp_apply]
  split <;> split <;> simp [hfg]

namespace Builder

/-- The tree with another start tag for an element. -/
def retag (id : Nat) (tag : StartTag) (builder : Builder) : Builder :=
  { builder with nodes := builder.nodes.modify id (Node.retag tag) }

variable {language : Script.Language} {fileStop : Nat} {builder last : Builder} {stream rest : Stream} (id : Nat) (tag : StartTag)

theorem getElem?_retag (builder : Builder) (other : Nat) :
    (builder.retag id tag).nodes[other]? = builder.nodes[other]?.map fun node => if other = id then node.retag tag else node :=
  getElem?_modify_map builder.nodes id other (Node.retag tag)

theorem retag_shaped (h : Shaped builder.nodes builder.stack) :
    Shaped (builder.retag id tag).nodes (builder.retag id tag).stack :=
  h.modify id (Node.keepsShape_retag tag)

theorem Node.retag_resembles (node : Node) : node.kind.Resembles (node.retag tag).kind := by
  obtain ⟨_, _, _, _, kind⟩ := node
  cases kind with
  | root => exact .root
  | element element => exact .element rfl
  | text => exact .text
  | interpolation content => exact .interpolation
  | comment => exact .comment

/-- The trees are in step, and tell the same about how to read on. -/
theorem lockstep_retag (builder : Builder) :
    Lockstep ⟨[], [], fun _ _ => True⟩ (fun other => other) (fun _ => True) builder (builder.retag id tag) := by
  refine ⟨rfl, Function.injective_id, (List.map_id _).symm, fun count => ?_, fun other node hnode => ?_, fun hnone => hnone⟩
  · rw [retag, Array.size_modify]
  · rw [getElem?_retag] at hnode
    obtain ⟨before, hbefore, rfl⟩ := Option.map_eq_some_iff.1 hnode
    refine ⟨before, hbefore, ?_, ?_, fun hnot => absurd trivial hnot⟩
    · rw [Option.map_id_fun', id_eq]
      split
      · rw [(Node.keepsShape_retag tag).parent]
      · rfl
    · split
      · exact Node.retag_resembles tag before
      · exact .refl _

theorem push_retag (hid : id < builder.nodes.size) (span : Span) (kind : NodeKind) :
    (builder.retag id tag).push span kind = (builder.push span kind).retag id tag := by
  have hpush : ∀ node : Node, (builder.nodes.modify id (Node.retag tag)).push node =
      (builder.nodes.push node).modify id (Node.retag tag) := by
    intro node
    refine Array.ext_getElem? fun i => ?_
    rw [getElem?_modify_map, Array.getElem?_push, Array.getElem?_push, getElem?_modify_map, Array.size_modify]
    by_cases hi : i = builder.nodes.size
    · rw [if_pos hi, if_pos hi, Option.map_some, if_neg (by omega)]
    · rw [if_neg hi, if_neg hi]
  have hsize : (builder.retag id tag).nodes.size = builder.nodes.size := Array.size_modify
  have hnodes : ((builder.retag id tag).push span kind).nodes = ((builder.push span kind).retag id tag).nodes := by
    unfold push
    dsimp only
    rw [hsize]
    exact (congrArg (Array.modify · _ _) (hpush _)).trans
      (modify_comm _ id builder.current fun node => Node.retag_adopt tag node builder.nodes.size)
  calc (builder.retag id tag).push span kind
      = { builder with nodes := ((builder.retag id tag).push span kind).nodes } := rfl
    _ = { builder with nodes := ((builder.push span kind).retag id tag).nodes } := by rw [hnodes]
    _ = (builder.push span kind).retag id tag := rfl

theorem foldl_shut_retag (stop : Nat) (ids : List Nat) (nodes : Array Node) :
    ids.foldl (fun nodes id => nodes.modify id (Node.shut stop)) (nodes.modify id (Node.retag tag)) =
      (ids.foldl (fun nodes id => nodes.modify id (Node.shut stop)) nodes).modify id (Node.retag tag) := by
  induction ids generalizing nodes with
  | nil => rfl
  | cons first ids ih =>
    rw [List.foldl_cons, List.foldl_cons, ← ih, modify_comm nodes id first fun node => Node.retag_shut tag node stop]

theorem endElement_retag (name : List Char) (span : Span) :
    (builder.retag id tag).endElement name span = (builder.endElement name span).retag id tag := by
  have hcloses : ∀ other, (builder.retag id tag).closes name other = builder.closes name other :=
    fun other => ((lockstep_retag id tag builder).closes name other).symm
  have hstack : (builder.retag id tag).stack = builder.stack := rfl
  unfold endElement
  dsimp only
  simp only [hcloses, hstack]
  split
  · rename_i matched outer hdrop
    rw [foldl_closeAt, foldl_closeAt]
    refine congrArg (fun nodes => ({ builder with nodes := nodes, stack := outer } : Builder)) ?_
    exact (congrArg (Array.modify · matched (Node.shutWith span)) (foldl_shut_retag id tag span.start _ builder.nodes)).trans
      (modify_comm _ id matched fun node => Node.retag_shutWith tag node span)
  · rfl

theorem startElement_retag (hid : id < builder.nodes.size) (element : Element) :
    (builder.retag id tag).startElement element = (builder.startElement element).retag id tag := by
  have hsize : (builder.retag id tag).nodes.size = builder.nodes.size := Array.size_modify
  unfold startElement
  dsimp only
  rw [push_retag id tag hid, hsize]
  split <;> rfl

theorem add_retag (hid : id < builder.nodes.size) (piece : Piece) :
    (builder.retag id tag).add fileStop piece = (builder.add fileStop piece).retag id tag := by
  have hrecord : (builder.retag id tag).record fileStop piece = (builder.record fileStop piece).retag id tag := rfl
  have hid' : id < (builder.record fileStop piece).nodes.size := hid
  rw [add, add, hrecord]
  cases piece with
  | comment | text | interpolation => exact push_retag id tag hid' _ _
  | endTag name span close => exact endElement_retag id tag name span
  | startTag read =>
    have helement := (lockstep_retag id tag (builder.record fileStop (.startTag read))).elementOf_eq read
    rw [apply, ← helement]
    exact startElement_retag id tag hid' _
  | raw span =>
    rw [apply, apply]
    split
    · exact push_retag id tag hid' _ _
    · rfl

theorem advance_retag (hid : id < builder.nodes.size) (stream : Stream) :
    advance language fileStop (builder.retag id tag) stream =
      ((advance language fileStop builder stream).1.retag id tag, (advance language fileStop builder stream).2) := by
  have hlock := lockstep_retag id tag builder
  have hraw : ∀ piece, (builder.retag id tag).rawName? piece = builder.rawName? piece := by
    intro piece
    cases piece with
    | startTag read =>
      rw [rawName?_startTag, rawName?_startTag, ← hlock.elementOf_eq]
      rfl
    | comment | text | interpolation | endTag | raw => rfl
  unfold advance
  dsimp only
  rw [← hlock.surroundings, hraw, add_retag id tag hid]
  split
  · rw [add_retag id tag (Nat.lt_of_lt_of_le hid (builder.size_add fileStop _).1)]
  · rfl

theorem size_le_advance (language : Script.Language) (fileStop : Nat) (builder : Builder) (stream : Stream) :
    builder.nodes.size ≤ (advance language fileStop builder stream).1.nodes.size := by
  unfold advance
  dsimp only
  split
  · exact Nat.le_trans (builder.size_add fileStop _).1 (Builder.size_add _ fileStop _).1
  · exact (builder.size_add fileStop _).1

/-- Reading on gives the same tree but for the start tag. -/
theorem Walks.retag (h : Walks language fileStop last rest builder stream) (hid : id < builder.nodes.size) :
    Walks language fileStop (last.retag id tag) rest (builder.retag id tag) stream := by
  induction h with
  | done => exact .done
  | step hne hwalk ih =>
    refine .step hne ?_
    rw [advance_retag id tag hid]
    exact ih (Nat.lt_of_lt_of_le hid (size_le_advance language fileStop _ _))

/-- Closing what is open does not depend on start tags either. -/
theorem finish_retag (fileStop : Nat) (builder : Builder) :
    (builder.retag id tag).finish fileStop = (builder.finish fileStop).retag id tag := by
  rw [finish, finish, foldl_closeAt, foldl_closeAt]
  exact congrArg (fun nodes => ({ builder with nodes := nodes } : Builder)) (foldl_shut_retag id tag fileStop _ builder.nodes)

/-- The start tag of a new element is exchanged. -/
theorem push_retag_new (h : Shaped builder.nodes builder.stack) (span : Span) (element : Element) :
    (builder.push span (.element element)).retag builder.nodes.size tag =
      builder.push span (.element { element with startTag := tag }) := by
  refine congrArg (fun nodes => ({ builder with nodes := nodes } : Builder)) (Array.ext_getElem? fun i => ?_)
  have hcurrent : builder.current < builder.nodes.size := h.current_lt
  have hgrown : ∀ element : Element, (builder.push span (.element element)).nodes =
      grow builder.nodes builder.current span (.element element) := fun _ => rfl
  rw [getElem?_modify_map, hgrown]
  change _ = (grow builder.nodes builder.current span (.element { element with startTag := tag }))[i]?
  rcases Nat.lt_trichotomy i builder.nodes.size with hlt | rfl | hgt
  · have hne : ∀ node : Node, (if i = builder.nodes.size then node.retag tag else node) = node :=
      fun _ => if_neg (Nat.ne_of_lt hlt)
    rw [grow_old i hlt, grow_old i hlt]
    simp only [hne, Option.map_id']
  · rw [grow_new hcurrent, grow_new hcurrent, Option.map_some, if_pos rfl]
    rfl
  · rw [Array.getElem?_eq_none (by rw [size_grow]; omega), Array.getElem?_eq_none (by rw [size_grow]; omega)]
    rfl

end Builder

/-- Elements whose start tags are at different places keep the trees in step if the start tag of the new one is
exchanged for that of the old one. -/
theorem Lockstep.startElement_retag {rev : Revision} {rename : Nat → Nat} {changed : Nat → Prop} {old new : Builder}
    (h : Lockstep rev rename changed old new) (hold : Shaped old.nodes old.stack) (hnew : Shaped new.nodes new.stack)
    {element element' : Element} (hheading : element.heading = element'.heading)
    (hself : element.startTag.selfClosing = element'.startTag.selfClosing) {tag : StartTag} {distance : Nat}
    (htag : element.startTag = tag.shift distance) (hspan : rev.SamePlace element.startTag.span element'.startTag.span)
    (hopen : element.endTag = none) (hopen' : element'.endTag = none) :
    Lockstep rev rename changed (old.startElement element)
      ((new.startElement element').retag new.nodes.size element.startTag) := by
  have hpush : Lockstep rev rename changed (old.push element.startTag.span (.element element))
      ((new.push element'.startTag.span (.element element')).retag new.nodes.size element.startTag) := by
    rw [Builder.push_retag_new _ hnew]
    refine h.push hold hnew (.element hheading) fun _ => ⟨hspan, .element tag distance distance hheading htag htag ?_, nofun⟩
    rw [hopen, hopen']
    exact .none
  unfold Builder.startElement
  dsimp only
  rw [hself, Element.isVoid_of_heading hheading]
  split
  · exact hpush
  · refine ⟨h.zero, h.injective, ?_, hpush.size, hpush.nodes, hpush.problems⟩
    exact congrArg₂ List.cons (h.size 0).symm h.stack

end ComponentLint.Markup
