import ComponentLint.Proofs.Markup.EndTags
import ComponentLint.Proofs.Markup.Retagging
import ComponentLint.Proofs.Markup.Revisions
import ComponentLint.Proofs.Markup.TagGaps

/-!
# Other gaps in tags

The gap before the closing mark of a tag is exchanged for blanks. The file is then read as before, but for where the tag ends
(`Opens.regap`, `Closes.regap`).
-/

namespace ComponentLint.Markup

open Text

variable {languages : Script.Languages}

/-! ## Tags that say the same -/

theorem ReadAttribute.problems_of_saying {read read' : ReadAttribute} {fileStop : Nat} (h : read'.saying = read.saying)
    (hnone : read.problems fileStop = []) (fileStop' : Nat) : read'.problems fileStop' = [] := by
  obtain ⟨⟨span, key, value⟩, equals, unclosed⟩ := read
  obtain ⟨⟨span', key', value'⟩, equals', unclosed'⟩ := read'
  obtain ⟨⟨rfl, hvalue⟩, rfl⟩ : (key' = key ∧ value'.map AttributeValue.saying = value.map AttributeValue.saying) ∧
      unclosed' = unclosed := by
    simpa [saying, Attribute.saying] using h
  cases value with
  | none =>
    obtain rfl : value' = none := by simpa using hvalue
    rfl
  | some value =>
    obtain ⟨found, rfl, hsaying⟩ : ∃ found, value' = some found ∧ found.saying = value.saying := by simpa using hvalue
    have hmeaning : found.meaning = value.meaning := congrArg (·.2.2) hsaying
    cases unclosed' with
    | true => simp [problems] at hnone
    | false =>
      simp only [problems, hmeaning] at hnone ⊢
      cases hcase : value.meaning with
      | none => rfl
      | some meaning => cases meaning <;> cases key' <;> simp_all

theorem ReadTag.SaysSame.problems {tag tag' : ReadTag} {fileStop : Nat} (h : tag.SaysSame tag')
    (hnone : (Piece.startTag tag).problems fileStop = []) (fileStop' : Nat) : (Piece.startTag tag').problems fileStop' = [] := by
  simp only [Piece.problems, List.append_eq_nil_iff, List.flatMap_eq_nil_iff] at hnone ⊢
  refine ⟨fun read hread => ?_, ?_⟩
  · obtain ⟨read', hread', hsaying⟩ := List.mem_map.1 (h.attributes ▸ List.mem_map_of_mem (f := ReadAttribute.saying) hread)
    exact ReadAttribute.problems_of_saying hsaying.symm (hnone.1 read' hread') fileStop'
  · rw [h.ending]
    simpa using hnone.2

/-- The text of a plain attribute is part of what the attributes say. -/
theorem Element.attributeText_saying {old new : Element}
    (h : new.attributes.map Attribute.saying = old.attributes.map Attribute.saying) (name : String) :
    ((old.attribute? name).bind (·.value)).map (·.raw) = ((new.attribute? name).bind (·.value)).map (·.raw) := by
  have htext : ∀ element : Element, ((element.attribute? name).bind (·.value)).map (·.raw) =
      ((element.attributes.map Attribute.saying).find? fun told =>
        Attribute.isPlain ⟨⟨0, 0⟩, told.1, none⟩ name).bind fun told => told.2.map (·.1) := by
    intro element
    rw [List.find?_map]
    change _ = ((element.attribute? name).map Attribute.saying).bind _
    cases element.attribute? name with
    | none => rfl
    | some attr => cases hvalue : attr.value <;> simp [Attribute.saying, AttributeValue.saying, hvalue]
  rw [htext, htext, h]

namespace Builder

variable {language : Script.Language} {fileStop fileStop' : Nat} {builder last : Builder} {stream : Stream} {tag tag' : ReadTag}

theorem elementOf_saying (h : tag.SaysSame tag') (builder : Builder) :
    (builder.elementOf tag).heading = (builder.elementOf tag').heading ∧
      (builder.elementOf tag').attributes.map Attribute.saying = (builder.elementOf tag).attributes.map Attribute.saying ∧
      (builder.elementOf tag).startTag.selfClosing = (builder.elementOf tag').startTag.selfClosing := by
  refine ⟨?_, ?_, ?_⟩
  · simp [elementOf, Element.heading, h.rawName]
  · have hattributes := congrArg (List.map Prod.fst) h.attributes
    rw [List.map_map, List.map_map] at hattributes
    simp only [elementOf, Element.attributes, List.map_map]
    exact hattributes
  · simp [elementOf, h.ending]

theorem rawName?_saying (h : tag.SaysSame tag') (builder : Builder) :
    builder.rawName? (.startTag tag') = builder.rawName? (.startTag tag) := by
  obtain ⟨hheading, hattributes, hself⟩ := elementOf_saying h builder
  rw [rawName?_startTag, rawName?_startTag,
    Element.holdsRaw_congr hheading hself (Element.attributeText_saying hattributes "lang"), h.rawName]

/-- The start tag that is read at a place is one that is moved there. -/
theorem exists_shift_of_readPiece {around : Surroundings} {rest : Stream} (h : readPiece around stream = (.startTag tag, rest)) :
    ∃ first : ReadTag, tag = first.shift stream.offset := by
  have hshift := readPiece_shift stream.offset around ⟨0, stream.chars⟩
  rw [show Stream.shift ⟨0, stream.chars⟩ stream.offset = stream by simp [Stream.shift], h] at hshift
  have hpiece := (Prod.mk.inj hshift).1
  generalize (readPiece around ⟨0, stream.chars⟩).1 = piece at hpiece
  cases piece with
  | startTag first => exact ⟨first, Piece.startTag.inj hpiece⟩
  | comment | text | interpolation | endTag | raw => cases hpiece

theorem add_startTag_new (h : Shaped builder.nodes builder.stack) (fileStop : Nat) (tag : ReadTag) :
    (builder.add fileStop (.startTag tag)).nodes[builder.nodes.size]? =
      some ⟨builder.nodes.size, some builder.current, #[], ⟨tag.start, tag.stop⟩, .element (builder.elementOf tag)⟩ := by
  have hnew : (builder.withElement tag)[builder.nodes.size]? = _ := withElement_new h tag
  rw [add, apply, startElement]
  split <;> exact hnew

/-- What follows a start tag before the next piece: nothing, or raw content. -/
theorem exists_content (fileStop : Nat) {offset : Nat} {tail : List Char}
    (hread : readPiece (builder.surroundings language) stream = (.startTag tag, ⟨offset, tail⟩)) :
    ∃ content rest, tail = content ++ rest ∧ (advance language fileStop builder stream).2 =
      ⟨offset + byteLength content, rest⟩ := by
  cases hraw : builder.rawName? (.startTag tag) with
  | none =>
    rw [advance_plain hread hraw]
    exact ⟨[], tail, rfl, rfl⟩
  | some name =>
    obtain ⟨content, hcontent⟩ := readRaw_readFrom language name ⟨offset, tail⟩
    rw [advance_raw hread hraw]
    refine ⟨content, (readRaw name ⟨offset, tail⟩).2.chars, hcontent.reads.chars, ?_⟩
    rw [← hcontent.reads.offset]

/-- Steps over start tags with the same text behind them, which both or neither of the elements hold as raw
content: both add the same content, or none. -/
theorem advance_content {old new : Builder} {stream' : Stream} {offset offset' : Nat} {content rest : List Char}
    (hread : readPiece (old.surroundings language) stream = (.startTag tag, ⟨offset, content ++ rest⟩))
    (hread' : readPiece (new.surroundings language) stream' = (.startTag tag', ⟨offset', content ++ rest⟩))
    (hraw : new.rawName? (.startTag tag') = old.rawName? (.startTag tag))
    (hstep : (advance language fileStop old stream).2 = ⟨offset + byteLength content, rest⟩) :
    (advance language fileStop' new stream').2 = ⟨offset' + byteLength content, rest⟩ ∧
      (((advance language fileStop old stream).1 = old.add fileStop (.startTag tag) ∧
        (advance language fileStop' new stream').1 = new.add fileStop' (.startTag tag')) ∨
      ∃ raw : Piece, raw.ReadFrom language ⟨0, content ++ rest⟩ content ⟨byteLength content, rest⟩ ∧
        (advance language fileStop old stream).1 = (old.add fileStop (.startTag tag)).add fileStop (raw.shift offset) ∧
        (advance language fileStop' new stream').1 = (new.add fileStop' (.startTag tag')).add fileStop' (raw.shift offset')) := by
  cases hname : old.rawName? (.startTag tag) with
  | none =>
    rw [advance_plain hread hname] at hstep ⊢
    rw [advance_plain hread' (hraw.trans hname)]
    obtain rfl : content = [] := List.append_left_eq_self.1 (congrArg Stream.chars hstep)
    exact ⟨rfl, .inl ⟨rfl, rfl⟩⟩
  | some name =>
    obtain ⟨raw, ⟨count, after⟩, hrun⟩ : ∃ raw after, readRaw name ⟨0, content ++ rest⟩ = (raw, after) := ⟨_, _, rfl⟩
    rw [advance_raw hread hname, readRaw_at hrun] at hstep ⊢
    rw [advance_raw hread' (hraw.trans hname), readRaw_at hrun]
    obtain ⟨hcount, rfl⟩ := Stream.mk.inj hstep
    obtain rfl : count = byteLength content := Nat.add_left_cancel hcount
    obtain ⟨taken, hfrom⟩ := readRaw_readFrom language name ⟨0, content ++ after⟩
    rw [hrun] at hfrom
    obtain rfl : taken = content := (List.append_cancel_right hfrom.reads.chars).symm
    exact ⟨rfl, .inr ⟨raw, hfrom, rfl, rfl⟩⟩

end Builder

namespace Lockstep

open Builder

variable {rev : Revision} {rename : Nat → Nat} {changed : Nat → Prop} {old new : Builder} {language : Script.Language}
  {fileStop fileStop' : Nat} {tag tag' : ReadTag}

/-- Start tags that say the same keep the trees in step, if the new one is exchanged for the old one behind them. -/
theorem addTag_retag (h : Lockstep rev rename changed old new) (fileStop fileStop' : Nat) (hold : Shaped old.nodes old.stack)
    (hnew : Shaped new.nodes new.stack) (hsame : tag.SaysSame tag')
    {first : ReadTag} {distance : Nat} (hfirst : tag = first.shift distance)
    (hspan : rev.SamePlace ⟨tag.start, tag.stop⟩ ⟨tag'.start, tag'.stop⟩) :
    Lockstep rev rename changed (old.add fileStop (.startTag tag))
      ((new.add fileStop' (.startTag tag')).retag new.nodes.size (old.elementOf tag).startTag) := by
  obtain ⟨hheading, -, hself⟩ := elementOf_saying hsame old
  have helement : old.elementOf tag' = new.elementOf tag' := h.elementOf_eq tag'
  rw [helement] at hheading hself
  have htag : (old.elementOf tag).startTag = first.startTag.shift distance := by
    rw [hfirst]
    exact ReadTag.startTag_shift distance first
  have hrecord := h.record fileStop fileStop' fun hnone => hsame.problems hnone fileStop'
  exact hrecord.startElement_retag hold hnew hheading hself htag hspan rfl rfl

/-- A step of both files over start tags that say the same, with the same text behind them. -/
theorem advance_retag (h : Lockstep rev rename changed old new) (hold : Shaped old.nodes old.stack)
    (hnew : Shaped new.nodes new.stack) {stream stream' : Stream} {offset offset' : Nat} {content rest : List Char}
    (hread : readPiece (old.surroundings language) stream = (.startTag tag, ⟨offset, content ++ rest⟩))
    (hread' : readPiece (new.surroundings language) stream' = (.startTag tag', ⟨offset', content ++ rest⟩))
    (hsame : tag.SaysSame tag') (hspan : rev.SamePlace ⟨tag.start, tag.stop⟩ ⟨tag'.start, tag'.stop⟩)
    (hstep : (advance language fileStop old stream).2 = ⟨offset + byteLength content, rest⟩)
    (hsource : Stream.Before ⟨0, rev.source⟩ ⟨offset, content ++ rest⟩)
    (hedited : Stream.Before ⟨0, rev.edited⟩ ⟨offset', content ++ rest⟩)
    (hplace : ∀ count, rev.place (offset + count) (offset' + count)) :
    (advance language fileStop' new stream').2 = ⟨offset' + byteLength content, rest⟩ ∧
      Lockstep rev rename changed (advance language fileStop old stream).1
        ((advance language fileStop' new stream').1.retag new.nodes.size (old.elementOf tag).startTag) := by
  obtain ⟨first, hfirst⟩ := exists_shift_of_readPiece hread
  have hadded := h.addTag_retag fileStop fileStop' hold hnew hsame hfirst hspan
  have hraw : new.rawName? (.startTag tag') = old.rawName? (.startTag tag) := by
    rw [rawName?_saying hsame, hfirst]
    exact h.rawName? (.startTag first) stream.offset stream.offset
  obtain ⟨hstep', ⟨hadds, hadds'⟩ | ⟨raw, hfrom, hadds, hadds'⟩⟩ := advance_content hread hread' hraw hstep
  · rw [hadds, hadds']
    exact ⟨hstep', hadded⟩
  · have hsize : new.nodes.size < (new.add fileStop' (.startTag tag')).nodes.size :=
      (Array.getElem?_eq_some_iff.1 (add_startTag_new hnew fileStop' tag')).1
    have hstop := hplace (byteLength content)
    rw [Nat.add_comm, Nat.add_comm offset'] at hstop
    rw [hadds, hadds', ← add_retag _ _ hsize]
    exact ⟨hstep', hadded.addRead (add_shaped hold fileStop _)
      (retag_shaped _ _ (add_shaped hnew fileStop' _)) fileStop fileStop' hfrom
      hsource hedited (hplace 0) hstop⟩

/-- End tags of a name keep the trees in step, however large their gaps. -/
theorem addEndTag (h : Lockstep rev rename changed old new) (hnew : Shaped new.nodes new.stack) (fileStop fileStop' : Nat)
    {name gap gap' : List Char} {offset offset' : Nat}
    (hspan : rev.SamePlace (Piece.wholeEndTag name gap offset).span (Piece.wholeEndTag name gap' offset').span) :
    Lockstep rev rename changed (old.add fileStop (.wholeEndTag name gap offset))
      (new.add fileStop' (.wholeEndTag name gap' offset')) := by
  have hrecord : Lockstep rev rename changed (old.record fileStop (.wholeEndTag name gap offset))
      (new.record fileStop' (.wholeEndTag name gap' offset')) := h.record fileStop fileStop' fun _ => rfl
  exact hrecord.endElement hnew name hspan

end Lockstep

/-! ## Whole files -/

/-- The tree of an edited file is that of the file, but for where the tags of one element end. -/
structure Document.Regapped (old : Document) (rev : Revision) (id : NodeId) (element : Element) (new : Document) : Prop where
  around : old.KeepsAround rev (fun other => other) id new
  size : new.size = old.size
  children : ∀ other, new.children other = old.children other
  place : rev.SamePlace (old.spanOf id) (new.spanOf id)
  element : ∃ element', new.element? id = some element' ∧ element'.heading = element.heading ∧
    element'.attributes.map Attribute.saying = element.attributes.map Attribute.saying ∧
    element'.startTag.selfClosing = element.startTag.selfClosing ∧
    rev.SamePlace element.startTag.span element'.startTag.span ∧ Option.Rel rev.SamePlace element.endTag element'.endTag

theorem Document.Regapped.of_nodes {language : Script.Language} {rev : Revision} {id : NodeId} {element : Element}
    (hsize : (parse language rev.edited).1.size = (parse language rev.source).1.size)
    (hnodes : ∀ other node, (parse language rev.edited).1.node? other = some node → ∃ node',
      (parse language rev.source).1.node? other =
      some node' ∧ node'.StandsFor rev (fun other => other) (other = id) node)
    (hplace : rev.SamePlace ((parse language rev.source).1.spanOf id) ((parse language rev.edited).1.spanOf id))
    (helement : ∃ element', (parse language rev.edited).1.element? id = some element' ∧ element'.heading = element.heading ∧
      element'.attributes.map Attribute.saying = element.attributes.map Attribute.saying ∧
      element'.startTag.selfClosing = element.startTag.selfClosing ∧
      rev.SamePlace element.startTag.span element'.startTag.span ∧ Option.Rel rev.SamePlace element.endTag element'.endTag) :
    (parse language rev.source).1.Regapped rev id element (parse language rev.edited).1 := by
  exact ⟨.of_nodes hsize hnodes, hsize, (Document.Keeps.of_nodes hsize hnodes).children, hplace, helement⟩

theorem Node.retag_span (tag : StartTag) (node : Node) : (node.retag tag).span = node.span := by
  obtain ⟨id, parent, children, span, kind⟩ := node
  cases kind <;> rfl

open Builder in
/-- The trees of two files that are in step once the start tag of an element of the second is exchanged for that of the first. -/
theorem Document.Regapped.of_retag {language : Script.Language} {rev : Revision} {id : NodeId} {element element' : Element}
    {last last' : Builder}
    (hwalk : Walks language (byteLength rev.source) last ⟨byteLength rev.source, []⟩
      (start (byteLength rev.source)) ⟨0, rev.source⟩)
    (hwalk' : Walks language (byteLength rev.edited) last' ⟨byteLength rev.edited, []⟩
      (start (byteLength rev.edited)) ⟨0, rev.edited⟩)
    (h : Lockstep rev (fun other => other) (fun _ => False) (last.finish (byteLength rev.source))
      ((last'.finish (byteLength rev.edited)).retag id element.startTag))
    (helement : (parse language rev.source).1.element? id = some element)
    (helement' : (parse language rev.edited).1.element? id = some element')
    (hsaying : element'.attributes.map Attribute.saying = element.attributes.map Attribute.saying)
    (hself : element'.startTag.selfClosing = element.startTag.selfClosing)
    (hspan : rev.SamePlace element.startTag.span element'.startTag.span) :
    (parse language rev.source).1.Regapped rev id element (parse language rev.edited).1 := by
  obtain ⟨node', hnode', hkind'⟩ := Document.element?_eq_some_iff.1 helement'
  -- Apart from the start tag of the element, the nodes of the edited file are those that are in step.
  have hstands : ∀ other node, (parse language rev.edited).1.node? other = some node →
      ∃ old, (parse language rev.source).1.node? other = some old ∧
        old.StandsFor rev (fun other => other) False (if other = id then node.retag element.startTag else node) := by
    intro other node hnode
    rw [hwalk'.parse_eq] at hnode
    rw [hwalk.parse_eq]
    refine h.nodes other _ ?_
    rw [getElem?_retag, show (last'.finish (byteLength rev.edited)).nodes[other]? = some node from hnode]
    rfl
  obtain ⟨old, hold, hsame⟩ := hstands id node' hnode'
  rw [if_pos rfl] at hsame
  have hmatches := hsame.same nofun
  have hretagged : (node'.retag element.startTag).kind = .element { element' with startTag := element.startTag } := by
    unfold Node.retag
    rw [hkind']
  obtain ⟨node, hnode, hkind⟩ := Document.element?_eq_some_iff.1 helement
  cases hold.symm.trans hnode
  have hkinds := hmatches.kind
  rw [hkind, hretagged] at hkinds
  obtain ⟨hheading, hends⟩ : element.heading = element'.heading ∧ Option.Rel rev.SamePlace element.endTag element'.endTag := by
    cases hkinds with
    | element _ _ _ hheading _ _ hends => exact ⟨hheading, hends⟩
  refine .of_nodes ?_ (fun other node hnode => ?_) ?_ ⟨element', helement', hheading.symm, hsaying, hself, hspan, hends⟩
  · have hsize : ((last'.finish (byteLength rev.edited)).retag id element.startTag).nodes.size = _ := h.size 0
    rw [hwalk.parse_eq, hwalk'.parse_eq]
    rw [retag, Array.size_modify] at hsize
    exact hsize
  · obtain ⟨old, hold, hstands⟩ := hstands other node hnode
    refine ⟨old, hold, ?_⟩
    by_cases hid : other = id
    · rw [if_pos hid] at hstands
      refine ⟨hstands.parent.trans ?_, hstands.kind.trans (Node.retag_resembles _ node).symm, fun hne => absurd hid hne⟩
      rw [(Node.keepsShape_retag element.startTag).parent]
    · rw [if_neg hid] at hstands
      exact ⟨hstands.parent, hstands.kind, fun _ => hstands.same nofun⟩
  · have hplace := hmatches.span
    rw [Node.retag_span] at hplace
    rw [Document.spanOf, Document.spanOf, hold, show (parse language rev.edited).1.node? id = some node' from hnode']
    exact hplace

theorem parse_fits {language : Script.Language} {source : List Char} {id : NodeId} {element : Element}
    (h : (parse language source).1.element? id = some element) : element.Fits ((parse language source).1.spanOf id) := by
  obtain ⟨last, hwalk⟩ := Builder.exists_walks language source
  have hstanding := Builder.finish_standing (hwalk.standing (Builder.start_standing _))
  obtain ⟨node, hnode, hkind⟩ := Document.element?_eq_some_iff.1 h
  have hspan : (parse language source).1.spanOf id = node.span := by
    rw [Document.spanOf, show (parse language source).1.node? id = some node from hnode]
    rfl
  rw [hwalk.parse_eq] at hnode
  have hpos : 0 < id := by
    refine Nat.pos_of_ne_zero fun hzero => ?_
    obtain ⟨hroot, -⟩ := hstanding.placed.root node (hzero ▸ hnode)
    rw [hkind] at hroot
    cases hroot
  rw [hspan]
  exact (hstanding.placed.fits id node hpos hnode).1.2 element hkind

theorem Builder.retag_self {builder : Builder} {id : Nat} {element : Element} (h : builder.element? id = some element) :
    builder.retag id element.startTag = builder := by
  obtain ⟨node, hnode, hkind⟩ := Builder.element?_eq_some_iff.1 h
  have hnodes : builder.nodes.modify id (Node.retag element.startTag) = builder.nodes := by
    refine Array.ext_getElem? fun other => ?_
    rw [getElem?_modify_map]
    by_cases hid : other = id
    · obtain ⟨number, parent, children, span, kind⟩ := node
      obtain rfl : kind = _ := hkind
      rw [hid, hnode, Option.map_some, if_pos rfl]
      rfl
    · simp [hid]
  rw [retag, hnodes]

open Builder in
/-- The trees of two files that are in step, in which the place of a start tag is only its own. -/
theorem Document.Regapped.of_lockstep
    {language : Script.Language} {rev : Revision} {id : NodeId} {element : Element} {last last' : Builder}
    (hwalk : Walks language (byteLength rev.source) last ⟨byteLength rev.source, []⟩
      (start (byteLength rev.source)) ⟨0, rev.source⟩)
    (hwalk' : Walks language (byteLength rev.edited) last' ⟨byteLength rev.edited, []⟩
      (start (byteLength rev.edited)) ⟨0, rev.edited⟩)
    (h : Lockstep rev (fun other => other) (fun _ => False) (last.finish (byteLength rev.source))
      (last'.finish (byteLength rev.edited)))
    (helement : (parse language rev.source).1.element? id = some element)
    (hspan : rev.SamePlace element.startTag.span element.startTag.span)
    (honly : ∀ offset, rev.place element.startTag.span.start offset → offset = element.startTag.span.start) :
    (parse language rev.source).1.Regapped rev id element (parse language rev.edited).1 := by
  have hfits := parse_fits helement
  have helement₀ := helement
  rw [hwalk.parse_eq] at helement₀
  obtain ⟨node, hnode, hkind⟩ := Document.element?_eq_some_iff.1 helement₀
  obtain ⟨node', hnode'⟩ : ∃ node', (last'.finish (byteLength rev.edited)).nodes[id]? = some node' := by
    refine ⟨_, Array.getElem?_eq_getElem ?_⟩
    have hsize : (last'.finish (byteLength rev.edited)).nodes.size = (last.finish (byteLength rev.source)).nodes.size := h.size 0
    exact hsize ▸ (Array.getElem?_eq_some_iff.1 hnode).1
  obtain ⟨old, hold, hstands⟩ := h.nodes id node' hnode'
  cases hnode.symm.trans hold
  have hmatches := hstands.same nofun
  have hkinds := hmatches.kind
  rw [hkind] at hkinds
  generalize hkind' : node'.kind = kind' at hkinds
  cases hkinds with
  | @element _ element' tag distance distance' hheading hstart hstart' hend =>
    have helement' : (parse language rev.edited).1.element? id = some element' := by
      rw [hwalk'.parse_eq]
      exact Document.element?_eq_some_iff.2 ⟨node', hnode', hkind'⟩
    have hfits' := parse_fits helement'
    have hplace := hmatches.span.1
    rw [hwalk.parse_eq, Document.spanOf, Document.node?, hnode] at hfits
    rw [hwalk'.parse_eq, Document.spanOf, Document.node?, hnode'] at hfits'
    rw [← show element.startTag.span.start = node.span.start from hfits.startTag.1,
      ← show element'.startTag.span.start = node'.span.start from hfits'.startTag.1] at hplace
    have hsame := honly _ hplace
    rw [hstart, hstart'] at hsame
    obtain rfl : distance' = distance := Nat.add_left_cancel hsame
    have htag : element'.startTag = element.startTag := hstart'.trans hstart.symm
    refine .of_retag hwalk hwalk' ?_ helement helement' (congrArg (·.attributes.map Attribute.saying) htag)
      (congrArg StartTag.selfClosing htag) (htag ▸ hspan)
    rw [← htag, retag_self (Builder.element?_eq_some_iff.2 ⟨node', hnode', hkind'⟩)]
    exact h

/-- Texts that differ in the gap before a closing mark can be exchanged. -/
theorem Exchangeable.of_gap {inside gap gap' rest : List Char} {ending : TagEnd} (hended : ending ≠ .missing)
    (hblank : ∀ c ∈ gap', isAsciiSpace c = true) (hmarkup : ∀ more, isMarkup ('<' :: (inside ++ more)) = true) :
    Exchangeable ('<' :: (inside ++ (gap ++ (ending.mark ++ rest)))) ('<' :: (inside ++ (gap' ++ (ending.mark ++ rest)))) := by
  refine .of_start (Or.inl rfl) (by rw [hmarkup, hmarkup]) rfl (fun hmem => ?_) fun hclosing => ?_
  · simp only [List.mem_append] at hmem ⊢
    rcases hmem with hmem | hmem | hmem
    · exact Or.inl hmem
    · cases hblank ']' hmem
    · exact Or.inr (Or.inr hmem)
  · have hsplit : ∀ gap : List Char, occurs ['}', '}'] ('<' :: (inside ++ (gap ++ (ending.mark ++ rest)))) =
        (occurs ['}', '}'] ('<' :: inside ++ gap) || occurs ['}', '}'] rest) := by
      intro gap
      rw [← occurs_mark hended]
      simp
    have hbraces : ∀ c ∈ gap', c ∉ ['}', '}'] := by
      intro c hc hmem
      obtain rfl : c = '}' := by simpa using hmem
      cases hblank '}' hc
    rw [hsplit, occurs_append (by simp) hbraces, Bool.or_eq_true] at hclosing
    rw [hsplit, Bool.or_eq_true]
    exact hclosing.imp_left (occurs_of_part (by simp) (List.prefix_append _ _).isInfix)

namespace Builder

variable {language : Script.Language} {source edited : List Char} {id : Nat} {element : Element} {builder last : Builder}
  {tag : ReadTag} {front before gap gap' tail : List Char}

/-- The text of a start tag up to its gap, and from its closing mark on. -/
theorem regapText (before gap mark content rest : List Char) :
    ('<' :: before) ++ (gap ++ (mark ++ content)) ++ rest = '<' :: (before ++ (gap ++ (mark ++ (content ++ rest)))) := by
  simp

theorem size_lt_advance {fileStop : Nat} {stream after : Stream} (h : Shaped builder.nodes builder.stack)
    (hread : readPiece (builder.surroundings language) stream = (.startTag tag, after)) :
    builder.nodes.size < (advance language fileStop builder stream).1.nodes.size := by
  have hkept : Kept language fileStop fun added _ => builder.nodes.size < added.nodes.size :=
    fun added _ piece _ _ hlt _ _ => Nat.lt_of_lt_of_le hlt (added.size_add fileStop piece).1
  refine advance_of_added language hkept ?_
  rw [hread]
  exact (Array.getElem?_eq_some_iff.1 (add_startTag_new h fileStop tag)).1

/-- The element of a start tag keeps the start tag to the end of the file. -/
theorem Walks.lasting_startTag
    {fileStop : Nat} {stream after rest : Stream} (h : Walks language fileStop last rest builder stream)
    (hend : rest.chars = []) (hstanding : Standing fileStop builder.nodes builder.stack stream.offset) (hne : stream.chars ≠ [])
    (hread : readPiece (builder.surroundings language) stream = (.startTag tag, after)) :
    ∃ node endTag, (last.finish fileStop).nodes[builder.nodes.size]? = some node ∧
      node.kind = .element { builder.elementOf tag with endTag := endTag } := by
  cases h with
  | done => exact absurd hend hne
  | step _ hrest =>
    obtain ⟨hlt, taken, hfrom⟩ := readPiece_readFrom (builder.surroundings language) hne
    rw [hread] at hlt hfrom
    have hkept := kept_node language fileStop builder.nodes.size (some builder.current) (.element (builder.elementOf tag))
    obtain ⟨hlast, node, hnode, -, hkind⟩ := hrest.kept hkept (advance_of_added language hkept (by
      rw [hread]
      exact ⟨kept_standing fileStop builder stream _ taken after hstanding hfrom hlt, _,
        add_startTag_new hstanding.shaped fileStop tag, rfl, rfl⟩))
    obtain ⟨final, hfinal, hsame, -⟩ := finish_old fileStop hlast.shaped hnode
    cases hcase : node.kind with
    | element found =>
      rw [hcase] at hkind hsame
      refine ⟨final, found.endTag, hfinal, hsame.trans (congrArg NodeKind.element ?_)⟩
      rw [← NodeKind.element.inj hkind]
    | root | text | interpolation | comment =>
      rw [hcase] at hkind
      cases hkind

theorem Opens.regap (h : Opens language source id element builder last tag front (before ++ gap) tail)
    (helement : (parse language source).1.element? id = some element)
    (hgap : tag.GapsAt (builder.surroundings language) before gap tail) (hblank : ∀ c ∈ gap', isAsciiSpace c = true)
    (hdetached : gap' = [] → tag.Detached before)
    (hedited : edited = front ++ '<' :: (before ++ (gap' ++ (tag.ending.mark ++ tail)))) :
    (parse language source).1.Regapped (.cut source edited (byteLength (front ++ '<' :: before))
        (byteLength (front ++ '<' :: before) + byteLength gap) (byteLength (front ++ '<' :: before) + byteLength gap')) id element
        (parse language edited).1 ∧ (parse language edited).2 = [] := by
  have hread := h.readTag
  obtain ⟨content, rest, rfl, hstep⟩ := exists_content (byteLength source) hread
  have hsource := h.source_eq
  have hupTo := h.upTo
  have hafterTag := h.afterTag
  rw [h.startTag_stop] at hafterTag
  rw [List.append_assoc before, ← regapText] at hsource hupTo hread hstep
  rw [← regapText] at hedited
  have hrev := Revision.replaces_cut front ('<' :: before) gap gap' (tag.ending.mark ++ content) rest
  rw [← hsource, ← hedited] at hrev
  have hplace : ∀ count, (Revision.cut source edited (byteLength (front ++ '<' :: before))
      (byteLength (front ++ '<' :: before) + byteLength gap) (byteLength (front ++ '<' :: before) + byteLength gap')).place
        (byteLength front + 1 + byteLength (before ++ gap) + count)
          (byteLength front + 1 + byteLength before + byteLength gap' + count) := by
    refine fun count => Or.inr ⟨count, ?_, ?_⟩ <;>
      simp only [byteLength_append, byteLength_cons, show '<'.utf8Size = 1 from rfl, Nat.add_assoc]
  generalize hcut : Revision.cut source edited _ _ _ = rev at hrev hplace ⊢
  obtain ⟨rfl, rfl⟩ : rev.source = source ∧ rev.edited = edited := by rw [← hcut]; exact ⟨rfl, rfl⟩
  generalize htext : ('<' :: before) ++ (gap ++ (tag.ending.mark ++ content)) = text at hrev hsource hupTo hread hstep
  generalize htext' : ('<' :: before) ++ (gap' ++ (tag.ending.mark ++ content)) = text' at hrev hedited
  have hlength : byteLength text = 1 + byteLength (before ++ gap) + byteLength tag.ending.mark + byteLength content := by
    rw [← htext]
    simp only [byteLength_append, byteLength_cons, show '<'.utf8Size = 1 from rfl]
    omega
  have hlength' : byteLength text' =
      1 + byteLength before + byteLength gap' + byteLength tag.ending.mark + byteLength content := by
    rw [← htext']
    simp only [byteLength_append, byteLength_cons, show '<'.utf8Size = 1 from rfl]
    omega
  have hne : text ++ rest ≠ [] := by
    rw [← htext]
    exact List.cons_ne_nil _ _
  have hne' : text' ++ rest ≠ [] := by
    rw [← htext']
    exact List.cons_ne_nil _ _
  have hstarts : ∀ more, startsName (before ++ more) = true := by
    obtain ⟨inside, rfl⟩ := hgap.name
    intro more
    rw [List.append_assoc]
    exact startsName_append h.isName.starts _
  -- The file is read up to the tag, over it with its raw content, and to its end.
  have hover : Walks language (byteLength rev.source)
    (advance language (byteLength rev.source) builder ⟨byteLength front, text ++ rest⟩).1
      ⟨byteLength front + byteLength text, rest⟩ builder ⟨byteLength front, text ++ rest⟩ := by
    refine .single hne (Prod.ext rfl (hstep.trans ?_))
    rw [hlength]
    simp only [Nat.add_assoc]
  have hpasses : Passes language rev.source front text rest builder _ last :=
    ⟨hupTo, hover, hover.rest_of (hupTo.rest_of h.walk rfl) rfl⟩
  -- Up to the tag.
  have hexchange : Exchangeable (text ++ rest) (text' ++ rest) := by
    rw [← htext, ← htext', regapText, regapText]
    exact .of_gap h.ended hblank fun more => isMarkup_of_startsName (hstarts more)
  obtain ⟨builder', hbefore', hlock⟩ := hpasses.exchange hrev hexchange (fun name _ hcloses => by
    rw [← htext, regapText, closesRaw_of_startsName name (hstarts _)] at hcloses
    cases hcloses) (fun _ => False)
  have hbuilder' := hbefore'.standing (start_standing _)
  have hid : builder'.nodes.size = id := (hlock.size 0).trans h.size
  -- The tag.
  obtain ⟨tag', hread', hsame⟩ := hgap.regap gap' (content ++ rest) hblank hdetached fun hmem => hmem
  rw [h.start_eq] at hread'
  have hpiece' : readPiece (builder'.surroundings language) ⟨byteLength front, text' ++ rest⟩ =
      (.startTag tag', ⟨byteLength front + 1 + byteLength before + byteLength gap' + byteLength tag.ending.mark,
        content ++ rest⟩) := by
    rw [← hlock.surroundings, ← htext', regapText, readPiece_open _ (hstarts _), hread']
  have hspan : rev.SamePlace ⟨tag.start, tag.stop⟩ ⟨tag'.start, tag'.stop⟩ := by
    refine ⟨?_, ?_⟩
    · rw [hsame.start, h.start_eq]
      exact hrev.before _ (Nat.le_refl _)
    · rw [h.stop_eq, stop_of_readPiece hpiece']
      exact hplace _
  have hbehind : Stream.Before ⟨0, rev.edited⟩ ⟨byteLength front + 1 + byteLength before + byteLength gap' +
      byteLength tag.ending.mark, content ++ rest⟩ := by
    refine ⟨front ++ '<' :: (before ++ (gap' ++ tag.ending.mark)), ?_, ?_⟩
    · rw [hedited, ← htext']
      simp
    · simp only [byteLength_append, byteLength_cons, show '<'.utf8Size = 1 from rfl]
      omega
  obtain ⟨hstep', hlock'⟩ := hlock.advance_retag hpasses.shaped hbuilder'.shaped hread hpiece' hsame hspan hstep hafterTag hbehind
    fun count => by
      rw [Nat.add_assoc, Nat.add_assoc _ (byteLength tag.ending.mark)]
      exact hplace _
  have hover' : Walks language (byteLength rev.edited)
    (advance language (byteLength rev.edited) builder' ⟨byteLength front, text' ++ rest⟩).1
      ⟨byteLength front + byteLength text', rest⟩ builder' ⟨byteLength front, text' ++ rest⟩ := by
    refine .single hne' (Prod.ext rfl (hstep'.trans ?_))
    rw [hlength']
    simp only [Nat.add_assoc]
  -- Behind the tag.
  obtain ⟨last', hwalk'⟩ := exists_walks language rev.edited
  obtain ⟨node, endTag, hnode, hkind⟩ := (hbefore'.rest_of hwalk' rfl).lasting_startTag rfl hbuilder' hne' hpiece'
  obtain ⟨retagged, hafter, hfinal, hclean⟩ := hpasses.resume hrev hlock' (retag_shaped _ _ (hover'.shaped hbuilder'.shaped))
  have hrest' := (hbefore'.trans hover').rest_of hwalk' rfl
  obtain rfl := hafter.unique rfl (hrest'.retag _ _ (size_lt_advance hbuilder'.shaped hpiece')) rfl
  rw [finish_retag, hid] at hfinal
  rw [hid] at hnode
  obtain ⟨hheading, hattributes, hself⟩ := elementOf_saying hsame builder
  have hstart : element.startTag = (builder.elementOf tag).startTag := by rw [h.element_eq]
  rw [← hstart] at hfinal
  have helement' : (parse language rev.edited).1.element? id = some { builder'.elementOf tag' with endTag := endTag } := by
    rw [hwalk'.parse_eq]
    exact Document.element?_eq_some_iff.2 ⟨node, hnode, hkind⟩
  refine ⟨.of_retag hpasses.walk hwalk' hfinal helement helement' ?_ ?_ ?_, ?_⟩
  · rw [← hlock.elementOf_eq]
    change _ = element.startTag.attributes.map Attribute.saying
    rw [hstart]
    exact hattributes
  · rw [← hlock.elementOf_eq, hstart]
    exact hself.symm
  · rw [hstart]
    exact hspan
  · rw [hwalk'.parse_eq]
    exact congrArg Array.toList (hclean h.clean)

end Builder

/-- The gap of an end tag does not matter for where raw content ends. -/
theorem closesRaw_gap {name found gap gap' rest : List Char} (hname : IsTagName name) (hfound : IsTagName found)
    (hgap : ∀ c ∈ gap, isAsciiSpace c = true) (hgap' : ∀ c ∈ gap', isAsciiSpace c = true)
    (h : closesRaw name ('<' :: '/' :: (found ++ (gap ++ '>' :: rest))) = true) (more : List Char) :
    closesRaw name (more ++ '<' :: '/' :: (found ++ (gap ++ '>' :: rest))) =
      closesRaw name (more ++ '<' :: '/' :: (found ++ (gap' ++ '>' :: rest))) := by
  have hends : ∀ {gap : List Char}, (∀ c ∈ gap, isAsciiSpace c = true) →
      ∀ c ∈ (gap ++ '>' :: rest).head?, isAsciiSpace c = true ∨ c = '>' := by
    intro gap hgap
    cases gap with
    | nil => simp
    | cons c gap => simpa using Or.inl (hgap c List.mem_cons_self)
  obtain ⟨other, after, hchars, heq, hafter⟩ := closesRaw_iff.1 h
  have hother := hname.of_eqIgnoreAsciiCase heq
  obtain rfl : other = found := by
    have htake : ∀ {word tail : List Char}, IsTagName word → (∀ c ∈ tail.head?, isAsciiSpace c = true ∨ c = '>') →
        (word ++ tail).takeWhile (fun c => !isAsciiSpace c && c != '>') = word := by
      intro word tail hword htail
      rw [List.takeWhile_append_of_pos fun c hc => by simp [hword.inside c hc]]
      cases tail with
      | nil => simp
      | cons c tail =>
        rcases htail c rfl with hblank | rfl
        · simp [hblank]
        · simp
    have hsame := htake hfound (hends hgap)
    rw [(List.cons.inj (List.cons.inj hchars).2).2, htake hother hafter] at hsame
    exact hsame
  cases more with
  | nil => rw [List.nil_append, List.nil_append, h, closesRaw_iff.2 ⟨other, gap' ++ '>' :: rest, rfl, heq, hends hgap'⟩]
  | cons c more =>
    have hlength := length_of_eqIgnoreAsciiCase heq
    have hsplit : ∀ tail : List Char, c :: more ++ '<' :: '/' :: (other ++ tail) =
        (c :: more ++ '<' :: '/' :: other) ++ tail := by
      simp
    rw [hsplit, hsplit]
    refine closesRaw_front ?_ _ _
    simp only [List.length_append, List.length_cons]
    omega

namespace Builder

variable {language : Script.Language} {source edited : List Char} {id : Nat} {element : Element} {builder last : Builder}
  {span : Span} {front name gap gap' rest : List Char}

theorem Closes.regap (h : Closes language source span builder last front name gap rest)
    (helement : (parse language source).1.element? id = some element) (hspan : element.endTag = some span)
    (hblank : ∀ c ∈ gap', isAsciiSpace c = true) (hedited : edited = front ++ '<' :: '/' :: (name ++ (gap' ++ '>' :: rest))) :
    (parse language source).1.Regapped (.cut source edited (byteLength (front ++ '<' :: '/' :: name))
        (byteLength (front ++ '<' :: '/' :: name) + byteLength gap)
        (byteLength (front ++ '<' :: '/' :: name) + byteLength gap')) id
        element (parse language edited).1 ∧ (parse language edited).2 = [] := by
  have hrev := Revision.replaces_cut front ('<' :: '/' :: name) gap gap' ['>'] rest
  have hsource := h.source_eq
  rw [← endTag_append] at hsource hedited
  rw [show ('<' :: '/' :: name) ++ (gap ++ ['>']) = '<' :: '/' :: (name ++ (gap ++ ['>'])) from rfl,
    show ('<' :: '/' :: name) ++ (gap' ++ ['>']) = '<' :: '/' :: (name ++ (gap' ++ ['>'])) from rfl, ← hsource, ← hedited] at hrev
  -- What ends before the gap stays in place, and what starts there is found only there.
  have hkeeps : ∀ offset offset', offset < byteLength (front ++ '<' :: '/' :: name) → (Revision.cut source edited
      (byteLength (front ++ '<' :: '/' :: name)) (byteLength (front ++ '<' :: '/' :: name) + byteLength gap)
      (byteLength (front ++ '<' :: '/' :: name) + byteLength gap')).place offset offset' → offset = offset' := by
    rintro offset offset' hlt (⟨rfl, -⟩ | ⟨count, rfl, -⟩)
    · rfl
    · omega
  generalize hcut : Revision.cut source edited _ _ _ = rev at hrev hkeeps ⊢
  obtain ⟨rfl, rfl⟩ : rev.source = source ∧ rev.edited = edited := by rw [← hcut]; exact ⟨rfl, rfl⟩
  have hpasses := h.passes
  -- Up to the tag.
  have hmark : ∀ gap : List Char, '<' :: '/' :: (name ++ (gap ++ ['>'])) ++ rest =
      '<' :: ('/' :: name ++ (gap ++ (TagEnd.plain.mark ++ rest))) := fun gap => endTag_append name gap rest
  have hexchange : Exchangeable ('<' :: '/' :: (name ++ (gap ++ ['>'])) ++ rest)
      ('<' :: '/' :: (name ++ (gap' ++ ['>'])) ++ rest) := by
    rw [hmark, hmark]
    exact .of_gap nofun hblank fun more => by
      rw [List.cons_append, isMarkup]
      exact startsName_append h.isName.starts more
  obtain ⟨builder', hbefore', hlock⟩ := hpasses.exchange hrev hexchange (fun found hfound hcloses more => by
    rw [endTag_append] at hcloses
    rw [endTag_append, endTag_append]
    exact closesRaw_gap hfound h.isName h.gaps hblank hcloses more) (fun _ => False)
  have hbuilder' := hbefore'.standing (start_standing _)
  -- The tag.
  have hover' := @walks_wholeEndTag language (byteLength rev.edited) builder' name gap' h.isName hblank (byteLength front) rest
  have hplace : rev.SamePlace (Piece.wholeEndTag name gap (byteLength front)).span
      (Piece.wholeEndTag name gap' (byteLength front)).span := by
    refine ⟨hrev.before _ (Nat.le_refl _), ?_⟩
    have hbehind := hrev.behind 0
    simpa only [byteLength_endTag, Piece.wholeEndTag, Piece.span, Nat.add_zero, Nat.add_assoc] using hbehind
  have hlock' := hlock.addEndTag hbuilder'.shaped (byteLength rev.source) (byteLength rev.edited) hplace
  -- Behind the tag.
  obtain ⟨last', hafter', hfinal, hclean⟩ := hpasses.resume hrev hlock' (hover'.shaped hbuilder'.shaped)
  have hwalk' := hbefore'.trans (hover'.trans hafter')
  have hends := (parse_fits helement).endTag span hspan
  have hfront : element.startTag.span.stop ≤ byteLength front := by
    rw [h.span_eq] at hends
    exact hends.1
  have hstart := (parse_fits helement).startTag.2.1
  refine ⟨.of_lockstep hpasses.walk hwalk' hfinal helement ⟨hrev.before _ (by omega),
    hrev.before _ hfront⟩ fun offset hplaced => ?_, ?_⟩
  · refine (hkeeps _ _ ?_ hplaced).symm
    rw [byteLength_append]
    omega
  · rw [hwalk'.parse_eq]
    exact congrArg Array.toList (hclean h.clean)

end Builder

/-- Every element of the edited file is one of the file, and says the same. -/
theorem Document.Regapped.exists_element {rev : Revision} {id other : NodeId} {element new' : Element} {old new : Document}
    (h : old.Regapped rev id element new) (helement : old.element? id = some element) (hnew : new.element? other = some new') :
    ∃ old', old.element? other = some old' ∧ old'.heading = new'.heading ∧ old'.startTag.selfClosing = new'.startTag.selfClosing ∧
      ∀ name, ((old'.attribute? name).bind (·.value)).map (·.raw) = ((new'.attribute? name).bind (·.value)).map (·.raw) := by
  by_cases hid : other = id
  · subst hid
    obtain ⟨element', helement', hheading, hattributes, hself, -⟩ := h.element
    cases hnew.symm.trans helement'
    exact ⟨element, helement, hheading.symm, hself.symm, Element.attributeText_saying hattributes⟩
  · obtain ⟨node, hnode, hkind⟩ := Document.element?_eq_some_iff.1 hnew
    obtain ⟨node', hnode', hstands⟩ := h.around.nodes other node hnode
    have hkinds := (hstands.same hid).kind
    rw [hkind] at hkinds
    generalize hkind' : node'.kind = kind' at hkinds
    cases hkinds with
    | @element old' _ tag distance distance' hheading hstart hstart' hend =>
      exact ⟨old', Document.element?_eq_some_iff.2 ⟨node', hnode', hkind'⟩, hheading, by rw [hstart, hstart']; rfl,
        Element.attributeText_shift hstart hstart'⟩

end ComponentLint.Markup

namespace ComponentLint.Component

open Text Markup

/-- Another gap in a tag gives no problems in a component, also if it is the tag of a script. -/
theorem problems_regapped
    {rev : Revision} {id : NodeId} {element : Element} (htypes : usesTypes rev.edited = usesTypes rev.source)
    (h : (Component.parse languages rev.source).document.Regapped rev id element (Component.parse languages rev.edited).document)
    (helement : (Component.parse languages rev.source).document.element? id = some element)
    (hclean : (Component.parse languages rev.source).problems = [])
    (hmarkup : (Markup.parse (languages ⟨usesTypes rev.source, false⟩) rev.edited).2 = []) :
    (Component.parse languages rev.edited).problems = [] := by
  refine problems_of_scripts hclean (by rw [htypes]; exact hmarkup) fun block new hchild hnew hname => ?_
  obtain ⟨old, hold, hheading, hself, htext⟩ := h.exists_element helement hnew
  have hname' : old.name = "script" := (congrArg Prod.fst hheading).trans hname
  rw [h.children] at hchild
  have hdocument : (Component.parse languages rev.edited).document =
      (Markup.parse (languages ⟨usesTypes rev.source, false⟩) rev.edited).1 := by
    rw [← htypes]
    rfl
  rw [hdocument] at h hnew ⊢
  refine ⟨block, old, hchild, hold, hname', ?_, htext "lang"⟩
  refine contentOf_text h.around (fun child hmem => ⟨child, ?_, rfl⟩) (fun node hnode htext => ?_) hold hnew hname' hname hself
  · have hparent := (parse_shaped _ rev.source).mem_children.1 hmem
    obtain ⟨node, hnode, -⟩ := Option.bind_eq_some_iff.1 hparent
    rw [h.size]
    exact (Array.getElem?_eq_some_iff.1 hnode).1
  · obtain ⟨element', helement', -⟩ := h.element
    obtain ⟨node', hnode', hkind⟩ := Document.element?_eq_some_iff.1 helement'
    cases hnode.symm.trans hnode'
    rw [hkind] at htext
    cases htext

end ComponentLint.Component
