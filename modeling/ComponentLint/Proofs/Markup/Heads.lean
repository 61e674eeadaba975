import ComponentLint.Proofs.Markup.TagTokens

/-!
# Which node an offset belongs to

Each node is started by one piece of the file, its head: the start tag of an element, or all of a node without content. Heads
follow each other in the order of the nodes (`HeadsInOrder`), so the fragments of script in a template, which lie inside heads,
belong to one node each. Inside a head, values and expressions keep a distance to its edges (`Node.Sits`).
-/

namespace ComponentLint.Markup

open Text

/-- The part of a node that one piece of the file writes. -/
def Node.head (node : Node) : Span :=
  match node.kind with
  | .root => ⟨0, 0⟩
  | .element element => element.startTag.span
  | _ => node.span

/-- A value that sits at the end of its attribute behind the name, and says what its text says. -/
structure AttributeValue.SitsIn (attr : Attribute) (value : AttributeValue) : Prop where
  behind : attr.span.start < value.span.start
  ordered : value.span.start ≤ value.valueSpan.start ∧ value.valueSpan.start ≤ value.valueSpan.stop ∧
    value.valueSpan.stop ≤ value.span.stop
  stop : value.span.stop = attr.span.stop
  meaning : ∃ language, attr.Says language value

/-- An element with room behind its attributes, unless the file ends there, and with values that sit in them. -/
structure Element.AttributesSit (source : List Char) (element : Element) : Prop where
  room : ∀ attr ∈ element.attributes, attr.span.stop < element.startTag.span.stop ∨
    element.startTag.span.stop = byteLength source
  value : ∀ attr ∈ element.attributes, ∀ value, attr.value = some value → value.SitsIn attr

/-- An interpolation with braces at both edges of a span. -/
structure Interpolation.SitsIn (span : Span) (content : Interpolation) : Prop where
  opening : content.opening.stop = span.start + 2
  closing : content.closing.start + 2 = span.stop

/-- A node whose parts sit in its head. -/
def Node.Sits (source : List Char) (node : Node) : Prop :=
  match node.kind with
  | .element element => element.AttributesSit source
  | .interpolation content => content.SitsIn node.span
  | _ => True

/-- The heads of the nodes of a tree follow each other, and the parts of each sit in it. -/
structure HeadsInOrder (source : List Char) (nodes : Array Node) : Prop where
  ordered : ∀ (first second : Nat) node later, first < second → nodes[first]? = some node → nodes[second]? = some later →
    node.head.stop ≤ later.head.start
  sits : ∀ (id : Nat) node, nodes[id]? = some node → node.Sits source

/-! ## The node of a piece -/

section Reading

variable {language : Script.Language} {source : List Char} {stream : Stream}

theorem ReadAttribute.LaidFrom.sits (hstream : Stream.Before ⟨0, source⟩ stream) {read : ReadAttribute}
    (hlaid : read.LaidFrom language stream) (hfrom : read.attr.ReadFrom stream) {value : AttributeValue}
    (hvalue : read.attr.value = some value) : value.SitsIn read.attr := by
  obtain ⟨rest, _, hspan⟩ := hfrom.span
  cases hlaid with
  | plain _ _ _ _ hnone =>
    rw [hvalue] at hnone
    cases hnone
  | @valued name afterName sign afterSign place found hname hne _ hbefore hsign _ hafter hfound hstands hstop hmeaning =>
    obtain rfl : value = found := Option.some.inj (hvalue.symm.trans hfound)
    have hplace := (((hstream.trans hname.before).trans hbefore).trans hsign.before).trans hafter
    have hstart := hstands.start
    refine ⟨?_, (hstands.laidIn hplace).ordered, hstop.symm, language, hmeaning⟩
    have hpos := (byteLength_pos_iff name).2 hne
    have hnameStop := hname.offset
    have hsignStart := hbefore.offset_le
    have hsignStop := hsign.offset_le
    have hvalueStart := hafter.offset_le
    rw [hspan, hstart]
    dsimp only
    omega

/-- The node that a piece adds spans the piece, and its parts sit in it. -/
theorem Piece.ReadFrom.head_sits {piece : Piece} {taken : List Char} {rest : Stream}
    (hstream : Stream.Before ⟨0, source⟩ stream) (h : piece.ReadFrom language stream taken rest) {node : Node}
    (hspan : node.span = piece.span) (hadds : piece.Adds node.kind) :
    node.head = ⟨stream.offset, rest.offset⟩ ∧ node.Sits source := by
  rw [h.span] at hspan
  cases piece with
  | startTag tag =>
    obtain ⟨element, hkind, ⟨htag, _⟩, hattrs, _, _⟩ := hadds
    have hhead : element.startTag.span = ⟨stream.offset, rest.offset⟩ := htag.trans h.span
    obtain ⟨_, hparts, ⟨after, hending, hstop⟩, hroom⟩ := h.parts
    simp only [Node.head, Node.Sits, hkind]
    refine ⟨hhead, fun attr hattr => ?_, fun attr hattr value hvalue => ?_⟩
    · rw [hattrs] at hattr
      obtain ⟨read, hread, rfl⟩ := List.mem_map.1 hattr
      rw [htag]
      by_cases hmissing : tag.ending = .missing
      · rw [hmissing] at hending
        cases hending with
        | missing hbefore hend =>
          refine .inr ?_
          dsimp only
          rw [hstop]
          exact offset_of_end (hstream.trans hbefore) hend
      · exact .inl (hroom hmissing read hread)
    · rw [hattrs] at hattr
      obtain ⟨read, hread, rfl⟩ := List.mem_map.1 hattr
      obtain ⟨here, hhere, hfrom, hlaid⟩ := hparts read hread
      exact hlaid.sits (hstream.trans hhere) hfrom hvalue
  | endTag => exact hadds.elim
  | interpolation content inner =>
    have hkind : node.kind = .interpolation content := hadds
    obtain ⟨here, close, hopen, _, hopening, hclosing, _⟩ := h.parts
    have hopenStop : here.offset = stream.offset + 2 := hopen.offset
    have hcloseStop : content.closing.stop = rest.offset := congrArg Span.stop h.span
    simp only [Node.head, Node.Sits, hkind]
    refine ⟨hspan, ?_, ?_⟩
    · rw [hopening, hspan]
      exact hopenStop
    · rw [hclosing] at hcloseStop ⊢
      rw [hspan]
      exact hcloseStop
  | comment | text | raw =>
    rw [Node.head, Node.Sits, show node.kind = _ from hadds]
    exact ⟨hspan, trivial⟩

end Reading

/-- A node that becomes another one keeps its head, and what sits in it. -/
theorem Node.Becomes.head_sits {piece : Piece} {old node : Node} (h : old.Becomes piece node) (source : List Char) :
    node.head = old.head ∧ (old.Sits source → node.Sits source) := by
  cases h with
  | same hkind hspan =>
    unfold Node.head Node.Sits
    rw [hkind]
    cases hold : old.kind with
    | root | element => exact ⟨rfl, fun hsits => hsits⟩
    | text | comment | interpolation =>
      rw [hspan (by rw [hold]; rfl)]
      exact ⟨rfl, fun hsits => hsits⟩
  | tagged _ hold _ _ hkind =>
    unfold Node.head Node.Sits
    rw [hold, hkind]
    exact ⟨rfl, fun hsits => ⟨hsits.room, hsits.value⟩⟩

/-! ## Whole files -/

namespace Builder

/-- Heads are in order after any number of steps, and the file has been read past all of them. -/
theorem reading_heads (language : Script.Language) (source : List Char) (steps : Nat) :
    HeadsInOrder source (reading language source steps).1.nodes := by
  refine (reading_steps language source (P := fun builder stream => (Stream.Before ⟨0, source⟩ stream ∧
    ∀ (id : Nat) node, builder.nodes[id]? = some node → node.head.stop ≤ stream.offset) ∧ HeadsInOrder source builder.nodes)
    ⟨⟨.refl _, ?_⟩, ?_, ?_⟩ ?_ steps).2
  · intro id node hnode
    obtain ⟨_, rfl⟩ := start_nodes hnode
    exact Nat.le_refl _
  · intro first second node later hlt _ hlater
    obtain ⟨rfl, _⟩ := start_nodes hlater
    exact absurd hlt (Nat.not_lt_zero _)
  · intro id node hnode
    obtain ⟨_, rfl⟩ := start_nodes hnode
    trivial
  · rintro builder stream piece taken rest ⟨⟨hstream, hpassed⟩, h⟩ hread hsteps
    have hle := hread.reads.offset_le
    have hsize := (builder.size_add (byteLength source) piece).2
    -- A node is an old one with its head, or the last one, whose head is the piece.
    have hnodes : ∀ (id : Nat) node, (builder.add (byteLength source) piece).nodes[id]? = some node →
        (∃ old, builder.nodes[id]? = some old ∧ node.head = old.head ∧ node.Sits source) ∨
          (builder.nodes.size ≤ id ∧ node.head = ⟨stream.offset, rest.offset⟩ ∧ node.Sits source) := by
      intro id node hnode
      rcases Nat.lt_or_ge id builder.nodes.size with hlt | hge
      · have hold : builder.nodes[id]? = some builder.nodes[id] := Array.getElem?_eq_getElem hlt
        obtain ⟨node', hnode', hbecomes⟩ := hsteps.old id _ hold
        obtain rfl : node = node' := Option.some.inj (hnode.symm.trans hnode')
        exact .inl ⟨_, hold, (hbecomes.head_sits source).1, (hbecomes.head_sits source).2 (h.sits id _ hold)⟩
      · obtain ⟨hspan, hadds⟩ := hsteps.new id node hnode hge
        exact .inr ⟨hge, hread.head_sits hstream hspan hadds⟩
    refine ⟨⟨hstream.trans hread.reads.before, fun id node hnode => ?_⟩, ?_, fun id node hnode => ?_⟩
    · rcases hnodes id node hnode with ⟨old, hold, hhead, _⟩ | ⟨_, hhead, _⟩
      · rw [hhead]
        exact Nat.le_trans (hpassed id old hold) hle
      · rw [hhead]
    · intro first second node later hlt hnode hlater
      obtain ⟨hsecond, _⟩ := Array.getElem?_eq_some_iff.1 hlater
      rcases hnodes first node hnode with ⟨old, hold, hhead, _⟩ | ⟨hge, _⟩
      · rw [hhead]
        rcases hnodes second later hlater with ⟨old', hold', hhead', _⟩ | ⟨_, hhead', _⟩
        · rw [hhead']
          exact h.ordered first second old old' hlt hold hold'
        · rw [hhead']
          exact hpassed first old hold
      · omega
    · rcases hnodes id node hnode with ⟨_, _, _, hsits⟩ | ⟨_, _, hsits⟩
      · exact hsits
      · exact hsits

end Builder

/-- The heads of every file are in order. -/
theorem parse_heads (language : Script.Language) (source : List Char) :
    HeadsInOrder source (parse language source).1.nodes := by
  have hshaped := (Builder.reading_standing language source source.length).shaped
  have hheads := Builder.reading_heads language source source.length
  rw [parse_eq]
  have hnodes : ∀ (id : Nat) node, ((Builder.reading language source source.length).1.finish (byteLength source)).nodes[id]? =
      some node → ∃ old, (Builder.reading language source source.length).1.nodes[id]? = some old ∧ node.head = old.head ∧
        (old.Sits source → node.Sits source) := by
    intro id node hnode
    obtain ⟨old, hold, hkind, hspan⟩ := Builder.of_finish hshaped hnode
    exact ⟨old, hold, Node.Becomes.head_sits (.same hkind hspan : old.Becomes (.raw ⟨0, 0⟩) node) source⟩
  refine ⟨fun first second node later hlt hnode hlater => ?_, fun id node hnode => ?_⟩
  · obtain ⟨old, hold, hhead, _⟩ := hnodes first node hnode
    obtain ⟨old', hold', hhead', _⟩ := hnodes second later hlater
    rw [hhead, hhead']
    exact hheads.ordered first second old old' hlt hold hold'
  · obtain ⟨old, hold, _, hsits⟩ := hnodes id node hnode
    exact hsits (hheads.sits id old hold)

end ComponentLint.Markup
