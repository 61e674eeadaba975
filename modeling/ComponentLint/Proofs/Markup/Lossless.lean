import ComponentLint.Proofs.Markup.Steps

/-!
# Tokens lose nothing

`Lossless` says what can be relied on in the tokens of any file: they lie in the file in order and apart from each other, and
the bytes that belong to none of them are blanks and slashes inside tags. While a file is read, the tokens tile what has been
read of it (`Tiled`); what is a gap for that tiling is fixed by the tree, so tags that are added later leave it a gap.
-/

namespace ComponentLint.Markup

open Text

variable {language : Script.Language}

/-- Whether an offset lies in a tag: in the start tag or the end tag of an element, or in an end tag that closes nothing. -/
def InTag (source : List Char) (nodes : Array Node) (problems : List Problem) (offset : Nat) : Prop :=
  (∃ (id : Nat) (node : Node) (element : Element), nodes[id]? = some node ∧ node.kind = .element element ∧
      (element.startTag.span.Holds offset ∨ ∃ tag, element.endTag = some tag ∧ tag.Holds offset)) ∨
    ∃ name span, ⟨.unexpectedEndTag (String.ofList name), span⟩ ∈ problems ∧ EndTagText name (slice source span) ∧
      span.Holds offset

/-- Every byte of the name and of the value of an attribute belongs to a token. -/
structure Attribute.Tokened (attr : Attribute) (tokens : List Token) : Prop where
  name : ∀ offset, attr.key.span.Holds offset → Covered tokens offset
  value : ∀ value, attr.value = some value → ∀ offset, value.span.Holds offset → Covered tokens offset

/-- Tokens that lose nothing but blanks and slashes of tags. -/
structure Document.Lossless (document : Document) (problems : List Problem) : Prop where
  /-- A token takes at least one byte of the file, from one character to another. -/
  inFile : ∀ token ∈ document.tokens.toList, token.span.start < token.span.stop ∧
    token.span.stop ≤ byteLength document.source ∧ isBoundary document.source token.span.start = true ∧
    isBoundary document.source token.span.stop = true
  ordered : document.tokens.toList.Pairwise fun a b => a.span.start < b.span.start ∧ a.span.stop ≤ b.span.start
  /-- A byte of no token is one of the five blanks or a slash, and lies in a tag. -/
  gaps : ∀ offset < byteLength document.source, ¬ Covered document.tokens.toList offset →
    (∃ byte ∈ ([9, 10, 12, 13, 32, 47] : List UInt8), (bytes document.source)[offset]? = some byte) ∧
      InTag document.source document.nodes problems offset
  /-- Text, interpolations and comments are all tokens. -/
  content : ∀ (id : Nat) node, document.node? id = some node → node.kind.hasContent = false →
    ∀ offset, node.span.Holds offset → Covered document.tokens.toList offset
  attributes : ∀ (id : Nat) element, document.element? id = some element → ∀ attr ∈ element.attributes,
    attr.Tokened document.tokens.toList

/-! ## Gaps -/

/-- A character that belongs to no token takes one byte. -/
theorem TagGap.byte {c : Char} (h : TagGap c) :
    c.utf8Size = 1 ∧ c.val.toUInt8 ∈ ([9, 10, 12, 13, 32, 47] : List UInt8) := by
  rcases h with h | rfl
  · simp only [isAsciiSpace, Bool.or_eq_true, beq_iff_eq] at h
    rcases h with (((rfl | rfl) | rfl) | rfl) | rfl <;> decide
  · decide

/-- Tokens that tile a file leave out blanks and slashes only. -/
theorem Tiling.gap_byte {source : List Char} {tokens : List Token} {P : Nat → Prop}
    (h : Tiling (fun offset c => TagGap c ∧ P offset) 0 source tokens) {offset : Nat} (hlt : offset < byteLength source)
    (hnot : ¬ Covered tokens offset) :
    (∃ byte ∈ ([9, 10, 12, 13, 32, 47] : List UInt8), (bytes source)[offset]? = some byte) ∧ P offset := by
  rcases h.covered_or_gap (Nat.zero_le offset) (by omega) with hc | ⟨before, c, after, rfl, hle, hlt', hgap, hP⟩
  · exact absurd hc hnot
  · obtain ⟨hone, hbyte⟩ := hgap.byte
    have hoffset : offset = byteLength before := by omega
    rw [Nat.zero_add, ← hoffset] at hP
    exact ⟨⟨_, hbyte, hoffset ▸ bytes_get_one hone⟩, hP⟩

/-- Tokens that tile a file start and stop between characters. -/
theorem Tiling.inFile {source : List Char} {tokens : List Token} {gap : Nat → Char → Prop} (h : Tiling gap 0 source tokens) :
    ∀ token ∈ tokens, token.span.start < token.span.stop ∧ token.span.stop ≤ byteLength source ∧
      isBoundary source token.span.start = true ∧ isBoundary source token.span.stop = true := by
  intro token ht
  obtain ⟨a, b, c, rfl, hb, hspan⟩ := h.token_parts token ht
  have hpos := (byteLength_pos_iff b).2 hb
  rw [hspan, Nat.zero_add]
  refine ⟨by simp only; omega, by simp only [byteLength_append]; omega, ?_, ?_⟩
  · exact isBoundary_iff.2 ⟨a, b ++ c, rfl, rfl⟩
  · exact isBoundary_iff.2 ⟨a ++ b, c, by simp, by simp⟩

/-- Tokens that tile a text start one after the other. -/
theorem Tiling.ordered {start : Nat} {chars : List Char} {tokens : List Token} {gap : Nat → Char → Prop}
    (h : Tiling gap start chars tokens) :
    tokens.Pairwise fun a b => a.span.start < b.span.start ∧ a.span.stop ≤ b.span.start := by
  refine h.pairwise.imp_of_mem ?_
  intro a b ha _ hle
  have hne := (h.token_within a ha).2.1
  exact ⟨by omega, hle⟩

/-! ## Tags and tokens of one piece -/

/-- What lies in a tag still does when a piece is added. -/
theorem InTag.steps {source : List Char} {builder added : Builder} {piece : Piece} (hsteps : builder.Steps piece added)
    {offset : Nat} (h : InTag source builder.nodes builder.problems.toList offset) :
    InTag source added.nodes added.problems.toList offset := by
  rcases h with ⟨id, old, element, hold, hk, hin⟩ | ⟨name, span, hproblem, hrest⟩
  · obtain ⟨node, hnode, hbecomes⟩ := hsteps.old id old hold
    cases hbecomes with
    | same hkind _ => exact Or.inl ⟨id, node, element, hnode, hkind.trans hk, hin⟩
    | tagged _ hold' hopen _ hkind =>
      cases hk.symm.trans hold'
      refine Or.inl ⟨id, node, _, hnode, hkind, hin.imp_right fun ⟨tag, htag, _⟩ => ?_⟩
      rw [hopen] at htag
      cases htag
  · exact Or.inr ⟨name, span, hsteps.problems _ hproblem, hrest⟩

/-- The bytes of a tag that was added lie in a tag. -/
theorem Piece.ReadFrom.inTag {source before taken : List Char} {stream rest : Stream} {piece : Piece} {builder added : Builder}
    (hbefore : Stream.Reads ⟨0, source⟩ before stream) (h : piece.ReadFrom language stream taken rest)
    (hsteps : builder.Steps piece added) (htag : piece.isTag = true) {offset : Nat} (hin : piece.span.Holds offset) :
    InTag source added.nodes added.problems.toList offset := by
  have hfound := hsteps.found
  cases piece with
  | startTag tag =>
    obtain ⟨id, node, element, hnode, hk, hspan⟩ := hfound
    exact Or.inl ⟨id, node, element, hnode, hk, Or.inl (hspan ▸ hin)⟩
  | endTag name span close =>
    rcases hfound with ⟨id, node, element, hnode, hk, hend⟩ | hproblem
    · exact Or.inl ⟨id, node, element, hnode, hk, Or.inr ⟨span, hend, hin⟩⟩
    · refine Or.inr ⟨name, span, hproblem, ?_, hin⟩
      rw [show span = _ from h.span, hbefore.slice h.reads]
      exact h.form
  | _ => cases htag

/-- Every byte of a piece that is no tag belongs to a token. -/
theorem Piece.ReadFrom.covered {taken : List Char}
    {stream rest : Stream} {piece : Piece} (h : piece.ReadFrom language stream taken rest)
    (htag : piece.isTag = false) {offset : Nat} (hin : piece.span.Holds offset) : Covered piece.tokens offset := by
  have htiling : Tiling (fun _ _ => False) stream.offset taken piece.tokens :=
    h.tiling.mono fun _ _ _ _ hgap => by rw [Piece.Gap, htag] at hgap; cases hgap.1
  rw [h.span] at hin
  exact htiling.covered hin.1 (h.reads.offset ▸ hin.2)

theorem Covered.spanning (kind : TokenKind) {span : Span} {offset : Nat} (h : span.Holds offset) :
    Covered (Token.spanning kind span.start span.stop) offset := by
  rw [Token.spanning, if_pos (Nat.lt_of_le_of_lt h.1 h.2)]
  exact ⟨_, List.mem_singleton_self _, h⟩

theorem Attribute.Tokened.mono {attr : Attribute} {tokens tokens' : List Token} (h : attr.Tokened tokens)
    (hsub : ∀ token ∈ tokens, token ∈ tokens') : attr.Tokened tokens' :=
  ⟨fun offset hin => (h.name offset hin).mono hsub, fun value hv offset hin => (h.value value hv offset hin).mono hsub⟩

/-- The name and the value of an attribute are tokens. -/
theorem ReadAttribute.tokened (read : ReadAttribute) : read.attr.Tokened read.tokens := by
  refine ⟨fun offset hin => ?_, fun value hvalue offset hin => ?_⟩
  · refine (Covered.spanning .attributeName hin).mono fun token ht => ?_
    exact List.mem_append_left _ (List.mem_append_left _ ht)
  · refine (Covered.spanning .attributeValue hin).mono fun token ht => ?_
    rw [ReadAttribute.tokens, hvalue]
    exact List.mem_append_right _ ht

/-! ## Whole files -/

/-- What a node that has been read has to do with the tokens. -/
structure Node.Tokened (node : Node) (tokens : List Token) : Prop where
  content : node.kind.hasContent = false → ∀ offset, node.span.Holds offset → Covered tokens offset
  attributes : ∀ element, node.kind = .element element → ∀ attr ∈ element.attributes, attr.Tokened tokens

/-- The invariant on the tokens of a file that has been read up to a place. -/
structure Tiled (source : List Char) (builder : Builder) (stream : Stream) : Prop where
  tiling : ∃ before, Stream.Reads ⟨0, source⟩ before stream ∧
    Tiling (fun offset c => TagGap c ∧ InTag source builder.nodes builder.problems.toList offset) 0 before
      builder.tokens.toList
  tokened : ∀ (id : Nat) node, builder.nodes[id]? = some node → node.Tokened builder.tokens.toList

theorem Node.Tokened.mono {node : Node} {tokens tokens' : List Token} (h : node.Tokened tokens)
    (hsub : ∀ token ∈ tokens, token ∈ tokens') : node.Tokened tokens' := by
  refine ⟨fun hleaf offset hin => (h.content hleaf offset hin).mono hsub, fun element hk attr hattr => ?_⟩
  exact (h.attributes element hk attr hattr).mono hsub

theorem Node.Tokened.same {old node : Node} {tokens : List Token} (h : old.Tokened tokens) (hkind : node.kind = old.kind)
    (hspan : old.kind.hasContent = false → node.span = old.span) : node.Tokened tokens := by
  refine ⟨fun hleaf => ?_, fun element hk => h.attributes element (hkind ▸ hk)⟩
  rw [hkind] at hleaf
  rw [hspan hleaf]
  exact h.content hleaf

/-- A node goes on belonging to tokens whatever piece is added. -/
theorem Node.Tokened.becomes {old node : Node} {piece : Piece} {tokens : List Token} (h : old.Tokened tokens)
    (hbecomes : old.Becomes piece node) : node.Tokened tokens := by
  cases hbecomes with
  | same hkind hspan => exact h.same hkind hspan
  | tagged _ hold _ _ hkind =>
    refine ⟨fun hleaf => ?_, fun element hk => ?_⟩
    · rw [hkind] at hleaf
      cases hleaf
    · cases hkind.symm.trans hk
      have hattrs := h.attributes _ hold
      exact hattrs

/-- The node that a piece adds belongs to the tokens of the piece. -/
theorem Piece.ReadFrom.tokened {taken : List Char}
    {stream rest : Stream} {piece : Piece} (h : piece.ReadFrom language stream taken rest)
    {node : Node} (hspan : node.span = piece.span) (hadds : piece.Adds node.kind) : node.Tokened piece.tokens := by
  cases piece with
  | startTag tag =>
    obtain ⟨element, hk, _, hattrs, _⟩ := hadds
    refine ⟨fun hleaf => ?_, fun element' hk' attr hattr => ?_⟩
    · rw [hk] at hleaf
      cases hleaf
    · cases hk.symm.trans hk'
      rw [hattrs] at hattr
      obtain ⟨read, hread, rfl⟩ := List.mem_map.1 hattr
      refine read.tokened.mono fun token ht => ?_
      exact List.mem_append_left _ (List.mem_append_right _ (List.mem_flatMap.2 ⟨read, hread, ht⟩))
  | endTag => exact hadds.elim
  | _ =>
    refine ⟨fun _ offset hin => h.covered rfl (hspan ▸ hin), fun element hk => ?_⟩
    rw [hk] at hadds
    cases hadds

/-- The tokens tile what has been read after any number of steps. -/
theorem reading_tiled (language : Script.Language) (source : List Char) (steps : Nat) :
    Tiled source (Builder.reading language source steps).1 (Builder.reading language source steps).2 := by
  refine Builder.reading_steps language source (P := Tiled source) ⟨⟨[], Stream.Reads.refl _, Tiling.done 0⟩, ?_⟩ ?_ steps
  · intro id node hnode
    obtain ⟨_, rfl⟩ := Builder.start_nodes hnode
    exact ⟨fun hleaf => (by cases hleaf), fun element hk => (by cases hk)⟩
  · rintro builder stream piece taken rest ⟨⟨before, hbefore, htiling⟩, htokened⟩ hread hsteps
    refine ⟨⟨before ++ taken, hbefore.trans hread.reads, ?_⟩, ?_⟩
    · rw [hsteps.tokens]
      refine (htiling.mono fun _ _ _ _ hgap => ⟨hgap.1, hgap.2.steps hsteps⟩).append ?_
      have hoffset : 0 + byteLength before = stream.offset := hbefore.offset.symm
      rw [hoffset]
      refine hread.tiling.mono fun offset c hle hlt hgap => ⟨hgap.2, hread.inTag hbefore hsteps hgap.1 ?_⟩
      rw [hread.span]
      exact ⟨hle, hread.reads.offset ▸ hlt⟩
    · intro id node hnode
      rw [hsteps.tokens]
      rcases hsteps.cases hnode with ⟨old, hold, hbecomes⟩ | ⟨hspan, hadds⟩
      · exact ((htokened id old hold).becomes hbecomes).mono fun _ ht => List.mem_append_left _ ht
      · exact (hread.tokened hspan hadds).mono fun _ ht => List.mem_append_right _ ht

/-- What lies in a tag still does when what is open at the end of the file is closed. -/
theorem InTag.finish {source : List Char} {builder : Builder} (fileStop : Nat) (hshaped : Shaped builder.nodes builder.stack)
    {offset : Nat} (h : InTag source builder.nodes builder.problems.toList offset) :
    InTag source (builder.finish fileStop).nodes builder.problems.toList offset := by
  rcases h with ⟨id, old, element, hold, hk, hin⟩ | hproblem
  · obtain ⟨node, hnode, hkind, _⟩ := Builder.finish_old fileStop hshaped hold
    exact Or.inl ⟨id, node, element, hnode, hkind.trans hk, hin⟩
  · exact Or.inr hproblem

/-- The tokens of a file tile it, and its nodes belong to them. -/
theorem parse_tiled (language : Script.Language) (source : List Char) :
    Tiling (fun offset c => TagGap c ∧ InTag source (parse language source).1.nodes (parse language source).2 offset) 0 source
        (parse language source).1.tokens.toList ∧
      ∀ (id : Nat) node, (parse language source).1.nodes[id]? = some node →
        node.Tokened (parse language source).1.tokens.toList := by
  have hshaped := (Builder.reading_standing language source source.length).shaped
  obtain ⟨⟨before, hbefore, htiling⟩, htokened⟩ := reading_tiled language source source.length
  have hall : before = source := by
    have hchars := hbefore.chars
    rw [Builder.reading_end, List.append_nil] at hchars
    exact hchars.symm
  rw [hall] at htiling
  rw [parse_eq]
  refine ⟨htiling.mono fun _ _ _ _ hgap => ⟨hgap.1, hgap.2.finish _ hshaped⟩, fun id node hnode => ?_⟩
  obtain ⟨old, hold, hkind, hspan⟩ := Builder.of_finish hshaped hnode
  exact (htokened id old hold).same hkind hspan

/-- Every file is read to its end, and its tokens lose nothing but blanks and slashes inside tags. -/
theorem parse_lossless (language : Script.Language) (source : List Char) :
    ∃ built, Builder.reading language source source.length = (built, ⟨byteLength source, []⟩) ∧
      parse language source =
        (⟨source, (built.finish (byteLength source)).nodes, built.tokens⟩, built.problems.toList) ∧
      (parse language source).1.Lossless (parse language source).2 := by
  obtain ⟨htiling, htokened⟩ := parse_tiled language source
  refine ⟨_, Prod.ext rfl (Builder.reading_end language source), parse_eq language source,
    ⟨htiling.inFile, htiling.ordered, ?_, ?_, ?_⟩⟩
  · intro offset hlt hnot
    exact htiling.gap_byte hlt hnot
  · intro id node hnode
    exact (htokened id node hnode).content
  · intro id element helement
    obtain ⟨node, hnode, hk⟩ := Document.element?_eq_some_iff.1 helement
    exact (htokened id node hnode).attributes element hk

end ComponentLint.Markup
