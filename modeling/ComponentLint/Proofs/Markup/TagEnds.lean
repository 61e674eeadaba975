import ComponentLint.Proofs.Markup.EndTags
import ComponentLint.Proofs.Markup.Lossless
import ComponentLint.Proofs.Markup.Revisions
import ComponentLint.Proofs.Markup.TagGaps
import ComponentLint.Proofs.Markup.TagTokens

/-!
# How tags end

In a file without problems every tag ends with the token of its closing mark. The token before that one in the file ends where the
gap before the mark begins (`Document.ClosedBy`).

The tokens of a tag are its opening, what is inside it, and the token of its closing mark; only a tag that is
left open has no such token (`TagLaid`). So in every file, whatever its problems, the token before the mark
belongs to the same tag, and nothing but blanks and slashes stands between the two (`ClosedAfter`).
-/

namespace ComponentLint.Markup

open Text

/-! ## Tags of files without problems -/

/-- A tag of a file whose last token is `close`, before which `previous` is the last one that is not blank. -/
structure Document.ClosedBy (document : Document) (tag : Span) (previous close : Token) : Prop where
  last : (document.tokensIn tag).getLast? = some close
  before : document.lastTokenBefore? close.span.start = some previous

theorem SegmentOf.closedBy {document : Document} {tag : Span} {own : List Token} {previous close : Token}
    (h : SegmentOf document.tokens.toList tag (own ++ [previous, close])) (htag : tag.start ≤ tag.stop)
    (hordered : document.tokens.toList.Pairwise fun a b => a.span.stop ≤ b.span.start)
    (hne : ∀ token ∈ document.tokens.toList, token.span.start < token.span.stop) (hkind : previous.kind ≠ .whitespace) :
    document.ClosedBy tag previous close := by
  refine ⟨by simp [h.tokensIn_eq htag hne], ?_⟩
  obtain ⟨before, after, htokens, -⟩ := h
  replace htokens : document.tokens.toList = (before ++ own ++ [previous]) ++ close :: after := by simp [htokens]
  rw [htokens] at hordered hne
  obtain ⟨-, hbehind, hacross⟩ := List.pairwise_append.1 hordered
  have hclose := hne close (by simp)
  have hend : ((before ++ own ++ [previous]) ++ close :: after).takeWhile (·.span.stop ≤ close.span.start) =
      before ++ own ++ [previous] := by
    refine SegmentOf.takeWhile_append_eq (fun token ht => ?_) fun token ht => ?_
    · exact decide_eq_true (hacross token ht close List.mem_cons_self)
    · refine decide_eq_false (Nat.not_le_of_lt ?_)
      rcases List.mem_cons.1 ht with rfl | hafter
      · exact hclose
      · have hle := (List.pairwise_cons.1 hbehind).1 token hafter
        have hlt := hne token (List.mem_append_right _ ht)
        omega
  rw [Document.lastTokenBefore?, Document.tokensEndingBy, htokens, hend, List.take_left]
  simp [hkind]

namespace Builder

variable {language : Script.Language} {fileStop : Nat} {builder last : Builder} {stream rest : Stream} {source : List Char}

theorem add_tokens (builder : Builder) (fileStop : Nat) (piece : Piece) :
    (builder.add fileStop piece).tokens.toList = builder.tokens.toList ++ piece.tokens := by
  have hrecord : (builder.record fileStop piece).tokens.toList = builder.tokens.toList ++ piece.tokens := Array.toList_append
  rw [← hrecord]
  cases piece with
  | comment | text | interpolation => rfl
  | startTag tag =>
    rw [add, apply, startElement]
    split <;> rfl
  | endTag name span close =>
    rw [add, apply, endElement]
    dsimp only
    split
    · rw [foldl_closeAt]
      rfl
    · rfl
  | raw span =>
    rw [add, apply]
    split <;> rfl

/-- No token ends behind what has been read. -/
theorem kept_passed (fileStop : Nat) :
    Kept language fileStop fun builder stream => ∀ token ∈ builder.tokens.toList, token.span.stop ≤ stream.offset := by
  intro builder stream piece taken rest hpassed hread _ token ht
  rw [add_tokens] at ht
  rcases List.mem_append.1 ht with hold | hnew
  · exact Nat.le_trans (hpassed token hold) hread.reads.offset_le
  · exact (hread.token_within token hnew).2.2

/-- The tokens of what has been read stay those of its span. -/
theorem kept_segment (fileStop : Nat) (span : Span) (own : List Token) :
    Kept language fileStop fun builder stream => SegmentOf builder.tokens.toList span own ∧ span.stop ≤ stream.offset := by
  rintro builder stream piece taken rest ⟨hsegment, hle⟩ hread _
  rw [add_tokens]
  exact ⟨hsegment.append fun token ht => Nat.le_trans hle (hread.token_within token ht).1, Nat.le_trans hle hread.reads.offset_le⟩

/-- The tokens of a piece of a file are those of its span. -/
theorem Walks.segment {piece : Piece} {after : Stream} (h : Walks language fileStop builder stream (start fileStop) ⟨0, source⟩)
    (hne : stream.chars ≠ []) (hread : readPiece (builder.surroundings language) stream = (piece, after))
    (hrest : Walks language fileStop last rest (advance language fileStop builder stream).1
      (advance language fileStop builder stream).2) :
    SegmentOf last.tokens.toList piece.span piece.tokens := by
  have hpassed := h.kept (kept_passed fileStop) fun token ht => by cases ht
  obtain ⟨-, taken, hfrom⟩ := readPiece_readFrom (builder.surroundings language) hne
  refine (hrest.kept (kept_segment fileStop piece.span piece.tokens) (advance_of_added language (kept_segment fileStop _ _) ?_)).1
  rw [hread] at hfrom ⊢
  rw [add_tokens]
  exact ⟨hfrom.segment hpassed, Nat.le_of_eq (congrArg Span.stop hfrom.span)⟩

/-- A piece of a file that ends with two tokens is closed by the second. -/
theorem Walks.closedBy {piece : Piece} {after : Stream} {own : List Token} {previous close : Token}
    (h : Walks language (byteLength source) builder stream (start (byteLength source)) ⟨0, source⟩) (hne : stream.chars ≠ [])
    (hread : readPiece (builder.surroundings language) stream = (piece, after))
    (hwalk : Walks language (byteLength source) last ⟨byteLength source, []⟩ (start (byteLength source)) ⟨0, source⟩)
    (htokens : piece.tokens = own ++ [previous, close]) (hkind : previous.kind ≠ .whitespace) :
    (parse language source).1.ClosedBy piece.span previous close := by
  have hsegment : SegmentOf last.tokens.toList piece.span piece.tokens := by
    cases h.rest_of hwalk rfl with
    | done => exact absurd rfl hne
    | step _ hrest => exact h.segment hne hread hrest
  obtain ⟨-, taken, hfrom⟩ := readPiece_readFrom (builder.surroundings language) hne
  rw [hread] at hfrom
  obtain ⟨htiling, -⟩ := parse_tiled language source
  rw [htokens] at hsegment
  rw [hwalk.parse_eq] at htiling ⊢
  refine SegmentOf.closedBy hsegment ?_ htiling.pairwise (fun token ht => (htiling.token_within token ht).2.1) hkind
  rw [hfrom.span]
  exact hfrom.reads.offset_le

/-- The start tag of an element in parts: up to its last token, and the gap before its closing mark. -/
theorem Opens.exists_gap {id : Nat} {element : Element} {tag : ReadTag} {front inside tail : List Char}
    (h : Opens language source id element builder last tag front inside tail) :
    ∃ before gap, inside = before ++ gap ∧ tag.GapsAt (builder.surroundings language) before gap tail := by
  obtain ⟨before, gap, hchars, -, hgap⟩ := readStartTag_gapsAt h.read h.ended
  refine ⟨before, gap, ?_, hgap⟩
  rw [← List.append_assoc before] at hchars
  exact List.append_cancel_right hchars

/-- The gap of a start tag lies between its last two tokens. -/
theorem Opens.closedBy {id : Nat} {element : Element} {tag : ReadTag} {front before gap tail : List Char}
    (h : Opens language source id element builder last tag front (before ++ gap) tail)
    (hgap : tag.GapsAt (builder.surroundings language) before gap tail) :
    ∃ previous close, (parse language source).1.ClosedBy element.startTag.span previous close ∧
      previous.span.stop = byteLength (front ++ '<' :: before) ∧
      close.span.start = byteLength (front ++ '<' :: before) + byteLength gap ∧
      (close.kind = .tagClose ∨ close.kind = .tagSelfClose) := by
  obtain ⟨tokens, previous, htokens, hprevious, hkind⟩ := hgap.token
  obtain ⟨close, hclose, hmark⟩ : ∃ close, tag.ending.tokens tag.stop = [close] ∧
      close.span.start + byteLength tag.ending.mark = tag.stop ∧ (close.kind = .tagClose ∨ close.kind = .tagSelfClose) := by
    have hstop := h.stop_eq
    cases hending : tag.ending with
    | plain =>
      rw [hending] at hstop
      exact ⟨_, rfl, Nat.sub_add_cancel (by rw [hstop]; exact Nat.le_add_left _ _), Or.inl rfl⟩
    | selfClosing =>
      rw [hending] at hstop
      exact ⟨_, rfl, Nat.sub_add_cancel (by rw [hstop]; exact Nat.le_add_left _ _), Or.inr rfl⟩
    | missing => exact absurd hending h.ended
  have hspan : element.startTag.span = (Piece.startTag tag).span := by
    rw [h.element_eq]
    rfl
  have hlength := byteLength_open front before
  refine ⟨previous, close, ?_, ?_, ?_, hmark.2⟩
  · rw [hspan]
    exact h.upTo.closedBy (List.cons_ne_nil _ _) h.readTag h.walk (by rw [htokens, hclose]) hkind
  · rw [hprevious, h.start_eq, hlength]
  · have hstop := h.stop_eq
    have hwhole := hmark.1
    rw [byteLength_append] at hstop
    omega

/-- The gap of an end tag lies between its two tokens. -/
theorem Closes.closedBy {span : Span} {front name gap tail : List Char}
    (h : Closes language source span builder last front name gap tail) :
    ∃ previous close, (parse language source).1.ClosedBy span previous close ∧
      previous.span.stop = byteLength (front ++ '<' :: '/' :: name) ∧
      close.span.start = byteLength (front ++ '<' :: '/' :: name) + byteLength gap ∧ close.kind = .tagClose := by
  have hlength : byteLength (front ++ '<' :: '/' :: name) = byteLength front + 2 + byteLength name := by
    simp only [byteLength_append, byteLength_cons, show '<'.utf8Size = 1 from rfl, show '/'.utf8Size = 1 from rfl]
    omega
  have htokens : (Piece.wholeEndTag name gap (byteLength front)).tokens = [] ++
      [⟨.endTagOpen, ⟨byteLength front, byteLength front + 2 + byteLength name⟩⟩,
        ⟨.tagClose, ⟨byteLength front + 2 + byteLength name + byteLength gap,
          byteLength front + 2 + byteLength name + byteLength gap + 1⟩⟩] := by
    rw [Piece.wholeEndTag, Piece.tokens, spanning_of_lt _ (by omega)]
    rfl
  have hwalk := h.passes.upTo
  rw [endTag_append] at hwalk
  have hclosed := hwalk.closedBy (List.cons_ne_nil _ _) (readPiece_wholeEndTag h.isName h.gaps _ _ _) h.passes.walk htokens
    (by rintro ⟨⟩)
  rw [← h.span_eq] at hclosed
  exact ⟨_, _, hclosed, hlength.symm, congrArg (· + byteLength gap) hlength.symm, rfl⟩

end Builder

/-! ## Tags of all files -/

/-- The kinds of the tokens of a tag before its closing mark. -/
def TokenKind.InTag (kind : TokenKind) : Prop :=
  kind ≠ .whitespace ∧ kind ≠ .tagClose ∧ kind ≠ .tagSelfClose

/-- The token of the mark that ends a tag. -/
structure Token.Closes (source : List Char) (tag : Span) (close : Token) : Prop where
  stop : close.span.stop = tag.stop
  mark : close.kind = .tagClose ∧ slice source close.span = ['>'] ∨
    close.kind = .tagSelfClose ∧ slice source close.span = ['/', '>']

/-- A tag of an element that is left open: a start tag in which the file ends, which is a problem of the file, or an end tag whose
text does not end with the mark. -/
def Element.LeavesOpen (source : List Char) (problems : List Problem) (element : Element) (tag : Span) : Prop :=
  (tag = element.startTag.span ∧ tag.stop = byteLength source ∧ ⟨.unterminatedStartTag element.rawName, tag⟩ ∈ problems) ∨
    (element.endTag = some tag ∧ (slice source tag).getLast? ≠ some '>')

/-- The tokens of a tag, up to the token of its mark unless it is left open. -/
inductive Element.TagLaid (source : List Char) (problems : List Problem)
    (element : Element) (tag : Span) : List Token → Prop where
  | closed {inside : List Token} {close : Token} (hsome : inside ≠ []) (hinside : ∀ token ∈ inside, token.kind.InTag)
      (hclose : close.Closes source tag) : TagLaid source problems element tag (inside ++ [close])
  | left {inside : List Token} (hinside : ∀ token ∈ inside, token.kind.InTag)
      (hopen : element.LeavesOpen source problems tag) : TagLaid source problems element tag inside

/-! ## The tokens of one tag -/

theorem Attribute.LaidIn.inTag {source : List Char} {attr : Attribute} {tokens : List Token} (h : attr.LaidIn source tokens) :
    ∀ token ∈ tokens, token.kind.InTag := by
  have hkinds : TokenKind.attributeName.InTag ∧ TokenKind.attributeEquals.InTag ∧ TokenKind.attributeValue.InTag := by
    simp [TokenKind.InTag]
  obtain ⟨hname, hequals, hvalue⟩ := hkinds
  intro token htoken
  cases h with
  | plain =>
    rw [List.mem_singleton.1 htoken]
    exact hname
  | valued =>
    simp only [List.mem_cons] at htoken
    rcases htoken with rfl | rfl | htoken
    · exact hname
    · exact hequals
    · split at htoken
      · rw [List.mem_singleton.1 htoken]
        exact hvalue
      · cases htoken

theorem Element.StartLaid.tagLaid {source : List Char} {problems : List Problem} {element : Element} {tokens : List Token}
    (h : element.StartLaid source problems tokens) : element.TagLaid source problems element.startTag.span tokens := by
  obtain ⟨-, parts, closing, rfl, hparts, hclosing⟩ := h
  have hopening : TokenKind.tagOpen.InTag := by simp [TokenKind.InTag]
  have hattributes : ∀ token ∈ parts.flatten, token.kind.InTag := by
    intro token htoken
    obtain ⟨part, hpart, hmem⟩ := List.mem_flatten.1 htoken
    obtain ⟨place, hplace, rfl⟩ := List.getElem_of_mem hpart
    exact (List.forall₂_iff_get.1 hparts).2 place (hparts.length_eq ▸ hplace) hplace |>.inTag token hmem
  rw [← List.cons_append]
  cases hclosing with
  | plain _ htext => exact .closed nofun (List.forall_mem_cons.2 ⟨hopening, hattributes⟩) ⟨rfl, .inl ⟨rfl, htext⟩⟩
  | selfClosing _ htext => exact .closed nofun (List.forall_mem_cons.2 ⟨hopening, hattributes⟩) ⟨rfl, .inr ⟨rfl, htext⟩⟩
  | missing _ hstop hproblem =>
    rw [List.append_nil]
    exact .left (List.forall_mem_cons.2 ⟨hopening, hattributes⟩) (.inl ⟨rfl, hstop, hproblem⟩)

theorem EndTagLaid.inText {source : List Char} {span : Span} {tokens : List Token} (h : EndTagLaid source span tokens) :
    span.InText source := by
  obtain ⟨name, ⟨blanks, close, htext, -⟩, -⟩ := h
  refine inText_of_slice ?_
  simp [htext]

theorem EndTagLaid.tagLaid {source : List Char} {span : Span} {tokens : List Token} (h : EndTagLaid source span tokens)
    (problems : List Problem) {element : Element} (hend : element.endTag = some span) :
    element.TagLaid source problems span tokens := by
  obtain ⟨before, text, after, hsource, hspan⟩ := h.inText.parts
  have hslice : slice source span = text := by rw [hsource, hspan, slice_append]
  obtain ⟨name, -, rfl⟩ := h
  let opening : Token := ⟨.endTagOpen, ⟨span.start, span.start + 2 + byteLength name⟩⟩
  have hopening : ∀ token ∈ [opening], token.kind.InTag := by simp [opening, TokenKind.InTag]
  by_cases hlast : (slice source span).getLast? = some '>'
  · rw [if_pos hlast]
    have hmark : (before ++ text).getLast? = some '>' := by
      rw [← hslice, List.getLast?_append, hlast]
      rfl
    have hstop : span.stop = byteLength (before ++ text) := by rw [hspan, byteLength_append]
    have htext : slice source ⟨span.stop - 1, span.stop⟩ = ['>'] := by
      rw [hsource, ← List.append_assoc, hstop]
      exact slice_getLast hmark rfl after
    have hsome : [opening] ≠ [] := nofun
    exact .closed hsome hopening ⟨rfl, .inl ⟨rfl, htext⟩⟩
  · rw [if_neg hlast]
    exact .left hopening (.inr ⟨hend, hlast⟩)

theorem Element.StartLaid.isBoundary {source : List Char} {problems : List Problem} {element : Element} {tokens : List Token}
    (h : element.StartLaid source problems tokens) : isBoundary source element.startTag.span.start = true := by
  obtain ⟨hopening, -⟩ := h
  have hne : slice source ⟨element.startTag.span.start,
      element.startTag.span.start + 1 + byteLength element.rawName.toList⟩ ≠ [] := by
    simp [hopening]
  exact (inText_of_slice hne).start

/-! ## The tags of a file -/

/-- A tag of an element with the tokens that lie in it. -/
structure Document.HasTag (document : Document) (problems : List Problem) (element : Element) (tag : Span) (own : List Token) :
    Prop where
  ordered : tag.start ≤ tag.stop
  start : isBoundary document.source tag.start = true
  segment : SegmentOf document.tokens.toList tag own
  laid : element.TagLaid document.source problems tag own

theorem exists_hasTag (language : Script.Language) (source : List Char) {id : Nat} {element : Element} {tag : Span}
    (helement : (parse language source).1.element? id = some element)
    (htag : tag ∈ element.startTag.span :: element.endTag.toList) :
    ∃ own, (parse language source).1.HasTag (parse language source).2 element tag own := by
  have hlaid := (parse_elements_laid language source).2 id element helement
  have hsource : (parse language source).1.source = source := by rw [parse_eq]
  rcases List.mem_cons.1 htag with rfl | hend
  · obtain ⟨hordered, -, own, hsegment, hstart⟩ := hlaid.startTag
    exact ⟨own, hordered, hsource ▸ hstart.isBoundary, hsegment, hsource ▸ hstart.tagLaid⟩
  · obtain ⟨hordered, -, own, hsegment, hendTag⟩ := hlaid.endTag tag (Option.mem_toList.1 hend)
    exact ⟨own, hordered, hsource ▸ hendTag.inText.start, hsegment, hsource ▸ hendTag.tagLaid _ (Option.mem_toList.1 hend)⟩

/-- A tag of a file with the token of its mark and the token before it: between the two, only blanks and slashes. -/
structure Document.ClosedAfter
    (document : Document) (tag : Span) (previous close : Token) (before gap rest : List Char) : Prop where
  closes : close.Closes document.source tag
  closedBy : document.ClosedBy tag previous close
  inside : previous ∈ document.tokensIn tag ∧ tag.start ≤ previous.span.start ∧ previous.span.start < previous.span.stop
  source : document.source = before ++ (gap ++ rest)
  start : previous.span.stop = byteLength before
  stop : close.span.start = byteLength before + byteLength gap
  gaps : ∀ c ∈ gap, TagGap c

/-- The mark of a tag stands behind another token of the tag. -/
theorem exists_closedAfter (language : Script.Language) (source : List Char) {element : Element} {tag : Span}
    {inside : List Token} {close : Token}
    (h : (parse language source).1.HasTag (parse language source).2 element tag (inside ++ [close])) (hsome : inside ≠ [])
    (hinside : ∀ token ∈ inside, token.kind.InTag) (hclose : close.Closes (parse language source).1.source tag) :
    ∃ previous before gap rest, (parse language source).1.ClosedAfter tag previous close before gap rest := by
  obtain ⟨htiling, -⟩ := parse_tiled language source
  have hne := (parse_elements_laid language source).1
  have hsource : (parse language source).1.source = source := by rw [parse_eq]
  obtain ⟨inside, previous, rfl⟩ := (List.eq_nil_or_concat inside).resolve_left hsome
  have hown : inside ++ [previous] ++ [close] = inside ++ [previous, close] := by simp
  have hsegment := h.segment
  rw [List.concat_eq_append, hown] at hsegment
  have hclosedBy := hsegment.closedBy h.ordered htiling.pairwise hne (hinside previous (by simp)).1
  have hmem : previous ∈ inside ++ [previous, close] := by simp
  have htokensIn : previous ∈ (parse language source).1.tokensIn tag := by
    rw [hsegment.tokensIn_eq h.ordered hne]
    exact hmem
  obtain ⟨early, late, htokens, -, hlies, -⟩ := hsegment
  rw [htokens, List.append_assoc, List.append_assoc, ← List.append_assoc early] at htiling
  obtain ⟨before, gap, rest, hparts, hstart, hstop, hgaps⟩ := htiling.between
  refine ⟨previous, before, gap, rest, hclose, hclosedBy, ⟨htokensIn, (hlies previous hmem).1, hne previous ?_⟩, ?_, ?_, ?_, ?_⟩
  · rw [htokens]
    simp
  · rw [hsource, hparts]
  · rw [hstart, Nat.zero_add]
  · rw [hstop, Nat.zero_add, byteLength_append]
  · intro c hc
    obtain ⟨-, -, -, hgap, -⟩ := hgaps c hc
    exact hgap

end ComponentLint.Markup
