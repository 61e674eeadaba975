import ComponentLint.Proofs.Markup.Steps
import Mathlib.Data.List.Forall2

/-!
# Tags and their tokens

The tokens of a tag and the parts of its element are written down by different steps of the same readers. Here they are
shown to agree: `Element.StartLaid` lists the tokens of a start tag attribute by attribute, and `EndTagLaid` those of an end
tag. No other token lies in a tag (`SegmentOf`), so the tokens found in its span are exactly these.
-/

namespace ComponentLint.Markup

open Text

variable {language : Script.Language}

/-- Whether a token lies in a span. -/
def Token.inside (span : Span) (token : Token) : Bool :=
  span.start ≤ token.span.start && token.span.stop ≤ span.stop

/-- A value whose spans are those of its text: with its quotes, of which the second is missing where the file ends, and
without them. -/
structure AttributeValue.LaidIn (source : List Char) (value : AttributeValue) : Prop where
  raw : value.raw.toList = slice source value.valueSpan
  ordered : value.span.start ≤ value.valueSpan.start ∧ value.valueSpan.start ≤ value.valueSpan.stop ∧
    value.valueSpan.stop ≤ value.span.stop
  bare : value.quote = none → value.span = value.valueSpan
  quoted : ∀ quote, value.quote = some quote → (quote = '"' ∨ quote = '\'') ∧ quote ∉ value.raw.toList ∧
    value.span.start + 1 = value.valueSpan.start ∧ slice source ⟨value.span.start, value.valueSpan.start⟩ = [quote] ∧
    ((value.span.stop = value.valueSpan.stop + 1 ∧ slice source ⟨value.valueSpan.stop, value.span.stop⟩ = [quote]) ∨
      (value.span.stop = value.valueSpan.stop ∧ value.valueSpan.stop = byteLength source))

/-- The tokens of an attribute: its name, and if it has a value, the equals sign and the value unless that is empty. -/
inductive Attribute.LaidIn (source : List Char) (attr : Attribute) : List Token → Prop where
  | plain (hvalue : attr.value = none) : LaidIn source attr [⟨.attributeName, attr.key.span⟩]
  | valued {value : AttributeValue} {sign : Nat} (hvalue : attr.value = some value) (hbefore : attr.key.span.stop ≤ sign)
      (hsign : slice source ⟨sign, sign + 1⟩ = ['=']) (hafter : sign + 1 ≤ value.span.start) (hlaid : value.LaidIn source) :
      LaidIn source attr (⟨.attributeName, attr.key.span⟩ :: ⟨.attributeEquals, ⟨sign, sign + 1⟩⟩ ::
        if value.span.start < value.span.stop then [⟨.attributeValue, value.span⟩] else [])

/-- The tokens that end a start tag: one mark, which tells whether the tag closes itself, or none where the file ends inside
the tag and this is reported. -/
inductive StartTag.ClosingLaid (source : List Char) (problems : List Problem) (rawName : String) (tag : StartTag) :
    List Token → Prop where
  | plain (hself : tag.selfClosing = false) (htext : slice source ⟨tag.span.stop - 1, tag.span.stop⟩ = ['>']) :
      ClosingLaid source problems rawName tag [⟨.tagClose, ⟨tag.span.stop - 1, tag.span.stop⟩⟩]
  | selfClosing (hself : tag.selfClosing = true) (htext : slice source ⟨tag.span.stop - 2, tag.span.stop⟩ = ['/', '>']) :
      ClosingLaid source problems rawName tag [⟨.tagSelfClose, ⟨tag.span.stop - 2, tag.span.stop⟩⟩]
  | missing (hself : tag.selfClosing = false) (hstop : tag.span.stop = byteLength source)
      (hproblem : ⟨.unterminatedStartTag rawName, tag.span⟩ ∈ problems) : ClosingLaid source problems rawName tag []

/-- The tokens of a start tag: its opening with the name, those of its attributes in order, and those of its end. -/
def Element.StartLaid (source : List Char) (problems : List Problem) (element : Element) (tokens : List Token) : Prop :=
  let opening : Span := ⟨element.startTag.span.start, element.startTag.span.start + 1 + byteLength element.rawName.toList⟩
  slice source opening = '<' :: element.rawName.toList ∧
    ∃ parts closing, tokens = ⟨.tagOpen, opening⟩ :: (parts.flatten ++ closing) ∧
      List.Forall₂ (Attribute.LaidIn source) element.attributes parts ∧
      element.startTag.ClosingLaid source problems element.rawName closing

/-- The tokens of an end tag: its opening with the name, and its closing mark if its text ends with one. -/
def EndTagLaid (source : List Char) (span : Span) (tokens : List Token) : Prop :=
  ∃ name, EndTagText name (slice source span) ∧
    tokens = ⟨.endTagOpen, ⟨span.start, span.start + 2 + byteLength name⟩⟩ ::
      if (slice source span).getLast? = some '>' then [⟨.tagClose, ⟨span.stop - 1, span.stop⟩⟩] else []

/-- The tokens of a file that lie in a span. -/
def Document.tokensInside (document : Document) (span : Span) : List Token :=
  document.tokens.toList.filter (Token.inside span)

/-- A file whose tags have the tokens that their elements tell, and no others. -/
structure Document.TagTokens (document : Document) (problems : List Problem) : Prop where
  startTag : ∀ (id : Nat) element, document.element? id = some element →
    document.tokensIn element.startTag.span = document.tokensInside element.startTag.span ∧
      element.StartLaid document.source problems (document.tokensInside element.startTag.span)
  endTag : ∀ (id : Nat) element tag, document.element? id = some element → element.endTag = some tag →
    document.tokensIn tag = document.tokensInside tag ∧ EndTagLaid document.source tag (document.tokensInside tag)

/-! ## Tokens of a span -/

/-- Tokens of which some lie in a span, those before them end before it, and those behind them start behind it. -/
def SegmentOf (tokens : List Token) (span : Span) (own : List Token) : Prop :=
  ∃ before after, tokens = before ++ own ++ after ∧ (∀ token ∈ before, token.span.stop ≤ span.start) ∧
    (∀ token ∈ own, span.start ≤ token.span.start ∧ token.span.stop ≤ span.stop) ∧
    ∀ token ∈ after, span.stop ≤ token.span.start

namespace SegmentOf

variable {tokens own : List Token} {span : Span}

theorem append (h : SegmentOf tokens span own) {more : List Token} (hmore : ∀ token ∈ more, span.stop ≤ token.span.start) :
    SegmentOf (tokens ++ more) span own := by
  obtain ⟨before, after, rfl, hbefore, hown, hafter⟩ := h
  refine ⟨before, after ++ more, by simp, hbefore, hown, fun token ht => ?_⟩
  rcases List.mem_append.1 ht with ht | ht
  · exact hafter token ht
  · exact hmore token ht

/-- The tokens of the span are those that lie in it. -/
theorem filter_eq (h : SegmentOf tokens span own) (hne : ∀ token ∈ tokens, token.span.start < token.span.stop) :
    tokens.filter (Token.inside span) = own := by
  obtain ⟨before, after, rfl, hbefore, hown, hafter⟩ := h
  have hfront : before.filter (Token.inside span) = [] := by
    refine List.filter_eq_nil_iff.2 fun token ht => ?_
    have hlt := hne token (by simp [ht])
    have hle := hbefore token ht
    simp only [Token.inside, Bool.and_eq_true, decide_eq_true_eq]
    omega
  have hback : after.filter (Token.inside span) = [] := by
    refine List.filter_eq_nil_iff.2 fun token ht => ?_
    have hlt := hne token (by simp [ht])
    have hle := hafter token ht
    simp only [Token.inside, Bool.and_eq_true, decide_eq_true_eq]
    omega
  have hmiddle : own.filter (Token.inside span) = own := by
    refine List.filter_eq_self.2 fun token ht => ?_
    simpa [Token.inside] using hown token ht
  rw [List.filter_append, List.filter_append, hfront, hback, hmiddle, List.nil_append, List.append_nil]

/-- A list starts with what passes a test up to where nothing does. -/
theorem takeWhile_append_eq {α : Type} {test : α → Bool} {front back : List α} (hfront : ∀ a ∈ front, test a = true)
    (hback : ∀ a ∈ back, test a = false) : (front ++ back).takeWhile test = front :=
  (takeWhile_run hfront fun a ha => hback a (List.mem_of_mem_head? ha)).1

/-- The tokens of the span are those that are found by counting from its two ends. -/
theorem tokensIn_eq {document : Document} (h : SegmentOf document.tokens.toList span own) (hspan : span.start ≤ span.stop)
    (hne : ∀ token ∈ document.tokens.toList, token.span.start < token.span.stop) : document.tokensIn span = own := by
  obtain ⟨before, after, htokens, hbefore, hown, hafter⟩ := h
  rw [Document.tokensIn, Document.tokensEndingBy, Document.tokenIndexAt]
  rw [htokens] at hne ⊢
  have hend : (before ++ own ++ after).takeWhile (·.span.stop ≤ span.stop) = before ++ own := by
    refine takeWhile_append_eq (fun token ht => ?_) fun token ht => ?_
    · rcases List.mem_append.1 ht with ht | ht
      · exact decide_eq_true (Nat.le_trans (hbefore token ht) hspan)
      · exact decide_eq_true (hown token ht).2
    · have hlt := hne token (by simp [ht])
      have hle := hafter token ht
      exact decide_eq_false (by omega)
  have hstart : (before ++ own ++ after).takeWhile (·.span.start < span.start) = before := by
    rw [List.append_assoc]
    refine takeWhile_append_eq (fun token ht => ?_) fun token ht => ?_
    · have hlt := hne token (by simp [ht])
      have hle := hbefore token ht
      exact decide_eq_true (by omega)
    · rcases List.mem_append.1 ht with ht | ht
      · exact decide_eq_false (Nat.not_lt_of_le (hown token ht).1)
      · have hle := hafter token ht
        exact decide_eq_false (by omega)
  rw [hend, hstart, List.take_left, List.drop_left]

end SegmentOf

theorem Piece.ReadFrom.token_within {piece : Piece} {stream rest : Stream} {taken : List Char}
    (h : piece.ReadFrom language stream taken rest) :
    ∀ token ∈ piece.tokens, stream.offset ≤ token.span.start ∧ token.span.start < token.span.stop ∧
      token.span.stop ≤ rest.offset := by
  intro token ht
  rw [h.reads.offset]
  exact h.tiling.token_within token ht

/-- The tokens of a piece that is read are the last ones, so they are those of its span. -/
theorem Piece.ReadFrom.segment {piece : Piece} {stream rest : Stream} {taken : List Char} {tokens : List Token}
    (h : piece.ReadFrom language stream taken rest) (hpassed : ∀ token ∈ tokens, token.span.stop ≤ stream.offset) :
    SegmentOf (tokens ++ piece.tokens) piece.span piece.tokens := by
  refine ⟨tokens, [], by simp, fun token ht => ?_, fun token ht => ?_, by simp⟩
  · rw [h.span]
    exact hpassed token ht
  · rw [h.span]
    exact ⟨(h.token_within token ht).1, (h.token_within token ht).2.2⟩

/-! ## From readers to texts -/

section Reading

variable {source : List Char} {stream : Stream}

theorem slice_of_reads (hstream : Stream.Before ⟨0, source⟩ stream) {taken : List Char} {rest : Stream}
    (h : stream.Reads taken rest) : slice source ⟨stream.offset, rest.offset⟩ = taken := by
  obtain ⟨before, hbefore⟩ := hstream
  exact hbefore.slice h

/-- What is left of a file is nothing only at its end. -/
theorem offset_of_end (hstream : Stream.Before ⟨0, source⟩ stream) (hend : stream.chars = []) :
    stream.offset = byteLength source := by
  obtain ⟨before, hbefore⟩ := hstream
  have hchars := hbefore.chars
  rw [hend, List.append_nil] at hchars
  have hoffset := hbefore.offset
  rw [← hchars] at hoffset
  simpa using hoffset

theorem AttributeValue.StandsAt.laidIn (hstream : Stream.Before ⟨0, source⟩ stream) {value : AttributeValue}
    (h : value.StandsAt stream) : value.LaidIn source := by
  cases h with
  | @bare inner rest hreads hquote hspan hvalue hraw =>
    refine ⟨?_, ?_, fun _ => hvalue.symm, fun quote hsome => ?_⟩
    · rw [hvalue, hspan, slice_of_reads hstream hreads, hraw, String.toList_ofList]
    · have hle := hreads.offset_le
      rw [hvalue, hspan]
      exact ⟨Nat.le_refl _, hle, Nat.le_refl _⟩
    · rw [hquote] at hsome
      cases hsome
  | @quoted quote inner opened closed hmark hopen hinner hnot hquote hvalue hraw hstart hclose =>
    have hopened := hstream.trans hopen.before
    have hclosed := hopened.trans hinner.before
    have hsize : byteLength [quote] = 1 := by rcases hmark with rfl | rfl <;> rfl
    have hopenAt := hopen.offset
    have hinnerLe := hinner.offset_le
    have hstops : (value.span.stop = value.valueSpan.stop + 1 ∧
        slice source ⟨value.valueSpan.stop, value.span.stop⟩ = [quote]) ∨
        (value.span.stop = value.valueSpan.stop ∧ value.valueSpan.stop = byteLength source) := by
      rw [hvalue]
      rcases hclose with ⟨rest, hrest, hstop⟩ | ⟨hend, hstop⟩
      · rw [hstop, slice_of_reads hclosed hrest]
        have hoffset := hrest.offset
        exact .inl ⟨by dsimp only; omega, rfl⟩
      · exact .inr ⟨hstop, offset_of_end hclosed hend⟩
    have hordered : value.span.start ≤ value.valueSpan.start ∧ value.valueSpan.start ≤ value.valueSpan.stop ∧
        value.valueSpan.stop ≤ value.span.stop := by
      refine ⟨?_, ?_, ?_⟩
      · rw [hvalue, hstart]
        exact hopen.offset_le
      · rw [hvalue]
        exact hinnerLe
      · omega
    refine ⟨?_, hordered, fun hnone => ?_, fun other hother => ?_⟩
    · rw [hvalue, slice_of_reads hopened hinner, hraw, String.toList_ofList]
    · rw [hquote] at hnone
      cases hnone
    · obtain rfl : quote = other := Option.some.inj (hquote.symm.trans hother)
      refine ⟨hmark, ?_, ?_, ?_, hstops⟩
      · rw [hraw, String.toList_ofList]
        exact hnot
      · rw [hvalue, hstart]
        dsimp only
        omega
      · rw [hvalue, hstart]
        exact slice_of_reads hstream hopen

theorem ReadAttribute.LaidFrom.laidIn (hstream : Stream.Before ⟨0, source⟩ stream) {read : ReadAttribute}
    (h : read.LaidFrom language stream) : read.attr.LaidIn source read.tokens := by
  have hname : ∀ {name : List Char} {rest : Stream}, stream.Reads name rest → name ≠ [] →
      read.attr.key.span = ⟨stream.offset, rest.offset⟩ →
      Token.spanning .attributeName read.attr.key.span.start read.attr.key.span.stop =
        [⟨.attributeName, read.attr.key.span⟩] := by
    intro name rest hreads hne hkey
    have hpos := (byteLength_pos_iff name).2 hne
    have hoffset := hreads.offset
    rw [hkey, Token.spanning, if_pos (by dsimp only; omega)]
  cases h with
  | plain hreads hne hkey hequals hvalue =>
    rw [ReadAttribute.tokens, hname hreads hne hkey, hequals, hvalue]
    exact .plain hvalue
  | @valued name afterName sign afterSign place value hreads hne hkey hbefore hsign hequals hafter hvalue hstands =>
    have hsignAt := (hstream.trans hreads.before).trans hbefore
    have hplace := (hsignAt.trans hsign.before).trans hafter
    have hsize : afterSign.offset = sign.offset + 1 := hsign.offset
    have hstart := hstands.start
    rw [ReadAttribute.tokens, hname hreads hne hkey, hequals, hvalue]
    refine .valued hvalue ?_ ?_ ?_ (hstands.laidIn hplace)
    · rw [hkey]
      exact hbefore.offset_le
    · rw [← hsize]
      exact slice_of_reads hsignAt hsign
    · rw [hstart, ← hsize]
      exact hafter.offset_le

/-- The tokens of a start tag are those of the element that it adds. -/
theorem Piece.ReadFrom.startLaid (hstream : Stream.Before ⟨0, source⟩ stream) {tag : ReadTag} {taken : List Char}
    {rest : Stream} (h : (Piece.startTag tag).ReadFrom language stream taken rest) {element : Element}
    (hadds : (Piece.startTag tag).Adds (.element element)) {problems : List Problem}
    (hproblems : ∀ problem ∈ (Piece.startTag tag).problems (byteLength source), problem ∈ problems) :
    element.StartLaid source problems (Piece.startTag tag).tokens := by
  obtain ⟨_, hkind, ⟨hspan, hself⟩, hattrs, _, hname⟩ := hadds
  obtain rfl := NodeKind.element.inj hkind
  obtain ⟨⟨afterName, hopen⟩, hparts, ⟨after, hending, hstop⟩, _⟩ := h.parts
  have hstart : tag.start = stream.offset := congrArg Span.start h.span
  have hraw : element.rawName.toList = tag.rawName := by rw [hname, String.toList_ofList]
  have hopenAt : afterName.offset = tag.start + 1 + byteLength tag.rawName := by
    rw [hopen.offset, hstart, byteLength_cons, ← Nat.add_assoc]
    rfl
  refine ⟨?_, tag.attributes.map (·.tokens), tag.ending.tokens tag.stop, ?_, ?_, ?_⟩
  · rw [hspan, hraw, ← hopenAt, hstart]
    exact slice_of_reads hstream hopen
  · rw [hspan, hraw, Piece.tokens, Token.spanning, if_pos (by omega), List.flatMap_def, List.append_assoc]
    rfl
  · rw [hattrs, List.forall₂_map_left_iff, List.forall₂_map_right_iff, List.forall₂_same]
    intro read hread
    obtain ⟨here, hhere, _, hlaid⟩ := hparts read hread
    exact hlaid.laidIn (hstream.trans hhere)
  · have hspanStop : element.startTag.span.stop = tag.stop := by rw [hspan]
    cases hcase : tag.ending with
    | plain =>
      rw [hcase] at hending hself
      cases hending with
      | @plain mark _ hmark hreads =>
        have hoffset : after.offset = mark.offset + 1 := hreads.offset
        have htokens : (TagEnd.plain).tokens tag.stop =
            [⟨.tagClose, ⟨element.startTag.span.stop - 1, element.startTag.span.stop⟩⟩] := by
          rw [hspanStop]
          rfl
        rw [htokens]
        refine .plain hself ?_
        rw [hspanStop, hstop, show after.offset - 1 = mark.offset by omega]
        exact slice_of_reads (hstream.trans hmark) hreads
    | selfClosing =>
      rw [hcase] at hending hself
      cases hending with
      | @selfClosing mark _ hmark hreads =>
        have hoffset : after.offset = mark.offset + 2 := hreads.offset
        have htokens : (TagEnd.selfClosing).tokens tag.stop =
            [⟨.tagSelfClose, ⟨element.startTag.span.stop - 2, element.startTag.span.stop⟩⟩] := by
          rw [hspanStop]
          rfl
        rw [htokens]
        refine .selfClosing hself ?_
        rw [hspanStop, hstop, show after.offset - 2 = mark.offset by omega]
        exact slice_of_reads (hstream.trans hmark) hreads
    | missing =>
      rw [hcase] at hending hself
      cases hending with
      | missing hrest hend =>
        refine .missing hself ?_ (hproblems _ ?_)
        · rw [hspanStop, hstop]
          exact offset_of_end (hstream.trans hrest) hend
        · rw [hname, hspan]
          simp [Piece.problems, hcase]

/-- What is read up to an offset is determined by it. -/
theorem taken_unique {taken taken' : List Char} {rest rest' : Stream} (h : stream.Reads taken rest)
    (h' : stream.Reads taken' rest') (hoffset : rest.offset = rest'.offset) : taken = taken' := by
  have hlength : byteLength taken = byteLength taken' := by
    have hfirst := h.offset
    have hsecond := h'.offset
    omega
  have hsplit := splitAt?_byteLength taken rest.chars
  rw [← h.chars, h'.chars, hlength, splitAt?_byteLength] at hsplit
  exact (Prod.mk.inj (Option.some.inj hsplit)).1.symm

/-- An end tag without its closing mark does not end with one. -/
theorem getLast?_unclosed {name blanks : List Char} (hname : ∀ c ∈ name, isAsciiSpace c = false ∧ c ≠ '>')
    (hblanks : ∀ c ∈ blanks, isAsciiSpace c = true) : (['<', '/'] ++ name ++ blanks).getLast? ≠ some '>' := by
  intro hlast
  rw [List.append_assoc, List.getLast?_append, List.getLast?_append] at hlast
  have hcases : ∀ c, (blanks.getLast?.or name.getLast?) = some c → c ≠ '>' := by
    intro c hc
    rcases Option.or_eq_some_iff.1 hc with hc | ⟨_, hc⟩
    · have hblank := hblanks c (List.mem_of_getLast? hc)
      rintro rfl
      exact absurd hblank (by decide)
    · exact (hname c (List.mem_of_getLast? hc)).2
  rcases Option.or_eq_some_iff.1 hlast with hc | ⟨_, hc⟩
  · exact hcases _ hc rfl
  · exact absurd hc (by decide)

/-- The tokens of an end tag are those of its text. -/
theorem Piece.ReadFrom.endTagLaid (hstream : Stream.Before ⟨0, source⟩ stream) {name taken : List Char} {span : Span}
    {close : Option Nat} {rest : Stream} (h : (Piece.endTag name span close).ReadFrom language stream taken rest) :
    EndTagLaid source span (Piece.endTag name span close).tokens := by
  have hspan : span = ⟨stream.offset, rest.offset⟩ := h.span
  have htext : slice source span = taken := hspan ▸ slice_of_reads hstream h.reads
  have hform : EndTagText name taken := h.form
  obtain ⟨_, _, _, hname, _, _⟩ := hform
  obtain ⟨blanks, mark, hreads, hblanks, hclose⟩ := h.parts
  refine ⟨name, htext.symm ▸ h.form, ?_⟩
  simp only [Piece.tokens]
  rw [Token.spanning, if_pos (by omega), htext]
  rcases hclose with ⟨rfl, after, hmark, hstop⟩ | ⟨rfl, hstop⟩
  · have htaken : taken = ['<', '/'] ++ name ++ blanks ++ ['>'] :=
      taken_unique h.reads (hreads.trans hmark) (by rw [← hstop, hspan])
    have hoffset : after.offset = mark.offset + 1 := hmark.offset
    rw [htaken, List.getLast?_concat, if_pos rfl, hstop, hoffset, Nat.add_sub_cancel]
    rfl
  · have htaken : taken = ['<', '/'] ++ name ++ blanks := taken_unique h.reads hreads (by rw [← hstop, hspan])
    rw [htaken, if_neg (getLast?_unclosed hname hblanks)]
    rfl

end Reading

/-! ## Whole files -/

namespace Builder

theorem mem_problems_apply {builder : Builder} {problem : Problem} (h : problem ∈ builder.problems.toList) (piece : Piece) :
    problem ∈ (builder.apply piece).problems.toList := by
  cases piece with
  | comment span closed => exact h
  | text start chars => exact h
  | interpolation content inner => exact h
  | endTag name span close =>
    simp only [apply, endElement]
    split
    · rw [foldl_closeAt]
      exact h
    · simp [h]
  | startTag tag =>
    simp only [apply, startElement]
    split
    · exact h
    · exact h
  | raw span =>
    simp only [apply]
    split
    · exact h
    · exact h

/-- The problems of a piece are reported when it is added. -/
theorem mem_problems_add (builder : Builder) {fileStop : Nat} {piece : Piece} {problem : Problem}
    (h : problem ∈ piece.problems fileStop) : problem ∈ (builder.add fileStop piece).problems.toList := by
  refine mem_problems_apply ?_ piece
  rw [record, Array.toList_append]
  exact List.mem_append_right _ h

end Builder

/-- An element whose tags have their tokens in a file that has been read up to an offset. -/
structure Element.TagsLaid (source : List Char) (tokens : List Token) (problems : List Problem) (offset : Nat)
    (element : Element) : Prop where
  startTag : element.startTag.span.start ≤ element.startTag.span.stop ∧ element.startTag.span.stop ≤ offset ∧
    ∃ own, SegmentOf tokens element.startTag.span own ∧ element.StartLaid source problems own
  endTag : ∀ tag, element.endTag = some tag → tag.start ≤ tag.stop ∧ tag.stop ≤ offset ∧
    ∃ own, SegmentOf tokens tag own ∧ EndTagLaid source tag own

theorem Element.StartLaid.mono {source : List Char} {problems problems' : List Problem} {element : Element}
    {tokens : List Token} (h : element.StartLaid source problems tokens)
    (hsub : ∀ problem ∈ problems, problem ∈ problems') : element.StartLaid source problems' tokens := by
  obtain ⟨hopen, parts, closing, htokens, hparts, hclosing⟩ := h
  refine ⟨hopen, parts, closing, htokens, hparts, ?_⟩
  cases hclosing with
  | plain hself htext => exact .plain hself htext
  | selfClosing hself htext => exact .selfClosing hself htext
  | missing hself hstop hproblem => exact .missing hself hstop (hsub _ hproblem)

/-- The tokens of a piece that is added behind an element leave its tags alone. -/
theorem Element.TagsLaid.grow {source : List Char} {tokens more : List Token} {problems problems' : List Problem}
    {offset offset' : Nat} {element : Element} (h : element.TagsLaid source tokens problems offset)
    (hmore : ∀ token ∈ more, offset ≤ token.span.start) (hsub : ∀ problem ∈ problems, problem ∈ problems')
    (hle : offset ≤ offset') : element.TagsLaid source (tokens ++ more) problems' offset' := by
  refine ⟨?_, fun tag htag => ?_⟩
  · obtain ⟨hordered, hstop, own, hsegment, hlaid⟩ := h.startTag
    refine ⟨hordered, Nat.le_trans hstop hle, own, hsegment.append fun token ht => ?_, hlaid.mono hsub⟩
    exact Nat.le_trans hstop (hmore token ht)
  · obtain ⟨hordered, hstop, own, hsegment, hlaid⟩ := h.endTag tag htag
    refine ⟨hordered, Nat.le_trans hstop hle, own, hsegment.append fun token ht => ?_, hlaid⟩
    exact Nat.le_trans hstop (hmore token ht)

/-- The invariant on the tags of a file that has been read up to a place. -/
structure TagsLaid (source : List Char) (builder : Builder) (stream : Stream) : Prop where
  reads : Stream.Before ⟨0, source⟩ stream
  passed : ∀ token ∈ builder.tokens.toList, token.span.start < token.span.stop ∧ token.span.stop ≤ stream.offset
  elements : ∀ (id : Nat) node element, builder.nodes[id]? = some node → node.kind = .element element →
    element.TagsLaid source builder.tokens.toList builder.problems.toList stream.offset

/-- Adding a piece keeps the tokens of all tags in place. -/
theorem TagsLaid.add {source : List Char} {builder : Builder} {stream rest : Stream} {piece : Piece} {taken : List Char}
    (h : TagsLaid source builder stream) (hread : piece.ReadFrom language stream taken rest)
    (hsteps : builder.Steps piece (builder.add (byteLength source) piece)) :
    TagsLaid source (builder.add (byteLength source) piece) rest := by
  have hle := hread.reads.offset_le
  have hown := hread.token_within
  have hsegment : SegmentOf (builder.tokens.toList ++ piece.tokens) piece.span piece.tokens :=
    hread.segment fun token ht => (h.passed token ht).2
  have hgrow : ∀ {element : Element}, element.TagsLaid source builder.tokens.toList builder.problems.toList stream.offset →
      element.TagsLaid source (builder.tokens.toList ++ piece.tokens)
        (builder.add (byteLength source) piece).problems.toList rest.offset :=
    fun hlaid => hlaid.grow (fun token ht => (hown token ht).1) hsteps.problems hle
  refine ⟨h.reads.trans hread.reads.before, ?_, ?_⟩
  · rw [hsteps.tokens]
    intro token ht
    rcases List.mem_append.1 ht with ht | ht
    · exact ⟨(h.passed token ht).1, Nat.le_trans (h.passed token ht).2 hle⟩
    · exact (hown token ht).2
  · intro id node element hnode hk
    rw [hsteps.tokens]
    rcases hsteps.cases hnode with ⟨old, hold, hbecomes⟩ | ⟨hspan, hadds⟩
    · cases hbecomes with
      | same hkind _ => exact hgrow (h.elements id old element hold (hkind ▸ hk))
      | @tagged name span close before hpiece hkind _ _ hafter =>
        obtain rfl := NodeKind.element.inj (hafter.symm.trans hk)
        have hlaid := hgrow (h.elements id old before hold hkind)
        refine ⟨hlaid.startTag, fun tag htag => ?_⟩
        obtain rfl : span = tag := Option.some.inj htag
        subst hpiece
        have hspan : span = ⟨stream.offset, rest.offset⟩ := hread.span
        exact ⟨hspan ▸ hle, Nat.le_of_eq (congrArg Span.stop hspan), _, hsegment, hread.endTagLaid h.reads⟩
    · cases piece with
      | startTag tag =>
        rw [hk] at hadds
        have hlaid := hread.startLaid h.reads hadds fun problem hp => builder.mem_problems_add hp
        obtain ⟨_, hkind, ⟨hstart, _⟩, _, hopen, _⟩ := hadds
        obtain rfl := NodeKind.element.inj hkind
        have hpiece : element.startTag.span = ⟨stream.offset, rest.offset⟩ := hstart.trans hread.span
        refine ⟨⟨hpiece ▸ hle, Nat.le_of_eq (congrArg Span.stop hpiece), _, ?_, hlaid⟩, fun tag htag => ?_⟩
        · rw [hstart]
          exact hsegment
        · rw [hopen] at htag
          cases htag
      | endTag => exact hadds.elim
      | comment | text | interpolation | raw =>
        rw [hk] at hadds
        cases hadds

/-- The tokens of tags are in place after any number of steps. -/
theorem reading_tagsLaid (language : Script.Language) (source : List Char) (steps : Nat) :
    TagsLaid source (Builder.reading language source steps).1 (Builder.reading language source steps).2 := by
  refine Builder.reading_steps language source (P := TagsLaid source) ⟨.refl _, ?_, ?_⟩ ?_ steps
  · intro token ht
    cases ht
  · intro id node element hnode hk
    obtain ⟨_, rfl⟩ := Builder.start_nodes hnode
    cases hk
  · intro builder stream piece taken rest h hread hsteps
    exact h.add hread hsteps

/-- The tags of every element of a file have their tokens in place. -/
theorem parse_elements_laid (language : Script.Language) (source : List Char) :
    (∀ token ∈ (parse language source).1.tokens.toList, token.span.start < token.span.stop) ∧
      ∀ (id : Nat) element, (parse language source).1.element? id = some element →
        element.TagsLaid source (parse language source).1.tokens.toList (parse language source).2 (byteLength source) := by
  have hshaped := (Builder.reading_standing language source source.length).shaped
  have hlaid := reading_tagsLaid language source source.length
  rw [Builder.reading_end] at hlaid
  rw [parse_eq]
  refine ⟨fun token ht => (hlaid.passed token ht).1, fun id element helement => ?_⟩
  obtain ⟨node, hnode, hk⟩ := Document.element?_eq_some_iff.1 helement
  obtain ⟨old, hold, hkind, _⟩ := Builder.of_finish hshaped hnode
  exact hlaid.elements id old element hold (hkind ▸ hk)

/-- Tokens and tree agree on every tag of every file. The tokens in the span of a start tag are its opening with the name as
written, for each attribute its name and, with a value, the equals sign and the value unless that is empty, and one closing
mark unless the file ends inside the tag; the tokens in the span of an end tag are its opening and the closing mark if it has
one. Values are the text of their spans, between their quotes. -/
theorem parse_tagTokens (language : Script.Language) (source : List Char) :
    (parse language source).1.TagTokens (parse language source).2 := by
  obtain ⟨hne, helements⟩ := parse_elements_laid language source
  have hsource : (parse language source).1.source = source := by rw [parse_eq]
  refine ⟨fun id element helement => ?_, fun id element tag helement htag => ?_⟩
  · obtain ⟨hordered, _, own, hsegment, hlaid⟩ := (helements id element helement).startTag
    rw [Document.tokensInside, hsource, hsegment.filter_eq hne]
    exact ⟨hsegment.tokensIn_eq hordered hne, hlaid⟩
  · obtain ⟨hordered, _, own, hsegment, hlaid⟩ := (helements id element helement).endTag tag htag
    rw [Document.tokensInside, hsource, hsegment.filter_eq hne]
    exact ⟨hsegment.tokensIn_eq hordered hne, hlaid⟩

end ComponentLint.Markup
