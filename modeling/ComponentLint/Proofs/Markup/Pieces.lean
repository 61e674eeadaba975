import ComponentLint.Markup.Piece
import ComponentLint.Proofs.Markup.Tiling
import ComponentLint.Proofs.Text.Reading

/-!
# What a piece is read from

Each reader of `Markup.Piece` takes characters off the front of a stream. `Piece.ReadFrom` says what a piece has to do with
them: it spans them, its tokens tile them, and only tags have gaps. `readPiece_readFrom` and `readRaw_readFrom` are the
results that later modules use; the readers of tags and text are described on the way.
-/

namespace ComponentLint.Markup

open Text

/-- The characters of a tag that belong to no token: blanks, and slashes that close nothing. -/
def TagGap (c : Char) : Prop :=
  isAsciiSpace c = true ∨ c = '/'

namespace Piece

/-- The bytes of a piece. -/
def span : Piece → Span
  | .comment span _ => span
  | .text start chars => ⟨start, start + byteLength chars⟩
  | .interpolation content _ => ⟨content.opening.start, content.closing.stop⟩
  | .endTag _ span _ => span
  | .startTag tag => ⟨tag.start, tag.stop⟩
  | .raw span => span

/-- Whether a piece is a tag. -/
def isTag : Piece → Bool
  | .endTag .. => true
  | .startTag _ => true
  | _ => false

/-- The characters of a piece that may belong to no token. -/
def Gap (piece : Piece) (_ : Nat) (c : Char) : Prop :=
  piece.isTag = true ∧ TagGap c

end Piece

/-- Spans that lie between two offsets, each over at least one byte and one after the other. -/
def InOrder (first last : Nat) (spans : List Span) : Prop :=
  (∀ span ∈ spans, first ≤ span.start ∧ span.start < span.stop ∧ span.stop ≤ last) ∧
    spans.Pairwise fun a b => a.stop ≤ b.start

theorem InOrder.nil (first last : Nat) : InOrder first last [] :=
  ⟨by simp, List.Pairwise.nil⟩

theorem InOrder.cons {first middle last : Nat} {span : Span} {spans : List Span} (hf : first ≤ span.start)
    (hne : span.start < span.stop) (hm : span.stop ≤ middle) (hl : middle ≤ last) (h : InOrder middle last spans) :
    InOrder first last (span :: spans) := by
  refine ⟨?_, List.pairwise_cons.2 ⟨?_, h.2⟩⟩
  · intro other ho
    rcases List.mem_cons.1 ho with rfl | ho
    · exact ⟨hf, hne, by omega⟩
    · obtain ⟨h1, h2, h3⟩ := h.1 other ho
      exact ⟨by omega, h2, h3⟩
  · intro other ho
    exact Nat.le_trans hm (h.1 other ho).1

theorem InOrder.widen {first first' last : Nat} {spans : List Span} (h : InOrder first last spans) (hle : first' ≤ first) :
    InOrder first' last spans := by
  refine ⟨?_, h.2⟩
  intro span hs
  obtain ⟨h1, h2, h3⟩ := h.1 span hs
  exact ⟨by omega, h2, h3⟩

/-- How an end tag is written: its opening, its name, blanks, and its closing mark unless that is missing. -/
def EndTagText (name taken : List Char) : Prop :=
  ∃ blanks close, taken = ['<', '/'] ++ name ++ blanks ++ close ∧
    (∀ c ∈ name, isAsciiSpace c = false ∧ c ≠ '>') ∧ (∀ c ∈ blanks, isAsciiSpace c = true) ∧ (close = [] ∨ close = ['>'])

/-- What the characters of a piece say about its contents, for text and for the two kinds of tags. -/
def Piece.Form (taken : List Char) : Piece → Prop
  | .text _ chars => chars = taken
  | .endTag name _ _ => EndTagText name taken
  | .startTag tag => InOrder tag.start tag.stop (tag.attributes.map (·.attr.span))
  | _ => True

/-- An attribute that is read from a place on: its key is that of the name there. -/
structure Attribute.ReadFrom (stream : Stream) (attr : Attribute) : Prop where
  span : ∃ rest, stream.Before rest ∧ attr.span = ⟨stream.offset, rest.offset⟩
  key : ∃ name topLevel rest, stream.Reads name rest ∧ attr.key = Key.parse name stream.offset topLevel

/-- A value that stands at a place: without quotes, or between two equal ones of which the second may be missing at the end
of the file. -/
inductive AttributeValue.StandsAt (stream : Stream) (value : AttributeValue) : Prop where
  | bare {inner : List Char} {rest : Stream} (hreads : stream.Reads inner rest) (hquote : value.quote = none)
      (hspan : value.span = ⟨stream.offset, rest.offset⟩) (hvalue : value.valueSpan = value.span)
      (hraw : value.raw = String.ofList inner)
  | quoted {quote : Char} {inner : List Char} {opened closed : Stream} (hmark : quote = '"' ∨ quote = '\'')
      (hopen : stream.Reads [quote] opened) (hinner : opened.Reads inner closed) (hnot : quote ∉ inner)
      (hquote : value.quote = some quote) (hvalue : value.valueSpan = ⟨opened.offset, closed.offset⟩)
      (hraw : value.raw = String.ofList inner) (hstart : value.span.start = stream.offset)
      (hclose : (∃ rest, closed.Reads [quote] rest ∧ value.span.stop = rest.offset) ∨
        closed.chars = [] ∧ value.span.stop = closed.offset)

theorem AttributeValue.StandsAt.start {stream : Stream} {value : AttributeValue} (h : value.StandsAt stream) :
    value.span.start = stream.offset := by
  cases h with
  | bare _ _ hspan _ _ => rw [hspan]
  | quoted _ _ _ _ _ _ _ hstart _ => exact hstart

/-- What the value of an attribute says is what its text says for the directive that the attribute is. -/
def Attribute.Says (language : Script.Language) (attr : Attribute) (value : AttributeValue) : Prop :=
  value.meaning = attr.directive?.bind fun key =>
    Fragment.directiveValue language key.name.text value.valueSpan.start value.raw.toList

theorem Attribute.Says.exists_key {language : Script.Language} {attr : Attribute} {value : AttributeValue}
    (h : attr.Says language value) {meaning : DirectiveValue} (hmeaning : value.meaning = some meaning) :
    ∃ key, attr.directive? = some key ∧
      Fragment.directiveValue language key.name.text value.valueSpan.start value.raw.toList = some meaning := by
  obtain ⟨key, hkey, hvalue⟩ := Option.bind_eq_some_iff.1 (h.symm.trans hmeaning)
  exact ⟨key, hkey, hvalue⟩

/-- How an attribute is laid from a place on: its name, and if it has a value, an equals sign and the value after it. -/
inductive ReadAttribute.LaidFrom (language : Script.Language) (stream : Stream) (read : ReadAttribute) : Prop where
  | plain {name : List Char} {rest : Stream} (hname : stream.Reads name rest) (hne : name ≠ [])
      (hkey : read.attr.key.span = ⟨stream.offset, rest.offset⟩) (hequals : read.equals = none)
      (hvalue : read.attr.value = none)
  | valued {name : List Char} {afterName sign afterSign place : Stream} {value : AttributeValue}
      (hname : stream.Reads name afterName) (hne : name ≠ [])
      (hkey : read.attr.key.span = ⟨stream.offset, afterName.offset⟩) (hbefore : afterName.Before sign)
      (hsign : sign.Reads ['='] afterSign) (hequals : read.equals = some sign.offset) (hafter : afterSign.Before place)
      (hvalue : read.attr.value = some value) (hstands : value.StandsAt place)
      (hspan : read.attr.span.stop = value.span.stop) (hmeaning : read.attr.Says language value)

/-- How a start tag ends somewhere after a place, and what is left of the file behind it. -/
inductive TagEnd.ReadFrom (stream : Stream) : TagEnd → Stream → Prop where
  | plain {mark rest : Stream} (hmark : stream.Before mark) (hreads : mark.Reads ['>'] rest) : ReadFrom stream .plain rest
  | selfClosing {mark rest : Stream} (hmark : stream.Before mark) (hreads : mark.Reads ['/', '>'] rest) :
      ReadFrom stream .selfClosing rest
  | missing {rest : Stream} (hrest : stream.Before rest) (hend : rest.chars = []) : ReadFrom stream .missing rest

theorem TagEnd.ReadFrom.before {earlier stream rest : Stream} {ending : TagEnd} (h : ending.ReadFrom stream rest)
    (hearlier : earlier.Before stream) : ending.ReadFrom earlier rest := by
  cases h with
  | plain hmark hreads => exact .plain (hearlier.trans hmark) hreads
  | selfClosing hmark hreads => exact .selfClosing (hearlier.trans hmark) hreads
  | missing hrest hend => exact .missing (hearlier.trans hrest) hend

/-- What the parts of a start tag are read from: its name follows its opening, and its attributes stand at places in it. -/
structure ReadTag.Parts (language : Script.Language) (stream : Stream) (tag : ReadTag) : Prop where
  name : ∃ rest, stream.Reads ('<' :: tag.rawName) rest
  attributes : ∀ read ∈ tag.attributes, ∃ here, stream.Before here ∧ read.attr.ReadFrom here ∧ read.LaidFrom language here
  ending : ∃ rest, tag.ending.ReadFrom stream rest ∧ tag.stop = rest.offset
  room : tag.ending ≠ .missing → ∀ read ∈ tag.attributes, read.attr.span.stop < tag.stop

/-- What the parts of a piece are read from: the expression of an interpolation from what stands between its braces, and
those of a tag from places in it. -/
def Piece.Parts (language : Script.Language) (stream : Stream) : Piece → Prop
  | .interpolation content inner => ∃ here rest, stream.Reads ['{', '{'] here ∧ here.Reads inner rest ∧
      content.opening = ⟨stream.offset, here.offset⟩ ∧ content.closing = ⟨rest.offset, rest.offset + 2⟩ ∧
      content.expression = Fragment.expression? language here.offset inner
  | .startTag tag => tag.Parts language stream
  | .endTag name span close => ∃ blanks mark, stream.Reads (['<', '/'] ++ name ++ blanks) mark ∧
      (∀ c ∈ blanks, isAsciiSpace c = true) ∧
      ((close = some mark.offset ∧ ∃ rest, mark.Reads ['>'] rest ∧ span.stop = rest.offset) ∨
        close = none ∧ span.stop = mark.offset)
  | _ => True

/-- A piece that is read from a stream, the characters it takes, and what it leaves. -/
structure Piece.ReadFrom (language : Script.Language) (piece : Piece) (stream : Stream) (taken : List Char) (rest : Stream) :
    Prop where
  reads : stream.Reads taken rest
  span : piece.span = ⟨stream.offset, rest.offset⟩
  tiling : Tiling piece.Gap stream.offset taken piece.tokens
  form : piece.Form taken
  parts : piece.Parts language stream

/-! ## Tokens between two states of a stream -/

/-- Tokens that tile what is read between two states of a stream. -/
def Lays (gap : Nat → Char → Prop) (stream : Stream) (tokens : List Token) (rest : Stream) : Prop :=
  ∃ taken, stream.Reads taken rest ∧ Tiling gap stream.offset taken tokens

namespace Lays

variable {gap : Nat → Char → Prop} {s t u : Stream} {tokens tokens' : List Token} {taken : List Char}

theorem trans (h : Lays gap s tokens t) (h' : Lays gap t tokens' u) : Lays gap s (tokens ++ tokens') u := by
  obtain ⟨a, ha, hta⟩ := h
  obtain ⟨b, hb, htb⟩ := h'
  rw [ha.offset] at htb
  exact ⟨a ++ b, ha.trans hb, hta.append htb⟩

/-- The characters between two states of a stream are determined by them. -/
theorem tiling (h : Lays gap s tokens t) (hr : s.Reads taken t) : Tiling gap s.offset taken tokens := by
  obtain ⟨taken', hr', ht⟩ := h
  have he : taken' = taken := List.append_cancel_right (hr'.chars.symm.trans hr.chars)
  rwa [he] at ht

theorem offset_le (h : Lays gap s tokens t) : s.offset ≤ t.offset := by
  obtain ⟨_, hr, _⟩ := h
  exact hr.offset_le

/-- Characters under one token, or none under no token. -/
theorem spanning (gap : Nat → Char → Prop) (kind : TokenKind) (h : s.Reads taken t) :
    Lays gap s (Token.spanning kind s.offset t.offset) t := by
  refine ⟨taken, h, ?_⟩
  rw [h.offset]
  exact Tiling.spanning kind s.offset taken

/-- Characters under one token. -/
theorem single (gap : Nat → Char → Prop) (kind : TokenKind) (h : s.Reads taken t) (hne : taken ≠ []) :
    Lays gap s [⟨kind, ⟨s.offset, t.offset⟩⟩] t := by
  refine ⟨taken, h, ?_⟩
  rw [h.offset]
  exact Tiling.single kind s.offset hne

/-- Characters under no token. -/
theorem gaps (h : s.Reads taken t) (hgap : ∀ offset, ∀ c ∈ taken, gap offset c) : Lays gap s [] t :=
  ⟨taken, h, Tiling.gaps s.offset hgap⟩

end Lays

/-! ## Blanks and names -/

theorem skipBlanks_reads (stream : Stream) :
    ∃ blanks, stream.Reads blanks (skipBlanks stream) ∧ ∀ c ∈ blanks, isAsciiSpace c = true :=
  ⟨(stream.span isAsciiSpace).1, Stream.reads_span isAsciiSpace stream, fun _ hc => Stream.of_mem_span hc⟩

/-- Blanks inside a tag belong to no token. -/
theorem skipBlanks_lays (stream : Stream) : Lays (fun _ => TagGap) stream [] (skipBlanks stream) := by
  obtain ⟨blanks, hr, hb⟩ := skipBlanks_reads stream
  exact Lays.gaps hr fun _ c hc => Or.inl (hb c hc)

theorem tagName_append (chars : List Char) : (tagName chars).1 ++ (tagName chars).2 = chars := by
  fun_induction tagName chars with
  | case1 => rfl
  | case2 => rfl
  | case3 => rfl
  | case4 c rest _ _ taken after he ih =>
    rw [he] at ih
    exact congrArg (c :: ·) ih

theorem attributeName_append (inside : Bool) (chars : List Char) :
    (attributeName inside chars).1 ++ (attributeName inside chars).2 = chars := by
  fun_induction attributeName inside chars with
  | case1 => rfl
  | case2 c rest taken after he ih =>
    rw [he] at ih
    exact congrArg (c :: ·) ih
  | case3 => rfl
  | case4 c rest _ taken after he ih =>
    rw [he] at ih
    exact congrArg (c :: ·) ih

/-- The name of an attribute is at least one character and nothing of it is lost. -/
theorem wholeName_append {chars : List Char} (hne : chars ≠ []) :
    (wholeName chars).1 ++ (wholeName chars).2 = chars ∧ (wholeName chars).1 ≠ [] := by
  have h := attributeName_append false chars
  unfold wholeName
  split
  · rename_i c rest he
    rw [he] at h
    exact ⟨h, by simp⟩
  · rename_i found
    refine ⟨h, ?_⟩
    intro hnil
    rw [hnil, List.nil_append] at h
    cases chars with
    | nil => exact hne rfl
    | cons c rest => exact found c rest (Prod.ext hnil h)

/-- The key of an attribute spans its name. -/
theorem Key.span_parse (text : List Char) (start : Nat) (topLevel : Bool) :
    (Key.parse text start topLevel).span = ⟨start, start + byteLength text⟩ := by
  unfold Key.parse
  split
  · rfl
  · split
    · unfold Key.writtenDirective
      dsimp only
      split <;> rfl
    · split <;> rfl
    · rfl

/-! ## Attributes -/

/-- The value of an attribute spans what is read for it. -/
theorem readValue_reads (language : Script.Language) (key : Key) (stream : Stream) :
    ∃ taken, stream.Reads taken (readValue language key stream).2.2 ∧
      (readValue language key stream).1.span = ⟨stream.offset, (readValue language key stream).2.2.offset⟩ := by
  unfold readValue
  split
  · rename_i c rest hc
    split
    · rename_i hq
      have hsize : c.utf8Size = 1 := by
        rcases Bool.or_eq_true_iff.1 hq with h | h <;> rw [eq_of_beq h] <;> rfl
      have hrest := List.takeWhile_append_dropWhile (p := (· != c)) (l := rest)
      dsimp only
      split
      · rename_i d after hd
        have hdc : d = c := by
          have := List.head?_dropWhile_not (p := (· != c)) (l := rest)
          simpa [hd] using this
        subst hdc
        rw [hd] at hrest
        refine ⟨d :: (rest.takeWhile (· != d) ++ [d]), ⟨?_, ?_⟩, rfl⟩
        · rw [hc]
          exact congrArg (d :: ·) (by simpa using hrest.symm)
        · simp only [byteLength_cons, byteLength_append, byteLength_nil, hsize]
          omega
      · rename_i hd
        refine ⟨c :: rest.takeWhile (· != c), ⟨?_, ?_⟩, rfl⟩
        · rw [hd, List.append_nil] at hrest
          rw [hc, hrest]
          simp
        · simp only [byteLength_cons, hsize]
          omega
    · exact ⟨_, Stream.reads_span _ stream, rfl⟩
  · exact ⟨[], Stream.Reads.refl stream, rfl⟩

/-- An attribute spans what is read for it, at least one character, and its tokens leave only blanks out. -/
theorem readAttribute_lays (around : Surroundings) {stream : Stream} (hne : stream.chars ≠ []) :
    Lays (fun _ => TagGap) stream (readAttribute around stream).1.tokens (readAttribute around stream).2 ∧
      (readAttribute around stream).1.attr.span = ⟨stream.offset, (readAttribute around stream).2.offset⟩ ∧
      stream.offset < (readAttribute around stream).2.offset := by
  obtain ⟨happ, hname⟩ := wholeName_append hne
  unfold readAttribute
  generalize wholeName stream.chars = found at happ hname
  obtain ⟨name, rest⟩ := found
  dsimp only at happ hname ⊢
  have hread := Stream.reads_after happ.symm
  generalize hafter : stream.after name rest = afterName at hread ⊢
  have hlt : stream.offset < afterName.offset := by
    have := (byteLength_pos_iff name).2 hname
    rw [hread.offset]
    omega
  have hkey : (Key.parse name stream.offset around.topLevel).span = ⟨stream.offset, afterName.offset⟩ := by
    rw [Key.span_parse, hread.offset]
  generalize Key.parse name stream.offset around.topLevel = key at hkey ⊢
  have hnameLays : Lays (fun _ => TagGap) stream (Token.spanning .attributeName key.span.start key.span.stop) afterName := by
    rw [hkey]
    exact Lays.spanning _ _ hread
  split
  · rename_i tail heq
    generalize skipBlanks_eq : skipBlanks afterName = equals at heq ⊢
    have hblanks := skipBlanks_lays afterName
    rw [skipBlanks_eq] at hblanks
    have hequals := Stream.reads_next heq
    have hsign : Lays (fun _ => TagGap) equals [⟨.attributeEquals, ⟨equals.offset, equals.offset + 1⟩⟩] equals.next := by
      have h := Lays.single (fun _ => TagGap) .attributeEquals hequals (by simp)
      rwa [hequals.offset] at h
    obtain ⟨inner, hinner, hspan⟩ := readValue_reads around.language key (skipBlanks equals.next)
    generalize readValue around.language key (skipBlanks equals.next) = value at hinner hspan ⊢
    have hvalue : Lays (fun _ => TagGap) (skipBlanks equals.next)
        (Token.spanning .attributeValue value.1.span.start value.1.span.stop) value.2.2 := by
      rw [hspan]
      exact Lays.spanning _ _ hinner
    have hbehind := (hblanks.trans hsign).trans ((skipBlanks_lays equals.next).trans hvalue)
    refine ⟨?_, by rw [hspan], ?_⟩
    · simpa [ReadAttribute.tokens] using hnameLays.trans hbehind
    · exact Nat.lt_of_lt_of_le hlt hbehind.offset_le
  · refine ⟨?_, rfl, hlt⟩
    simpa [ReadAttribute.tokens] using hnameLays

/-- The attributes of a start tag stand in order, and with the end of the tag their tokens leave only gaps out. -/
theorem readAttributes_lays (around : Surroundings) (fuel : Nat) (stream : Stream) :
    Lays (fun _ => TagGap) stream
        ((readAttributes around fuel stream).1.flatMap (·.tokens) ++
          (readAttributes around fuel stream).2.1.tokens (readAttributes around fuel stream).2.2.offset)
        (readAttributes around fuel stream).2.2 ∧
      InOrder stream.offset (readAttributes around fuel stream).2.2.offset
        ((readAttributes around fuel stream).1.map (·.attr.span)) := by
  induction fuel generalizing stream with
  | zero => exact ⟨Lays.gaps (Stream.Reads.refl stream) (by simp), InOrder.nil _ _⟩
  | succ fuel ih =>
    have hblanks := skipBlanks_lays stream
    unfold readAttributes
    generalize skipBlanks stream = here at hblanks
    dsimp only
    split
    · exact ⟨hblanks, InOrder.nil _ _⟩
    · rename_i tail heq
      have hclose := Stream.reads_next heq
      refine ⟨?_, InOrder.nil _ _⟩
      have h := hblanks.trans (Lays.single (fun _ => TagGap) .tagClose hclose (by simp))
      have hoff : here.next.offset - 1 = here.offset := by rw [hclose.offset]; rfl
      simpa [TagEnd.tokens, hoff] using h
    · rename_i tail heq
      have hclose : here.Reads ['/', '>'] (Stream.skip 2 here) := Stream.reads_skip _ heq rfl
      refine ⟨?_, InOrder.nil _ _⟩
      have h := hblanks.trans (Lays.single (fun _ => TagGap) .tagSelfClose hclose (by simp))
      have hoff : (Stream.skip 2 here).offset - 2 = here.offset := by rw [hclose.offset]; rfl
      simpa [TagEnd.tokens, hoff] using h
    · rename_i tail _ heq
      have hslash : Lays (fun _ => TagGap) here [] here.next := Lays.gaps (Stream.reads_next heq) (by simp [TagGap])
      obtain ⟨hlays, horder⟩ := ih here.next
      exact ⟨(hblanks.trans hslash).trans hlays, horder.widen (hblanks.trans hslash).offset_le⟩
    · rename_i hnil _ _ _
      obtain ⟨hattr, hspan, hlt⟩ := readAttribute_lays around hnil
      generalize readAttribute around here = read at hattr hspan hlt ⊢
      obtain ⟨hlays, horder⟩ := ih read.2
      generalize readAttributes around fuel read.2 = others at hlays horder ⊢
      have hle := hlays.offset_le
      refine ⟨?_, ?_⟩
      · simpa using (hblanks.trans hattr).trans hlays
      · rw [List.map_cons]
        refine InOrder.cons ?_ ?_ ?_ hle horder
        · rw [hspan]
          exact hblanks.offset_le
        · rw [hspan]
          exact hlt
        · exact Nat.le_of_eq (congrArg Span.stop hspan)

/-- A value stands where it is read. -/
theorem readValue_standsAt (language : Script.Language) (key : Key) (stream : Stream) :
    (readValue language key stream).1.StandsAt stream := by
  unfold readValue
  split
  · rename_i c rest hc
    split
    · rename_i hq
      have hmark : c = '"' ∨ c = '\'' := by simpa using hq
      have hsize : c.utf8Size = 1 := by rcases hmark with rfl | rfl <;> rfl
      have hquote := Stream.reads_next hc
      rw [show stream.next = ⟨stream.offset + 1, rest⟩ by simp [Stream.next, hc, hsize]] at hquote
      have hinner : (⟨stream.offset + 1, rest⟩ : Stream).Reads (rest.takeWhile (· != c))
          ⟨stream.offset + 1 + byteLength (rest.takeWhile (· != c)), rest.dropWhile (· != c)⟩ :=
        ⟨List.takeWhile_append_dropWhile.symm, rfl⟩
      have hnot : c ∉ rest.takeWhile (· != c) := by
        intro hmem
        have htest := List.all_eq_true.1 List.all_takeWhile c hmem
        simp at htest
      dsimp only
      split
      · rename_i d after hd
        have hdc : d = c := by
          have hhead := List.head?_dropWhile_not (p := (· != c)) (l := rest)
          simpa [hd] using hhead
        subst hdc
        refine .quoted hmark hquote hinner hnot rfl rfl rfl rfl (.inl ⟨⟨_, after⟩, ⟨hd, ?_⟩, rfl⟩)
        simp [readValue.value, hsize]
      · rename_i hd
        exact .quoted hmark hquote hinner hnot rfl rfl rfl rfl (.inr ⟨hd, rfl⟩)
    · exact .bare (Stream.reads_span _ stream) rfl rfl rfl rfl
  · exact .bare (.refl stream) rfl rfl rfl rfl

/-- What a value says is what its text says for the directive of the key, if the key is one. -/
theorem readValue_meaning (language : Script.Language) (key : Key) (stream : Stream) :
    (readValue language key stream).1.meaning = key.directive?.bind fun directive =>
      Fragment.directiveValue language directive.name.text (readValue language key stream).1.valueSpan.start
        (readValue language key stream).1.raw.toList := by
  have hvalue : ∀ span valueSpan inner quote, (readValue.value language key span valueSpan inner quote).meaning =
      key.directive?.bind fun directive => Fragment.directiveValue language directive.name.text valueSpan.start
        (readValue.value language key span valueSpan inner quote).raw.toList := by
    intro span valueSpan inner quote
    cases key <;> simp [readValue.value, Key.directive?]
  unfold readValue
  split
  · split
    · dsimp only
      split <;> exact hvalue _ _ _ _
    · exact hvalue _ _ _ _
  · exact hvalue _ _ _ _

/-- An attribute is laid from the place on where it is read. -/
theorem readAttribute_laidFrom (around : Surroundings) {stream : Stream} (hne : stream.chars ≠ []) :
    (readAttribute around stream).1.LaidFrom around.language stream := by
  obtain ⟨happ, hname⟩ := wholeName_append hne
  unfold readAttribute
  generalize wholeName stream.chars = found at happ hname
  obtain ⟨name, rest⟩ := found
  dsimp only at happ hname ⊢
  have hread := Stream.reads_after happ.symm
  generalize stream.after name rest = afterName at hread ⊢
  have hkey : (Key.parse name stream.offset around.topLevel).span = ⟨stream.offset, afterName.offset⟩ := by
    rw [Key.span_parse, hread.offset]
  obtain ⟨_, hblanks, _⟩ := skipBlanks_reads afterName
  split
  · rename_i tail heq
    obtain ⟨_, hmore, _⟩ := skipBlanks_reads (skipBlanks afterName).next
    refine .valued hread hname hkey hblanks.before (Stream.reads_next heq) rfl hmore.before rfl
      (readValue_standsAt around.language _ _) rfl (readValue_meaning _ _ _)
  · exact .plain hread hname hkey rfl rfl

theorem readAttribute_readFrom (around : Surroundings) {stream : Stream} (hne : stream.chars ≠ []) :
    (readAttribute around stream).1.attr.ReadFrom stream := by
  obtain ⟨⟨_, hreads, _⟩, hspan, _⟩ := readAttribute_lays around hne
  refine ⟨⟨_, hreads.before, hspan⟩, ?_⟩
  obtain ⟨happ, _⟩ := wholeName_append hne
  unfold readAttribute
  generalize wholeName stream.chars = found at happ
  obtain ⟨name, rest⟩ := found
  dsimp only at happ ⊢
  have hread := Stream.reads_after happ.symm
  split <;> exact ⟨name, _, _, hread, rfl⟩

theorem readAttributes_readFrom (around : Surroundings) (fuel : Nat) (stream : Stream) :
    ∀ read ∈ (readAttributes around fuel stream).1,
      ∃ here, stream.Before here ∧ read.attr.ReadFrom here ∧ read.LaidFrom around.language here := by
  induction fuel generalizing stream with
  | zero => simp [readAttributes]
  | succ fuel ih =>
    obtain ⟨_, hblanks, _⟩ := skipBlanks_reads stream
    unfold readAttributes
    generalize skipBlanks stream = here at hblanks
    dsimp only
    split
    · simp
    · simp
    · simp
    · rename_i tail _ heq
      intro read hread
      obtain ⟨place, hplace, hattr⟩ := ih here.next read hread
      exact ⟨place, (hblanks.trans (Stream.reads_next heq)).before.trans hplace, hattr⟩
    · rename_i hnil _ _ _
      intro read hread
      rcases List.mem_cons.1 hread with rfl | hrest
      · exact ⟨here, hblanks.before, readAttribute_readFrom around hnil, readAttribute_laidFrom around hnil⟩
      · obtain ⟨⟨_, htaken, _⟩, -, -⟩ := readAttribute_lays around hnil
        obtain ⟨place, hplace, hattr⟩ := ih _ read hrest
        exact ⟨place, (hblanks.trans htaken).before.trans hplace, hattr⟩

/-- With fuel for every character, the attributes end at a mark or at the end of the file. -/
theorem readAttributes_ending (around : Surroundings) {fuel : Nat} {stream : Stream} (hfuel : stream.chars.length < fuel) :
    (readAttributes around fuel stream).2.1.ReadFrom stream (readAttributes around fuel stream).2.2 := by
  induction fuel generalizing stream with
  | zero => omega
  | succ fuel ih =>
    obtain ⟨blanks, hblanks, _⟩ := skipBlanks_reads stream
    have hlength := hblanks.length
    unfold readAttributes
    generalize skipBlanks stream = here at hblanks hlength
    dsimp only
    split
    · rename_i heq
      exact .missing hblanks.before heq
    · rename_i tail heq
      exact .plain hblanks.before (Stream.reads_next heq)
    · rename_i tail heq
      exact .selfClosing hblanks.before (Stream.reads_skip ['/', '>'] heq rfl)
    · rename_i tail _ heq
      have hnext := Stream.reads_next heq
      have hless := hnext.length
      refine (ih ?_).before (hblanks.trans hnext).before
      rw [List.length_singleton] at hless
      omega
    · rename_i hnil _ _ _
      obtain ⟨⟨_, htaken, _⟩, -, hlt⟩ := readAttribute_lays around hnil
      have hless := htaken.length_lt hlt
      exact (ih (by omega)).before (hblanks.trans htaken).before

/-- Behind the attributes there is room for the mark that ends the tag. -/
theorem readAttributes_room (around : Surroundings) (fuel : Nat) (stream : Stream)
    (hending : (readAttributes around fuel stream).2.1 ≠ .missing) :
    stream.offset < (readAttributes around fuel stream).2.2.offset ∧ ∀ read ∈ (readAttributes around fuel stream).1,
      read.attr.span.stop < (readAttributes around fuel stream).2.2.offset := by
  induction fuel generalizing stream with
  | zero => exact absurd rfl hending
  | succ fuel ih =>
    obtain ⟨_, hblanks, _⟩ := skipBlanks_reads stream
    have hle := hblanks.offset_le
    revert hending
    unfold readAttributes
    generalize skipBlanks stream = here at hle
    dsimp only
    split
    · intro hending
      exact absurd rfl hending
    · rename_i tail heq
      have hmark := (Stream.reads_next heq).offset
      simp only [byteLength_cons, byteLength_nil] at hmark
      have hsize := Char.utf8Size_pos '>'
      exact fun _ => ⟨by dsimp only; omega, by simp⟩
    · rename_i tail heq
      have hmark := (Stream.reads_skip ['/', '>'] heq rfl : here.Reads ['/', '>'] (Stream.skip 2 here)).offset
      simp only [byteLength_cons, byteLength_nil] at hmark
      have hsize := Char.utf8Size_pos '>'
      exact fun _ => ⟨by dsimp only; omega, by simp⟩
    · rename_i tail _ heq
      intro hending
      obtain ⟨hlt, hreads⟩ := ih here.next hending
      have hslash := (Stream.reads_next heq).offset_le
      exact ⟨by omega, hreads⟩
    · rename_i hnil _ _ _
      intro hending
      obtain ⟨_, hspan, hattr⟩ := readAttribute_lays around hnil
      obtain ⟨hlt, hreads⟩ := ih _ hending
      refine ⟨Nat.lt_of_le_of_lt hle (Nat.lt_trans hattr hlt), fun read hread => ?_⟩
      rcases List.mem_cons.1 hread with rfl | hrest
      · rw [hspan]
        exact hlt
      · exact hreads read hrest

/-! ## Tags -/

theorem Piece.tiling_of_tag {piece : Piece} {start : Nat} {taken : List Char} {tokens : List Token}
    (htag : piece.isTag = true) (h : Tiling (fun _ => TagGap) start taken tokens) : Tiling piece.Gap start taken tokens :=
  h.mono fun _ _ _ _ hgap => ⟨htag, hgap⟩

/-- A start tag spans what is read for it, its attributes stand in it in order, and its tokens leave only gaps out. -/
theorem readStartTag_readFrom (around : Surroundings) {stream : Stream} {rest : List Char} (h : stream.chars = '<' :: rest) :
    stream.offset < (readStartTag around stream).2.offset ∧ ∃ taken,
      (Piece.startTag (readStartTag around stream).1).ReadFrom around.language stream taken (readStartTag around stream).2 := by
  have hopen := Stream.reads_next h
  have hname := tagName_append rest
  unfold readStartTag
  rw [h, List.drop_one, List.tail_cons]
  generalize tagName rest = found at hname
  obtain ⟨name, rest'⟩ := found
  dsimp only at hname ⊢
  have hchars : stream.next.chars = name ++ rest' := by
    rw [hname]
    simpa [h] using hopen.chars.symm
  have hread := hopen.trans (Stream.reads_after hchars)
  have hfuel : (stream.next.after name rest').chars.length < rest'.length + 1 := Nat.lt_succ_self _
  generalize stream.next.after name rest' = afterName at hread hfuel ⊢
  obtain ⟨hattrs, horder⟩ := readAttributes_lays around (rest'.length + 1) afterName
  have hparts := readAttributes_readFrom around (rest'.length + 1) afterName
  have hending := readAttributes_ending around hfuel
  have hroom := readAttributes_room around (rest'.length + 1) afterName
  generalize readAttributes around (rest'.length + 1) afterName = read at hattrs horder hparts hending hroom ⊢
  obtain ⟨attrs, ending, after⟩ := read
  dsimp only at hattrs horder hparts hending hroom ⊢
  have hoff : afterName.offset = stream.offset + 1 + byteLength name := by
    rw [hread.offset, byteLength_append, Nat.add_assoc]
    rfl
  obtain ⟨taken, hreads, htiling⟩ := (Lays.spanning (fun _ => TagGap) .tagOpen hread).trans hattrs
  have hle := hattrs.offset_le
  refine ⟨by omega, taken, hreads, rfl, ?_, horder.widen hread.offset_le, ⟨_, hread⟩, fun attr hattr => ?_,
    ⟨_, hending.before hread.before, rfl⟩, fun hmark => (hroom hmark).2⟩
  · refine Piece.tiling_of_tag rfl ?_
    simpa [Piece.tokens, hoff] using htiling
  · obtain ⟨here, hhere, hfrom⟩ := hparts attr hattr
    exact ⟨here, hread.before.trans hhere, hfrom⟩

/-- An end tag spans what is read for it, and its tokens leave only the blanks after its name out. -/
theorem readEndTag_readFrom {language : Script.Language} {stream : Stream} {rest : List Char}
    (h : stream.chars = '<' :: '/' :: rest) :
    stream.offset < (readEndTag stream).2.offset ∧ ∃ taken,
      (readEndTag stream).1.ReadFrom language stream taken (readEndTag stream).2 := by
  have hopen : stream.Reads ['<', '/'] (Stream.skip 2 stream) := Stream.reads_skip _ h rfl
  unfold readEndTag
  have hname := Stream.reads_span (fun c => !isAsciiSpace c && c != '>') (Stream.skip 2 stream)
  have hname_mem : ∀ c ∈ ((Stream.skip 2 stream).span fun c => !isAsciiSpace c && c != '>').1,
      isAsciiSpace c = false ∧ c ≠ '>' := by
    intro c hc
    simpa using Stream.of_mem_span hc
  generalize (Stream.skip 2 stream).span (fun c => !isAsciiSpace c && c != '>') = found at hname hname_mem ⊢
  obtain ⟨name, afterName⟩ := found
  dsimp only at hname hname_mem ⊢
  have hopened := hopen.trans hname
  have hoff : afterName.offset = stream.offset + 2 + byteLength name := by
    rw [hopened.offset, byteLength_append, Nat.add_assoc]
    rfl
  obtain ⟨blanks, hblanks, hblank⟩ := skipBlanks_reads afterName
  have hgaps : Lays (fun _ => TagGap) afterName [] (skipBlanks afterName) := skipBlanks_lays afterName
  generalize skipBlanks afterName = close at hblanks hgaps ⊢
  have htag := (Lays.spanning (fun _ => TagGap) .endTagOpen hopened).trans hgaps
  have hread := hopened.trans hblanks
  have hle := hblanks.offset_le
  split
  · rename_i tail heq
    have hclose := Stream.reads_next heq
    have hstop : close.next.offset = close.offset + 1 := hclose.offset
    have hall := htag.trans (Lays.single (fun _ => TagGap) .tagClose hclose (by simp))
    refine ⟨by simp only [hstop]; omega, _, hread.trans hclose, rfl, ?_,
      ⟨blanks, ['>'], rfl, hname_mem, hblank, Or.inr rfl⟩, blanks, _, hread, hblank,
      Or.inl ⟨rfl, _, hclose, rfl⟩⟩
    refine Piece.tiling_of_tag rfl ?_
    simpa [Piece.tokens, hoff, hstop] using hall.tiling (hread.trans hclose)
  · refine ⟨by simp only; omega, _, hread, rfl, ?_, ⟨blanks, [], by simp, hname_mem, hblank, Or.inl rfl⟩, blanks, _, hread,
      hblank, Or.inr ⟨rfl, rfl⟩⟩
    refine Piece.tiling_of_tag rfl ?_
    simpa [Piece.tokens, hoff] using htag.tiling hread

/-! ## Comments, text and interpolations -/

/-- A comment is one token over all that is read for it. -/
theorem readComment_readFrom {language : Script.Language} {stream : Stream} {rest : List Char}
    (h : stream.chars = '<' :: '!' :: '-' :: '-' :: rest) :
    stream.offset < (readComment stream).2.offset ∧ ∃ taken,
      (readComment stream).1.ReadFrom language stream taken (readComment stream).2 := by
  unfold readComment
  split
  · rename_i body tail hcut
    have hbody := eq_of_cutAt? hcut
    rw [h] at hbody
    have hread : stream.Reads (['<', '!', '-', '-'] ++ body ++ ['-', '-', '>'])
        ⟨stream.offset + 4 + byteLength body + 3, tail⟩ := by
      refine ⟨?_, ?_⟩
      · rw [h]
        simpa using hbody
      · simp only [byteLength_append, ← Nat.add_assoc]
        rfl
    refine ⟨by simp only; omega, _, hread, rfl, ?_, trivial, trivial⟩
    simpa [Piece.tokens] using (Lays.spanning _ .comment hread).tiling hread
  · have hread : stream.Reads stream.chars ⟨stream.offset + byteLength stream.chars, []⟩ :=
      ⟨by simp, rfl⟩
    have hpos := (byteLength_pos_iff stream.chars).2 (by simp [h])
    refine ⟨by simp only; omega, _, hread, rfl, ?_, trivial, trivial⟩
    simpa [Piece.tokens] using (Lays.spanning _ .comment hread).tiling hread

theorem textRun_append (interpolates first : Bool) (chars : List Char) :
    (textRun interpolates first chars).1 ++ (textRun interpolates first chars).2 = chars := by
  fun_induction textRun interpolates first chars with
  | case1 => rfl
  | case2 rest _ taken after he ih =>
    rw [he] at ih
    exact congrArg ('{' :: '{' :: ·) ih
  | case3 => rfl
  | case4 first rest _ taken after he ih =>
    rw [he] at ih
    exact congrArg ('{' :: ·) ih
  | case5 => rfl
  | case6 first c rest _ _ taken after he ih =>
    rw [he] at ih
    exact congrArg (c :: ·) ih

/-- The first character is text whatever it is. -/
theorem textRun_ne_nil (interpolates : Bool) {chars : List Char} (hne : chars ≠ []) :
    (textRun interpolates true chars).1 ≠ [] := by
  unfold textRun
  split
  · exact absurd rfl hne
  · split <;> simp
  · simp

/-- The runs of white space and of other characters tile a text without gaps. -/
theorem textTokens_tiling (start : Nat) (run chars : List Char) :
    Tiling (fun _ _ => False) start (run.reverse ++ chars) (textTokens start run chars) := by
  have hending : ∀ (start : Nat) (run : List Char),
      Tiling (fun _ _ => False) start run.reverse (textTokens.ending start run) := by
    intro start run
    unfold textTokens.ending
    split
    · exact Tiling.done start
    · rw [← byteLength_reverse]
      exact Tiling.spanning _ _ _
  induction chars generalizing start run with
  | nil => simpa [textTokens] using hending start run
  | cons c rest ih =>
    unfold textTokens
    split
    · exact ih start [c]
    · rename_i d earlier
      split
      · have h := ih start (c :: d :: earlier)
        rwa [List.reverse_cons, List.append_assoc] at h
      · refine (hending start (d :: earlier)).append ?_
        rw [byteLength_reverse]
        exact ih _ [c]

/-- Text is tokens without gaps over all that is read for it. -/
theorem readText_readFrom {language : Script.Language} (interpolates : Bool) {stream : Stream} (hne : stream.chars ≠ []) :
    stream.offset < (readText interpolates stream).2.offset ∧ ∃ taken,
      (readText interpolates stream).1.ReadFrom language stream taken (readText interpolates stream).2 := by
  have happ := textRun_append interpolates true stream.chars
  have htaken := (byteLength_pos_iff _).2 (textRun_ne_nil interpolates hne)
  have hread := Stream.reads_after happ.symm
  unfold readText
  refine ⟨?_, _, hread, rfl, ?_, rfl, trivial⟩
  · rw [hread.offset]
    omega
  · exact (textTokens_tiling stream.offset [] _).mono fun _ _ _ _ hf => hf.elim

/-- An interpolation is its opening braces, what stands between, and its closing braces. -/
theorem readInterpolation?_readFrom {language : Script.Language} {stream : Stream} {rest : List Char} {piece : Piece}
    {after : Stream} (h : stream.chars = '{' :: '{' :: rest)
    (hsome : readInterpolation? language stream = some (piece, after)) :
    stream.offset < after.offset ∧ ∃ taken, piece.ReadFrom language stream taken after := by
  unfold readInterpolation? at hsome
  obtain ⟨⟨inner, tail⟩, hcut, hsome⟩ := Option.bind_eq_some_iff.1 hsome
  obtain ⟨rfl, rfl⟩ := Prod.mk.inj (Option.some.inj hsome)
  have hinner := eq_of_cutAt? hcut
  rw [h] at hinner
  have h1 : stream.Reads ['{', '{'] ⟨stream.offset + 2, rest⟩ := ⟨h, rfl⟩
  have h2 : (⟨stream.offset + 2, rest⟩ : Stream).Reads inner ⟨stream.offset + 2 + byteLength inner, '}' :: '}' :: tail⟩ :=
    ⟨hinner, rfl⟩
  have h3 : (⟨stream.offset + 2 + byteLength inner, '}' :: '}' :: tail⟩ : Stream).Reads ['}', '}']
      ⟨stream.offset + 2 + byteLength inner + 2, tail⟩ := ⟨rfl, rfl⟩
  have hread := (h1.trans h2).trans h3
  refine ⟨by simp only; omega, _, hread, rfl, Lays.tiling ?_ hread, trivial, _, _, h1, h2, rfl, rfl, rfl⟩
  exact ((Lays.single _ .mustacheOpen h1 (by simp)).trans (Lays.spanning _ .rawText h2)).trans
    (Lays.single _ .mustacheClose h3 (by simp))

theorem readContent_readFrom (around : Surroundings) {stream : Stream} (hne : stream.chars ≠ []) :
    stream.offset < (readContent around stream).2.offset ∧ ∃ taken,
      (readContent around stream).1.ReadFrom around.language stream taken (readContent around stream).2 := by
  unfold readContent
  split
  · rename_i hopen
    obtain ⟨rest, hrest⟩ := List.isPrefixOf_iff_prefix.1 (Bool.and_eq_true_iff.1 hopen).2
    cases hread : readInterpolation? around.language stream with
    | none => exact readText_readFrom true hne
    | some found => exact readInterpolation?_readFrom hrest.symm hread
  · exact readText_readFrom around.interpolates hne

/-! ## Raw content and the piece at the front -/

theorem rawRun_append (name chars : List Char) : (rawRun name chars).1 ++ (rawRun name chars).2 = chars := by
  fun_induction rawRun name chars with
  | case1 => rfl
  | case2 => rfl
  | case3 c rest _ taken after he ih =>
    rw [he] at ih
    exact congrArg (c :: ·) ih

/-- Raw content, which may be empty, is one token. -/
theorem readRaw_readFrom (language : Script.Language) (name : List Char) (stream : Stream) :
    ∃ taken, (readRaw name stream).1.ReadFrom language stream taken (readRaw name stream).2 := by
  have hread := Stream.reads_after (rawRun_append name stream.chars).symm
  exact ⟨_, hread, rfl, (Lays.spanning _ .rawText hread).tiling hread, trivial, trivial⟩

/-- The piece at the front takes at least one byte, spans what is read for it, and its tokens tile that. -/
theorem readPiece_readFrom (around : Surroundings) {stream : Stream} (hne : stream.chars ≠ []) :
    stream.offset < (readPiece around stream).2.offset ∧ ∃ taken,
      (readPiece around stream).1.ReadFrom around.language stream taken (readPiece around stream).2 := by
  unfold readPiece
  split
  · rename_i h
    exact readComment_readFrom h
  · rename_i h
    split
    · exact readEndTag_readFrom h
    · exact readContent_readFrom around hne
  · rename_i h
    split
    · exact readStartTag_readFrom around h
    · exact readContent_readFrom around hne
  · exact readContent_readFrom around hne

end ComponentLint.Markup
