import ComponentLint.Proofs.Markup.Pieces

/-!
# Reading at another place

What a reader makes of a text depends on where the text stands only through the offsets it writes down. Each lemma here says
so for one reader: read from a stream that starts `distance` bytes further right, it gives the same thing moved by that
distance. `readPiece_shift` and `readRaw_shift` are what the rest of the theory uses.
-/

namespace ComponentLint

open Text

/-! ## Moving -/

namespace Markup

/-- The name, further right. -/
def Name.shift (name : Name) (distance : Nat) : Name :=
  { name with span := name.span.shift distance }

/-- The argument, further right. -/
def Argument.shift (distance : Nat) : Argument → Argument
  | .static name => .static (name.shift distance)
  | .dynamic span raw => .dynamic (span.shift distance) raw

/-- The key of a directive, further right. -/
def DirectiveKey.shift (key : DirectiveKey) (distance : Nat) : DirectiveKey :=
  { key with
    span := key.span.shift distance
    name := key.name.shift distance
    argument := key.argument.map (Argument.shift distance)
    modifiers := key.modifiers.map (·.shift distance) }

/-- The key, further right. -/
def Key.shift (distance : Nat) : Key → Key
  | .plain name => .plain (name.shift distance)
  | .directive key => .directive (key.shift distance)

/-- What a value says, further right. -/
def DirectiveValue.shift (distance : Nat) : DirectiveValue → DirectiveValue
  | .expression node => .expression (node.shift distance)
  | .loop aliases source word => .loop (aliases.shift distance) (source.shift distance) word
  | .handler statements => .handler (statements.map (Script.Node.shift distance))
  | .slotScope params => .slotScope (params.shift distance)
  | .invalid => .invalid

/-- The value, further right. -/
def AttributeValue.shift (value : AttributeValue) (distance : Nat) : AttributeValue :=
  { value with
    span := value.span.shift distance
    valueSpan := value.valueSpan.shift distance
    meaning := value.meaning.map (DirectiveValue.shift distance) }

/-- The attribute, further right. -/
def Attribute.shift (attr : Attribute) (distance : Nat) : Attribute :=
  ⟨attr.span.shift distance, attr.key.shift distance, attr.value.map (·.shift distance)⟩

/-- The attribute as it was read, further right. -/
def ReadAttribute.shift (read : ReadAttribute) (distance : Nat) : ReadAttribute :=
  ⟨read.attr.shift distance, read.equals.map (· + distance), read.unclosed⟩

/-- The start tag as it was read, further right. -/
def ReadTag.shift (tag : ReadTag) (distance : Nat) : ReadTag :=
  { tag with
    start := tag.start + distance
    attributes := tag.attributes.map (·.shift distance)
    stop := tag.stop + distance }

/-- The start tag, further right. -/
def StartTag.shift (tag : StartTag) (distance : Nat) : StartTag :=
  { tag with span := tag.span.shift distance, attributes := tag.attributes.map (·.shift distance) }

/-- The interpolation, further right. -/
def Interpolation.shift (content : Interpolation) (distance : Nat) : Interpolation :=
  ⟨content.opening.shift distance, content.closing.shift distance, content.expression.map (Script.Node.shift distance)⟩

/-- The piece, further right. -/
def Piece.shift (distance : Nat) : Piece → Piece
  | .comment span closed => .comment (span.shift distance) closed
  | .text start chars => .text (start + distance) chars
  | .interpolation content inner => .interpolation (content.shift distance) inner
  | .endTag name span close => .endTag name (span.shift distance) (close.map (· + distance))
  | .startTag tag => .startTag (tag.shift distance)
  | .raw span => .raw (span.shift distance)

/-! ## Keys -/

namespace Key

variable (distance : Nat)

theorem nameAt_shift (offset : Nat) (chars : List Char) : nameAt (offset + distance) chars =
    (nameAt offset chars).shift distance := by
  simp [nameAt, Name.shift, Span.shift, Nat.add_right_comm]

theorem dotted_shift (offset : Nat) (part chars : List Char) :
    dotted (offset + distance) part chars = (dotted offset part chars).map (·.shift distance) := by
  have hending : ∀ offset part, dotted.ending (offset + distance) part = (dotted.ending offset part).map (·.shift distance) := by
    intro offset part
    unfold dotted.ending
    split
    · rfl
    · rw [nameAt_shift]
      rfl
  induction chars generalizing offset part with
  | nil => exact hending offset part
  | cons c rest ih =>
    unfold dotted
    split
    · rw [List.map_append, ← ih, hending]
      congr 2
      omega
    · exact ih offset (c :: part)

theorem readArgument_shift (offset : Nat) (text : List Char) :
    readArgument (offset + distance) text =
      ((readArgument offset text).1.map (Argument.shift distance), (readArgument offset text).2.1 + distance,
        (readArgument offset text).2.2) := by
  unfold readArgument
  split
  · dsimp only
    split <;> simp [Argument.shift, Span.shift, Nat.add_right_comm]
  · dsimp only
    split <;> simp [Argument.shift, nameAt_shift, Nat.add_right_comm]

theorem directiveFrom_shift (whole : Span) (name : Name) (shorthand : Option Char) (hasArgument : Bool) (offset : Nat)
    (text : List Char) :
    directiveFrom (whole.shift distance) (name.shift distance) shorthand hasArgument (offset + distance) text =
      (directiveFrom whole name shorthand hasArgument offset text).shift distance := by
  have himplied : (if shorthand == some '.' then [⟨"prop",
    ⟨whole.start + distance, whole.start + distance⟩⟩] else [] : List Name) =
      (if shorthand == some '.' then [⟨"prop", ⟨whole.start, whole.start⟩⟩] else [] : List Name).map (·.shift distance) := by
    split <;> rfl
  unfold directiveFrom
  cases hasArgument with
  | true =>
    simp only [if_true, readArgument_shift]
    simp only [dotted_shift, DirectiveKey.shift, List.map_append, ← himplied]
    rfl
  | false =>
    simp only [Bool.false_eq_true, if_false, dotted_shift, DirectiveKey.shift, List.map_append, ← himplied]
    rfl

theorem writtenDirective_shift (whole : Span) (rest : List Char) :
    writtenDirective (whole.shift distance) rest = (writtenDirective whole rest).shift distance := by
  unfold writtenDirective
  dsimp only
  have hstop : (whole.shift distance).start + 2 + byteLength (rest.takeWhile fun c => c != ':' && c != '.') =
      whole.start + 2 + byteLength (rest.takeWhile fun c => c != ':' && c != '.') + distance := by
    simp only [Span.shift]
    omega
  rw [hstop]
  split
  · rw [← directiveFrom_shift, Nat.add_right_comm _ distance 1]
    rfl
  · rw [← directiveFrom_shift]
    rfl

theorem markedDirective_shift (whole : Span) (mark : Char) (name : String) (rest : List Char) :
    markedDirective (whole.shift distance) mark name rest = (markedDirective whole mark name rest).shift distance := by
  have hname : (⟨name, ⟨whole.start + distance, whole.start + distance + 1⟩⟩ : Name) =
      (⟨name, ⟨whole.start, whole.start + 1⟩⟩ : Name).shift distance := by
    rw [Nat.add_right_comm]
    rfl
  rw [markedDirective, markedDirective, ← directiveFrom_shift, ← hname, Nat.add_right_comm _ 1 distance]
  rfl

/-- A key is the same wherever its text stands. -/
theorem parse_shift (text : List Char) (start : Nat) (topLevel : Bool) :
    parse text (start + distance) topLevel = (parse text start topLevel).shift distance := by
  have hwhole : (⟨start + distance, start + distance + byteLength text⟩ : Span) =
      (⟨start, start + byteLength text⟩ : Span).shift distance := by
    rw [Nat.add_right_comm]
    rfl
  unfold parse
  dsimp only
  rw [hwhole]
  split
  · rw [nameAt_shift]
    rfl
  · split
    · rw [writtenDirective_shift]
      rfl
    · split
      · rw [markedDirective_shift]
        rfl
      · rw [nameAt_shift]
        rfl
    · rw [nameAt_shift]
      rfl

end Key

end Markup

/-! ## Fragments of script -/

theorem Span.shift_shift (span : Span) (a b : Nat) : (span.shift a).shift b = span.shift (a + b) := by
  simp [Span.shift, Nat.add_assoc]

namespace Script

mutual

/-- Moving a tree twice is moving it once. -/
theorem Node.shift_shift (a b : Nat) : ∀ node : Node, (node.shift a).shift b = node.shift (a + b)
  | ⟨kind, span, children⟩ => by
    have hkind : Node.shift.shiftKind b (Node.shift.shiftKind a kind) = Node.shift.shiftKind (a + b) kind := by
      cases kind <;> simp [Node.shift.shiftKind, Span.shift_shift]
    have hparts := Node.shiftAll_shiftAll a b children
    simp only [Node.shift, hkind, Span.shift_shift, hparts]

theorem Node.shiftAll_shiftAll (a b : Nat) : ∀ nodes : List Node,
    Node.shiftAll b (Node.shiftAll a nodes) = Node.shiftAll (a + b) nodes
  | [] => rfl
  | node :: rest => by
    have hfirst := Node.shift_shift a b node
    have hrest := Node.shiftAll_shiftAll a b rest
    simp only [Node.shiftAll, hfirst, hrest]

end

end Script

namespace Markup

namespace Fragment

variable (language : Script.Language) (distance : Nat) (text : List Char)

theorem expression?_shift (start : Nat) :
    expression? language (start + distance) text = (expression? language start text).map (Script.Node.shift distance) := by
  unfold expression?
  split
  · rfl
  · cases language.expression? text with
    | none => rfl
    | some node =>
      simp only [Option.bind_eq_bind, Option.bind_some]
      cases splitAt? node.span.stop text with
      | none => rfl
      | some parts =>
        simp only [Option.bind_some]
        split
        · simp [Script.Node.shift_shift]
        · rfl

theorem readArrow_shift (whole : List Char) (offset : Nat) :
    params?.readArrow language whole (offset + distance) =
      (params?.readArrow language whole offset).map (Script.Node.shift distance) := by
  unfold params?.readArrow
  cases language.expression? whole with
  | none => rfl
  | some node =>
    simp only [Option.bind_eq_bind, Option.bind_some]
    split
    · rfl
    · split
      · simp [Script.Node.shift_shift]
      · rfl

/-- A parameter list without parentheses is read one byte to the left of where it stands, so it cannot stand at the very
start of a file. -/
theorem params?_shift {start : Nat} (hstart : 0 < start) :
    params? language (start + distance) text = (params? language start text).map (Script.Node.shift distance) := by
  unfold params?
  dsimp only
  have hinner : start + distance + (byteLength text - byteLength (trimStart text)) =
      start + (byteLength text - byteLength (trimStart text)) + distance := by omega
  rw [hinner]
  generalize hat : start + (byteLength text - byteLength (trimStart text)) = inner
  have hpos : 0 < inner := by omega
  split
  · rfl
  · split
    · exact readArrow_shift language distance _ inner
    · rw [if_neg (by omega), if_neg (by omega), ← readArrow_shift]
      congr 1
      omega

theorem loop?_shift {start : Nat} (hstart : 0 < start) :
    loop? language (start + distance) text = (loop? language start text).map (DirectiveValue.shift distance) := by
  unfold loop?
  cases splitLoop? text with
  | none => rfl
  | some parts =>
    obtain ⟨aliasStop, word, sourceStart⟩ := parts
    simp only [Option.bind_eq_bind, Option.bind_some]
    rw [params?_shift language distance _ hstart]
    cases params? language start (slice text ⟨0, aliasStop⟩) with
    | none => rfl
    | some aliases =>
      simp only [Option.map_some, Option.bind_some]
      cases splitAt? sourceStart text with
      | none => rfl
      | some parts =>
        simp only [Option.bind_some]
        rw [Nat.add_right_comm, expression?_shift]
        cases expression? language (start + sourceStart) parts.2 <;> rfl

theorem handler_shift (start : Nat) : handler language
    (start + distance) text = (handler language start text).shift distance := by
  unfold handler
  rw [expression?_shift]
  cases expression? language start text with
  | some node => rfl
  | none =>
    simp only [Option.map_none]
    cases (language.program text).statements? with
    | none => rfl
    | some program => simp [DirectiveValue.shift, Function.comp_def, Script.Node.shift_shift]

/-- A directive says the same wherever its value stands. -/
theorem directiveValue_shift (name : String) {start : Nat} (hstart : 0 < start) :
    directiveValue language name (start + distance) text =
      (directiveValue language name start text).map (DirectiveValue.shift distance) := by
  have hgetD : ∀ value : Option DirectiveValue, ((value.map (DirectiveValue.shift distance)).getD .invalid) =
      (value.getD .invalid).shift distance := by
    intro value
    cases value <;> rfl
  have hslot : ∀ params : Option Script.Node,
      (((params.map (Script.Node.shift distance)).map DirectiveValue.slotScope).getD .invalid) =
        ((params.map DirectiveValue.slotScope).getD .invalid).shift distance := by
    intro params
    cases params <;> rfl
  have hexpression : ∀ node : Option Script.Node,
      (((node.map (Script.Node.shift distance)).map DirectiveValue.expression).getD .invalid) =
        ((node.map DirectiveValue.expression).getD .invalid).shift distance := by
    intro node
    cases node <;> rfl
  unfold directiveValue
  split
  · rfl
  split
  · rfl
  split
  · rw [loop?_shift language distance text hstart, hgetD]
    rfl
  split
  · rw [params?_shift language distance text hstart, hslot]
    rfl
  split
  · rw [handler_shift]
    rfl
  · rw [expression?_shift, hexpression]
    rfl

end Fragment

/-! ## Attributes -/

variable (distance : Nat)

theorem skipBlanks_shift (stream : Stream) : skipBlanks (stream.shift distance) = (skipBlanks stream).shift distance := by
  rw [skipBlanks, Stream.shift_span]
  rfl

theorem readValue_shift (language : Script.Language) (key : Key) {stream : Stream} (hpos : 0 < stream.offset) :
    readValue language (key.shift distance) (stream.shift distance) =
      ((readValue language key stream).1.shift distance, (readValue language key stream).2.1,
        (readValue language key stream).2.2.shift distance) := by
  have hvalue : ∀ (span valueSpan : Span) (inner : List Char) (quote : Option Char), 0 < valueSpan.start →
      readValue.value language (key.shift distance) (span.shift distance) (valueSpan.shift distance) inner quote =
        (readValue.value language key span valueSpan inner quote).shift distance := by
    intro span valueSpan inner quote hstart
    cases key with
    | plain name => rfl
    | directive directive =>
      have hmeaning := Fragment.directiveValue_shift language distance inner directive.name.text hstart
      simp only [readValue.value, Key.shift, AttributeValue.shift]
      rw [← hmeaning]
      rfl
  have hspan : ∀ a b : Nat, (⟨a + distance, b + distance⟩ : Span) = (⟨a, b⟩ : Span).shift distance := fun _ _ => rfl
  obtain ⟨offset, chars⟩ := stream
  cases chars with
  | nil =>
    unfold readValue
    dsimp only [Stream.shift]
    rw [hspan, hvalue _ _ _ _ hpos]
  | cons c rest =>
    unfold readValue
    dsimp only [Stream.shift]
    split
    · -- The offsets of a quoted value count from its first quote.
      have hstart : offset + distance + 1 = offset + 1 + distance := by omega
      have hstop : offset + 1 + distance + byteLength (rest.takeWhile (· != c)) =
          offset + 1 + byteLength (rest.takeWhile (· != c)) + distance := by omega
      rw [hstart, hstop]
      split
      · rw [Nat.add_right_comm _ distance 1, hspan, hspan, hvalue _ _ _ _ (Nat.succ_pos _)]
      · rw [hspan, hspan, hvalue _ _ _ _ (Nat.succ_pos _)]
    · have hrun := Stream.shift_span ⟨offset, c :: rest⟩ distance fun d => !isAsciiSpace d && d != '>'
      dsimp only [Stream.shift] at hrun
      rw [hrun]
      dsimp only
      rw [hspan, hvalue _ _ _ _ hpos]

/-- An attribute is the same wherever it stands. -/
theorem readAttribute_shift (around : Surroundings) (stream : Stream) :
    readAttribute around (stream.shift distance) =
      ((readAttribute around stream).1.shift distance, (readAttribute around stream).2.shift distance) := by
  unfold readAttribute
  dsimp only
  rw [Stream.shift_chars, Stream.shift_offset, Key.parse_shift, Stream.shift_after, skipBlanks_shift, Stream.shift_chars]
  generalize stream.after (wholeName stream.chars).1 (wholeName stream.chars).2 = afterName
  generalize Key.parse (wholeName stream.chars).1 stream.offset around.topLevel = key
  generalize hequals : skipBlanks afterName = equals
  obtain ⟨offset, chars⟩ := equals
  dsimp only
  split
  · rename_i tail
    have hnext : 0 < (skipBlanks (Stream.next ⟨offset, '=' :: tail⟩)).offset := by
      obtain ⟨_, hblanks, _⟩ := skipBlanks_reads (Stream.next ⟨offset, '=' :: tail⟩)
      refine Nat.lt_of_lt_of_le ?_ hblanks.offset_le
      have hsize := '='.utf8Size_pos
      simp only [Stream.next]
      omega
    rw [Stream.shift_next, skipBlanks_shift, readValue_shift distance around.language key hnext]
    rfl
  · rfl

theorem readAttributes_shift (around : Surroundings) (fuel : Nat) (stream : Stream) :
    readAttributes around fuel (stream.shift distance) =
      ((readAttributes around fuel stream).1.map (·.shift distance), (readAttributes around fuel stream).2.1,
        (readAttributes around fuel stream).2.2.shift distance) := by
  induction fuel generalizing stream with
  | zero => rfl
  | succ fuel ih =>
    unfold readAttributes
    dsimp only
    rw [skipBlanks_shift, Stream.shift_chars]
    generalize skipBlanks stream = here
    split
    · rfl
    · rw [Stream.shift_next]
      rfl
    · rw [Stream.shift_skip]
      rfl
    · rw [Stream.shift_next, ih]
    · rw [readAttribute_shift]
      dsimp only
      rw [ih]
      rfl

/-! ## Pieces -/

theorem readStartTag_shift (around : Surroundings) (stream : Stream) :
    readStartTag around (stream.shift distance) =
      ((readStartTag around stream).1.shift distance, (readStartTag around stream).2.shift distance) := by
  unfold readStartTag
  dsimp only
  rw [Stream.shift_chars, Stream.shift_next, Stream.shift_after, readAttributes_shift]
  rfl

theorem readEndTag_shift (stream : Stream) :
    readEndTag (stream.shift distance) = ((readEndTag stream).1.shift distance, (readEndTag stream).2.shift distance) := by
  unfold readEndTag
  dsimp only
  rw [Stream.shift_skip, Stream.shift_span]
  dsimp only
  rw [skipBlanks_shift, Stream.shift_chars]
  generalize skipBlanks ((Stream.skip 2 stream).span fun c => !isAsciiSpace c && c != '>').2 = close
  split
  · rw [Stream.shift_next]
    rfl
  · rfl

theorem readComment_shift (stream : Stream) :
    readComment (stream.shift distance) = ((readComment stream).1.shift distance, (readComment stream).2.shift distance) := by
  unfold readComment
  rw [Stream.shift_chars, Stream.shift_offset]
  split
  · simp [Piece.shift, Span.shift, Stream.shift, Nat.add_right_comm]
  · simp [Piece.shift, Span.shift, Stream.shift, Nat.add_right_comm]

theorem readText_shift (interpolates : Bool) (stream : Stream) :
    readText interpolates (stream.shift distance) =
      ((readText interpolates stream).1.shift distance, (readText interpolates stream).2.shift distance) := by
  unfold readText
  rw [Stream.shift_chars]
  dsimp only
  rw [Stream.shift_after]
  rfl

theorem readInterpolation?_shift (language : Script.Language) (stream : Stream) :
    readInterpolation? language (stream.shift distance) =
      (readInterpolation? language stream).map fun read => (read.1.shift distance, read.2.shift distance) := by
  unfold readInterpolation?
  rw [Stream.shift_chars]
  cases cutAt? ['}', '}'] (stream.chars.drop 2) with
  | none => rfl
  | some parts =>
    obtain ⟨inner, rest⟩ := parts
    have hinner : stream.offset + distance + 2 = stream.offset + 2 + distance := by omega
    have hstop : stream.offset + 2 + distance + byteLength inner = stream.offset + 2 + byteLength inner + distance := by omega
    simp [Piece.shift, Interpolation.shift, Span.shift, Stream.shift, hinner, hstop, Fragment.expression?_shift,
      Nat.add_right_comm _ distance 2]

theorem readContent_shift (around : Surroundings) (stream : Stream) :
    readContent around (stream.shift distance) =
      ((readContent around stream).1.shift distance, (readContent around stream).2.shift distance) := by
  have hstarts : (stream.shift distance).startsWith "\x7b\x7b" = stream.startsWith "\x7b\x7b" := rfl
  unfold readContent
  rw [hstarts, readInterpolation?_shift, readText_shift, readText_shift]
  split
  · cases readInterpolation? around.language stream <;> rfl
  · rfl

/-- A piece is the same wherever it stands. -/
theorem readPiece_shift (around : Surroundings) (stream : Stream) :
    readPiece around (stream.shift distance) =
      ((readPiece around stream).1.shift distance, (readPiece around stream).2.shift distance) := by
  unfold readPiece
  rw [Stream.shift_chars, readContent_shift, readComment_shift, readEndTag_shift, readStartTag_shift]
  split
  · rfl
  · split <;> rfl
  · split <;> rfl
  · rfl

/-- Raw content is the same wherever it stands. -/
theorem readRaw_shift (name : List Char) (stream : Stream) :
    readRaw name (stream.shift distance) = ((readRaw name stream).1.shift distance, (readRaw name stream).2.shift distance) := by
  unfold readRaw
  rw [Stream.shift_chars]
  dsimp only
  rw [Stream.shift_after]
  rfl

/-! ## What does not depend on the place -/

theorem Piece.span_shift (piece : Piece) : (piece.shift distance).span = piece.span.shift distance := by
  cases piece with
  | text start chars => simp [Piece.shift, Piece.span, Span.shift, Nat.add_right_comm]
  | comment | interpolation | endTag | startTag | raw => rfl

/-- Whether an attribute has problems depends neither on its place nor on where the file ends. -/
theorem ReadAttribute.problems_shift (read : ReadAttribute) (fileStop fileStop' : Nat) :
    (read.shift distance).problems fileStop = [] ↔ read.problems fileStop' = [] := by
  obtain ⟨⟨span, key, value⟩, equals, unclosed⟩ := read
  cases value with
  | none => exact Iff.rfl
  | some value =>
    obtain ⟨span', valueSpan, raw, quote, meaning⟩ := value
    cases unclosed <;> cases key <;> rcases meaning with _ | (_ | _ | _ | _ | _) <;>
      simp [shift, problems, Attribute.shift, AttributeValue.shift, Key.shift, DirectiveValue.shift]

/-- Whether a piece has problems depends neither on its place nor on where the file ends. -/
theorem Piece.problems_shift (piece : Piece) (fileStop fileStop' : Nat) :
    (piece.shift distance).problems fileStop = [] ↔ piece.problems fileStop' = [] := by
  cases piece with
  | comment span closed => cases closed <;> simp [shift, problems]
  | text | raw => exact Iff.rfl
  | interpolation content inner => simp [shift, problems, Interpolation.shift]
  | endTag name span close => cases close <;> simp [shift, problems]
  | startTag tag =>
    simp only [shift, problems, ReadTag.shift, List.append_eq_nil_iff, List.flatMap_eq_nil_iff, List.mem_map]
    refine and_congr ⟨fun h read hread => ?_, ?_⟩ ?_
    · exact (read.problems_shift distance fileStop fileStop').1 (h _ ⟨read, hread, rfl⟩)
    · rintro h _ ⟨read, hread, rfl⟩
      exact (read.problems_shift distance fileStop fileStop').2 (h read hread)
    · cases tag.ending <;> simp

/-- The start tag of an element. -/
def ReadTag.startTag (tag : ReadTag) : StartTag :=
  ⟨⟨tag.start, tag.stop⟩, tag.attributes.map (·.attr), tag.ending == .selfClosing⟩

theorem ReadTag.startTag_shift (tag : ReadTag) : (tag.shift distance).startTag = tag.startTag.shift distance := by
  simp [shift, startTag, StartTag.shift, Span.shift, ReadAttribute.shift]

theorem Attribute.isPlain_shift (attr : Attribute) (name : String) : (attr.shift distance).isPlain name = attr.isPlain name := by
  obtain ⟨span, key, value⟩ := attr
  cases key <;> rfl

end Markup

end ComponentLint
