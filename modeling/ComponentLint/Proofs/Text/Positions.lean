import ComponentLint.Proofs.Text.Reading

/-!
# Spans of a text

`Span.InText` says that a span can be cut out of a text: its ends are positions of the text, in order. Positions come from
readers, which step from one to the next, and from the parts of a slice.
-/

namespace ComponentLint

open Text

/-- A span whose ends are positions of a text, in order. -/
structure Span.InText (text : List Char) (span : Span) : Prop where
  ordered : span.start ≤ span.stop
  start : isBoundary text span.start = true
  stop : isBoundary text span.stop = true

instance (text : List Char) (span : Span) : Decidable (span.InText text) :=
  decidable_of_iff (span.start ≤ span.stop ∧ isBoundary text span.start = true ∧ isBoundary text span.stop = true)
    ⟨fun h => ⟨h.1, h.2.1, h.2.2⟩, fun h => ⟨h.ordered, h.start, h.stop⟩⟩

namespace Text

/-- The length of the part at the front of a text is a position of it. -/
theorem isBoundary_append (a b : List Char) : isBoundary (a ++ b) (byteLength a) = true :=
  isBoundary_iff.2 ⟨a, b, rfl, rfl⟩

@[simp] theorem isBoundary_zero (text : List Char) : isBoundary text 0 = true :=
  isBoundary_append [] text

@[simp] theorem isBoundary_byteLength (text : List Char) : isBoundary text (byteLength text) = true := by
  simpa using isBoundary_append text []

/-- A position of a part is one of the whole. -/
theorem isBoundary_inside {a b c : List Char} {offset : Nat} (h : isBoundary b offset = true) :
    isBoundary (a ++ (b ++ c)) (byteLength a + offset) = true := by
  obtain ⟨before, after, rfl, rfl⟩ := isBoundary_iff.1 h
  exact isBoundary_iff.2 ⟨a ++ before, after ++ c, by simp, by simp⟩

end Text

namespace Span.InText

variable {text : List Char} {span : Span}

/-- A span cuts a text into three parts. -/
theorem parts (h : span.InText text) :
    ∃ a b c, text = a ++ (b ++ c) ∧ span = ⟨byteLength a, byteLength a + byteLength b⟩ := by
  obtain ⟨a, b, c, rfl, hstart, hstop⟩ := exists_parts h.start h.stop h.ordered
  exact ⟨a, b, c, rfl, by rw [hstop, hstart]⟩

/-- The empty span at a position. -/
theorem empty {offset : Nat} (h : isBoundary text offset = true) : InText text ⟨offset, offset⟩ :=
  ⟨Nat.le_refl _, h, h⟩

/-- From the end of one span to the start of a later one. -/
theorem gap {first last : Span} (hfirst : first.InText text) (hlast : last.InText text)
    (hle : first.stop ≤ last.start) : InText text ⟨first.stop, last.start⟩ :=
  ⟨hle, hfirst.stop, hlast.start⟩

/-- The slice of a span takes the bytes of the span. -/
theorem byteLength_slice (h : span.InText text) : span.start + byteLength (slice text span) = span.stop := by
  obtain ⟨a, b, c, rfl, rfl⟩ := h.parts
  rw [slice_append]

/-- A position of the slice of a span is one of the text. -/
theorem isBoundary_slice (h : span.InText text) {offset : Nat} (hoffset : isBoundary (slice text span) offset = true) :
    isBoundary text (span.start + offset) = true := by
  obtain ⟨a, b, c, rfl, rfl⟩ := h.parts
  rw [slice_append] at hoffset
  exact isBoundary_inside hoffset

end Span.InText

/-- Only a span of the text has a slice that is not empty. -/
theorem Text.inText_of_slice {text : List Char} {span : Span} (h : slice text span ≠ []) : span.InText text := by
  unfold slice slice? at h
  split at h
  · next hle =>
    cases hstart : splitAt? span.start text with
    | none => simp [hstart] at h
    | some parts =>
      obtain ⟨a, rest⟩ := parts
      cases hstop : splitAt? (span.stop - span.start) rest with
      | none => simp [hstart, hstop] at h
      | some parts =>
        obtain ⟨b, c⟩ := parts
        obtain ⟨rfl, ha⟩ := splitAt?_eq_some_iff.1 hstart
        obtain ⟨rfl, hb⟩ := splitAt?_eq_some_iff.1 hstop
        refine ⟨hle, isBoundary_iff.2 ⟨a, b ++ c, rfl, ha⟩, isBoundary_iff.2 ⟨a ++ b, c, by simp, ?_⟩⟩
        rw [byteLength_append]
        omega
  · exact absurd rfl h

/-! ## Parts of a text -/

/-- A part of a text that starts at an offset. -/
def Text.Stands (text : List Char) (offset : Nat) (part : List Char) : Prop :=
  ∃ before after, text = before ++ (part ++ after) ∧ byteLength before = offset

namespace Text.Stands

variable {text a b : List Char} {offset : Nat}

theorem front (h : Stands text offset (a ++ b)) : Stands text offset a := by
  obtain ⟨before, after, rfl, rfl⟩ := h
  exact ⟨before, b ++ after, by simp, rfl⟩

theorem rear (h : Stands text offset (a ++ b)) : Stands text (offset + byteLength a) b := by
  obtain ⟨before, after, rfl, rfl⟩ := h
  exact ⟨before ++ a, after, by simp, by simp⟩

/-- A position of a part is one of the text. -/
theorem isBoundary (h : Stands text offset a) {inner : Nat} (hinner : isBoundary a inner = true) :
    Text.isBoundary text (offset + inner) = true := by
  obtain ⟨before, after, rfl, rfl⟩ := h
  exact isBoundary_inside hinner

theorem start (h : Stands text offset a) : Text.isBoundary text offset = true :=
  h.isBoundary (isBoundary_zero a)

theorem span (h : Stands text offset a) : Span.InText text ⟨offset, offset + byteLength a⟩ :=
  ⟨Nat.le_add_right _ _, h.start, h.isBoundary (isBoundary_byteLength a)⟩

/-- A part of a part is one of the text. -/
theorem trans {inner : Nat} (h : Stands text offset a) (hinner : Stands a inner b) : Stands text (offset + inner) b := by
  obtain ⟨before, after, rfl, rfl⟩ := h
  obtain ⟨left, right, rfl, rfl⟩ := hinner
  exact ⟨before ++ left, right ++ after, by simp, by simp⟩

end Text.Stands

namespace Text

/-- A part is cut out of a text by the span that starts where the part stands and has its length. -/
theorem slice?_eq_some_iff {text part : List Char} {span : Span} :
    slice? text span = some part ↔ Stands text span.start part ∧ span.stop = span.start + byteLength part := by
  constructor
  · intro h
    unfold slice? at h
    split at h
    · next hle =>
      obtain ⟨⟨before, rest⟩, hbefore, h⟩ := Option.bind_eq_some_iff.1 h
      obtain ⟨⟨inside, after⟩, hinside, h⟩ := Option.bind_eq_some_iff.1 h
      obtain rfl : inside = part := Option.some.inj h
      obtain ⟨rfl, hstart⟩ := splitAt?_eq_some_iff.1 hbefore
      obtain ⟨rfl, hlength⟩ := splitAt?_eq_some_iff.1 hinside
      exact ⟨⟨before, after, rfl, hstart⟩, by omega⟩
    · cases h
  · rintro ⟨⟨before, after, rfl, hstart⟩, hstop⟩
    simp [slice?, hstop, ← hstart, splitAt?_byteLength]

/-- The slice from a position on stands there. -/
theorem stands_slice {text : List Char} (span : Span) (hstart : isBoundary text span.start = true) :
    Stands text span.start (slice text span) := by
  by_cases hempty : slice text span = []
  · obtain ⟨before, after, rfl, hbefore⟩ := isBoundary_iff.1 hstart
    exact ⟨before, after, by rw [hempty, List.nil_append], hbefore⟩
  · obtain ⟨a, b, c, rfl, rfl⟩ := (inText_of_slice hempty).parts
    rw [slice_append]
    exact ⟨a, c, rfl, rfl⟩

/-- Without its trailing blanks a text is a part at its front. -/
theorem trimEnd_append (text : List Char) : trimEnd text ++ (text.reverse.takeWhile isSpace).reverse = text := by
  rw [trimEnd, ← List.reverse_append, List.takeWhile_append_dropWhile, List.reverse_reverse]

/-- Without the blanks at its ends a text stands behind the first of them. -/
theorem Stands.trim {text part : List Char} {offset : Nat} (h : Stands text offset part) :
    Stands text (offset + (byteLength part - byteLength (trimStart part))) (trim part) := by
  have hlead : part.takeWhile isSpace ++ trimStart part = part := List.takeWhile_append_dropWhile
  have hlength := congrArg byteLength hlead
  rw [byteLength_append] at hlength
  rw [show byteLength part - byteLength (trimStart part) = byteLength (part.takeWhile isSpace) by omega]
  have hrest : Stands text (offset + byteLength (part.takeWhile isSpace)) (trimStart part) :=
    Stands.rear (by rwa [hlead])
  rw [← trimEnd_append (trimStart part)] at hrest
  exact hrest.front

end Text

/-! ## States of a stream -/

namespace Stream.Before

variable {s t : Stream}

/-- A stream that is left of a text stands at a position of it. -/
theorem isBoundary {text : List Char} (h : Before ⟨0, text⟩ s) : Text.isBoundary text s.offset = true := by
  obtain ⟨taken, hr⟩ := h
  have hoffset : s.offset = byteLength taken := by simpa using hr.offset
  rw [hoffset, show text = taken ++ s.chars from hr.chars]
  exact isBoundary_append taken s.chars

/-- What stands between two states of a stream is a span of the text. -/
theorem inText {text : List Char} (hs : Before ⟨0, text⟩ s) (h : s.Before t) : Span.InText text ⟨s.offset, t.offset⟩ :=
  ⟨h.offset_le, hs.isBoundary, (hs.trans h).isBoundary⟩

/-- What is read from a state of a stream stands there. -/
theorem stands {text taken : List Char} (hs : Before ⟨0, text⟩ s) (h : s.Reads taken t) : Stands text s.offset taken := by
  obtain ⟨before, hr⟩ := hs
  refine ⟨before, t.chars, ?_, ?_⟩
  · rw [← h.chars]
    exact hr.chars
  · simpa using hr.offset.symm

end Stream.Before

end ComponentLint
