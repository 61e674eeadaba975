import ComponentLint.Proofs.Text.Positions
import ComponentLint.Text.Lines
import Mathlib.Data.List.Induction

/-!
# Lines and columns of bytes

A line index is searched for the last start that is not behind an offset. The number that is found is the number of line feeds
before the offset (`line_ofText`), so the lines of the two ends of a span differ by the line feeds inside it (`line_stop`).

The index of a text is made from its characters and searched with offsets, which count bytes and may lie inside a character or
behind the text. Seen from the bytes, a line starts at 0 and behind every line feed (`startsFrom_eq`), and the starts that are
passed on the way to an offset are those of the bytes before it (`takeWhile_startsBehind`). So the line of any offset is the
number of line feeds before it, its column is the distance from the last of them, and no two offsets have one place
(`position_exact`).
-/

namespace ComponentLint

open Text

/-! ## Line numbers of positions -/

namespace LineIndex

theorem lt_of_mem_startsFrom {offset start : Nat} {text : List Char} (h : start ∈ startsFrom offset text) : offset < start := by
  induction text generalizing offset with
  | nil => cases h
  | cons c rest ih =>
    have hsize := c.utf8Size_pos
    have hrest : start ∈ startsFrom (offset + c.utf8Size) rest → offset < start := by
      intro hmem
      have hlt := ih hmem
      omega
    by_cases hc : c = '\n'
    · simp only [startsFrom, hc, beq_self_eq_true, if_true, List.mem_cons] at h
      rcases h with rfl | h
      · exact Nat.lt_add_of_pos_right (by decide)
      · exact hrest (hc ▸ h)
    · simp only [startsFrom, beq_iff_eq, hc, if_false] at h
      exact hrest h

/-- The lines that start up to a position are those after the line feeds before it. -/
theorem length_takeWhile_startsFrom {before : List Char} (rest : List Char) {offset stop : Nat}
    (hstop : offset + byteLength before = stop) :
    ((startsFrom offset (before ++ rest)).takeWhile (· ≤ stop)).length = before.count '\n' := by
  induction before generalizing offset with
  | nil =>
    rw [List.count_nil, List.length_eq_zero_iff, List.takeWhile_eq_nil_iff]
    intro hpos hle
    have hlt := lt_of_mem_startsFrom (List.getElem_mem hpos)
    have hle := of_decide_eq_true hle
    rw [← hstop, byteLength_nil, Nat.add_zero] at hle
    exact Nat.not_lt_of_le hle hlt
  | cons c before ih =>
    have hnext : offset + c.utf8Size + byteLength before = stop := by rw [← hstop, byteLength_cons, Nat.add_assoc]
    have hle : offset + c.utf8Size ≤ stop := hnext ▸ Nat.le_add_right _ _
    by_cases hc : c = '\n'
    · subst hc
      simp [startsFrom, hle, ih hnext]
    · simp [startsFrom, hc, ih hnext]

/-- The line of a position is the number of line feeds before it. -/
theorem line_ofText (before rest : List Char) : (ofText (before ++ rest)).line (byteLength before) = before.count '\n' := by
  have hstarts := length_takeWhile_startsFrom rest (Nat.zero_add (byteLength before))
  simp [line, position, ofText, hstarts]

variable {text : List Char} {span : Span}

/-- From the start of a span to its end, the line grows by the line feeds of the span. -/
theorem line_stop (h : span.InText text) :
    (ofText text).line span.stop = (ofText text).line span.start + lineBreaks text span := by
  obtain ⟨before, inside, rest, rfl, rfl⟩ := h.parts
  have hstop := line_ofText (before ++ inside) rest
  rw [List.append_assoc, byteLength_append, List.count_append] at hstop
  rw [lineBreaks, slice_append, hstop, line_ofText]

/-- The ends of a span are on different lines exactly if it has a line feed in it. -/
theorem line_ne_iff (h : span.InText text) :
    (ofText text).line span.start ≠ (ofText text).line span.stop ↔ '\n' ∈ slice text span := by
  have hstop := line_stop h
  rw [lineBreaks] at hstop
  rw [← List.count_pos_iff]
  omega

end LineIndex

/-! ## Places of offsets -/

/-- A place comes before another one: on an earlier line, or further left on the same line. -/
def LineColumn.Before (a b : LineColumn) : Prop :=
  a.line < b.line ∨ (a.line = b.line ∧ a.column < b.column)

instance (a b : LineColumn) : Decidable (a.Before b) :=
  inferInstanceAs (Decidable (_ ∨ _))

theorem LineColumn.not_before_self (place : LineColumn) : ¬place.Before place := by
  rintro (hline | ⟨-, hcolumn⟩)
  · exact Nat.lt_irrefl _ hline
  · exact Nat.lt_irrefl _ hcolumn

namespace LineIndex

/-- The byte of a line feed. -/
def lineFeed : UInt8 := 10

/-- The last start of a line up to an offset: 0 or behind a line feed, with no line feed from there to the offset. -/
structure LastStart (bytes : List UInt8) (offset start : Nat) : Prop where
  le : start ≤ offset
  behind : start = 0 ∨ ∃ place, start = place + 1 ∧ bytes[place]? = some lineFeed
  last : ∀ place, start ≤ place → place < offset → bytes[place]? ≠ some lineFeed

/-- The offsets behind the line feeds of bytes that themselves start at `offset`. -/
def startsBehind (offset : Nat) : List UInt8 → List Nat
  | [] => []
  | byte :: rest =>
    if byte = lineFeed then (offset + 1) :: startsBehind (offset + 1) rest else startsBehind (offset + 1) rest

/-! ## Starts of lines -/

theorem startsBehind_append (offset : Nat) (first second : List UInt8) :
    startsBehind offset (first ++ second) = startsBehind offset first ++ startsBehind (offset + first.length) second := by
  induction first generalizing offset with
  | nil => rfl
  | cons byte first ih =>
    have hlength : offset + (first.length + 1) = offset + 1 + first.length := by omega
    by_cases hfeed : byte = lineFeed
    · simp [startsBehind, hfeed, ih, hlength]
    · simp [startsBehind, hfeed, ih, hlength]

theorem startsBehind_of_notMem {bytes : List UInt8} (h : lineFeed ∉ bytes) (offset : Nat) : startsBehind offset bytes = [] := by
  induction bytes generalizing offset with
  | nil => rfl
  | cons byte rest ih =>
    rw [List.mem_cons, not_or] at h
    rw [startsBehind, if_neg (Ne.symm h.1), ih h.2]

theorem length_startsBehind (offset : Nat) (bytes : List UInt8) : (startsBehind offset bytes).length = bytes.count lineFeed := by
  induction bytes generalizing offset with
  | nil => rfl
  | cons byte rest ih =>
    by_cases hfeed : byte = lineFeed
    · simp [startsBehind, hfeed, ih]
    · simp [startsBehind, hfeed, ih]

theorem lt_of_mem_startsBehind {offset start : Nat} {bytes : List UInt8} (h : start ∈ startsBehind offset bytes) :
    offset < start := by
  induction bytes generalizing offset with
  | nil => cases h
  | cons byte rest ih =>
    unfold startsBehind at h
    split at h
    · rcases List.mem_cons.1 h with rfl | hlater
      · exact Nat.lt_succ_self offset
      · exact Nat.lt_of_succ_lt (ih hlater)
    · exact Nat.lt_of_succ_lt (ih h)

/-- A line feed is one byte, and no other character has that byte in it. -/
theorem lineFeed_mem_utf8EncodeChar {c : Char} : lineFeed ∈ String.utf8EncodeChar c ↔ c = '\n' := by
  have hfeed : lineFeed ∈ String.utf8EncodeChar '\n' := by decide
  constructor
  · exact fun hmem => eq_of_mem_utf8EncodeChar (by decide) hfeed hmem
  · rintro rfl
    exact hfeed

/-- The lines of a text start behind the line feeds among its bytes. -/
theorem startsFrom_eq (offset : Nat) (text : List Char) : startsFrom offset text = startsBehind offset (bytes text) := by
  induction text generalizing offset with
  | nil => rfl
  | cons c rest ih =>
    rw [bytes_cons, startsBehind_append, String.length_utf8EncodeChar, ← ih]
    by_cases hc : c = '\n'
    · subst hc
      rfl
    · have hnone := startsBehind_of_notMem (mt lineFeed_mem_utf8EncodeChar.1 hc) offset
      simp [startsFrom, hc, hnone]

/-- The starts up to an offset are those behind the line feeds before it. -/
theorem takeWhile_startsBehind (bytes : List UInt8) (first count : Nat) :
    (startsBehind first bytes).takeWhile (· ≤ first + count) = startsBehind first (bytes.take count) := by
  induction count generalizing bytes first with
  | zero =>
    rw [List.take_zero, startsBehind, List.takeWhile_eq_nil_iff]
    intro hpos hle
    exact Nat.not_lt_of_le (of_decide_eq_true hle) (lt_of_mem_startsBehind (List.getElem_mem hpos))
  | succ count ih =>
    cases bytes with
    | nil => rfl
    | cons byte rest =>
      have hrest := ih rest (first + 1)
      rw [Nat.add_right_comm, Nat.add_assoc] at hrest
      by_cases hfeed : byte = lineFeed
      · simp [startsBehind, hfeed, hrest]
      · simp [startsBehind, hfeed, hrest]

/-- The last of the starts that are passed on the way through bytes, with the starts before it. -/
theorem exists_lastStart (bytes rest : List UInt8) :
    ∃ before start, 0 :: startsBehind 0 bytes = before ++ [start] ∧ LastStart (bytes ++ rest) bytes.length start := by
  induction bytes using List.reverseRecOn generalizing rest with
  | nil => exact ⟨[], 0, rfl, Nat.le_refl 0, .inl rfl, fun place _ hlt => absurd hlt (Nat.not_lt_zero place)⟩
  | append_singleton bytes byte ih =>
    have hplace : (bytes ++ (byte :: rest))[bytes.length]? = some byte := by simp
    rw [startsBehind_append, List.append_assoc, List.singleton_append, List.length_append, List.length_singleton, Nat.zero_add]
    by_cases hfeed : byte = lineFeed
    · refine ⟨0 :: startsBehind 0 bytes, bytes.length + 1, by simp [startsBehind, hfeed], Nat.le_refl _,
        .inr ⟨bytes.length, rfl, hfeed ▸ hplace⟩, fun place hle hlt => absurd hlt (Nat.not_lt_of_le hle)⟩
    · obtain ⟨before, start, hstarts, hlast⟩ := ih (byte :: rest)
      refine ⟨before, start, by simpa [startsBehind, hfeed] using hstarts, Nat.le_succ_of_le hlast.le, hlast.behind, ?_⟩
      intro place hle hlt
      rcases Nat.lt_succ_iff_lt_or_eq.1 hlt with hbefore | rfl
      · exact hlast.last place hle hbefore
      · rw [hplace]
        exact fun heq => hfeed (Option.some.inj heq)

/-! ## Places -/

variable (text : List Char)

/-- The starts that are passed on the way to an offset. -/
theorem takeWhile_starts (offset : Nat) :
    (ofText text).starts.takeWhile (· ≤ offset) = 0 :: startsBehind 0 ((bytes text).take offset) := by
  have hbehind := takeWhile_startsBehind (bytes text) 0 offset
  rw [Nat.zero_add] at hbehind
  rw [ofText, startsFrom_eq, List.takeWhile_cons_of_pos (by simp), hbehind]

/-- The line of an offset is the number of line feeds before it. -/
theorem line_position (offset : Nat) :
    ((ofText text).position offset).line = ((bytes text).take offset).count lineFeed := by
  rw [position, takeWhile_starts, List.length_cons, length_startsBehind, Nat.add_sub_cancel]

/-- Behind the bytes there are no line feeds, so the last start up to their end is the last one up to any later offset. -/
theorem LastStart.extend {bytes : List UInt8} {offset start : Nat} (h : LastStart bytes (bytes.take offset).length start) :
    LastStart bytes offset start := by
  have hlength := List.length_take_le offset bytes
  refine ⟨Nat.le_trans h.le hlength, h.behind, fun place hle hlt => ?_⟩
  by_cases hinside : place < bytes.length
  · exact h.last place hle (by rw [List.length_take]; omega)
  · rw [List.getElem?_eq_none (Nat.not_lt.1 hinside)]
    exact nofun

/-- The line of an offset starts at the last start up to it, and its column is the distance from there. -/
theorem exists_start (offset : Nat) : ∃ start, (ofText text).lineStart? ((ofText text).position offset).line = some start ∧
    start + ((ofText text).position offset).column = offset ∧ LastStart (bytes text) offset start := by
  obtain ⟨before, start, hpassed, hlast⟩ := exists_lastStart ((bytes text).take offset) ((bytes text).drop offset)
  rw [List.take_append_drop] at hlast
  have hstart := hlast.extend
  rw [← takeWhile_starts] at hpassed
  have hplace : (ofText text).position offset = ⟨before.length, offset - start⟩ := by simp [position, hpassed]
  refine ⟨start, ?_, hplace ▸ Nat.add_sub_cancel' hstart.le, hstart⟩
  rw [hplace, lineStart?, ← List.takeWhile_append_dropWhile (p := (decide <| · ≤ offset)) (l := (ofText text).starts), hpassed]
  simp

/-- A later offset is on a later line or further right. -/
theorem position_before {offset later : Nat} (h : offset < later) :
    ((ofText text).position offset).Before ((ofText text).position later) := by
  have hle : ((ofText text).position offset).line ≤ ((ofText text).position later).line := by
    rw [line_position, line_position]
    exact (List.take_sublist_take_left (Nat.le_of_lt h)).count_le lineFeed
  rcases Nat.lt_or_eq_of_le hle with hlt | heq
  · exact .inl hlt
  · obtain ⟨start, hstart, hoffset, -⟩ := exists_start text offset
    obtain ⟨start', hstart', hlater, -⟩ := exists_start text later
    rw [heq, hstart'] at hstart
    obtain rfl := Option.some.inj hstart
    exact .inr ⟨heq, by omega⟩

/-- Every offset has a place, also one inside a character or behind the text: at least one start is passed on the way to it, its
line is the number of line feeds before it, and its column is the distance from behind the last of them, or from 0, where its line
starts. A later offset has a later place, so the place tells the offset; and from one position of the text to a later one the line
grows by the line breaks between them. -/
theorem position_exact :
    (∀ offset, ((ofText text).starts.takeWhile (· ≤ offset)).length = ((ofText text).position offset).line + 1 ∧
      ((ofText text).position offset).line = ((bytes text).take offset).count lineFeed ∧
      ∃ start, (ofText text).lineStart? ((ofText text).position offset).line = some start ∧
        start + ((ofText text).position offset).column = offset ∧ LastStart (bytes text) offset start) ∧
    (∀ offset later, offset < later → ((ofText text).position offset).Before ((ofText text).position later)) ∧
    Function.Injective (ofText text).position ∧
    ∀ first last, isBoundary text first = true → isBoundary text last = true → first ≤ last →
      (ofText text).line last = (ofText text).line first + lineBreaks text ⟨first, last⟩ := by
  refine ⟨fun offset => ⟨?_, line_position text offset, exists_start text offset⟩, fun _ _ => position_before text, ?_, ?_⟩
  · rw [line_position, takeWhile_starts, List.length_cons, length_startsBehind]
  · intro offset other heq
    rcases Nat.lt_trichotomy offset other with hlt | rfl | hlt
    · exact absurd (heq ▸ position_before text hlt) (LineColumn.not_before_self _)
    · rfl
    · exact absurd (heq ▸ position_before text hlt) (LineColumn.not_before_self _)
  · intro first last hfirst hlast hle
    have hspan : Span.InText text ⟨first, last⟩ := ⟨hle, hfirst, hlast⟩
    exact line_stop hspan

/-- A text with a character of two bytes, an empty line and no line feed at its end. -/
def emptyLine : List Char :=
  "é\n\nb".toList

/-- From behind the first character to the end two lines are passed, and an offset behind the end is further right there. -/
theorem position_exact_emptyLine : isBoundary emptyLine 2 = true ∧ isBoundary emptyLine 5 = true ∧
    (ofText emptyLine).line 5 = (ofText emptyLine).line 2 + lineBreaks emptyLine ⟨2, 5⟩ ∧
    lineBreaks emptyLine ⟨2, 5⟩ = 2 ∧ (⟨2, 1⟩ : LineColumn).Before ((ofText emptyLine).position 9) := by
  obtain ⟨-, hbefore, -, hbreaks⟩ := position_exact emptyLine
  have hfirst : isBoundary emptyLine 2 = true := by decide
  have hlast : isBoundary emptyLine 5 = true := by decide
  exact ⟨hfirst, hlast, hbreaks 2 5 hfirst hlast (by decide), by decide, hbefore 5 9 (by decide)⟩

end LineIndex

end ComponentLint
