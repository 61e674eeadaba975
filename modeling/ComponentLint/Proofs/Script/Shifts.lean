import ComponentLint.Proofs.Text.Reading
import ComponentLint.Script.Cursor

/-!
# Tokens at another place

What token stands at the front of a text does not depend on where the text stands. Each lemma here says so for one reader: read
from a stream that starts `distance` bytes further right, it gives the same, and leaves the same text that much further right.
-/

namespace ComponentLint.Script

open Text

variable (stream : Stream) (distance : Nat)

/-! ## Escapes and words -/

theorem fixedHex_shift (count value : Nat) :
    fixedHex count value (stream.shift distance) =
      (fixedHex count value stream).map fun found => (found.1, found.2.shift distance) := by
  induction count generalizing value stream with
  | zero => rfl
  | succ count ih =>
    simp only [fixedHex, Stream.shift_chars, Stream.shift_next]
    split
    · next c _ _ =>
      cases digitValue? 16 c with
      | none => rfl
      | some digit => exact ih _ _
    · rfl

theorem unicodeCode_shift :
    unicodeCode (stream.shift distance) = (unicodeCode stream).map fun found => (found.1, found.2.shift distance) := by
  simp only [unicodeCode, Stream.shift_chars, Stream.shift_next, Stream.shift_span]
  split
  · split
    · split <;> rfl
    · rfl
  · exact fixedHex_shift stream distance 4 0

theorem unicodeChars_shift :
    unicodeChars (stream.shift distance) = (unicodeChars stream).map fun found => (found.1, found.2.shift distance) := by
  rw [unicodeChars, unicodeChars, unicodeCode_shift]
  cases unicodeCode stream with
  | none => rfl
  | some found =>
    obtain ⟨code, after⟩ := found
    simp only [Option.map_some, Option.bind_eq_bind, Option.bind_some, Stream.shift_chars, Stream.shift_skip, unicodeCode_shift]
    split
    · split
      · cases unicodeCode (after.skip 2) with
        | none => rfl
        | some low =>
          dsimp only [Option.map_some]
          split <;> rfl
      · rfl
    · split <;> rfl

theorem escapeChars_shift (octal : Bool) :
    escapeChars octal (stream.shift distance) =
      (escapeChars octal stream).map fun found => (found.1, found.2.shift distance) := by
  simp only [escapeChars, Stream.shift_chars, Stream.shift_next, Stream.shift_skip, fixedHex_shift, unicodeChars_shift]
  split
  · rfl
  · split
    all_goals first | rfl | skip
    · simp only [Option.map_map]
      rfl
    · split <;> rfl
    · repeat' split
      all_goals rfl

theorem wordChars_shift (fuel : Nat) (first : Bool) :
    wordChars fuel first (stream.shift distance) =
      (wordChars fuel first stream).map fun found => (found.1, found.2.1, found.2.2.shift distance) := by
  induction fuel generalizing first stream with
  | zero => rfl
  | succ fuel ih =>
    simp only [wordChars, Stream.shift_chars, Stream.shift_next, Stream.shift_skip, unicodeCode_shift]
    generalize hfits : (fun c => if first then isIdStart c else isIdContinue c) = fits
    split
    · cases unicodeCode (stream.skip 2) with
      | none => rfl
      | some found =>
        simp only [Option.map_some, Option.bind_eq_bind, Option.bind_some, ih]
        rw [apply_ite (Option.map _)]
        cases wordChars fuel false found.2 <;> rfl
    · rfl
    · simp only [ih, apply_ite (Option.map _)]
      cases wordChars fuel false stream.next <;> rfl
    · rw [apply_ite (Option.map _)]
      rfl

theorem readWord_shift :
    readWord (stream.shift distance) = (readWord stream).map fun found => (found.1, found.2.1, found.2.2.shift distance) := by
  rw [readWord, readWord, Stream.shift_chars, wordChars_shift, Option.map_map, Option.map_map]
  rfl

/-! ## Strings and templates -/

theorem stringChars_shift (quote : Char) (fuel : Nat) :
    stringChars quote fuel (stream.shift distance) =
      (stringChars quote fuel stream).map fun found => (found.1, found.2.shift distance) := by
  induction fuel generalizing stream with
  | zero => rfl
  | succ fuel ih =>
    simp only [stringChars, Stream.shift_chars, Stream.shift_next, escapeChars_shift]
    split
    · rfl
    · cases escapeChars true stream.next with
      | none => rfl
      | some found =>
        simp only [Option.map_some, Option.bind_eq_bind, Option.bind_some, ih]
        cases stringChars quote fuel found.2 <;> rfl
    · simp only [ih]
      repeat' split
      · rfl
      · rfl
      · cases stringChars quote fuel stream.next <;> rfl

theorem templateChars_shift (fuel : Nat) :
    templateChars fuel (stream.shift distance) =
      (templateChars fuel stream).map fun found => (found.1, found.2.1, found.2.2.shift distance) := by
  induction fuel generalizing stream with
  | zero => rfl
  | succ fuel ih =>
    simp only [templateChars, Stream.shift_chars, Stream.shift_next, Stream.shift_skip, escapeChars_shift, ih]
    split
    · rfl
    · rfl
    · rfl
    · cases escapeChars false stream.next with
      | none =>
        dsimp only [Option.map_none]
        split
        · rfl
        · cases templateChars fuel (stream.skip 2) <;> rfl
      | some found =>
        simp only [Option.map_some, ih]
        cases templateChars fuel found.2 <;> rfl
    · split
      · simp only [ih]
        cases templateChars fuel (stream.skip 2) <;> rfl
      · simp only [ih]
        cases templateChars fuel stream.next <;> rfl
    · cases templateChars fuel stream.next <;> rfl

theorem readTemplate_shift :
    readTemplate (stream.shift distance) = ((readTemplate stream).1, (readTemplate stream).2.shift distance) := by
  rw [readTemplate, readTemplate, Stream.shift_chars, templateChars_shift]
  cases templateChars (stream.chars.length + 1) stream <;> rfl

/-! ## Numbers -/

theorem separatedDigits_shift (test : Char → Bool) :
    separatedDigits test (stream.shift distance) =
      (separatedDigits test stream).map fun found => (found.1, found.2.shift distance) := by
  simp only [separatedDigits, Stream.shift_span]
  split <;> rfl

theorem endNumber_shift (token : Token) :
    endNumber token (stream.shift distance) = ((endNumber token stream).1, (endNumber token stream).2.shift distance) := by
  simp only [endNumber, Stream.shift_chars]
  split
  · split <;> rfl
  · rfl

theorem basedNumber_shift (base : Nat) :
    basedNumber base (stream.shift distance) = ((basedNumber base stream).1, (basedNumber base stream).2.shift distance) := by
  rw [basedNumber, basedNumber, separatedDigits_shift]
  cases separatedDigits (fun c => (digitValue? base c).isSome) stream with
  | none => rfl
  | some found =>
    simp only [Option.map_some, Stream.shift_chars, Stream.shift_next, endNumber_shift]
    split
    · rfl
    · split <;> rfl

theorem readExponent_shift :
    readExponent (stream.shift distance) = (readExponent stream).map fun found => (found.1, found.2.shift distance) := by
  simp only [readExponent, Stream.shift_chars, Stream.shift_next, Stream.shift_skip]
  split
  · split
    · rw [← apply_ite (Stream.shift · distance), separatedDigits_shift]
      cases separatedDigits Char.isDigit _ with
      | none => rfl
      | some found =>
        dsimp only [Option.map_some]
        split <;> rfl
    · rfl
  · rfl

theorem decimalRest_shift (whole : List Char) :
    decimalRest whole (stream.shift distance) = ((decimalRest whole stream).1, (decimalRest whole stream).2.shift distance) := by
  by_cases hdot : stream.chars.head? = some '.'
  · obtain ⟨rest, hchars⟩ := List.head?_eq_some_iff.1 hdot
    simp only [decimalRest, Stream.shift_chars, hchars, Stream.shift_next, separatedDigits_shift]
    cases separatedDigits Char.isDigit stream.next with
    | none => rfl
    | some found =>
      simp only [Option.map_some, readExponent_shift]
      cases readExponent found.2 with
      | none => rfl
      | some power => exact endNumber_shift power.2 distance _
  · have hother : ∀ rest, stream.chars = '.' :: rest → False := by
      intro rest hchars
      exact hdot (hchars ▸ rfl)
    simp only [decimalRest, Stream.shift_chars, readExponent_shift]
    cases readExponent stream with
    | none => rfl
    | some power => exact endNumber_shift power.2 distance _

theorem decimalNumber_shift :
    decimalNumber (stream.shift distance) = ((decimalNumber stream).1, (decimalNumber stream).2.shift distance) := by
  rw [decimalNumber, decimalNumber, separatedDigits_shift]
  cases separatedDigits Char.isDigit stream with
  | none => rfl
  | some found =>
    simp only [Option.map_some, Stream.shift_chars, Stream.shift_next, endNumber_shift, decimalRest_shift]
    split
    · split <;> rfl
    · rfl

theorem zeroNumber_shift :
    zeroNumber (stream.shift distance) = ((zeroNumber stream).1, (zeroNumber stream).2.shift distance) := by
  simp only [zeroNumber, Stream.shift_span, endNumber_shift, decimalRest_shift]
  split <;> rfl

theorem readNumber_shift :
    readNumber (stream.shift distance) = ((readNumber stream).1, (readNumber stream).2.shift distance) := by
  simp only [readNumber, Stream.shift_chars, Stream.shift_skip, basedNumber_shift, zeroNumber_shift, decimalNumber_shift]
  repeat' split
  all_goals rfl

/-! ## Tokens -/

theorem readMark_shift : readMark (stream.shift distance) = ((readMark stream).1, (readMark stream).2.shift distance) := by
  have hfind : marks.find? (stream.shift distance).startsWith = marks.find? stream.startsWith := rfl
  unfold readMark
  rw [hfind]
  generalize marks.find? stream.startsWith = found
  split
  · simp only [Stream.shift_chars, Stream.shift_next, Stream.shift_skip]
    split <;> rfl
  · simp only [Stream.shift_skip]
  · rfl

/-- A token is the same wherever it stands. -/
theorem readToken_shift : readToken (stream.shift distance) = ((readToken stream).1, (readToken stream).2.shift distance) := by
  simp only [readToken, Stream.shift_chars, Stream.shift_next, readWord_shift, readNumber_shift, decimalNumber_shift,
    stringChars_shift, readTemplate_shift, readMark_shift]
  split
  · rfl
  · next c rest _ =>
    repeat' split
    all_goals simp_all

/-! ## Gaps -/

theorem blockComment_shift (offset : Nat) (chars : List Char) (newline : Bool) :
    blockComment (offset + distance) chars newline =
      (blockComment offset chars newline).map fun found => (found.1.shift distance, found.2) := by
  fun_induction blockComment offset chars newline with
  | case1 offset rest newline =>
    rw [blockComment, Option.map_some, Stream.shift, Nat.add_right_comm]
  | case2 offset newline c rest hopen ih =>
    rw [blockComment.eq_2 _ _ _ _ hopen, Nat.add_right_comm, ih]
  | case3 => rfl

/-- What is left behind a gap does not depend on the comments before it. -/
theorem skipGap_shift (fuel : Nat) (newline : Bool) (comments comments' : List Span) :
    (skipGap fuel (stream.shift distance) ⟨newline, comments'⟩).map (fun found => (found.1, found.2.newline)) =
      (skipGap fuel stream ⟨newline, comments⟩).map fun found => (found.1.shift distance, found.2.newline) := by
  induction fuel generalizing stream newline comments comments' with
  | zero => rfl
  | succ fuel ih =>
    simp only [skipGap, Stream.shift_chars, Stream.shift_next, Stream.shift_span, Stream.shift_offset]
    split
    · exact ih _ _ _ _
    · rw [Nat.add_right_comm, blockComment_shift]
      cases blockComment (stream.offset + 2) _ false with
      | none => rfl
      | some found => exact ih _ _ _ _
    · split
      · exact ih _ _ _ _
      · split
        · exact ih _ _ _ _
        · rfl
    · rfl

namespace Cursor

/-- The same token stands wherever a text is entered. -/
structure SameAs (cursor other : Cursor) : Prop where
  token : other.token = cursor.token
  newline : other.newline = cursor.newline
  chars : other.here.chars = cursor.here.chars

theorem SameAs.symm {cursor other : Cursor} (h : cursor.SameAs other) : other.SameAs cursor :=
  ⟨h.token.symm, h.newline.symm, h.chars.symm⟩

theorem enter_shift (previous previous' : Nat) (notes notes' : Notes) :
    (enter stream previous notes).SameAs (enter (stream.shift distance) previous' notes') := by
  have hgap := skipGap_shift stream distance (stream.chars.length + 1) false notes.comments notes'.comments
  unfold enter
  rw [Stream.shift_chars]
  cases hskip : skipGap (stream.chars.length + 1) stream ⟨false, notes.comments⟩ with
  | none =>
    rw [hskip, Option.map_none, Option.map_eq_none_iff] at hgap
    rw [hgap]
    exact ⟨rfl, rfl, rfl⟩
  | some found =>
    rw [hskip] at hgap
    obtain ⟨found', hfound', heq⟩ := Option.map_eq_some_iff.1 hgap
    obtain ⟨hhere, hnewline⟩ := Prod.mk.inj heq
    rw [hfound']
    simp only [hhere, hnewline, readToken_shift]
    exact ⟨rfl, rfl, rfl⟩

end Cursor

end ComponentLint.Script
