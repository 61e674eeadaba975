import ComponentLint.Proofs.Script.Tokens
import ComponentLint.Proofs.Text.Reading

/-!
# What the readers of tokens take

A reader takes characters off the front of a text. A word and the gap in front of a token are read in the same way whatever comes
behind them, as long as that does not go on with the word (`Breaks`) or with the gap (`IsSolid`). Of the other tokens it is enough
that what is left stands behind what is read.
-/

namespace ComponentLint

open Text

namespace Stream

/-- A run of characters that pass a test ends in front of one that does not. -/
theorem span_ends (test : Char → Bool) (stream : Stream) :
    ∀ c ∈ (stream.span test).2.chars.head?, test c = false := by
  have hreads := (reads_span test stream).chars
  rw [span_fst] at hreads
  have hrest : (stream.span test).2.chars = stream.chars.dropWhile test :=
    List.append_cancel_left (hreads.symm.trans List.takeWhile_append_dropWhile.symm)
  intro c hc
  have hhead := List.head?_dropWhile_not test stream.chars
  rw [← hrest, Option.mem_def.1 hc] at hhead
  simpa using hhead

end Stream

namespace Script

/-! ## Words -/

/-- A text that does not go on with a word in front of it. -/
def Breaks (text : List Char) : Prop :=
  ∀ c ∈ text.head?, isIdContinue c = false ∧ c ≠ '\\'

theorem fixedHex_takes {count value code : Nat} {stream after : Stream} (h : fixedHex count value stream = some (code, after)) :
    ∃ taken, taken.length = count ∧ stream.Reads taken after ∧
      ∀ rest, fixedHex count value ⟨stream.offset, taken ++ rest⟩ = some (code, ⟨stream.offset + byteLength taken, rest⟩) := by
  induction count generalizing value stream with
  | zero =>
    cases h
    exact ⟨[], rfl, .refl _, fun rest => by simp [fixedHex]⟩
  | succ count ih =>
    obtain ⟨offset, chars⟩ := stream
    cases chars with
    | nil => cases h
    | cons c chars =>
      obtain ⟨digit, hdigit, hrest⟩ := Option.bind_eq_some_iff.1 h
      obtain ⟨taken, hlength, hreads, htaken⟩ := ih hrest
      refine ⟨c :: taken, congrArg (· + 1) hlength, (Stream.reads_next rfl).trans hreads, fun rest => ?_⟩
      have hnext := htaken rest
      simp only [fixedHex, List.cons_append, hdigit, Option.bind_some, Stream.next] at hnext ⊢
      rw [hnext]
      simp [Nat.add_assoc]

/-- The code of an escape is read from what stands in front of what is left. -/
theorem unicodeCode_takes {code : Nat} {stream after : Stream} (h : unicodeCode stream = some (code, after)) :
    ∃ taken, stream.Reads taken after ∧
      ∀ rest, unicodeCode ⟨stream.offset, taken ++ rest⟩ = some (code, ⟨stream.offset + byteLength taken, rest⟩) := by
  obtain ⟨offset, chars⟩ := stream
  unfold unicodeCode at h
  split at h
  · next chars heq =>
    obtain rfl : _ = '{' :: chars := heq
    have hnext : (⟨offset, '{' :: chars⟩ : Stream).next = ⟨offset + '{'.utf8Size, chars⟩ := rfl
    rw [hnext] at h
    have hreads := Stream.reads_span (fun c => (digitValue? 16 c).isSome) ⟨offset + '{'.utf8Size, chars⟩
    have hall : ∀ c ∈ (Stream.span (fun c => (digitValue? 16 c).isSome) ⟨offset + '{'.utf8Size, chars⟩).1,
      (digitValue? 16 c).isSome = true := fun c hc => Stream.of_mem_span hc
    generalize hspan : Stream.span (fun c => (digitValue? 16 c).isSome) ⟨offset + '{'.utf8Size, chars⟩ = found at h hreads hall
    obtain ⟨digits, between⟩ := found
    dsimp only at h hreads hall
    split at h
    · next rest hclose =>
      split at h
      · cases h
      · next hfits =>
        cases h
        have hclosed := Stream.reads_next hclose
        refine ⟨'{' :: (digits ++ ['}']), (Stream.reads_next rfl).trans (hreads.trans hclosed), fun rest => ?_⟩
        have hdigits : Stream.span (fun c => (digitValue? 16 c).isSome) ⟨offset + '{'.utf8Size, digits ++ '}' :: rest⟩ =
            (digits, ⟨offset + '{'.utf8Size + byteLength digits, '}' :: rest⟩) :=
          Stream.span_append rfl hall (by decide)
        simp [unicodeCode, Stream.next, hdigits, hfits, Nat.add_assoc]
    · cases h
  · next hbrace =>
    obtain ⟨taken, hlength, hreads, htaken⟩ := fixedHex_takes h
    refine ⟨taken, hreads, fun rest => ?_⟩
    cases taken with
    | nil => cases hlength
    | cons c taken =>
      rw [← htaken rest, unicodeCode]
      split
      · next more heq =>
        obtain rfl : c = '{' := (List.cons.inj heq).1
        exact absurd hreads.chars (hbrace _)
      · rfl

theorem wordChars_escape (fuel : Nat) (first : Bool) (offset : Nat) (chars : List Char) :
    wordChars (fuel + 1) first ⟨offset, '\\' :: 'u' :: chars⟩ = (unicodeCode ⟨offset + 2, chars⟩).bind fun found =>
      if (if first then isIdStart (Char.ofNat found.1) else isIdContinue (Char.ofNat found.1)) then
        (wordChars fuel false found.2).map fun more => (Char.ofNat found.1 :: more.1, true, more.2.2)
      else none := by
  rw [wordChars]
  have hskip : Stream.skip 2 ⟨offset, '\\' :: 'u' :: chars⟩ = ⟨offset + 2, chars⟩ := rfl
  rw [hskip]
  cases unicodeCode ⟨offset + 2, chars⟩ with
  | none => rfl
  | some found =>
    simp only [Option.bind_eq_bind, Option.bind_some]
    congr 1
    cases wordChars fuel false found.2 with
    | none => rfl
    | some more => rfl

/-- From one stream to another the characters are taken as a word or as the rest of one, whatever stands behind them that does not
go on with it. -/
structure TakesWord (first : Bool) (stream : Stream) (word : List Char) (escaped : Bool) (after : Stream) : Prop where
  ends : Breaks after.chars
  taken : ∃ taken, stream.Reads taken after ∧ (first = true → taken ≠ []) ∧
    ∀ rest fuel, Breaks rest → taken.length < fuel →
      wordChars fuel first ⟨stream.offset, taken ++ rest⟩ = some (word, escaped, ⟨stream.offset + byteLength taken, rest⟩)

namespace TakesWord

variable {first escaped : Bool} {offset : Nat} {word text : List Char} {after : Stream}

theorem nil (h : Breaks text) : TakesWord false ⟨offset, text⟩ [] false ⟨offset, text⟩ :=
  ⟨h, [], .refl _, nofun, fun _ _ hrest hfuel => wordChars_rest (by simp) hrest offset hfuel⟩

theorem cons {c : Char} (hc : c ≠ '\\') (hfits : (if first then isIdStart c else isIdContinue c) = true)
    (h : TakesWord false ⟨offset + c.utf8Size, text⟩ word escaped after) :
    TakesWord first ⟨offset, c :: text⟩ (c :: word) escaped after := by
  obtain ⟨hends, taken, hreads, -, htaken⟩ := h
  refine ⟨hends, c :: taken, (Stream.reads_next rfl).trans hreads, fun _ => List.cons_ne_nil _ _, fun rest fuel hrest hfuel => ?_⟩
  obtain ⟨fuel, rfl⟩ := Nat.exists_eq_succ_of_ne_zero (Nat.ne_of_gt (Nat.zero_lt_of_lt hfuel))
  have hread := htaken rest fuel hrest (Nat.lt_of_succ_lt_succ hfuel)
  dsimp only at hread ⊢
  rw [List.cons_append, wordChars_cons hc, if_pos hfits, hread]
  simp [Nat.add_assoc]

theorem escape {code : Nat} {between : Stream} (hcode : unicodeCode ⟨offset + 2, text⟩ = some (code, between))
    (hfits : (if first then isIdStart (Char.ofNat code) else isIdContinue (Char.ofNat code)) = true)
    (h : TakesWord false between word escaped after) :
    TakesWord first ⟨offset, '\\' :: 'u' :: text⟩ (Char.ofNat code :: word) true after := by
  obtain ⟨digits, hdigits, hescape⟩ := unicodeCode_takes hcode
  obtain ⟨hends, taken, hreads, -, htaken⟩ := h
  have hmark : Stream.Reads ⟨offset, '\\' :: 'u' :: text⟩ ['\\', 'u'] ⟨offset + 2, text⟩ := ⟨rfl, rfl⟩
  refine ⟨hends, ['\\', 'u'] ++ (digits ++ taken), hmark.trans (hdigits.trans hreads), fun _ => List.cons_ne_nil _ _,
    fun rest fuel hrest hfuel => ?_⟩
  simp only [List.length_append, List.length_cons, List.length_nil] at hfuel
  obtain ⟨fuel, rfl⟩ := Nat.exists_eq_succ_of_ne_zero (Nat.ne_of_gt (Nat.zero_lt_of_lt hfuel))
  have hlast := htaken rest fuel hrest (by omega)
  have hparts : ['\\', 'u'] ++ (digits ++ taken) ++ rest = '\\' :: 'u' :: (digits ++ (taken ++ rest)) := by simp
  have hoffset := (hmark.trans (hdigits.trans hreads)).offset
  rw [hparts, wordChars_escape, hescape, Option.bind_some, ← hdigits.offset, if_pos hfits, hlast, ← hoffset, hreads.offset]
  rfl

end TakesWord

/-- The characters of a word are taken up to what does not go on with it. -/
theorem wordChars_takes {fuel : Nat} {first escaped : Bool} {stream after : Stream} {word : List Char}
    (h : wordChars fuel first stream = some (word, escaped, after)) : TakesWord first stream word escaped after := by
  induction fuel generalizing first escaped stream word with
  | zero => cases h
  | succ fuel ih =>
    obtain ⟨offset, chars⟩ := stream
    cases chars with
    | nil =>
      cases first with
      | true => cases h
      | false =>
        cases h
        exact .nil nofun
    | cons c chars =>
      by_cases hc : c = '\\'
      · subst hc
        obtain ⟨more, rfl⟩ : ∃ more, chars = 'u' :: more := by
          cases chars with
          | nil => cases h
          | cons d more =>
            by_cases hd : d = 'u'
            · exact ⟨more, by rw [hd]⟩
            · simp [wordChars, hd] at h
        rw [wordChars_escape] at h
        obtain ⟨⟨code, between⟩, hcode, h⟩ := Option.bind_eq_some_iff.1 h
        obtain ⟨hfits, h⟩ := Option.ite_none_right_eq_some.1 h
        obtain ⟨⟨word', escaped', after'⟩, hmore, heq⟩ := Option.map_eq_some_iff.1 h
        cases heq
        exact .escape hcode hfits (ih hmore)
      · rw [wordChars_cons hc] at h
        by_cases hfits : (if first then isIdStart c else isIdContinue c) = true
        · rw [if_pos hfits] at h
          obtain ⟨⟨more, escaped', after'⟩, hmore, heq⟩ := Option.map_eq_some_iff.1 h
          cases heq
          exact .cons hc hfits (ih hmore)
        · rw [if_neg hfits] at h
          cases first with
          | true => cases h
          | false =>
            cases h
            refine .nil fun d hd => ?_
            obtain rfl : c = d := Option.some.inj hd
            exact ⟨Bool.eq_false_iff.2 hfits, hc⟩

/-- A word is taken up to what does not go on with it. -/
theorem readWord_takes {stream after : Stream} {name : String} {escaped : Bool}
    (h : readWord stream = some (name, escaped, after)) :
    Breaks after.chars ∧ ∃ taken, taken ≠ [] ∧ stream.Reads taken after ∧
      ∀ rest, Breaks rest → readWord ⟨stream.offset, taken ++ rest⟩ = some (name, escaped, ⟨after.offset, rest⟩) := by
  obtain ⟨⟨word, escaped, after⟩, hchars, heq⟩ := Option.map_eq_some_iff.1 h
  cases heq
  obtain ⟨hbreaks, taken, hreads, hne, htaken⟩ := wordChars_takes hchars
  refine ⟨hbreaks, taken, hne rfl, hreads, fun rest hrest => ?_⟩
  have hread := htaken rest ((taken ++ rest).length + 1) hrest (by
    rw [List.length_append]
    omega)
  rw [readWord, hread, hreads.offset]
  rfl

/-! ## Which reader a token comes from -/

/-- The tokens that calls of methods are made of: words, texts and marks. -/
def Token.isPlain : Token → Bool
  | .word .. => true
  | .string _ => true
  | .punct _ => true
  | _ => false

theorem endNumber_isPlain {token : Token} (h : token.isPlain = false) (after : Stream) :
    (endNumber token after).1.isPlain = false := by
  unfold endNumber
  split
  · split
    · rfl
    · exact h
  · exact h

theorem basedNumber_isPlain (base : Nat) (stream : Stream) : (basedNumber base stream).1.isPlain = false := by
  unfold basedNumber
  split
  · split
    · rfl
    · dsimp only
      split <;> exact endNumber_isPlain rfl _
  · rfl

theorem decimalRest_isPlain (whole : List Char) (stream : Stream) : (decimalRest whole stream).1.isPlain = false := by
  unfold decimalRest
  dsimp only
  split
  · rfl
  · split
    · rfl
    · exact endNumber_isPlain rfl _

theorem decimalNumber_isPlain (stream : Stream) : (decimalNumber stream).1.isPlain = false := by
  unfold decimalNumber
  split
  · rfl
  · split
    · split
      · rfl
      · exact endNumber_isPlain rfl _
    · exact decimalRest_isPlain _ _

theorem zeroNumber_isPlain (stream : Stream) : (zeroNumber stream).1.isPlain = false := by
  unfold zeroNumber
  dsimp only
  split
  · exact endNumber_isPlain rfl _
  · exact decimalRest_isPlain _ _

theorem readNumber_isPlain (stream : Stream) : (readNumber stream).1.isPlain = false := by
  unfold readNumber
  split
  · repeat' split
    · exact basedNumber_isPlain _ _
    · exact basedNumber_isPlain _ _
    · exact basedNumber_isPlain _ _
    · exact zeroNumber_isPlain _
    · rfl
    · exact decimalNumber_isPlain _
  · exact decimalNumber_isPlain _

theorem reads_startsWith {stream : Stream} {mark : String} (h : stream.startsWith mark = true) :
    stream.Reads mark.toList (stream.skip mark.length) := by
  obtain ⟨rest, hrest⟩ := List.isPrefixOf_iff_prefix.1 h
  exact Stream.reads_skip mark.toList hrest.symm String.length_toList.symm

/-- A mark stands at the front of a stream, if one is read there. -/
theorem readMark_cases (stream : Stream) : readMark stream = (.invalid, stream) ∨
    ∃ mark after, readMark stream = (.punct mark, after) ∧ stream.Reads mark.toList after := by
  unfold readMark
  split
  · next hfound =>
    have hreads := reads_startsWith (List.find?_some hfound)
    split
    · refine .inr ⟨"?", stream.next, rfl, ?_⟩
      exact Stream.reads_next hreads.chars
    · exact .inr ⟨"?.", stream.skip 2, rfl, hreads⟩
  · next mark hfound => exact .inr ⟨_, _, rfl, reads_startsWith (List.find?_some hfound)⟩
  · exact .inl rfl

/-- What starts a word. -/
def startsWord (c : Char) : Bool :=
  isIdStart c || c == '\\'

theorem readToken_of_readWord {offset : Nat} {c : Char} {rest : List Char} {name : String} {escaped : Bool} {after : Stream}
    (hc : startsWord c = true) (h : readWord ⟨offset, c :: rest⟩ = some (name, escaped, after)) :
    readToken ⟨offset, c :: rest⟩ = (.word name escaped, after) := by
  rw [readToken]
  dsimp only
  rw [if_pos (by exact hc), h]

/-- Which reader a token comes from, if it is a word, a text or a mark. -/
inductive PlainRead (stream : Stream) : Token → Stream → Prop where
  | word {name : String} {escaped : Bool} {after : Stream} (hword : readWord stream = some (name, escaped, after))
      (hstart : ∃ c rest, stream.chars = c :: rest ∧ startsWord c = true) : PlainRead stream (.word name escaped) after
  | text {quote : Char} {rest value : List Char} {fuel : Nat} {after : Stream} (hquote : stream.chars = quote :: rest)
      (htext : stringChars quote fuel stream.next = some (value, after)) : PlainRead stream (.string (String.ofList value)) after
  | mark {mark : String} {after : Stream} (hmark : readMark stream = (.punct mark, after))
      (hstart : ∃ c rest, stream.chars = c :: rest ∧ startsWord c = false) : PlainRead stream (.punct mark) after
  | other {token : Token} {after : Stream} (hother : token.isPlain = false) : PlainRead stream token after

theorem plainRead_readToken (stream : Stream) : PlainRead stream (readToken stream).1 (readToken stream).2 := by
  obtain ⟨offset, chars⟩ := stream
  cases chars with
  | nil => exact .other rfl
  | cons c rest =>
    rw [readToken]
    dsimp only
    split
    · next hstart =>
      split
      · next hword => exact .word hword ⟨c, rest, rfl, hstart⟩
      · exact .other rfl
    · next hstart =>
      split
      · exact .other (readNumber_isPlain _)
      · split
        · exact .other (decimalNumber_isPlain _)
        · split
          · split
            · next htext => exact .text rfl htext
            · exact .other rfl
          · split
            · refine .other ?_
              unfold readTemplate
              split <;> rfl
            · split
              · split <;> exact .other rfl
              · rcases readMark_cases ⟨offset, c :: rest⟩ with hmark | ⟨mark, after, hmark, -⟩
                · rw [hmark]
                  exact .other rfl
                · rw [hmark]
                  exact .mark hmark ⟨c, rest, rfl, Bool.eq_false_iff.2 hstart⟩

theorem plainRead_of_readToken {stream after : Stream} {token : Token} (h : readToken stream = (token, after)) :
    PlainRead stream token after := by
  have hread := plainRead_readToken stream
  rwa [h] at hread

/-- A dot in front of neither a dot nor a digit is a mark. -/
theorem readToken_dot {rest : List Char} (h : ∀ c ∈ rest.head?, c ≠ '.' ∧ c.isDigit = false) (offset : Nat) :
    readToken ⟨offset, '.' :: rest⟩ = (.punct ".", ⟨offset + 1, rest⟩) := by
  cases rest with
  | nil => rfl
  | cons c rest =>
    obtain ⟨hdot, hdigit⟩ := h c rfl
    have hstart : isIdStart '.' = false := by decide
    simp [readToken, hstart, hdigit, readMark, marks, Stream.startsWith, List.isPrefixOf, Ne.symm hdot]
    rfl

/-- A dot that is a mark stands in front of no digit. -/
theorem of_readToken_dot {stream after : Stream} (h : readToken stream = (.punct ".", after)) :
    stream.Reads ['.'] after ∧ ∀ c ∈ after.chars.head?, c.isDigit = false := by
  cases plainRead_of_readToken h with
  | other hother => cases hother
  | mark hmark _ =>
    obtain hnone | ⟨mark, after', hread, hreads⟩ := readMark_cases stream
    · cases hnone.symm.trans hmark
    · cases hread.symm.trans hmark
      refine ⟨hreads, fun c hc => ?_⟩
      obtain ⟨offset, chars⟩ := stream
      obtain rfl : chars = '.' :: after.chars := hreads.chars
      by_contra hdigit
      have hstart : isIdStart '.' = false := by decide
      have hnumber : readToken ⟨offset, '.' :: after.chars⟩ = decimalNumber ⟨offset, '.' :: after.chars⟩ := by
        have hhead : (after.chars.head?.map Char.isDigit).getD false = true := by
          rw [Option.mem_def.1 hc]
          simpa using hdigit
        simp [readToken, hstart, hhead]
      have hplain := decimalNumber_isPlain ⟨offset, '.' :: after.chars⟩
      rw [← hnumber, h] at hplain
      cases hplain

/-! ## What is left behind a token -/

theorem before_next (stream : Stream) : stream.Before stream.next := by
  obtain ⟨offset, chars⟩ := stream
  cases chars with
  | nil => exact .refl _
  | cons c rest => exact (Stream.reads_next rfl).before

theorem before_skip (count : Nat) (stream : Stream) : stream.Before (stream.skip count) := by
  induction count generalizing stream with
  | zero => exact .refl _
  | succ count ih => exact (before_next stream).trans (ih stream.next)

theorem fixedHex_before {count value code : Nat} {stream after : Stream} (h : fixedHex count value stream = some (code, after)) :
    stream.Before after := by
  obtain ⟨taken, -, hreads, -⟩ := fixedHex_takes h
  exact hreads.before

theorem unicodeCode_before {code : Nat} {stream after : Stream} (h : unicodeCode stream = some (code, after)) :
    stream.Before after := by
  obtain ⟨taken, hreads, -⟩ := unicodeCode_takes h
  exact hreads.before

theorem unicodeChars_before {stream after : Stream} {chars : List Char} (h : unicodeChars stream = some (chars, after)) :
    stream.Before after := by
  obtain ⟨⟨code, between⟩, hcode, h⟩ := Option.bind_eq_some_iff.1 h
  refine (unicodeCode_before hcode).trans ?_
  dsimp only at h
  split at h
  · split at h
    · split at h
      · next low rest hlow =>
        split at h
        · cases h
          exact (before_skip 2 between).trans (unicodeCode_before hlow)
        · cases h
          exact .refl _
      · cases h
        exact .refl _
    · cases h
      exact .refl _
  · split at h
    · cases h
      exact .refl _
    · cases h
      exact .refl _

theorem escapeChars_before {octal : Bool} {stream after : Stream} {chars : List Char}
    (h : escapeChars octal stream = some (chars, after)) : stream.Before after := by
  have hnext := before_next stream
  unfold escapeChars at h
  split at h
  · cases h
  · next c rest hchars =>
    dsimp only at h
    split at h
    · cases h; exact hnext
    · cases h; exact hnext
    · cases h; exact hnext
    · cases h; exact hnext
    · cases h; exact hnext
    · cases h; exact hnext
    · obtain ⟨⟨code, after⟩, hcode, heq⟩ := Option.map_eq_some_iff.1 h
      cases heq
      exact hnext.trans (fixedHex_before hcode)
    · exact hnext.trans (unicodeChars_before h)
    · cases h
      split
      · exact hnext.trans (before_next _)
      · exact hnext
    · split at h
      · cases h; exact hnext
      · split at h
        · cases h; exact hnext
        · split at h
          · split at h
            · cases h
            · split at h
              · cases h; exact hnext
              · cases h
                exact before_skip _ stream
          · cases h; exact hnext

theorem stringChars_before {quote : Char} {fuel : Nat} {stream after : Stream} {value : List Char}
    (h : stringChars quote fuel stream = some (value, after)) : stream.Before after := by
  induction fuel generalizing stream value with
  | zero => cases h
  | succ fuel ih =>
    have hnext := before_next stream
    unfold stringChars at h
    split at h
    · cases h
    · obtain ⟨⟨escape, between⟩, hescape, h⟩ := Option.bind_eq_some_iff.1 h
      obtain ⟨⟨more, last⟩, hmore, h⟩ := Option.bind_eq_some_iff.1 h
      cases h
      exact hnext.trans ((escapeChars_before hescape).trans (ih hmore))
    · split at h
      · cases h
        exact hnext
      · split at h
        · cases h
        · obtain ⟨⟨more, last⟩, hmore, h⟩ := Option.bind_eq_some_iff.1 h
          cases h
          exact hnext.trans (ih hmore)

/-- What is left behind a word, a text or a mark stands behind it. -/
theorem PlainRead.before {stream after : Stream} {token : Token} (h : PlainRead stream token after)
    (hplain : token.isPlain = true) : stream.Before after := by
  cases h with
  | word hword _ =>
    obtain ⟨⟨word, escaped, after⟩, hchars, heq⟩ := Option.map_eq_some_iff.1 hword
    cases heq
    obtain ⟨-, taken, hreads, -⟩ := wordChars_takes hchars
    exact hreads.before
  | text _ htext => exact (before_next stream).trans (stringChars_before htext)
  | mark hmark _ =>
    rcases readMark_cases stream with hnone | ⟨mark, after, hread, hreads⟩
    · cases hnone.symm.trans hmark
    · cases hread.symm.trans hmark
      exact hreads.before
  | other hother => cases hother.symm.trans hplain

/-! ## Gaps -/

/-- A character that ends a gap: no blank, no line end, and no start of a comment. -/
def IsSolid (c : Char) : Prop :=
  isLineEnd c = false ∧ isBlank c = false ∧ c ≠ '/'

theorem blockComment_takes {offset : Nat} {chars : List Char} {newline found : Bool} {after : Stream}
    (h : blockComment offset chars newline = some (after, found)) :
    ∃ taken, taken ≠ [] ∧ Stream.Reads ⟨offset, chars⟩ taken after ∧
      ∀ rest, blockComment offset (taken ++ rest) newline = some (⟨offset + byteLength taken, rest⟩, found) := by
  induction chars generalizing offset newline with
  | nil => cases h
  | cons c chars ih =>
    unfold blockComment at h
    split at h
    · next rest heq =>
      cases h
      obtain ⟨rfl, rfl⟩ := List.cons.inj heq
      exact ⟨['*', '/'], by simp, ⟨rfl, rfl⟩, fun rest => rfl⟩
    · next d rest hclose heq =>
      obtain ⟨rfl, rfl⟩ := List.cons.inj heq
      obtain ⟨taken, hne, hreads, htaken⟩ := ih h
      refine ⟨c :: taken, by simp, (Stream.reads_next rfl).trans hreads, fun rest => ?_⟩
      obtain ⟨e, taken, rfl⟩ := List.exists_cons_of_ne_nil hne
      have hopen : ∀ more, c = '*' → e :: (taken ++ rest) = '/' :: more → False := by
        rintro more rfl heq
        obtain ⟨rfl, -⟩ := List.cons.inj heq
        exact hclose _ rfl hreads.chars
      rw [List.cons_append, List.cons_append, blockComment.eq_2 _ _ _ _ hopen, ← List.cons_append, htaken rest]
      simp [Nat.add_assoc]
    · cases h

theorem skipGap_before {fuel : Nat} {stream here : Stream} {gap found : Gap} (h : skipGap fuel stream gap = some (here, found)) :
    stream.Before here := by
  induction fuel generalizing stream gap with
  | zero =>
    cases h
    exact .refl _
  | succ fuel ih =>
    unfold skipGap at h
    split at h
    · exact (Stream.reads_span _ stream).before.trans (ih h)
    · next rest hchars =>
      split at h
      · next after newline hcomment =>
        obtain ⟨taken, -, hreads, -⟩ := blockComment_takes hcomment
        have hmark : stream.Reads ['/', '*'] ⟨stream.offset + 2, rest⟩ := ⟨hchars, rfl⟩
        exact (hmark.trans hreads).before.trans (ih h)
      · cases h
    · split at h
      · exact (before_next stream).trans (ih h)
      · split at h
        · exact (before_next stream).trans (ih h)
        · cases h
          exact .refl _
    · cases h
      exact .refl _

/-- Where a line has ended, it has ended before what is left as well. -/
theorem skipGap_newline {fuel : Nat} {stream here : Stream} {gap found : Gap} (h : skipGap fuel stream gap = some (here, found))
    (hline : gap.newline = true) : found.newline = true := by
  induction fuel generalizing stream gap with
  | zero =>
    cases h
    exact hline
  | succ fuel ih =>
    unfold skipGap at h
    split at h
    · exact ih h hline
    · split at h
      · exact ih h (by rw [hline, Bool.true_or])
      · cases h
    · split at h
      · exact ih h rfl
      · split at h
        · exact ih h hline
        · cases h
          exact hline
    · cases h
      exact hline

theorem skipGap_cons {c : Char} (hc : c ≠ '/') (fuel offset : Nat) (rest : List Char) (gap : Gap) :
    skipGap (fuel + 1) ⟨offset, c :: rest⟩ gap =
      if isLineEnd c then skipGap fuel ⟨offset + c.utf8Size, rest⟩ { gap with newline := true }
      else if isBlank c then skipGap fuel ⟨offset + c.utf8Size, rest⟩ gap
      else some (⟨offset, c :: rest⟩, gap) := by
  rw [skipGap]
  split
  · next heq => exact absurd (List.cons.inj heq).1 hc
  · next heq => exact absurd (List.cons.inj heq).1 hc
  · next heq =>
    obtain ⟨rfl, rfl⟩ := List.cons.inj heq
    rfl
  · next heq => cases heq

theorem skipGap_line (fuel offset : Nat) (text : List Char) (gap : Gap) {skipped : List Char} {after : Stream}
    (hspan : Stream.span (fun c => !isLineEnd c) ⟨offset, '/' :: '/' :: text⟩ = (skipped, after)) :
    skipGap (fuel + 1) ⟨offset, '/' :: '/' :: text⟩ gap =
      skipGap fuel after { gap with comments := ⟨offset, after.offset⟩ :: gap.comments } := by
  rw [skipGap]
  simp only [hspan]

theorem skipGap_block (fuel offset : Nat) (text : List Char) (gap : Gap) :
    skipGap (fuel + 1) ⟨offset, '/' :: '*' :: text⟩ gap = (blockComment (offset + 2) text false).bind fun found =>
      skipGap fuel found.1 ⟨gap.newline || found.2, ⟨offset, found.1.offset⟩ :: gap.comments⟩ := by
  cases hcomment : blockComment (offset + 2) text false with
  | none => simp [skipGap, hcomment]
  | some found => simp [skipGap, hcomment]

/-- A slash that opens no comment ends a gap. -/
theorem skipGap_slash {text : List Char} (htext : ∀ c ∈ text.head?, c ≠ '/' ∧ c ≠ '*') (fuel offset : Nat) (gap : Gap) :
    skipGap (fuel + 1) ⟨offset, '/' :: text⟩ gap = some (⟨offset, '/' :: text⟩, gap) := by
  rw [skipGap]
  split
  · next heq =>
    obtain ⟨-, rfl⟩ := List.cons.inj heq
    exact absurd rfl (htext _ rfl).1
  · next heq =>
    obtain ⟨-, rfl⟩ := List.cons.inj heq
    exact absurd rfl (htext _ rfl).2
  · next heq =>
    obtain ⟨rfl, -⟩ := List.cons.inj heq
    rfl
  · next heq => cases heq

/-- A line comment goes up to the end of its line. -/
theorem lineComment {offset : Nat} {text skipped : List Char} {after : Stream}
    (hspan : Stream.span (fun c => !isLineEnd c) ⟨offset, '/' :: '/' :: text⟩ = (skipped, after)) :
    (∃ body, skipped = '/' :: '/' :: body) ∧ (∀ c ∈ skipped, (!isLineEnd c) = true) ∧
      Stream.Reads ⟨offset, '/' :: '/' :: text⟩ skipped after ∧ ∀ c ∈ after.chars.head?, (!isLineEnd c) = false := by
  have hskipped := Stream.span_fst (fun c => !isLineEnd c) ⟨offset, '/' :: '/' :: text⟩
  have hreads := Stream.reads_span (fun c => !isLineEnd c) ⟨offset, '/' :: '/' :: text⟩
  have hends := Stream.span_ends (fun c => !isLineEnd c) ⟨offset, '/' :: '/' :: text⟩
  rw [hspan] at hskipped hreads hends
  exact ⟨⟨_, hskipped⟩, fun c hc => Stream.of_mem_span (by rwa [hspan]), hreads, hends⟩

/-- From one stream to another the characters are skipped as a gap, whatever solid character stands behind them. -/
def Skips (stream : Stream) (gap : Gap) (here : Stream) (found : Gap) : Prop :=
  ∃ taken, stream.Reads taken here ∧ ∀ c more fuel, IsSolid c → taken.length < fuel →
    skipGap fuel ⟨stream.offset, taken ++ c :: more⟩ gap = some (⟨stream.offset + byteLength taken, c :: more⟩, found)

namespace Skips

variable {stream here : Stream} {gap found : Gap}

theorem refl (stream : Stream) (gap : Gap) : Skips stream gap stream gap := by
  refine ⟨[], .refl _, fun c more fuel hc hfuel => ?_⟩
  obtain ⟨fuel, rfl⟩ := Nat.exists_eq_succ_of_ne_zero (Nat.ne_of_gt hfuel)
  exact skipGap_solid hc fuel _ more gap

theorem blank {offset : Nat} {c : Char} {text : List Char} (hc : c ≠ '/') (hblank : isBlank c = true ∨ isLineEnd c = true)
    (h : Skips ⟨offset + c.utf8Size, text⟩ (if isLineEnd c then { gap with newline := true } else gap) here found) :
    Skips ⟨offset, c :: text⟩ gap here found := by
  obtain ⟨taken, hreads, htaken⟩ := h
  refine ⟨c :: taken, (Stream.reads_next rfl).trans hreads, fun d more fuel hd hfuel => ?_⟩
  obtain ⟨fuel, rfl⟩ := Nat.exists_eq_succ_of_ne_zero (Nat.ne_of_gt (Nat.zero_lt_of_lt hfuel))
  have hrest := htaken d more fuel hd (Nat.lt_of_succ_lt_succ hfuel)
  have hoffset : offset + byteLength (c :: taken) = offset + c.utf8Size + byteLength taken := by
    rw [byteLength_cons, Nat.add_assoc]
  rw [List.cons_append, skipGap_cons hc, hoffset, ← hrest]
  by_cases hline : isLineEnd c = true
  · simp [hline]
  · simp [hline, hblank.resolve_right hline]

theorem block {offset : Nat} {text : List Char} {after : Stream} {newline : Bool}
    (hcomment : blockComment (offset + 2) text false = some (after, newline))
    (h : Skips after ⟨gap.newline || newline, ⟨offset, after.offset⟩ :: gap.comments⟩ here found) :
    Skips ⟨offset, '/' :: '*' :: text⟩ gap here found := by
  obtain ⟨comment, -, hreads, hagain⟩ := blockComment_takes hcomment
  obtain ⟨taken, hrest, htaken⟩ := h
  have hmark : Stream.Reads ⟨offset, '/' :: '*' :: text⟩ ['/', '*'] ⟨offset + 2, text⟩ := ⟨rfl, rfl⟩
  refine ⟨['/', '*'] ++ (comment ++ taken), hmark.trans (hreads.trans hrest), fun d more fuel hd hfuel => ?_⟩
  simp only [List.length_append, List.length_cons, List.length_nil] at hfuel
  obtain ⟨fuel, rfl⟩ := Nat.exists_eq_succ_of_ne_zero (Nat.ne_of_gt (Nat.zero_lt_of_lt hfuel))
  have hlast := htaken d more fuel hd (by omega)
  have hparts : ['/', '*'] ++ (comment ++ taken) ++ d :: more = '/' :: '*' :: (comment ++ (taken ++ d :: more)) := by simp
  have hoffset := (hmark.trans (hreads.trans hrest)).offset
  rw [hparts, skipGap_block, hagain, Option.bind_some, ← hoffset, hrest.offset, ← hlast, hreads.offset]

theorem line {offset : Nat} {text skipped : List Char} {after : Stream}
    (hspan : Stream.span (fun c => !isLineEnd c) ⟨offset, '/' :: '/' :: text⟩ = (skipped, after)) (hne : here ≠ after)
    (h : Skips after { gap with comments := ⟨offset, after.offset⟩ :: gap.comments } here found) :
    Skips ⟨offset, '/' :: '/' :: text⟩ gap here found := by
  obtain ⟨⟨body, rfl⟩, hall, hreads, hends⟩ := lineComment hspan
  obtain ⟨taken, hrest, htaken⟩ := h
  -- The comment ends at the end of its line, which is skipped behind it.
  cases taken with
  | nil => exact absurd (hrest.eq_of_offset_eq (by simpa using hrest.offset.symm)) hne
  | cons d taken =>
    have hd : (!isLineEnd d) = false := hends d (by rw [hrest.chars]; rfl)
    refine ⟨_, hreads.trans hrest, fun c more fuel hc hfuel => ?_⟩
    simp only [List.length_append, List.length_cons] at hfuel
    obtain ⟨fuel, rfl⟩ := Nat.exists_eq_succ_of_ne_zero (Nat.ne_of_gt (Nat.zero_lt_of_lt hfuel))
    have hlast := htaken c more fuel hc (by simp only [List.length_cons]; omega)
    have hagain : Stream.span (fun c => !isLineEnd c)
        ⟨offset, '/' :: '/' :: (body ++ (d :: taken ++ c :: more))⟩ = (_, _) :=
      Stream.span_append rfl hall hd
    have hoffset := (hreads.trans hrest).offset
    have hparts : '/' :: '/' :: body ++ d :: taken ++ c :: more =
        '/' :: '/' :: (body ++ (d :: taken ++ c :: more)) := by simp
    rw [hparts, skipGap_line _ _ _ _ hagain, ← hoffset, hrest.offset, ← hlast, hreads.offset]
    rfl

end Skips

/-- What a gap ends in front of is solid, unless it is a slash, and the gap is skipped whatever else stands there. -/
theorem skips_of_skipGap {fuel : Nat} {stream here : Stream} {gap found : Gap} {c : Char} {rest : List Char}
    (h : skipGap fuel stream gap = some (here, found)) (hfuel : stream.chars.length < fuel) (hhere : here.chars = c :: rest)
    (hslash : c ≠ '/') : IsSolid c ∧ Skips stream gap here found := by
  induction fuel generalizing stream gap with
  | zero => exact absurd hfuel (Nat.not_lt_zero _)
  | succ fuel ih =>
    obtain ⟨offset, chars⟩ := stream
    cases chars with
    | nil =>
      cases h
      cases hhere
    | cons d text =>
      by_cases hd : d = '/'
      · subst hd
        simp only [List.length_cons] at hfuel
        by_cases hopens : ∀ c ∈ text.head?, c ≠ '/' ∧ c ≠ '*'
        · rw [skipGap_slash hopens] at h
          cases h
          exact absurd (List.cons.inj hhere).1.symm hslash
        · obtain ⟨text, rfl | rfl⟩ : ∃ more, text = '/' :: more ∨ text = '*' :: more := by
            cases text with
            | nil => simp at hopens
            | cons e more => exact ⟨more, by simpa [imp_iff_not_or, or_comm] using hopens⟩
          · obtain ⟨skipped, after, hspan⟩ : ∃ skipped after,
                Stream.span (fun c => !isLineEnd c) ⟨offset, '/' :: '/' :: text⟩ = (skipped, after) := ⟨_, _, rfl⟩
            obtain ⟨⟨body, rfl⟩, -, hreads, hends⟩ := lineComment hspan
            have hlength := hreads.length
            simp only [List.length_cons] at hfuel hlength
            rw [skipGap_line _ _ _ _ hspan] at h
            obtain ⟨hsolid, hskips⟩ := ih h (by omega)
            refine ⟨hsolid, .line hspan (fun heq => ?_) hskips⟩
            have hend := hends c (by rw [← heq, hhere]; rfl)
            simp [hsolid.1] at hend
          · rw [skipGap_block] at h
            obtain ⟨⟨after, newline⟩, hcomment, h⟩ := Option.bind_eq_some_iff.1 h
            obtain ⟨comment, -, hreads, -⟩ := blockComment_takes hcomment
            have hlength := hreads.length
            simp only [List.length_cons] at hfuel hlength
            obtain ⟨hsolid, hskips⟩ := ih h (by dsimp only; omega)
            exact ⟨hsolid, .block hcomment hskips⟩
      · rw [skipGap_cons hd] at h
        simp only [List.length_cons] at hfuel
        by_cases hline : isLineEnd d = true
        · rw [if_pos hline] at h
          obtain ⟨hsolid, hskips⟩ := ih h (Nat.lt_of_succ_lt_succ hfuel)
          exact ⟨hsolid, .blank hd (.inr hline) (by rwa [if_pos hline])⟩
        · rw [if_neg hline] at h
          by_cases hblank : isBlank d = true
          · rw [if_pos hblank] at h
            obtain ⟨hsolid, hskips⟩ := ih h (Nat.lt_of_succ_lt_succ hfuel)
            exact ⟨hsolid, .blank hd (.inl hblank) (by rwa [if_neg hline])⟩
          · rw [if_neg hblank] at h
            cases h
            obtain ⟨rfl, rfl⟩ := List.cons.inj hhere
            exact ⟨⟨Bool.eq_false_iff.2 hline, Bool.eq_false_iff.2 hblank, hslash⟩, .refl _ _⟩

end Script

end ComponentLint
