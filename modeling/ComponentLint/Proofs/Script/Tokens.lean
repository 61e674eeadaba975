import ComponentLint.Proofs.Text.Occurrences
import ComponentLint.Proofs.Text.Offsets
import ComponentLint.Script.Cursor

/-!
# Tokens at the front of a text

A word without escapes, and a text in quotes that holds no escape and no line end, are read as what is written. Between two
tokens stand blanks, line ends and comments (`Filler`), and a text says itself where they end (`Filler.unique`).
-/

namespace ComponentLint.Script

open Text

/-! ## Words -/

/-- Whether a text is a word that is written without escapes. -/
def isPlainWord : List Char → Bool
  | first :: rest => isIdStart first && rest.all isIdContinue
  | [] => false

/-- What starts a word is neither a blank nor a line end, and opens no comment. -/
theorem solid_of_isIdStart {c : Char} (h : isIdStart c = true) : isLineEnd c = false ∧ isBlank c = false ∧ c ≠ '/' := by
  -- All that are excluded, by their codes; the blanks from 8192 on are twelve in a row.
  let excluded := [47, 32, 9, 10, 11, 12, 13, 133, 160, 5760, 8232, 8233, 8239, 8287, 12288, 65279] ++ List.range' 8192 12
  have hcodes : ∀ code ∈ excluded, isIdStart (Char.ofNat code) = false := by decide +kernel
  have hmem : isLineEnd c = true ∨ isBlank c = true ∨ c = '/' → c.toNat ∈ excluded := by
    simp only [isLineEnd, isBlank, Bool.or_eq_true, Bool.and_eq_true, beq_iff_eq, decide_eq_true_eq, ← Char.toNat_inj, excluded,
      List.mem_append, List.mem_cons, List.not_mem_nil, or_false, List.mem_range'_1, Char.reduceToNat]
    omega
  have hnot : c.toNat ∉ excluded := by
    intro hcode
    have hfalse := hcodes _ hcode
    rw [Char.ofNat_toNat, h] at hfalse
    cases hfalse
  have hnone := mt hmem hnot
  simpa [not_or] using hnone

theorem wordChars_cons {c : Char} (hc : c ≠ '\\') (fuel : Nat) (first : Bool) (offset : Nat) (rest : List Char) :
    wordChars (fuel + 1) first ⟨offset, c :: rest⟩ =
      if (if first then isIdStart c else isIdContinue c) then
        (wordChars fuel false ⟨offset + c.utf8Size, rest⟩).map fun found => (c :: found.1, found.2.1, found.2.2)
      else if first then none else some ([], false, ⟨offset, c :: rest⟩) := by
  rw [wordChars]
  split
  · next heq => exact absurd (List.cons.inj heq).1 hc
  · next heq => exact absurd (List.cons.inj heq).1 hc
  · next heq =>
    obtain ⟨rfl, rfl⟩ := List.cons.inj heq
    have hnext : (⟨offset, c :: rest⟩ : Stream).next = ⟨offset + c.utf8Size, rest⟩ := rfl
    rw [hnext]
    cases wordChars fuel false ⟨offset + c.utf8Size, rest⟩ with
    | none => simp
    | some found => simp
  · next heq => cases heq

/-- The rest of a word is read up to what does not go on with it. -/
theorem wordChars_rest {word rest : List Char} (hword : ∀ c ∈ word, isIdContinue c = true)
    (hrest : ∀ c ∈ rest.head?, isIdContinue c = false ∧ c ≠ '\\') (offset : Nat) {fuel : Nat} (hfuel : word.length < fuel) :
    wordChars fuel false ⟨offset, word ++ rest⟩ = some (word, false, ⟨offset + byteLength word, rest⟩) := by
  induction word generalizing offset fuel with
  | nil =>
    obtain ⟨fuel, rfl⟩ := Nat.exists_eq_succ_of_ne_zero (Nat.ne_of_gt hfuel)
    cases rest with
    | nil => rfl
    | cons c rest =>
      obtain ⟨hends, hc⟩ := hrest c rfl
      simp [wordChars_cons hc, hends]
  | cons c word ih =>
    obtain ⟨fuel, rfl⟩ := Nat.exists_eq_succ_of_ne_zero (Nat.ne_of_gt (Nat.zero_lt_of_lt hfuel))
    obtain ⟨hc, hword⟩ := List.forall_mem_cons.1 hword
    have hplain : c ≠ '\\' := by
      rintro rfl
      cases hc
    have hread := ih hword (offset + c.utf8Size) (Nat.lt_of_succ_lt_succ hfuel)
    simp [wordChars_cons hplain, hc, hread, Nat.add_assoc]

/-- A word is read as it is written. -/
theorem readToken_word {word rest : List Char} (hword : isPlainWord word = true)
    (hrest : ∀ c ∈ rest.head?, isIdContinue c = false ∧ c ≠ '\\') (offset : Nat) :
    readToken ⟨offset, word ++ rest⟩ = (.word (String.ofList word) false, ⟨offset + byteLength word, rest⟩) := by
  cases word with
  | nil => cases hword
  | cons c word =>
    obtain ⟨hc, hall⟩ := Bool.and_eq_true_iff.1 hword
    have hplain : c ≠ '\\' := by
      rintro rfl
      cases hc
    have hlength : word.length < (c :: (word ++ rest)).length := by
      rw [List.length_cons, List.length_append]
      omega
    have hread := wordChars_rest (List.all_eq_true.1 hall) hrest (offset + c.utf8Size) hlength
    have hwhole : readWord ⟨offset, c :: (word ++ rest)⟩ =
        some (String.ofList (c :: word), false, ⟨offset + byteLength (c :: word), rest⟩) := by
      rw [readWord, wordChars_cons hplain, if_pos rfl, if_pos hc, hread]
      simp [Nat.add_assoc]
    rw [readToken, List.cons_append]
    simp only [hc, Bool.true_or, if_true, hwhole]

/-! ## Texts in quotes -/

/-- Whether a character may stand in a quoted text as it is. -/
def isPlainIn (quote c : Char) : Bool :=
  c != quote && c != '\\' && c != '\n' && c != '\r'

theorem stringChars_plain {quote : Char} {text : List Char} (htext : ∀ c ∈ text, isPlainIn quote c = true) (rest : List Char)
    (hquote : quote ≠ '\\') (offset : Nat) {fuel : Nat} (hfuel : text.length < fuel) :
    stringChars quote fuel ⟨offset, text ++ quote :: rest⟩ = some (text, ⟨offset + byteLength text + quote.utf8Size, rest⟩) := by
  induction text generalizing offset fuel with
  | nil =>
    obtain ⟨fuel, rfl⟩ := Nat.exists_eq_succ_of_ne_zero (Nat.ne_of_gt hfuel)
    simp [stringChars, Stream.next]
  | cons c text ih =>
    obtain ⟨fuel, rfl⟩ := Nat.exists_eq_succ_of_ne_zero (Nat.ne_of_gt (Nat.zero_lt_of_lt hfuel))
    obtain ⟨hc, htext⟩ := List.forall_mem_cons.1 htext
    obtain ⟨⟨⟨hother, hescape⟩, hfeed⟩, hreturn⟩ : ((c ≠ quote ∧ c ≠ '\\') ∧ c ≠ '\n') ∧ c ≠ '\r' := by
      simpa [isPlainIn] using hc
    have hread := ih htext (offset + c.utf8Size) (Nat.lt_of_succ_lt_succ hfuel)
    simp [stringChars, hother, hfeed, hreturn, Stream.next, hread, Nat.add_assoc]

/-- A quoted text is read as what is written between its quotes. -/
theorem readToken_text {quote : Char} (hquote : quote = '\'' ∨ quote = '"') {text : List Char}
    (htext : ∀ c ∈ text, isPlainIn quote c = true) (rest : List Char) (offset : Nat) :
    readToken ⟨offset, quote :: (text ++ quote :: rest)⟩ =
      (.string (String.ofList text), ⟨offset + 2 + byteLength text, rest⟩) := by
  obtain ⟨hescape, hsize, hstart⟩ : quote ≠ '\\' ∧ quote.utf8Size = 1 ∧ isIdStart quote = false := by
    rcases hquote with rfl | rfl <;> decide
  have hlength : text.length < text.length + (rest.length + 1) + 1 := by omega
  have hread := stringChars_plain htext rest hescape (offset + 1) hlength
  have hstop : offset + 1 + byteLength text + quote.utf8Size = offset + 2 + byteLength text := by omega
  rw [hstop] at hread
  have hnext : (⟨offset, quote :: (text ++ quote :: rest)⟩ : Stream).next = ⟨offset + 1, text ++ quote :: rest⟩ := by
    rw [← hsize]
    rfl
  rcases hquote with rfl | rfl <;> simp [readToken, hstart, hnext, hread]

/-! ## Cursors -/

theorem readToken_equals (offset : Nat) (rest : List Char) :
    readToken ⟨offset, '=' :: '=' :: '=' :: rest⟩ = (.punct "===", ⟨offset + 3, rest⟩) := by
  rfl

namespace Cursor

/-- The cursor on the token at the front of a text that starts at an offset. -/
def facing (offset : Nat) (text : List Char) (previous : Nat) (notes : Notes) : Cursor :=
  ⟨⟨offset, text⟩, (readToken ⟨offset, text⟩).1, (readToken ⟨offset, text⟩).2, false, previous, notes⟩

end Cursor

theorem facing_token {offset : Nat} {text : List Char} {token : Token} {after : Stream}
    (h : readToken ⟨offset, text⟩ = (token, after)) (previous : Nat) (notes : Notes) :
    (Cursor.facing offset text previous notes).token = token ∧
      (Cursor.facing offset text previous notes).advance = Cursor.enter after after.offset notes := by
  simp [Cursor.facing, Cursor.advance, h]

theorem skipGap_solid {c : Char} (hc : isLineEnd c = false ∧ isBlank c = false ∧ c ≠ '/') (fuel offset : Nat) (rest : List Char)
    (gap : Gap) : skipGap (fuel + 1) ⟨offset, c :: rest⟩ gap = some (⟨offset, c :: rest⟩, gap) := by
  obtain ⟨hend, hblank, hslash⟩ := hc
  rw [skipGap]
  split
  · next heq => exact absurd (List.cons.inj heq).1 hslash
  · next heq => exact absurd (List.cons.inj heq).1 hslash
  · next heq =>
    obtain ⟨rfl, rfl⟩ := List.cons.inj heq
    rw [hend, hblank]
    rfl
  · next heq => cases heq

theorem enter_solid {c : Char} (hc : isLineEnd c = false ∧ isBlank c = false ∧ c ≠ '/') (offset : Nat) (rest : List Char)
    (previous : Nat) (notes : Notes) :
    Cursor.enter ⟨offset, c :: rest⟩ previous notes = Cursor.facing offset (c :: rest) previous notes := by
  rw [Cursor.enter, skipGap_solid hc]
  rfl

theorem enter_nil (offset previous : Nat) (notes : Notes) :
    Cursor.enter ⟨offset, []⟩ previous notes = Cursor.facing offset [] previous notes :=
  rfl

theorem enter_blank {c : Char} (hc : isLineEnd c = false ∧ isBlank c = false ∧ c ≠ '/') (offset : Nat) (rest : List Char)
    (previous : Nat) (notes : Notes) :
    Cursor.enter ⟨offset, ' ' :: c :: rest⟩ previous notes = Cursor.facing (offset + 1) (c :: rest) previous notes := by
  have hskip : skipGap ((' ' :: c :: rest).length + 1) ⟨offset, ' ' :: c :: rest⟩ ⟨false, notes.comments⟩ =
      skipGap ((c :: rest).length + 1) ⟨offset + 1, c :: rest⟩ ⟨false, notes.comments⟩ := rfl
  rw [Cursor.enter, hskip, skipGap_solid hc]
  rfl

/-! ## Between tokens -/

/-- What may stand between two tokens: blanks, line ends and comments. -/
inductive Filler : List Char → Prop where
  | nil : Filler []
  | blank {c : Char} {rest : List Char} (hblank : isBlank c = true ∨ isLineEnd c = true) (hrest : Filler rest) :
    Filler (c :: rest)
  /-- A comment up to the end of its line. -/
  | line {body rest : List Char} {stop : Char} (hbody : ∀ c ∈ body, isLineEnd c = false) (hstop : isLineEnd stop = true)
      (hrest : Filler rest) : Filler ('/' :: '/' :: (body ++ stop :: rest))
  /-- A comment up to the first mark that closes it. -/
  | block {body rest : List Char} (hbody : occurs ['*', '/'] body = false) (hrest : Filler rest) :
      Filler ('/' :: '*' :: (body ++ (['*', '/'] ++ rest)))

/-- A text ends the filler in front of it where something solid stands. -/
theorem Filler.unique {front other : List Char} (hfront : Filler front) (hother : Filler other) {c : Char}
    (hc : isLineEnd c = false ∧ isBlank c = false ∧ c ≠ '/') {rest more : List Char}
    (heq : front ++ c :: rest = other ++ c :: more) : front = other := by
  obtain ⟨hline, hblank, hslash⟩ := hc
  have hnone : ∀ {d : Char}, isBlank d = true ∨ isLineEnd d = true → d ≠ c ∧ d ≠ '/' := by
    rintro d hd
    refine ⟨?_, ?_⟩
    · rintro rfl
      simp [hline, hblank] at hd
    · rintro rfl
      revert hd
      decide
  induction hfront generalizing other with
  | nil =>
    cases hother with
    | nil => rfl
    | blank hd _ => exact absurd (List.cons.inj heq).1.symm (hnone hd).1
    | line _ _ _ => exact absurd (List.cons.inj heq).1 hslash
    | block _ _ => exact absurd (List.cons.inj heq).1 hslash
  | blank hd _ ih =>
    cases hother with
    | nil => exact absurd (List.cons.inj heq).1 (hnone hd).1
    | blank _ hrest =>
      obtain ⟨rfl, hrest'⟩ := List.cons.inj heq
      rw [ih hrest hrest']
    | line _ _ _ => exact absurd (List.cons.inj heq).1 (hnone hd).2
    | block _ _ => exact absurd (List.cons.inj heq).1 (hnone hd).2
  | @line body _ stop hbody hstop _ ih =>
    cases hother with
    | nil => exact absurd (List.cons.inj heq).1.symm hslash
    | blank hd _ => exact absurd (List.cons.inj heq).1.symm (hnone hd).2
    | @line body' _ stop' hbody' hstop' hrest =>
      simp only [List.cons_append, List.append_assoc] at heq
      replace heq := (List.cons.inj (List.cons.inj heq).2).2
      -- Both comments go up to the first end of a line.
      have hsame : body = body' := by
        have htaken := congrArg (List.takeWhile fun d => !isLineEnd d) heq
        rwa [(takeWhile_run (by simpa using hbody) (by simp [hstop])).1,
          (takeWhile_run (by simpa using hbody') (by simp [hstop'])).1] at htaken
      subst hsame
      obtain ⟨rfl, hrest'⟩ := List.cons.inj (List.append_cancel_left heq)
      rw [ih hrest hrest']
    | block _ _ => simp at heq
  | @block body shown hbody _ ih =>
    cases hother with
    | nil => exact absurd (List.cons.inj heq).1.symm hslash
    | blank hd _ => exact absurd (List.cons.inj heq).1.symm (hnone hd).2
    | line _ _ _ => simp at heq
    | @block body' shown' hbody' hrest =>
      simp only [List.cons_append, List.append_assoc] at heq
      replace heq := (List.cons.inj (List.cons.inj heq).2).2
      -- Both comments go up to the first mark that closes one.
      have hcut := (cutAt?_mark (by decide) body (shown ++ c :: rest)).2 hbody
      have hcut' := (cutAt?_mark (by decide) body' (shown' ++ c :: more)).2 hbody'
      obtain ⟨rfl, hrest'⟩ := Prod.mk.inj (Option.some.inj (hcut.symm.trans ((congrArg _ heq).trans hcut')))
      rw [ih hrest hrest']

end ComponentLint.Script
