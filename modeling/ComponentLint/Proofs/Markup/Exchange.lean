import ComponentLint.Proofs.Markup.Locality
import ComponentLint.Proofs.Markup.RawBlocks

/-!
# Exchanging what follows a piece

A piece is the same whatever text follows it, if that text starts in the same way and holds nothing new that closes a bracket
or braces: `Exchangeable` says so for two texts, and `readPiece_swap` and `readRaw_swap` exchange one for the other.
-/

namespace ComponentLint.Markup

open Text

/-- Markup is recognized by its first characters. -/
theorem isMarkup_eq (chars : List Char) : isMarkup chars =
    (['<', '!', '-', '-'].isPrefixOf chars || (['<', '/'].isPrefixOf chars && startsName (chars.drop 2)) ||
      (['<'].isPrefixOf chars && startsName (chars.drop 1))) := by
  unfold isMarkup
  split
  · rfl
  · have hslash : ∀ tail, startsName ('/' :: tail) = false := fun _ => rfl
    simp [hslash]
  · rename_i rest hcomment hend
    have hcomment' : ['<', '!', '-', '-'].isPrefixOf ('<' :: rest) = false := by
      refine Bool.eq_false_iff.2 fun h => ?_
      obtain ⟨tail, htail⟩ := List.isPrefixOf_iff_prefix.1 h
      exact hcomment tail (List.cons.inj htail).2.symm
    have hend' : ['<', '/'].isPrefixOf ('<' :: rest) = false := by
      refine Bool.eq_false_iff.2 fun h => ?_
      obtain ⟨tail, htail⟩ := List.isPrefixOf_iff_prefix.1 h
      exact hend tail (List.cons.inj htail).2.symm
    simp [hcomment', hend']
  · rename_i hopen
    have hopen' : ∀ mark, ('<' :: mark : List Char).isPrefixOf chars = false := by
      intro mark
      refine Bool.eq_false_iff.2 fun h => ?_
      obtain ⟨tail, htail⟩ := List.isPrefixOf_iff_prefix.1 h
      exact hopen _ htail.symm
    simp [hopen']

/-- Two texts that a piece before them cannot tell apart: they look alike where they start, whatever stands before them, and
what the second holds to close a bracket or braces, the first holds too. -/
structure Exchangeable (rest rest' : List Char) : Prop where
  ne_nil : rest ≠ []
  head : rest.head? = rest'.head?
  markup : ∀ front, isMarkup (front ++ rest) = isMarkup (front ++ rest')
  braces : ∀ front, ['{', '{'].isPrefixOf (front ++ rest) = ['{', '{'].isPrefixOf (front ++ rest')
  bracket : ']' ∈ rest' → ']' ∈ rest
  closing : ∀ front, occurs ['}', '}'] (front ++ rest') = true → occurs ['}', '}'] (front ++ rest) = true

namespace Exchangeable

variable {rest rest' : List Char}

theorem prepend (h : Exchangeable rest rest') (front : List Char) : Exchangeable (front ++ rest) (front ++ rest') := by
  refine ⟨by simp [h.ne_nil], ?_, ?_, ?_, ?_, ?_⟩
  · rw [List.head?_append, List.head?_append, h.head]
  · intro before
    rw [← List.append_assoc, ← List.append_assoc]
    exact h.markup _
  · intro before
    rw [← List.append_assoc, ← List.append_assoc]
    exact h.braces _
  · exact fun hmem => List.mem_append.2 ((List.mem_append.1 hmem).imp_right h.bracket)
  · intro before
    rw [← List.append_assoc, ← List.append_assoc]
    exact h.closing _

theorem other_ne_nil (h : Exchangeable rest rest') : rest' ≠ [] := by
  rintro rfl
  obtain ⟨c, rest, rfl⟩ := List.exists_cons_of_ne_nil h.ne_nil
  cases h.head

/-- Markup and interpolations start with a character that nothing before them goes on with, so they can be exchanged for others
of their kind. -/
theorem of_start {c : Char} {tail tail' : List Char} (hc : c = '<' ∨ c = '{')
    (hmarkup : isMarkup (c :: tail) = isMarkup (c :: tail'))
    (hbraces : ['{', '{'].isPrefixOf (c :: tail) = ['{', '{'].isPrefixOf (c :: tail'))
    (hbracket : ']' ∈ tail' → ']' ∈ tail)
    (hclosing : occurs ['}', '}'] (c :: tail') = true → occurs ['}', '}'] (c :: tail) = true) :
    Exchangeable (c :: tail) (c :: tail') := by
  refine ⟨by simp, rfl, ?_, ?_, fun hmem => ?_, ?_⟩
  · intro front
    have hname : ∀ tail, startsName (c :: tail) = false := by
      intro tail
      rcases hc with rfl | rfl <;> rfl
    rcases front with _ | ⟨a, _ | ⟨b, _ | ⟨d, _ | ⟨e, front⟩⟩⟩⟩
    · exact hmarkup
    · rcases hc with rfl | rfl <;> simp [isMarkup_eq, List.isPrefixOf, hname]
    · rcases hc with rfl | rfl <;> simp [isMarkup_eq, List.isPrefixOf, startsName]
    · rcases hc with rfl | rfl <;> simp [isMarkup_eq, List.isPrefixOf, startsName]
    · simp [isMarkup_eq, List.isPrefixOf, startsName]
  · intro front
    rcases front with _ | ⟨a, _ | ⟨b, front⟩⟩
    · exact hbraces
    · simp [List.isPrefixOf]
    · simp [List.isPrefixOf]
  · exact List.mem_cons.2 ((List.mem_cons.1 hmem).imp_right hbracket)
  · intro front hoccurs
    obtain ⟨before, after, heq⟩ := (occurs_iff (by simp)).1 hoccurs
    refine (occurs_iff (by simp)).2 ?_
    rcases List.append_eq_append_iff.1 heq with ⟨more, rfl, hmore⟩ | ⟨more, rfl, hmore⟩
    · obtain ⟨before', after', heq'⟩ := (occurs_iff (by simp)).1 (hclosing ((occurs_iff (by simp)).2 ⟨more, after, hmore⟩))
      exact ⟨front ++ before', after', by rw [heq']; simp⟩
    · -- The braces start inside the front; they cannot end behind it.
      rcases more with _ | ⟨a, _ | ⟨b, more⟩⟩
      · obtain ⟨rfl, -⟩ := List.cons.inj hmore
        rcases hc with hc | hc <;> cases hc
      · obtain ⟨-, htail⟩ := List.cons.inj hmore
        obtain ⟨rfl, -⟩ := List.cons.inj htail
        rcases hc with hc | hc <;> cases hc
      · obtain ⟨rfl, htail⟩ := List.cons.inj hmore
        obtain ⟨rfl, -⟩ := List.cons.inj htail
        exact ⟨before, more ++ c :: tail, by simp⟩

end Exchangeable

/-! ## Text -/

/-- Whether text ends here. -/
def stopsText (interpolates : Bool) (chars : List Char) : Bool :=
  chars.isEmpty || isMarkup chars || (interpolates && ['{', '{'].isPrefixOf chars)

theorem textRun_cons (interpolates : Bool) (c : Char) (rest : List Char) :
    textRun interpolates false (c :: rest) =
      if stopsText interpolates (c :: rest) then ([], c :: rest)
      else (c :: (textRun interpolates false rest).1, (textRun interpolates false rest).2) := by
  conv =>
    lhs
    unfold textRun
  split
  · rename_i heq
    cases heq
  · rename_i tail heq
    obtain ⟨rfl, rfl⟩ := List.cons.inj heq
    cases interpolates with
    | true => simp [stopsText, List.isPrefixOf]
    | false =>
      have hmarkup : isMarkup ('{' :: '{' :: tail) = false := rfl
      simp [stopsText, hmarkup]
  · rename_i d tail hbraces heq
    obtain ⟨rfl, rfl⟩ := List.cons.inj heq
    have hbraces' : ['{', '{'].isPrefixOf (c :: rest) = false := by
      refine Bool.eq_false_iff.2 fun h => ?_
      obtain ⟨tail, htail⟩ := List.isPrefixOf_iff_prefix.1 h
      obtain ⟨rfl, hrest⟩ := List.cons.inj htail
      exact hbraces tail rfl hrest.symm
    simp [stopsText, hbraces']

/-- The first character is text, and the second too if they are braces that are not closed. -/
theorem textRun_first (interpolates : Bool) (c : Char) (rest : List Char) :
    textRun interpolates true (c :: rest) =
      if interpolates && ['{', '{'].isPrefixOf (c :: rest) then
        ('{' :: '{' :: (textRun interpolates false rest.tail).1, (textRun interpolates false rest.tail).2)
      else (c :: (textRun interpolates false rest).1, (textRun interpolates false rest).2) := by
  conv =>
    lhs
    unfold textRun
  split
  · rename_i heq
    cases heq
  · rename_i tail heq
    obtain ⟨rfl, rfl⟩ := List.cons.inj heq
    cases interpolates with
    | true => simp [List.isPrefixOf]
    | false => simp
  · rename_i d tail hbraces heq
    obtain ⟨rfl, rfl⟩ := List.cons.inj heq
    have hbraces' : ['{', '{'].isPrefixOf (c :: rest) = false := by
      refine Bool.eq_false_iff.2 fun h => ?_
      obtain ⟨tail, htail⟩ := List.isPrefixOf_iff_prefix.1 h
      obtain ⟨rfl, hrest⟩ := List.cons.inj htail
      exact hbraces tail rfl hrest.symm
    simp [hbraces']

section Pieces

variable {rest rest' : List Char}

theorem Exchangeable.stopsText (h : Exchangeable rest rest') (interpolates : Bool) (front : List Char) :
    stopsText interpolates (front ++ rest) = stopsText interpolates (front ++ rest') := by
  have hempty : (front ++ rest).isEmpty = (front ++ rest').isEmpty := by
    rw [List.isEmpty_eq_false_iff.2 (h.prepend front).ne_nil, List.isEmpty_eq_false_iff.2 (h.prepend front).other_ne_nil]
  rw [Markup.stopsText, Markup.stopsText, hempty, h.markup, h.braces]

theorem textRun_swap (h : Exchangeable rest rest') {interpolates : Bool} {taken : List Char}
    (hread : textRun interpolates false (taken ++ rest) = (taken, rest)) :
    textRun interpolates false (taken ++ rest') = (taken, rest') := by
  induction taken with
  | nil =>
    obtain ⟨c, rest, rfl⟩ := List.exists_cons_of_ne_nil h.ne_nil
    obtain ⟨tail', rfl⟩ := List.head?_eq_some_iff.1 h.head.symm
    rw [List.nil_append, textRun_cons] at hread ⊢
    split at hread
    · rename_i hstop
      rw [if_pos]
      exact (h.stopsText interpolates []).symm.trans hstop
    · cases (Prod.mk.inj hread).1
  | cons c taken ih =>
    rw [List.cons_append, textRun_cons] at hread ⊢
    have hsame := h.stopsText interpolates (c :: taken)
    rw [List.cons_append, List.cons_append] at hsame
    rw [← hsame]
    split at hread
    · cases (Prod.mk.inj hread).1
    · rename_i hgoes
      obtain ⟨htaken, hrest⟩ := Prod.mk.inj hread
      rw [if_neg hgoes, ih (Prod.ext (List.cons.inj htaken).2 hrest)]

/-- Text that stands before a text stands before an exchangeable one too, unless braces at its start get closed there. -/
theorem textRun_first_swap (h : Exchangeable rest rest') {interpolates : Bool} {taken : List Char}
    (hread : textRun interpolates true (taken ++ rest) = (taken, rest)) :
    textRun interpolates true (taken ++ rest') = (taken, rest') ∧
      (interpolates = true → ['{', '{'].isPrefixOf (taken ++ rest) = true → ∃ inner, taken = '{' :: '{' :: inner) := by
  have hne : taken ≠ [] := by
    have htaken := textRun_ne_nil interpolates (show taken ++ rest ≠ [] by simp [h.ne_nil])
    rwa [hread] at htaken
  obtain ⟨c, taken, rfl⟩ := List.exists_cons_of_ne_nil hne
  have hsame := h.braces (c :: taken)
  rw [List.cons_append, textRun_first] at hread ⊢
  rw [List.cons_append, List.cons_append] at hsame
  rw [← hsame]
  split at hread
  · rename_i hbraces
    obtain ⟨htaken, hrest⟩ := Prod.mk.inj hread
    obtain ⟨hc, htaken⟩ := List.cons.inj htaken
    cases taken with
    | nil => cases htaken
    | cons d taken =>
      obtain ⟨hd, htaken⟩ := List.cons.inj htaken
      rw [if_pos hbraces]
      rw [List.cons_append, List.tail_cons] at htaken hrest
      rw [List.cons_append, List.tail_cons, textRun_swap h (Prod.ext htaken hrest), ← hc, ← hd]
      exact ⟨rfl, fun _ _ => ⟨taken, rfl⟩⟩
  · rename_i hbraces
    obtain ⟨htaken, hrest⟩ := Prod.mk.inj hread
    rw [if_neg hbraces, textRun_swap h (Prod.ext (List.cons.inj htaken).2 hrest)]
    refine ⟨rfl, fun hinterpolates hprefix => ?_⟩
    rw [hinterpolates, ← List.cons_append, hprefix] at hbraces
    exact absurd rfl hbraces

/-! ## The piece at the front -/

theorem readComment_swap {offset stop : Nat} {chars : List Char} {piece : Piece} (hne : rest ≠ [])
    (hread : readComment ⟨offset, '<' :: '!' :: '-' :: '-' :: chars⟩ = (piece, ⟨stop, rest⟩)) :
    ∃ inner, chars = inner ++ rest ∧
      ∀ rest', readComment ⟨offset, '<' :: '!' :: '-' :: '-' :: (inner ++ rest')⟩ = (piece, ⟨stop, rest'⟩) := by
  unfold readComment at hread ⊢
  simp only [List.drop_succ_cons, List.drop_zero] at hread ⊢
  split at hread
  · rename_i body after hcut
    simp only [Prod.mk.injEq, Stream.mk.injEq] at hread
    obtain ⟨rfl, rfl, rfl⟩ := hread
    have hchars := eq_of_cutAt? hcut
    subst hchars
    refine ⟨body ++ ['-', '-', '>'], by simp, fun rest' => ?_⟩
    have hcut' := cutAt?_swap hcut rest' (by simp)
    simp only [List.append_assoc]
    rw [hcut']
  · simp only [Prod.mk.injEq, Stream.mk.injEq] at hread
    exact absurd hread.2.2.symm hne

/-- The text of an end tag behind its opening: its name, blanks, and what follows them. -/
theorem endTagText (chars : List Char) : ∃ name blanks after, chars = name ++ (blanks ++ after) ∧
    (∀ c ∈ name, isAsciiSpace c = false ∧ c ≠ '>') ∧ (∀ c ∈ blanks, isAsciiSpace c = true) ∧
    (∀ c ∈ after.head?, isAsciiSpace c = false) ∧ ∀ c ∈ (blanks ++ after).head?, isAsciiSpace c = true ∨ c = '>' := by
  obtain ⟨blanks, after, hrest, hblanks, hafter⟩ := exists_blanks (chars.dropWhile fun c => !isAsciiSpace c && c != '>')
  refine ⟨chars.takeWhile fun c => !isAsciiSpace c && c != '>', blanks, after, ?_, ?_, hblanks, hafter, ?_⟩
  · rw [← hrest, List.takeWhile_append_dropWhile]
  · intro c hc
    simpa using List.all_eq_true.1 List.all_takeWhile c hc
  · intro c hc
    have hhead := List.head?_dropWhile_not (p := fun c => !isAsciiSpace c && c != '>') (l := chars)
    rw [hrest, show (blanks ++ after).head? = some c from hc] at hhead
    cases hblank : isAsciiSpace c with
    | true => exact Or.inl rfl
    | false => exact Or.inr (by simpa [hblank] using hhead)

theorem readEndTag_text {name blanks after : List Char} (offset : Nat) (hname : ∀ c ∈ name, isAsciiSpace c = false ∧ c ≠ '>')
    (hblanks : ∀ c ∈ blanks, isAsciiSpace c = true) (hafter : ∀ c ∈ after.head?, isAsciiSpace c = false)
    (hends : ∀ c ∈ (blanks ++ after).head?, isAsciiSpace c = true ∨ c = '>') :
    readEndTag ⟨offset, '<' :: '/' :: (name ++ (blanks ++ after))⟩ =
      if after.head? = some '>' then
        (.endTag name ⟨offset, offset + 2 + byteLength name + byteLength blanks + 1⟩
          (some (offset + 2 + byteLength name + byteLength blanks)),
        ⟨offset + 2 + byteLength name + byteLength blanks + 1, after.tail⟩)
      else
        (.endTag name ⟨offset, offset + 2 + byteLength name + byteLength blanks⟩ none,
        ⟨offset + 2 + byteLength name + byteLength blanks, after⟩) := by
  have hspan : Stream.span (fun c => !isAsciiSpace c && c != '>') ⟨offset + 2, name ++ (blanks ++ after)⟩ =
      (name, ⟨offset + 2 + byteLength name, blanks ++ after⟩) := by
    refine Stream.span_exact _ (fun c hc => by simpa using hname c hc) (fun c hc => ?_)
    rcases hends c hc with hblank | rfl
    · simp [hblank]
    · simp
  unfold readEndTag
  dsimp only
  rw [show Stream.skip 2 ⟨offset, '<' :: '/' :: (name ++ (blanks ++ after))⟩ = ⟨offset + 2, name ++ (blanks ++ after)⟩ from rfl,
    hspan]
  dsimp only
  rw [skipBlanks_exact _ hblanks hafter]
  dsimp only
  split
  · rfl
  · rename_i hopen
    rw [if_neg]
    intro hmark
    obtain ⟨tail, rfl⟩ := List.head?_eq_some_iff.1 hmark
    exact hopen tail rfl

theorem readEndTag_swap {offset stop : Nat} {chars : List Char} {piece : Piece} (hne : rest ≠ [])
    (hread : readEndTag ⟨offset, '<' :: '/' :: chars⟩ = (piece, ⟨stop, rest⟩)) :
    ∃ inner, chars = inner ++ rest ∧ ∀ rest' : List Char, rest.head? = rest'.head? →
      readEndTag ⟨offset, '<' :: '/' :: (inner ++ rest')⟩ = (piece, ⟨stop, rest'⟩) := by
  obtain ⟨name, blanks, after, rfl, hname, hblanks, hafter, hends⟩ := endTagText chars
  rw [readEndTag_text offset hname hblanks hafter hends] at hread
  split at hread
  · rename_i hmark
    obtain ⟨tail, rfl⟩ := List.head?_eq_some_iff.1 hmark
    simp only [Prod.mk.injEq, Stream.mk.injEq, List.tail_cons] at hread
    obtain ⟨rfl, rfl, rfl⟩ := hread
    refine ⟨name ++ (blanks ++ ['>']), by simp, fun rest' _ => ?_⟩
    have hends' : ∀ c ∈ (blanks ++ '>' :: rest').head?, isAsciiSpace c = true ∨ c = '>' := by
      cases blanks with
      | nil => simp
      | cons d blanks => exact hends
    have hresult := readEndTag_text offset hname hblanks (by simp [isAsciiSpace]) hends'
    rw [List.head?_cons, if_pos rfl, List.tail_cons] at hresult
    simpa using hresult
  · rename_i hopen
    simp only [Prod.mk.injEq, Stream.mk.injEq] at hread
    obtain ⟨rfl, rfl, rfl⟩ := hread
    refine ⟨name ++ blanks, by simp, fun rest' hhead => ?_⟩
    have hends' : ∀ c ∈ (blanks ++ rest').head?, isAsciiSpace c = true ∨ c = '>' := by
      rwa [List.head?_append, ← hhead, ← List.head?_append]
    have hresult := readEndTag_text offset hname hblanks (by rwa [← hhead]) hends'
    rw [if_neg (by rwa [← hhead])] at hresult
    simpa using hresult

theorem readContent_swap (h : Exchangeable rest rest') {around : Surroundings} {offset stop : Nat} {taken : List Char}
    {piece : Piece} (hread : readContent around ⟨offset, taken ++ rest⟩ = (piece, ⟨stop, rest⟩)) :
    readContent around ⟨offset, taken ++ rest'⟩ = (piece, ⟨stop, rest'⟩) := by
  have htext : ∀ interpolates, readText interpolates ⟨offset, taken ++ rest⟩ = (piece, ⟨stop, rest⟩) →
      textRun interpolates true (taken ++ rest) = (taken, rest) ∧ piece = .text offset taken ∧
        stop = offset + byteLength taken := by
    intro interpolates hread
    have happ := textRun_append interpolates true (taken ++ rest)
    simp only [readText, Stream.after, Prod.mk.injEq, Stream.mk.injEq] at hread
    obtain ⟨rfl, rfl, hrest⟩ := hread
    rw [hrest] at happ
    have htaken := List.append_cancel_right happ
    exact ⟨Prod.ext htaken hrest, by rw [htaken], by rw [htaken]⟩
  have hbraces := h.braces taken
  unfold readContent at hread ⊢
  have hstarts : Stream.startsWith ⟨offset, taken ++ rest⟩ "\x7b\x7b" = Stream.startsWith ⟨offset, taken ++ rest'⟩ "\x7b\x7b" :=
    hbraces
  rw [← hstarts]
  split at hread
  · rename_i hopen
    rw [if_pos hopen]
    obtain ⟨hinterpolates, hprefix⟩ := Bool.and_eq_true_iff.1 hopen
    unfold readInterpolation? at hread ⊢
    cases hcut : cutAt? ['}', '}'] ((taken ++ rest).drop 2) with
    | some parts =>
      obtain ⟨inner, after⟩ := parts
      have hinner := eq_of_cutAt? hcut
      obtain ⟨tail, htail⟩ := List.isPrefixOf_iff_prefix.1 hprefix
      replace htail : '{' :: '{' :: tail = taken ++ rest := htail
      rw [← htail] at hinner hcut
      rw [← htail, hcut] at hread
      simp only [Option.bind_eq_bind, Option.bind_some, Option.pure_def, Option.getD_some,
        Prod.mk.injEq, Stream.mk.injEq] at hread
      obtain ⟨rfl, rfl, rfl⟩ := hread
      replace hinner : tail = inner ++ (['}', '}'] ++ after) := hinner
      obtain rfl : taken = '{' :: '{' :: (inner ++ ['}', '}']) := by
        refine List.append_cancel_right (htail.symm.trans ?_)
        simp [hinner]
      subst hinner
      have hcut' : cutAt? ['}', '}'] (inner ++ '}' :: '}' :: rest') = some (inner, rest') := cutAt?_swap hcut rest' (by simp)
      simp [hcut']
    | none =>
      rw [hcut] at hread
      obtain ⟨hrun, rfl, rfl⟩ := htext true hread
      obtain ⟨hrun', hform⟩ := textRun_first_swap h hrun
      obtain ⟨inner, rfl⟩ := hform rfl hprefix
      have hnone : cutAt? ['}', '}'] (('{' :: '{' :: inner ++ rest').drop 2) = none := by
        refine Option.not_isSome_iff_eq_none.1 fun hsome => ?_
        have hoccurs : occurs ['}', '}'] (inner ++ rest) = true := h.closing inner hsome
        rw [occurs, show cutAt? ['}', '}'] (inner ++ rest) = none from hcut] at hoccurs
        cases hoccurs
      rw [hnone, readText, hrun']
      rfl
  · rename_i hopen
    rw [if_neg hopen]
    obtain ⟨hrun, rfl, rfl⟩ := htext _ hread
    rw [readText, (textRun_first_swap h hrun).1]
    rfl

section Dispatch

variable (around : Surroundings)

theorem readPiece_content {stream : Stream} (h : isMarkup stream.chars = false) :
    readPiece around stream = readContent around stream := by
  rw [isMarkup_eq] at h
  simp only [Bool.or_eq_false_iff] at h
  obtain ⟨⟨hcomment, hend⟩, hstart⟩ := h
  unfold readPiece
  split
  · rename_i hchars
    rw [hchars] at hcomment
    cases hcomment
  · rename_i tail hchars
    rw [hchars] at hend
    have hname : startsName tail = false := hend
    rw [if_neg (Bool.eq_false_iff.1 hname)]
  · rename_i tail _ _ hchars
    rw [hchars] at hstart
    have hname : startsName tail = false := hstart
    rw [if_neg (Bool.eq_false_iff.1 hname)]
  · rfl

theorem readPiece_close {offset : Nat} {chars : List Char} (h : startsName chars = true) :
    readPiece around ⟨offset, '<' :: '/' :: chars⟩ = readEndTag ⟨offset, '<' :: '/' :: chars⟩ :=
  if_pos h

theorem readPiece_open {offset : Nat} {chars : List Char} (h : startsName chars = true) :
    readPiece around ⟨offset, '<' :: chars⟩ =
      (.startTag (readStartTag around ⟨offset, '<' :: chars⟩).1, (readStartTag around ⟨offset, '<' :: chars⟩).2) := by
  unfold readPiece
  dsimp only
  split
  · rename_i heq
    obtain rfl := (List.cons.inj heq).2
    cases h
  · rename_i heq
    obtain rfl := (List.cons.inj heq).2
    cases h
  · rename_i heq
    obtain rfl := (List.cons.inj heq).2
    rw [if_pos h]
  · rename_i hother
    exact absurd rfl (hother chars)

end Dispatch

/-- A piece is the same before every text that can be exchanged for the one that follows it. -/
theorem readPiece_swap (h : Exchangeable rest rest') {around : Surroundings} {offset stop : Nat} {taken : List Char}
    {piece : Piece} (hne : taken ≠ []) (hread : readPiece around ⟨offset, taken ++ rest⟩ = (piece, ⟨stop, rest⟩)) :
    readPiece around ⟨offset, taken ++ rest'⟩ = (piece, ⟨stop, rest'⟩) := by
  have hstartsName : ∀ front : List Char, startsName (front ++ rest) = startsName (front ++ rest') := by
    intro front
    cases front with
    | cons c front => rfl
    | nil =>
      obtain ⟨c, tail, rfl⟩ := List.exists_cons_of_ne_nil h.ne_nil
      obtain ⟨tail', rfl⟩ := List.head?_eq_some_iff.1 h.head.symm
      rfl
  by_cases hmarkup : isMarkup (taken ++ rest) = true
  · rw [isMarkup_eq] at hmarkup
    simp only [Bool.or_eq_true, Bool.and_eq_true, List.isPrefixOf_iff_prefix] at hmarkup
    rcases hmarkup with (⟨tail, htail⟩ | ⟨⟨tail, htail⟩, hname⟩) | ⟨⟨tail, htail⟩, hname⟩
    · -- A comment.
      rw [← htail] at hread
      obtain ⟨inner, rfl, hinner⟩ := readComment_swap h.ne_nil hread
      obtain rfl : taken = '<' :: '!' :: '-' :: '-' :: inner := by
        refine List.append_cancel_right (htail.symm.trans ?_)
        simp
      exact hinner rest'
    · -- An end tag.
      rw [← htail] at hread hname
      rw [show readPiece around ⟨offset, ['<', '/'] ++ tail⟩ = _ from readPiece_close around hname] at hread
      obtain ⟨inner, rfl, hinner⟩ := readEndTag_swap h.ne_nil hread
      obtain rfl : taken = '<' :: '/' :: inner := by
        refine List.append_cancel_right (htail.symm.trans ?_)
        simp
      rw [← hinner rest' h.head]
      exact readPiece_close around ((hstartsName inner).symm.trans hname)
    · -- A start tag.
      obtain ⟨c, taken, rfl⟩ := List.exists_cons_of_ne_nil hne
      obtain ⟨rfl, -⟩ := List.cons.inj htail
      replace hname : startsName (taken ++ rest) = true := hname
      rw [List.cons_append, readPiece_open around hname] at hread
      obtain ⟨hpiece, hrest⟩ := Prod.mk.inj hread
      have hswap := readStartTag_swap h.ne_nil (Prod.ext rfl hrest) h.bracket
      rw [List.cons_append, readPiece_open around ((hstartsName taken).symm.trans hname), hswap, ← hpiece]
  · rw [Bool.not_eq_true] at hmarkup
    rw [readPiece_content around hmarkup] at hread
    rw [readPiece_content around ((h.markup taken).symm.trans hmarkup)]
    exact readContent_swap h hread

/-! ## Raw content -/

/-- The end of raw content is recognized by its first characters. -/
theorem closesRaw_front {name front : List Char} (hfront : name.length + 3 ≤ front.length) (rest rest' : List Char) :
    closesRaw name (front ++ rest) = closesRaw name (front ++ rest') := by
  rcases front with _ | ⟨a, _ | ⟨b, front⟩⟩
  · simp at hfront
  · simp at hfront
  · have hlength : name.length < front.length := by
      simp only [List.length_cons] at hfront
      omega
    obtain ⟨c, tail, htail⟩ : ∃ c tail, front.drop name.length = c :: tail :=
      List.exists_cons_of_ne_nil (by simp [hlength])
    have htake : ∀ chars : List Char, (front ++ chars).take name.length = front.take name.length :=
      fun chars => List.take_append_of_le_length (by omega)
    have hdrop : ∀ chars : List Char, (front ++ chars).drop name.length = c :: (tail ++ chars) := by
      intro chars
      rw [List.drop_append_of_le_length (by omega), htail, List.cons_append]
    by_cases hopen : a = '<' ∧ b = '/'
    · obtain ⟨rfl, rfl⟩ := hopen
      simp [closesRaw, htake, hdrop]
    · have hnot : ∀ chars, closesRaw name (a :: b :: chars) = false := by
        intro chars
        unfold closesRaw
        split
        · rename_i heq
          obtain ⟨ha, htail⟩ := List.cons.inj heq
          exact absurd ⟨ha, (List.cons.inj htail).1⟩ hopen
        · rfl
      rw [List.cons_append, List.cons_append, hnot, List.cons_append, List.cons_append, hnot]

/-- Raw content is the same before every text in which the same raw content ends. -/
theorem readRaw_swap {name taken : List Char} {offset stop : Nat} {piece : Piece} (hne : rest ≠ []) (hne' : rest' ≠ [])
    (hsame : ∀ front, closesRaw name (front ++ rest) = closesRaw name (front ++ rest'))
    (hread : readRaw name ⟨offset, taken ++ rest⟩ = (piece, ⟨stop, rest⟩)) :
    readRaw name ⟨offset, taken ++ rest'⟩ = (piece, ⟨stop, rest'⟩) := by
  have hrun : ∀ taken : List Char, rawRun name (taken ++ rest) = (taken, rest) →
      rawRun name (taken ++ rest') = (taken, rest') := by
    intro taken hrun
    induction taken with
    | nil =>
      obtain ⟨c, tail, rfl⟩ := List.exists_cons_of_ne_nil hne
      obtain ⟨c', tail', rfl⟩ := List.exists_cons_of_ne_nil hne'
      rw [List.nil_append, rawRun] at hrun ⊢
      rw [← show closesRaw name (c :: tail) = closesRaw name (c' :: tail') from hsame []]
      split at hrun
      · rename_i hcloses
        rw [if_pos hcloses]
      · cases (Prod.mk.inj hrun).1
    | cons c taken ih =>
      rw [List.cons_append, rawRun] at hrun ⊢
      rw [← show closesRaw name (c :: (taken ++ rest)) = closesRaw name (c :: (taken ++ rest')) from hsame (c :: taken)]
      split at hrun
      · cases (Prod.mk.inj hrun).1
      · rename_i hgoes
        obtain ⟨htaken, hrest⟩ := Prod.mk.inj hrun
        rw [if_neg hgoes, ih (Prod.ext (List.cons.inj htaken).2 hrest)]
  have happ := rawRun_append name (taken ++ rest)
  simp only [readRaw, Stream.after, Prod.mk.injEq, Stream.mk.injEq] at hread
  obtain ⟨rfl, rfl, hrest⟩ := hread
  rw [hrest] at happ
  have htaken := List.append_cancel_right happ
  rw [readRaw, hrun taken (Prod.ext htaken hrest), htaken]
  rfl

end Pieces

theorem closesRaw_of_startsName (name : List Char) {chars : List Char} (h : startsName chars = true) :
    closesRaw name ('<' :: chars) = false := by
  unfold closesRaw
  split
  · rename_i heq
    obtain rfl := (List.cons.inj heq).2
    cases h
  · rfl

theorem isMarkup_of_startsName {chars : List Char} (h : startsName chars = true) : isMarkup ('<' :: chars) = true := by
  rw [isMarkup_eq]
  simp [h]

end ComponentLint.Markup
