import ComponentLint.Proofs.Markup.Exchange
import ComponentLint.Proofs.Markup.Lockstep
import ComponentLint.Proofs.Markup.RoundTrip

/-!
# Reading an edited file

A file and an edited version of it are read in step up to the edit and again behind it. Before the edit the same pieces are read
although what follows them differs (`Walks.exchange`); behind it the same text is read at another place (`Walks.resume`). What
happens in between is up to the edit.
-/

namespace ComponentLint.Markup

open Text

/-- What a node is, apart from its end tag. -/
def NodeKind.untagged : NodeKind → NodeKind
  | .element found => .element { found with endTag := none }
  | kind => kind

namespace Builder

variable {language : Script.Language} {fileStop fileStop' : Nat}

/-! ## Walks -/

theorem walks_run (language : Script.Language) (fileStop fuel : Nat) (builder : Builder) (stream : Stream) :
    Walks language fileStop (run language fileStop fuel builder stream).1
      (run language fileStop fuel builder stream).2 builder stream := by
  induction fuel generalizing builder stream with
  | zero => exact .done
  | succ fuel ih =>
    unfold run
    split
    · exact .done
    · rename_i hne
      exact .step (by simpa using hne) (ih _ _)

theorem advance_before (language : Script.Language) (fileStop : Nat) (builder : Builder) {stream : Stream}
    (hne : stream.chars ≠ []) :
    stream.Before (advance language fileStop builder stream).2 := by
  exact @advance_kept language fileStop _ (kept_reads stream fileStop) builder stream ⟨[], .refl _⟩ hne

theorem Walks.before {last builder : Builder} {rest stream : Stream} (h : Walks language fileStop last rest builder stream) :
    stream.Before rest := by
  induction h with
  | done => exact .refl _
  | step hne _ ih => exact (advance_before language fileStop _ hne).trans ih

/-- Problems stay. -/
theorem of_add_problems {builder : Builder} {piece : Piece} (h : (builder.add fileStop piece).problems = #[]) :
    builder.problems = #[] ∧ piece.problems fileStop = [] := by
  have hrecord : (builder.record fileStop piece).problems = #[] := by
    cases piece with
    | comment | text | interpolation => exact h
    | startTag tag =>
      rw [add, apply, startElement] at h
      split at h <;> exact h
    | raw span =>
      rw [add, apply] at h
      split at h <;> exact h
    | endTag name span close =>
      rw [add, apply, endElement] at h
      dsimp only at h
      split at h
      · rw [foldl_closeAt] at h
        exact h
      · simp at h
  obtain ⟨hbefore, hpiece⟩ := Array.append_eq_empty_iff.1 hrecord
  exact ⟨hbefore, by simpa using hpiece⟩

theorem of_advance_problems {builder : Builder} {stream : Stream}
    (h : (advance language fileStop builder stream).1.problems = #[]) :
    builder.problems = #[] ∧ (readPiece (builder.surroundings language) stream).1.problems fileStop = [] := by
  unfold advance at h
  dsimp only at h
  split at h
  · exact of_add_problems (of_add_problems h).1
  · exact of_add_problems h

theorem Walks.of_problems {last builder : Builder} {rest stream : Stream} (h : Walks language fileStop last rest builder stream)
    (hlast : last.problems = #[]) : builder.problems = #[] := by
  induction h with
  | done => exact hlast
  | step _ _ ih => exact (of_advance_problems ih).1

/-- What one step reads: a piece, and raw content behind it if the piece opens a block with such content. -/
inductive StepReads (language : Script.Language) (builder : Builder) (offset : Nat) (chars : List Char) : Prop where
  | plain {piece : Piece} {taken tail : List Char} {length : Nat} (hchars : chars = taken ++ tail) (hne : taken ≠ [])
      (hread : readPiece (builder.surroundings language) ⟨0, taken ++ tail⟩ = (piece, ⟨length, tail⟩))
      (hraw : builder.rawName? (piece.shift offset) = none)
  | raw {piece raw : Piece} {taken content tail name : List Char} {length count : Nat}
      (hchars : chars = taken ++ (content ++ tail)) (hne : taken ≠ [])
      (hread : readPiece (builder.surroundings language) ⟨0, taken ++ (content ++ tail)⟩ = (piece, ⟨length, content ++ tail⟩))
      (hname : builder.rawName? (piece.shift offset) = some name)
      (hcontent : readRaw name ⟨0, content ++ tail⟩ = (raw, ⟨count, tail⟩))

theorem stepReads (language : Script.Language) (builder : Builder) (offset : Nat) {chars : List Char} (hne : chars ≠ []) :
    StepReads language builder offset chars := by
  have hnonempty : (⟨0, chars⟩ : Stream).chars ≠ [] := hne
  obtain ⟨hlt, taken, hfrom⟩ := readPiece_readFrom (builder.surroundings language) hnonempty
  obtain ⟨piece, ⟨length, tail⟩, hread⟩ : ∃ piece after, readPiece (builder.surroundings language) ⟨0, chars⟩ = (piece, after) :=
    ⟨_, _, rfl⟩
  rw [hread] at hlt hfrom
  obtain rfl : chars = taken ++ tail := hfrom.reads.chars
  have htaken : taken ≠ [] := by
    rintro rfl
    have hoffset := hfrom.reads.offset
    rw [byteLength_nil] at hoffset
    omega
  cases hraw : builder.rawName? (piece.shift offset) with
  | none => exact .plain rfl htaken hread hraw
  | some name =>
    obtain ⟨content, hcontent⟩ := readRaw_readFrom language name ⟨0, tail⟩
    obtain ⟨raw, ⟨count, after⟩, hrun⟩ : ∃ raw after, readRaw name ⟨0, tail⟩ = (raw, after) := ⟨_, _, rfl⟩
    rw [hrun] at hcontent
    obtain rfl : tail = content ++ after := hcontent.reads.chars
    exact .raw rfl htaken hread hraw hrun

end Builder

/-! ## Both files at once -/

/-- A piece that is read at a place is the one that is read at the start of its text, moved there. -/
theorem readPiece_at {around : Surroundings} {chars rest : List Char} {piece : Piece} {length : Nat}
    (h : readPiece around ⟨0, chars⟩ = (piece, ⟨length, rest⟩)) (offset : Nat) :
    readPiece around ⟨offset, chars⟩ = (piece.shift offset, ⟨offset + length, rest⟩) := by
  have hshift := readPiece_shift offset around ⟨0, chars⟩
  rw [h] at hshift
  simpa [Stream.shift, Nat.add_comm] using hshift

theorem readRaw_at {name chars rest : List Char} {piece : Piece} {length : Nat}
    (h : readRaw name ⟨0, chars⟩ = (piece, ⟨length, rest⟩)) (offset : Nat) :
    readRaw name ⟨offset, chars⟩ = (piece.shift offset, ⟨offset + length, rest⟩) := by
  have hshift := readRaw_shift offset name ⟨0, chars⟩
  rw [h] at hshift
  simpa [Stream.shift, Nat.add_comm] using hshift

namespace Lockstep

open Builder

variable {rev : Revision} {rename : Nat → Nat} {changed : Nat → Prop} {old new : Builder} {language : Script.Language}
  {fileStop fileStop' offset offset' length : Nat} {piece : Piece} {taken rest rest' : List Char}

theorem taken_of_readPiece {around : Surroundings} (hne : taken ≠ [])
    (hread : readPiece around ⟨0, taken ++ rest⟩ = (piece, ⟨length, rest⟩)) :
    piece.ReadFrom around.language ⟨0, taken ++ rest⟩ taken ⟨length, rest⟩ := by
  have hnonempty : (⟨0, taken ++ rest⟩ : Stream).chars ≠ [] := by simp [hne]
  obtain ⟨-, taken', hfrom⟩ := readPiece_readFrom around hnonempty
  rw [hread] at hfrom
  obtain rfl : taken' = taken := (List.append_cancel_right hfrom.reads.chars).symm
  exact hfrom

/-- A step that reads the same piece in both files, with other text behind it. -/
theorem advance_plain (h : Lockstep rev rename changed old new) (hold : Shaped old.nodes old.stack)
    (hnew : Shaped new.nodes new.stack) (hne : taken ≠ [])
    (hread : readPiece (old.surroundings language) ⟨0, taken ++ rest⟩ = (piece, ⟨length, rest⟩))
    (hread' : readPiece (old.surroundings language) ⟨0, taken ++ rest'⟩ = (piece, ⟨length, rest'⟩))
    (hraw : old.rawName? (piece.shift offset) = none)
    (hsource : Stream.Before ⟨0, rev.source⟩ ⟨offset, taken ++ rest⟩)
    (hedited : Stream.Before ⟨0, rev.edited⟩ ⟨offset', taken ++ rest'⟩)
    (hstart : rev.place offset offset') (hstop : rev.place (offset + length) (offset' + length)) :
    advance language fileStop old ⟨offset, taken ++ rest⟩ = (old.add fileStop (piece.shift offset), ⟨offset + length, rest⟩) ∧
      advance language fileStop' new ⟨offset', taken ++ rest'⟩ =
        (new.add fileStop' (piece.shift offset'), ⟨offset' + length, rest'⟩) ∧
      Lockstep rev rename changed (old.add fileStop (piece.shift offset)) (new.add fileStop' (piece.shift offset')) := by
  refine ⟨?_, ?_, ?_⟩
  · exact Builder.advance_plain (readPiece_at hread offset) hraw
  · rw [h.surroundings] at hread'
    exact Builder.advance_plain (readPiece_at hread' offset') ((h.rawName? piece offset offset').trans hraw)
  · rw [Nat.add_comm, Nat.add_comm offset'] at hstop
    exact h.addRead hold hnew fileStop fileStop' (taken_of_readPiece hne hread) hsource hedited hstart hstop

/-- A step that reads the same piece and the same raw content in both files, with other text behind it. -/
theorem advance_raw (h : Lockstep rev rename changed old new) (hold : Shaped old.nodes old.stack)
    (hnew : Shaped new.nodes new.stack) (hne : taken ≠ []) {content name : List Char} {raw : Piece}
    {count : Nat}
    (hread : readPiece (old.surroundings language) ⟨0, taken ++ (content ++ rest)⟩ = (piece, ⟨length, content ++ rest⟩))
    (hread' : readPiece (old.surroundings language) ⟨0, taken ++ (content ++ rest')⟩ = (piece, ⟨length, content ++ rest'⟩))
    (hname : old.rawName? (piece.shift offset) = some name)
    (hcontent : readRaw name ⟨0, content ++ rest⟩ = (raw, ⟨count, rest⟩))
    (hcontent' : readRaw name ⟨0, content ++ rest'⟩ = (raw, ⟨count, rest'⟩))
    (hsource : Stream.Before ⟨0, rev.source⟩ ⟨offset, taken ++ (content ++ rest)⟩)
    (hedited : Stream.Before ⟨0, rev.edited⟩ ⟨offset', taken ++ (content ++ rest')⟩)
    (hstart : rev.place offset offset') (hmiddle : rev.place (offset + length) (offset' + length))
    (hstop : rev.place (offset + length + count) (offset' + length + count)) :
    advance language fileStop old ⟨offset, taken ++ (content ++ rest)⟩ =
        ((old.add fileStop (piece.shift offset)).add fileStop (raw.shift (offset + length)), ⟨offset + length + count, rest⟩) ∧
      advance language fileStop' new ⟨offset', taken ++ (content ++ rest')⟩ =
        ((new.add fileStop' (piece.shift offset')).add fileStop' (raw.shift (offset' + length)),
          ⟨offset' + length + count, rest'⟩) ∧
      Lockstep rev rename changed ((old.add fileStop (piece.shift offset)).add fileStop (raw.shift (offset + length)))
        ((new.add fileStop' (piece.shift offset')).add fileStop' (raw.shift (offset' + length))) := by
  have hmiddle' := hmiddle
  rw [Nat.add_comm, Nat.add_comm offset'] at hmiddle'
  have hadded := h.addRead hold hnew fileStop fileStop' (taken_of_readPiece hne hread) hsource hedited hstart hmiddle'
  have htaken : ∀ tail offset, readPiece (old.surroundings language) ⟨0, taken ++ tail⟩ = (piece, ⟨length, tail⟩) →
      Stream.Before ⟨offset, taken ++ tail⟩ ⟨offset + length, tail⟩ := by
    intro tail offset hpiece
    have hlength : length = byteLength taken := by simpa using (taken_of_readPiece hne hpiece).reads.offset
    exact ⟨taken, rfl, by rw [hlength]⟩
  refine ⟨?_, ?_, ?_⟩
  · rw [Builder.advance_raw (readPiece_at hread offset) hname, readRaw_at hcontent]
  · rw [h.surroundings] at hread'
    rw [Builder.advance_raw (readPiece_at hread' offset') ((h.rawName? piece offset offset').trans hname), readRaw_at hcontent']
  · obtain ⟨content', hfrom⟩ := readRaw_readFrom language name ⟨0, content ++ rest⟩
    rw [hcontent] at hfrom
    obtain rfl : content' = content := (List.append_cancel_right hfrom.reads.chars).symm
    rw [Nat.add_comm _ count, Nat.add_comm _ count] at hstop
    exact hadded.addRead (add_shaped hold fileStop _) (add_shaped hnew fileStop' _) fileStop fileStop' hfrom
      (hsource.trans (htaken _ _ hread)) (hedited.trans (htaken _ _ hread')) hmiddle hstop

/-- A step that reads the same text in both files. -/
theorem advance_same (h : Lockstep rev rename changed old new) {chars : List Char}
    (hold : Shaped old.nodes old.stack) (hnew : Shaped new.nodes new.stack)
    (hne : chars ≠ []) (hsource : Stream.Before ⟨0, rev.source⟩ ⟨offset, chars⟩)
    (hedited : Stream.Before ⟨0, rev.edited⟩ ⟨offset', chars⟩)
    (hplace : ∀ count, rev.place (offset + count) (offset' + count)) :
    ∃ length tail, (advance language fileStop old ⟨offset, chars⟩).2 = ⟨offset + length, tail⟩ ∧
      (advance language fileStop' new ⟨offset', chars⟩).2 = ⟨offset' + length, tail⟩ ∧
      Lockstep rev rename changed (advance language fileStop old ⟨offset, chars⟩).1
        (advance language fileStop' new ⟨offset', chars⟩).1 := by
  cases stepReads language old offset hne with
  | plain hchars htaken hread hraw =>
    rename_i piece taken tail length
    subst hchars
    obtain ⟨hstep, hstep', hlock'⟩ := h.advance_plain hold hnew htaken hread hread hraw hsource hedited
      (hplace 0) (hplace length)
    rw [hstep, hstep']
    exact ⟨length, tail, rfl, rfl, hlock'⟩
  | raw hchars htaken hread hname hcontent =>
    rename_i piece raw taken content tail name length count
    subst hchars
    have hstop := hplace (length + count)
    rw [← Nat.add_assoc, ← Nat.add_assoc] at hstop
    obtain ⟨hstep, hstep', hlock'⟩ := h.advance_raw hold hnew htaken hread hread hname hcontent hcontent hsource hedited
      (hplace 0) (hplace length) hstop
    rw [hstep, hstep', Nat.add_assoc, Nat.add_assoc]
    exact ⟨length + count, tail, rfl, rfl, hlock'⟩

/-- A step that reads the same text in both files, with other text behind it in which the same raw content ends. -/
theorem advance_exchange (h : Lockstep rev rename changed old new) {chars front further : List Char}
    (hold : Shaped old.nodes old.stack) (hnew : Shaped new.nodes new.stack) (hne : chars ≠ [])
    (hexchange : Exchangeable rest rest') (hfront : chars = front ++ rest)
    (hfurther : (advance language fileStop old ⟨offset, chars⟩).2.chars = further ++ rest)
    (hraw : ∀ name, IsTagName name → closesRaw name (further ++ rest) = true →
      ∀ front, closesRaw name (front ++ (further ++ rest)) = closesRaw name (front ++ (further ++ rest')))
    (hsource : Stream.Before ⟨0, rev.source⟩ ⟨offset, chars⟩) (hedited : Stream.Before ⟨0, rev.edited⟩ ⟨offset, front ++ rest'⟩)
    (hplace : ∀ here ≤ (advance language fileStop old ⟨offset, chars⟩).2.offset, rev.place here here) :
    (advance language fileStop' new ⟨offset, front ++ rest'⟩).2 =
        ⟨(advance language fileStop old ⟨offset, chars⟩).2.offset, further ++ rest'⟩ ∧
      Lockstep rev rename changed (advance language fileStop old ⟨offset, chars⟩).1
        (advance language fileStop' new ⟨offset, front ++ rest'⟩).1 := by
  cases stepReads language old offset hne with
  | plain hchars htaken hread hname =>
    rename_i piece taken tail length
    subst hchars
    rw [Builder.advance_plain (readPiece_at hread offset) hname] at hfurther hplace ⊢
    obtain rfl : tail = further ++ rest := hfurther
    obtain rfl : taken ++ further = front := List.append_cancel_right ((List.append_assoc _ _ _).trans hfront)
    rw [List.append_assoc] at hedited ⊢
    have hread' := readPiece_swap (hexchange.prepend further) htaken hread
    obtain ⟨-, hstep, hlock⟩ := h.advance_plain hold hnew htaken hread hread' hname hsource hedited
      (hplace offset (Nat.le_add_right _ _)) (hplace _ (Nat.le_refl _))
    rw [hstep]
    exact ⟨rfl, hlock⟩
  | raw hchars htaken hread hname hcontent =>
    rename_i piece raw taken content tail name length count
    subst hchars
    rw [Builder.advance_raw (readPiece_at hread offset) hname, readRaw_at hcontent] at hfurther hplace ⊢
    obtain rfl : tail = further ++ rest := hfurther
    obtain rfl : taken ++ (content ++ further) = front := by
      refine List.append_cancel_right (Eq.trans ?_ hfront)
      simp
    rw [List.append_assoc, List.append_assoc] at hedited ⊢
    have htag : IsTagName name := by
      obtain ⟨tag, htag, rfl, -⟩ := rawName?_eq_some hname
      exact readPiece_tagName (htag ▸ readPiece_at hread offset)
    have hcloses : closesRaw name (further ++ rest) = true := by
      have hends := rawRun_ends name (content ++ (further ++ rest))
      rw [show (rawRun name (content ++ (further ++ rest))).2 = further ++ rest from congrArg (·.2.chars) hcontent] at hends
      exact hends.resolve_right (hexchange.prepend further).ne_nil
    have hread' := readPiece_swap ((hexchange.prepend further).prepend content) htaken hread
    have hcontent' := readRaw_swap (hexchange.prepend further).ne_nil (hexchange.prepend further).other_ne_nil
      (hraw name htag hcloses) hcontent
    obtain ⟨-, hstep, hlock⟩ := h.advance_raw hold hnew htaken hread hread' hname hcontent hcontent' hsource hedited
      (hplace offset (by dsimp only; omega)) (hplace _ (Nat.le_add_right _ _)) (hplace _ (Nat.le_refl _))
    rw [hstep]
    exact ⟨rfl, hlock⟩

end Lockstep

/-! ## Walks of both files -/

namespace Builder

variable {rev : Revision} {rename : Nat → Nat} {changed : Nat → Prop} {old last : Builder} {language : Script.Language}
  {fileStop fileStop' : Nat} {stream rest : Stream}

theorem readPiece_before_advance (language : Script.Language) (fileStop : Nat) (builder : Builder) (stream : Stream) :
    (readPiece (builder.surroundings language) stream).2.Before (advance language fileStop builder stream).2 := by
  unfold advance
  dsimp only
  split
  · rename_i name _
    obtain ⟨content, hcontent⟩ := readRaw_readFrom language name (readPiece (builder.surroundings language) stream).2
    exact ⟨content, hcontent.reads⟩
  · exact .refl _

/-- The end tag of raw content is longer than its name, unless the file ends in it. -/
theorem length_rawEnd {around : Surroundings} {name : List Char} (hname : IsTagName name)
    (hcloses : closesRaw name stream.chars = true) (hmore : (readPiece around stream).2.chars ≠ []) :
    name.length + 3 + (readPiece around stream).2.chars.length ≤ stream.chars.length := by
  obtain ⟨offset, chars⟩ := stream
  obtain ⟨found, after, rfl, heq, hends⟩ := closesRaw_iff.1 hcloses
  obtain ⟨hstarts, hinside⟩ := hname.of_eqIgnoreAsciiCase heq
  obtain ⟨blanks, more, rfl, hblanks, hhead⟩ := exists_blanks after
  have hread := readEndTag_text offset hinside hblanks hhead hends
  rw [readPiece_close around (startsName_append hstarts _), hread] at hmore ⊢
  have hlength : found.length = name.length := length_of_eqIgnoreAsciiCase heq
  split at hmore
  · next hmark =>
    obtain ⟨tail, rfl⟩ := List.head?_eq_some_iff.1 hmark
    simp only [if_pos hmark, List.tail_cons, List.length_cons, List.length_append]
    omega
  · next hopen =>
    -- The file goes on, so blanks stand behind the name.
    have hsome : blanks ≠ [] := by
      rintro rfl
      obtain ⟨c, tail, rfl⟩ := List.exists_cons_of_ne_nil hmore
      rcases hends c rfl with hblank | rfl
      · rw [hhead c rfl] at hblank
        cases hblank
      · exact hopen rfl
    have hpos := List.length_pos_iff.2 hsome
    simp only [if_neg hopen, List.length_cons, List.length_append]
    omega

/-- Raw content that ends before an edit ends in the same place, if that does not depend on the edit where the end tag is what is
edited. -/
theorem Walks.closesRaw_eq (h : Walks language fileStop last rest old stream) {tail' : List Char}
    (hopen : ∀ name, IsTagName name → closesRaw name rest.chars = true →
      ∀ front, closesRaw name (front ++ rest.chars) = closesRaw name (front ++ tail'))
    (hmore : rest.chars ≠ []) {name further : List Char} (hname : IsTagName name)
    (hcloses : closesRaw name stream.chars = true) (hfurther : stream.Reads further rest) (front : List Char) :
    closesRaw name (front ++ (further ++ rest.chars)) = closesRaw name (front ++ (further ++ tail')) := by
  cases h with
  | done =>
    obtain rfl : further = [] := List.append_left_eq_self.1 hfurther.chars.symm
    exact hopen name hname hcloses front
  | step hne hwalk =>
    obtain ⟨between, hbetween⟩ := (readPiece_before_advance language fileStop old stream).trans hwalk.before
    have hlong := Builder.length_rawEnd hname hcloses (by rw [hbetween.chars]; simp [hmore])
    have hless := hbetween.length
    have hlength := hfurther.length
    rw [← List.append_assoc, ← List.append_assoc]
    refine closesRaw_front ?_ rest.chars tail'
    rw [List.length_append]
    omega

/-- Before an edit the same pieces are read, whatever takes the place of what follows them. -/
theorem Walks.exchange (h : Walks language fileStop last rest old stream) {tail' : List Char}
    (hexchange : Exchangeable rest.chars tail')
    (hopen : ∀ name, IsTagName name → closesRaw name rest.chars = true →
      ∀ front, closesRaw name (front ++ rest.chars) = closesRaw name (front ++ tail'))
    {new : Builder} {front : List Char} (hlock : Lockstep rev rename changed old new)
    (hold : Shaped old.nodes old.stack) (hnew : Shaped new.nodes new.stack) (hfront : stream.Reads front rest)
    (hsource : Stream.Before ⟨0, rev.source⟩ stream)
    (hedited : Stream.Before ⟨0, rev.edited⟩ ⟨stream.offset, front ++ tail'⟩)
    (hplace : ∀ offset ≤ rest.offset, rev.place offset offset) :
    ∃ last', Walks language fileStop' last' ⟨rest.offset, tail'⟩ new ⟨stream.offset, front ++ tail'⟩ ∧
      Lockstep rev rename changed last last' := by
  induction h generalizing new front with
  | done =>
    obtain rfl : front = [] := List.append_left_eq_self.1 hfront.chars.symm
    exact ⟨new, .done, hlock⟩
  | step hne hwalk ih =>
    rename_i old stream
    have hsource' := hsource.trans (advance_before language fileStop old hne)
    have hold' := advance_shaped hold language fileStop stream
    obtain ⟨further, hfurther⟩ := hwalk.before
    have hne' : (⟨stream.offset, front ++ tail'⟩ : Stream).chars ≠ [] := (hexchange.prepend front).other_ne_nil
    have hedited' := hedited.trans (advance_before language fileStop' new hne')
    have hnew' := advance_shaped hnew language fileStop' ⟨stream.offset, front ++ tail'⟩
    obtain ⟨hstep, hlock'⟩ := hlock.advance_exchange hold hnew hne hexchange hfront.chars hfurther.chars
      (fun name hname hcloses =>
        hwalk.closesRaw_eq hopen hexchange.ne_nil hname (hfurther.chars ▸ hcloses) hfurther) hsource hedited
      (fun here hle => hplace here (Nat.le_trans hle hfurther.offset_le))
    rw [hstep] at hedited'
    obtain ⟨last', hwalk', hlast⟩ := ih hlock' hold' hnew' hfurther hsource' hedited'
    refine ⟨last', .step hne' ?_, hlast⟩
    rw [hstep]
    exact hwalk'

/-- Behind an edit the same text follows at another place, and is read to the same end. -/
theorem Walks.resume (h : Walks language fileStop last rest old stream) {new : Builder} {offset' : Nat}
    (hlock : Lockstep rev rename changed old new) (hold : Shaped old.nodes old.stack) (hnew : Shaped new.nodes new.stack)
    (hsource : Stream.Before ⟨0, rev.source⟩ stream)
    (hedited : Stream.Before ⟨0, rev.edited⟩ ⟨offset', stream.chars⟩)
    (hplace : ∀ count, rev.place (stream.offset + count) (offset' + count)) :
    ∃ last' count, rest.offset = stream.offset + count ∧
      Walks language fileStop' last' ⟨offset' + count, rest.chars⟩ new ⟨offset', stream.chars⟩ ∧
      Lockstep rev rename changed last last' := by
  induction h generalizing new offset' with
  | done => exact ⟨new, 0, rfl, .done, hlock⟩
  | step hne hwalk ih =>
    rename_i old stream
    have hne' : (⟨offset', stream.chars⟩ : Stream).chars ≠ [] := hne
    have hsource' := hsource.trans (advance_before language fileStop old hne)
    have hedited' := hedited.trans (advance_before language fileStop' new hne')
    have hold' := advance_shaped hold language fileStop stream
    have hnew' := advance_shaped hnew language fileStop' ⟨offset', stream.chars⟩
    obtain ⟨length, tail, hstep, hstep', hlock'⟩ := hlock.advance_same hold hnew hne hsource hedited hplace
    rw [hstep] at ih hsource'
    rw [hstep'] at hedited'
    obtain ⟨last', count, hrest, hwalk', hlast⟩ := ih hlock' hold' hnew' hsource' hedited' fun count => by
      rw [Nat.add_assoc, Nat.add_assoc]
      exact hplace (length + count)
    refine ⟨last', length + count, by rw [hrest, Nat.add_assoc], .step hne' ?_, hlast⟩
    rw [hstep', ← Nat.add_assoc]
    exact hwalk'

/-! ## Whole files -/

theorem Walks.kept (h : Walks language fileStop last rest old stream)
    {P : Builder → Stream → Prop} (hP : Kept language fileStop P)
    (hstart : P old stream) : P last rest := by
  induction h with
  | done => exact hstart
  | step hne _ ih => exact ih (advance_kept language hP hstart hne)

/-- Every file is read to its end. -/
theorem exists_walks (language : Script.Language) (source : List Char) : ∃ last,
    Walks language (byteLength source) last ⟨byteLength source, []⟩ (start (byteLength source)) ⟨0, source⟩ := by
  have hwalk := walks_run language (byteLength source) source.length (start (byteLength source)) ⟨0, source⟩
  have hend : (run language (byteLength source) source.length (start (byteLength source)) ⟨0, source⟩).2 = _ :=
    reading_end language source
  rw [hend] at hwalk
  exact ⟨_, hwalk⟩

theorem Walks.parse_eq {source : List Char}
    (h : Walks language (byteLength source) last ⟨byteLength source, []⟩ (start (byteLength source)) ⟨0, source⟩) :
    parse language source = (⟨source, (last.finish (byteLength source)).nodes, last.tokens⟩, last.problems.toList) := by
  rw [Markup.parse_eq, reading, h.run_eq rfl (Nat.le_refl source.length)]

/-- What holds where a walk ends, and not where it starts, comes to hold in some step. -/
theorem Walks.turn {P : Builder → Prop} (h : Walks language fileStop last rest old stream) (hold : ¬P old) (hlast : P last) :
    ∃ builder here, Walks language fileStop builder here old stream ∧ here.chars ≠ [] ∧ ¬P builder ∧
      P (advance language fileStop builder here).1 ∧
      Walks language fileStop last rest (advance language fileStop builder here).1
        (advance language fileStop builder here).2 := by
  induction h with
  | done => exact absurd hlast hold
  | step hne hwalk ih =>
    rename_i old stream
    by_cases hnow : P (advance language fileStop old stream).1
    · exact ⟨old, stream, .done, hne, hold, hnow, hwalk⟩
    · obtain ⟨builder, here, hfirst, hrest⟩ := ih hnow
      exact ⟨builder, here, .step hne hfirst, hrest⟩

/-- A node is added in some step. -/
theorem Walks.origin (h : Walks language fileStop last rest old stream) {id : Nat} (hge : old.nodes.size ≤ id)
    (hlt : id < last.nodes.size) :
    ∃ builder here, Walks language fileStop builder here old stream ∧ here.chars ≠ [] ∧ builder.nodes.size ≤ id ∧
      id < (advance language fileStop builder here).1.nodes.size ∧
      Walks language fileStop last rest (advance language fileStop builder here).1
        (advance language fileStop builder here).2 := by
  obtain ⟨builder, here, hwalk, hne, hbefore, hafter⟩ :=
    h.turn (P := fun builder => id < builder.nodes.size) (Nat.not_lt_of_le hge) hlt
  exact ⟨builder, here, hwalk, hne, Nat.le_of_not_lt hbefore, hafter⟩

/-- What a piece keeps of a node: its parent, and what it is apart from its end tag. -/
theorem kept_node (language : Script.Language) (fileStop id : Nat) (parent : Option Nat) (kind : NodeKind) :
    Kept language fileStop fun builder stream => Standing fileStop builder.nodes builder.stack stream.offset ∧
      ∃ node, builder.nodes[id]? = some node ∧ node.parent = parent ∧ node.kind.untagged = kind := by
  rintro builder stream piece taken rest ⟨hstanding, node, hnode, hparent, hkind⟩ hread hlt
  refine ⟨kept_standing fileStop builder stream piece taken rest hstanding hread hlt, ?_⟩
  obtain ⟨node', hnode', hbecomes⟩ := (add_steps hstanding hread hlt).old id node hnode
  have hsame := parentOf_add builder fileStop piece (Array.getElem?_eq_some_iff.1 hnode).1
  rw [parentOf, parentOf, hnode, hnode'] at hsame
  refine ⟨node', hnode', ?_, ?_⟩
  · exact hparent ▸ hsame
  · cases hbecomes with
    | same hsameKind _ => rw [hsameKind, hkind]
    | tagged _ hold _ _ hnew =>
      rw [hold] at hkind
      rw [hnew, ← hkind]
      rfl

theorem add_raw_cases {opened : Builder} (h : Shaped opened.nodes opened.stack) {span : Span} {id : Nat} {node : Node}
    (hnode : (opened.add fileStop (.raw span)).nodes[id]? = some node) :
    (∃ before, opened.nodes[id]? = some before ∧ node.Like before) ∨ node.kind = .text := by
  rw [add, apply] at hnode
  split at hnode
  · rcases grow_like h.current_lt hnode with ⟨-, rfl⟩ | ⟨-, before, hbefore, hlike⟩
    · exact Or.inr rfl
    · exact Or.inl ⟨before, hbefore, hlike⟩
  · exact Or.inl ⟨node, hnode, .refl _⟩

/-- Whether the kind of a node is of a sort. -/
def Holds (id : Nat) (P : NodeKind → Prop) (builder : Builder) : Prop :=
  ∃ node, builder.nodes[id]? = some node ∧ P node.kind

/-- The step after which the kind of a node is of a sort reads a piece that brings that about, as raw content is text. -/
theorem Walks.kind_origin {source : List Char} {P : NodeKind → Prop} (hroot : ¬P .root) (htext : ¬P .text) {id : Nat}
    (h : Walks language fileStop last rest (start fileStop) ⟨0, source⟩) (hlast : last.Holds id P) :
    ∃ builder here piece taken after, Walks language fileStop builder here (start fileStop) ⟨0, source⟩ ∧
      readPiece (builder.surroundings language) here = (piece, after) ∧ piece.ReadFrom language here taken after ∧
      here.offset < after.offset ∧ ¬builder.Holds id P ∧ (builder.add fileStop piece).Holds id P ∧
      Walks language fileStop last rest (advance language fileStop builder here).1
        (advance language fileStop builder here).2 := by
  have hstart : ¬(start fileStop).Holds id P := by
    rintro ⟨root, hnode, hkind⟩
    obtain ⟨-, rfl⟩ := start_nodes hnode
    exact hroot hkind
  obtain ⟨builder, here, hwalk, hne, hbefore, hafter, hrest⟩ := h.turn hstart hlast
  obtain ⟨hlt, taken, hfrom⟩ := readPiece_readFrom (builder.surroundings language) hne
  obtain ⟨piece, after, hread⟩ : ∃ piece after, readPiece (builder.surroundings language) here = (piece, after) := ⟨_, _, rfl⟩
  rw [hread] at hlt hfrom
  refine ⟨builder, here, piece, taken, after, hwalk, hread, hfrom, hlt, hbefore, ?_, hrest⟩
  cases hraw : builder.rawName? piece with
  | none =>
    rw [advance_plain hread hraw] at hafter
    exact hafter
  | some name =>
    rw [advance_raw hread hraw] at hafter
    obtain ⟨node, hnode, hkind⟩ := hafter
    have hadded := kept_standing fileStop builder here piece taken after (hwalk.standing (start_standing fileStop)) hfrom hlt
    rcases add_raw_cases hadded.shaped hnode with ⟨before, hnow, hlike⟩ | hnew
    · exact ⟨before, hnow, hlike.kind ▸ hkind⟩
    · exact absurd (hnew ▸ hkind) htext

/-- An element that a step adds is that of the start tag it reads. -/
theorem advance_newElement {builder : Builder} (h : Standing fileStop builder.nodes builder.stack stream.offset)
    (hne : stream.chars ≠ []) {id : Nat} {node : Node} {element : Element} (hge : builder.nodes.size ≤ id)
    (hnode : (advance language fileStop builder stream).1.nodes[id]? = some node) (hkind : node.kind = .element element) :
    ∃ tag after, readPiece (builder.surroundings language) stream = (.startTag tag, after) ∧ element = builder.elementOf tag ∧
      id = builder.nodes.size ∧ node.parent = some builder.current := by
  obtain ⟨hlt, taken, hfrom⟩ := readPiece_readFrom (builder.surroundings language) hne
  obtain ⟨piece, after, hread⟩ : ∃ piece after, readPiece (builder.surroundings language) stream = (piece, after) := ⟨_, _, rfl⟩
  rw [hread] at hlt hfrom
  have hadded := kept_standing fileStop builder stream piece taken after h hfrom hlt
  have hopened : ∀ before : Node, (builder.add fileStop piece).nodes[id]? = some before → before.kind = .element element →
      before.parent = node.parent → ∃ tag after, readPiece (builder.surroundings language) stream = (.startTag tag, after) ∧
        element = builder.elementOf tag ∧ id = builder.nodes.size ∧ node.parent = some builder.current := by
    intro before hbefore hbeforeKind hparent
    obtain ⟨tag, rfl, helement, hid, habove, -⟩ := add_newElement h.shaped hbefore hge hbeforeKind
    exact ⟨tag, after, hread, helement, hid, hparent.symm.trans habove⟩
  cases hraw : builder.rawName? piece with
  | none =>
    rw [advance_plain hread hraw] at hnode
    exact hopened node hnode hkind rfl
  | some name =>
    rw [advance_raw hread hraw] at hnode
    rcases add_raw_cases hadded.shaped hnode with ⟨before, hbefore, hlike⟩ | htext
    · exact hopened before hbefore (hlike.kind.symm.trans hkind) hlike.parent.symm
    · rw [htext] at hkind
      cases hkind

/-- The step that adds an element reads its start tag. -/
theorem Walks.element_origin {source : List Char} {element : Element} {id : Nat} {node : Node}
    (h : Walks language fileStop last rest (start fileStop) ⟨0, source⟩) (hnode : last.nodes[id]? = some node)
    (hkind : node.kind = .element element) :
    ∃ builder here tag after, Walks language fileStop builder here (start fileStop) ⟨0, source⟩ ∧
      readPiece (builder.surroundings language) here = (.startTag tag, after) ∧ builder.nodes.size = id ∧
      element = { builder.elementOf tag with endTag := element.endTag } ∧ node.parent = some builder.current ∧
      Walks language fileStop last rest (advance language fileStop builder here).1
        (advance language fileStop builder here).2 := by
  have hlast := h.standing (start_standing fileStop)
  have hpos : (start fileStop).nodes.size ≤ id := by
    rcases Nat.eq_zero_or_pos id with rfl | hpos
    · obtain ⟨root, hroot, hrootKind, -⟩ := hlast.shaped.root
      cases hnode.symm.trans hroot
      rw [hrootKind] at hkind
      cases hkind
    · exact hpos
  obtain ⟨builder, here, hwalk, hne, hge, hnow, hrest⟩ := h.origin hpos (Array.getElem?_eq_some_iff.1 hnode).1
  have hstanding := hwalk.standing (start_standing fileStop)
  have hadded := advance_kept language (kept_standing fileStop) hstanding hne
  obtain ⟨first, hfirst⟩ : ∃ first, (advance language fileStop builder here).1.nodes[id]? = some first :=
    ⟨_, Array.getElem?_eq_getElem hnow⟩
  obtain ⟨-, node', hnode', hparent, huntagged⟩ :=
    hrest.kept (kept_node language fileStop id first.parent first.kind.untagged) ⟨hadded, first, hfirst, rfl, rfl⟩
  cases hnode.symm.trans hnode'
  rw [hkind] at huntagged
  obtain ⟨opened, hopened, hsame⟩ : ∃ opened : Element, first.kind = .element opened ∧
      { opened with endTag := none } = { element with endTag := none } := by
    cases hfirstKind : first.kind with
    | element opened =>
      rw [hfirstKind] at huntagged
      exact ⟨opened, rfl, (NodeKind.element.inj huntagged).symm⟩
    | root | text | interpolation | comment =>
      rw [hfirstKind] at huntagged
      cases huntagged
  obtain ⟨tag, after, hread, rfl, rfl, habove⟩ := advance_newElement hstanding hne hge hfirst hopened
  refine ⟨builder, here, tag, after, hwalk, hread, rfl, ?_, hparent.trans habove, hrest⟩
  exact congrArg (fun opened : Element => { opened with endTag := element.endTag }) hsame.symm

theorem kept_apart (fileStop id : Nat) (node : Node) :
    Kept language fileStop fun builder stream => Standing fileStop builder.nodes builder.stack stream.offset ∧
      builder.nodes[id]? = some node ∧ id ∉ builder.stack := by
  rintro builder stream piece taken rest ⟨hstanding, hnode, hid⟩ hread hlt
  obtain ⟨hsize, -⟩ := Array.getElem?_eq_some_iff.1 hnode
  refine ⟨kept_standing fileStop builder stream piece taken rest hstanding hread hlt, ?_, fun hmem => ?_⟩
  · rw [add_apart hstanding.shaped fileStop piece hsize hid]
    exact hnode
  · rcases mem_stack_add hmem with hold | hnew
    · exact hid hold
    · omega

/-- A node that is closed stays as it is to the end of the file. -/
theorem Walks.apart (h : Walks language fileStop last rest old stream)
    (hstanding : Standing fileStop old.nodes old.stack stream.offset)
    {id : Nat} {node : Node} (hnode : old.nodes[id]? = some node)
    (hid : id ∉ old.stack) : (last.finish fileStop).nodes[id]? = some node := by
  obtain ⟨-, hlast, hclosed⟩ := h.kept (kept_apart fileStop id node) ⟨hstanding, hnode, hid⟩
  rw [getElem?_finish, hlast, Option.map_some, if_neg fun hmem => hclosed ((List.dropLast_prefix _).subset hmem)]

/-- A walk to the end of the file passes every state on the way. -/
theorem Walks.rest_of {middle : Builder} {between : Stream} (h : Walks language fileStop middle between old stream)
    (hlast : Walks language fileStop last rest old stream) (hend : rest.chars = []) :
    Walks language fileStop last rest middle between := by
  induction h with
  | done => exact hlast
  | step hne _ ih =>
    cases hlast with
    | done => exact absurd hend hne
    | step _ hnext => exact ih hnext

/-- There is one state at the end of a file. -/
theorem Walks.unique {last' : Builder} {rest' : Stream} (h : Walks language fileStop last rest old stream)
    (hend : rest.chars = [])
    (h' : Walks language fileStop last' rest' old stream) (hend' : rest'.chars = []) : last' = last := by
  cases h.rest_of h' hend' with
  | done => rfl
  | step hne _ => exact absurd hend hne

end Builder

/-! ## Cutting something out -/

/-- The revision in which everything up to `start` stays in place, and what followed `stop` follows `stop'`. -/
def Revision.cut (source edited : List Char) (start stop stop' : Nat) : Revision where
  source := source
  edited := edited
  place old new := (old = new ∧ old ≤ start) ∨ ∃ count, old = stop + count ∧ new = stop' + count

/-- The files are in step before their first piece. -/
theorem Lockstep.start {rev : Revision} (changed : Nat → Prop) {fileStop fileStop' : Nat} (hstart : rev.place 0 0)
    (hstop : rev.place fileStop fileStop') : Lockstep rev (fun id => id) changed (.start fileStop) (.start fileStop') := by
  refine ⟨rfl, fun _ _ heq => heq, rfl, fun _ => rfl, fun id node hnode => ?_, fun _ => rfl⟩
  obtain ⟨rfl, rfl⟩ := Builder.start_nodes hnode
  exact ⟨_, rfl, rfl, .root, fun _ => ⟨⟨hstart, hstop⟩, .root, fun hleaf => by cases hleaf⟩⟩

end ComponentLint.Markup
