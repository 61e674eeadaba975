import ComponentLint.Proofs.Markup.TagTokens
import ComponentLint.Proofs.Markup.TokenQueries

/-!
# Tokens that are not blank

A file is tiled even without its tokens of white space: what the other tokens leave out is blank, or stands in a start tag
(`parse_solid`). Two solid tokens with none between them are `Neighbours`. The stretches between neighbours are apart from each
other: between any two of them lies at least one solid token (`Neighbours.apart`).
-/

namespace ComponentLint.Markup

open Text

variable {language : Script.Language}

/-- Whether a token is more than white space. -/
def Token.solid (token : Token) : Bool :=
  token.kind != .whitespace

@[simp] theorem Token.solid_iff {token : Token} : token.solid = true ↔ token.kind ≠ .whitespace := by
  simp [Token.solid]

@[simp] theorem Token.solid_eq_false {token : Token} : token.solid = false ↔ token.kind = .whitespace := by
  simp [Token.solid]

theorem Token.filter_spanning (kind : TokenKind) (start stop : Nat) :
    (Token.spanning kind start stop).filter Token.solid = if kind = .whitespace then [] else Token.spanning kind start stop := by
  unfold Token.spanning
  by_cases hlt : start < stop
  · by_cases hkind : kind = .whitespace
    · simp [hlt, hkind]
    · simp [hlt, hkind]
  · simp [hlt]

theorem Token.solid_of_mem_spanning {kind : TokenKind} {start stop : Nat} (hkind : kind ≠ .whitespace) {token : Token}
    (h : token ∈ Token.spanning kind start stop) : token.solid = true := by
  unfold Token.spanning at h
  split at h
  · rw [List.mem_singleton.1 h]
    exact Token.solid_iff.2 hkind
  · cases h

/-! ## Pieces -/

/-- A run of characters that are all blank, or none of them, is a solid token or a blank gap. -/
theorem textTokens_ending_solid (start : Nat) {run : List Char}
    (hrun : ∀ d ∈ run.head?, ∀ c ∈ run, isAsciiSpace c = isAsciiSpace d) :
    Tiling (fun _ c => isAsciiSpace c = true) start run.reverse ((textTokens.ending start run).filter Token.solid) := by
  cases run with
  | nil => exact .done start
  | cons d earlier =>
    unfold textTokens.ending
    rw [Token.filter_spanning]
    by_cases hblank : isAsciiSpace d = true
    · simp only [hblank, if_true]
      refine .gaps start fun _ c hc => ?_
      rw [hrun d rfl c (List.mem_reverse.1 hc), hblank]
    · have htext : (if isAsciiSpace d = true then TokenKind.whitespace else .text) = .text := if_neg hblank
      rw [htext, if_neg nofun, ← byteLength_reverse]
      exact .spanning .text start _

/-- Without its white space a text is tiled with blank gaps. -/
theorem textTokens_solid (start : Nat) {run : List Char} (chars : List Char)
    (hrun : ∀ d ∈ run.head?, ∀ c ∈ run, isAsciiSpace c = isAsciiSpace d) :
    Tiling (fun _ c => isAsciiSpace c = true) start (run.reverse ++ chars) ((textTokens start run chars).filter Token.solid) := by
  induction chars generalizing start run with
  | nil => simpa [textTokens] using textTokens_ending_solid start hrun
  | cons c rest ih =>
    have hsingle : ∀ d ∈ [c].head?, ∀ e ∈ [c], isAsciiSpace e = isAsciiSpace d := by simp
    cases run with
    | nil => exact ih start hsingle
    | cons d earlier =>
      unfold textTokens
      dsimp only
      by_cases hsame : isAsciiSpace c = isAsciiSpace d
      · rw [if_pos (by simp [hsame])]
        have hmore : ∀ e ∈ (c :: d :: earlier).head?, ∀ b ∈ c :: d :: earlier, isAsciiSpace b = isAsciiSpace e := by
          simp only [List.head?_cons, Option.mem_some_iff, forall_eq', List.mem_cons, forall_eq_or_imp, hsame, true_and]
          exact fun b hb => hrun d rfl b (List.mem_cons_of_mem _ hb)
        simpa using ih start hmore
      · rw [if_neg (by simpa using hsame), List.filter_append]
        refine (textTokens_ending_solid start hrun).append ?_
        rw [byteLength_reverse]
        exact ih _ hsingle

theorem ReadAttribute.solid_of_mem {read : ReadAttribute} {token : Token} (h : token ∈ read.tokens) : token.solid = true := by
  simp only [ReadAttribute.tokens, List.mem_append] at h
  rcases h with (hname | hequals) | hvalue
  · exact Token.solid_of_mem_spanning (by decide) hname
  · cases hsign : read.equals with
    | none => simp [hsign] at hequals
    | some sign =>
      simp only [hsign, List.mem_singleton] at hequals
      rw [hequals]
      rfl
  · cases hvalued : read.attr.value with
    | none => simp [hvalued] at hvalue
    | some value =>
      simp only [hvalued] at hvalue
      exact Token.solid_of_mem_spanning (by decide) hvalue

/-- Only text has white space among its tokens. -/
theorem Piece.solid_of_mem {piece : Piece} (h : ∀ start chars, piece ≠ .text start chars) {token : Token}
    (htoken : token ∈ piece.tokens) : token.solid = true := by
  cases piece with
  | text start chars => exact absurd rfl (h start chars)
  | comment | raw => exact Token.solid_of_mem_spanning (by decide) htoken
  | interpolation content inner =>
    simp only [Piece.tokens, List.mem_append, List.mem_singleton] at htoken
    rcases htoken with (rfl | htoken) | rfl
    · rfl
    · exact Token.solid_of_mem_spanning (by decide) htoken
    · rfl
  | endTag name span close =>
    simp only [Piece.tokens, List.mem_append] at htoken
    rcases htoken with htoken | htoken
    · exact Token.solid_of_mem_spanning (by decide) htoken
    · cases close with
      | none => cases htoken
      | some mark =>
        rw [List.mem_singleton.1 htoken]
        rfl
  | startTag tag =>
    simp only [Piece.tokens, List.mem_append, List.mem_flatMap] at htoken
    rcases htoken with (htoken | ⟨read, -, hread⟩) | htoken
    · exact Token.solid_of_mem_spanning (by decide) htoken
    · exact ReadAttribute.solid_of_mem hread
    · cases hending : tag.ending with
      | missing => simp [hending, TagEnd.tokens] at htoken
      | plain | selfClosing =>
        simp only [hending, TagEnd.tokens, List.mem_singleton] at htoken
        rw [htoken]
        rfl

/-- The characters of a piece that its solid tokens may leave out: blanks, and anything of a start tag. -/
def Piece.Loose (piece : Piece) (c : Char) : Prop :=
  isAsciiSpace c = true ∨ ∃ tag, piece = .startTag tag

/-- The solid tokens of a piece tile it. -/
theorem Piece.ReadFrom.solid {piece : Piece} {stream rest : Stream} {taken : List Char}
    (h : piece.ReadFrom language stream taken rest) :
    Tiling (fun _ => piece.Loose) stream.offset taken (piece.tokens.filter Token.solid) := by
  have hall : (∀ start chars, piece ≠ .text start chars) → piece.tokens.filter Token.solid = piece.tokens :=
    fun hother => List.filter_eq_self.2 fun token htoken => Piece.solid_of_mem hother htoken
  have hwhole : piece.isTag = false → Tiling (fun _ => piece.Loose) stream.offset taken piece.tokens := by
    intro htag
    refine h.tiling.mono fun _ _ _ _ hgap => ?_
    rw [Piece.Gap, htag] at hgap
    cases hgap.1
  cases piece with
  | comment | interpolation | raw =>
    rw [hall (by simp)]
    exact hwhole rfl
  | startTag tag =>
    rw [hall (by simp)]
    exact h.tiling.mono fun _ _ _ _ _ => .inr ⟨tag, rfl⟩
  | text start chars =>
    have hstart : start = stream.offset := congrArg Span.start h.span
    have hchars : chars = taken := h.form
    have hblank : Tiling (fun _ c => isAsciiSpace c = true) start chars ((Piece.text start chars).tokens.filter Token.solid) :=
      @textTokens_solid start [] chars (by simp)
    rw [← hstart, ← hchars]
    exact hblank.mono fun _ _ _ _ hgap => Or.inl hgap
  | endTag name span close =>
    rw [hall (by simp)]
    obtain ⟨blanks, mark, hreads, hblanks, hclose⟩ := h.parts
    have hspan : span = ⟨stream.offset, rest.offset⟩ := h.span
    have hmark : mark.offset = stream.offset + byteLength (['<', '/'] ++ name ++ blanks) := hreads.offset
    have hopening : Tiling (fun _ => (Piece.endTag name span close).Loose) stream.offset (['<', '/'] ++ name ++ blanks)
        (Token.spanning .endTagOpen span.start (span.start + 2 + byteLength name)) := by
      have hparts := (Tiling.spanning .endTagOpen stream.offset (['<', '/'] ++ name)).append
        (.gaps _ fun _ c hc => Or.inl (hblanks c hc) : Tiling (fun _ => (Piece.endTag name span close).Loose) _ blanks [])
      rw [List.append_nil, byteLength_append, ← Nat.add_assoc] at hparts
      have hstart : span.start = stream.offset := by rw [hspan]
      rw [hstart]
      exact hparts
    rcases hclose with ⟨rfl, after, hafter, hstop⟩ | ⟨rfl, hstop⟩
    · have htaken : taken = ['<', '/'] ++ name ++ blanks ++ ['>'] :=
        taken_unique h.reads (hreads.trans hafter) (by rw [← hstop, hspan])
      rw [htaken]
      refine hopening.append ?_
      rw [← hmark]
      exact .single .tagClose mark.offset (by simp)
    · have htaken : taken = ['<', '/'] ++ name ++ blanks := taken_unique h.reads hreads (by rw [← hstop, hspan])
      rw [htaken]
      simpa [Piece.tokens] using hopening

/-! ## Files -/

/-- Whether an offset lies in the start tag of an element. -/
def InStartTag (nodes : Array Node) (offset : Nat) : Prop :=
  ∃ (id : Nat) (node : Node) (element : Element), nodes[id]? = some node ∧ node.kind = .element element ∧
    element.startTag.span.Holds offset

/-- What lies in a start tag still does when a piece is added. -/
theorem InStartTag.steps {builder added : Builder} {piece : Piece} (hsteps : builder.Steps piece added) {offset : Nat}
    (h : InStartTag builder.nodes offset) : InStartTag added.nodes offset := by
  obtain ⟨id, old, element, hold, hkind, hin⟩ := h
  obtain ⟨node, hnode, hbecomes⟩ := hsteps.old id old hold
  cases hbecomes with
  | same hsame _ => exact ⟨id, node, element, hnode, hsame.trans hkind, hin⟩
  | tagged _ hold' _ _ hnew =>
    cases hkind.symm.trans hold'
    exact ⟨id, node, _, hnode, hnew, hin⟩

/-- The solid tokens tile what has been read after any number of steps. -/
theorem reading_solid (language : Script.Language) (source : List Char) (steps : Nat) :
    ∃ before, Stream.Reads ⟨0, source⟩ before (Builder.reading language source steps).2 ∧
      Tiling (fun offset c => isAsciiSpace c = true ∨ InStartTag (Builder.reading language source steps).1.nodes offset) 0 before
        ((Builder.reading language source steps).1.tokens.toList.filter Token.solid) := by
  refine Builder.reading_steps language source (P := fun builder stream => ∃ before, Stream.Reads ⟨0, source⟩ before stream ∧
    Tiling (fun offset c => isAsciiSpace c = true ∨ InStartTag builder.nodes offset) 0 before
      (builder.tokens.toList.filter Token.solid)) ⟨[], Stream.Reads.refl _, .done 0⟩ ?_ steps
  rintro builder stream piece taken rest ⟨before, hbefore, htiling⟩ hread hsteps
  refine ⟨before ++ taken, hbefore.trans hread.reads, ?_⟩
  rw [hsteps.tokens, List.filter_append]
  refine (htiling.mono fun _ _ _ _ hgap => hgap.imp_right (·.steps hsteps)).append ?_
  have hoffset : 0 + byteLength before = stream.offset := hbefore.offset.symm
  rw [hoffset]
  refine hread.solid.mono fun offset c hle hlt hloose => hloose.imp_right ?_
  rintro ⟨tag, rfl⟩
  obtain ⟨id, node, element, hnode, hkind, hspan⟩ := hsteps.found
  refine ⟨id, node, element, hnode, hkind, ?_⟩
  have hpiece : (⟨tag.start, tag.stop⟩ : Span) = ⟨stream.offset, rest.offset⟩ := hread.span
  rw [hspan, hpiece]
  exact ⟨hle, hread.reads.offset ▸ hlt⟩

/-- The solid tokens of a file tile it; what they leave out is blank, or stands in a start tag. -/
theorem parse_solid (language : Script.Language) (source : List Char) :
    Tiling (fun offset c => isAsciiSpace c = true ∨ InStartTag (parse language source).1.nodes offset) 0 source
      ((parse language source).1.tokens.toList.filter Token.solid) := by
  have hshaped := (Builder.reading_standing language source source.length).shaped
  obtain ⟨before, hbefore, htiling⟩ := reading_solid language source source.length
  have hall : before = source := by
    have hchars := hbefore.chars
    rw [Builder.reading_end, List.append_nil] at hchars
    exact hchars.symm
  rw [hall] at htiling
  rw [parse_eq]
  refine htiling.mono fun _ _ _ _ hgap => hgap.imp_right ?_
  rintro ⟨id, old, element, hold, hkind, hin⟩
  obtain ⟨node, hnode, hsame, -⟩ := Builder.finish_old (byteLength source) hshaped hold
  exact ⟨id, node, element, hnode, hsame.trans hkind, hin⟩

theorem parse_consecutive (language : Script.Language) (source : List Char) :
    Consecutive (parse language source).1.tokens.toList := by
  have htiling := (parse_tiled language source).1
  exact ⟨fun token htoken => (htiling.inFile token htoken).1, htiling.pairwise⟩

/-! ## Neighbours -/

/-- Two solid tokens with nothing but white space between them. -/
structure Neighbours (tokens : List Token) (near far : Token) : Prop where
  solid : near.solid = true ∧ far.solid = true
  between : ∃ before blanks after, tokens = before ++ near :: (blanks ++ far :: after) ∧
    ∀ token ∈ blanks, token.kind = .whitespace

namespace Neighbours

variable {tokens : List Token} {near far near' far' : Token}

theorem mem (h : Neighbours tokens near far) : near ∈ tokens ∧ far ∈ tokens := by
  obtain ⟨before, blanks, after, rfl, -⟩ := h.between
  simp

theorem stop_le_start (h : Neighbours tokens near far) (htokens : Consecutive tokens) : near.span.stop ≤ far.span.start := by
  obtain ⟨before, blanks, after, rfl, -⟩ := h.between
  obtain ⟨-, hbehind, -⟩ := List.pairwise_append.1 htokens.ordered
  exact (List.pairwise_cons.1 hbehind).1 far (by simp)

/-- Every other solid token ends by the near one, or starts with the far one or behind it. -/
theorem outside (h : Neighbours tokens near far) (htokens : Consecutive tokens) {token : Token} (htoken : token ∈ tokens)
    (hsolid : token.solid = true) : token.span.stop ≤ near.span.stop ∨ far.span.start ≤ token.span.start := by
  obtain ⟨before, blanks, after, rfl, hblanks⟩ := h.between
  obtain ⟨-, hbehind, hacross⟩ := List.pairwise_append.1 htokens.ordered
  have hnear := htokens.nonempty near (by simp)
  rcases List.mem_append.1 htoken with hbefore | hlater
  · have hle := hacross token hbefore near List.mem_cons_self
    exact .inl (by omega)
  · rcases List.mem_cons.1 hlater with rfl | hlater
    · exact .inl (Nat.le_refl _)
    · rcases List.mem_append.1 hlater with hblank | hfar
      · exact absurd (hblanks token hblank) (Token.solid_iff.1 hsolid)
      · rcases List.mem_cons.1 hfar with rfl | hafter
        · exact .inr (Nat.le_refl _)
        · have hle := (List.pairwise_cons.1 (List.pairwise_append.1 (List.pairwise_cons.1 hbehind).2).2.1).1 token hafter
          have hlt := htokens.nonempty far (by simp)
          exact .inr (by omega)

/-- A stretch between neighbours is touched by no other one. -/
theorem apart (h : Neighbours tokens near far) (h' : Neighbours tokens near' far') (htokens : Consecutive tokens)
    (hne : near.span.stop ≠ near'.span.stop) :
    far.span.start < near'.span.stop ∨ far'.span.start < near.span.stop := by
  have hnear := htokens.nonempty near h.mem.1
  have hnear' := htokens.nonempty near' h'.mem.1
  rcases h.outside htokens h'.mem.1 h'.solid.1 with hle | hle
  · rcases h'.outside htokens h.mem.1 h.solid.1 with hle' | hle'
    · exact absurd (Nat.le_antisymm hle' hle) hne
    · exact .inr (by omega)
  · exact .inl (by omega)

/-- From every offset between neighbours these two are found. -/
theorem anchors {document : Document} (h : Neighbours document.tokens.toList near far)
    (htokens : Consecutive document.tokens.toList) {offset : Nat} (hstop : near.span.stop ≤ offset)
    (hstart : offset ≤ far.span.start) :
    document.lastTokenBefore? offset = some near ∧ document.firstTokenAfter? offset = some far := by
  obtain ⟨before, blanks, after, hparts, hblanks⟩ := h.between
  exact (Document.scanned_of_consecutive htokens).anchors before near blanks far after hparts hblanks
    (Token.solid_iff.1 h.solid.1) (Token.solid_iff.1 h.solid.2) offset hstop hstart

/-- Between neighbours that are not in a start tag the file is blank. -/
theorem blank {language : Script.Language} {source : List Char} (h : Neighbours (parse language source).1.tokens.toList near far)
    (houtside : ∀ offset, near.span.stop ≤ offset → offset < far.span.start →
      ¬InStartTag (parse language source).1.nodes offset) :
    ∃ before inside after, source = before ++ (inside ++ after) ∧ near.span.stop = byteLength before ∧
      far.span.start = byteLength before + byteLength inside ∧ ∀ c ∈ inside, isAsciiSpace c = true := by
  have htiling := parse_solid language source
  obtain ⟨early, blanks, late, htokens, hblanks⟩ := h.between
  have hnone : blanks.filter Token.solid = [] := by
    refine List.filter_eq_nil_iff.2 fun token htoken => ?_
    simpa using hblanks token htoken
  rw [htokens, List.filter_append, List.filter_cons_of_pos h.solid.1, List.filter_append, hnone, List.nil_append,
    List.filter_cons_of_pos h.solid.2] at htiling
  obtain ⟨before, inside, after, hsource, hstop, hstart, hgaps⟩ := htiling.between
  rw [Nat.zero_add] at hstop hstart
  refine ⟨before, inside, after, hsource, hstop, by rw [hstart, byteLength_append], fun c hc => ?_⟩
  obtain ⟨offset, hfrom, hto, hblank | htag⟩ := hgaps c hc
  · exact hblank
  · exact absurd htag (houtside offset hfrom hto)

end Neighbours

end ComponentLint.Markup
