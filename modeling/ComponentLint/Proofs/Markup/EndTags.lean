import ComponentLint.Proofs.Markup.EmptyElements
import ComponentLint.Proofs.Markup.Replacing

/-!
# End tags of elements

The end tag of an element is read in one step, which closes the element (`Walks.endTag_origin`). In a file without problems it is
whole, so the file is what is read up to it, its text, and what follows (`exists_closes`).
-/

namespace ComponentLint.Markup

open Text

section Reading

variable {around : Surroundings} {name gap : List Char}

/-- An end tag is read where one starts. -/
theorem of_readPiece_endTag {stream rest : Stream} {span : Span} {close : Option Nat}
    (h : readPiece around stream = (.endTag name span close, rest)) :
    ∃ chars, stream.chars = '<' :: '/' :: chars ∧ startsName chars = true ∧
      readEndTag stream = (.endTag name span close, rest) := by
  have hcontent : ∀ rest, readContent around stream ≠ (.endTag name span close, rest) := by
    intro rest hread
    unfold readContent readInterpolation? at hread
    split at hread
    · cases hcut : cutAt? ['}', '}'] (stream.chars.drop 2) with
      | none => simp [hcut, readText] at hread
      | some cut => simp [hcut] at hread
    · cases hread
  unfold readPiece at h
  split at h
  · unfold readComment at h
    split at h <;> cases h
  · rename_i chars hchars
    split at h
    · rename_i hstarts
      exact ⟨chars, hchars, hstarts, h⟩
    · exact absurd h (hcontent _)
  · split at h
    · cases h
    · exact absurd h (hcontent _)
  · exact absurd h (hcontent _)

/-- An end tag that is closed is whole. -/
theorem readPiece_closed {offset : Nat} {chars : List Char} {rest : Stream} {span : Span} {close : Nat}
    (h : readPiece around ⟨offset, chars⟩ = (.endTag name span (some close), rest)) :
    ∃ gap, chars = '<' :: '/' :: (name ++ (gap ++ '>' :: rest.chars)) ∧ IsTagName name ∧ (∀ c ∈ gap, isAsciiSpace c = true) ∧
      Piece.endTag name span (some close) = .wholeEndTag name gap offset ∧
      rest.offset = offset + 2 + byteLength name + byteLength gap + 1 := by
  obtain ⟨inner, rfl, hstarts, hread⟩ := of_readPiece_endTag h
  obtain ⟨found, gap, after, rfl, hfound, hgap, hafter, hends⟩ := endTagText inner
  rw [readEndTag_text offset hfound hgap hafter hends] at hread
  split at hread
  · rename_i hmark
    obtain ⟨tail, rfl⟩ := List.head?_eq_some_iff.1 hmark
    obtain ⟨hpiece, rfl⟩ := Prod.mk.inj hread
    obtain ⟨rfl, -, -⟩ := Piece.endTag.inj hpiece
    refine ⟨gap, rfl, ⟨?_, hfound⟩, hgap, hpiece.symm, rfl⟩
    cases found with
    | cons c found => exact hstarts
    | nil =>
      -- Blanks and marks start no name.
      obtain ⟨c, rest, hcons⟩ := List.exists_cons_of_ne_nil (show gap ++ '>' :: tail ≠ [] by simp)
      rw [hcons] at hends hstarts
      have hletter := not_end_of_letter (show isAsciiLetter c = true from hstarts)
      rcases hends c rfl with hblank | hclose
      · rw [hletter.1] at hblank
        cases hblank
      · exact absurd hclose hletter.2
  · cases hread

end Reading

namespace Builder

variable {language : Script.Language} {fileStop : Nat} {builder last : Builder} {stream rest : Stream}

/-- Whether a node is an element with an end tag of a span. -/
def EndsWith (span : Span) (kind : NodeKind) : Prop :=
  ∃ element, kind = .element element ∧ element.endTag = some span

/-- A piece that gives an element its end tag is that tag. -/
theorem add_endsWith {id : Nat} {span : Span} {piece : Piece} {taken : List Char}
    (h : Standing fileStop builder.nodes builder.stack stream.offset) (hread : piece.ReadFrom language stream taken rest)
    (hlt : stream.offset < rest.offset) (hbefore : ¬builder.Holds id (EndsWith span))
    (hafter : (builder.add fileStop piece).Holds id (EndsWith span)) : ∃ name close, piece = .endTag name span close := by
  obtain ⟨node, hnode, element, hkind, hend⟩ := hafter
  rcases (add_steps h hread hlt).cases hnode with ⟨old, hold, hbecomes⟩ | ⟨-, hadds⟩
  · cases hbecomes with
    | same hsame _ => exact absurd ⟨old, hold, element, hsame ▸ hkind, hend⟩ hbefore
    | @tagged name other close _ hpiece _ _ _ hnew =>
      cases hnew.symm.trans hkind
      obtain rfl : other = span := Option.some.inj hend
      exact ⟨name, close, hpiece⟩
  · cases piece with
    | startTag tag =>
      obtain ⟨element', hkind', -, -, hopen, -⟩ := hadds
      cases hkind.symm.trans hkind'
      rw [hopen] at hend
      cases hend
    | endTag => exact hadds.elim
    | comment | text | interpolation | raw =>
      rw [hkind] at hadds
      cases hadds

/-- The step that gives an element its end tag reads that tag. -/
theorem Walks.endTag_origin {source : List Char} {element : Element} {id : Nat} {node : Node} {span : Span}
    (h : Walks language fileStop last rest (start fileStop) ⟨0, source⟩) (hnode : last.nodes[id]? = some node)
    (hkind : node.kind = .element element) (hend : element.endTag = some span) :
    ∃ builder here name close after, Walks language fileStop builder here (start fileStop) ⟨0, source⟩ ∧
      readPiece (builder.surroundings language) here = (.endTag name span close, after) ∧
      Walks language fileStop last rest (builder.add fileStop (.endTag name span close)) after := by
  obtain ⟨builder, here, piece, taken, after, hwalk, hread, hfrom, hlt, hbefore, hafter, hrest⟩ :=
    @Walks.kind_origin _ _ _ _ _ (EndsWith span) (by rintro ⟨_, h, -⟩; cases h) (by rintro ⟨_, h, -⟩; cases h) id h
      ⟨node, hnode, element, hkind, hend⟩
  obtain ⟨name, close, rfl⟩ := add_endsWith (hwalk.standing (start_standing fileStop)) hfrom hlt hbefore hafter
  rw [advance_plain hread rfl] at hrest
  exact ⟨builder, here, name, close, after, hwalk, hread, hrest⟩

/-- A file without problems that is read up to an end tag, over it, and to its end: the tag is a name, a gap of blanks, and the
closing mark. -/
structure Closes (language : Script.Language) (source : List Char) (span : Span) (builder last : Builder)
    (front name gap rest : List Char) : Prop where
  passes : Passes language source front ('<' :: '/' :: (name ++ (gap ++ ['>']))) rest builder
    (builder.add (byteLength source) (.wholeEndTag name gap (byteLength front))) last
  source_eq : source = front ++ '<' :: '/' :: (name ++ (gap ++ '>' :: rest))
  isName : IsTagName name
  gaps : ∀ c ∈ gap, isAsciiSpace c = true
  span_eq : span = (Piece.wholeEndTag name gap (byteLength front)).span
  clean : last.problems = #[]

/-- A whole end tag is added in one step. -/
theorem walks_wholeEndTag {name gap : List Char} (hname : IsTagName name) (hgap : ∀ c ∈ gap, isAsciiSpace c = true) (offset : Nat)
    (rest : List Char) :
    Walks language fileStop (builder.add fileStop (.wholeEndTag name gap offset))
      ⟨offset + byteLength ('<' :: '/' :: (name ++ (gap ++ ['>']))), rest⟩ builder
      ⟨offset, '<' :: '/' :: (name ++ (gap ++ ['>'])) ++ rest⟩ := by
  have hread := readPiece_wholeEndTag hname hgap (builder.surroundings language) offset rest
  rw [endTag_append, byteLength_endTag, ← Nat.add_assoc, ← Nat.add_assoc, ← Nat.add_assoc]
  exact .single (List.cons_ne_nil _ _) (advance_plain hread rfl)

theorem exists_closes {source : List Char} {id : Nat} {element : Element} {span : Span} (hclean : (parse language source).2 = [])
    (helement : (parse language source).1.element? id = some element) (hspan : element.endTag = some span) :
    ∃ builder last front name gap rest, Closes language source span builder last front name gap rest := by
  obtain ⟨last, hwalk⟩ := exists_walks language source
  have hlast := hwalk.standing (start_standing _)
  rw [hwalk.parse_eq] at helement hclean
  obtain ⟨node, hnode, hkind⟩ := Document.element?_eq_some_iff.1 helement
  obtain ⟨old, hold, hsame, -⟩ := of_finish hlast.shaped hnode
  obtain ⟨builder, ⟨offset, chars⟩, name, close, after, hbefore, hread, hrest⟩ :=
    hwalk.endTag_origin hold (hsame.symm.trans hkind) hspan
  have hproblems : last.problems = #[] := by simpa using hclean
  have hpiece := (of_add_problems (hrest.of_problems hproblems)).2
  cases close with
  | none => cases hpiece
  | some close =>
    obtain ⟨gap, rfl, hname, hgap, htag, hoffset⟩ := readPiece_closed hread
    obtain ⟨front, hfront⟩ := hbefore.before
    obtain rfl : offset = byteLength front := by simpa using hfront.offset
    obtain ⟨stop, rest⟩ := after
    obtain rfl : stop = _ := hoffset
    rw [htag] at hrest
    rw [← endTag_append] at hbefore
    refine ⟨builder, last, front, name, gap, rest, ⟨hbefore, walks_wholeEndTag hname hgap _ _, ?_⟩, hfront.chars, hname, hgap,
      congrArg Piece.span htag, hproblems⟩
    rw [byteLength_endTag, ← Nat.add_assoc, ← Nat.add_assoc, ← Nat.add_assoc]
    exact hrest

end Builder

end ComponentLint.Markup
