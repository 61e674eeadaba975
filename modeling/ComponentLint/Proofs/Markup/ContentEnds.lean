import ComponentLint.Proofs.Markup.Nesting
import ComponentLint.Proofs.Markup.SolidTokens
import ComponentLint.Proofs.Markup.TagEnds

/-!
# The two ends of the content of an element

The content of an element with an end tag has a token in front of it, which closes the start tag, and one behind
it, which opens the end tag. The solid tokens next to these two are where the content begins and ends, or the
two are next to each other (`Frame`). What lies between the tokens at an end is in no start tag
(`Frame.untagged_front`, `Frame.untagged_back`), and the ends of the content of two elements are different
places (`Frame.distinct`).
-/

namespace ComponentLint.Markup

open Text

/-- Tokens are all white space, or there is a first solid one. -/
theorem blank_or_first (tokens : List Token) :
    (∀ token ∈ tokens, token.kind = .whitespace) ∨
      ∃ blanks first rest, tokens = blanks ++ first :: rest ∧ (∀ token ∈ blanks, token.kind = .whitespace) ∧
        first.solid = true := by
  cases hfound : tokens.find? Token.solid with
  | none =>
    refine .inl fun token htoken => ?_
    simpa using List.find?_eq_none.1 hfound token htoken
  | some first =>
    obtain ⟨hsolid, blanks, rest, rfl, hblanks⟩ := List.find?_eq_some_iff_append.1 hfound
    refine .inr ⟨blanks, first, rest, rfl, fun token htoken => ?_, hsolid⟩
    simpa using hblanks token htoken

/-- Tokens that are not all white space have a last solid one. -/
theorem exists_last {tokens : List Token} (h : ¬∀ token ∈ tokens, token.kind = .whitespace) :
    ∃ rest last blanks, tokens = rest ++ last :: blanks ∧ (∀ token ∈ blanks, token.kind = .whitespace) ∧
      last.solid = true := by
  rcases blank_or_first tokens.reverse with hblank | ⟨blanks, last, rest, hparts, hblanks, hsolid⟩
  · exact absurd (fun token htoken => hblank token (List.mem_reverse.2 htoken)) h
  · refine ⟨rest.reverse, last, blanks.reverse, ?_, fun token htoken => hblanks token (List.mem_reverse.1 htoken), hsolid⟩
    rw [← List.reverse_reverse tokens, hparts]
    simp

/-- Between two solid tokens there is none, or there are a first and a last one. -/
theorem Consecutive.exists_neighbours {tokens : List Token} (htokens : Consecutive tokens) {mark closing : Token}
    (hmark : mark ∈ tokens) (hmark_solid : mark.solid = true) (hclosing : closing ∈ tokens)
    (hclosing_solid : closing.solid = true)
    (hle : mark.span.stop ≤ closing.span.start) :
    ∃ first last, Neighbours tokens mark first ∧ Neighbours tokens last closing ∧
      (first = closing ∧ last = mark ∨ first.span.stop ≤ closing.span.start ∧ mark.span.stop ≤ last.span.start) := by
  have hmark_lt := htokens.nonempty mark hmark
  have hclosing_lt := htokens.nonempty closing hclosing
  have hordered := htokens.ordered
  obtain ⟨early, later, rfl⟩ := List.append_of_mem hmark
  obtain ⟨-, hbehind, hacross⟩ := List.pairwise_append.1 hordered
  obtain ⟨between, late, rfl⟩ : ∃ between late, later = between ++ closing :: late := by
    rcases List.mem_append.1 hclosing with hearly | hrest
    · have hback := hacross closing hearly mark List.mem_cons_self
      omega
    · rcases List.mem_cons.1 hrest with rfl | hlater
      · omega
      · exact List.append_of_mem hlater
  obtain ⟨hafter, hlater⟩ := List.pairwise_cons.1 hbehind
  obtain ⟨-, -, hbefore⟩ := List.pairwise_append.1 hlater
  rcases blank_or_first between with hblank | ⟨blanks, first, rest, hfirst, hblanks, hfirst_solid⟩
  · have hneighbours : Neighbours (early ++ mark :: (between ++ closing :: late)) mark closing :=
      ⟨⟨hmark_solid, hclosing_solid⟩, early, between, late, rfl, hblank⟩
    exact ⟨closing, mark, hneighbours, hneighbours, .inl ⟨rfl, rfl⟩⟩
  · have hfirst_mem : first ∈ between := by simp [hfirst]
    have hsome : ¬∀ token ∈ between, token.kind = .whitespace := fun hnone =>
      Token.solid_iff.1 hfirst_solid (hnone first hfirst_mem)
    obtain ⟨front, last, blanks', hlast, hblanks', hlast_solid⟩ := exists_last hsome
    have hlast_mem : last ∈ between := by simp [hlast]
    refine ⟨first, last, ⟨⟨hmark_solid, hfirst_solid⟩, early, blanks, rest ++ closing :: late, by simp [hfirst], hblanks⟩,
      ⟨⟨hlast_solid, hclosing_solid⟩, early ++ mark :: front, blanks', late, by simp [hlast], hblanks'⟩, .inr ⟨?_, ?_⟩⟩
    · exact hbefore first hfirst_mem closing List.mem_cons_self
    · exact hafter last (List.mem_append_left _ hlast_mem)

/-- A span is filled if a solid token lies in it. -/
theorem Document.tokensIn_any_iff {document : Document} (htokens : Consecutive document.tokens.toList) (start stop : Nat) :
    (document.tokensIn ⟨start, stop⟩).any (·.kind != .whitespace) = true ↔
      ∃ token ∈ document.tokens.toList, token.solid = true ∧ start ≤ token.span.start ∧ token.span.stop ≤ stop := by
  rw [Document.tokensIn_eq_filter htokens, List.any_filter, List.any_eq_true]
  refine exists_congr fun token => and_congr_right fun _ => ?_
  simp only [Bool.and_eq_true, decide_eq_true_eq, Token.solid]
  exact and_comm

section Parsed

variable {language : Script.Language} {source : List Char} {id other : Nat} {element element' : Element} {tag tag' : Span}
  {mark first last closing mark' first' last' closing' : Token}

/-- A start tag is opened by a solid token, and closed by one unless the file ends in it. -/
theorem exists_startTokens (h : (parse language source).1.element? id = some element) :
    (∃ token ∈ (parse language source).1.tokens.toList, token.solid = true ∧ token.span.start = element.startTag.span.start) ∧
      ((∃ token ∈ (parse language source).1.tokens.toList, token.solid = true ∧ token.span.stop = element.startTag.span.stop) ∨
        element.startTag.span.stop = byteLength source) := by
  obtain ⟨-, -, own, hsegment, hlaid⟩ := ((parse_elements_laid language source).2 id element h).startTag
  obtain ⟨-, parts, closing, rfl, -, hclosing⟩ := hlaid
  obtain ⟨early, late, htokens, -⟩ := hsegment
  rw [htokens]
  refine ⟨⟨_, List.mem_append_left _ (List.mem_append_right _ List.mem_cons_self), rfl, rfl⟩, ?_⟩
  have hmem : ∀ token ∈ closing, token ∈ early ++ (⟨.tagOpen, ⟨element.startTag.span.start,
      element.startTag.span.start + 1 + byteLength element.rawName.toList⟩⟩ :: (parts.flatten ++ closing)) ++ late := by
    intro token htoken
    simp [htoken]
  cases hclosing with
  | plain | selfClosing => exact .inl ⟨_, hmem _ (List.mem_singleton.2 rfl), rfl, rfl⟩
  | missing _ hstop => exact .inr hstop

/-- An end tag is opened by a solid token. -/
theorem exists_endToken (h : (parse language source).1.element? id = some element) (hend : element.endTag = some tag) :
    ∃ token ∈ (parse language source).1.tokens.toList, token.solid = true ∧ token.span.start = tag.start := by
  obtain ⟨-, -, own, hsegment, name, -, rfl⟩ := ((parse_elements_laid language source).2 id element h).endTag tag hend
  obtain ⟨early, late, htokens, -⟩ := hsegment
  rw [htokens]
  exact ⟨_, List.mem_append_left _ (List.mem_append_right _ List.mem_cons_self), rfl, rfl⟩

/-- The solid tokens at the two ends of the content of an element: `mark` closes the start tag and is followed by `first`, and
`closing` opens the end tag and follows `last`. -/
structure Frame (document : Document) (element : Element) (tag : Span) (mark first last closing : Token) : Prop where
  front : Neighbours document.tokens.toList mark first
  back : Neighbours document.tokens.toList last closing
  start : mark.span.stop = element.startTag.span.stop
  stop : closing.span.start = tag.start
  inside : first.span.start ≤ tag.start ∧ element.startTag.span.stop ≤ last.span.stop
  /-- Unless the content is blank, the two ends are not the same. -/
  filled : (document.tokensIn ⟨element.startTag.span.stop, tag.start⟩).any (·.kind != .whitespace) =
    decide (element.startTag.span.stop < last.span.stop)

theorem exists_frame (h : (parse language source).1.element? id = some element) (hend : element.endTag = some tag) :
    ∃ mark first last closing, Frame (parse language source).1 element tag mark first last closing := by
  have htokens := parse_consecutive language source
  obtain ⟨node, -, -, hfits, hfile⟩ := exists_fits h
  obtain ⟨hcontent, hends, hstop⟩ := hfits.endTag tag hend
  obtain ⟨closing, hclosing, hclosing_solid, hclosing_start⟩ := exists_endToken h hend
  obtain ⟨-, ⟨mark, hmark, hmark_solid, hmark_stop⟩ | hmissing⟩ := exists_startTokens h
  case inr => omega
  obtain ⟨first, last, hfront, hback, hcases⟩ :=
    htokens.exists_neighbours hmark hmark_solid hclosing hclosing_solid (by omega)
  have hfirst_lt := htokens.nonempty first hfront.mem.2
  have hlast_lt := htokens.nonempty last hback.mem.1
  have hfirst_from := hfront.stop_le_start htokens
  have hlast_to := hback.stop_le_start htokens
  refine ⟨mark, first, last, closing, hfront, hback, hmark_stop, hclosing_start, ?_, ?_⟩
  · rcases hcases with ⟨rfl, rfl⟩ | ⟨hfirst_to, hlast_from⟩
    · exact ⟨by omega, by omega⟩
    · exact ⟨by omega, by omega⟩
  · rw [Bool.eq_iff_iff, Document.tokensIn_any_iff htokens, decide_eq_true_eq]
    rcases hcases with ⟨rfl, rfl⟩ | ⟨hfirst_to, hlast_from⟩
    · refine iff_of_false ?_ (by omega)
      rintro ⟨token, htoken, hsolid, hfrom, hto⟩
      have hlt := htokens.nonempty token htoken
      rcases hfront.outside htokens htoken hsolid with hle | hle
      · omega
      · omega
    · exact iff_of_true ⟨first, hfront.mem.2, hfront.solid.2, by omega, by omega⟩ (by omega)

namespace Frame

variable (h : Frame (parse language source).1 element tag mark first last closing)
  (helement : (parse language source).1.element? id = some element) (hend : element.endTag = some tag)
include h helement

/-- No start tag reaches into the blanks in front of the content. -/
theorem untagged_front {offset : Nat} (hfrom : mark.span.stop ≤ offset) (hto : offset < first.span.start) :
    ¬InStartTag (parse language source).1.nodes offset := by
  rintro ⟨other, node, element', hnode, hkind, hstart, hstop⟩
  have helement' := Document.element?_eq_some_iff.2 ⟨node, hnode, hkind⟩
  have hmark := h.start
  by_cases hsame : id = other
  · subst hsame
    obtain rfl := Option.some.inj (helement.symm.trans helement')
    omega
  · rcases (parse_nested helement helement' hsame).start_outside with hlt | hle
    · omega
    · obtain ⟨⟨token, htoken, hsolid, heq⟩, -⟩ := exists_startTokens helement'
      have htokens := parse_consecutive language source
      have hlt := htokens.nonempty token htoken
      rcases h.front.outside htokens htoken hsolid with hout | hout
      · omega
      · omega

include hend

/-- No start tag reaches into the blanks behind the content. -/
theorem untagged_back {offset : Nat} (hfrom : last.span.stop ≤ offset) (hto : offset < closing.span.start) :
    ¬InStartTag (parse language source).1.nodes offset := by
  rintro ⟨other, node, element', hnode, hkind, hstart, hstop⟩
  have helement' := Document.element?_eq_some_iff.2 ⟨node, hnode, hkind⟩
  have hclosing := h.stop
  have hinside := h.inside.2
  by_cases hsame : id = other
  · subst hsame
    obtain rfl := Option.some.inj (helement.symm.trans helement')
    omega
  · rcases (parse_nested helement helement' hsame).stop_outside hend with hle | hlt
    · obtain ⟨-, ⟨token, htoken, hsolid, heq⟩ | hmissing⟩ := exists_startTokens helement'
      · have htokens := parse_consecutive language source
        have hlt := htokens.nonempty token htoken
        rcases h.back.outside htokens htoken hsolid with hout | hout
        · omega
        · omega
      · obtain ⟨node, -, -, hfits, hfile⟩ := exists_fits helement
        obtain ⟨-, hends, hle⟩ := hfits.endTag tag hend
        omega
    · omega

/-- The ends of the content of two elements are different places. -/
theorem distinct (h' : Frame (parse language source).1 element' tag' mark' first' last' closing')
    (helement' : (parse language source).1.element? other = some element') (hend' : element'.endTag = some tag')
    (hne : id ≠ other) :
    mark.span.stop ≠ mark'.span.stop ∧ mark.span.stop ≠ last'.span.stop ∧ last.span.stop ≠ last'.span.stop := by
  have htokens := parse_consecutive language source
  have hnested := parse_nested helement helement' hne
  obtain ⟨node', -, -, hfits', -⟩ := exists_fits helement'
  obtain ⟨-, hlt', -⟩ := hfits'.startTag
  have hends := hnested.endTag_ne hend hend'
  have hmark := h.start
  have hmark' := h'.start
  have hclosing := h.stop
  have hclosing' := h'.stop
  refine ⟨fun hsame => ?_, fun hsame => ?_, fun hsame => ?_⟩
  · rcases hnested.start_outside with hlt | hle
    · omega
    · omega
  · -- The other element would end where this one begins, and so begin there too.
    obtain ⟨-, hfound⟩ := h.front.anchors htokens (Nat.le_refl _) (h.front.stop_le_start htokens)
    obtain ⟨-, hfound'⟩ := h'.back.anchors htokens (Nat.le_refl _) (h'.back.stop_le_start htokens)
    rw [← hsame, hfound] at hfound'
    obtain rfl := Option.some.inj hfound'
    obtain ⟨hfirst, -⟩ := h.inside
    have hfront := h.front.stop_le_start htokens
    have hinside := hnested.starts_inside hend hend' (by omega) (by omega)
    obtain ⟨⟨token, htoken, hsolid, hstart⟩, -⟩ := exists_startTokens helement'
    have hlt := htokens.nonempty token htoken
    obtain ⟨hcontent', -⟩ := hfits'.endTag tag' hend'
    rcases h.front.outside htokens htoken hsolid with hout | hout
    · omega
    · omega
  · obtain ⟨-, hfound⟩ := h.back.anchors htokens (Nat.le_refl _) (h.back.stop_le_start htokens)
    obtain ⟨-, hfound'⟩ := h'.back.anchors htokens (Nat.le_refl _) (h'.back.stop_le_start htokens)
    rw [← hsame, hfound] at hfound'
    obtain rfl := Option.some.inj hfound'
    omega

end Frame

end Parsed

end ComponentLint.Markup
