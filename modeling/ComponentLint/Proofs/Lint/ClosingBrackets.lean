import ComponentLint.Proofs.Fix.Drafting
import ComponentLint.Proofs.Fix.Splice
import ComponentLint.Proofs.Markup.TagEnds
import ComponentLint.Proofs.Text.LineColumns
import ComponentLint.Rules.ClosingBracket

/-!
# Line breaks before closing brackets

The line breaks before a closing bracket are counted as a difference of two lines. In every file the difference
is the number of line feeds between the bracket and the token before it, which is one of the same tag. The tag
is reported if this is not the number that is asked for, and the fix leaves that many line feeds between the two
and nothing else (`checkTag_exact`).
-/

namespace ComponentLint.Rules.ClosingBracket

open Text Markup

variable {languages : Script.Languages}

/-! ## The bracket -/

theorem bracket?_closed {document : Document} {source : List Char} {tag : Span} {close : Token}
    (hlast : (document.tokensIn tag).getLast? = some close) (hclose : close.Closes source tag) :
    bracket? document tag = some close := by
  unfold bracket?
  rw [hlast]
  rcases hclose.mark with ⟨hkind, -⟩ | ⟨hkind, -⟩
  · simp [hkind]
  · simp [hkind]

theorem bracket?_left {document : Document} {tag : Span} (h : ∀ token ∈ document.tokensIn tag, token.kind.InTag) :
    bracket? document tag = none := by
  unfold bracket?
  cases hlast : (document.tokensIn tag).getLast? with
  | none => rfl
  | some token =>
    obtain ⟨-, hclose, hself⟩ := h token (List.mem_of_getLast? hlast)
    simp [hclose, hself]

/-! ## What is checked of a tag -/

section Closed

variable {source before gap rest : List Char} {tag : Span} {previous close : Token}

/-- The line of the bracket, by the line feeds in front of it. -/
theorem line_close (h : (File.ofSource languages source).document.ClosedAfter tag previous close before gap rest) :
    (File.ofSource languages source).line close.span.start =
      (File.ofSource languages source).line previous.span.stop + gap.count '\n' := by
  have hsource : source = before ++ (gap ++ rest) := h.source
  have hgap : Span.InText source ⟨byteLength before, byteLength before + byteLength gap⟩ := by
    rw [hsource]
    exact Stands.span ⟨before, rest, rfl, rfl⟩
  have hline := LineIndex.line_stop hgap
  have hslice : slice source ⟨byteLength before, byteLength before + byteLength gap⟩ = gap := by rw [hsource, slice_append]
  rw [Text.lineBreaks, hslice] at hline
  rw [h.stop, h.start]
  exact hline

/-- A tag takes several lines if there is a line feed in it before the end of the token in front of the bracket. -/
theorem multiline_iff (h : (File.ofSource languages source).document.ClosedAfter tag previous close before gap rest)
    (hstart : isBoundary source tag.start = true) :
    ((File.ofSource languages source).line tag.start != (File.ofSource languages source).line previous.span.stop) =
      decide ('\n' ∈ (File.ofSource languages source).text ⟨tag.start, previous.span.stop⟩) := by
  have hsource : source = before ++ (gap ++ rest) := h.source
  have hstop : isBoundary source previous.span.stop = true := by
    rw [h.start, hsource]
    exact isBoundary_append before (gap ++ rest)
  have hle : tag.start ≤ previous.span.stop := by
    obtain ⟨-, hfrom, hlt⟩ := h.inside
    omega
  have hinside : Span.InText source ⟨tag.start, previous.span.stop⟩ := ⟨hle, hstart, hstop⟩
  have hline := LineIndex.line_ne_iff hinside
  rw [Bool.eq_iff_iff, bne_iff_ne, decide_eq_true_eq]
  exact hline

/-- The number of line breaks asked for before a bracket. -/
def expectedBreaks (settings : Settings) (file : File) (tag : Span) (previous close : Token) : Nat :=
  (settings.expected (decide ('\n' ∈ file.text ⟨tag.start, previous.span.stop⟩)) (close.kind == .tagSelfClose)).count

/-- The fix that leaves a number of line feeds between two tokens. -/
def breaksBetween (previous close : Token) (count : Nat) : Fix :=
  ⟨[⟨⟨previous.span.stop, close.span.start⟩, String.ofList (List.replicate count '\n')⟩], none⟩

theorem build?_breaksBetween
    (h : (File.ofSource languages source).document.ClosedAfter tag previous close before gap rest) (count : Nat) :
    ((File.ofSource languages source).draft.replaceBetween previous.span.stop close.span.start
      (String.ofList (List.replicate count '\n'))).build? = some (breaksBetween previous close count) := by
  have hsource : source = before ++ (gap ++ rest) := h.source
  have hle : previous.span.stop ≤ close.span.start := by
    rw [h.start, h.stop]
    exact Nat.le_add_right _ _
  have hfits : close.span.start ≤ byteLength source := by
    rw [h.stop, hsource, byteLength_append, byteLength_append]
    omega
  rw [FixDraft.replaceBetween_of_le hle]
  exact FixDraft.build?_add_of_le rfl rfl hfits _

/-- The check of a tag that has its bracket. -/
theorem checkTag_closed (settings : Settings)
    (h : (File.ofSource languages source).document.ClosedAfter tag previous close before gap rest)
    (hstart : isBoundary source tag.start = true) :
    checkTag settings (File.ofSource languages source) tag =
      if gap.count '\n' = expectedBreaks settings (File.ofSource languages source) tag previous close then []
      else [(info.report "expectedBeforeClosingBracket" ⟨previous.span.stop, close.span.stop⟩
        [("expected", lineBreakPhrase (expectedBreaks settings (File.ofSource languages source) tag previous close)),
         ("actual", lineBreakPhrase (gap.count '\n'))]).withFix
        (breaksBetween previous close (expectedBreaks settings (File.ofSource languages source) tag previous close))] := by
  unfold checkTag
  rw [bracket?_closed h.closedBy.last h.closes]
  dsimp only
  rw [h.closedBy.before]
  dsimp only
  rw [line_close h, Nat.add_sub_cancel_left, multiline_iff h hstart, ← expectedBreaks, build?_breaksBetween h]
  by_cases heq : gap.count '\n' = expectedBreaks settings (File.ofSource languages source) tag previous close
  · rw [if_pos (beq_iff_eq.2 heq), if_pos heq]
  · rw [if_neg (mt beq_iff_eq.1 heq), if_neg heq]

/-- The fix leaves line feeds, and all that is around the gap. -/
theorem applyAll_breaksBetween
    (h : (File.ofSource languages source).document.ClosedAfter tag previous close before gap rest) (count : Nat) :
    (Fix.applyAll source [breaksBetween previous close count]).output = before ++ (List.replicate count '\n' ++ rest) := by
  have hsource : source = before ++ (gap ++ rest) := h.source
  have happlied := Fix.applyAll_single before gap rest (String.ofList (List.replicate count '\n')) none
  rw [← hsource, String.toList_ofList] at happlied
  rw [breaksBetween, h.start, h.stop]
  exact happlied

end Closed

/-! ## Every tag of every file -/

/-- A tag is left open, and then nothing is said of it, or it has its bracket. Then a token of the same tag
stands before the bracket, with only blanks and slashes between the two, and the bracket stands as many lines
below its end as there are line feeds between them. The tag is reported exactly if that is not the number asked
for of tags of its kind, and the fix leaves that number of line feeds between the two tokens, nothing else
there, and all the rest of the file. -/
theorem checkTag_exact (settings : Settings) (source : List Char) {id : NodeId} {element : Element} {tag : Span}
    (helement : (File.ofSource languages source).document.element? id = some element)
    (htag : tag ∈ element.startTag.span :: element.endTag.toList) :
    let file := File.ofSource languages source
    (element.LeavesOpen source file.component.problems tag ∧ bracket? file.document tag = none ∧
      checkTag settings file tag = []) ∨
      ∃ previous close before gap rest, bracket? file.document tag = some close ∧
        file.document.ClosedAfter tag previous close before gap rest ∧
        file.line close.span.start = file.line previous.span.stop + gap.count '\n' ∧
        let expected := expectedBreaks settings file tag previous close
        let fix := breaksBetween previous close expected
        checkTag settings file tag =
          (if gap.count '\n' = expected then []
          else [(info.report "expectedBeforeClosingBracket" ⟨previous.span.stop, close.span.stop⟩
            [("expected", lineBreakPhrase expected), ("actual", lineBreakPhrase (gap.count '\n'))]).withFix fix]) ∧
        (Fix.applyAll source [fix]).output = before ++ (List.replicate expected '\n' ++ rest) := by
  intro file
  obtain ⟨own, hhas⟩ := exists_hasTag (languages ⟨Component.usesTypes source, false⟩) source helement htag
  have htokens : file.document.tokensIn tag = own :=
    hhas.segment.tokensIn_eq hhas.ordered (parse_elements_laid (languages ⟨Component.usesTypes source, false⟩) source).1
  have hstart : isBoundary source tag.start = true := hhas.start
  cases hhas.laid with
  | left hinside hopen =>
    have hnone : bracket? file.document tag = none := bracket?_left (htokens ▸ hinside)
    refine .inl ⟨hopen.imp_left ?_, hnone, ?_⟩
    · rintro ⟨hspan, hstop, hproblem⟩
      exact ⟨hspan, hstop, List.mem_append_left _ hproblem⟩
    · unfold checkTag
      rw [hnone]
  | closed hsome hinside hclose =>
    obtain ⟨previous, before, gap, rest, hclosed⟩ := exists_closedAfter _ source hhas hsome hinside hclose
    exact .inr ⟨previous, _, before, gap, rest, bracket?_closed hclosed.closedBy.last hclose, hclosed, line_close hclosed,
      checkTag_closed settings hclosed hstart, applyAll_breaksBetween hclosed _⟩

/-- An element whose start tag has slashes and line feeds before its bracket, and whose end tag has a line feed there. -/
def slashedTags : List Char :=
  "<template><p\n class=b /\n\n/ >c</p\n></template>".toList

/-- Both tags are reported: the first keeps one of its two line feeds and loses its slashes, the second loses its line feed. -/
theorem checkTag_exact_slashedTags : ∃ element,
    (File.ofSource Script.Dialect.language slashedTags).document.element? 2 = some element ∧
    ∀ tag ∈ element.startTag.span :: element.endTag.toList, ∃ previous close before gap rest,
      (File.ofSource Script.Dialect.language slashedTags).document.ClosedAfter tag previous close before gap rest ∧
        gap.count '\n' ≠ expectedBreaks ⟨.never, .always, none, none⟩
          (File.ofSource Script.Dialect.language slashedTags) tag previous close ∧
        ∃ fix, (checkTag ⟨.never, .always, none, none⟩ (File.ofSource Script.Dialect.language slashedTags) tag).map
          (·.fix) = [some fix] ∧
          (Fix.applyAll slashedTags [fix]).output ∈ ["<template><p\n class=b\n>c</p\n></template>".toList,
            "<template><p\n class=b /\n\n/ >c</p></template>".toList] := by
  have hholds : ((File.ofSource Script.Dialect.language slashedTags).document.element? 2).any fun element =>
      (element.startTag.span :: element.endTag.toList).all fun tag =>
        (checkTag ⟨.never, .always, none, none⟩ (File.ofSource Script.Dialect.language slashedTags) tag).any
          fun report => report.fix.any fun fix =>
          decide ((Fix.applyAll slashedTags [fix]).output ∈ ["<template><p\n class=b\n>c</p\n></template>".toList,
            "<template><p\n class=b /\n\n/ >c</p></template>".toList]) := by
    decide +kernel
  obtain ⟨element, helement, hchecked⟩ := (Option.any_eq_true _ _).1 hholds
  refine ⟨element, helement, fun tag htag => ?_⟩
  obtain ⟨report, hreport, hfixed⟩ := List.any_eq_true.1 (List.all_eq_true.1 hchecked tag htag)
  obtain ⟨fix, hfix, houtput⟩ := (Option.any_eq_true _ _).1 hfixed
  have houtput := of_decide_eq_true houtput
  rcases checkTag_exact ⟨.never, .always, none, none⟩ slashedTags helement htag with
    ⟨-, -, hnil⟩ | ⟨previous, close, before, gap, rest, -, hclosed, -, hchecks, -⟩
  · rw [hnil] at hreport
    cases hreport
  · refine ⟨previous, close, before, gap, rest, hclosed, ?_⟩
    split at hchecks
    · rw [hchecks] at hreport
      cases hreport
    · next hne =>
      refine ⟨hne, fix, ?_, houtput⟩
      rw [hchecks] at hreport ⊢
      rw [← List.mem_singleton.1 hreport, List.map_singleton, hfix]

end ComponentLint.Rules.ClosingBracket
