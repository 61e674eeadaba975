import ComponentLint.Proofs.Fix.Drafting
import ComponentLint.Proofs.Fix.Splice
import ComponentLint.Proofs.Markup.TagEnds
import ComponentLint.Proofs.Markup.Regapping
import ComponentLint.Rules.ClosingBracket

/-!
# Fixes of closing brackets

A fix of the rule exchanges the gap before the closing mark of a tag for line breaks. The tag then says what it said, and nothing
else changes (`check_fix_keeps`), unless the mark comes next to something that takes its slash (`Glues`). The rule does not check
that: behind a value without quotes the slash of `/>` becomes part of the value (`not_keeps_bareValue`).
-/

namespace ComponentLint

open Text Markup

namespace Rules.ClosingBracket

open Builder

variable {languages : Script.Languages}

/-- A fix changes the gap before the closing mark of one tag of an element, and nothing of what the file says. -/
structure KeepsTag (languages : Script.Languages) (source : List Char) (id : NodeId) (element : Element) (fix : Fix) :
    Prop where
  clean : (Component.parse languages (Fix.applyAll source [fix]).output).problems = []
  tree : ∃ edit, fix.edits = [edit] ∧ (Component.parse languages source).document.Regapped
    (.cut source (Fix.applyAll source [fix]).output
    edit.span.start edit.span.stop (edit.span.start + byteLength edit.replacement.toList)) id element
    (Component.parse languages (Fix.applyAll source [fix]).output).document

/-- Whether an edit brings the closing mark of a start tag next to something with which it is read otherwise: a
value without quotes takes the slash of the mark, and a mark without slash takes the one that ends a name. -/
def Glues (file : File) (element : Element) (edit : Edit) : Prop :=
  edit.replacement = "" ∧ edit.span.stop < element.startTag.span.stop ∧
    if element.startTag.selfClosing then ∃ attr ∈ element.startTag.attributes.getLast?, ∃ value ∈ attr.value, value.quote = none
    else (∀ attr ∈ element.startTag.attributes.getLast?, attr.value = none) ∧
      file.text ⟨edit.span.start - 1, edit.span.start⟩ = ['/']

instance (file : File) (element : Element) (edit : Edit) : Decidable (Glues file element edit) :=
  inferInstanceAs (Decidable (_ ∧ _ ∧ _))

/-- The fix of a tag exchanges what stands between its last two tokens for line breaks. -/
theorem of_checkTag {settings : Settings} {file : File} {tag : Span} {report : Report} {fix : Fix} {previous close : Token}
    (hreport : report ∈ checkTag settings file tag) (hfix : report.fix = some fix)
    (hclosed : file.document.ClosedBy tag previous close)
    (hkind : close.kind = .tagClose ∨ close.kind = .tagSelfClose) :
    ∃ count, fix = ⟨[⟨⟨previous.span.stop, close.span.start⟩, String.ofList (List.replicate count '\n')⟩], none⟩ := by
  have hbracket : bracket? file.document tag = some close := by
    unfold bracket?
    rw [hclosed.last]
    exact if_pos (by simpa using hkind)
  unfold checkTag at hreport
  rw [hbracket] at hreport
  dsimp only at hreport
  rw [hclosed.before] at hreport
  dsimp only at hreport
  split at hreport
  · cases hreport
  · obtain rfl := List.mem_singleton.1 hreport
    generalize (settings.expected _ _).count = count at hfix
    refine ⟨count, ?_⟩
    change FixDraft.build? _ = some fix at hfix
    unfold FixDraft.replaceBetween at hfix
    split at hfix
    · cases hfix
    · exact FixDraft.build?_add rfl hfix

theorem blank_lineBreaks (count : Nat) : ∀ c ∈ List.replicate count '\n', isAsciiSpace c = true := by
  intro c hc
  rw [List.eq_of_mem_replicate hc]
  rfl

section Edited

variable {source front gap rest : List Char} {id : Nat} {element : Element} {count : Nat}

/-- A gap that is exchanged for line breaks: what is known of the markup holds of the component. -/
theorem keepsTag_of_regapped (hsource : source = front ++ (gap ++ rest))
    (htypes : Component.usesTypes (front ++ (List.replicate count '\n' ++ rest)) = Component.usesTypes source)
    (hclean : (Component.parse languages source).problems = [])
    (helement : (File.ofSource languages source).document.element? id = some element)
    (h : (Markup.parse (languages ⟨Component.usesTypes source, false⟩) source).1.Regapped
        (.cut source (front ++ (List.replicate count '\n' ++ rest)) (byteLength front) (byteLength front + byteLength gap)
          (byteLength front + byteLength (List.replicate count '\n'))) id element
        (Markup.parse (languages ⟨Component.usesTypes source, false⟩) (front ++ (List.replicate count '\n' ++ rest))).1 ∧
      (Markup.parse (languages ⟨Component.usesTypes source, false⟩) (front ++ (List.replicate count '\n' ++ rest))).2 = []) :
    KeepsTag languages source id element ⟨[⟨⟨byteLength front, byteLength front + byteLength gap⟩,
      String.ofList (List.replicate count '\n')⟩], none⟩ := by
  have houtput := Fix.applyAll_single front gap rest (String.ofList (List.replicate count '\n')) none
  rw [← hsource, String.toList_ofList] at houtput
  obtain ⟨hregapped, hmarkup⟩ := h
  have htree : (Component.parse languages source).document.Regapped
      (.cut source (front ++ (List.replicate count '\n' ++ rest)) (byteLength front) (byteLength front + byteLength gap)
        (byteLength front + byteLength (List.replicate count '\n'))) id element
      (Component.parse languages (front ++ (List.replicate count '\n' ++ rest))).document := by
    have hdocument : (Component.parse languages (front ++ (List.replicate count '\n' ++ rest))).document =
        (Markup.parse (languages ⟨Component.usesTypes source, false⟩) (front ++ (List.replicate count '\n' ++ rest))).1 := by
      rw [← htypes]
      rfl
    rw [hdocument]
    exact hregapped
  refine ⟨?_, _, rfl, ?_⟩
  · rw [houtput]
    exact @Component.problems_regapped languages (.cut source _ _ _ _) id element htypes htree helement hclean hmarkup
  · rw [houtput, String.toList_ofList]
    exact htree

end Edited

section Tags

variable {settings : Settings} {source : List Char} {id : NodeId} {element : Element} {report : Report} {fix : Fix}

/-- A tag that an edit does not glue to its mark can do without a gap. -/
theorem detached_of_not_glues
    {language : Script.Language} {builder last : Builder} {tag : ReadTag} {front before gap rest : List Char}
    {edit : Edit} (h : Opens language source id element builder last tag front (before ++ gap) rest)
    (hsource : source = (front ++ '<' :: before) ++ (gap ++ (tag.ending.mark ++ rest)))
    (hstart : edit.span.start = byteLength (front ++ '<' :: before))
    (hstop : edit.span.stop < element.startTag.span.stop) (hempty : edit.replacement = "")
    (hglues : ¬Glues (File.ofSource languages source) element edit) : tag.Detached before := by
  have hlast : ∀ read ∈ tag.attributes.getLast?, read.attr ∈ element.startTag.attributes.getLast? := by
    intro read hread
    rw [h.attributes_eq, List.getLast?_map]
    exact Option.mem_map_of_mem _ hread
  cases hending : tag.ending with
  | missing => exact absurd hending h.ended
  | selfClosing =>
    have hself : element.startTag.selfClosing = true := by rw [h.selfClosing_eq, hending]; rfl
    unfold ReadTag.Detached
    rw [hending]
    refine fun read hread value hvalue hquote => hglues ⟨hempty, hstop, ?_⟩
    rw [if_pos hself]
    exact ⟨read.attr, hlast read hread, value, hvalue, hquote⟩
  | plain =>
    have hself : ¬element.startTag.selfClosing = true := by rw [h.selfClosing_eq, hending]; nofun
    unfold ReadTag.Detached
    rw [hending]
    intro hvalues hslash
    refine hglues ⟨hempty, hstop, ?_⟩
    rw [if_neg hself, hstart]
    refine ⟨fun attr hattr => ?_, ?_⟩
    · rw [h.attributes_eq, List.getLast?_map] at hattr
      obtain ⟨read, hread, rfl⟩ := Option.mem_map.1 hattr
      exact hvalues read hread
    · have hopen : (front ++ '<' :: before).getLast? = some '/' := by
        rw [List.getLast?_append, List.getLast?_cons, hslash]
        rfl
      have hslice := slice_getLast hopen rfl (gap ++ (tag.ending.mark ++ rest))
      rw [← hsource] at hslice
      exact hslice

theorem startTag_keeps (hclean : (Component.parse languages source).problems = [])
    (helement : (File.ofSource languages source).document.element? id = some element)
    (hreport : report ∈ checkTag settings (File.ofSource languages source) element.startTag.span) (hfix : report.fix = some fix)
    (hglues : ∀ edit ∈ fix.edits, ¬Glues (File.ofSource languages source) element edit) :
    KeepsTag languages source id element fix := by
  have hmarkup := ((Component.problems_eq_nil_iff source).1 hclean).1
  obtain ⟨builder, last, tag, front, inside, rest, h⟩ := exists_opens hmarkup helement
  obtain ⟨before, gap, rfl, hgap⟩ := h.exists_gap
  obtain ⟨previous, close, hclosed, hprevious, hclose, hkind⟩ := h.closedBy hgap
  obtain ⟨count, rfl⟩ := of_checkTag hreport hfix hclosed hkind
  have hsource : source = (front ++ '<' :: before) ++ (gap ++ (tag.ending.mark ++ rest)) := by
    rw [h.source_eq]
    simp
  have hstop : close.span.start < element.startTag.span.stop := by
    rw [hclose, h.startTag_stop, byteLength_open, byteLength_append]
    have hmark := (byteLength_pos_iff tag.ending.mark).2 (TagEnd.mark_ne_nil h.ended)
    omega
  have hdetached : List.replicate count '\n' = [] → tag.Detached before := by
    intro hnil
    refine detached_of_not_glues h hsource hprevious hstop ?_ (hglues _ (List.mem_singleton_self _))
    rw [hnil]
  have hedited : (front ++ '<' :: before) ++ (List.replicate count '\n' ++ (tag.ending.mark ++ rest)) =
      front ++ '<' :: (before ++ (List.replicate count '\n' ++ (tag.ending.mark ++ rest))) := by simp
  rw [hprevious, hclose]
  refine keepsTag_of_regapped hsource ?_ hclean helement
    (h.regap helement hgap (blank_lineBreaks count) hdetached hedited)
  rw [hsource, Component.usesTypes_regap (blank_gaps (blank_lineBreaks count)) h.ended,
    Component.usesTypes_regap hgap.gaps h.ended]

theorem endTag_keeps {span : Span} (hclean : (Component.parse languages source).problems = [])
    (helement : (File.ofSource languages source).document.element? id = some element) (hspan : element.endTag = some span)
    (hreport : report ∈ checkTag settings (File.ofSource languages source) span) (hfix : report.fix = some fix) :
    KeepsTag languages source id element fix := by
  have hmarkup := ((Component.problems_eq_nil_iff source).1 hclean).1
  obtain ⟨builder, last, front, name, gap, rest, h⟩ := exists_closes hmarkup helement hspan
  obtain ⟨previous, close, hclosed, hprevious, hclose, hkind⟩ := h.closedBy
  obtain ⟨count, rfl⟩ := of_checkTag hreport hfix hclosed (Or.inl hkind)
  have hsource : source = (front ++ '<' :: '/' :: name) ++ (gap ++ (TagEnd.plain.mark ++ rest)) := by
    rw [h.source_eq]
    simp [TagEnd.mark]
  have hedited : (front ++ '<' :: '/' :: name) ++ (List.replicate count '\n' ++ (TagEnd.plain.mark ++ rest)) =
      front ++ '<' :: '/' :: (name ++ (List.replicate count '\n' ++ '>' :: rest)) := by simp [TagEnd.mark]
  rw [hprevious, hclose]
  have hended : TagEnd.plain ≠ .missing := by decide
  refine keepsTag_of_regapped hsource ?_ hclean helement (h.regap helement hspan (blank_lineBreaks count) hedited)
  rw [hsource, Component.usesTypes_regap (blank_gaps (blank_lineBreaks count)) hended,
    Component.usesTypes_regap (blank_gaps h.gaps) hended]

/-- What the fix of a report leaves of the file: another gap in the tag, and all else. -/
theorem check_fix_keeps (hclean : (Component.parse languages source).problems = [])
    (helement : (File.ofSource languages source).document.element? id = some element)
    (hreport : report ∈ check settings (File.ofSource languages source) id element) (hfix : report.fix = some fix)
    (hglues : ∀ edit ∈ fix.edits, ¬Glues (File.ofSource languages source) element edit) :
    KeepsTag languages source id element fix := by
  obtain ⟨tag, htag, hreport⟩ := List.mem_flatMap.1 hreport
  rcases List.mem_cons.1 htag with rfl | hend
  · exact startTag_keeps hclean helement hreport hfix hglues
  · exact endTag_keeps hclean helement (Option.mem_toList.1 hend) hreport hfix

end Tags

/-- The settings without options. -/
def usualSettings : Settings :=
  ⟨.never, .always, none, none⟩

/-- Tags with another gap than they should have: a self-closing one, a start tag on two lines, and an end tag. -/
def brokenTags : List Char :=
  "<template><br class=\"a\"\n/><p\n class=b>c</p\n></template>".toList

theorem check_fix_keeps_brokenTags : (Component.parse Script.Dialect.language brokenTags).problems = [] ∧
    ∀ expected ∈ [(2, "<template><br class=\"a\"/><p\n class=b>c</p\n></template>"),
        (3, "<template><br class=\"a\"\n/><p\n class=b\n>c</p\n></template>"),
        (3, "<template><br class=\"a\"\n/><p\n class=b>c</p></template>")],
      ∃ element report fix, (File.ofSource Script.Dialect.language brokenTags).document.element? expected.1 = some element ∧
        report ∈ check usualSettings (File.ofSource Script.Dialect.language brokenTags) expected.1 element ∧
          report.fix = some fix ∧
        (∀ edit ∈ fix.edits, ¬Glues (File.ofSource Script.Dialect.language brokenTags) element edit) ∧
        (Fix.applyAll brokenTags [fix]).output = expected.2.toList ∧
          KeepsTag Script.Dialect.language brokenTags expected.1 element fix := by
  have hclean : (Component.parse Script.Dialect.language brokenTags).problems = [] := by decide +kernel
  refine ⟨hclean, fun expected hexpected => ?_⟩
  have hholds : ∀ expected ∈ [(2, "<template><br class=\"a\"/><p\n class=b>c</p\n></template>"),
      (3, "<template><br class=\"a\"\n/><p\n class=b\n>c</p\n></template>"),
      (3, "<template><br class=\"a\"\n/><p\n class=b>c</p></template>")],
      ((File.ofSource Script.Dialect.language brokenTags).document.element? expected.1).any fun element =>
        (check usualSettings (File.ofSource Script.Dialect.language brokenTags) expected.1 element).any fun report =>
          report.fix.any fun fix =>
          decide (∀ edit ∈ fix.edits, ¬Glues (File.ofSource Script.Dialect.language brokenTags) element edit) &&
            (Fix.applyAll brokenTags [fix]).output == expected.2.toList := by
    decide +kernel
  obtain ⟨element, helement, hchecked⟩ := (Option.any_eq_true _ _).1 (hholds expected hexpected)
  obtain ⟨report, hreport, hfixes⟩ := List.any_eq_true.1 hchecked
  obtain ⟨fix, hfix, hfound⟩ := (Option.any_eq_true _ _).1 hfixes
  obtain ⟨hglues, houtput⟩ := Bool.and_eq_true_iff.1 hfound
  exact ⟨element, report, fix, helement, hreport, hfix, of_decide_eq_true hglues, eq_of_beq houtput,
    check_fix_keeps hclean helement hreport hfix (of_decide_eq_true hglues)⟩

/-- A self-closing tag with a value without quotes, which takes the slash once nothing stands between them. -/
def bareValue : List Char :=
  "<template><br class=a\n/></template>".toList

theorem not_keeps_bareValue : (Component.parse Script.Dialect.language bareValue).problems = [] ∧ ∃ element report fix,
    (File.ofSource Script.Dialect.language bareValue).document.element? 2 = some element ∧
      report ∈ check usualSettings (File.ofSource Script.Dialect.language bareValue) 2 element ∧ report.fix = some fix ∧
      ¬KeepsTag Script.Dialect.language bareValue 2 element fix := by
  have hholds : ((File.ofSource Script.Dialect.language bareValue).document.element? 2).any fun element =>
    element.startTag.selfClosing &&
      (check usualSettings (File.ofSource Script.Dialect.language bareValue) 2 element).any fun report =>
        report.fix.any fun fix =>
        ((Component.parse Script.Dialect.language (Fix.applyAll bareValue [fix]).output).document.element? 2).all
          (!·.startTag.selfClosing) := by
    decide +kernel
  refine ⟨by decide +kernel, ?_⟩
  obtain ⟨element, helement, hchecked⟩ := (Option.any_eq_true _ _).1 hholds
  obtain ⟨hself, hreports⟩ := Bool.and_eq_true_iff.1 hchecked
  obtain ⟨report, hreport, hfixes⟩ := List.any_eq_true.1 hreports
  obtain ⟨fix, hfix, hopen⟩ := (Option.any_eq_true _ _).1 hfixes
  refine ⟨element, report, fix, helement, hreport, hfix, fun hkeeps => ?_⟩
  obtain ⟨edit, -, htree⟩ := hkeeps.tree
  obtain ⟨new, hnew, -, -, hsame, -⟩ := htree.element
  rw [hnew, Option.all_some, hsame, hself] at hopen
  cases hopen

end Rules.ClosingBracket

end ComponentLint
