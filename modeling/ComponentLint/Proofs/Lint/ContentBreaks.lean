import ComponentLint.Proofs.Fix.Drafting
import ComponentLint.Proofs.Fix.Splice
import ComponentLint.Proofs.Lint.ContentWalk
import ComponentLint.Proofs.Markup.ContentEnds

/-!
# Line breaks around content

An element that is looked at is reported at the ends of its content, each with a fix that puts a line break
between two tokens which follow each other (`check_cases`). Between these two the file is blank
(`BreaksLine.of_neighbours`), and the ends of all elements are different places, so no two fixes touch and one
pass makes all of them (`lintFile_contentBreaks`).
-/

namespace ComponentLint.Rules.ContentBreaks

open Text Markup

variable {languages : Script.Languages} {patterns : PatternEngine}

/-- The fix that breaks the line between two tokens. -/
def breakBetween (near far : Token) : Fix :=
  ⟨[⟨⟨near.span.stop, far.span.start⟩, "\n"⟩], none⟩

/-- The report that the line is to be broken between two tokens. -/
def breakReport (messageId name : String) (near far : Token) : Report :=
  (info.report messageId ⟨near.span.stop, far.span.start⟩ [("name", name)]).withFix (breakBetween near far)

/-- A report that asks for a line break in place of blanks between the tags of an element. -/
def BreaksLine (source : List Char) (element : Element) (report : Report) : Prop :=
  ∃ tag before blanks after, element.endTag = some tag ∧ source = before ++ (blanks ++ after) ∧
    (∀ c ∈ blanks, isAsciiSpace c = true) ∧ report.span = ⟨byteLength before, byteLength before + byteLength blanks⟩ ∧
    report.fix = some ⟨[⟨report.span, "\n"⟩], none⟩ ∧
    element.startTag.span.stop ≤ report.span.start ∧ report.span.stop ≤ tag.start

/-- A report at a place between two tokens that follow each other. -/
def BetweenTokens (document : Document) (report : Report) : Prop :=
  ∃ messageId name near far, Neighbours document.tokens.toList near far ∧ report = breakReport messageId name near far

/-! ## What is reported of an element -/

section Elements

variable {source : List Char} {id other : NodeId} {element element' : Element} {tag : Span} {mark first last closing : Token}

theorem tokens_consecutive (languages : Script.Languages) (source : List Char) :
    Consecutive (File.ofSource languages source).document.tokens.toList :=
  parse_consecutive (languages ⟨Component.usesTypes source, false⟩) source

theorem build?_breakBetween {near far : Token} (h : Neighbours (File.ofSource languages source).document.tokens.toList near far)
    (hstop : far.span.start ≤ byteLength source) :
    ((File.ofSource languages source).draft.replaceBetween near.span.stop far.span.start "\n").build? =
      some (breakBetween near far) := by
  rw [FixDraft.replaceBetween_of_le (h.stop_le_start (tokens_consecutive languages source))]
  exact FixDraft.build?_add_of_le rfl rfl hstop "\n"

/-- Content is reported at its front if it is filled or has to be, and at its back if it is filled. -/
theorem checkContent_eq (settings : Settings)
    (h : Frame (File.ofSource languages source).document element tag mark first last closing)
    (hfile : tag.start ≤ byteLength source) :
    checkContent settings (.ofSource languages source) element ⟨element.startTag.span.stop, tag.start⟩ =
      if element.startTag.span.stop < last.span.stop then
        [breakReport "unexpectedAfterClosingBracket" element.rawName mark first,
         breakReport "unexpectedBeforeClosingBracket" element.rawName last closing]
      else if settings.ignoreWhenEmpty then []
      else [breakReport "unexpectedAfterClosingBracket" element.rawName mark first] := by
  have htokens := tokens_consecutive languages source
  have hfront := h.front.stop_le_start htokens
  have hback := h.back.stop_le_start htokens
  obtain ⟨-, hfirst⟩ := h.front.anchors htokens (Nat.le_refl _) hfront
  obtain ⟨hlast, -⟩ := h.back.anchors htokens hback (Nat.le_refl _)
  obtain ⟨hfirst_le, hlast_le⟩ := h.inside
  have hclosing := h.stop
  have hafter := build?_breakBetween h.front (by omega)
  have hbefore := build?_breakBetween h.back (by omega)
  rw [h.start] at hfirst hafter
  rw [h.stop] at hlast hbefore
  simp only [checkContent, hfirst, hlast, Nat.min_eq_left hfirst_le, Nat.max_eq_left hlast_le, hafter, hbefore, h.filled]
  unfold breakReport
  rw [h.start, h.stop]
  by_cases hfilled : element.startTag.span.stop < last.span.stop
  · simp [hfilled]
  · simp [hfilled]

/-- Nothing is reported of an element, or its content is framed by tokens and reported at one end or at two. -/
theorem check_cases (settings : Settings) (helement : (File.ofSource languages source).document.element? id = some element) :
    check settings (.ofSource languages source) element = [] ∨
      ∃ tag mark first last closing, element.endTag = some tag ∧
        Frame (File.ofSource languages source).document element tag mark first last closing ∧
        (check settings (.ofSource languages source) element =
          [breakReport "unexpectedAfterClosingBracket" element.rawName mark first] ∨
          element.startTag.span.stop < last.span.stop ∧ check settings (.ofSource languages source) element =
            [breakReport "unexpectedAfterClosingBracket" element.rawName mark first,
             breakReport "unexpectedBeforeClosingBracket" element.rawName last closing]) := by
  cases hend : element.endTag with
  | none => exact .inl (by simp [check, hend])
  | some tag =>
    obtain ⟨node, -, -, hfits, hfile⟩ := @exists_fits (languages ⟨Component.usesTypes source, false⟩) source id element helement
    obtain ⟨-, hends, hstop⟩ := hfits.endTag tag hend
    obtain ⟨mark, first, last, closing, hframe⟩ :=
      @exists_frame (languages ⟨Component.usesTypes source, false⟩) source id element tag helement hend
    have hcontent := checkContent_eq settings hframe (by omega)
    unfold check
    simp only [hend, hcontent]
    split
    · exact .inl rfl
    · by_cases hfilled : element.startTag.span.stop < last.span.stop
      · exact .inr ⟨tag, mark, first, last, closing, rfl, hframe, .inr ⟨hfilled, if_pos hfilled⟩⟩
      · rw [if_neg hfilled]
        cases settings.ignoreWhenEmpty with
        | true => exact .inl rfl
        | false => exact .inr ⟨tag, mark, first, last, closing, rfl, hframe, .inl rfl⟩

/-- What is reported of an element is reported at an end of its content. -/
theorem exists_end {settings : Settings} (helement : (File.ofSource languages source).document.element? id = some element)
    {report : Report} (hreport : report ∈ check settings (.ofSource languages source) element) :
    ∃ tag mark first last closing, element.endTag = some tag ∧
      Frame (File.ofSource languages source).document element tag mark first last closing ∧
      (report = breakReport "unexpectedAfterClosingBracket" element.rawName mark first ∨
        report = breakReport "unexpectedBeforeClosingBracket" element.rawName last closing) := by
  rcases check_cases settings helement with hnone | ⟨tag, mark, first, last, closing, hend, hframe, hone | ⟨-, htwo⟩⟩
  · rw [hnone] at hreport
    cases hreport
  · rw [hone] at hreport
    exact ⟨tag, mark, first, last, closing, hend, hframe, .inl (List.mem_singleton.1 hreport)⟩
  · rw [htwo] at hreport
    refine ⟨tag, mark, first, last, closing, hend, hframe, ?_⟩
    simpa using hreport

/-- Between tokens that follow each other, outside start tags and between the tags of an element, there are blanks. -/
theorem BreaksLine.of_neighbours
    {near far : Token} (h : Neighbours (File.ofSource languages source).document.tokens.toList near far)
    (hend : element.endTag = some tag) (hstart : element.startTag.span.stop ≤ near.span.stop) (hstop : far.span.start ≤ tag.start)
    (houtside : ∀ offset, near.span.stop ≤ offset → offset < far.span.start →
      ¬InStartTag (File.ofSource languages source).document.nodes offset) (messageId name : String) :
    BreaksLine source element (breakReport messageId name near far) := by
  obtain ⟨before, blanks, after, hsource, hnear, hfar, hblank⟩ :=
    @Neighbours.blank near far (languages ⟨Component.usesTypes source, false⟩) source h houtside
  refine ⟨tag, before, blanks, after, hend, hsource, hblank, ?_, rfl, hstart, hstop⟩
  rw [← hfar, ← hnear]
  rfl

/-- What is reported of an element asks for line breaks in place of blanks between its tags. -/
theorem breaksLine_of_mem_check
    {settings : Settings} (helement : (File.ofSource languages source).document.element? id = some element)
    {report : Report} (hreport : report ∈ check settings (.ofSource languages source) element) :
    BetweenTokens (File.ofSource languages source).document report ∧ BreaksLine source element report := by
  obtain ⟨tag, mark, first, last, closing, hend, hframe, rfl | rfl⟩ := exists_end helement hreport
  · refine ⟨⟨_, _, mark, first, hframe.front, rfl⟩, .of_neighbours hframe.front hend (Nat.le_of_eq hframe.start.symm)
      hframe.inside.1 (fun offset hfrom hto => ?_) _ _⟩
    exact @Frame.untagged_front (languages ⟨Component.usesTypes source, false⟩) source _ _ _ _ _ _ _ hframe helement _ hfrom hto
  · refine ⟨⟨_, _, last, closing, hframe.back, rfl⟩, .of_neighbours hframe.back hend hframe.inside.2
      (Nat.le_of_eq hframe.stop) (fun offset hfrom hto => ?_) _ _⟩
    exact @Frame.untagged_back (languages ⟨Component.usesTypes source, false⟩) source _ _ _ _ _ _ _
      hframe helement hend _ hfrom hto

/-! ## Different places -/

/-- An element is not reported twice at one place. -/
theorem pairwise_check (settings : Settings) (helement : (File.ofSource languages source).document.element? id = some element) :
    (check settings (.ofSource languages source) element).Pairwise fun a b => a.span.start ≠ b.span.start := by
  rcases check_cases settings helement with hnone | ⟨tag, mark, first, last, closing, -, hframe, hone | ⟨hfilled, htwo⟩⟩
  · rw [hnone]
    exact List.Pairwise.nil
  · rw [hone]
    exact List.pairwise_singleton _ _
  · rw [htwo]
    have hne : mark.span.stop ≠ last.span.stop := by
      rw [hframe.start]
      exact Nat.ne_of_lt hfilled
    exact List.pairwise_pair.2 hne

/-- Two elements are not reported at one place. -/
theorem start_ne_of_mem_check
    {settings : Settings} (helement : (File.ofSource languages source).document.element? id = some element)
    (helement' : (File.ofSource languages source).document.element? other = some element') (hne : id ≠ other) {a b : Report}
    (ha : a ∈ check settings (.ofSource languages source) element)
    (hb : b ∈ check settings (.ofSource languages source) element') :
    a.span.start ≠ b.span.start := by
  obtain ⟨tag, mark, first, last, closing, hend, hframe, hends⟩ := exists_end helement ha
  obtain ⟨tag', mark', first', last', closing', hend', hframe', hends'⟩ := exists_end helement' hb
  obtain ⟨hfronts, hacross, hbacks⟩ := Frame.distinct hframe helement hend hframe' helement' hend' hne
  obtain ⟨-, hacross', -⟩ := Frame.distinct hframe' helement' hend' hframe helement hend hne.symm
  rcases hends with rfl | rfl
  · rcases hends' with rfl | rfl
    · exact hfronts
    · exact hacross
  · rcases hends' with rfl | rfl
    · exact hacross'.symm
    · exact hbacks

theorem mem_reportsAt {settings : Settings} {file : File} {report : Report} :
    report ∈ reportsAt settings file id ↔
      ∃ element, file.document.element? id = some element ∧ report ∈ check settings file element := by
  unfold reportsAt
  cases helement : file.document.element? id with
  | none => simp
  | some element => simp

/-- Of all that is reported of different nodes no two are at one place. -/
theorem pairwise_reportsAt (settings : Settings) {ids : List NodeId} (hids : ids.Nodup) :
    (ids.flatMap (reportsAt settings (.ofSource languages source))).Pairwise fun a b => a.span.start ≠ b.span.start := by
  refine List.pairwise_flatMap.2 ⟨fun id _ => ?_, hids.imp ?_⟩
  · unfold reportsAt
    split
    · next element helement => exact pairwise_check settings helement
    · exact List.Pairwise.nil
  · intro id other hne a ha b hb
    obtain ⟨element, helement, ha⟩ := mem_reportsAt.1 ha
    obtain ⟨element', helement', hb⟩ := mem_reportsAt.1 hb
    exact start_ne_of_mem_check helement helement' hne ha hb

/-- The fixes of reports at different places lie apart. -/
theorem BetweenTokens.apart {a b : Report} (ha : BetweenTokens (File.ofSource languages source).document a)
    (hb : BetweenTokens (File.ofSource languages source).document b) (hne : a.span.start ≠ b.span.start) {fix fix' : Fix}
    (hfix : a.fix = some fix) (hfix' : b.fix = some fix') : fix.Apart fix' := by
  obtain ⟨messageId, name, near, far, hneighbours, rfl⟩ := ha
  obtain ⟨messageId', name', near', far', hneighbours', rfl⟩ := hb
  obtain rfl := Option.some.inj hfix
  obtain rfl := Option.some.inj hfix'
  exact hneighbours.apart hneighbours' (tokens_consecutive languages source) hne

theorem breaksLine_of_mem_reports {settings : Settings} {ids : List NodeId} {report : Report}
    (h : report ∈ ids.flatMap (reportsAt settings (.ofSource languages source))) :
    ∃ element, BetweenTokens (File.ofSource languages source).document report ∧ BreaksLine source element report := by
  obtain ⟨id, -, hmem⟩ := List.mem_flatMap.1 h
  obtain ⟨element, helement, hmem⟩ := mem_reportsAt.1 hmem
  exact ⟨element, breaksLine_of_mem_check helement hmem⟩

/-- Of the fixes that are made for different nodes no two touch. -/
theorem pairwise_fixes (settings : Settings) {ids : List NodeId} (hids : ids.Nodup) :
    ((ids.flatMap (reportsAt settings (.ofSource languages source))).filterMap (·.fix)).Pairwise Fix.Apart := by
  refine List.pairwise_filterMap.2 ((pairwise_reportsAt settings hids).imp_of_mem ?_)
  intro a b ha hb hne fix hfix fix' hfix'
  obtain ⟨-, hplace, -⟩ := breaksLine_of_mem_reports ha
  obtain ⟨-, hplace', -⟩ := breaksLine_of_mem_reports hb
  exact hplace.apart hplace' hne hfix hfix'

theorem BreaksLine.sound {report : Report} (h : BreaksLine source element report) {fix : Fix} (hfix : report.fix = some fix) :
    fix.Sound source ∧ ∀ edit ∈ fix.edits, ∀ c ∈ slice source edit.span ++ edit.replacement.toList, isAsciiSpace c = true := by
  obtain ⟨tag, before, blanks, after, -, hsource, hblank, hspan, hedit, -, -⟩ := h
  obtain rfl := Option.some.inj (hedit.symm.trans hfix)
  have hinText : report.span.InText source := by
    rw [hsource, hspan]
    exact Stands.span ⟨before, after, rfl, rfl⟩
  refine ⟨⟨?_, List.pairwise_singleton _ _⟩, ?_⟩
  · intro edit hmem
    obtain rfl := List.mem_singleton.1 hmem
    exact ⟨hinText.ordered, hinText.start, hinText.stop⟩
  · intro edit hmem c hc
    obtain rfl := List.mem_singleton.1 hmem
    rcases List.mem_append.1 hc with hold | hnew
    · rw [hsource, hspan, slice_append] at hold
      exact hblank c hold
    · have hbreak : c = '\n' := by simpa using hnew
      subst hbreak
      rfl

end Elements

/-! ## The whole run -/

/-- The rule only touches white space. When the walk has ended it has no element in mind that it leaves alone.
It has looked at the elements of the template that are neither left alone nor in one that is, and each of its
reports asks for a line break in place of blanks between the tags of the element it is about. No two fixes
touch, so one pass makes all of them and leaves all characters that are not blank. -/
theorem lintFile_contentBreaks {options : List Json}
    {checks : Checks} (h : rule.checks? patterns options = some checks) (level : Level)
    (source : List Char) :
    ∃ settings, Settings.ofOptions? options = some settings ∧
      let file := File.ofSource languages source
      let active : ActiveRule := ⟨info, level, checks⟩
      let result := lintFile [active] file
      let fixed := Fix.applyAll source result.fixes
      (runOver file [active]).rules = [⟨active, {}⟩] ∧
      (∃ ids : List NodeId, ids.Nodup ∧
        (∀ id element, file.document.element? id = some element →
          (id ∈ ids ↔ file.InTemplate id ∧ ¬LeftAlone settings file id)) ∧
        result.diagnostics.Perm ((ids.flatMap (reportsAt settings file)).map active.issue) ∧
        ∀ id ∈ ids, ∀ report ∈ reportsAt settings file id, ∃ element,
          file.document.element? id = some element ∧ BreaksLine source element report) ∧
      result.fixes.Pairwise Fix.Apart ∧
      fixed.applied = result.diagnostics.length ∧ fixed.remaining = 0 ∧
      fixed.output.filter (!isAsciiSpace ·) = source.filter (!isAsciiSpace ·) := by
  obtain ⟨settings, hsettings, rfl⟩ := Option.map_eq_some_iff.1 h
  refine ⟨settings, hsettings, ?_⟩
  intro file active result fixed
  have hactive : active = ruleWith settings level := rfl
  obtain ⟨hrules, hdiagnostics⟩ := runOver_ruleWith settings level source
  rw [← hactive] at hrules hdiagnostics
  let ids := looked settings file
  let reports := ids.flatMap (reportsAt settings file)
  have hperm : result.diagnostics.Perm (reports.map active.issue) := hdiagnostics ▸ List.mergeSort_perm _ _
  have hfixes : result.fixes.Perm (reports.filterMap (·.fix)) := by
    have hmapped := hperm.filterMap (·.report.fix)
    rwa [List.filterMap_map] at hmapped
  have hapart : result.fixes.Pairwise Fix.Apart :=
    (hfixes.pairwise_iff Fix.Apart.symm).2 (pairwise_fixes settings (nodup_looked settings source))
  have hsound : ∀ fix ∈ result.fixes, fix.Sound source ∧
      ∀ edit ∈ fix.edits, ∀ c ∈ slice source edit.span ++ edit.replacement.toList, isAsciiSpace c = true := by
    intro fix hmem
    obtain ⟨report, hreport, hfix⟩ := List.mem_filterMap.1 (hfixes.mem_iff.1 hmem)
    obtain ⟨element, -, hbreaks⟩ := breaksLine_of_mem_reports hreport
    exact hbreaks.sound hfix
  obtain ⟨happlied, hremaining, hspliced⟩ := Fix.applyAll_of_apart (fun fix hfix => (hsound fix hfix).1) hapart
  refine ⟨hrules, ⟨ids, nodup_looked settings source, fun id element helement => mem_looked settings source helement, hperm, ?_⟩,
    hapart, happlied.trans ?_, hremaining, ?_⟩
  · intro id _ report hreport
    obtain ⟨element, helement, hmem⟩ := mem_reportsAt.1 hreport
    exact ⟨element, helement, (breaksLine_of_mem_check helement hmem).2⟩
  · have hlength := hperm.length_eq
    rw [List.length_map] at hlength
    rw [hfixes.length_eq, hlength, List.filterMap_length_eq_length]
    intro report hreport
    obtain ⟨element, -, tag, before, blanks, after, -, -, -, -, hfix, -⟩ := breaksLine_of_mem_reports hreport
    simp [hfix]
  · have hnone : byteLength [] = 0 := rfl
    refine hspliced.filter_eq hnone fun edit hedit c hc => ?_
    obtain ⟨fix, hfix, hedit⟩ := List.mem_flatMap.1 hedit
    have hblank := (hsound fix (List.mem_mergeSort.1 hfix)).2 edit hedit c hc
    simp [hblank]

/-- An element that is reported, with another one that is and one that is left alone. -/
def nestedContent : List Char :=
  "<template><div id=a>b<p id=c> d\t</p><pre id=e><p id=f>g</p></pre></div></template>".toList

/-- Both ends of the content of two elements are broken in one pass, and the element that is left alone is forgotten. -/
theorem lintFile_contentBreaks_nestedContent :
    ∃ checks, rule.checks? Regex.engine [] = some checks ∧
      (runOver (.ofSource Script.Dialect.language nestedContent) [⟨info, .warning, checks⟩]).rules =
        [⟨⟨info, .warning, checks⟩, {}⟩] ∧
      let result := lintFile [⟨info, .warning, checks⟩] (.ofSource Script.Dialect.language nestedContent)
      result.fixes.Pairwise Fix.Apart ∧ (Fix.applyAll nestedContent result.fixes).applied = 4 ∧
        (Fix.applyAll nestedContent result.fixes).remaining = 0 := by
  have hchecks : rule.checks? Regex.engine [] = some (ruleWith ⟨true, true, ignoredElements⟩ .warning).checks := rfl
  obtain ⟨-, -, hrules, -, hapart, happlied, hremaining, -⟩ := lintFile_contentBreaks hchecks .warning nestedContent
  refine ⟨_, hchecks, hrules, hapart, happlied.trans ?_, hremaining⟩
  rw [lintFile, List.length_mergeSort]
  decide +kernel

end ComponentLint.Rules.ContentBreaks
