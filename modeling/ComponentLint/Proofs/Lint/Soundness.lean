import ComponentLint.Proofs.Fix.Drafting
import ComponentLint.Proofs.Lint.Independence
import ComponentLint.Proofs.Markup.Positions
import ComponentLint.Proofs.Scope.Spans

/-!
# Sound reports

A report is sound when its fixes come from drafts for the file and, if the scripts of the file lie in its text, all its
spans are spans of the text. A rule is sound when every report it makes about a file is. One rule at a time is then enough:
a run of sound rules issues sound reports only (`runOver_sound`).
-/

namespace ComponentLint

open Text Markup

variable {languages : Script.Languages} {language : Script.Language} {patterns : PatternEngine}

/-- A file that is made of a text: its tree is written in it, its length and lines are those of the text, and the names
in its scripts stand in the text if the scripts do. -/
structure File.Written (language : Script.Language) (file : File) : Prop where
  document : file.document.Written language
  length : file.length = byteLength file.document.source
  lines : file.lines = .ofText file.document.source
  scopes : file.component.ScriptsLie → file.scopes.Spanned file.document.source

theorem File.ofSource_written (source : List Char) : (File.ofSource languages source).Written
    (languages ⟨Component.usesTypes source, false⟩) :=
  ⟨parse_written _ source, rfl, rfl, ScopeTable.spanned_ofComponent⟩

theorem File.Written.draft {file : File} (h : file.Written language) :
    file.draft.For file.document.source file.component.ScriptsLie := by
  rw [File.draft, h.length]
  exact .ofLength _ _

/-- A report whose fixes are built from drafts for a file, with spans of its text if the scripts lie in the text. -/
structure Report.Sound (file : File) (report : Report) : Prop where
  span : file.component.ScriptsLie → report.span.InText file.document.source
  labels : file.component.ScriptsLie → ∀ label ∈ report.labels, label.span.InText file.document.source
  fix : ∀ fix, report.fix = some fix → fix.Drafted file.document.source file.component.ScriptsLie
  suggestions : ∀ suggestion ∈ report.suggestions, suggestion.fix.Drafted file.document.source file.component.ScriptsLie

namespace Report.Sound

variable {file : File} {report : Report}

theorem ofInfo (info : RuleInfo) (id : String) {span : Span}
    (hspan : file.component.ScriptsLie → span.InText file.document.source) (data : List (String × String)) :
    (info.report id span data).Sound file :=
  ⟨hspan, nofun, nofun, nofun⟩

theorem withFix (h : report.Sound file) {fix : Option Fix}
    (hfix : ∀ found, fix = some found → found.Drafted file.document.source file.component.ScriptsLie) :
    (report.withFix fix).Sound file :=
  ⟨h.span, h.labels, hfix, h.suggestions⟩

/-- A report with the fix of a draft. -/
theorem withDraft (h : report.Sound file) {draft : FixDraft}
    (hdraft : draft.For file.document.source file.component.ScriptsLie) : (report.withFix draft.build?).Sound file :=
  h.withFix fun _ hfix => hdraft.build? hfix

theorem withSuggestion (h : report.Sound file) (message : String) {fix : Option Fix}
    (hfix : ∀ found, fix = some found → found.Drafted file.document.source file.component.ScriptsLie) :
    (report.withSuggestion message fix).Sound file := by
  cases fix with
  | none => exact h
  | some found =>
    refine ⟨h.span, h.labels, h.fix, fun suggestion hsuggestion => ?_⟩
    rcases List.mem_append.1 hsuggestion with hold | hnew
    · exact h.suggestions suggestion hold
    · rw [List.mem_singleton.1 hnew]
      exact hfix found rfl

theorem withLabel (h : report.Sound file) {span : Span}
    (hspan : file.component.ScriptsLie → span.InText file.document.source) (text : String) :
    (report.withLabel span text).Sound file := by
  refine ⟨h.span, fun htrusted label hlabel => ?_, h.fix, h.suggestions⟩
  rcases List.mem_append.1 hlabel with hold | hnew
  · exact h.labels htrusted label hold
  · rw [List.mem_singleton.1 hnew]
    exact hspan htrusted

theorem withHelp (h : report.Sound file) (help : String) : (report.withHelp help).Sound file :=
  ⟨h.span, h.labels, h.fix, h.suggestions⟩

end Report.Sound

/-! ## Rules -/

/-- A call that makes sound reports about a file. -/
def Callback.Sound (file : File) (callback : Callback) : Prop :=
  ∀ memory, ∀ report ∈ (callback.run memory).2, report.Sound file

theorem Callback.reporting_sound {file : File} {reports : List Report} (h : ∀ report ∈ reports, report.Sound file) :
    (Callback.reporting reports).Sound file :=
  fun _ => h

/-- A watch that is called for nodes of a file with sound reports. -/
def Watch.Sound (file : File) (watch : Watch) : Prop :=
  ∀ selection, (watch.react file selection).Sound file

/-- Checks that make sound reports about a file. -/
structure Checks.Sound (file : File) (checks : Checks) : Prop where
  watches : ∀ watch ∈ checks.watches, watch.Sound file
  scripts : (checks.scripts file).Sound file
  closing : (checks.closing file).Sound file

/-- A rule that makes sound reports about every file that is made of a text, whatever its options are. -/
def Rule.Sound (rule : Rule) : Prop :=
  ∀ patterns options checks, rule.checks? patterns options = some checks →
    ∀ language file, File.Written language file → checks.Sound file

namespace Checks.Sound

variable {file : File}

theorem none_reporting : (Callback.reporting []).Sound file :=
  Callback.reporting_sound (by simp)

/-- A rule that only watches the template. -/
theorem watching {watches : List Watch} (h : ∀ watch ∈ watches, watch.Sound file) : Checks.Sound file { watches := watches } :=
  ⟨h, none_reporting, none_reporting⟩

theorem watchingOne {watch : Watch} (h : watch.Sound file) : Checks.Sound file { watches := [watch] } :=
  watching (by simpa using h)

end Checks.Sound

namespace Watch

variable {file : File}

theorem elements_sound {report : File → NodeId → Element → List Report}
    (h : ∀ id element, file.document.element? id = some element → ∀ found ∈ report file id element, found.Sound file) :
    (elements report).Sound file := by
  intro selection
  simp only [elements]
  split
  · next element helement => exact Callback.reporting_sound (h selection.node element helement)
  · exact Checks.Sound.none_reporting

theorem elementsWith_sound (directive : String) {report : File → NodeId → Element → List Report}
    (h : ∀ id element, file.document.element? id = some element → ∀ found ∈ report file id element, found.Sound file) :
    (elementsWith directive report).Sound file :=
  elements_sound h

theorem directives_sound (pattern : DirectivePattern) {report : File → NodeId → Attribute → DirectiveKey → List Report}
    (h : ∀ id element attr key, file.document.element? id = some element → attr ∈ element.attributes →
      attr.directive? = some key → ∀ found ∈ report file id attr key, found.Sound file) :
    (directives pattern report).Sound file := by
  intro selection
  simp only [directives]
  split
  · next attr hattr =>
    split
    · next key hkey =>
      unfold Selection.attribute? at hattr
      obtain ⟨element, helement, hattr⟩ := Option.bind_eq_some_iff.1 hattr
      obtain ⟨index, _, hattr⟩ := Option.bind_eq_some_iff.1 hattr
      exact Callback.reporting_sound (h selection.node element attr key helement (List.mem_of_getElem? hattr) hkey)
    · exact Checks.Sound.none_reporting
  · exact Checks.Sound.none_reporting

theorem interpolations_sound {report : File → NodeId → Interpolation → List Report}
    (h : ∀ id node content, file.document.node? id = some node → node.kind = .interpolation content →
      ∀ found ∈ report file id content, found.Sound file) : (interpolations report).Sound file := by
  intro selection
  simp only [interpolations]
  split
  · next node hnode => exact Callback.reporting_sound (h selection.node _ _ hnode rfl)
  · exact Checks.Sound.none_reporting

/-- The pieces of script of a node of the template lie in the text if all scripts do. -/
theorem fragments_sound {report : File → NodeId → List Script.Node → List Report}
    (h : ∀ id fragments, (file.component.ScriptsLie → ∀ fragment ∈ fragments, fragment.LiesIn file.document.source) →
      ∀ found ∈ report file id fragments, found.Sound file) : ∀ watch ∈ fragments report, watch.Sound file := by
  have hreact : ∀ (selection : Selection) node, file.document.node? selection.node = some node →
      ∀ found ∈ report file selection.node node.fragments, found.Sound file := by
    intro selection node hnode
    refine h selection.node node.fragments fun hlie fragment hfragment => ?_
    unfold Node.fragments at hfragment
    split at hfragment
    · next element hkind =>
      obtain ⟨value, hvalue, hfragment⟩ := List.mem_flatMap.1 hfragment
      obtain ⟨attr, hattr, hmeaning⟩ := List.mem_filterMap.1 hvalue
      have helement : file.document.element? selection.node = some element :=
        Document.element?_eq_some_iff.2 ⟨node, hnode, hkind⟩
      have hlies := hlie.values selection.node element helement attr hattr value hmeaning
      unfold DirectiveValue.fragments at hfragment
      split at hfragment
      · exact List.mem_singleton.1 hfragment ▸ hlies
      · exact List.mem_singleton.1 hfragment ▸ hlies.2
      · exact hlies fragment hfragment
      · cases hfragment
      · cases hfragment
    · next content hkind =>
      exact hlie.interpolations selection.node node content fragment hnode hkind (Option.mem_toList.1 hfragment)
    · cases hfragment
  intro watch hwatch selection
  simp only [fragments, List.mem_cons, List.not_mem_nil, or_false] at hwatch
  rcases hwatch with rfl | rfl
  all_goals
    dsimp only
    split
    · next node hnode => exact Callback.reporting_sound (hreact selection node hnode)
    · exact Checks.Sound.none_reporting

end Watch

/-! ## Runs -/

/-- A diagnostic of a run is sound if the checks of all rules are. -/
theorem lintFile_sound {file : File} {rules : List ActiveRule} (hrules : ∀ rule ∈ rules, rule.checks.Sound file) :
    ∀ diagnostic ∈ (lintFile rules file).diagnostics, diagnostic.report.Sound file := by
  intro diagnostic hd
  obtain ⟨rule, hrule, ⟨callback, memory, hcallback, hreport⟩, -⟩ := (runOver_issued file rules).issued diagnostic
    (Array.mem_toList_iff.1 (List.mem_mergeSort.1 hd))
  have hsound := hrules rule hrule
  suffices hcall : callback.Sound file from hcall memory _ hreport
  rcases hcallback with ⟨visit, _, hcall⟩ | hlast
  · obtain ⟨watch, hwatch, hcall⟩ := List.mem_flatMap.1 hcall
    split at hcall
    · obtain ⟨selection, _, rfl⟩ := List.mem_map.1 hcall
      exact hsound.watches watch hwatch selection
    · cases hcall
  · simp only [ActiveRule.lastCalls, List.mem_cons, List.not_mem_nil, or_false] at hlast
    rcases hlast with rfl | rfl
    · exact hsound.scripts
    · exact hsound.closing

theorem of_mem_mapM {α β ε : Type} {f : α → Except ε β} {items : List α} {found : List β}
    (h : items.mapM f = .ok found) {result : β} (hresult : result ∈ found) : ∃ item ∈ items, f item = .ok result := by
  induction items generalizing found with
  | nil =>
    obtain rfl := Except.ok.inj h
    cases hresult
  | cons item items ih =>
    rw [List.mapM_cons] at h
    cases hfirst : f item with
    | error => simp [hfirst, bind, Except.bind] at h
    | ok first =>
      cases hrest : items.mapM f with
      | error => simp [hfirst, hrest, bind, Except.bind] at h
      | ok rest =>
        rw [hfirst, hrest] at h
        obtain rfl := Except.ok.inj h
        rcases List.mem_cons.1 hresult with rfl | hresult
        · exact ⟨item, List.mem_cons_self, hfirst⟩
        · obtain ⟨other, hother, heq⟩ := ih hrest hresult
          exact ⟨other, List.mem_cons_of_mem _ hother, heq⟩

/-- A rule that is turned on comes from the catalog, with checks that its options ask for. -/
theorem Config.of_mem_activeRules {config : Config} {rules : List ActiveRule} (h : config.activeRules patterns = .ok rules)
    {active : ActiveRule} (hactive : active ∈ rules) :
    ∃ rule ∈ Rule.all, ∃ options, rule.checks? patterns options = some active.checks := by
  unfold Config.activeRules at h
  cases hfound : config.rules.mapM (Config.activate patterns) with
  | error => simp [hfound, Except.map] at h
  | ok found =>
    rw [hfound] at h
    obtain rfl := Except.ok.inj h
    obtain ⟨entry, hentry, rfl⟩ := List.mem_filterMap.1 hactive
    obtain ⟨⟨name, setting⟩, -, hactivate⟩ := of_mem_mapM hfound hentry
    unfold Config.activate at hactivate
    split at hactivate
    · cases hactivate
    · split at hactivate
      · cases hactivate
      · next rule hrule =>
        split at hactivate
        · cases hactivate
        · next checks hchecks =>
          cases hactivate
          exact ⟨rule, List.mem_of_find?_eq_some hrule, _, hchecks⟩

end ComponentLint
