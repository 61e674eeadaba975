import ComponentLint.Proofs.Fix.Drafting
import ComponentLint.Proofs.Fix.Splice
import ComponentLint.Proofs.Lint.Walk
import ComponentLint.Proofs.Script.Tokens
import ComponentLint.Proofs.Text.NamingStyles
import ComponentLint.Rules.EventCasing

/-!
# New names for events

A suggestion puts the literal that names an event into the style, between the quotes that it had, and a text of the new name is
read there. The rule is then silent on the new name in camel case, and in kebab case if the separators of the event were apart or
the new name is left alone (`lintFile_suggestions`). Other names are suggested in kebab case as well, and are reported again
(`not_silent_leadingLine`).
-/

namespace ComponentLint.Rules.EventCasing

open Text Markup

variable {languages : Script.Languages} {patterns : PatternEngine}

/-- The name that is suggested for an event: its mark stays, and the event is put into the style. -/
def renamed (settings : Settings) (name : String) : List Char :=
  (splitName name).1 ++ settings.case.convert (splitName name).2

/-- Whether the rule has nothing to say of an event of a name, wherever it is emitted. -/
def Silent (patterns : PatternEngine) (settings : Settings) (name : String) : Prop :=
  ∀ file span, checkName patterns settings file ⟨name, span⟩ = []

/-- A literal of a text, in whichever quotes, makes way for another one, which is read where it stood. -/
def Requoted (source : List Char) (span : Span) (name output : List Char) : Prop :=
  ∃ before quote literal after, source = before ++ (quote :: literal ++ after) ∧
    span = ⟨byteLength before, byteLength before + byteLength (quote :: literal)⟩ ∧
    output = before ++ (quote :: (name ++ quote :: after)) ∧
    Script.readToken ⟨byteLength before, quote :: (name ++ quote :: after)⟩ =
      (.string (String.ofList name), ⟨byteLength before + 2 + byteLength name, after⟩)

/-! ## Names -/

section Names

variable {settings : Settings} {name : String}

theorem splitName_mark (event : List Char) : splitName (String.ofList (updateMark ++ event)) = (updateMark, event) := by
  simp [splitName]

/-- A name without a colon has no mark. -/
theorem splitName_plain {event : List Char} (h : ':' ∉ event) : splitName (String.ofList event) = ([], event) := by
  have hmark : updateMark.isPrefixOf event = false := by
    rw [← Bool.not_eq_true, List.isPrefixOf_iff_prefix]
    exact fun hstarts => h (hstarts.subset (by decide))
  simp [splitName, hmark]

/-- What is left of an event in a style. -/
theorem isNameChar_convert {event : List Char} (h : ∀ c ∈ event, isNameChar c = true) (case : EventCase) :
    ∀ c ∈ case.convert event, isNameChar c = true := by
  intro c hc
  cases case with
  | camel => exact Bool.or_eq_true_iff.2 (.inl (isAlphanum_of_mem_toCamelCase h c hc))
  | kebab => exact (of_mem_toKebabCase h c hc).1

/-- A new name has the mark of the old one. -/
theorem splitName_renamed (h : ∀ c ∈ (splitName name).2, isNameChar c = true) :
    splitName (String.ofList (renamed settings name)) = ((splitName name).1, settings.case.convert (splitName name).2) := by
  have hmark : (splitName name).1 = updateMark ∨ (splitName name).1 = [] := by
    unfold splitName
    split
    · exact .inl rfl
    · exact .inr rfl
  rcases hmark with hmark | hmark
  · rw [renamed, hmark, splitName_mark]
  · rw [renamed, hmark]
    refine splitName_plain fun hcolon => ?_
    have hchar := isNameChar_convert h settings.case _ hcolon
    cases hchar

/-- Which events come out in their style. -/
theorem accepts_convert_iff {event : List Char} (h : ∀ c ∈ event, isNameChar c = true) (case : EventCase) :
    case.accepts (case.convert event) = true ↔ case = .camel ∨ WellSeparated event := by
  cases case with
  | camel => simpa [EventCase.accepts, EventCase.convert] using isCamelCase_toCamelCase h
  | kebab => simpa [EventCase.accepts, EventCase.convert] using isKebabCase_toKebabCase h

theorem silent_iff : Silent patterns settings name ↔
    settings.case.accepts (splitName name).2 = true ∨ patterns.matchesAny settings.ignores name = true := by
  have hnil : settings.case.accepts [] = true := by cases settings.case <;> rfl
  constructor
  · intro h
    have hnone := h (.ofSource Script.Dialect.language []) ⟨0, 0⟩
    by_contra hreported
    rw [not_or] at hreported
    have hevent : (splitName name).2.isEmpty = false := by
      refine Bool.eq_false_iff.2 fun hempty => hreported.1 ?_
      rw [List.isEmpty_iff.1 hempty, hnil]
    rw [checkName] at hnone
    simp only [hevent, Bool.eq_false_iff.2 hreported.1, Bool.eq_false_iff.2 hreported.2] at hnone
    split at hnone
    · next hsome => cases hsome
    · split at hnone <;> cases hnone
  · intro h file span
    rw [checkName]
    refine if_pos ?_
    rw [Bool.or_assoc, Bool.or_eq_true, Bool.or_eq_true]
    exact .inr h

/-- The rule is silent on the new name of an event in camel case, and in kebab case if the separators of the event are apart or
the new name is left alone. -/
theorem silent_renamed_iff (h : ∀ c ∈ (splitName name).2, isNameChar c = true) :
    Silent patterns settings (String.ofList (renamed settings name)) ↔ settings.case = .camel ∨ WellSeparated (splitName name).2 ∨
      patterns.matchesAny settings.ignores (String.ofList (renamed settings name)) = true := by
  rw [silent_iff, splitName_renamed h, accepts_convert_iff h, or_assoc]

end Names

/-! ## Suggestions -/

section Suggestions

variable {settings : Settings} {file : File} {emitted : Name}

/-- A suggestion of the rule is the fix that writes the new name. -/
theorem of_mem_suggestions {report : Report} (hreport : report ∈ checkName patterns settings file emitted)
    {suggestion : Suggestion}
    (hsuggestion : suggestion ∈ report.suggestions) : report.span = emitted.span ∧
      renameFix file emitted (String.ofList (renamed settings emitted.text)) = some suggestion.fix := by
  rw [checkName] at hreport
  dsimp only at hreport
  split at hreport
  · cases hreport
  · split at hreport
    · rw [List.mem_singleton.1 hreport] at hsuggestion
      cases hsuggestion
    · rw [List.mem_singleton.1 hreport] at hsuggestion ⊢
      unfold Report.withSuggestion at hsuggestion ⊢
      split at hsuggestion
      · next fix hfix =>
        obtain rfl : suggestion = ⟨_, fix⟩ := by simpa [RuleInfo.report] using hsuggestion
        exact ⟨rfl, hfix⟩
      · cases hsuggestion

/-- A new name holds nothing that would have to be escaped between quotes. -/
theorem isPlainIn_of_mem_renamed {quote : Char} (hquote : quote = '\'' ∨ quote = '"') {name : String}
    (h : ∀ c ∈ (splitName name).2, isNameChar c = true) : ∀ c ∈ renamed settings name, Script.isPlainIn quote c = true := by
  have hchars : ∀ c, isNameChar c = true → Script.isPlainIn quote c = true := by
    intro c hc
    refine ascii_forall (P := fun c => isNameChar c = true → Script.isPlainIn quote c = true) ?_ (isAscii_of_isNameChar hc) hc
    rcases hquote with rfl | rfl <;> decide +kernel
  have hmark : ∀ c ∈ updateMark, Script.isPlainIn quote c = true := by
    rcases hquote with rfl | rfl <;> exact List.all_eq_true.1 rfl
  refine List.forall_mem_append.2 ⟨fun c hc => ?_, fun c hc => hchars c (isNameChar_convert h settings.case c hc)⟩
  unfold splitName at hc
  split at hc
  · exact hmark c hc
  · cases hc

/-- The fix replaces a literal by another one in the same quotes. -/
theorem requoted_of_renameFix {source name : List Char} {fix : Fix}
    (h : renameFix (.ofSource languages source) emitted (String.ofList name) = some fix) {quote : Char}
    (hquote : quote = '\'' ∨ quote = '"') (hname : ∀ c ∈ name, Script.isPlainIn quote c = true) {literal : List Char}
    (hliteral : slice? source emitted.span = some (quote :: literal)) :
    Requoted source emitted.span name (Fix.applyAll source [fix]).output := by
  have htext : (File.ofSource languages source).text emitted.span = quote :: literal := by
    change slice source emitted.span = _
    rw [slice, hliteral, Option.getD_some]
  obtain ⟨⟨before, after, hsource, hstart⟩, hstop⟩ := slice?_eq_some_iff.1 hliteral
  have hspan : emitted.span = ⟨byteLength before, byteLength before + byteLength (quote :: literal)⟩ := by
    rw [hstart, ← hstop]
  unfold renameFix at h
  rw [htext, List.headD_cons] at h
  obtain rfl := FixDraft.build?_add rfl h
  refine ⟨before, quote, literal, after, hsource, hspan, ?_, Script.readToken_text hquote hname after _⟩
  rw [hspan, hsource, Fix.applyAll_single]
  simp

end Suggestions

/-! ## The whole run -/

/-- The names of the events that a file emits and writes out, in the template and then in the scripts. -/
def emittedNames (file : File) : List Name :=
  let namesIn := Script.Node.gatherEverywhere (emittedName file.scopes (.ofFile file))
  (file.entered.flatMap fun id => (file.document.node? id).elim [] fun node => namesIn node.fragments) ++
    namesIn (file.component.scripts.flatMap (·.statements))

/-- The checks that settings ask for. -/
def checksFor (patterns : PatternEngine) (settings : Settings) : Checks where
  watches := Watch.fragments fun file _ fragments => check patterns settings file fragments
  scripts := fun file => .reporting (check patterns settings file (file.component.scripts.flatMap (·.statements)))

/-- The rule issues what it has to say of the names of the emitted events. -/
theorem diagnostics_eq {settings : Settings} {rule : ActiveRule} (h : rule.checks = checksFor patterns settings) (file : File) :
    (runOver file [rule]).diagnostics.toList =
      ((emittedNames file).flatMap (checkName patterns settings file)).map rule.issue := by
  have hreported : ∀ id, reportedIn (fun file _ fragments => check patterns settings file fragments) file id =
      ((file.document.node? id).elim [] fun node =>
        Script.Node.gatherEverywhere (emittedName file.scopes (.ofFile file)) node.fragments).flatMap
          (checkName patterns settings file) := by
    intro id
    unfold reportedIn
    cases file.document.node? id <;> rfl
  rw [diagnostics_fragments h fun _ => rfl, funext hreported, emittedNames, List.flatMap_append, List.flatMap_assoc]
  rfl

/-- Every suggestion is about the name of an event that is emitted. For a name of letters, digits and separators, with or without
the mark of an update, the rule is silent on the new name in camel case, and in kebab case if and only if the separators of the
event were apart or the new name is left alone; and the fix puts a literal of the new name in the place of the old one, if that is
in quotes. -/
theorem lintFile_suggestions {options : List Json}
    {checks : Checks} (h : rule.checks? patterns options = some checks) (level : Level)
    {source : List Char} {diagnostic : Diagnostic}
    (hdiagnostic : diagnostic ∈ (lintFile [⟨info, level, checks⟩] (.ofSource languages source)).diagnostics)
    {suggestion : Suggestion}
    (hsuggestion : suggestion ∈ diagnostic.report.suggestions) :
    ∃ settings emitted, Settings.ofOptions? options = some settings ∧ emitted ∈ emittedNames (.ofSource languages source) ∧
      diagnostic.report.span = emitted.span ∧ ((∀ c ∈ (splitName emitted.text).2, isNameChar c = true) →
        (Silent patterns settings (String.ofList (renamed settings emitted.text)) ↔ settings.case = .camel ∨
          WellSeparated (splitName emitted.text).2 ∨
            patterns.matchesAny settings.ignores (String.ofList (renamed settings emitted.text)) = true) ∧
        ∀ quote literal, quote = '\'' ∨ quote = '"' → slice? source emitted.span = some (quote :: literal) →
          Requoted source emitted.span (renamed settings emitted.text) (Fix.applyAll source [suggestion.fix]).output) := by
  obtain ⟨settings, hsettings, hmade⟩ := Option.map_eq_some_iff.1 h
  have hissued := List.mem_mergeSort.1 hdiagnostic
  have hchecks : (⟨info, level, checks⟩ : ActiveRule).checks = checksFor patterns settings := hmade.symm
  rw [diagnostics_eq hchecks] at hissued
  obtain ⟨report, hreport, rfl⟩ := List.mem_map.1 hissued
  obtain ⟨emitted, hemitted, hreport⟩ := List.mem_flatMap.1 hreport
  obtain ⟨hspan, hfix⟩ := of_mem_suggestions hreport hsuggestion
  refine ⟨settings, emitted, hsettings, hemitted, hspan, fun hname => ⟨silent_renamed_iff hname, ?_⟩⟩
  exact fun quote literal hquote hliteral =>
    requoted_of_renameFix hfix hquote (isPlainIn_of_mem_renamed hquote hname) hliteral

/-- Kebab case for all events. -/
def kebabCase : List Json :=
  [.str "kebab-case"]

/-- An update of a model whose name is in camel case. -/
def raisedUpdate : List Char :=
  "<template><p @click=\"$emit('update:rowHeight')\"></p></template>".toList

/-- The mark of the update is kept, the rule is silent on the new name, and it is read in the place of the old one. -/
theorem lintFile_suggestions_raisedUpdate : ∃ checks diagnostic suggestion settings,
    rule.checks? Regex.engine kebabCase = some checks ∧
    diagnostic ∈ (lintFile [⟨info, .error, checks⟩] (.ofSource Script.Dialect.language raisedUpdate)).diagnostics ∧
    suggestion ∈ diagnostic.report.suggestions ∧ Settings.ofOptions? kebabCase = some settings ∧
    Silent Regex.engine settings "update:row-height" ∧
    Requoted raisedUpdate ⟨27, 45⟩ "update:row-height".toList (Fix.applyAll raisedUpdate [suggestion.fix]).output := by
  have hchecks : rule.checks? Regex.engine kebabCase = some (checksFor Regex.engine ⟨.kebab, []⟩) := rfl
  have hholds : (lintFile [⟨info, .error, checksFor Regex.engine ⟨.kebab, []⟩⟩]
    (.ofSource Script.Dialect.language raisedUpdate)).diagnostics.any
      fun diagnostic => !diagnostic.report.suggestions.isEmpty := by
    decide +kernel
  obtain ⟨diagnostic, hdiagnostic, hsome⟩ := List.any_eq_true.1 hholds
  obtain ⟨suggestion, hsuggestion⟩ : ∃ suggestion, suggestion ∈ diagnostic.report.suggestions :=
    List.exists_mem_of_ne_nil _ fun hnil => by simp [hnil] at hsome
  obtain ⟨settings, emitted, hsettings, hemitted, -, hrest⟩ := lintFile_suggestions hchecks .error hdiagnostic hsuggestion
  have hnames : emittedNames (.ofSource Script.Dialect.language raisedUpdate) =
    [⟨"update:rowHeight", ⟨27, 45⟩⟩] := by decide +kernel
  rw [hnames, List.mem_singleton] at hemitted
  subst hemitted
  obtain rfl : ⟨.kebab, []⟩ = settings := Option.some.inj hsettings
  obtain ⟨hsilent, hrequoted⟩ := hrest (List.all_eq_true.1 rfl)
  refine ⟨_, diagnostic, suggestion, _, hchecks, hdiagnostic, hsuggestion, hsettings, hsilent.2 (.inr (.inl ?_)), ?_⟩
  · decide +kernel
  · exact hrequoted '\'' "update:rowHeight'".toList (.inl rfl) (by decide +kernel)

/-- An event whose name starts with a low line. -/
def leadingLine : List Char :=
  "<template><p @click=\"$emit('_foo')\"></p></template>".toList

/-- In kebab case the name `-foo` is suggested, which is reported again. -/
theorem not_silent_leadingLine : ∃ checks diagnostic suggestion, rule.checks? Regex.engine kebabCase = some checks ∧
    emittedNames (.ofSource Script.Dialect.language leadingLine) = [⟨"_foo", ⟨27, 33⟩⟩] ∧
    (lintFile [⟨info, .error, checks⟩] (.ofSource Script.Dialect.language leadingLine)).diagnostics = [diagnostic] ∧
    diagnostic.report.suggestions = [suggestion] ∧
    (Fix.applyAll leadingLine [suggestion.fix]).output = "<template><p @click=\"$emit('-foo')\"></p></template>".toList ∧
    (lintFile [⟨info, .error, checks⟩] (.ofSource Script.Dialect.language
      (Fix.applyAll leadingLine [suggestion.fix]).output)).diagnostics.map
      (·.report.span) = [⟨27, 33⟩] := by
  have hone : (lintFile [⟨info, .error, checksFor Regex.engine ⟨.kebab, []⟩⟩]
      (.ofSource Script.Dialect.language leadingLine)).diagnostics.length = 1 := by
    decide +kernel
  have hall : (lintFile [⟨info, .error, checksFor Regex.engine ⟨.kebab, []⟩⟩]
    (.ofSource Script.Dialect.language leadingLine)).diagnostics.all (fun diagnostic =>
      diagnostic.report.suggestions.length == 1 && diagnostic.report.suggestions.all fun suggestion =>
        (Fix.applyAll leadingLine [suggestion.fix]).output == "<template><p @click=\"$emit('-foo')\"></p></template>".toList &&
          (lintFile [⟨info, .error, checksFor Regex.engine ⟨.kebab, []⟩⟩]
            (.ofSource Script.Dialect.language (Fix.applyAll leadingLine [suggestion.fix]).output)).diagnostics.map
              (·.report.span) == [⟨27, 33⟩]) = true := by
    decide +kernel
  obtain ⟨diagnostic, hdiagnostic⟩ := List.length_eq_one_iff.1 hone
  rw [hdiagnostic, List.all_cons, List.all_nil, Bool.and_true, Bool.and_eq_true, beq_iff_eq] at hall
  obtain ⟨suggestion, hsuggestion⟩ := List.length_eq_one_iff.1 hall.1
  have hfixed := hall.2
  rw [hsuggestion, List.all_cons, List.all_nil, Bool.and_true, Bool.and_eq_true, beq_iff_eq, beq_iff_eq] at hfixed
  exact ⟨_, diagnostic, suggestion, rfl, by decide +kernel, hdiagnostic, hsuggestion, hfixed⟩

end ComponentLint.Rules.EventCasing
