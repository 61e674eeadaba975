import ComponentLint.Proofs.Lint.ScriptRules

/-!
# Ranges of diagnostics

Every range that a run puts out can be cut out of the source: the spans of the diagnostics, of their labels, and of the
edits of their fixes and suggestions. The edits of a fix are in order and apart from each other. Where a rule computes a
range by a subtraction, the result is the true difference.
-/

namespace ComponentLint

open Text Markup

variable {languages : Script.Languages}

/-! ## Reports -/

/-- A fix that can be made in a text: there are edits, of the text, in order and apart from each other. -/
structure Fix.InRange (text : List Char) (fix : Fix) : Prop where
  nonempty : fix.edits ≠ []
  edits : ∀ edit ∈ fix.edits, edit.span.InText text
  sorted : fix.edits.Pairwise fun a b => a.span.le b.span = true
  disjoint : fix.edits.Pairwise fun a b => a.span.stop ≤ b.span.start

/-- A report whose ranges are ranges of a text. -/
structure Report.InRange (text : List Char) (report : Report) : Prop where
  span : report.span.InText text
  labels : ∀ label ∈ report.labels, label.span.InText text
  fix : ∀ fix, report.fix = some fix → fix.InRange text
  suggestions : ∀ suggestion ∈ report.suggestions, suggestion.fix.InRange text

theorem Fix.Drafted.inRange {text : List Char} {trusted : Prop} {fix : Fix} (h : fix.Drafted text trusted)
    (htrusted : trusted) : fix.InRange text :=
  ⟨h.nonempty, h.located htrusted, h.sorted, h.disjoint⟩

theorem Report.Sound.inRange {file : File} {report : Report} (h : report.Sound file) (hlie : file.component.ScriptsLie) :
    report.InRange file.document.source :=
  ⟨h.span hlie, h.labels hlie, fun fix hfix => (h.fix fix hfix).inRange hlie,
    fun suggestion hsuggestion => (h.suggestions suggestion hsuggestion).inRange hlie⟩

/-! ## Subtractions -/

/-- In every subtraction by which a rule computes a range of a file, what is subtracted is not greater than what it is
subtracted from. -/
structure File.Subtracts (file : File) : Prop where
  /-- The lines between a closing bracket and the token before it. -/
  lines : ∀ tag close previous, Rules.ClosingBracket.bracket? file.document tag = some close →
    file.document.lastTokenBefore? close.span.start = some previous →
    file.line previous.span.stop ≤ file.line close.span.start
  /-- The mark at the end of a start tag. -/
  mark : ∀ id element, file.document.element? id = some element → 1 ≤ element.startTag.span.stop
  /-- The two marks at the end of a self-closing tag. -/
  marks : ∀ id element, file.document.element? id = some element → element.startTag.selfClosing = true →
    2 ≤ element.startTag.span.stop
  /-- A text without its blanks. -/
  trimmed : ∀ text, byteLength (trimStart text) ≤ byteLength text ∧ byteLength (trimEnd text) ≤ byteLength text
  /-- The blanks before the braces that close an interpolation. -/
  blanks : ∀ id node content, file.document.node? id = some node → node.kind = .interpolation content →
    Rules.MustacheSpacing.trailingBlank (file.text ⟨content.opening.stop, content.closing.start⟩) ≤ content.closing.start
  /-- The dot before a modifier that is written out. -/
  dot : ∀ id element, file.document.element? id = some element → ∀ attr ∈ element.attributes, ∀ key prop,
    attr.directive? = some key → Rules.BindStyle.writtenProp? key = some prop → 1 ≤ prop.span.start

theorem File.Written.subtracts {language : Script.Language} {file : File} (h : file.Written language) : file.Subtracts where
  lines _ _ _ _ hprevious := file.lines.line_mono (Document.of_lastTokenBefore? hprevious).2
  mark _ _ helement := by
    have hstart := (h.element helement).2.1.startTag.2.1
    omega
  marks _ _ helement := (h.element helement).1.selfClosing
  trimmed text := ⟨byteLength_trimStart text, byteLength_trimEnd text⟩
  blanks _ _ _ hnode hkind := (Rules.MustacheSpacing.ends_of_content (h.interpolation hnode hkind) _ rfl).2.2
  dot _ _ helement _ hattr key _ hkey hprop :=
    (Rules.BindStyle.of_writtenProp? ((h.directive helement hattr).2 key hkey) hprop).2.1

/-! ## Runs -/

/-- What a run reports about a text whose scripts lie in it. -/
theorem Config.lint_inRange (libraries : Libraries) (config : Config) (source : List Char) {result : LintResult}
    (hlint : config.lint libraries source = .ok result)
    (hscripts : (Component.parse libraries.languages source).ScriptsLie) :
    (∀ diagnostic ∈ result.diagnostics, diagnostic.report.InRange source) ∧
      (File.ofSource libraries.languages source).Subtracts := by
  refine ⟨fun diagnostic hdiagnostic => ?_, (File.ofSource_written source).subtracts⟩
  cases hrules : config.activeRules libraries.patterns with
  | error => simp [Config.lint, hrules, Except.map] at hlint
  | ok rules =>
    rw [Config.lint, hrules] at hlint
    obtain rfl := Except.ok.inj hlint
    exact (Config.lintWith_sound hrules source diagnostic hdiagnostic).inRange hscripts

/-- A component whose script has an error that the parser gets over, with script in each kind of place: a script block, an
interpolation, a loop, a handler and conditions. -/
def flawedScript : List Char :=
  ("<script>export default \x7b destroyed() \x7b\x7d \x7d; (\x7b a = 1 \x7d)</script><template>" ++
    "<p v-for=\"é in b\" @click=\"c()\">\x7b\x7bthis.d\x7d\x7d</p>" ++
    "<p v-if=\"e !== f\"/><p v-else/></template>").toList

/-- The script of the file is read although it has an error, and what is reported of it stands at its places. -/
theorem lint_inRange_flawedScript : ∃ result, Config.standard.lint .standard flawedScript = .ok result ∧
    ((Component.parse Script.Dialect.language flawedScript).scripts.map fun block => (block.panicked, block.statements.length)) =
      [(false, 2)] ∧
    (Component.parse Script.Dialect.language flawedScript).problems.isEmpty = false ∧
    (Component.parse Script.Dialect.language flawedScript).ScriptsLie ∧
    (∀ diagnostic ∈ result.diagnostics, diagnostic.report.InRange flawedScript) ∧
    (File.ofSource Script.Dialect.language flawedScript).Subtracts :=
  have hlie : (Component.parse Script.Dialect.language flawedScript).ScriptsLie := by decide +kernel
  ⟨_, rfl, by decide +kernel, by decide +kernel, hlie, Config.lint_inRange .standard .standard flawedScript rfl hlie⟩

end ComponentLint
