import ComponentLint.Proofs.Lint.Soundness
import ComponentLint.Proofs.Markup.TokenQueries
import ComponentLint.Proofs.Text.Blanks

/-!
# Rules about the template

The rules whose reports and fixes are placed by tags, attributes, tokens and interpolations. Their places are computed from
the spans of the tree, by looking for the next token, by stepping back over a mark or by leaving out blanks; each time the
result is again a position of the text, and what is subtracted is not greater than what it is subtracted from.
-/

namespace ComponentLint

open Text Markup

/-! ## Tokens and lines -/

namespace Markup.Document

variable {language : Script.Language} {document : Document}

theorem of_mem_tokensIn {span : Span} {token : Token} (h : token ∈ document.tokensIn span) :
    token ∈ document.tokens.toList :=
  List.mem_of_mem_take (List.mem_of_mem_drop h)

/-- The last token before an offset ends there, or before. -/
theorem of_lastTokenBefore? {offset : Nat} {token : Token} (h : document.lastTokenBefore? offset = some token) :
    token ∈ document.tokens.toList ∧ token.span.stop ≤ offset := by
  have hmem := List.mem_reverse.1 (List.mem_of_find?_eq_some h)
  rw [take_tokensEndingBy] at hmem
  exact ⟨(List.takeWhile_prefix _).subset hmem, of_decide_eq_true (List.all_eq_true.1 List.all_takeWhile token hmem)⟩

/-- The first token after an offset starts there, or behind it. -/
theorem Written.of_firstTokenAfter? (hdocument : document.Written language) {offset : Nat} {token : Token}
    (h : document.firstTokenAfter? offset = some token) : token ∈ document.tokens.toList ∧ offset ≤ token.span.start := by
  have hmem := List.mem_of_find?_eq_some h
  -- The tokens are in order, so those that start before the offset stand in front of all others.
  have hfront : document.tokens.toList.Pairwise fun a b =>
      decide (b.span.start < offset) = true → decide (a.span.start < offset) = true := by
    refine hdocument.ordered.imp_of_mem ?_
    intro a b ha _ hle
    have hordered := (hdocument.tokens a ha).ordered
    simp only [decide_eq_true_eq]
    omega
  rw [drop_tokenIndexAt, dropWhile_eq_filter hfront] at hmem
  obtain ⟨htoken, hstart⟩ := List.mem_filter.1 hmem
  exact ⟨htoken, by simpa using hstart⟩

end Markup.Document

/-- A later offset is on the same line, or on a later one. -/
theorem LineIndex.line_mono (index : LineIndex) {first last : Nat} (h : first ≤ last) : index.line first ≤ index.line last := by
  have hlength : ∀ starts : List Nat, (starts.takeWhile (· ≤ first)).length ≤ (starts.takeWhile (· ≤ last)).length := by
    intro starts
    induction starts with
    | nil => exact Nat.le_refl _
    | cons start starts ih =>
      by_cases hstart : start ≤ first
      · simpa [hstart, Nat.le_trans hstart h] using ih
      · simp [hstart]
  exact Nat.sub_le_sub_right (hlength index.starts) 1

namespace File.Written

variable {language : Script.Language} {file : File}

/-- What the tree says of an element. -/
theorem element (h : file.Written language)
    {id : NodeId} {element : Element} (helement : file.document.element? id = some element) :
    element.WrittenIn language file.document.source ∧ element.Fits (file.document.spanOf id) ∧
      (file.document.spanOf id).InText file.document.source := by
  obtain ⟨node, hnode, hkind⟩ := Document.element?_eq_some_iff.1 helement
  have hspan : file.document.spanOf id = node.span := by
    rw [Document.spanOf, Document.node?, hnode]
    rfl
  have hwritten := h.document.kind id node hnode
  rw [hkind] at hwritten
  rw [hspan]
  exact ⟨hwritten, h.document.fits id node element hnode hkind, h.document.span id node hnode⟩

/-- What the tree says of a directive. -/
theorem directive (h : file.Written language) {id : NodeId} {element : Element} {attr : Attribute}
    (helement : file.document.element? id = some element) (hattr : attr ∈ element.attributes) :
    attr.span.InText file.document.source ∧ ∀ key, attr.directive? = some key → key.WrittenIn file.document.source :=
  ⟨((h.element helement).1.attributes attr hattr).span, ((h.element helement).1.attributes attr hattr).key⟩

theorem interpolation (h : file.Written language) {id : NodeId} {node : Node} {content : Interpolation}
    (hnode : file.document.node? id = some node) (hkind : node.kind = .interpolation content) :
    content.WrittenIn language file.document.source := by
  have hwritten := h.document.kind id node hnode
  rw [hkind] at hwritten
  exact hwritten

end File.Written

namespace Rules

variable {language : Script.Language} {file : File}

/-! ## Tags and their content -/

namespace ClosingBracket

theorem of_bracket? {document : Document} {tag : Span} {close : Token} (h : bracket? document tag = some close) :
    close ∈ document.tokens.toList := by
  unfold bracket? at h
  split at h
  · next token htoken =>
    split at h
    · obtain rfl := Option.some.inj h
      exact Document.of_mem_tokensIn (List.mem_of_getLast? htoken)
    · nomatch h
  · nomatch h

theorem checkTag_sound (hfile : file.Written language) (settings : Settings) (tag : Span) :
    ∀ report ∈ checkTag settings file tag, report.Sound file := by
  unfold checkTag
  split
  · simp
  · next close hclose =>
    split
    · simp
    · next previous hprevious =>
      obtain ⟨hmem, hle⟩ := Document.of_lastTokenBefore? hprevious
      have hpreviousAt := hfile.document.tokens previous hmem
      have hcloseAt := hfile.document.tokens close (of_bracket? hclose)
      dsimp only
      split
      · simp
      · intro report hreport
        rw [List.mem_singleton.1 hreport]
        refine (Report.Sound.ofInfo _ _ (fun _ => ?_) _).withDraft ?_
        · exact ⟨Nat.le_trans hle hcloseAt.ordered, hpreviousAt.stop, hcloseAt.stop⟩
        · exact hfile.draft.replaceBetween (fun _ => hpreviousAt.stop) (fun _ => hcloseAt.start) _

theorem rule_sound : rule.Sound := by
  intro patterns options checks hchecks language file hfile
  obtain ⟨settings, -, rfl⟩ := Option.map_eq_some_iff.1 hchecks
  refine .watchingOne (Watch.elements_sound fun id element _ report hreport => ?_)
  obtain ⟨tag, _, hreport⟩ := List.mem_flatMap.1 hreport
  exact checkTag_sound hfile _ tag report hreport

end ClosingBracket

namespace ContentBreaks

theorem checkContent_sound (hfile : file.Written language) (settings : Settings) (element : Element) {content : Span}
    (hcontent : content.InText file.document.source) :
    ∀ report ∈ checkContent settings file element content, report.Sound file := by
  unfold checkContent
  extract_lets document filled first last data after before
  have hfirst : Span.InText file.document.source ⟨content.start, first⟩ := by
    unfold first
    split
    · next token htoken =>
      obtain ⟨hmem, hle⟩ := hfile.document.of_firstTokenAfter? htoken
      have hordered := hcontent.ordered
      rcases Nat.le_total token.span.start content.stop with hmin | hmin
      · rw [Nat.min_eq_left hmin]
        exact ⟨hle, hcontent.start, (hfile.document.tokens token hmem).start⟩
      · rw [Nat.min_eq_right hmin]
        exact hcontent
    · exact hcontent
  have hlast : Span.InText file.document.source ⟨last, content.stop⟩ := by
    unfold last
    split
    · next token htoken =>
      obtain ⟨hmem, hle⟩ := Document.of_lastTokenBefore? htoken
      rcases Nat.le_total content.start token.span.stop with hmax | hmax
      · rw [Nat.max_eq_left hmax]
        exact ⟨hle, (hfile.document.tokens token hmem).stop, hcontent.stop⟩
      · rw [Nat.max_eq_right hmax]
        exact hcontent
    · exact hcontent
  have hafter : after.Sound file :=
    (Report.Sound.ofInfo _ _ (fun _ => hfirst) _).withDraft
      (hfile.draft.replaceBetween (fun _ => hfirst.start) (fun _ => hfirst.stop) _)
  have hbefore : before.Sound file :=
    (Report.Sound.ofInfo _ _ (fun _ => hlast) _).withDraft
      (hfile.draft.replaceBetween (fun _ => hlast.start) (fun _ => hlast.stop) _)
  split
  · simp
  · split <;> simp [hafter, hbefore]

theorem check_sound (hfile : file.Written language) (settings : Settings) {id : NodeId} {element : Element}
    (helement : file.document.element? id = some element) : ∀ report ∈ check settings file element, report.Sound file := by
  obtain ⟨hwritten, hfits, -⟩ := hfile.element helement
  unfold check
  split
  · simp
  · next tag htag =>
    split
    · simp
    · exact checkContent_sound hfile settings element
        (hwritten.startTag.gap (hwritten.endTag tag htag) (hfits.endTag tag htag).1)

theorem enter_sound (hfile : file.Written language) (settings : Settings) (id : NodeId) (memory : Memory) :
    ∀ report ∈ (enter settings file id memory).2, report.Sound file := by
  unfold enter
  split
  · simp
  · split
    · next element helement =>
      split
      · simp
      · exact check_sound hfile settings helement
    · simp

theorem rule_sound : rule.Sound := by
  intro patterns options checks hchecks language file hfile
  obtain ⟨settings, -, rfl⟩ := Option.map_eq_some_iff.1 hchecks
  refine .watching fun watch hwatch selection memory => ?_
  simp only [List.mem_cons, List.not_mem_nil, or_false] at hwatch
  rcases hwatch with rfl | rfl
  · exact enter_sound hfile _ selection.node memory
  · simp [leave]

end ContentBreaks

namespace SelfClosing

theorem closingFix_drafted (hfile : file.Written language) {id : NodeId} {element : Element}
    (helement : file.document.element? id = some element) {fix : Fix} (hfix : closingFix file id element = some fix) :
    fix.Drafted file.document.source file.component.ScriptsLie := by
  obtain ⟨-, hfits, hspan⟩ := hfile.element helement
  have hdraft := hfile.draft.describe "Make self-closing"
  unfold closingFix at hfix
  dsimp only at hfix
  split at hfix
  · next hmark =>
    have hlast : Span.InText file.document.source ⟨element.startTag.span.stop - 1, element.startTag.span.stop⟩ :=
      inText_of_slice (by rw [show slice file.document.source _ = ['>'] from eq_of_beq hmark]; simp)
    refine (hdraft.add (fun _ => ?_) "/>").build? hfix
    exact ⟨Nat.le_trans hlast.ordered hfits.startTag.2.2, hlast.start, hspan.stop⟩
  · exact hdraft.build? hfix

theorem openingFix_drafted (hfile : file.Written language) {id : NodeId} {element : Element}
    (helement : file.document.element? id = some element) {fix : Fix} (hfix : openingFix file id element = some fix) :
    fix.Drafted file.document.source file.component.ScriptsLie := by
  obtain ⟨-, -, hspan⟩ := hfile.element helement
  have hdraft := hfile.draft.describe "Add closing tag"
  unfold openingFix at hfix
  dsimp only at hfix
  split at hfix
  · next hmark =>
    have hlast : Span.InText file.document.source ⟨element.startTag.span.stop - 2, element.startTag.span.stop⟩ :=
      inText_of_slice (by rw [show slice file.document.source _ = ['/', '>'] from eq_of_beq hmark]; simp)
    split at hfix
    · exact (hdraft.add (fun _ => hlast) ">").build? hfix
    · exact (hdraft.add (fun _ => hspan) _).build? hfix
  · exact hdraft.build? hfix

theorem requireClosing_sound (hfile : file.Written language) {id : NodeId} {element : Element}
    (helement : file.document.element? id = some element) : ∀ report ∈ requireClosing file id element, report.Sound file := by
  unfold requireClosing
  split
  · next tag htag =>
    split
    · intro report hreport
      rw [List.mem_singleton.1 hreport]
      refine (Report.Sound.ofInfo _ _ (fun _ => ?_) _).withFix fun fix hfix => closingFix_drafted hfile helement hfix
      exact (hfile.element helement).1.endTag tag htag
    · simp
  · simp

theorem rule_sound : rule.Sound := by
  intro patterns options checks hchecks language file hfile
  obtain ⟨settings, -, rfl⟩ := Option.map_eq_some_iff.1 hchecks
  refine .watchingOne (Watch.elements_sound fun id element helement => ?_)
  unfold check
  split
  · simp
  · split
    · exact requireClosing_sound hfile helement
    · intro report hreport
      rw [List.mem_singleton.1 hreport]
      refine (Report.Sound.ofInfo _ _ (fun _ => ?_) _).withFix fun fix hfix => openingFix_drafted hfile helement hfix
      exact (hfile.element helement).2.2
    · simp

end SelfClosing

namespace LoopKey

theorem of_mem_keyless {document : Document} {fuel : Nat} {id : NodeId} {element : Element}
    (h : element ∈ keyless document fuel id) : ∃ other, document.element? other = some element := by
  induction fuel generalizing id with
  | zero => cases h
  | succ fuel ih =>
    unfold keyless at h
    split at h
    · cases h
    · next found hfound =>
      split at h
      · cases h
      · split at h
        · obtain ⟨child, _, hchild⟩ := List.mem_flatMap.1 h
          exact ih hchild
        · split at h
          · cases h
          · exact ⟨id, List.mem_singleton.1 h ▸ hfound⟩

theorem rule_sound : rule.Sound := by
  rintro patterns options checks ⟨⟩ language file hfile
  refine .watchingOne (Watch.elementsWith_sound _ fun id element _ report hreport => ?_)
  obtain ⟨keyless, hkeyless, rfl⟩ := List.mem_map.1 hreport
  obtain ⟨other, hother⟩ := of_mem_keyless hkeyless
  exact .ofInfo _ _ (fun _ => (hfile.element hother).1.startTag) _

end LoopKey

/-! ## Interpolations -/

namespace MustacheSpacing

/-- The leading blanks of a text end at a position of it. -/
theorem isBoundary_leadingBlank (text : List Char) : isBoundary text (leadingBlank text) = true := by
  have happ := List.takeWhile_append_dropWhile (p := isSpace) (l := text)
  refine isBoundary_iff.2 ⟨_, _, happ.symm, ?_⟩
  have hlength := congrArg byteLength happ
  rw [byteLength_append] at hlength
  rw [leadingBlank, trimStart]
  omega

/-- The trailing blanks of a text start at a position of it. -/
theorem isBoundary_trailingBlank (text : List Char) : isBoundary text (byteLength text - trailingBlank text) = true := by
  refine isBoundary_iff.2 ⟨_, _, (trimEnd_append text).symm, ?_⟩
  have hle := byteLength_trimEnd text
  rw [trailingBlank]
  omega

/-- The two ends of what stands between the braces without its blanks. -/
theorem ends_of_content {source : List Char} {content : Interpolation} (h : content.WrittenIn language source) (inner : List Char)
    (hinner : inner = slice source ⟨content.opening.stop, content.closing.start⟩) :
    Span.InText source ⟨content.opening.start, content.opening.stop + leadingBlank inner⟩ ∧
      Span.InText source ⟨content.closing.start - trailingBlank inner, content.closing.stop⟩ ∧
      trailingBlank inner ≤ content.closing.start := by
  subst hinner
  have hgap := h.opening.gap h.closing h.ordered
  have hlength := hgap.byteLength_slice
  have hfirst := hgap.isBoundary_slice (isBoundary_leadingBlank _)
  have hlast := hgap.isBoundary_slice (isBoundary_trailingBlank _)
  have hopening := h.opening.ordered
  have hclosing := h.closing.ordered
  dsimp only at hlength hfirst hlast
  generalize slice source ⟨content.opening.stop, content.closing.start⟩ = inner at hlength hfirst hlast ⊢
  have hblank : trailingBlank inner ≤ byteLength inner := Nat.sub_le _ _
  have hstart : content.closing.start - trailingBlank inner = content.opening.stop +
      (byteLength inner - trailingBlank inner) := by
    omega
  refine ⟨⟨by simp only; omega, h.opening.start, hfirst⟩, ⟨by simp only; omega, ?_, h.closing.stop⟩, by omega⟩
  rw [hstart]
  exact hlast

theorem check_sound (hfile : file.Written language) (spacing : Spacing) (id : NodeId) {content : Interpolation}
    (hcontent : content.WrittenIn language file.document.source) : ∀ report ∈ check spacing file id content,
      report.Sound file := by
  unfold check
  extract_lets inner first last opening closing
  obtain ⟨hopening, hclosing, -⟩ := ends_of_content hcontent inner rfl
  have hreport : ∀ (messageId : String) {span : Span} {draft : FixDraft}, span.InText file.document.source →
      draft.For file.document.source file.component.ScriptsLie →
      ((info.report messageId span).withFix draft.build?).Sound file :=
    fun messageId _ _ hspan hdraft => (Report.Sound.ofInfo _ _ (fun _ => hspan) _).withDraft hdraft
  split
  · simp
  · split
    · intro report hmem
      rcases List.mem_append.1 hmem with hmem | hmem
      · split at hmem
        · rw [List.mem_singleton.1 hmem]
          exact hreport _ hopening (hfile.draft.insertAt (fun _ => hcontent.opening.stop) _)
        · cases hmem
      · split at hmem
        · rw [List.mem_singleton.1 hmem]
          exact hreport _ hclosing (hfile.draft.insertAt (fun _ => hcontent.closing.start) _)
        · cases hmem
    · intro report hmem
      rcases List.mem_append.1 hmem with hmem | hmem
      · split at hmem
        · rw [List.mem_singleton.1 hmem]
          exact hreport _ hopening
            (hfile.draft.replaceBetween (fun _ => hcontent.opening.stop) (fun _ => hopening.stop) _)
        · cases hmem
      · split at hmem
        · rw [List.mem_singleton.1 hmem]
          exact hreport _ hclosing
            (hfile.draft.replaceBetween (fun _ => hclosing.start) (fun _ => hcontent.closing.start) _)
        · cases hmem

theorem rule_sound : rule.Sound := by
  intro patterns options checks hchecks language file hfile
  obtain ⟨spacing, -, rfl⟩ := Option.map_eq_some_iff.1 hchecks
  refine .watchingOne (Watch.interpolations_sound fun id node content hnode hkind => ?_)
  exact check_sound hfile _ id (hfile.interpolation hnode hkind)

end MustacheSpacing

/-! ## Attributes and keys -/

namespace DuplicateAttributes

/-- The attribute that is repeated is one of the earlier ones. -/
theorem of_repeated? {settings : Settings} {earlier : List Attribute} {name : String} {bound : Bool} {first : Attribute}
    (h : repeated? settings earlier name bound = some first) : first ∈ earlier := by
  unfold repeated? at h
  split at h
  · exact List.mem_of_find?_eq_some h
  · rcases Option.or_eq_some_iff.1 h with h | ⟨_, h⟩
    · exact List.mem_of_find?_eq_some h
    · exact List.mem_of_find?_eq_some h

theorem checkFrom_sound (settings : Settings) {earlier attrs : List Attribute}
    (hearlier : ∀ attr ∈ earlier, attr.span.InText file.document.source)
    (hattrs : ∀ attr ∈ attrs, attr.span.InText file.document.source) :
    ∀ report ∈ checkFrom settings earlier attrs, report.Sound file := by
  induction attrs generalizing earlier with
  | nil => simp [checkFrom]
  | cons attr attrs ih =>
    obtain ⟨hattr, hrest⟩ := List.forall_mem_cons.1 hattrs
    unfold checkFrom
    extract_lets here
    intro report hreport
    rcases List.mem_append.1 hreport with hhere | hlater
    · unfold here at hhere
      split at hhere
      · cases hhere
      · split at hhere
        · next first hfirst =>
          rw [List.mem_singleton.1 hhere]
          exact (Report.Sound.ofInfo _ _ (fun _ => hattr) _).withLabel (fun _ => hearlier first (of_repeated? hfirst)) _
        · cases hhere
    · refine ih (fun other hother => ?_) hrest report hlater
      rcases List.mem_append.1 hother with hold | hnew
      · exact hearlier other hold
      · exact List.mem_singleton.1 hnew ▸ hattr

theorem rule_sound : rule.Sound := by
  intro patterns options checks hchecks language file hfile
  obtain ⟨settings, -, rfl⟩ := Option.map_eq_some_iff.1 hchecks
  refine .watchingOne (Watch.elements_sound fun id element helement => ?_)
  exact checkFrom_sound _ (by simp) fun attr hattr => (hfile.directive helement hattr).1

end DuplicateAttributes

namespace LoopCondition

theorem rule_sound : rule.Sound := by
  intro patterns options checks hchecks language file hfile
  obtain ⟨allowAlias, -, rfl⟩ := Option.map_eq_some_iff.1 hchecks
  refine .watchingOne (Watch.elementsWith_sound _ fun id element helement => ?_)
  unfold check
  split
  · simp
  · next condition hcondition =>
    have hspan := (hfile.directive helement (List.mem_of_find?_eq_some hcondition)).1
    split
    · simp
    · split
      · simpa using Report.Sound.ofInfo _ _ (fun _ => hspan) _
      · split
        · simp
        · split
          · simpa using Report.Sound.ofInfo _ _ (fun _ => hspan) _
          · simp

end LoopCondition

namespace ElsePlacement

theorem rule_sound : rule.Sound := by
  rintro patterns options checks ⟨⟩ language file hfile
  refine .watchingOne (Watch.directives_sound _ fun id element attr key helement hattr hkey report hreport => ?_)
  obtain ⟨fault, _, rfl⟩ := List.mem_map.1 hreport
  exact .ofInfo _ _ (fun _ => (hfile.directive helement hattr).1) _

end ElsePlacement

namespace SyncModifier

theorem rule_sound : rule.Sound := by
  rintro patterns options checks ⟨⟩ language file hfile
  refine .watchingOne (Watch.directives_sound _ fun id element attr key helement hattr hkey report hreport => ?_)
  obtain ⟨hspan, hkeys⟩ := hfile.directive helement hattr
  rw [List.mem_singleton.1 hreport]
  refine (Report.Sound.ofInfo _ _ (fun _ => hspan) _).withFix fun fix hfix => ?_
  unfold fix? at hfix
  split at hfix
  · split at hfix
    · exact (hfile.draft.add (fun _ => (hkeys key hkey).span) _).build? hfix
    · nomatch hfix
  · nomatch hfix

end SyncModifier

namespace KeyCodes

theorem checkModifier_sound (hfile : file.Written language)
    {modifier : Name} (hmodifier : modifier.span.InText file.document.source) :
    ∀ report ∈ checkModifier file modifier, report.Sound file := by
  unfold checkModifier
  split
  · simp
  · intro report hreport
    rw [List.mem_singleton.1 hreport]
    refine (Report.Sound.ofInfo _ _ (fun _ => hmodifier) _).withFix fun fix hfix => ?_
    split at hfix
    · exact (hfile.draft.add (fun _ => hmodifier) _).build? hfix
    · nomatch hfix

theorem rule_sound : rule.Sound := by
  rintro patterns options checks ⟨⟩ language file hfile
  refine .watchingOne (Watch.directives_sound _ fun id element attr key helement hattr hkey report hreport => ?_)
  obtain ⟨modifier, hmodifier, hreport⟩ := List.mem_flatMap.1 hreport
  have hwritten := (hfile.directive helement hattr).2 key hkey
  exact checkModifier_sound hfile (hwritten.modifiers modifier hmodifier).1 report hreport

end KeyCodes

namespace BindStyle

theorem of_writtenProp? {source : List Char} {key : DirectiveKey} (h : key.WrittenIn source) {prop : Name}
    (hprop : writtenProp? key = some prop) : prop.span.InText source ∧ BehindByte source prop.span.start := by
  obtain ⟨hspan, hbehind⟩ := h.modifiers prop (List.mem_of_find?_eq_some hprop)
  have htest := List.find?_some hprop
  exact ⟨hspan, hbehind (by simpa using (Bool.and_eq_true_iff.1 htest).2)⟩

theorem restyle?_for {source : List Char} {trusted : Prop} {draft drafted : FixDraft} (hdraft : draft.For source trusted)
    {key : DirectiveKey} (hkey : key.WrittenIn source) {style : DirectiveStyle} {id : String}
    (h : restyle? style key draft = some (id, drafted)) : drafted.For source trusted := by
  unfold restyle? at h
  obtain ⟨argument, hargument, h⟩ := Option.bind_eq_some_iff.1 h
  obtain ⟨hspan, -⟩ := hkey.argument argument hargument
  have hbefore := fun replacement : String =>
    hdraft.replaceBetween (fun _ => hkey.span.start) (fun _ => hspan.start) replacement
  dsimp only at h
  split at h
  · split at h
    · nomatch h
    · obtain ⟨-, rfl⟩ := Prod.mk.inj (Option.some.inj h)
      unfold shorten
      split
      · next prop hprop =>
        obtain ⟨hpropSpan, hbehind⟩ := of_writtenProp? hkey hprop
        exact (hbefore ".").replaceBetween (fun _ => hbehind.2) (fun _ => hpropSpan.stop) ""
      · exact hbefore ":"
  · split at h
    · nomatch h
    · split at h
      · obtain ⟨-, rfl⟩ := Prod.mk.inj (Option.some.inj h)
        exact (hbefore "v-bind:").insertAt (fun _ => hspan.stop) ".prop"
      · obtain ⟨-, rfl⟩ := Prod.mk.inj (Option.some.inj h)
        exact hdraft.insertAt (fun _ => hkey.span.start) "v-bind"

theorem rule_sound : rule.Sound := by
  intro patterns options checks hchecks language file hfile
  obtain ⟨style, -, rfl⟩ := Option.map_eq_some_iff.1 hchecks
  refine .watchingOne (Watch.directives_sound _ fun id element attr key helement hattr hkey => ?_)
  obtain ⟨hspan, hkeys⟩ := hfile.directive helement hattr
  unfold check
  split
  · next messageId draft hdraft =>
    simpa using (Report.Sound.ofInfo info messageId (fun _ => hspan) []).withDraft
      (restyle?_for hfile.draft (hkeys key hkey) hdraft)
  · simp

end BindStyle

namespace OnStyle

theorem restyle?_for {source : List Char} {trusted : Prop} {draft drafted : FixDraft} (hdraft : draft.For source trusted)
    {key : DirectiveKey} (hkey : key.WrittenIn source) {style : DirectiveStyle} {id : String}
    (h : restyle? style key draft = some (id, drafted)) : drafted.For source trusted := by
  unfold restyle? at h
  obtain ⟨argument, hargument, h⟩ := Option.bind_eq_some_iff.1 h
  obtain ⟨hspan, hle⟩ := hkey.argument argument hargument
  have hbefore : Span.InText source ⟨key.span.start, argument.span.start⟩ := ⟨hle, hkey.span.start, hspan.start⟩
  dsimp only at h
  split at h
  · obtain ⟨-, rfl⟩ := Prod.mk.inj (Option.some.inj h)
    exact hdraft.add (fun _ => hbefore) "@"
  · obtain ⟨-, rfl⟩ := Prod.mk.inj (Option.some.inj h)
    exact hdraft.add (fun _ => hbefore) "v-on:"
  · nomatch h

theorem rule_sound : rule.Sound := by
  intro patterns options checks hchecks language file hfile
  obtain ⟨style, -, rfl⟩ := Option.map_eq_some_iff.1 hchecks
  refine .watchingOne (Watch.directives_sound _ fun id element attr key helement hattr hkey => ?_)
  obtain ⟨hspan, hkeys⟩ := hfile.directive helement hattr
  unfold check
  split
  · next messageId draft hdraft =>
    simpa using (Report.Sound.ofInfo info messageId (fun _ => hspan) []).withDraft
      (restyle?_for hfile.draft (hkeys key hkey) hdraft)
  · simp

end OnStyle

end Rules

end ComponentLint
