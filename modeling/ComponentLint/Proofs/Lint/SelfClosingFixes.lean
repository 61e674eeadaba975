import ComponentLint.Proofs.Fix.Drafting
import ComponentLint.Proofs.Fix.Splice
import ComponentLint.Proofs.Markup.Rewriting
import ComponentLint.Rules.SelfClosing

/-!
# Fixes of self-closing tags

A fix of the rule exchanges the closing mark of a start tag, and removes or adds an end tag. The file is then read as before, with
the element written as the message asks (`check_fix_rewrites`), provided that the mark can be exchanged (`Rewritable`). The rule
does not check that: behind a value without quotes the slash becomes part of the value (`not_rewrites_bareValue`).
-/

namespace ComponentLint

open Text Markup

namespace Rules.SelfClosing

open Builder

variable {languages : Script.Languages}

/-- One element of a file is written in another way, and nothing else has changed. -/
structure Rewrites (languages : Script.Languages) (selfClosing : Bool) (source edited : List Char) (id : NodeId)
    (element : Element) : Prop where
  clean : (Component.parse languages edited).problems = []
  around : ∃ rename, (Component.parse languages source).document.KeepsAround (.cut source edited element.startTag.span.start
    ((Component.parse languages source).document.spanOf id).stop
      ((Component.parse languages edited).document.spanOf id).stop) rename id
    (Component.parse languages edited).document
  element : ∃ new, (Component.parse languages edited).document.element? id = some new ∧ new.heading = element.heading ∧
    new.startTag.attributes = element.startTag.attributes ∧ new.startTag.span.start = element.startTag.span.start ∧
    new.startTag.selfClosing = selfClosing
  empty : (Component.parse languages edited).document.children id = []

section Opened

variable {source : List Char} {id : Nat} {element : Element} {builder last : Builder} {tag : ReadTag}
  {front before blank body body' tail : List Char} {ending : TagEnd}

/-- Writing an element with the other closing mark changes nothing else, and makes no problem. -/
theorem rewrites (h : Opens (languages ⟨Component.usesTypes source, false⟩) source id element builder last
      tag front before (body ++ tail))
    (hclean : (Component.parse languages source).problems = [])
    (hnested : (Component.parse languages source).document.parent? id ≠ some 0)
    (hbody : builder.Shuts tag blank body)
    (hother : (tag.ending = .plain ∧ ending = .selfClosing) ∨ (tag.ending = .selfClosing ∧ ending = .plain))
    (hslash : ending = .plain → before.getLast? ≠ some '/')
    (hbare : ending = .selfClosing → ∀ read ∈ tag.attributes.getLast?, ∀ value, read.attr.value = some value →
      value.quote = none → read.attr.span.stop ≠ byteLength front + 1 + byteLength before)
    (hbody' : builder.Shuts (tag.endedBy ending (byteLength front + 1 + byteLength before + byteLength ending.mark)) [] body')
    (htypes : Component.usesTypes body = true → Component.usesTypes ('<' :: before) = true)
    (htypes' : Component.usesTypes body' = true → Component.usesTypes ('<' :: before) = true)
    (hbracket : ']' ∉ body') (hbraces : occurs ['}', '}'] (body' ++ tail) = true →
      occurs ['}', '}'] ('<' :: before) = true ∨ occurs ['}', '}'] (body ++ tail) = true) :
    Rewrites languages (ending == .selfClosing) source
      (front ++ ('<' :: before ++ (ending.mark ++ (body' ++ tail)))) id element := by
  have hended : ending ≠ .missing := by
    rcases hother with ⟨-, rfl⟩ | ⟨-, rfl⟩ <;> decide
  have hedited : front ++ ('<' :: before ++ (ending.mark ++ (body' ++ tail))) =
      front ++ ('<' :: (before ++ ending.mark) ++ body' ++ tail) := by simp
  generalize hwritten : front ++ ('<' :: before ++ (ending.mark ++ (body' ++ tail))) = edited at hedited ⊢
  have hopens : ∀ {text}, (Component.usesTypes text = true → Component.usesTypes ('<' :: before) = true) →
      (Component.usesTypes (front ++ '<' :: before) || Component.usesTypes text) =
        Component.usesTypes (front ++ '<' :: before) := by
    intro text htext
    rw [Bool.eq_iff_iff, Bool.or_eq_true]
    exact or_iff_left_of_imp fun hused => Component.usesTypes_of_part (List.suffix_append _ _).isInfix (htext hused)
  have htypes : Component.usesTypes edited = Component.usesTypes source := by
    rw [← hwritten, h.source_eq, ← List.append_assoc, Component.usesTypes_mark hended, hbody'.usesTypes,
      ← List.cons_append, ← List.append_assoc, Component.usesTypes_mark h.ended, hbody.usesTypes,
        ← Bool.or_assoc, ← Bool.or_assoc,
      hopens htypes, hopens htypes']
  obtain ⟨⟨rename, haround⟩, hmarkup, parent, endTag, hnode⟩ :=
    h.rewrite hbody hother hslash hbare hbody' hbracket hbraces rfl rfl hedited
  have hspan := h.spanOf_eq hbody
  have hdocument : (Component.parse languages edited).document =
      (Markup.parse (languages ⟨Component.usesTypes source, false⟩) edited).1 := by
    rw [← htypes]
    rfl
  have hstart : element.startTag.span.start = byteLength front := by rw [h.element_eq]; exact h.start_eq
  rw [← hdocument] at haround hnode
  have hspanOf : (Component.parse languages edited).document.spanOf id =
      ⟨byteLength front, byteLength front + byteLength ('<' :: (before ++ ending.mark) ++ body')⟩ := by
    rw [Document.spanOf, hnode]
    rfl
  change (Component.parse languages source).document.KeepsAround _ _ _ _ at haround
  refine ⟨?_, ⟨rename, ?_⟩, ⟨_, Document.element?_eq_some_iff.2 ⟨_, hnode, rfl⟩, ?_, ?_, ?_, ?_⟩, ?_⟩
  · refine @Component.problems_edited languages (.cut source edited _ _ _) rename id htypes haround hclean hmarkup
      (fun _ _ => hnested)
      fun node hfound => ?_
    cases hnode.symm.trans hfound
    intro heq
    cases heq
  · rw [hstart, show (Component.parse languages source).document.spanOf id = _ from hspan, hspanOf]
    exact haround
  · rw [h.element_eq]
    rfl
  · rw [h.element_eq]
    rfl
  · rw [h.element_eq]
    rfl
  · rfl
  · rw [Document.children, hnode]
    rfl

end Opened

/-- What a fix relies on beyond what it checks: a slash that is written is attached to nothing, one that is taken away leaves none
behind, an element that the parser closes at once gets no end tag, the name in an end tag that is written closes no bracket, and
an end tag that is taken away does not alone tell the language of the template. -/
structure Rewritable (file : File) (element : Element) : Prop where
  bare : element.startTag.selfClosing = false → ∀ attr ∈ element.startTag.attributes.getLast?, ∀ value ∈ attr.value,
    value.quote = none → attr.span.stop + 1 ≠ element.startTag.span.stop
  slash : element.startTag.selfClosing = true →
    file.text ⟨element.startTag.span.stop - 3, element.startTag.span.stop - 2⟩ ≠ ['/']
  void : element.startTag.selfClosing = true → element.isVoid = true → ElementKind.of element = .void
  bracket : element.startTag.selfClosing = true → ']' ∉ element.rawName.toList
  types : ∀ tag ∈ element.endTag, Component.usesTypes (file.text tag) = true →
    Component.usesTypes (file.text element.startTag.span) = true

instance (file : File) (element : Element) : Decidable (Rewritable file element) :=
  decidable_of_iff ((_ → _) ∧ (_ → _) ∧ (_ → _ → _) ∧ (_ → _) ∧ _)
    ⟨fun ⟨hbare, hslash, hvoid, hbracket, htypes⟩ => ⟨hbare, hslash, hvoid, hbracket, htypes⟩,
      fun h => ⟨h.bare, h.slash, h.void, h.bracket, h.types⟩⟩

theorem of_closingFix {file : File} {id : NodeId} {element : Element} {fix : Fix} (h : closingFix file id element = some fix) :
    fix = ⟨[⟨⟨element.startTag.span.stop - 1, (file.document.spanOf id).stop⟩, "/>"⟩], some "Make self-closing"⟩ := by
  unfold closingFix at h
  dsimp only at h
  split at h
  · exact FixDraft.build?_add rfl h
  · cases h

theorem closingFix_rewrites {source : List Char} {id : NodeId} {element : Element} {fix : Fix} {span : Span}
    (hclean : (Component.parse languages source).problems = [])
    (hnested : (File.ofSource languages source).document.parent? id ≠ some 0)
    (helement : (File.ofSource languages source).document.element? id = some element)
    (hrewritable : Rewritable (File.ofSource languages source) element) (hopen : element.startTag.selfClosing = false)
    (hspan : element.endTag = some span)
    (hblank : isBlank ((File.ofSource languages source).text ⟨element.startTag.span.stop, span.start⟩) = true)
    (hfix : closingFix (File.ofSource languages source) id element = some fix) :
    Rewrites languages true source (Fix.applyAll source [fix]).output id element := by
  have hmarkup := ((Component.problems_eq_nil_iff source).1 hclean).1
  obtain ⟨builder, last, tag, front, before, rest, h⟩ := exists_opens hmarkup helement
  obtain ⟨blank, close, tail, rfl, hbody, hblanks, hclose⟩ := h.pair hmarkup helement hspan hblank
  generalize hwhole : blank ++ close = body at h hbody
  have hending : tag.ending = .plain := by
    have hself := h.selfClosing_eq
    rw [hopen] at hself
    have hended := h.ended
    cases hcase : tag.ending <;> simp_all
  have hbare : ∀ read ∈ tag.attributes.getLast?, ∀ value, read.attr.value = some value → value.quote = none →
      read.attr.span.stop ≠ byteLength front + 1 + byteLength before := by
    intro read hread value hvalue hquote hstop
    refine hrewritable.bare hopen read.attr ?_ value hvalue hquote ?_
    · rw [h.attributes_eq, List.getLast?_map]
      exact Option.mem_map_of_mem _ hread
    · rw [hstop, h.startTag_stop, hending]
      rfl
  have htypes : Component.usesTypes body = true → Component.usesTypes ('<' :: before) = true := by
    intro hused
    rw [← hwhole, Component.usesTypes_prepend fun c hc => Component.inert_of_isSpace (hblanks c hc), ← hclose] at hused
    have hopened := hrewritable.types span hspan hused
    rw [show (File.ofSource languages source).text element.startTag.span = '<' :: before ++
      tag.ending.mark from h.text_startTag] at hopened
    have hmark := Component.usesTypes_mark h.ended ('<' :: before) []
    rw [List.append_nil, show Component.usesTypes [] = false from rfl, Bool.or_false] at hmark
    exact hmark.symm.trans hopened
  have hnone : Component.usesTypes [] = true → Component.usesTypes ('<' :: before) = true := fun hused =>
    absurd hused Bool.false_ne_true
  have hresult := rewrites h hclean hnested hbody (Or.inl ⟨hending, rfl⟩) (fun heq => by cases heq) (fun _ => hbare) (.single rfl)
    htypes hnone List.not_mem_nil fun hoccurs =>
      Or.inr (occurs_of_part (by simp) (List.suffix_append body tail).isInfix hoccurs)
  have hstart : element.startTag.span.stop - 1 = byteLength (front ++ '<' :: before) := by
    rw [h.startTag_stop, hending, byteLength_open]
    rfl
  have hstop : ((File.ofSource languages source).document.spanOf id).stop =
      byteLength (front ++ '<' :: before) + byteLength ('>' :: body) := by
    rw [show (File.ofSource languages source).document.spanOf id = _ from h.spanOf_eq hbody, hending, byteLength_append _ body,
      byteLength_open, ← Nat.add_assoc, byteLength_startTag]
    simp only [TagEnd.mark, byteLength_cons, byteLength_nil]
    omega
  have hfixEq := of_closingFix hfix
  rw [hstart, hstop] at hfixEq
  have hsource : source = (front ++ '<' :: before) ++ (('>' :: body) ++ tail) := by
    rw [h.source_eq, hending]
    simp [TagEnd.mark]
  have hedit := Fix.applyAll_single (front ++ '<' :: before) ('>' :: body) tail "/>" (some "Make self-closing")
  rw [← hsource, ← hfixEq, List.append_assoc] at hedit
  rw [hedit]
  exact hresult

theorem of_openingFix {file : File} {id : NodeId} {element : Element} {fix : Fix} (h : openingFix file id element = some fix) :
    (ElementKind.of element = .void ∧
      fix = ⟨[⟨⟨element.startTag.span.stop - 2, element.startTag.span.stop⟩, ">"⟩], some "Add closing tag"⟩) ∨
    (ElementKind.of element ≠ .void ∧ fix = ⟨[⟨file.document.spanOf id,
      file.string ⟨(file.document.spanOf id).start, element.startTag.span.stop - 2⟩ ++ "></" ++ element.rawName ++ ">"⟩],
      some "Add closing tag"⟩) := by
  unfold openingFix at h
  dsimp only at h
  split at h
  · split at h
    · rename_i hvoid
      exact Or.inl ⟨eq_of_beq hvoid, FixDraft.build?_add rfl h⟩
    · rename_i hvoid
      exact Or.inr ⟨fun heq => hvoid (beq_iff_eq.2 heq), FixDraft.build?_add rfl h⟩
  · cases h

/-- The parser closes elements at once that the rule takes for void. -/
theorem isVoid_of_kind {element : Element} (h : ElementKind.of element = .void) : element.isVoid = true := by
  unfold ElementKind.of at h
  split at h
  · cases h
  · split at h
    · rename_i hvocabulary
      split at h
      · rename_i hname
        rw [Element.isVoid, hvocabulary, hname]
        rfl
      · cases h
    · cases h
    · cases h

/-- Braces do not start in an end tag, but in its name. -/
theorem occurs_endTag {name : List Char} (tail : List Char)
    (h : occurs ['}', '}'] ('<' :: '/' :: (name ++ ['>']) ++ tail) = true) :
    occurs ['}', '}'] name = true ∨ occurs ['}', '}'] tail = true := by
  have hparts : '<' :: '/' :: (name ++ ['>']) ++ tail = (['<'] ++ '/' :: name) ++ '>' :: tail := by simp
  rw [hparts, occurs_split (by simp) (by simp), occurs_split (by simp) (by simp), Bool.or_eq_true] at h
  exact h

theorem openingFix_rewrites {source : List Char} {id : NodeId} {element : Element} {fix : Fix}
    (hclean : (Component.parse languages source).problems = [])
    (hnested : (File.ofSource languages source).document.parent? id ≠ some 0)
    (helement : (File.ofSource languages source).document.element? id = some element)
    (hrewritable : Rewritable (File.ofSource languages source) element) (hself : element.startTag.selfClosing = true)
    (hfix : openingFix (File.ofSource languages source) id element = some fix) :
    Rewrites languages false source (Fix.applyAll source [fix]).output id element := by
  have hmarkup := ((Component.problems_eq_nil_iff source).1 hclean).1
  obtain ⟨builder, last, tag, front, before, tail, h⟩ := exists_opens hmarkup helement
  have hbody : builder.Shuts tag [] [] := .single (by rw [h.closesItself_eq, hself]; rfl)
  have hending : tag.ending = .selfClosing := by
    have hsame := h.selfClosing_eq
    rw [hself] at hsame
    exact (eq_of_beq hsame.symm)
  have hmark : element.startTag.span.stop - 2 = byteLength (front ++ '<' :: before) := by
    rw [h.startTag_stop, hending, byteLength_open]
    rfl
  have hmarkStop : element.startTag.span.stop = byteLength (front ++ '<' :: before) + byteLength ['/', '>'] := by
    rw [h.startTag_stop, hending, byteLength_open]
    rfl
  have hsource : source = (front ++ '<' :: before) ++ (['/', '>'] ++ tail) := by
    rw [h.source_eq, hending]
    simp [TagEnd.mark]
  have hslash : before.getLast? ≠ some '/' := by
    intro hlast
    refine hrewritable.slash hself ?_
    have hopen : (front ++ '<' :: before).getLast? = some '/' := by
      rw [List.getLast?_append, List.getLast?_cons, hlast]
      rfl
    have hbefore : element.startTag.span.stop - 3 = byteLength (front ++ '<' :: before) - 1 := by
      rw [← hmark]
      rfl
    have hslice := slice_getLast hopen rfl (['/', '>'] ++ tail)
    rw [← hsource, ← hbefore, ← hmark] at hslice
    exact hslice
  have hvoidEq : ∀ stop, builder.closesItself (tag.endedBy .plain stop) = element.isVoid := by
    intro stop
    rw [h.element_eq]
    rfl
  have hnone : Component.usesTypes [] = true → Component.usesTypes ('<' :: before) = true := fun hused =>
    absurd hused Bool.false_ne_true
  rcases of_openingFix hfix with ⟨hvoid, hfixEq⟩ | ⟨hvoid, hfixEq⟩
  · have hresult := rewrites h hclean hnested hbody (Or.inr ⟨hending, rfl⟩) (fun _ => hslash) (fun heq => by cases heq)
      (.single (by rw [hvoidEq]; exact isVoid_of_kind hvoid)) hnone hnone List.not_mem_nil Or.inr
    have hedit := Fix.applyAll_single (front ++ '<' :: before) ['/', '>'] tail ">" (some "Add closing tag")
    rw [hmark, hmarkStop] at hfixEq
    rw [← hsource, ← hfixEq, List.append_assoc] at hedit
    rw [hedit]
    exact hresult
  · have hopen : element.isVoid = false := by
      cases hcase : element.isVoid with
      | false => rfl
      | true => exact absurd (hrewritable.void hself hcase) hvoid
    have hclose : WholeEndTag tag.rawName ('<' :: '/' :: (tag.rawName ++ ['>'])) :=
      ⟨tag.rawName, [], by simp, by simp [eqIgnoreAsciiCase], by simp⟩
    have hbracket : ']' ∉ [] ++ '<' :: '/' :: (tag.rawName ++ ['>']) := by
      have hfree : ']' ∉ tag.rawName := h.rawName_eq ▸ hrewritable.bracket hself
      simpa using hfree
    have hpart : tag.rawName <:+: '<' :: before := h.name.isInfix.trans (List.suffix_cons '<' before).isInfix
    have htypes : Component.usesTypes ([] ++ '<' :: '/' :: (tag.rawName ++ ['>'])) = true →
        Component.usesTypes ('<' :: before) = true := by
      intro hused
      have hsplit := Component.usesTypes_split ('<' :: '/' :: tag.rawName) []
      rw [show Component.usesTypes [] = false from rfl, Bool.or_false,
        Component.usesTypes_cons, Component.usesTypes_cons] at hsplit
      exact Component.usesTypes_of_part hpart (hsplit.symm.trans hused)
    have hresult := rewrites h hclean hnested hbody (Or.inr ⟨hending, rfl⟩) (fun _ => hslash) (fun heq => by cases heq)
      (.pair (by rw [hvoidEq]; exact hopen) (by simp) hclose) hnone htypes hbracket fun hoccurs =>
        (occurs_endTag tail hoccurs).imp (occurs_of_part (by simp) hpart) fun htail => htail
    have hwhole : (File.ofSource languages source).document.spanOf id =
        ⟨byteLength front, byteLength front + byteLength ('<' :: before ++ ['/', '>'])⟩ := by
      rw [show (File.ofSource languages source).document.spanOf id = _ from h.spanOf_eq hbody, hending]
      simp [TagEnd.mark]
    have hstring : (File.ofSource languages source).string ⟨byteLength front, element.startTag.span.stop - 2⟩ =
        String.ofList ('<' :: before) := by
      have hslice := slice_append front ('<' :: before) (['/', '>'] ++ tail)
      rw [← List.append_assoc, ← hsource, ← byteLength_append, ← hmark] at hslice
      exact congrArg String.ofList hslice
    have hedit := Fix.applyAll_single front ('<' :: before ++ ['/', '>']) tail
      (String.ofList ('<' :: before) ++ "></" ++ element.rawName ++ ">") (some "Add closing tag")
    rw [hwhole, hstring] at hfixEq
    rw [List.append_assoc ('<' :: before), ← List.append_assoc front, ← hsource, ← hfixEq] at hedit
    have htext : (String.ofList ('<' :: before) ++ "></" ++ element.rawName ++ ">").toList =
        '<' :: before ++ (['>'] ++ ('<' :: '/' :: (tag.rawName ++ ['>']))) := by
      simp [String.toList_append, h.rawName_eq]
    rw [htext, List.append_assoc ('<' :: before), List.append_assoc ['>']] at hedit
    rw [hedit]
    exact hresult

/-- What the fix of a report leaves of the file: the element is self-closing if the message asked for it, and all else is kept. -/
theorem check_fix_rewrites {settings : Settings} {source : List Char} {id : NodeId} {element : Element} {report : Report}
    {fix : Fix} (hclean : (Component.parse languages source).problems = [])
    (helement : (File.ofSource languages source).document.element? id = some element)
    (hrewritable : Rewritable (File.ofSource languages source) element)
    (hreport : report ∈ check settings (File.ofSource languages source) id element) (hfix : report.fix = some fix) :
    Rewrites languages (report.messageId == "requireSelfClosing") source (Fix.applyAll source [fix]).output id element := by
  unfold check at hreport
  split at hreport
  · cases hreport
  · rename_i htop
    have hnested : (File.ofSource languages source).document.parent? id ≠ some 0 := fun heq => htop (beq_iff_eq.2 heq)
    split at hreport
    · rename_i hopen
      unfold requireClosing at hreport
      split at hreport
      · rename_i span hspan
        split at hreport
        · rename_i hblank
          obtain rfl := List.mem_singleton.1 hreport
          exact closingFix_rewrites hclean hnested helement hrewritable hopen hspan hblank hfix
        · cases hreport
      · cases hreport
    · rename_i hself
      obtain rfl := List.mem_singleton.1 hreport
      exact openingFix_rewrites hclean hnested helement hrewritable hself hfix
    · cases hreport

/-- Elements without content: one ends in a value without quotes, apart from the mark, and one is in SVG and closes itself. -/
def emptyElements : List Char :=
  "<template><div><p class=a > </p><svg><g id=\"b\"/></svg></div></template>".toList

/-- The modes in which the first of the elements has to be self-closing, and the second must not be. -/
def mixedModes : Settings :=
  .ofModes .usual .never .never

theorem check_fix_rewrites_emptyElements : (Component.parse Script.Dialect.language emptyElements).problems = [] ∧
    ∀ expected ∈ [(3, "requireSelfClosing", "<template><div><p class=a /><svg><g id=\"b\"/></svg></div></template>"),
        (6, "disallowSelfClosing", "<template><div><p class=a > </p><svg><g id=\"b\"></g></svg></div></template>")],
      ∃ element report fix, (File.ofSource Script.Dialect.language emptyElements).document.element? expected.1 = some element ∧
        Rewritable (File.ofSource Script.Dialect.language emptyElements) element ∧
        report ∈ check mixedModes (File.ofSource Script.Dialect.language emptyElements) expected.1 element ∧
          report.fix = some fix ∧
        report.messageId = expected.2.1 ∧ (Fix.applyAll emptyElements [fix]).output = expected.2.2.toList ∧
        Rewrites Script.Dialect.language (report.messageId == "requireSelfClosing") emptyElements
          (Fix.applyAll emptyElements [fix]).output expected.1
          element := by
  have hclean : (Component.parse Script.Dialect.language emptyElements).problems = [] := by decide +kernel
  refine ⟨hclean, fun expected hexpected => ?_⟩
  have hholds : ∀ expected ∈ [(3, "requireSelfClosing", "<template><div><p class=a /><svg><g id=\"b\"/></svg></div></template>"),
      (6, "disallowSelfClosing", "<template><div><p class=a > </p><svg><g id=\"b\"></g></svg></div></template>")],
      ((File.ofSource Script.Dialect.language emptyElements).document.element? expected.1).any fun element =>
        Rewritable (File.ofSource Script.Dialect.language emptyElements) element &&
          (check mixedModes (File.ofSource Script.Dialect.language emptyElements) expected.1 element).any
          fun report => report.messageId == expected.2.1 && report.fix.any fun fix =>
            (Fix.applyAll emptyElements [fix]).output == expected.2.2.toList := by
    decide +kernel
  obtain ⟨element, helement, hchecked⟩ := (Option.any_eq_true _ _).1 (hholds expected hexpected)
  obtain ⟨hrewritable, hreports⟩ := Bool.and_eq_true_iff.1 hchecked
  obtain ⟨report, hreport, hfound⟩ := List.any_eq_true.1 hreports
  obtain ⟨hmessage, hfixes⟩ := Bool.and_eq_true_iff.1 hfound
  obtain ⟨fix, hfix, houtput⟩ := (Option.any_eq_true _ _).1 hfixes
  exact ⟨element, report, fix, helement, of_decide_eq_true hrewritable, hreport, hfix, eq_of_beq hmessage, eq_of_beq houtput,
    check_fix_rewrites hclean helement (of_decide_eq_true hrewritable) hreport hfix⟩

/-- An element with a value without quotes right before the mark, which takes the slash. -/
def bareValue : List Char :=
  "<template><div><p class=a></p></div></template>".toList

theorem not_rewrites_bareValue : (Component.parse Script.Dialect.language bareValue).problems = [] ∧ ∃ element report fix,
    (File.ofSource Script.Dialect.language bareValue).document.element? 3 = some element ∧
      report ∈ check (.ofModes .usual .always .always) (File.ofSource Script.Dialect.language bareValue) 3 element ∧
        report.fix = some fix ∧
      ¬Rewrites Script.Dialect.language (report.messageId == "requireSelfClosing") bareValue
        (Fix.applyAll bareValue [fix]).output 3 element := by
  have hholds : ((File.ofSource Script.Dialect.language bareValue).document.element? 3).any fun element =>
      (check (.ofModes .usual .always .always) (File.ofSource Script.Dialect.language bareValue) 3 element).any fun report =>
        report.messageId == "requireSelfClosing" && report.fix.any fun fix =>
          ((Component.parse Script.Dialect.language (Fix.applyAll bareValue [fix]).output).document.element? 3).all
            (!·.startTag.selfClosing) := by
    decide +kernel
  refine ⟨by decide +kernel, ?_⟩
  obtain ⟨element, helement, hchecked⟩ := (Option.any_eq_true _ _).1 hholds
  obtain ⟨report, hreport, hfound⟩ := List.any_eq_true.1 hchecked
  obtain ⟨hmessage, hfixes⟩ := Bool.and_eq_true_iff.1 hfound
  obtain ⟨fix, hfix, hopen⟩ := (Option.any_eq_true _ _).1 hfixes
  refine ⟨element, report, fix, helement, hreport, hfix, fun hrewrites => ?_⟩
  obtain ⟨new, hnew, -, -, -, hself⟩ := hrewrites.element
  rw [hnew, Option.all_some, hself, hmessage] at hopen
  cases hopen

end Rules.SelfClosing

end ComponentLint
