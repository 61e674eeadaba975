import ComponentLint.Proofs.Fix.Drafting
import ComponentLint.Proofs.Fix.Splice
import ComponentLint.Proofs.Markup.Interpolations
import ComponentLint.Proofs.Text.Blanks
import ComponentLint.Rules.MustacheSpacing

/-!
# Fixes of the spacing in interpolations

The fixes of the rule exchange the blanks at the two ends of an interpolation. Made together they leave the text
between the blanks where it was, and the rule has nothing more to say about it, exactly if the text with the
other blanks is still an expression and does not give its last brace away (`check_fixes_keep`). The rule does
not look at the text: without the blank before the closing braces the last brace of an object ends the
interpolation (`not_keeps_objectLiteral`).
-/

namespace ComponentLint

open Text Markup

namespace Rules.MustacheSpacing

open Builder

variable {languages : Script.Languages}

/-- What is left of an interpolation in an edited file: it stands where it was and differs only in the blanks at its ends, and the
rule reports nothing for it. -/
structure KeepsExpression (languages : Script.Languages) (spacing : Spacing) (source edited : List Char) (id : NodeId)
    (content : Interpolation) : Prop where
  clean : (Component.parse languages edited).problems = []
  interpolation : ∃ new, (File.ofSource languages edited).document.interpolation? id = some new ∧ new.opening = content.opening ∧
    trim ((File.ofSource languages edited).text ⟨new.opening.stop, new.closing.start⟩) =
      trim ((File.ofSource languages source).text ⟨content.opening.stop, content.closing.start⟩) ∧
    check spacing (File.ofSource languages edited) id new = []

/-- The fixes of an interpolation. -/
def fixesOf (languages : Script.Languages) (spacing : Spacing) (source : List Char) (id : NodeId) (content : Interpolation) :
    List Fix :=
  (check spacing (File.ofSource languages source) id content).filterMap (·.fix)

/-- A file with all fixes of an interpolation made. -/
def fixed (languages : Script.Languages) (spacing : Spacing) (source : List Char) (id : NodeId) (content : Interpolation) :
    FixedText :=
  Fix.applyAll source (fixesOf languages spacing source id content)

/-! ## The blanks at an end -/

/-- The blanks that should stand at an end where there are others. -/
def Spacing.blank (spacing : Spacing) (blank : List Char) : List Char :=
  match spacing with
  | .always => if blank = [] then [' '] else blank
  | .never => []

/-- The text between the braces with the blanks that should stand at its ends. -/
def Spacing.respace (spacing : Spacing) (inner : List Char) : List Char :=
  spacing.blank (inner.takeWhile isSpace) ++ (trim inner ++ spacing.blank (inner.reverse.takeWhile isSpace).reverse)

/-- The edits of the blanks at one end, at most one. -/
def Spacing.endEdits (spacing : Spacing) (offset : Nat) (blank : List Char) : List Edit :=
  if spacing.blank blank = blank then []
  else [⟨⟨offset, offset + byteLength blank⟩, String.ofList (spacing.blank blank)⟩]

/-- The edits of the blanks at both ends of a text. -/
def Spacing.edits (spacing : Spacing) (offset : Nat) (lead core trail : List Char) : List Edit :=
  spacing.endEdits offset lead ++ spacing.endEdits (offset + byteLength (lead ++ core)) trail

namespace Spacing

variable {spacing : Spacing} {offset : Nat} {blank : List Char}

theorem blank_blank : spacing.blank (spacing.blank blank) = spacing.blank blank := by
  cases spacing with
  | always => by_cases h : blank = [] <;> simp [Spacing.blank, h]
  | never => rfl

theorem isSpace_blank (h : ∀ c ∈ blank, isSpace c = true) : ∀ c ∈ spacing.blank blank, isSpace c = true := by
  cases spacing with
  | always =>
    by_cases hblank : blank = []
    · rw [show Spacing.always.blank blank = [' '] from if_pos hblank]
      exact List.forall_mem_singleton.2 rfl
    · rwa [show Spacing.always.blank blank = blank from if_neg hblank]
  | never => exact nofun

theorem always_blank_ne_iff : Spacing.always.blank blank ≠ blank ↔ blank = [] := by
  by_cases h : blank = [] <;> simp [Spacing.blank, h]

theorem never_blank_ne_iff : Spacing.never.blank blank ≠ blank ↔ blank ≠ [] :=
  ne_comm

theorem endEdits_of_blank_eq (h : spacing.blank blank = blank) : spacing.endEdits offset blank = [] :=
  if_pos h

/-- A text can only be left without a blank at its end if the spacing asks for none. -/
theorem never_of_blank_eq_nil (h : spacing.blank blank = []) : spacing = .never := by
  cases spacing with
  | always =>
    by_cases hblank : blank = [] <;> simp [Spacing.blank, hblank] at h
  | never => rfl

theorem respace_of_framed {inner lead core trail : List Char} (h : Framed inner lead core trail) :
    spacing.respace inner = spacing.blank lead ++ (core ++ spacing.blank trail) := by
  rw [respace, h.trim_eq, h.takeWhile_eq, h.takeWhile_reverse_eq, List.reverse_reverse]

theorem framed_blank {inner lead core trail : List Char} (h : Framed inner lead core trail) :
    Framed (spacing.blank lead ++ (core ++ spacing.blank trail)) (spacing.blank lead) core (spacing.blank trail) :=
  h.reframe (isSpace_blank h.leads) (isSpace_blank h.trails)

/-- The edits of an end exchange the blanks there. -/
theorem spliced {edits : List Edit} {rest output : List Char} (h : Spliced (offset + byteLength blank) rest edits output) :
    Spliced offset (blank ++ rest) (spacing.endEdits offset blank ++ edits) (spacing.blank blank ++ output) := by
  unfold Spacing.endEdits
  split
  · rename_i hsame
    rw [hsame]
    exact h.prepend_kept
  · have hedit := @Spliced.edit offset [] blank rest output ⟨⟨offset, offset + byteLength blank⟩,
      String.ofList (spacing.blank blank)⟩ edits rfl h
    simpa using hedit

theorem sound_of_mem_endEdits {source front rest : List Char} {edit : Edit} (hsource : source = front ++ (blank ++ rest))
    (hedit : edit ∈ spacing.endEdits (byteLength front) blank) : edit.Sound source ∧ edit.span =
      ⟨byteLength front, byteLength front + byteLength blank⟩ := by
  unfold Spacing.endEdits at hedit
  split at hedit
  · cases hedit
  · obtain rfl := List.mem_singleton.1 hedit
    refine ⟨⟨Nat.le_add_right _ _, ?_, ?_⟩, rfl⟩
    · rw [hsource]
      exact isBoundary_append front (blank ++ rest)
    · have hboundary := isBoundary_append (front ++ blank) rest
      rwa [byteLength_append, List.append_assoc, ← hsource] at hboundary

theorem pairwise_endEdits (R : Edit → Edit → Prop) : (spacing.endEdits offset blank).Pairwise R := by
  unfold Spacing.endEdits
  split
  · exact .nil
  · exact List.pairwise_singleton R _

/-- The edits of both ends of a text are made together. -/
theorem applyAll_edits {source front lead core trail rest : List Char}
    (hsource : source = front ++ (lead ++ (core ++ (trail ++ rest))))
    (hcore : core ≠ []) : Fix.applyAll source ((spacing.edits (byteLength front) lead core trail).map fun edit =>
      ⟨[edit], none⟩) =
      ⟨front ++ (spacing.blank lead ++ (core ++ (spacing.blank trail ++ rest))),
        (spacing.edits (byteLength front) lead core trail).length, 0⟩ := by
  have hlead : ∀ edit ∈ spacing.endEdits (byteLength front) lead, edit.Sound source ∧
      edit.span = ⟨byteLength front, byteLength front + byteLength lead⟩ := fun edit => sound_of_mem_endEdits hsource
  have htrail : ∀ edit ∈ spacing.endEdits (byteLength front + byteLength (lead ++ core)) trail, edit.Sound source ∧
      edit.span = ⟨byteLength front + byteLength (lead ++ core),
        byteLength front + byteLength (lead ++ core) + byteLength trail⟩ := by
    have hsplit : source = (front ++ (lead ++ core)) ++ (trail ++ rest) := by
      rw [hsource]
      simp
    rw [← byteLength_append]
    exact fun edit => sound_of_mem_endEdits hsplit
  have hsound : ∀ edit ∈ spacing.edits (byteLength front) lead core trail, edit.Sound source := by
    intro edit hedit
    rcases List.mem_append.1 hedit with hedit | hedit
    · exact (hlead edit hedit).1
    · exact (htrail edit hedit).1
  have happart : (spacing.edits (byteLength front) lead core trail).Pairwise fun a b => a.span.stop < b.span.start := by
    refine List.pairwise_append.2 ⟨pairwise_endEdits _, pairwise_endEdits _, fun edit hedit next hnext => ?_⟩
    have hpos := (byteLength_pos_iff core).2 hcore
    rw [(hlead edit hedit).2, (htrail next hnext).2]
    simp only [byteLength_append]
    omega
  have hspliced : Spliced 0 source (spacing.edits (byteLength front) lead core trail)
      (front ++ (spacing.blank lead ++ (core ++ (spacing.blank trail ++ rest)))) := by
    have htrailed := @spliced spacing (byteLength front + byteLength (lead ++ core)) trail [] rest rest (.done _ rest)
    rw [List.append_nil, byteLength_append, ← Nat.add_assoc] at htrailed
    rw [hsource, Spacing.edits, byteLength_append, ← Nat.add_assoc]
    refine Spliced.prepend_kept ?_
    rw [Nat.zero_add]
    exact spliced htrailed.prepend_kept
  have hlength : ((spacing.edits (byteLength front) lead core trail).map fun edit => (⟨[edit], none⟩ : Fix)).length =
      (spacing.edits (byteLength front) lead core trail).length := List.length_map _
  rw [← hlength]
  refine Fix.applyAll_of_spliced (fun fix hfix => ?_) (List.pairwise_map.2 happart) ?_
  · obtain ⟨edit, hedit, rfl⟩ := List.mem_map.1 hfix
    exact ⟨fun other hother => List.mem_singleton.1 hother ▸ hsound edit hedit, List.pairwise_singleton _ edit⟩
  · rw [List.flatMap_map, List.flatMap_singleton']
    exact hspliced

end Spacing

/-! ## What is reported -/

section Check

variable {spacing : Spacing} {file : File} {id : NodeId} {content : Interpolation} {inner lead core trail : List Char}

theorem leadingBlank_of_framed (h : Framed inner lead core trail) : leadingBlank inner = byteLength lead := by
  rw [leadingBlank, h.trimStart_eq, h.text_eq]
  simp only [byteLength_append]
  omega

theorem trailingBlank_of_framed (h : Framed inner lead core trail) : trailingBlank inner = byteLength trail := by
  rw [trailingBlank, h.trimEnd_eq, h.text_eq]
  simp only [byteLength_append]
  omega

/-- A report about an end, if it has other blanks than it should have. -/
theorem end_fixes {condition : Bool} {report : Report} {fix : Option Fix} {offset : Nat} {blank : List Char}
    (hcondition : condition = true ↔ spacing.blank blank ≠ blank) (hfix : condition = true →
      fix = some ⟨[⟨⟨offset, offset + byteLength blank⟩, String.ofList (spacing.blank blank)⟩], none⟩) :
    (if condition = true then [report.withFix fix] else []).map (·.fix) =
      (spacing.endEdits offset blank).map fun edit => some ⟨[edit], none⟩ := by
  unfold Spacing.endEdits
  by_cases h : condition = true
  · rw [if_pos h, if_neg (hcondition.1 h), hfix h]
    rfl
  · rw [if_neg h, if_pos (not_not.1 (mt hcondition.2 h))]
    rfl

/-- The fixes exchange the blanks at the ends that have other blanks than they should have. -/
theorem check_fixes (hinner : file.text ⟨content.opening.stop, content.closing.start⟩ = inner)
    (hframed : Framed inner lead core trail)
    (hstop : content.closing.start = content.opening.stop + byteLength inner) (hlength : content.closing.start ≤ file.length)
    (hsome : content.expression.isSome = true) : (check spacing file id content).map (·.fix) =
      (spacing.edits content.opening.stop lead core trail).map fun edit => some ⟨[edit], none⟩ := by
  have hnone : ¬content.expression.isNone = true := by simpa [← Option.isSome_iff_ne_none] using hsome
  have hparts : byteLength inner = byteLength (lead ++ core) + byteLength trail := by
    rw [hframed.text_eq, ← List.append_assoc, byteLength_append]
  have hlast : content.closing.start - byteLength trail = content.opening.stop + byteLength (lead ++ core) := by omega
  have hfirst : content.opening.stop + byteLength lead ≤ content.closing.start := by
    have := byteLength_append lead core
    omega
  -- An edit in the text is a fix.
  have hbuild : ∀ {span : Span} (text : String), span.stop ≤ content.closing.start →
      (file.draft.add span text).build? = some ⟨[⟨span, text⟩], none⟩ := fun text hspan =>
    FixDraft.build?_add_of_le rfl rfl (Nat.le_trans hspan hlength) text
  have hremove : ∀ {first last : Nat}, first ≤ last → last ≤ content.closing.start →
      (file.draft.removeBetween first last).build? = some ⟨[⟨⟨first, last⟩, ""⟩], none⟩ := fun {first last} hle hspan => by
    rw [FixDraft.removeBetween, FixDraft.replaceBetween, if_neg (Nat.not_lt.2 hle)]
    exact @hbuild ⟨first, last⟩ "" hspan
  unfold check Spacing.edits
  dsimp only
  rw [hinner, leadingBlank_of_framed hframed, trailingBlank_of_framed hframed, if_neg hnone, hlast]
  cases spacing with
  | always =>
    dsimp only
    rw [List.map_append, List.map_append]
    refine congrArg₂ (· ++ ·) (end_fixes ?_ fun h => ?_) (end_fixes ?_ fun h => ?_)
    · rw [Spacing.always_blank_ne_iff, ← byteLength_eq_zero_iff, beq_iff_eq, Nat.add_eq_left]
    · obtain rfl : lead = [] := (byteLength_eq_zero_iff lead).1 (Nat.add_eq_left.1 (beq_iff_eq.1 h))
      exact hbuild " " (by simpa using hfirst)
    · rw [Spacing.always_blank_ne_iff, ← byteLength_eq_zero_iff, beq_iff_eq]
      omega
    · obtain rfl : trail = [] := (byteLength_eq_zero_iff trail).1 (by have := beq_iff_eq.1 h; omega)
      rw [beq_iff_eq.1 h]
      exact hbuild " " (Nat.le_refl _)
  | never =>
    dsimp only
    rw [List.map_append, List.map_append]
    refine congrArg₂ (· ++ ·) (end_fixes ?_ fun _ => ?_) (end_fixes ?_ fun _ => ?_)
    · rw [Spacing.never_blank_ne_iff, Ne, ← byteLength_eq_zero_iff, bne_iff_ne, Ne, Nat.add_eq_left]
    · exact hremove (Nat.le_add_right _ _) hfirst
    · rw [Spacing.never_blank_ne_iff, Ne, ← byteLength_eq_zero_iff, bne_iff_ne]
      omega
    · rw [show content.closing.start = content.opening.stop + byteLength (lead ++ core) + byteLength trail by omega]
      exact hremove (Nat.le_add_right _ _) (by omega)

end Check

/-! ## What is left -/

/-- Whether the text between the braces can stand between them with other blanks: it does not give its last
brace away, and is still an expression. -/
structure Respaceable (languages : Script.Languages) (spacing : Spacing) (source : List Char) (content : Interpolation) :
    Prop where
  brace : spacing = .never →
    (trim ((File.ofSource languages source).text ⟨content.opening.stop, content.closing.start⟩)).getLast? ≠ some '}'
  expression : (Fragment.expression? (languages ⟨Component.usesTypes source, false⟩) content.opening.stop
    (spacing.respace ((File.ofSource languages source).text ⟨content.opening.stop, content.closing.start⟩))).isSome = true

instance (languages : Script.Languages) (spacing : Spacing) (source : List Char) (content : Interpolation) :
    Decidable (Respaceable languages spacing source content) :=
  decidable_of_iff ((_ → _) ∧ _) ⟨fun ⟨hbrace, hexpression⟩ => ⟨hbrace, hexpression⟩, fun h => ⟨h.brace, h.expression⟩⟩

theorem isBlank_of_expression {language : Script.Language} {offset : Nat} {text : List Char}
    (h : (Fragment.expression? language offset text).isSome = true) : isBlank text = false := by
  unfold Fragment.expression? at h
  split at h
  · cases h
  · rename_i hblank
    exact Bool.eq_false_iff.2 hblank

section Edited

variable {spacing : Spacing} {source edited : List Char} {id : Nat} {content : Interpolation} {builder last : Builder}
  {front inner lead core trail tail : List Char}

theorem text_interpolation (languages : Script.Languages)
    (hsource : source = front ++ '{' :: '{' :: (inner ++ '}' :: '}' :: tail)) (language : Script.Language) :
    (File.ofSource languages source).text ⟨(interpolationOf language (byteLength front) inner).opening.stop,
      (interpolationOf language (byteLength front) inner).closing.start⟩ = inner := by
  rw [hsource]
  exact slice_interpolation front inner tail

theorem closing_le (hsource : source = front ++ '{' :: '{' :: (inner ++ '}' :: '}' :: tail)) (language : Script.Language) :
    (interpolationOf language (byteLength front) inner).closing.start ≤ (File.ofSource languages source).length := by
  show byteLength front + 2 + byteLength inner ≤ byteLength source
  rw [hsource, ← interpolation_append, byteLength_append, byteLength_append, byteLength_interpolation]
  omega

/-- An interpolation with blanks as they should be is not reported. -/
theorem check_respaced {language : Script.Language} (hframed : Framed inner (spacing.blank lead) core (spacing.blank trail))
    (hedited : edited = front ++ '{' :: '{' :: (inner ++ '}' :: '}' :: tail))
    (hsome : (interpolationOf language (byteLength front) inner).expression.isSome = true) :
    check spacing (File.ofSource languages edited) id (interpolationOf language (byteLength front) inner) = [] := by
  have hfixes := @check_fixes spacing (File.ofSource languages edited) id _ _ _ _ _
    (text_interpolation languages hedited language) hframed rfl
    (closing_le hedited language) hsome
  rw [Spacing.edits, Spacing.endEdits_of_blank_eq Spacing.blank_blank, Spacing.endEdits_of_blank_eq Spacing.blank_blank] at hfixes
  exact List.map_eq_nil_iff.1 hfixes

theorem occurs_core (hframed : Framed inner lead core trail) (hclosed : occurs ['}', '}'] (inner ++ ['}']) = false) :
    occurs ['}', '}'] core = false := by
  rw [Bool.eq_false_iff]
  intro hoccurs
  obtain ⟨before, after, rfl⟩ := (occurs_iff (by simp)).1 hoccurs
  rw [hframed.text_eq, (occurs_iff (by simp)).2 ⟨lead ++ before, after ++ trail ++ ['}'], by simp⟩] at hclosed
  cases hclosed

section Respaced

variable (h : Interpolates (languages ⟨Component.usesTypes source, false⟩) source id content builder last front inner tail)
  (hframed : Framed inner lead core trail)

include h hframed

/-- With other blanks around it a text still ends where it did, unless its last brace comes next to the closing ones. -/
theorem occurs_respaced (hbrace : spacing = .never → core.getLast? ≠ some '}') :
    occurs ['}', '}'] (spacing.blank lead ++ (core ++ spacing.blank trail) ++ ['}']) = false :=
  occurs_blanks (occurs_core hframed h.closed) (Spacing.isSpace_blank hframed.leads) (Spacing.isSpace_blank hframed.trails)
    fun hnil => hbrace (Spacing.never_of_blank_eq_nil hnil)

/-- When a text can do with other blanks, said of its parts. -/
theorem respaceable_iff : Respaceable languages spacing source content ↔ (spacing = .never → core.getLast? ≠ some '}') ∧
    (Fragment.expression? (languages ⟨Component.usesTypes source, false⟩) (byteLength front + 2)
      (spacing.blank lead ++ (core ++ spacing.blank trail))).isSome = true := by
  have htext := text_interpolation languages h.source_eq (languages ⟨Component.usesTypes source, false⟩)
  rw [← h.content_eq] at htext
  have hstop : content.opening.stop = byteLength front + 2 := by rw [h.content_eq]; rfl
  constructor
  · rintro ⟨hbrace, hexpression⟩
    rw [htext, hframed.trim_eq] at hbrace
    rw [htext, Spacing.respace_of_framed hframed, hstop] at hexpression
    exact ⟨hbrace, hexpression⟩
  · rintro ⟨hbrace, hexpression⟩
    refine ⟨?_, ?_⟩
    · rw [htext, hframed.trim_eq]
      exact hbrace
    · rw [htext, Spacing.respace_of_framed hframed, hstop]
      exact hexpression

variable (hedited : edited = front ++ '{' :: '{' :: (spacing.blank lead ++ (core ++ spacing.blank trail) ++ '}' :: '}' :: tail))

include hedited

theorem usesTypes_respaced : Component.usesTypes edited = Component.usesTypes source := by
  have hsource := h.source_eq
  rw [hframed.text_eq] at hsource
  rw [hsource, hedited, Component.usesTypes_blanks hframed.leads hframed.trails,
    Component.usesTypes_blanks (Spacing.isSpace_blank hframed.leads) (Spacing.isSpace_blank hframed.trails)]

theorem document_respaced :
    (Component.parse languages edited).document = (Markup.parse (languages ⟨Component.usesTypes source, false⟩) edited).1 := by
  rw [← usesTypes_respaced h hframed hedited]
  rfl

omit h hedited in
theorem bracket_respaced (hmem : ']' ∈ spacing.blank lead ++ (core ++ spacing.blank trail)) : ']' ∈ inner := by
  have hblank : ∀ {blank : List Char}, (∀ c ∈ blank, isSpace c = true) → ']' ∉ spacing.blank blank := fun hspace hmem =>
    absurd (Spacing.isSpace_blank hspace _ hmem) (by decide)
  rw [hframed.text_eq]
  rcases List.mem_append.1 hmem with hmem | hmem
  · exact absurd hmem (hblank hframed.leads)
  · rcases List.mem_append.1 hmem with hmem | hmem
    · exact List.mem_append_right _ (List.mem_append_left _ hmem)
    · exact absurd hmem (hblank hframed.trails)

theorem keeps_of_respaceable (hclean : (Component.parse languages source).problems = [])
    (hrespaceable : Respaceable languages spacing source content) :
    KeepsExpression languages spacing source edited id content := by
  obtain ⟨hbrace, hsome⟩ := (respaceable_iff h hframed).1 hrespaceable
  have hclosed := occurs_respaced h hframed hbrace
  have hframed' : Framed _ (spacing.blank lead) core (spacing.blank trail) := Spacing.framed_blank hframed
  obtain ⟨haround, hmarkup⟩ := h.respace ((Component.problems_eq_nil_iff source).1 hclean).1
    (bracket_respaced hframed) hclosed hframed'.isBlank_eq hedited hsome
  have hnew := h.interpolation?_reread (bracket_respaced hframed) rfl hclosed hedited
  rw [← document_respaced h hframed hedited] at haround hnew
  obtain ⟨node, hnode, hkind⟩ := Document.interpolation?_eq_some_iff.1 hnew
  refine ⟨?_, _, hnew, ?_, ?_, check_respaced hframed' hedited hsome⟩
  · refine @Component.problems_edited languages (Interpolates.revision source edited front inner _) _ id
      (usesTypes_respaced h hframed hedited)
      haround hclean hmarkup (fun element helement => ?_) fun found hfound => ?_
    · obtain ⟨found, hfound, helement⟩ := Document.element?_eq_some_iff.1 helement
      cases hnode.symm.trans hfound
      cases hkind.symm.trans helement
    · cases hnode.symm.trans hfound
      rw [hkind]
      exact nofun
  · rw [h.content_eq]
    rfl
  · rw [text_interpolation languages hedited, hframed'.trim_eq, h.content_eq,
      text_interpolation languages h.source_eq, hframed.trim_eq]

/-- If the last brace of a text comes next to the closing ones, the interpolation ends before it. -/
theorem not_keeps_of_brace (hnever : spacing = .never) (hlast : core.getLast? = some '}') :
    ¬KeepsExpression languages spacing source edited id content := by
  rintro ⟨-, new, hnew, -, htrim, -⟩
  subst hnever
  obtain ⟨early, rfl⟩ := List.getLast?_eq_some_iff.1 hlast
  have hread : Spacing.never.blank lead ++ (early ++ ['}'] ++ Spacing.never.blank trail) ++ '}' :: '}' :: tail =
      early ++ '}' :: '}' :: '}' :: tail := by simp [Spacing.blank]
  have hnew' := h.interpolation?_reread (bracket_respaced hframed) hread (occurs_core hframed h.closed) hedited
  rw [← document_respaced h hframed hedited] at hnew'
  cases hnew.symm.trans hnew'
  rw [hread] at hedited
  rw [text_interpolation languages hedited, h.content_eq, text_interpolation languages h.source_eq, hframed.trim_eq] at htrim
  have hle := Nat.le_trans (byteLength_trimEnd (trimStart early)) (byteLength_trimStart early)
  rw [← trim, htrim, byteLength_append] at hle
  have hbrace := (byteLength_pos_iff ['}']).2 (by simp)
  omega

theorem respaceable_of_keeps (hkeeps : KeepsExpression languages spacing source edited id content) :
    Respaceable languages spacing source content := by
  have hbrace : spacing = .never → core.getLast? ≠ some '}' := fun hnever hlast =>
    not_keeps_of_brace h hframed hedited hnever hlast hkeeps
  have hmarkup := ((Component.problems_eq_nil_iff edited).1 hkeeps.clean).1
  rw [usesTypes_respaced h hframed hedited] at hmarkup
  exact (respaceable_iff h hframed).2 ⟨hbrace, h.isSome_of_clean (bracket_respaced hframed) (occurs_respaced h hframed hbrace)
    (Spacing.framed_blank hframed).isBlank_eq hedited hmarkup⟩

end Respaced

/-- All fixes of an interpolation can be made together, and exchange the blanks around its text. -/
theorem fixed_eq {language : Script.Language} (h : Interpolates language source id content builder last front inner tail)
    (hframed : Framed inner lead core trail) (hsome : content.expression.isSome = true) :
    fixed languages spacing source id content =
      ⟨front ++ '{' :: '{' :: (spacing.blank lead ++ (core ++ spacing.blank trail) ++ '}' :: '}' :: tail),
        (check spacing (File.ofSource languages source) id content).length, 0⟩ := by
  have hfixes : (check spacing (File.ofSource languages source) id content).map (·.fix) =
      (spacing.edits (byteLength (front ++ ['{', '{'])) lead core trail).map fun edit => some ⟨[edit], none⟩ := by
    rw [h.content_eq] at hsome ⊢
    rw [byteLength_append]
    exact check_fixes (text_interpolation languages h.source_eq language) hframed rfl (closing_le h.source_eq language) hsome
  have hmade : fixesOf languages spacing source id content =
      (spacing.edits (byteLength (front ++ ['{', '{'])) lead core trail).map fun edit => ⟨[edit], none⟩ := by
    have hkept := congrArg (List.filterMap fun fix => fix) hfixes
    simpa [List.filterMap_map, fixesOf] using hkept
  have hsource : source = (front ++ ['{', '{']) ++ (lead ++ (core ++ (trail ++ '}' :: '}' :: tail))) := by
    rw [h.source_eq, hframed.text_eq]
    simp
  have hlength := congrArg List.length hfixes
  rw [List.length_map, List.length_map] at hlength
  rw [fixed, hmade, hlength, Spacing.applyAll_edits hsource hframed.nonempty]
  simp only [List.append_assoc, List.cons_append, List.nil_append]

end Edited

section Fixes

variable {spacing : Spacing} {source : List Char} {id : NodeId} {content : Interpolation}

/-- All fixes of an interpolation can be made together. They keep the expression exactly if it can do with other blanks. -/
theorem check_fixes_keep (hclean : (Component.parse languages source).problems = [])
    (hcontent : (File.ofSource languages source).document.interpolation? id = some content) :
    (fixed languages spacing source id content).applied = (check spacing (File.ofSource languages source) id content).length ∧
      (fixed languages spacing source id content).remaining = 0 ∧
      (KeepsExpression languages spacing source (fixed languages spacing source id content).output id content ↔
        (content.expression.isSome = true → Respaceable languages spacing source content)) := by
  by_cases hsome : content.expression.isSome = true
  · obtain ⟨builder, last, front, inner, tail, h⟩ := exists_interpolates hcontent
    have hblank : isBlank inner = false := by
      rw [h.content_eq] at hsome
      exact isBlank_of_expression hsome
    obtain ⟨lead, core, trail, hframed⟩ := exists_framed hblank
    rw [fixed_eq h hframed hsome]
    exact ⟨rfl, rfl, fun hkeeps _ => respaceable_of_keeps h hframed rfl hkeeps,
      fun hrespaceable => keeps_of_respaceable h hframed rfl hclean (hrespaceable hsome)⟩
  · have hnone : check spacing (File.ofSource languages source) id content = [] := by
      unfold check
      exact if_pos (by simpa using hsome)
    have happlied : Fix.applyAll source [] = ⟨source, 0, 0⟩ := Fix.applyAll_of_spliced nofun .nil (.done 0 source)
    rw [fixed, fixesOf, hnone, List.filterMap_nil, happlied]
    exact ⟨rfl, rfl, fun _ h => absurd h hsome, fun _ => ⟨hclean, content, hcontent, rfl, rfl, hnone⟩⟩

end Fixes

/-- Two interpolations, one without blanks and one with them. -/
def twoTexts : List Char :=
  "<template><p>\x7b\x7ba\x7d\x7d\x7b\x7b \x7bb\x7d.b \x7d\x7d</p></template>".toList

/-- The fixes of the two interpolations: the spacing, the node and what becomes of the file. -/
def twoTextsFixed : List (Spacing × NodeId × String) :=
  [(.always, 3, "<template><p>\x7b\x7b a \x7d\x7d\x7b\x7b \x7bb\x7d.b \x7d\x7d</p></template>"),
   (.never, 4, "<template><p>\x7b\x7ba\x7d\x7d\x7b\x7b\x7bb\x7d.b\x7d\x7d</p></template>")]

/-- Whether the fixes of an interpolation are in order and make a text. -/
def fixesTo (languages : Script.Languages) (spacing : Spacing) (source : List Char) (id : NodeId) (content : Interpolation)
    (output : List Char) : Bool :=
  decide ((fixesOf languages spacing source id content).Pairwise fun a b => a.span.le b.span = true) &&
    (((fixesOf languages spacing source id content).foldl (FixPass.take source) .start).finish source).output == output

theorem output_of_fixesTo {spacing : Spacing} {source output : List Char} {id : NodeId} {content : Interpolation}
    (h : fixesTo languages spacing source id content output = true) :
    (fixed languages spacing source id content).output = output := by
  obtain ⟨hpairwise, houtput⟩ := Bool.and_eq_true_iff.1 h
  rw [fixed, Fix.applyAll_of_pairwise (of_decide_eq_true hpairwise)]
  exact eq_of_beq houtput

theorem check_fixes_keep_twoTexts : (Component.parse Script.Dialect.language twoTexts).problems = [] ∧ ∀ expected ∈ twoTextsFixed,
    ∃ content, (File.ofSource Script.Dialect.language twoTexts).document.interpolation? expected.2.1 = some content ∧
      (fixed Script.Dialect.language expected.1 twoTexts expected.2.1 content).output = expected.2.2.toList ∧
      KeepsExpression Script.Dialect.language expected.1 twoTexts
        (fixed Script.Dialect.language expected.1 twoTexts expected.2.1 content).output expected.2.1 content := by
  have hclean : (Component.parse Script.Dialect.language twoTexts).problems = [] := by decide +kernel
  have hholds : ∀ expected ∈ twoTextsFixed,
    ((File.ofSource Script.Dialect.language twoTexts).document.interpolation? expected.2.1).any fun content =>
      fixesTo Script.Dialect.language expected.1 twoTexts expected.2.1 content expected.2.2.toList && decide
        (Respaceable Script.Dialect.language expected.1 twoTexts content) := by
    decide +kernel
  refine ⟨hclean, fun expected hexpected => ?_⟩
  obtain ⟨content, hcontent, hchecked⟩ := (Option.any_eq_true _ _).1 (hholds expected hexpected)
  obtain ⟨houtput, hrespaceable⟩ := Bool.and_eq_true_iff.1 hchecked
  exact ⟨content, hcontent, output_of_fixesTo houtput,
    (check_fixes_keep hclean hcontent).2.2.2 fun _ => of_decide_eq_true hrespaceable⟩

/-- An object, whose last brace ends the interpolation once it comes next to the closing ones. -/
def objectLiteral : List Char :=
  "<template><p>\x7b\x7b \x7ba: 1\x7d \x7d\x7d</p></template>".toList

/-- The object without the blanks around it. -/
def unspacedObject : List Char :=
  "<template><p>\x7b\x7b\x7ba: 1\x7d\x7d\x7d</p></template>".toList

theorem not_keeps_objectLiteral : (Component.parse Script.Dialect.language objectLiteral).problems = [] ∧ ∃ content,
    (File.ofSource Script.Dialect.language objectLiteral).document.interpolation? 3 = some content ∧
      (fixed Script.Dialect.language .never objectLiteral 3 content).output = unspacedObject ∧
      ¬KeepsExpression Script.Dialect.language .never objectLiteral
        (fixed Script.Dialect.language .never objectLiteral 3 content).output 3 content := by
  have hholds : ((File.ofSource Script.Dialect.language objectLiteral).document.interpolation? 3).any fun content =>
      fixesTo Script.Dialect.language .never objectLiteral 3 content unspacedObject := by
    decide +kernel
  have hbroken : (Component.parse Script.Dialect.language unspacedObject).problems ≠ [] := by decide +kernel
  obtain ⟨content, hcontent, hfixed⟩ := (Option.any_eq_true _ _).1 hholds
  have houtput := output_of_fixesTo hfixed
  refine ⟨by decide +kernel, content, hcontent, houtput, fun hkeeps => hbroken ?_⟩
  rw [← houtput]
  exact hkeeps.clean

end Rules.MustacheSpacing

end ComponentLint
