import ComponentLint.Proofs.Markup.EmptyElements
import ComponentLint.Proofs.Text.Positions
import Mathlib.Data.List.TakeWhile

/-!
# Revisions of a component

An edit in the template keeps the tree around it: every other node is still there, under the same parent and in the same order
(`Document.KeepsAround`). The scripts of the component are then the same too, so the edit gives no problem in them.
-/

namespace ComponentLint

open Text Markup

namespace Markup

variable {languages : Script.Languages}

/-- The tree of an edited file is that of the file but for one node, which the edit changes, and blank texts in it: `rename` tells
which node of the file a node of the edited file is. -/
structure Document.KeepsAround (old : Document) (rev : Revision) (rename : NodeId → NodeId) (id : NodeId) (new : Document) :
    Prop where
  order : ∀ first second, first < second → rename first < rename second
  root : rename 0 = 0
  place : rename id = id
  nodes : ∀ other node, new.node? other = some node →
    ∃ node', old.node? (rename other) = some node' ∧ node'.StandsFor rev rename (other = id) node
  others : ∀ other node, old.node? other = some node → (∃ other' < new.size, rename other' = other) ∨
    (node.parent = some id ∧ node.kind = .text ∧ isBlank (old.text node.span) = true)

theorem Document.KeepsAround.injective {rev : Revision} {rename : NodeId → NodeId} {id : NodeId} {old new : Document}
    (h : old.KeepsAround rev rename id new) : Function.Injective rename := by
  intro first second heq
  rcases Nat.lt_trichotomy first second with hlt | rfl | hlt
  · exact absurd heq (Nat.ne_of_lt (h.order _ _ hlt))
  · rfl
  · exact absurd heq.symm (Nat.ne_of_lt (h.order _ _ hlt))

/-- Trees of one size whose nodes stand for each other, but for one that the edit changes. -/
theorem Document.KeepsAround.of_nodes {rev : Revision} {id : NodeId} {old new : Document} (hsize : new.size = old.size)
    (hnodes : ∀ other node, new.node? other = some node → ∃ node', old.node? other = some node' ∧
      node'.StandsFor rev (fun other => other) (other = id) node) : old.KeepsAround rev (fun other => other) id new := by
  refine ⟨fun _ _ hlt => hlt, rfl, rfl, hnodes, fun other node hnode => Or.inl ⟨other, ?_, rfl⟩⟩
  rw [hsize]
  exact (Array.getElem?_eq_some_iff.1 hnode).1

end Markup

theorem slice_empty (file : List Char) (offset : Nat) : slice file ⟨offset, offset⟩ = [] := by
  by_contra hne
  have hlength := (inText_of_slice hne).byteLength_slice
  exact hne ((byteLength_eq_zero_iff _).1 (by dsimp only at hlength; omega))

theorem slice_getLast {text : List Char} {c : Char} (h : text.getLast? = some c) (hsize : c.utf8Size = 1) (rest : List Char) :
    slice (text ++ rest) ⟨byteLength text - 1, byteLength text⟩ = [c] := by
  obtain ⟨early, rfl⟩ := List.getLast?_eq_some_iff.1 h
  have hlength : byteLength (early ++ [c]) = byteLength early + byteLength [c] := byteLength_append _ _
  have hslice := slice_append early [c] rest
  rw [← List.append_assoc, ← hlength] at hslice
  have hstart : byteLength (early ++ [c]) - 1 = byteLength early := by
    rw [hlength, byteLength_cons, byteLength_nil, hsize]
    rfl
  rw [hstart]
  exact hslice

namespace Component

/-! ## The language of the scripts -/

theorem typedMarks_apart : ∀ mark ∈ typedMarks, mark.toList ≠ [] ∧ ∀ c ∈ mark.toList, isAsciiSpace c = false ∧ c ≠ '/' := by
  have hall : (typedMarks.all fun mark => mark.toList != [] && mark.toList.all fun c => !isAsciiSpace c && c != '/') = true := by
    decide
  simpa using hall

theorem usesTypes_cons (c : Char) (rest : List Char) : usesTypes (c :: rest) =
    (("<script".toList.isPrefixOf (c :: rest) &&
      typedMarks.any fun mark => occurs mark.toList ((c :: rest).takeWhile (· != '>'))) || usesTypes rest) := rfl

/-- Whether types are used is told by the parts of a text before and after the end of a tag. -/
theorem usesTypes_split (front rest : List Char) : usesTypes (front ++ '>' :: rest) = (usesTypes front || usesTypes rest) := by
  induction front with
  | nil => simp [usesTypes, List.isPrefixOf]
  | cons c front ih =>
    have hprefix : "<script".toList.isPrefixOf (c :: front ++ '>' :: rest) = "<script".toList.isPrefixOf (c :: front) :=
      isPrefixOf_split (by decide) _ _
    have htag : (c :: front ++ '>' :: rest).takeWhile (· != '>') = (c :: front).takeWhile (· != '>') := by
      rw [List.takeWhile_append]
      split
      · rename_i hlength
        simp [(List.takeWhile_prefix _).eq_of_length hlength]
      · rfl
    rw [List.cons_append, usesTypes_cons, ← List.cons_append, hprefix, htag, ih, usesTypes_cons, Bool.or_assoc]

theorem usesTypes_of_not_mem {text : List Char} (h : '<' ∉ text) : usesTypes text = false := by
  induction text with
  | nil => rfl
  | cons c rest ih =>
    obtain ⟨hc, hrest⟩ : '<' ≠ c ∧ '<' ∉ rest := by simpa using h
    have hne : ('<' == c) = false := by simpa using hc
    rw [usesTypes_cons, ih hrest]
    simp [List.isPrefixOf, hne]

/-- The gap at the end of a tag does not tell whether types are used. -/
theorem usesTypes_gap {gap : List Char} (hgap : ∀ c ∈ gap, TagGap c)
    (front : List Char) : usesTypes (front ++ gap) = usesTypes front := by
  have hclosed : ∀ c ∈ gap, c ≠ '>' ∧ c ≠ '<' := by
    intro c hc
    rcases hgap c hc with h | rfl
    · constructor <;> (rintro rfl; cases h)
    · decide
  induction front with
  | nil => exact usesTypes_of_not_mem fun hmem => (hclosed '<' hmem).2 rfl
  | cons c front ih =>
    have hprefix : "<script".toList.isPrefixOf (c :: front ++ gap) = "<script".toList.isPrefixOf (c :: front) := by
      cases gap with
      | nil => rw [List.append_nil]
      | cons d gap =>
        refine isPrefixOf_split (fun hmem => ?_) _ _
        have hletters : ("<script".toList.all fun c => !isAsciiSpace c && c != '/') = true := by decide
        have hletter := List.all_eq_true.1 hletters d hmem
        rcases hgap d List.mem_cons_self with hblank | rfl
        · rw [hblank] at hletter
          cases hletter
        · cases hletter
    have hmarks : (typedMarks.any fun mark => occurs mark.toList ((c :: front ++ gap).takeWhile (· != '>'))) =
        typedMarks.any fun mark => occurs mark.toList ((c :: front).takeWhile (· != '>')) := by
      rw [Bool.eq_iff_iff, List.any_eq_true, List.any_eq_true]
      refine exists_congr fun mark => and_congr_right fun hmark => ?_
      obtain ⟨hne, happart⟩ := typedMarks_apart mark hmark
      rw [List.takeWhile_append]
      split
      · rename_i hlength
        rw [(List.takeWhile_prefix _).eq_of_length hlength,
          List.takeWhile_eq_self_iff.2 fun d hd => by simpa using (hclosed d hd).1,
          occurs_append hne fun d hd hmem => ?_]
        rcases hgap d hd with hblank | hslash
        · rw [(happart d hmem).1] at hblank
          cases hblank
        · exact (happart d hmem).2 hslash
      · exact Iff.rfl
    rw [List.cons_append, usesTypes_cons, ← List.cons_append, hprefix, hmarks, ih, usesTypes_cons]

/-- Whether types are used does not depend on how a tag is closed. -/
theorem usesTypes_mark {ending : TagEnd} (hended : ending ≠ .missing) (front rest : List Char) :
    usesTypes (front ++ (ending.mark ++ rest)) = (usesTypes front || usesTypes rest) := by
  cases ending with
  | plain => exact usesTypes_split front rest
  | selfClosing =>
    have hsplit := usesTypes_split (front ++ ['/']) rest
    rw [@usesTypes_gap ['/'] (by simp [TagGap]), List.append_assoc] at hsplit
    exact hsplit
  | missing => exact absurd rfl hended

/-- Whether types are used does not depend on the gap before a closing mark. -/
theorem usesTypes_regap {gap : List Char} (hgap : ∀ c ∈ gap, TagGap c) {ending : TagEnd} (hended : ending ≠ .missing)
    (front rest : List Char) : usesTypes (front ++ (gap ++ (ending.mark ++ rest))) = (usesTypes front || usesTypes rest) := by
  rw [← List.append_assoc, usesTypes_mark hended, usesTypes_gap hgap]

theorem takeWhile_prefix_of {short long : List Char} (h : short <+: long) {p : Char → Bool} :
    short.takeWhile p <+: long.takeWhile p := by
  obtain ⟨rest, rfl⟩ := h
  rw [List.takeWhile_append]
  split
  · next hall => exact ((List.takeWhile_prefix p).eq_of_length hall).symm ▸ List.prefix_append _ _
  · exact List.prefix_rfl

/-- A text that holds a part that uses types uses types. -/
theorem usesTypes_of_part {part text : List Char} (hpart : part <:+: text) (h : usesTypes part = true) :
    usesTypes text = true := by
  obtain ⟨front, rest, rfl⟩ := hpart
  rw [List.append_assoc]
  induction front with
  | cons c front ih => rw [List.cons_append, usesTypes_cons, ih, Bool.or_true]
  | nil =>
    induction part with
    | nil => cases h
    | cons c part ih =>
      rw [List.nil_append, List.cons_append, usesTypes_cons, Bool.or_eq_true] at *
      refine h.imp (fun htag => ?_) ih
      obtain ⟨hopens, hmarks⟩ := Bool.and_eq_true_iff.1 htag
      obtain ⟨mark, hmark, hoccurs⟩ := List.any_eq_true.1 hmarks
      have hprefix : c :: part <+: c :: (part ++ rest) := List.prefix_append (c :: part) rest
      refine Bool.and_eq_true_iff.2 ⟨?_, List.any_eq_true.2 ⟨mark, hmark, ?_⟩⟩
      · exact List.isPrefixOf_iff_prefix.2 ((List.isPrefixOf_iff_prefix.1 hopens).trans hprefix)
      · exact occurs_of_part (typedMarks_apart mark hmark).1 (takeWhile_prefix_of hprefix).isInfix hoccurs

/-- Characters that end no tag and are in no word that tells whether types are used. -/
def Inert (c : Char) : Prop :=
  c ≠ '>' ∧ c ∉ "<script".toList ∧ ∀ mark ∈ typedMarks, c ∉ mark.toList

instance (c : Char) : Decidable (Inert c) :=
  inferInstanceAs (Decidable (_ ∧ _ ∧ _))

theorem inert_of_isSpace {c : Char} (h : isSpace c = true) : Inert c := by
  have hwords : (('>' :: "<script".toList ++ typedMarks.flatMap (·.toList)).all fun d => !isSpace d) = true := by decide
  have hother : ∀ d ∈ '>' :: "<script".toList ++ typedMarks.flatMap (·.toList), c ≠ d := by
    rintro d hd rfl
    have hword := List.all_eq_true.1 hwords c hd
    rw [h] at hword
    cases hword
  refine ⟨hother _ List.mem_cons_self, fun hmem => hother c (List.mem_append_left _ (List.mem_cons_of_mem _ hmem)) rfl,
    fun mark hmark hmem => hother c (List.mem_append_right _ (List.mem_flatMap.2 ⟨mark, hmark, hmem⟩)) rfl⟩

theorem usesTypes_prepend {inert : List Char} (h : ∀ c ∈ inert, Inert c) (rest : List Char) :
    usesTypes (inert ++ rest) = usesTypes rest := by
  induction inert with
  | nil => rfl
  | cons c inert ih =>
    obtain ⟨hc, hinert⟩ := List.forall_mem_cons.1 h
    have hne : ('<' == c) = false := by
      have hopen : '<' ≠ c := fun heq => hc.2.1 (heq ▸ by decide)
      simpa using hopen
    rw [List.cons_append, usesTypes_cons, ih hinert]
    simp [List.isPrefixOf, hne]

/-- Whether types are used does not depend on inert characters, as long as there are some. -/
theorem usesTypes_inert {inert inert' : List Char} (hne : inert ≠ []) (h : ∀ c ∈ inert, Inert c) (hne' : inert' ≠ [])
    (h' : ∀ c ∈ inert', Inert c) (front rest : List Char) :
    usesTypes (front ++ (inert ++ rest)) = usesTypes (front ++ (inert' ++ rest)) := by
  induction front with
  | nil => rw [List.nil_append, List.nil_append, usesTypes_prepend h, usesTypes_prepend h']
  | cons c front ih =>
    have hprefix : ∀ {inert : List Char}, inert ≠ [] → (∀ c ∈ inert, Inert c) →
        "<script".toList.isPrefixOf (c :: front ++ (inert ++ rest)) = "<script".toList.isPrefixOf (c :: front) := by
      intro inert hne h
      obtain ⟨d, inert, rfl⟩ := List.exists_cons_of_ne_nil hne
      exact isPrefixOf_split (h d List.mem_cons_self).2.1 _ _
    have hmarks : ∀ {inert : List Char}, inert ≠ [] → (∀ c ∈ inert, Inert c) → ∀ mark ∈ typedMarks,
        occurs mark.toList ((c :: front ++ (inert ++ rest)).takeWhile (· != '>')) =
          (occurs mark.toList ((c :: front).takeWhile (· != '>')) ||
            (!(c :: front).contains '>' && occurs mark.toList (rest.takeWhile (· != '>')))) := by
      intro inert hne h mark hmark
      by_cases hclose : '>' ∈ c :: front
      · rw [List.contains_iff_mem.2 hclose, List.takeWhile_append, if_neg fun hlength => ?_]
        · simp
        · have hall := List.takeWhile_eq_self_iff.1 ((List.takeWhile_prefix (· != '>')).eq_of_length hlength)
          exact absurd (hall '>' hclose) (by decide)
      · have hopen : ∀ d ∈ c :: front, (d != '>') = true := by
          intro d hd
          exact bne_iff_ne.2 fun heq => hclose (heq ▸ hd)
        have hcontains : (c :: front).contains '>' = false := Bool.eq_false_iff.2 fun h => hclose (List.contains_iff_mem.1 h)
        rw [List.takeWhile_append_of_pos hopen, List.takeWhile_append_of_pos fun d hd => bne_iff_ne.2 (h d hd).1,
          occurs_between (typedMarks_apart mark hmark).1 hne fun d hd => (h d hd).2.2 mark hmark,
          List.takeWhile_eq_self_iff.2 hopen, hcontains]
        rfl
    have hany : (typedMarks.any fun mark => occurs mark.toList ((c :: front ++ (inert ++ rest)).takeWhile (· != '>'))) =
        typedMarks.any fun mark => occurs mark.toList ((c :: front ++ (inert' ++ rest)).takeWhile (· != '>')) := by
      rw [Bool.eq_iff_iff, List.any_eq_true, List.any_eq_true]
      refine exists_congr fun mark => and_congr_right fun hmark => ?_
      rw [hmarks hne h mark hmark, hmarks hne' h' mark hmark]
    rw [List.cons_append, List.cons_append, usesTypes_cons, usesTypes_cons, ← List.cons_append, ← List.cons_append,
      hprefix hne h, hprefix hne' h', hany, ih]

/-! ## Scripts -/

section Kept

variable {rev : Revision} {rename : NodeId → NodeId} {id : NodeId} {language : Script.Language}
  (h : (Markup.parse language rev.source).1.KeepsAround rev rename id (Markup.parse language rev.edited).1)

include h

/-- The children of a node are kept, unless the edit changes it. -/
theorem kept_child {above child : NodeId} (hother : rename above ≠ id)
    (hchild : child ∈ (Markup.parse language rev.source).1.children (rename above)) :
    ∃ child' < (Markup.parse language rev.edited).1.size, rename child' = child := by
  have hparent := (parse_shaped language rev.source).mem_children.1 hchild
  obtain ⟨node, hnode, habove⟩ := Option.bind_eq_some_iff.1 hparent
  rcases h.others child node hnode with hkept | ⟨hid, -⟩
  · exact hkept
  · exact absurd (Option.some.inj (habove.symm.trans hid)) hother

theorem mem_children_edited {above child : NodeId} (hchild : child ∈ (Markup.parse language rev.source).1.children (rename above))
    (hkept : ∃ child' < (Markup.parse language rev.edited).1.size, rename child' = child) :
    ∃ child' ∈ (Markup.parse language rev.edited).1.children above, rename child' = child := by
  obtain ⟨child', hlt, rfl⟩ := hkept
  have hparent := (parse_shaped language rev.source).mem_children.1 hchild
  obtain ⟨node, hnode, habove⟩ := Option.bind_eq_some_iff.1 hparent
  obtain ⟨node', hnode'⟩ : ∃ node', (Markup.parse language rev.edited).1.node? child' = some node' :=
    ⟨_, Array.getElem?_eq_getElem hlt⟩
  obtain ⟨old, hold, hstands⟩ := h.nodes child' node' hnode'
  cases hnode.symm.trans hold
  refine ⟨child', (parse_shaped language rev.edited).mem_children.2 ?_, rfl⟩
  rw [hstands.parent] at habove
  obtain ⟨above', habove', heq⟩ := Option.map_eq_some_iff.1 habove
  rw [← h.injective heq]
  exact Option.bind_eq_some_iff.2 ⟨node', hnode', habove'⟩

section Blocks

variable {block : NodeId} {old new : Element} (hkept : ∀ child ∈ (Markup.parse language rev.source).1.children (rename block),
    ∃ child' < (Markup.parse language rev.edited).1.size, rename child' = child)
  (htext : ∀ node, (Markup.parse language rev.edited).1.node? id = some node → node.kind ≠ .text)

include hkept htext

/-- The text of a block with raw content is kept with its children. -/
theorem unparsed_text {stop stop' : Nat} (hold : (Markup.parse language rev.source).1.Unparsed (rename block) old stop)
    (hnew : (Markup.parse language rev.edited).1.Unparsed block new stop') :
    slice rev.source ⟨old.startTag.span.stop, stop⟩ = slice rev.edited ⟨new.startTag.span.stop, stop'⟩ := by
  rcases hnew.content with ⟨hnone, rfl⟩ | ⟨child, hchildren, hchild⟩
  · rcases hold.content with ⟨-, rfl⟩ | ⟨child, hchildren, -⟩
    · rw [slice_empty, slice_empty]
    · have hchild : child ∈ (Markup.parse language rev.source).1.children (rename block) :=
        hchildren ▸ List.mem_singleton_self child
      obtain ⟨child', hmem, -⟩ := mem_children_edited h hchild (hkept child hchild)
      rw [hnone] at hmem
      cases hmem
  · obtain ⟨node, hnode, hstands⟩ := h.nodes child _ hchild
    have hsame := (hstands.same fun heq => htext _ (heq ▸ hchild) rfl).text
    have hmem : rename child ∈ (Markup.parse language rev.source).1.children (rename block) :=
      (parse_shaped language rev.source).mem_children.2 (Option.bind_eq_some_iff.2 ⟨node, hnode, hstands.parent⟩)
    rcases hold.content with ⟨hnone, -⟩ | ⟨child', hchildren', hchild'⟩
    · rw [hnone] at hmem
      cases hmem
    · obtain rfl : rename child = child' := List.mem_singleton.1 (hchildren' ▸ hmem)
      cases hnode.symm.trans hchild'
      exact hsame rfl

/-- The text of a script is kept with its children. -/
theorem contentOf_text (hold : (Markup.parse language rev.source).1.element? (rename block) = some old)
    (hnew : (Markup.parse language rev.edited).1.element? block = some new)
    (hname : old.name = "script") (hname' : new.name = "script")
    (hself : old.startTag.selfClosing = new.startTag.selfClosing) :
    (Markup.parse language rev.source).1.text (contentOf (Markup.parse language rev.source).1 (rename block) old) =
      (Markup.parse language rev.edited).1.text (contentOf (Markup.parse language rev.edited).1 block new) := by
  cases hclosed : old.startTag.selfClosing with
  | false =>
    obtain ⟨stop, hunparsed⟩ := Markup.parse_unparsed language rev.source hold (Element.holdsRaw_script hname hclosed _)
    obtain ⟨stop', hunparsed'⟩ :=
      Markup.parse_unparsed language rev.edited hnew (Element.holdsRaw_script hname' (hself.symm.trans hclosed) _)
    rw [contentOf_unparsed hunparsed, contentOf_unparsed hunparsed']
    exact unparsed_text h hkept htext hunparsed hunparsed'
  | true =>
    have hempty : ∀ {file : List Char} {id : NodeId} {element : Element},
        (Markup.parse language file).1.element? id = some element → element.startTag.selfClosing = true →
        (Markup.parse language file).1.text (contentOf (Markup.parse language file).1 id element) = [] := by
      intro file id element helement hclosed
      obtain ⟨hnone, parent, hnode⟩ := parse_single helement (by rw [hclosed]; rfl)
      have hspan : (Markup.parse language file).1.spanOf id = element.startTag.span := by rw [Document.spanOf, hnode]; rfl
      unfold contentOf
      rw [hnone, hspan]
      exact slice_empty _ _
    rw [hempty hold hclosed, hempty hnew (hself.symm.trans hclosed)]

end Blocks

end Kept

theorem readScript_problems (document : Document) (id : NodeId) (element : Element) :
    (readScript languages document id element).2 = [] ↔
      ((languages (ScriptBlock.dialectOf (readScript languages document id element).1.lang)).program
        (document.text (contentOf document id element))).errors = [] := by
  simp [readScript]

/-- When a component has no problems. -/
theorem problems_eq_nil_iff (source : List Char) :
    (Component.parse languages source).problems = [] ↔ (Markup.parse (languages ⟨usesTypes source, false⟩) source).2 = [] ∧
      ∀ block element, block ∈ (Component.parse languages source).document.children 0 →
        (Component.parse languages source).document.element? block = some element → element.name = "script" →
        (readScript languages (Component.parse languages source).document block element).2 = [] := by
  unfold Component.parse
  simp only [List.append_eq_nil_iff, List.flatMap_eq_nil_iff]
  refine and_congr_right fun _ => ⟨fun h block element hmem helement hname => ?_, fun h pair hpair => ?_⟩
  · exact h _ (List.mem_map.2 ⟨(block, element), List.mem_filter.2 ⟨List.mem_filterMap.2 ⟨block, hmem,
      Option.map_eq_some_iff.2 ⟨element, helement, rfl⟩⟩, beq_iff_eq.2 hname⟩, rfl⟩)
  · obtain ⟨⟨id, element⟩, hmem, rfl⟩ := List.mem_map.1 hpair
    obtain ⟨hmem, hname⟩ := List.mem_filter.1 hmem
    obtain ⟨child, hchild, hsome⟩ := List.mem_filterMap.1 hmem
    obtain ⟨found, helement, hfound⟩ := Option.map_eq_some_iff.1 hsome
    cases hfound
    exact h id element hchild helement (beq_iff_eq.1 hname)

/-- An edited component has no problems if its markup has none, and its scripts were there before. -/
theorem problems_of_scripts {source edited : List Char} (hclean : (Component.parse languages source).problems = [])
    (hmarkup : (Markup.parse (languages ⟨usesTypes edited, false⟩) edited).2 = [])
    (hscripts : ∀ block new, block ∈ (Component.parse languages edited).document.children 0 →
      (Component.parse languages edited).document.element? block = some new → new.name = "script" →
      ∃ block' old, block' ∈ (Component.parse languages source).document.children 0 ∧
        (Component.parse languages source).document.element? block' = some old ∧ old.name = "script" ∧
        (Component.parse languages source).document.text (contentOf (Component.parse languages source).document block' old) =
          (Component.parse languages edited).document.text (contentOf (Component.parse languages edited).document block new) ∧
        (readScript languages (Component.parse languages source).document block' old).1.lang =
          (readScript languages (Component.parse languages edited).document block new).1.lang) :
    (Component.parse languages edited).problems = [] := by
  refine (problems_eq_nil_iff _).2 ⟨hmarkup, fun block new hchild hnew hname => ?_⟩
  obtain ⟨block', old, hchild', hold, hname', htext, hlang⟩ := hscripts block new hchild hnew hname
  have hparsed := ((problems_eq_nil_iff _).1 hclean).2 block' old hchild' hold hname'
  rw [readScript_problems] at hparsed ⊢
  rw [← htext, ← hlang]
  exact hparsed

/-- An edit that keeps the tree around a node that is no block, and gives no problem there, gives no problem at all. -/
theorem problems_edited {rev : Revision} {rename : NodeId → NodeId} {id : NodeId}
    (htypes : usesTypes rev.edited = usesTypes rev.source)
    (h : (Component.parse languages rev.source).document.KeepsAround rev rename id
      (Component.parse languages rev.edited).document)
    (hclean : (Component.parse languages rev.source).problems = [])
    (hmarkup : (Markup.parse (languages ⟨usesTypes rev.source, false⟩) rev.edited).2 = [])
    (hnested : ∀ element, (Component.parse languages rev.edited).document.element? id = some element →
      (Component.parse languages rev.source).document.parent? id ≠ some 0)
    (htext : ∀ node, (Component.parse languages rev.edited).document.node? id = some node → node.kind ≠ .text) :
    (Component.parse languages rev.edited).problems = [] := by
  refine problems_of_scripts hclean (by rw [htypes]; exact hmarkup) fun block new hchild hnew hname => ?_
  have hdocument : (Component.parse languages rev.edited).document =
      (Markup.parse (languages ⟨usesTypes rev.source, false⟩) rev.edited).1 := by
    rw [← htypes]
    rfl
  rw [hdocument] at h hnested htext hchild hnew ⊢
  change (Markup.parse (languages ⟨usesTypes rev.source, false⟩) rev.source).1.KeepsAround rev rename id _ at h
  obtain ⟨node, hnode, hkind⟩ := Document.element?_eq_some_iff.1 hnew
  have hparent := (parse_shaped _ rev.edited).mem_children.1 hchild
  obtain ⟨node', hnode', hstands⟩ := h.nodes block node hnode
  have htop : node.parent = some 0 := by
    rw [parentOf, show (Markup.parse _ rev.edited).1.nodes[block]? = some node from hnode] at hparent
    exact hparent
  have htop' : (Markup.parse (languages ⟨usesTypes rev.source, false⟩) rev.source).1.parent? (rename block) = some 0 := by
    rw [Document.parent?, hnode', Option.bind_some, hstands.parent, htop, Option.map_some, h.root]
  have hother : rename block ≠ id := by
    intro heq
    obtain rfl : block = id := h.injective (heq.trans h.place.symm)
    exact hnested new hnew (heq ▸ htop')
  have hsame := hstands.same fun heq => hother (heq ▸ h.place)
  obtain ⟨old, hold, hmatches⟩ : ∃ old, node'.kind = .element old ∧ (NodeKind.element old).Matches rev (.element new) := by
    have hkinds := hsame.kind
    rw [hkind] at hkinds
    generalize node'.kind = kind at hkinds
    cases hkinds with
    | element tag distance distance' hheading hstart hstart' hend =>
      exact ⟨_, rfl, .element tag distance distance' hheading hstart hstart' hend⟩
  have hfound : (Markup.parse (languages ⟨usesTypes rev.source, false⟩) rev.source).1.element? (rename block) = some old :=
    Document.element?_eq_some_iff.2 ⟨node', hnode', hold⟩
  cases hmatches with
  | element tag distance distance' hheading hstart hstart' =>
    have hname' : old.name = "script" := (congrArg Prod.fst hheading).trans hname
    exact ⟨rename block, old, (parse_shaped _ rev.source).mem_children.2 htop', hfound, hname',
      contentOf_text h (fun _ => kept_child h hother) htext hfound hnew hname' hname (by rw [hstart, hstart']; rfl),
      Element.attributeText_shift hstart hstart' "lang"⟩

end Component

end ComponentLint
