import ComponentLint.Component.Basic
import ComponentLint.Proofs.Markup.TagTokens
import ComponentLint.Proofs.Scope.Spelling
import ComponentLint.Proofs.Text.Occurrences
import ComponentLint.Proofs.Text.Positions
import Mathlib.Data.List.Infix

/-!
# The language of a component

Expressions in the template are read before the scripts are known, so their dialect is found by looking through the text for
what a script tag of the typed dialect looks like (`usesTypes`). What the scripts themselves say is known from the tree. Both
agree on every component that writes its languages plainly (`PlainScripts`): in lower case, with quotes, without blanks, and
nowhere but in the tags of its scripts.
-/

namespace ComponentLint

open Text Markup

/-! ## Texts -/

namespace Text

variable {source part : List Char} {offset : Nat}

/-- A slice that is not empty stands where its span starts. -/
theorem stands_of_slice {span : Span} (h : slice source span = part) (hne : part ≠ []) :
    Stands source span.start part ∧ span.stop = span.start + byteLength part := by
  subst h
  have hspan := inText_of_slice hne
  exact ⟨stands_slice span hspan.start, hspan.byteLength_slice.symm⟩

/-- What stands behind the front of a text is a part of the rest. -/
theorem Stands.behind {front rest : List Char} (h : Stands (front ++ rest) offset part) (hle : byteLength front ≤ offset) :
    ∃ before after, rest = before ++ (part ++ after) ∧ byteLength front + byteLength before = offset := by
  obtain ⟨before, after, htext, rfl⟩ := h
  rcases List.append_eq_append_iff.1 htext with ⟨more, rfl, hrest⟩ | ⟨more, rfl, hrest⟩
  · exact ⟨more, after, hrest, by simp⟩
  · have hnil : more = [] := by
      rw [← byteLength_eq_zero_iff]
      rw [byteLength_append] at hle
      omega
    subst hnil
    exact ⟨[], after, by simpa using hrest.symm, by simp⟩

/-- What stands at one place of a text starts in the same way. -/
theorem Stands.same {other : List Char} (h : Stands source offset part) (h' : Stands source offset other) :
    ∃ rest rest', part ++ rest = other ++ rest' := by
  obtain ⟨before, after, rfl, rfl⟩ := h
  obtain ⟨inner, rest, hparts, hinner⟩ := h'.behind (Nat.le_refl _)
  obtain rfl : inner = [] := (byteLength_eq_zero_iff inner).1 (by omega)
  exact ⟨after, rest, hparts⟩

/-- A character that stands inside a part of a text is one of the part. -/
theorem Stands.mem {front rest more : List Char} {c : Char} (h : Stands (front ++ (part ++ rest)) offset (c :: more))
    (hle : byteLength front ≤ offset) (hlt : offset < byteLength front + byteLength part) : c ∈ part := by
  obtain ⟨before, after, htext, hbefore⟩ := h.behind hle
  rcases List.append_eq_append_iff.1 htext with ⟨inner, rfl, -⟩ | ⟨inner, rfl, hinner⟩
  · rw [byteLength_append] at hbefore
    omega
  · cases inner with
    | nil =>
      rw [List.append_nil] at hlt
      omega
    | cons d inner =>
      obtain ⟨rfl, -⟩ := List.cons.inj hinner
      simp

end Text

/-! ## What the scan looks for -/

namespace Component

/-- How a language is written: behind its name and an equals sign, between quotes. -/
def languageText (quote : Char) (language : List Char) : List Char :=
  "lang=".toList ++ quote :: (language ++ [quote])

/-- The languages of the typed dialect. -/
def typedLanguages : List String :=
  ["ts", "tsx"]

/-- The marks of the typed dialect are its languages between either kind of quotes. -/
theorem mem_typedMarks_iff {text : List Char} : text ∈ typedMarks.map (·.toList) ↔
    ∃ quote language, (quote = '"' ∨ quote = '\'') ∧ language ∈ typedLanguages ∧ text = languageText quote language.toList := by
  constructor
  · intro h
    simp only [typedMarks, List.map_cons, List.map_nil, List.mem_cons, List.not_mem_nil, or_false] at h
    rcases h with rfl | rfl | rfl | rfl
    · exact ⟨'"', "ts", Or.inl rfl, by decide, rfl⟩
    · exact ⟨'\'', "ts", Or.inr rfl, by decide, rfl⟩
    · exact ⟨'"', "tsx", Or.inl rfl, by decide, rfl⟩
    · exact ⟨'\'', "tsx", Or.inr rfl, by decide, rfl⟩
  · rintro ⟨quote, language, rfl | rfl, hlanguage, rfl⟩
    all_goals
      simp only [typedLanguages, List.mem_cons, List.not_mem_nil, or_false] at hlanguage
      rcases hlanguage with rfl | rfl <;> decide

theorem languageText_ne_nil (quote : Char) (language : List Char) : languageText quote language ≠ [] := by
  simp [languageText]

/-- What starts with a language that has none of its quotes in it says which quotes and which language. -/
theorem languageText_inj {quote quote' : Char} {language language' rest rest' : List Char} (h : quote ∉ language)
    (h' : quote' ∉ language') (heq : languageText quote language ++ rest = languageText quote' language' ++ rest') :
    quote = quote' ∧ language = language' := by
  simp only [languageText, List.append_assoc, List.cons_append, List.nil_append] at heq
  obtain ⟨rfl, hrest⟩ := List.cons.inj (List.append_cancel_left heq)
  refine ⟨rfl, ?_⟩
  rw [← (takeWhile_ne_append h rest).1, hrest, (takeWhile_ne_append h' rest').1]

/-- The scan finds a place where a script tag opens and a language of the typed dialect follows before the next `>`. -/
theorem usesTypes_iff_place {source : List Char} : usesTypes source = true ↔
    ∃ rest, rest <:+ source ∧ "<script".toList <+: rest ∧ ∃ mark ∈ typedMarks.map (·.toList), ∃ before after,
      rest.takeWhile (· != '>') = before ++ (mark ++ after) := by
  have hmark : ∀ text, (typedMarks.any fun mark => occurs mark.toList text) = true ↔
      ∃ mark ∈ typedMarks.map (·.toList), ∃ before after, text = before ++ (mark ++ after) := by
    intro text
    rw [List.any_eq_true]
    constructor
    · rintro ⟨mark, hmem, hoccurs⟩
      have hmem' : mark.toList ∈ typedMarks.map (·.toList) := List.mem_map_of_mem hmem
      obtain ⟨quote, language, -, -, heq⟩ := mem_typedMarks_iff.1 hmem'
      exact ⟨mark.toList, hmem', (occurs_iff (heq ▸ languageText_ne_nil quote _)).1 hoccurs⟩
    · rintro ⟨text', hmem', hparts⟩
      obtain ⟨mark, hmem, rfl⟩ := List.mem_map.1 hmem'
      obtain ⟨quote, language, -, -, heq⟩ := mem_typedMarks_iff.1 hmem'
      exact ⟨mark, hmem, (occurs_iff (heq ▸ languageText_ne_nil quote _)).2 hparts⟩
  induction source with
  | nil =>
    refine iff_of_false Bool.false_ne_true ?_
    rintro ⟨rest, hrest, hopen, -⟩
    rw [List.suffix_nil.1 hrest] at hopen
    simp at hopen
  | cons c source ih =>
    unfold usesTypes
    rw [Bool.or_eq_true, Bool.and_eq_true, List.isPrefixOf_iff_prefix, hmark]
    constructor
    · rintro (⟨hopen, hhere⟩ | hlater)
      · exact ⟨_, List.suffix_rfl, hopen, hhere⟩
      · obtain ⟨rest, hrest, hlater⟩ := ih.1 hlater
        exact ⟨rest, hrest.trans (List.suffix_cons c source), hlater⟩
    · rintro ⟨rest, hrest, hopen, hmarked⟩
      rcases List.suffix_cons_iff.1 hrest with rfl | hrest
      · exact Or.inl ⟨hopen, hmarked⟩
      · exact Or.inr (ih.2 ⟨rest, hrest, hopen, hmarked⟩)

/-! ## Scripts that are written plainly -/

/-- A start tag of which the scan sees the language that the tree has. -/
structure PlainTag (source : List Char) (element : Element) : Prop where
  name : element.rawName = "script"
  /-- The language is written without blanks, between quotes and in front of every `>`. -/
  language : ∀ attr ∈ element.attribute? "lang", ∀ value ∈ attr.value, ∃ quote ∈ value.quote,
    slice source attr.span = languageText quote value.raw.toList ∧
      '>' ∉ slice source ⟨element.startTag.span.start, attr.span.stop⟩
  /-- Nothing else in the tag is written like a language. -/
  only : ∀ offset < element.startTag.span.stop, element.startTag.span.start ≤ offset →
    slice? source ⟨offset, offset + 5⟩ = some "lang=".toList →
    ∃ attr ∈ element.attribute? "lang", attr.value.isSome = true ∧ attr.span.start = offset

/-- The tag of a script block starts at an offset. -/
def StartsScript (languages : Script.Languages) (source : List Char) (offset : Nat) : Prop :=
  ∃ block ∈ (parse languages source).scripts, ∃ element ∈ (parse languages source).document.element? block.element,
    element.startTag.span.start = offset

/-- A component whose scripts have plain tags, and in which nothing else looks like the tag of a script with a language. -/
structure PlainScripts (languages : Script.Languages) (source : List Char) : Prop where
  tags : ∀ block ∈ (parse languages source).scripts,
    ∀ element ∈ (parse languages source).document.element? block.element, PlainTag source element
  places : ∀ rest, rest <:+ source → "<script".toList <+: rest →
    occurs "lang=".toList (rest.takeWhile (· != '>')) = true → StartsScript languages source (byteLength source - byteLength rest)

-- The quote is looked up and not searched for among all characters.
instance (source : List Char) (element : Element) : Decidable (PlainTag source element) :=
  decidable_of_iff (element.rawName = "script" ∧
      (∀ attr ∈ element.attribute? "lang", ∀ value ∈ attr.value, (value.quote.any fun quote =>
        slice source attr.span = languageText quote value.raw.toList ∧
          '>' ∉ slice source ⟨element.startTag.span.start, attr.span.stop⟩) = true) ∧
      ∀ offset < element.startTag.span.stop, element.startTag.span.start ≤ offset →
        slice? source ⟨offset, offset + 5⟩ = some "lang=".toList →
        ∃ attr ∈ element.attribute? "lang", attr.value.isSome = true ∧ attr.span.start = offset)
    ⟨fun h => ⟨h.1, fun attr hattr value hvalue => by simpa [Option.any_eq_true] using h.2.1 attr hattr value hvalue, h.2.2⟩,
      fun h => ⟨h.name, fun attr hattr value hvalue => by simpa [Option.any_eq_true] using h.language attr hattr value hvalue,
        h.only⟩⟩

instance (languages : Script.Languages) (source : List Char) (offset : Nat) : Decidable (StartsScript languages source offset) :=
  inferInstanceAs (Decidable (∃ block ∈ (parse languages source).scripts,
    ∃ element ∈ (parse languages source).document.element? block.element,
    element.startTag.span.start = offset))

instance (languages : Script.Languages) (source : List Char) : Decidable (PlainScripts languages source) :=
  decidable_of_iff ((∀ block ∈ (parse languages source).scripts,
    ∀ element ∈ (parse languages source).document.element? block.element,
        PlainTag source element) ∧
      ∀ rest ∈ source.tails, "<script".toList <+: rest → occurs "lang=".toList (rest.takeWhile (· != '>')) = true →
        StartsScript languages source (byteLength source - byteLength rest))
    ⟨fun h => ⟨h.1, fun rest hrest => h.2 rest ((List.mem_tails rest source).2 hrest)⟩,
      fun h => ⟨h.tags, fun rest hrest => h.places rest ((List.mem_tails rest source).1 hrest)⟩⟩

section Tags

variable {languages : Script.Languages} {source : List Char} {id : NodeId} {element : Element}

/-- A start tag takes room, and its attributes stand behind its start. -/
theorem startTag_room (h : (parse languages source).document.element? id = some element) :
    element.startTag.span.start < element.startTag.span.stop ∧
      ∀ attr ∈ element.attributes, element.startTag.span.start ≤ attr.span.start := by
  obtain ⟨node, hnode, hkind⟩ := Document.element?_eq_some_iff.1 h
  have hfits := (Markup.parse_written (languages ⟨usesTypes source, false⟩) source).fits id node element hnode hkind
  refine ⟨hfits.startTag.2.1, fun attr hattr => ?_⟩
  exact (hfits.attributes.1 attr.span (List.mem_map_of_mem hattr)).1

/-- A start tag is laid over the text. -/
theorem startTag_laid (h : (parse languages source).document.element? id = some element) :
    ∃ problems tokens, element.StartLaid source problems tokens := by
  obtain ⟨-, -, own, -, hlaid⟩ := ((parse_elements_laid (languages ⟨usesTypes source, false⟩) source).2 id element h).startTag
  exact ⟨_, own, hlaid⟩

/-- A start tag opens with its name. -/
theorem startTag_opens (h : (parse languages source).document.element? id = some element) :
    Stands source element.startTag.span.start ('<' :: element.rawName.toList) := by
  obtain ⟨_, _, hopen, -⟩ := startTag_laid h
  exact (stands_of_slice hopen (List.cons_ne_nil _ _)).1

/-- A start tag ends with `>`, or where the file does. -/
theorem startTag_closes (h : (parse languages source).document.element? id = some element) :
    element.startTag.span.stop = byteLength source ∨ Stands source (element.startTag.span.stop - 1) ['>'] := by
  obtain ⟨_, _, -, _, _, -, -, hclosing⟩ := startTag_laid h
  cases hclosing with
  | plain _ htext => exact Or.inr (stands_of_slice htext (List.cons_ne_nil _ _)).1
  | missing _ hstop _ => exact Or.inl hstop
  | selfClosing _ htext =>
    obtain ⟨hstands, hstop⟩ := stands_of_slice htext (List.cons_ne_nil _ _)
    have hsize : byteLength ['/', '>'] = 2 := rfl
    have hmark : Stands source (element.startTag.span.stop - 2 + byteLength ['/']) ['>'] := Stands.rear (a := ['/']) hstands
    refine Or.inr ?_
    rw [show element.startTag.span.stop - 1 = element.startTag.span.stop - 2 + byteLength ['/'] from ?_]
    · exact hmark
    · show _ = element.startTag.span.stop - 2 + 1
      dsimp only at hstop
      omega

/-- What a text says in front of the first `>` behind the start of a tag lies in the tag. -/
theorem lt_startTag_stop (h : (parse languages source).document.element? id = some element) {before inside rest : List Char}
    (hsource : source = before ++ (inside ++ rest)) (hstart : element.startTag.span.start = byteLength before)
    (hinside : '>' ∉ inside) (hrest : rest ≠ []) : byteLength before + byteLength inside < element.startTag.span.stop := by
  have hroom := (startTag_room h).1
  rcases startTag_closes h with hstop | hmark
  · have hpos := (byteLength_pos_iff rest).2 hrest
    rw [hstop, hsource]
    simp only [byteLength_append]
    omega
  · by_contra hle
    subst hsource
    exact hinside (hmark.mem (by omega) (by omega))

/-- A quoted value of a start tag does not have its quote in it. -/
theorem quote_notMem (h : (parse languages source).document.element? id = some element) {attr : Attribute}
    (hattr : attr ∈ element.attributes) {value : AttributeValue} (hvalue : attr.value = some value) {quote : Char}
    (hquote : value.quote = some quote) :
    (quote = '"' ∨ quote = '\'') ∧ quote ∉ value.raw.toList := by
  obtain ⟨_, _, -, parts, _, -, hparts, -⟩ := startTag_laid h
  obtain ⟨index, hindex, rfl⟩ := List.getElem_of_mem hattr
  obtain ⟨tokens, hlaid⟩ : ∃ tokens, element.attributes[index].LaidIn source tokens :=
    ⟨_, hparts.get hindex (hparts.length_eq ▸ hindex)⟩
  cases hlaid with
  | plain hnone =>
    rw [hvalue] at hnone
    cases hnone
  | valued hfound _ _ _ hlaid =>
    obtain rfl := Option.some.inj (hvalue.symm.trans hfound)
    exact ⟨(hlaid.quoted quote hquote).1, (hlaid.quoted quote hquote).2.1⟩

end Tags

/-! ## The scan and the tree -/

section

variable {languages : Script.Languages} {source : List Char} {id : NodeId} {element : Element}

/-- The language of a script block is that of its element. -/
theorem readScript_isTyped_iff (document : Document) (id : NodeId) (element : Element) :
    (readScript languages document id element).1.isTyped = true ↔
      ∃ attr ∈ element.attribute? "lang", ∃ value ∈ attr.value, value.raw ∈ typedLanguages := by
  have hlang : (readScript languages document id element).1.lang = ((element.attribute? "lang").bind (·.value)).map (·.raw) := rfl
  have htyped : ∀ lang : Option String, (lang == some "ts" || lang == some "tsx") = true ↔
      ∃ language ∈ lang, language ∈ typedLanguages := by
    intro lang
    cases lang with
    | none => simp
    | some language => simp [typedLanguages]
  rw [ScriptBlock.isTyped, htyped, hlang]
  constructor
  · rintro ⟨_, hmem, hlanguage⟩
    obtain ⟨value, hvalue, rfl⟩ := Option.mem_map.1 hmem
    obtain ⟨attr, hattr, hfound⟩ := Option.bind_eq_some_iff.1 hvalue
    exact ⟨attr, hattr, value, hfound, hlanguage⟩
  · rintro ⟨attr, hattr, value, hvalue, hlanguage⟩
    exact ⟨value.raw, Option.mem_map_of_mem _ (Option.bind_eq_some_iff.2 ⟨attr, hattr, hvalue⟩), hlanguage⟩

/-- The scan sees the language of a script with a plain tag. -/
theorem usesTypes_of_plainTag (helement : (parse languages source).document.element? id = some element)
    (hplain : PlainTag source element)
    {attr : Attribute} (hattr : attr ∈ element.attribute? "lang") {value : AttributeValue} (hvalue : value ∈ attr.value)
    (htyped : value.raw ∈ typedLanguages) : usesTypes source = true := by
  obtain ⟨quote, hquote, htext, hmark⟩ := hplain.language attr hattr value hvalue
  have hmem : attr ∈ element.attributes := List.mem_of_find?_eq_some hattr
  obtain ⟨hkind, -⟩ := quote_notMem helement hmem hvalue hquote
  obtain ⟨hstands, hstop⟩ := stands_of_slice htext (languageText_ne_nil quote _)
  have hopens := startTag_opens helement
  rw [hplain.name] at hopens
  obtain ⟨before, after, hsource, hbefore⟩ := hopens
  have hroom := (startTag_room helement).2 attr hmem
  rw [← hbefore] at hroom hmark
  generalize hrest : '<' :: "script".toList ++ after = rest at hsource
  subst hsource
  obtain ⟨inside, back, rfl, hinside⟩ := hstands.behind hroom
  have hslice : slice (before ++ (inside ++ (languageText quote value.raw.toList ++ back)))
      ⟨byteLength before, attr.span.stop⟩ = inside ++ languageText quote value.raw.toList := by
    have hparts := slice_append before (inside ++ languageText quote value.raw.toList) back
    have hlength : attr.span.stop = byteLength before + byteLength (inside ++ languageText quote value.raw.toList) := by
      rw [hstop, byteLength_append, ← hinside, Nat.add_assoc]
    rwa [List.append_assoc, ← hlength] at hparts
  rw [hslice] at hmark
  have hfront : ∀ c ∈ inside ++ languageText quote value.raw.toList, (c != '>') = true := by
    intro c hc
    exact bne_iff_ne.2 fun heq => hmark (heq ▸ hc)
  refine usesTypes_iff_place.2 ⟨_, List.suffix_append before _, ?_, languageText quote value.raw.toList,
    mem_typedMarks_iff.2 ⟨quote, value.raw, hkind, htyped, rfl⟩, inside, back.takeWhile (· != '>'), ?_⟩
  · rw [← hrest]
    exact List.prefix_append _ after
  · rw [← List.append_assoc, List.takeWhile_append_of_pos hfront, List.append_assoc]

/-- Where the scan sees a language, the tree has it, if the place is that of a plain tag. -/
theorem typed_of_place (helement : (parse languages source).document.element? id = some element)
    (hplain : PlainTag source element)
    {before rest inside after mark : List Char} (hsource : source = before ++ rest)
    (hstart : element.startTag.span.start = byteLength before) (hmark : mark ∈ typedMarks.map (·.toList))
    (hrest : rest.takeWhile (· != '>') = inside ++ (mark ++ after)) :
    ∃ attr ∈ element.attribute? "lang", ∃ value ∈ attr.value, value.raw ∈ typedLanguages := by
  obtain ⟨quote, language, hkind, htyped, rfl⟩ := mem_typedMarks_iff.1 hmark
  obtain ⟨more, hmore⟩ : ∃ more, rest = inside ++ (languageText quote language.toList ++ more) := by
    have hsplit := List.takeWhile_append_dropWhile (p := (· != '>')) (l := rest)
    exact ⟨after ++ rest.dropWhile (· != '>'), hsplit.symm.trans (by rw [hrest]; simp)⟩
  have hinside : '>' ∉ inside := by
    intro hmem
    have hfront := notMem_takeWhile_ne '>' rest
    rw [hrest] at hfront
    exact hfront (List.mem_append_left _ hmem)
  have hlt := lt_startTag_stop helement (hmore ▸ hsource) hstart hinside (by simp [languageText])
  have hplace : Stands source (byteLength before + byteLength inside) (languageText quote language.toList) :=
    ⟨before ++ inside, more, by rw [hsource, hmore, List.append_assoc], byteLength_append before inside⟩
  have hname : slice? source ⟨byteLength before + byteLength inside, byteLength before + byteLength inside + 5⟩ =
      some "lang=".toList := slice?_eq_some_iff.2 ⟨hplace.front, rfl⟩
  obtain ⟨attr, hattr, hvalue, hat⟩ := hplain.only _ hlt (by omega) hname
  obtain ⟨value, hvalue⟩ := Option.isSome_iff_exists.1 hvalue
  obtain ⟨quote', hquote', htext, -⟩ := hplain.language attr hattr value hvalue
  obtain ⟨-, hnot⟩ := quote_notMem helement (List.mem_of_find?_eq_some hattr) hvalue hquote'
  have hstands := (stands_of_slice htext (languageText_ne_nil quote' _)).1
  rw [hat] at hstands
  obtain ⟨_, _, heq⟩ := hstands.same hplace
  have hnot' : quote ∉ language.toList := by
    simp only [typedLanguages, List.mem_cons, List.not_mem_nil, or_false] at htyped
    rcases hkind with rfl | rfl <;> rcases htyped with rfl | rfl <;> decide
  have hlanguage := (languageText_inj hnot hnot' heq).2
  exact ⟨attr, hattr, value, hvalue, (String.toList_inj.1 hlanguage).symm ▸ htyped⟩

end

/-- A component that writes its languages plainly is taken for typed exactly when one of its scripts is, so its template is
read in the language of its scripts. -/
theorem usesTypes_iff_typedScript {languages : Script.Languages} {source : List Char} (h : PlainScripts languages source) :
    (usesTypes source = true ↔ ∃ block ∈ (parse languages source).scripts, block.isTyped = true) ∧
      (parse languages source).document =
        (Markup.parse (languages ⟨(parse languages source).scripts.any (·.isTyped), false⟩) source).1 := by
  have hiff : usesTypes source = true ↔ ∃ block ∈ (parse languages source).scripts, block.isTyped = true := by
    constructor
    · intro hscan
      obtain ⟨rest, ⟨before, rfl⟩, hopen, mark, hmark, inside, after, hrest⟩ := usesTypes_iff_place.1 hscan
      have hoccurs : occurs "lang=".toList (rest.takeWhile (· != '>')) = true := by
        obtain ⟨quote, language, -, -, rfl⟩ := mem_typedMarks_iff.1 hmark
        exact (occurs_iff (by decide)).2 ⟨inside, quote :: (language.toList ++ [quote]) ++ after, by simp [hrest, languageText]⟩
      obtain ⟨block, hblock, element, helement, hstart⟩ := h.places rest (List.suffix_append before rest) hopen hoccurs
      rw [byteLength_append, Nat.add_sub_cancel] at hstart
      have htyped := typed_of_place helement (h.tags block hblock element helement) rfl hstart hmark hrest
      obtain ⟨id, found, -, hfound, -, rfl⟩ := mem_scripts hblock
      obtain rfl : found = element := Option.some.inj (hfound.symm.trans helement)
      exact ⟨_, hblock, (readScript_isTyped_iff _ id found).2 htyped⟩
    · rintro ⟨block, hblock, htyped⟩
      have hplain := h.tags block hblock
      obtain ⟨id, element, -, helement, -, rfl⟩ := mem_scripts hblock
      obtain ⟨attr, hattr, value, hvalue, hlanguage⟩ := (readScript_isTyped_iff _ id element).1 htyped
      exact usesTypes_of_plainTag helement (hplain element helement) hattr hvalue hlanguage
  have hdialect : (parse languages source).scripts.any (·.isTyped) = usesTypes source := by
    rw [Bool.eq_iff_iff, List.any_eq_true, hiff]
  refine ⟨hiff, ?_⟩
  rw [hdialect]
  rfl

/-- A component with a comment about scripts and a script with a type parameter. -/
def genericScript : List Char :=
  "<!-- <script> --><script lang=\"ts\" generic=\"T extends A<B>\"></script>".toList

theorem usesTypes_iff_typedScript_genericScript : PlainScripts Script.Dialect.language genericScript ∧
    (usesTypes genericScript = true ↔ ∃ block ∈ (parse Script.Dialect.language genericScript).scripts, block.isTyped = true) ∧
    (parse Script.Dialect.language genericScript).document = (Markup.parse
      (Script.Dialect.language ⟨(parse Script.Dialect.language genericScript).scripts.any (·.isTyped), false⟩) genericScript).1 ∧
    usesTypes genericScript = true := by
  have hplain : PlainScripts Script.Dialect.language genericScript := by decide +kernel
  have hagree := usesTypes_iff_typedScript hplain
  exact ⟨hplain, hagree.1, hagree.2, by decide +kernel⟩

/-- A script whose language has no quotes. -/
def bareLanguage : List Char :=
  "<template>\x7b\x7b a as b \x7d\x7d</template><script lang=ts></script>".toList

/-- A language without quotes is one for the tree and none for the scan. -/
theorem not_usesTypes_bareLanguage : usesTypes bareLanguage = false ∧
    (∃ block ∈ (parse Script.Dialect.language bareLanguage).scripts, block.isTyped = true) ∧
      (parse Script.Dialect.language bareLanguage).problems.isEmpty = false := by
  decide +kernel

end Component

end ComponentLint
