import ComponentLint.Proofs.Markup.Interpolations
import ComponentLint.Proofs.Markup.RawEdits

/-!
# Edits of fragments

A word in a fragment of script is exchanged for a neutral one. A value still ends where it did (`readAttribute_exchange`), so the
attributes in front of it are the same, and those behind it are moved (`readStartTag_exchange`).
-/

namespace ComponentLint.Markup

open Text

/-- The parts of a text around a word in it. -/
theorem slice_around (front early word late back : List Char) :
    slice (front ++ early ++ (word ++ (late ++ back))) ⟨byteLength front, byteLength (front ++ early)⟩ = early ∧
      slice (front ++ early ++ (word ++ (late ++ back))) ⟨byteLength (front ++ early) + byteLength word,
        byteLength front + byteLength (early ++ (word ++ late))⟩ = late := by
  have hearly := slice_append front early (word ++ (late ++ back))
  have hlate := slice_append (front ++ early ++ word) late back
  simp only [byteLength_append, List.append_assoc, Nat.add_assoc] at hearly hlate ⊢
  exact ⟨hearly, hlate⟩

section Exchanging

variable {word word' : List Char} (hword : ∀ c ∈ word', Neutral c) (hsome : word ≠ []) (hsome' : word' ≠ [])
include hword hsome hsome'

/-! ## Values -/

omit hsome in
/-- What starts a text with a word in it starts the text with another word too, or is neutral. -/
theorem head?_exchange {early late : List Char} {c : Char} (hc : c ∈ (early ++ (word' ++ late)).head?) :
    c ∈ (early ++ (word ++ late)).head? ∨ Neutral c := by
  cases early with
  | cons d early => exact .inl hc
  | nil =>
    obtain ⟨d, word', rfl⟩ := List.exists_cons_of_ne_nil hsome'
    obtain rfl : d = c := Option.some.inj hc
    exact .inr (hword d List.mem_cons_self)

/-- A value is read with another word in it as it was read, up to the same text. -/
theorem readValue_exchange {language : Script.Language} {key : Key} {offset stop : Nat} {chars rest : List Char}
    {value : AttributeValue} {unclosed : Bool} (hne : rest ≠ [])
    (hread : readValue language key ⟨offset, chars⟩ = (value, unclosed, ⟨stop, rest⟩)) :
    ∃ lead trail, chars = lead ++ (value.raw.toList ++ (trail ++ rest)) ∧ unclosed = false ∧
      value.valueSpan = ⟨offset + byteLength lead, offset + byteLength lead + byteLength value.raw.toList⟩ ∧
      ∀ early late, value.raw.toList = early ++ (word ++ late) → ∃ span,
        readValue language key ⟨offset, lead ++ (early ++ (word' ++ late) ++ (trail ++ rest))⟩ =
          (readValue.value language key span ⟨offset + byteLength lead,
            offset + byteLength lead + byteLength (early ++ (word' ++ late))⟩
            (early ++ (word' ++ late)) value.quote, false,
          ⟨offset + byteLength lead + byteLength (early ++ (word' ++ late)) + byteLength trail, rest⟩) := by
  have hone : ∀ {quote : Char}, quote = '"' ∨ quote = '\'' → byteLength [quote] = 1 := by
    rintro quote (rfl | rfl) <;> rfl
  have htext := valueText chars
  cases htext with
  | quoted hquote hinner =>
    rename_i quote inner after
    rw [readValue_between _ _ _ _ hquote hinner] at hread
    simp only [Prod.mk.injEq, Stream.mk.injEq] at hread
    obtain ⟨rfl, rfl, -, rfl⟩ := hread
    refine ⟨[quote], [quote], ?_, rfl, ?_, fun early late hraw => ?_⟩
    · simp [readValue.value]
    · simp [readValue.value, hone hquote]
    · obtain rfl : inner = early ++ (word ++ late) := by simpa [readValue.value] using hraw
      have hinner' : quote ∉ early ++ (word' ++ late) := by
        simp only [List.mem_append, not_or] at hinner ⊢
        refine ⟨hinner.1, not_mem_neutral hword ?_, hinner.2.2⟩
        rcases hquote with rfl | rfl <;> decide
      have hbetween := readValue_between language key offset after hquote hinner'
      rw [← hone hquote] at hbetween
      exact ⟨_, hbetween⟩
  | unclosed hquote hinner =>
    have hnil := readValue_unclosed language key offset hquote hinner
    rw [hread] at hnil
    exact absurd hnil hne
  | bare hfirst hinner hstops =>
    rename_i inner after
    rw [readValue_bare _ _ _ hfirst hinner hstops] at hread
    simp only [Prod.mk.injEq, Stream.mk.injEq] at hread
    obtain ⟨rfl, rfl, -, rfl⟩ := hread
    refine ⟨[], [], ?_, rfl, ?_, fun early late hraw => ?_⟩
    · simp [readValue.value]
    · simp [readValue.value]
    · obtain rfl : inner = early ++ (word ++ late) := by simpa [readValue.value] using hraw
      refine ⟨_, readValue_bare language key offset (fun c hc => ?_) (fun c hc => ?_) hstops⟩
      · have hstart : ∀ word, word ≠ [] → (early ++ (word ++ late) ++ after).head? = (early ++ (word ++ late)).head? := by
          intro word hne
          exact List.head?_append_of_ne_nil _ (by simp [hne])
        rw [hstart word' hsome'] at hc
        rcases head?_exchange hword hsome' hc with hold | ⟨-, hneutral⟩
        · exact hfirst c (by rw [hstart word hsome]; exact hold)
        · simp only [List.mem_cons, not_or] at hneutral
          exact ⟨hneutral.2.2.2.2.1, hneutral.2.2.2.2.2.1⟩
      · simp only [List.mem_append] at hc hinner
        rcases hc with hc | hc | hc
        · exact hinner c (.inl hc)
        · have hneutral := hword c hc
          exact ⟨hneutral.1, fun heq => hneutral.2 (by rw [heq]; decide)⟩
        · exact hinner c (.inr (.inr hc))

/-! ## Attributes -/

/-- Attributes of one key, the second with a value of another text where that of the first starts. -/
structure ReadAttribute.Revalued
    (language : Script.Language) (read read' : ReadAttribute) (start : Nat) (inner : List Char) : Prop where
  key : read'.attr.key = read.attr.key
  unclosed : read'.unclosed = false
  value : ∃ span quote, read'.attr.value =
    some (readValue.value language read.attr.key span ⟨start, start + byteLength inner⟩ inner quote)

/-- An attribute is read with another word in its value as it was read, up to the same text. -/
theorem readAttribute_exchange {around : Surroundings} {offset stop : Nat} {chars rest : List Char} {read : ReadAttribute}
    {value : AttributeValue} (hstart : StartsAttribute chars) (hne : rest ≠ [])
    (hread : readAttribute around ⟨offset, chars⟩ = (read, ⟨stop, rest⟩)) (hvalue : read.attr.value = some value) :
    ∃ lead trail, chars = lead ++ (value.raw.toList ++ (trail ++ rest)) ∧ StartsAttribute lead ∧
      value.valueSpan = ⟨offset + byteLength lead, offset + byteLength lead + byteLength value.raw.toList⟩ ∧
      ∀ early late, value.raw.toList = early ++ (word ++ late) → ∃ read',
        readAttribute around ⟨offset, lead ++ (early ++ (word' ++ late) ++ (trail ++ rest))⟩ =
          (read', ⟨offset + byteLength lead + byteLength (early ++ (word' ++ late)) + byteLength trail, rest⟩) ∧
        read.Revalued around.language read' (offset + byteLength lead) (early ++ (word' ++ late)) := by
  have htext := attributeText hstart.ne_nil
  cases htext with
  | plain hname hequals =>
    rw [readAttribute_plain around offset hname hequals] at hread
    obtain ⟨rfl, -⟩ := Prod.mk.inj hread
    cases hvalue
  | valued hname hblanks hmore hafter =>
    rename_i name blanks more after
    obtain ⟨found, unclosed, last, hfound⟩ : ∃ value unclosed last,
      readValue around.language (Key.parse name offset around.topLevel)
        ⟨offset + byteLength name + byteLength blanks + 1 + byteLength more, after⟩ = (value, unclosed, last) := ⟨_, _, _, rfl⟩
    rw [readAttribute_valued around offset hname hblanks hmore hafter hfound] at hread
    obtain ⟨rfl, rfl⟩ := Prod.mk.inj hread
    obtain rfl : found = value := Option.some.inj hvalue
    obtain ⟨lead, trail, rfl, rfl, hspan, hexchange⟩ := readValue_exchange hword hsome hsome' hne hfound
    have hnamed : name ≠ [] := by
      have hnonempty := (wholeName_append hstart.ne_nil).2
      rwa [hname] at hnonempty
    have hlength : byteLength (name ++ (blanks ++ '=' :: (more ++ lead))) =
        byteLength name + byteLength blanks + 1 + byteLength more + byteLength lead := by
      simp only [byteLength_append, byteLength_cons, show '='.utf8Size = 1 from rfl]
      omega
    refine ⟨name ++ (blanks ++ '=' :: (more ++ lead)), trail, by simp, ?_, ?_, fun early late hraw => ?_⟩
    · obtain ⟨c, hc, hgap, hmark⟩ := hstart
      refine ⟨c, ?_, hgap, hmark⟩
      rw [List.head?_append_of_ne_nil _ hnamed] at hc ⊢
      exact hc
    · rw [hspan, hlength]
      simp only [Nat.add_assoc]
    · obtain ⟨span, hread'⟩ := hexchange early late hraw
      have hbracket : ']' ∈ blanks ++ '=' :: (more ++ (lead ++ (early ++ (word' ++ late) ++ (trail ++ rest)))) →
          ']' ∈ blanks ++ '=' :: (more ++ (lead ++ (found.raw.toList ++ (trail ++ rest)))) := by
        rw [hraw]
        intro hmem
        have hmem' : ']' ∈ (blanks ++ '=' :: (more ++ (lead ++ early))) ++
          (word' ++ (late ++ (trail ++ rest))) := by simpa using hmem
        have hold : ']' ∈ (blanks ++ '=' :: (more ++ (lead ++ early))) ++ (word ++ (late ++ (trail ++ rest))) :=
          mem_bracket_exchange hword hmem'
        simpa using hold
      have hsign : ∀ tail, endsAttributeName (blanks ++ '=' :: tail) = true ∧ (blanks ++ '=' :: tail).head? ≠ some '>' := by
        intro tail
        cases blanks with
        | nil => simp [endsAttributeName]
        | cons c blanks =>
          have hc := hblanks c List.mem_cons_self
          refine ⟨by simp [endsAttributeName, endsTagName, hc], fun hmark => ?_⟩
          obtain rfl : c = '>' := Option.some.inj hmark
          cases hc
      have hname' := wholeName_swap hstart hname (.inr (hsign _).1) (fun _ => (hsign _).2) hbracket
      have hafter' : ∀ c ∈ (lead ++ (early ++ (word' ++ late) ++ (trail ++ rest))).head?, isAsciiSpace c = false := by
        intro c hc
        cases lead with
        | cons d lead => exact hafter c hc
        | nil =>
          rw [List.nil_append, List.head?_append_of_ne_nil _ (by simp [hsome'])] at hc
          rcases head?_exchange hword hsome' hc with hold | hneutral
          · refine hafter c ?_
            rw [List.nil_append, hraw, List.head?_append_of_ne_nil _ (by simp [hsome])]
            exact hold
          · exact hneutral.1
      have hoffset : offset + byteLength name + byteLength blanks + 1 + byteLength more + byteLength lead =
          offset + byteLength (name ++ (blanks ++ '=' :: (more ++ lead))) := by
        rw [hlength]
        omega
      rw [hoffset] at hread'
      have hattr := readAttribute_valued around offset hname' hblanks hmore hafter' hread'
      have hchars : name ++ (blanks ++ '=' :: (more ++ (lead ++ (early ++ (word' ++ late) ++ (trail ++ rest))))) =
          name ++ (blanks ++ '=' :: (more ++ lead)) ++ (early ++ (word' ++ late) ++ (trail ++ rest)) := by
        simp
      rw [hchars] at hattr
      exact ⟨_, hattr, rfl, rfl, span, found.quote, rfl⟩

end Exchanging

/-! ## Start tags -/

section Listing

variable {around : Surroundings}

theorem Listed.append {stream middle last : Stream} {reads reads' : List ReadAttribute} (h : Listed around stream reads middle)
    (h' : Listed around middle reads' last) : Listed around stream (reads ++ reads') last := by
  induction h with
  | none => exact h'
  | cons hgap hgaps hstart hread _ ih => exact .cons hgap hgaps hstart hread (ih h')

theorem Listed.of_append {stream last : Stream} {reads reads' : List ReadAttribute}
    (h : Listed around stream (reads ++ reads') last) :
    ∃ middle, Listed around stream reads middle ∧ Listed around middle reads' last := by
  induction reads generalizing stream with
  | nil => exact ⟨stream, .none stream, h⟩
  | cons read reads ih =>
    cases h with
    | cons hgap hgaps hstart hread h =>
      obtain ⟨middle, hreads, hrest⟩ := ih h
      exact ⟨middle, .cons hgap hgaps hstart hread hreads, hrest⟩

/-- The attributes up to the end of a tag are the same wherever they stand. -/
theorem Listed.exists_shift {offset : Nat} {chars : List Char} {reads : List ReadAttribute} {last rest : Stream} {ending : TagEnd}
    (h : Listed around ⟨offset, chars⟩ reads last) (htail : TagTail last ending rest) :
    ∃ firsts : List ReadAttribute, reads = firsts.map (·.shift offset) ∧ ∀ offset', ∃ last' stop,
      Listed around ⟨offset', chars⟩ (firsts.map (·.shift offset')) last' ∧ TagTail last' ending ⟨stop, rest.chars⟩ := by
  have hshift : ∀ offset, readAttributes around (chars.length + 1) ⟨offset, chars⟩ =
      ((readAttributes around (chars.length + 1) ⟨0, chars⟩).1.map (·.shift offset),
        (readAttributes around (chars.length + 1) ⟨0, chars⟩).2.1,
        (readAttributes around (chars.length + 1) ⟨0, chars⟩).2.2.shift offset) := by
    intro offset
    rw [← readAttributes_shift, Stream.shift, Nat.zero_add]
  have hread := readAttributes_of_listed h htail (Nat.lt_succ_self chars.length)
  rw [hshift, Prod.mk.injEq, Prod.mk.injEq] at hread
  obtain ⟨hreads, hending, hrest⟩ := hread
  refine ⟨_, hreads.symm, fun offset' => ?_⟩
  obtain ⟨last', hlisted', htail'⟩ := @readAttributes_listed around _ ⟨offset', chars⟩ (Nat.lt_succ_self chars.length)
  rw [hshift, hending] at htail'
  rw [hshift] at hlisted'
  subst hrest
  exact ⟨last', _, hlisted', htail'⟩

theorem TagTail.ne_nil {last rest : Stream} {ending : TagEnd} (h : TagTail last ending rest) (hended : ending ≠ .missing) :
    last.chars ≠ [] := by
  cases h with
  | plain hgap _ _ hmark => simp [hgap.chars, hmark.chars]
  | selfClosing hgap _ hmark => simp [hgap.chars, hmark.chars]
  | missing => exact absurd rfl hended

end Listing

/-- Start tags of one name, with the same attributes but for the value of one of them; those behind it are moved. -/
structure ReadTag.Revalued
    (language : Script.Language) (tag tag' : ReadTag) (read : ReadAttribute) (place : Nat) (inner : List Char)
    (offset offset' : Nat) : Prop where
  rawName : tag'.rawName = tag.rawName
  start : tag'.start = tag.start
  ending : tag'.ending = tag.ending
  attributes : ∃ (before : List ReadAttribute) (read' : ReadAttribute) (firsts : List ReadAttribute),
    tag.attributes = before ++ read :: firsts.map (·.shift offset) ∧
      tag'.attributes = before ++ read' :: firsts.map (·.shift offset') ∧
      read.Revalued language read' place inner

section Exchanging

variable {word word' : List Char} (hword : ∀ c ∈ word', Neutral c) (hsome : word ≠ []) (hsome' : word' ≠ [])
include hword hsome hsome'

/-- Attributes up to the end of a tag are read with another word in the value of one of them as they were read. -/
theorem Listed.exchange {around : Surroundings} {offset : Nat} {chars : List Char} {before after : List ReadAttribute}
    {read : ReadAttribute} {last rest : Stream} {ending : TagEnd}
    (h : Listed around ⟨offset, chars⟩ (before ++ read :: after) last)
    (htail : TagTail last ending rest) (hended : ending ≠ .missing)
    {value : AttributeValue} (hvalue : read.attr.value = some value) :
    ∃ (lead more : List Char) (firsts : List ReadAttribute) (trail : Nat),
      chars = lead ++ (value.raw.toList ++ (more ++ rest.chars)) ∧ (∃ c ∈ lead, ¬TagGap c) ∧
      value.valueSpan = ⟨offset + byteLength lead, offset + byteLength lead + byteLength value.raw.toList⟩ ∧
      after = firsts.map (·.shift (offset + byteLength lead + byteLength value.raw.toList + trail)) ∧
      ∀ early late, value.raw.toList = early ++ (word ++ late) → ∃ read' last' stop',
        Listed around ⟨offset, lead ++ (early ++ (word' ++ late) ++ (more ++ rest.chars))⟩
          (before ++ read' :: firsts.map (·.shift
            (offset + byteLength lead + byteLength (early ++ (word' ++ late)) + trail))) last' ∧
        TagTail last' ending ⟨stop', rest.chars⟩ ∧
        read.Revalued around.language read' (offset + byteLength lead) (early ++ (word' ++ late)) := by
  obtain ⟨⟨middle, middleChars⟩, hbefore, hrest⟩ := h.of_append
  cases hrest with
  | @cons _ here next _ gap _ _ hgap hgaps hstarts hattr hafter =>
    obtain ⟨here, hereChars⟩ := here
    obtain ⟨next, nextChars⟩ := next
    obtain ⟨taken, htaken⟩ := hafter.reads
    obtain ⟨mark, hmark⟩ := htail.reads
    have hnextChars : nextChars = taken ++ mark ++ rest.chars := (htaken.trans hmark).chars
    have hne : nextChars ≠ [] := by
      rw [show nextChars = taken ++ last.chars from htaken.chars]
      simp [htail.ne_nil hended]
    obtain ⟨across, -, hacross⟩ := readAttribute_reads hstarts hattr
    obtain ⟨lead, trail, rfl, hlead, hspan, hexchange⟩ := readAttribute_exchange hword hsome hsome' hstarts hne hattr hvalue
    obtain rfl : across = lead ++ (value.raw.toList ++ trail) := by
      refine List.append_cancel_right (hacross.chars.symm.trans ?_)
      simp
    obtain ⟨inside, hinside⟩ := hbefore.reads
    obtain rfl : middleChars = gap ++ (lead ++ (value.raw.toList ++ (trail ++ nextChars))) := hgap.chars
    obtain rfl : chars = inside ++ (gap ++ (lead ++ (value.raw.toList ++ (trail ++ nextChars)))) := hinside.chars
    obtain rfl : middle = offset + byteLength inside := hinside.offset
    obtain rfl : here = offset + byteLength inside + byteLength gap := hgap.offset
    have hplace : offset + byteLength inside + byteLength gap + byteLength lead =
        offset + byteLength (inside ++ (gap ++ lead)) := by
      simp only [byteLength_append]
      omega
    rw [hplace] at hspan hexchange
    have hanchor : ∃ c ∈ gap ++ lead, ¬TagGap c := by
      obtain ⟨c, hc, hgap, -⟩ := hlead
      exact ⟨c, List.mem_append_right _ (List.mem_of_mem_head? hc), hgap⟩
    obtain ⟨firsts, hfirsts, hshift⟩ := hafter.exists_shift htail
    have hnext : next = offset + byteLength (inside ++ (gap ++ lead)) + byteLength value.raw.toList + byteLength trail := by
      have hoffset := hacross.offset
      simp only [byteLength_append] at hoffset ⊢
      omega
    refine ⟨inside ++ (gap ++ lead), trail ++ (taken ++ mark), firsts,
      byteLength trail, by simp [hnextChars], ?_, hspan, hnext ▸ hfirsts,
      fun early late hraw => ?_⟩
    · obtain ⟨c, hc, hgap⟩ := hanchor
      exact ⟨c, List.mem_append_right _ hc, hgap⟩
    obtain ⟨read', hattr', hrevalued⟩ := hexchange early late hraw
    obtain ⟨last', stop', hafter', htail'⟩ := hshift _
    have hbracket : ']' ∈ gap ++ (lead ++ (early ++ (word' ++ late) ++ (trail ++ nextChars))) →
        ']' ∈ gap ++ (lead ++ (value.raw.toList ++ (trail ++ nextChars))) := by
      rw [hraw]
      intro hmem
      have hmem' : ']' ∈ (gap ++ (lead ++ early)) ++ (word' ++ (late ++ (trail ++ nextChars))) := by
        simpa using hmem
      have hold : ']' ∈ (gap ++ (lead ++ early)) ++ (word ++ (late ++ (trail ++ nextChars))) := mem_bracket_exchange hword hmem'
      simpa using hold
    have hbefore' := hbefore.swap rfl rfl (by simp [hne]) (fun found _ taken _ hbehind => by
      rw [← List.append_assoc] at hbehind
      have hbehind' := hbehind.front hanchor (early ++ (word' ++ late) ++ (trail ++ nextChars))
      rwa [List.append_assoc] at hbehind') hbracket
    have hgap' : Stream.Reads ⟨offset + byteLength inside,
        gap ++ (lead ++ (early ++ (word' ++ late) ++ (trail ++ nextChars)))⟩ gap
        ⟨offset + byteLength inside + byteLength gap,
          lead ++ (early ++ (word' ++ late) ++ (trail ++ nextChars))⟩ := ⟨rfl, rfl⟩
    have hstarts' : StartsAttribute (lead ++ (early ++ (word' ++ late) ++ (trail ++ nextChars))) := by
      obtain ⟨c, hc, hgap, hmark⟩ := hlead
      refine ⟨c, ?_, hgap, hmark⟩
      rw [List.head?_append, show lead.head? = some c from hc]
      rfl
    refine ⟨read', last', stop', ?_, htail', hrevalued⟩
    have hlisted := hbefore'.append (.cons hgap' hgaps hstarts' hattr' hafter')
    rw [hnextChars] at hlisted
    simpa only [List.append_assoc] using hlisted

/-- A start tag is read with another word in a value as it was read, up to the same text. -/
theorem readStartTag_exchange {around : Surroundings} {start chars front back : List Char} {tag : ReadTag} {rest : Stream}
    (hread : readStartTag around ⟨byteLength start, '<' :: chars⟩ = (tag, rest)) (hended : tag.ending ≠ .missing)
    (hchars : start ++ '<' :: chars = front ++ (word ++ back)) {read : ReadAttribute} (hmem : read ∈ tag.attributes)
    {value : AttributeValue} (hvalue : read.attr.value = some value) (hstart : value.valueSpan.start ≤ byteLength front)
    (hstop : byteLength front + byteLength word ≤ value.valueSpan.stop) :
    ∃ lead early late more, front = start ++ '<' :: lead ++ early ∧ back = late ++ (more ++ rest.chars) ∧
      value.raw.toList = early ++ (word ++ late) ∧
      value.valueSpan = ⟨byteLength (start ++ '<' :: lead), byteLength (start ++ '<' :: lead) + byteLength value.raw.toList⟩ ∧
      ∃ tag' stop' count, readStartTag around ⟨byteLength start, '<' :: (lead ++ early ++ (word' ++ back))⟩ =
          (tag', ⟨stop', rest.chars⟩) ∧
        tag.Revalued around.language tag' read value.valueSpan.start (early ++ (word' ++ late))
          (byteLength front + byteLength word + count) (byteLength front + byteLength word' + count) := by
  obtain ⟨name, after, hname⟩ : ∃ name after, tagName chars = (name, after) := ⟨_, _, rfl⟩
  have happ := tagName_append chars
  have hends := tagName_ends chars
  have hslash := tagName_slash chars
  rw [hname] at happ hends hslash
  dsimp only at happ hends hslash
  subst happ
  obtain ⟨hrawName, hstartEq, hstopEq, last, hlisted, htail⟩ := readStartTag_listed around hname hread
  obtain ⟨before, behind, hattributes⟩ := List.append_of_mem hmem
  rw [hattributes] at hlisted
  obtain ⟨lead, more, firsts, trail, rfl, hlead, hspan, hfirsts, hexchange⟩ :=
    hlisted.exchange hword hsome hsome' htail hended hvalue
  -- The word stands in the value.
  have hplace : byteLength start + 1 + byteLength name + byteLength lead = byteLength (start ++ '<' :: (name ++ lead)) := by
    rw [Builder.byteLength_open, byteLength_append, ← Nat.add_assoc]
  rw [hspan, hplace] at hstart hstop ⊢
  rw [hplace] at hfirsts hexchange
  dsimp only at hstart hstop ⊢
  have hall : start ++ '<' :: (name ++ lead) ++ (value.raw.toList ++ (more ++ rest.chars)) = front ++ (word ++ back) := by
    rw [← hchars]
    simp
  obtain ⟨early, rfl, hvalueText⟩ := exists_of_append_eq hall (by omega)
  have hfront := byteLength_append (start ++ '<' :: (name ++ lead)) early
  rw [← List.append_assoc early] at hvalueText
  obtain ⟨late, hraw, rfl⟩ := exists_of_append_eq hvalueText.symm (by
    rw [byteLength_append]
    omega)
  rw [List.append_assoc] at hraw
  obtain ⟨read', last', stop', hlisted', htail', hrevalued⟩ := hexchange early late hraw
  -- The name of the tag ends where it did.
  have hname' : tagName (name ++ (lead ++ (early ++ (word' ++ late) ++ (more ++ rest.chars)))) =
      (name, lead ++ (early ++ (word' ++ late) ++ (more ++ rest.chars))) := by
    refine tagName_swap hname ?_ fun hlast => ?_
    · rw [endsTagName_front hlead _ (value.raw.toList ++ (more ++ rest.chars))]
      exact hends
    · rw [head?_front hlead _ (value.raw.toList ++ (more ++ rest.chars))]
      exact hslash hlast
  have hbehind : ∀ word : List Char, byteLength (start ++ '<' :: (name ++ lead)) + byteLength (early ++ (word ++ late)) + trail =
      byteLength (start ++ '<' :: (name ++ lead) ++ early) + byteLength word + (byteLength late + trail) := by
    intro word
    rw [hfront]
    simp only [byteLength_append early, byteLength_append word]
    omega
  rw [hraw, hbehind] at hfirsts
  rw [hbehind] at hlisted'
  have hread' := readStartTag_of_listed hname' hlisted' htail'
  refine ⟨name ++ lead, early, late, more, rfl, rfl, hraw, rfl, ⟨name, byteLength start, _, tag.ending, stop'⟩, stop',
    byteLength late + trail, ?_, hrawName.symm, hstartEq.symm, rfl, before, read', firsts, hfirsts ▸ hattributes, rfl, hrevalued⟩
  rw [← hread']
  simp

end Exchanging

/-! ## Elements -/

namespace ReadTag.Revalued

variable {language : Script.Language} {tag tag' : ReadTag} {read : ReadAttribute} {place offset offset' : Nat} {inner : List Char}
  {key : DirectiveKey}

/-- The plain attributes say the same if the value is that of a directive. -/
theorem attributeText_eq (h : tag.Revalued language tag' read place inner offset offset') (hkey : read.attr.key = .directive key)
    (builder : Builder) (name : String) : (((builder.elementOf tag).attribute? name).bind (·.value)).map (·.raw) =
      (((builder.elementOf tag').attribute? name).bind (·.value)).map (·.raw) := by
  obtain ⟨before, read', firsts, hold, hnew, hread⟩ := h.attributes
  have hplain : ∀ distance : Nat, (fun attr : Attribute => attr.isPlain name) ∘ (fun read : ReadAttribute => read.attr) ∘
      (fun read : ReadAttribute => read.shift distance) = fun read => read.attr.isPlain name := by
    intro distance
    funext read
    exact read.attr.isPlain_shift distance name
  have hskipped : read.attr.isPlain name = false ∧ read'.attr.isPlain name = false := by
    rw [Attribute.isPlain, Attribute.isPlain, hread.key, hkey]
    exact ⟨rfl, rfl⟩
  have hraw : ∀ distance : Nat,
    ((((firsts.map (·.shift distance)).map (·.attr)).find? (·.isPlain name)).bind (·.value)).map (·.raw) =
      ((firsts.find? (·.attr.isPlain name)).bind (·.attr.value)).map (·.raw) := by
    intro distance
    rw [List.map_map, List.find?_map, hplain]
    cases firsts.find? (·.attr.isPlain name) with
    | none => rfl
    | some first =>
      obtain ⟨⟨span, key, value⟩, equals, unclosed⟩ := first
      cases value <;> rfl
  unfold Element.attribute? Element.attributes Builder.elementOf
  dsimp only
  rw [hold, hnew, List.map_append, List.map_append, List.map_cons, List.map_cons, List.find?_append, List.find?_append,
    List.find?_cons_of_neg (by simp [hskipped.1]), List.find?_cons_of_neg (by simp [hskipped.2])]
  cases (before.map (·.attr)).find? (·.isPlain name) with
  | none =>
    rw [Option.none_or, Option.none_or, hraw, hraw]
  | some attr => rfl

theorem heading_eq (h : tag.Revalued language tag' read place inner offset offset') (builder : Builder) :
    (builder.elementOf tag).heading = (builder.elementOf tag').heading ∧
      (builder.elementOf tag).startTag.selfClosing = (builder.elementOf tag').startTag.selfClosing := by
  refine ⟨?_, ?_⟩
  · simp [Builder.elementOf, Element.heading, h.rawName]
  · simp [Builder.elementOf, h.ending]

theorem rawName?_eq (h : tag.Revalued language tag' read place inner offset offset') (hkey : read.attr.key = .directive key)
    (builder : Builder) : builder.rawName? (.startTag tag') = builder.rawName? (.startTag tag) := by
  obtain ⟨hheading, hself⟩ := h.heading_eq builder
  rw [Builder.rawName?_startTag, Builder.rawName?_startTag,
    Element.holdsRaw_congr hheading hself (h.attributeText_eq hkey builder "lang"), h.rawName]

/-- The tag has no problem if the value says something. -/
theorem problems_eq_nil (h : tag.Revalued language tag' read place inner offset offset') (hkey : read.attr.key = .directive key)
    (hmeaning : Fragment.directiveValue language key.name.text place inner ≠ some .invalid) {fileStop : Nat}
    (hnone : (Piece.startTag tag).problems fileStop = []) (fileStop' : Nat) : (Piece.startTag tag').problems fileStop' = [] := by
  obtain ⟨before, read', firsts, hold, hnew, hread⟩ := h.attributes
  obtain ⟨span, quote, hvalue⟩ := hread.value
  simp only [Piece.problems, List.append_eq_nil_iff, List.flatMap_eq_nil_iff] at hnone ⊢
  obtain ⟨hattributes, hending⟩ := hnone
  have hsame : ∀ {read : ReadAttribute}, read.problems fileStop = [] → read.problems fileStop' = [] := by
    intro read hread
    exact (ReadAttribute.problems_shift 0 read 0 fileStop').1 ((ReadAttribute.problems_shift 0 read 0 fileStop).2 hread)
  refine ⟨fun found hfound => ?_, ?_⟩
  · rw [hnew] at hfound
    rw [hold] at hattributes
    rcases List.mem_append.1 hfound with hmem | hmem
    · exact hsame (hattributes found (List.mem_append_left _ hmem))
    · rcases List.mem_cons.1 hmem with rfl | hmem
      · rw [hkey] at hvalue
        unfold ReadAttribute.problems
        rw [hvalue, hread.key, hkey, hread.unclosed]
        dsimp only [readValue.value]
        rw [if_neg Bool.false_ne_true, List.nil_append]
        split
        · next hinvalid _ => exact absurd hinvalid hmeaning
        · rfl
      · obtain ⟨first, hfirst, rfl⟩ := List.mem_map.1 hmem
        have hold' := hattributes (first.shift offset) (by
          rw [List.mem_append, List.mem_cons]
          exact .inr (.inr (List.mem_map_of_mem hfirst)))
        exact (ReadAttribute.problems_shift offset' first fileStop' 0).2
          ((ReadAttribute.problems_shift offset first fileStop 0).1 hold')
  · rw [h.ending]
    simpa using hending

end ReadTag.Revalued

namespace Lockstep

open Builder

variable {rev : Revision} {rename : Nat → Nat} {changed : Nat → Prop} {old new : Builder} {language : Script.Language}
  {fileStop fileStop' : Nat} {tag tag' : ReadTag}

/-- Elements of one name keep the trees in step, whatever their attributes say, if the edit changes them. -/
theorem startElement_changed (h : Lockstep rev rename changed old new) (hold : Shaped old.nodes old.stack)
    (hnew : Shaped new.nodes new.stack) (hchanged : changed new.nodes.size) {element element' : Element}
    (hheading : element.heading = element'.heading) (hself : element.startTag.selfClosing = element'.startTag.selfClosing) :
    Lockstep rev rename changed (old.startElement element) (new.startElement element') := by
  have hpush : Lockstep rev rename changed (old.push element.startTag.span (.element element))
      (new.push element'.startTag.span (.element element')) :=
    h.push hold hnew (.element hheading) fun hsame => absurd hchanged hsame
  unfold Builder.startElement
  dsimp only
  rw [hself, Element.isVoid_of_heading hheading]
  split
  · exact hpush
  · refine ⟨h.zero, h.injective, ?_, hpush.size, hpush.nodes, hpush.problems⟩
    exact congrArg₂ List.cons (h.size 0).symm h.stack

/-- A step of both files over start tags that the edit changes, with the same text behind them. -/
theorem advance_changed (h : Lockstep rev rename changed old new) (hold : Shaped old.nodes old.stack)
    (hnew : Shaped new.nodes new.stack) (hchanged : changed new.nodes.size) {stream stream' : Stream} {offset offset' : Nat}
    {content rest : List Char} (hread : readPiece (old.surroundings language) stream = (.startTag tag, ⟨offset, content ++ rest⟩))
    (hread' : readPiece (new.surroundings language) stream' = (.startTag tag', ⟨offset', content ++ rest⟩))
    (hheading : (old.elementOf tag).heading = (new.elementOf tag').heading)
    (hself : (old.elementOf tag).startTag.selfClosing = (new.elementOf tag').startTag.selfClosing)
    (hproblems : (Piece.startTag tag).problems fileStop = [] → (Piece.startTag tag').problems fileStop' = [])
    (hraw : new.rawName? (.startTag tag') = old.rawName? (.startTag tag))
    (hstep : (advance language fileStop old stream).2 = ⟨offset + byteLength content, rest⟩)
    (hsource : Stream.Before ⟨0, rev.source⟩ ⟨offset, content ++ rest⟩)
    (hedited : Stream.Before ⟨0, rev.edited⟩ ⟨offset', content ++ rest⟩)
    (hplace : ∀ count, rev.place (offset + count) (offset' + count)) :
    (advance language fileStop' new stream').2 = ⟨offset' + byteLength content, rest⟩ ∧
      Lockstep rev rename changed (advance language fileStop old stream).1 (advance language fileStop' new stream').1 := by
  have hrecord := h.record fileStop fileStop' hproblems
  have hadded : Lockstep rev rename changed (old.add fileStop (.startTag tag)) (new.add fileStop' (.startTag tag')) :=
    hrecord.startElement_changed hold hnew hchanged hheading hself
  obtain ⟨hstep', ⟨hadds, hadds'⟩ | ⟨raw, hfrom, hadds, hadds'⟩⟩ := advance_content hread hread' hraw hstep
  · rw [hadds, hadds']
    exact ⟨hstep', hadded⟩
  · have hstop := hplace (byteLength content)
    rw [Nat.add_comm, Nat.add_comm offset'] at hstop
    rw [hadds, hadds']
    exact ⟨hstep', hadded.addRead (add_shaped hold fileStop _) (add_shaped hnew fileStop' _) fileStop
      fileStop' hfrom hsource hedited
      (hplace 0) hstop⟩

end Lockstep

namespace Builder

variable {language : Script.Language} {source edited : List Char} {id : Nat} {element : Element} {builder last : Builder}
  {tag tag' : ReadTag} {start inside tail content rest opening opening' front word word' back : List Char}

/-- A file is read up to a start tag, over it with its raw content, and to its end. -/
theorem Opens.passes (h : Opens language source id element builder last tag start inside (content ++ rest))
    (hopening : '<' :: inside ++ tag.ending.mark = opening)
    (hstep : (advance language (byteLength source) builder ⟨byteLength start, opening ++ (content ++ rest)⟩).2 =
      ⟨byteLength start + byteLength opening + byteLength content, rest⟩) :
    Passes language source start (opening ++ content) rest builder
      (advance language (byteLength source) builder ⟨byteLength start, opening ++ (content ++ rest)⟩).1 last := by
  have hupTo := h.upTo
  have htext : '<' :: (inside ++ (tag.ending.mark ++ (content ++ rest))) = opening ++ content ++ rest := by
    rw [← hopening]
    simp
  rw [htext] at hupTo
  rw [← List.append_assoc] at hstep ⊢
  rw [Nat.add_assoc, ← byteLength_append] at hstep
  have hover : Walks language (byteLength source) _ ⟨byteLength start + byteLength (opening ++ content), rest⟩ builder
      ⟨byteLength start, opening ++ content ++ rest⟩ := .single (htext ▸ List.cons_ne_nil _ _) (Prod.ext rfl hstep)
  exact ⟨hupTo, hover, hover.rest_of (hupTo.rest_of h.walk rfl) rfl⟩

/-- A start tag is exchanged for another one of the same name: the tree is the same but for the start tag of the element. -/
theorem Opens.exchange {rev : Revision}
    (h : Opens language rev.source id element builder last tag start inside (content ++ rest))
    (hopening : '<' :: inside ++ tag.ending.mark = opening)
    (hstep : (advance language (byteLength rev.source) builder ⟨byteLength start,
      '<' :: (inside ++ (tag.ending.mark ++ (content ++ rest)))⟩).2
      = ⟨byteLength start + 1 + byteLength inside + byteLength tag.ending.mark + byteLength content, rest⟩)
    (hrev : rev.Replaces start (opening ++ content) (opening' ++ content) rest)
    (hplace : ∀ count, rev.place (byteLength start + byteLength opening + count) (byteLength start + byteLength opening' + count))
    (hexchange : Exchangeable (opening ++ content ++ rest) (opening' ++ content ++ rest))
    (hread' : readPiece (builder.surroundings language) ⟨byteLength start, opening' ++ (content ++ rest)⟩ =
      (.startTag tag', ⟨byteLength start + byteLength opening', content ++ rest⟩))
    (hheading : (builder.elementOf tag).heading = (builder.elementOf tag').heading)
    (hself : (builder.elementOf tag).startTag.selfClosing = (builder.elementOf tag').startTag.selfClosing)
    (hraw : builder.rawName? (.startTag tag') = builder.rawName? (.startTag tag))
    (hproblems : (Piece.startTag tag').problems (byteLength rev.edited) = []) :
    (parse language rev.source).1.Keeps rev (· = id) (parse language rev.edited).1 ∧
      ∃ element', (parse language rev.edited).1.element? id = some element' ∧
        element'.attributes = tag'.attributes.map (·.attr) := by
  have hread := h.readTag
  have hafterTag := h.afterTag
  have htext : '<' :: (inside ++ (tag.ending.mark ++ (content ++ rest))) = opening ++ (content ++ rest) := by
    rw [← hopening]
    simp
  have hstop : byteLength start + 1 + byteLength inside + byteLength tag.ending.mark = byteLength start + byteLength opening := by
    rw [← hopening, List.cons_append, byteLength_startTag]
  rw [h.startTag_stop, hstop] at hafterTag
  rw [htext, hstop] at hread hstep
  have hpasses := h.passes hopening hstep
  -- Up to the tag.
  obtain ⟨builder', hbefore', hlock⟩ := hpasses.exchange hrev hexchange (fun name _ hcloses => by
    rw [List.append_assoc, ← htext, closesRaw_of_startsName name (h.starts _)] at hcloses
    cases hcloses) (· = id)
  have hbuilder' := hbefore'.standing (start_standing _)
  have hid : builder'.nodes.size = id := (hlock.size 0).trans h.size
  -- The tag.
  rw [hlock.surroundings] at hread'
  obtain ⟨first, hfirst⟩ := exists_shift_of_readPiece hread'
  have hraw' : builder'.rawName? (.startTag tag') = builder.rawName? (.startTag tag) := by
    rw [← hraw, hfirst]
    exact hlock.rawName? (.startTag first) (byteLength start) (byteLength start)
  rw [hlock.elementOf_eq tag'] at hheading hself
  have hbehind : Stream.Before ⟨0, rev.edited⟩ ⟨byteLength start + byteLength opening', content ++ rest⟩ :=
    ⟨start ++ opening', by rw [hrev.edited, List.append_assoc, List.append_assoc], by rw [Nat.zero_add, byteLength_append]⟩
  obtain ⟨hstep', hlock'⟩ := hlock.advance_changed hpasses.shaped hbuilder'.shaped hid hread hread' hheading hself
    (fun _ => hproblems)
    hraw' hstep hafterTag hbehind hplace
  have hne : opening' ++ (content ++ rest) ≠ [] := chars_ne_nil_of_readPiece hread'
  rw [← List.append_assoc opening'] at hread' hstep' hlock' hne
  have hover' : Walks language (byteLength rev.edited) _ ⟨byteLength start + byteLength (opening' ++ content), rest⟩ builder'
      ⟨byteLength start, opening' ++ content ++ rest⟩ :=
    .single hne (Prod.ext rfl (by rw [hstep', byteLength_append, Nat.add_assoc]))
  -- Behind the tag.
  obtain ⟨last', hafter', hfinal, -⟩ := hpasses.resume hrev hlock' (hover'.shaped hbuilder'.shaped)
  have hwalk' := hbefore'.trans (hover'.trans hafter')
  obtain ⟨node, endTag, hnode, hkind⟩ := (hbefore'.rest_of hwalk' rfl).lasting_startTag rfl hbuilder' hne hread'
  rw [hid] at hnode
  refine ⟨.of_nodes ?_ ?_, { builder'.elementOf tag' with endTag := endTag }, ?_, rfl⟩
  · rw [hpasses.walk.parse_eq, hwalk'.parse_eq]
    exact hfinal.size 0
  · rw [hpasses.walk.parse_eq, hwalk'.parse_eq]
    exact hfinal.nodes
  · rw [hwalk'.parse_eq]
    exact Document.element?_eq_some_iff.2 ⟨node, hnode, hkind⟩

/-- A word in the value of a directive is exchanged for a neutral one with which the value says something: the
tree is the same but for the start tag of the element, which has the other word. -/
theorem Opens.exchange_word (h : Opens language source id element builder last tag start inside tail)
    (hsource : source = front ++ (word ++ back)) (hedited : edited = front ++ (word' ++ back)) (hword : ∀ c ∈ word', Neutral c)
    (hsome : word ≠ []) (hsome' : word' ≠ []) {read : ReadAttribute} (hmem : read ∈ tag.attributes) {key : DirectiveKey}
    (hkey : read.attr.key = .directive key) {value : AttributeValue} (hvalue : read.attr.value = some value)
    (hstart : value.valueSpan.start ≤ byteLength front) (hstop : byteLength front + byteLength word ≤ value.valueSpan.stop)
    (hmeaning : Fragment.directiveValue language key.name.text value.valueSpan.start
      (slice source ⟨value.valueSpan.start, byteLength front⟩ ++
      (word' ++ slice source ⟨byteLength front + byteLength word, value.valueSpan.stop⟩)) ≠ some .invalid) :
    value.valueSpan.InText source ∧ (parse language source).1.Keeps
      (.cut source edited (byteLength front) (byteLength front + byteLength word)
        (byteLength front + byteLength word')) (· = id) (parse language edited).1 ∧
      ∃ element' tag' count, (parse language edited).1.element? id = some element' ∧
        element'.attributes = tag'.attributes.map (·.attr) ∧
        tag.Revalued language tag' read value.valueSpan.start (slice source ⟨value.valueSpan.start, byteLength front⟩ ++
          (word' ++ slice source ⟨byteLength front + byteLength word, value.valueSpan.stop⟩))
          (byteLength front + byteLength word + count) (byteLength front + byteLength word' + count) := by
  obtain ⟨lead, early, late, more, rfl, rfl, hraw, hplace, tag', stop', count, hread', hrevalued⟩ :=
    readStartTag_exchange hword hsome hsome' h.read h.ended (h.source_eq.symm.trans hsource) hmem hvalue hstart hstop
  obtain ⟨content, rest, rfl, hstep⟩ := exists_content (byteLength source) h.readTag
  dsimp only at hsource hedited hread'
  -- The value with the other word.
  obtain ⟨hearly, hlate⟩ := slice_around (start ++ '<' :: lead) early word late (more ++ (content ++ rest))
  rw [← hsource, ← hraw] at hlate
  rw [← hsource] at hearly
  rw [hplace] at hmeaning hrevalued ⊢
  rw [hearly, hlate] at hmeaning ⊢
  have hstands : Stands source (byteLength (start ++ '<' :: lead)) value.raw.toList :=
    ⟨start ++ '<' :: lead, more ++ (content ++ rest), by rw [hsource, hraw]; simp, rfl⟩
  refine ⟨hstands.span, ?_⟩
  -- The tag with the other word.
  have htag : '<' :: inside ++ tag.ending.mark = '<' :: lead ++ early ++ (word ++ (late ++ more)) := by
    have hchars : start ++ ('<' :: inside ++ tag.ending.mark) ++ (content ++ rest) =
        start ++ ('<' :: lead ++ early ++ (word ++ (late ++ more))) ++ (content ++ rest) := by
      simpa using h.source_eq.symm.trans hsource
    exact List.append_cancel_left (List.append_cancel_right hchars)
  have hopened : ∀ word : List Char, '<' :: lead ++ early ++ (word ++ (late ++ more)) ++ (content ++ rest) =
      '<' :: (lead ++ early ++ (word ++ (late ++ (more ++ (content ++ rest))))) := fun word => by simp
  obtain ⟨further, hfurther, hstop'⟩ := readStartTag_reads hread'
  have hstarts' : startsName (lead ++ early ++ (word' ++ (late ++ (more ++ (content ++ rest))))) = true := by
    rw [hfurther, hrevalued.rawName, List.append_assoc]
    exact startsName_append h.isName.starts _
  have hstarts : startsName (lead ++ early ++ (word ++ (late ++ (more ++ (content ++ rest))))) = true := by
    have hopens := h.starts (tag.ending.mark ++ (content ++ rest))
    have hchars := congrArg (· ++ (content ++ rest)) htag
    rw [hopened, List.cons_append, List.cons_append, List.cons_inj_right, List.append_assoc] at hchars
    rwa [hchars] at hopens
  have hpiece' : readPiece (builder.surroundings language) ⟨byteLength start,
      '<' :: lead ++ early ++ (word' ++ (late ++ more)) ++ (content ++ rest)⟩ = (.startTag tag',
        ⟨byteLength start + byteLength ('<' :: lead ++ early ++ (word' ++ (late ++ more))), content ++ rest⟩) := by
    rw [hopened, readPiece_open _ hstarts', hread', Prod.mk.injEq, Stream.mk.injEq]
    refine ⟨rfl, ?_, rfl⟩
    have hchars := congrArg byteLength hfurther
    dsimp only at hstop'
    simp only [byteLength_append, byteLength_cons, show '<'.utf8Size = 1 from rfl] at hchars hstop' ⊢
    omega
  -- The edit in terms of the tag.
  have hregroup : ∀ word : List Char, start ++ '<' :: lead ++ early ++ (word ++ (late ++ (more ++ (content ++ rest)))) =
      start ++ ('<' :: lead ++ early ++ (word ++ (late ++ (more ++ content))) ++ rest) := fun word => by simp
  have hrev := Revision.replaces_cut start ('<' :: lead ++ early) word word' (late ++ (more ++ content)) rest
  rw [← hregroup, ← hregroup, ← hsource, ← hedited, ← List.append_assoc start] at hrev
  have hlength : ∀ word : List Char, byteLength start + byteLength ('<' :: lead ++ early ++ (word ++ (late ++ more))) =
      byteLength (start ++ '<' :: lead ++ early) + byteLength word + byteLength (late ++ more) := by
    intro word
    simp only [byteLength_append, Nat.add_assoc]
  have hplace : ∀ count, (Revision.cut source edited (byteLength (start ++ '<' :: lead ++ early))
      (byteLength (start ++ '<' :: lead ++ early) + byteLength word)
        (byteLength (start ++ '<' :: lead ++ early) + byteLength word')).place
        (byteLength start + byteLength ('<' :: lead ++ early ++ (word ++ (late ++ more))) + count)
        (byteLength start + byteLength ('<' :: lead ++ early ++ (word' ++ (late ++ more))) + count) := by
    intro count
    rw [hlength, hlength]
    exact .inr ⟨byteLength (late ++ more) + count, Nat.add_assoc _ _ _, Nat.add_assoc _ _ _⟩
  generalize hcut : Revision.cut source edited _ _ _ = rev at hrev hplace ⊢
  obtain ⟨rfl, rfl⟩ : rev.source = source ∧ rev.edited = edited := by rw [← hcut]; exact ⟨rfl, rfl⟩
  obtain ⟨hheading, hself⟩ := hrevalued.heading_eq builder
  have hexchange : Exchangeable ('<' :: lead ++ early ++ (word ++ (late ++ more)) ++ (content ++ rest))
      ('<' :: lead ++ early ++ (word' ++ (late ++ more)) ++ (content ++ rest)) := by
    rw [hopened, hopened]
    refine .of_word hword hsome' ?_
    rw [isMarkup_of_startsName hstarts, isMarkup_of_startsName hstarts']
  obtain ⟨hkeeps, element', helement', hattributes⟩ := h.exchange htag hstep (by simpa using hrev) hplace (by
    rw [List.append_assoc _ content, List.append_assoc _ content]
    exact hexchange) hpiece' hheading hself (hrevalued.rawName?_eq hkey builder) (hrevalued.problems_eq_nil
      hkey hmeaning h.problems _)
  exact ⟨hkeeps, element', tag', count, helement', hattributes, hrevalued⟩

/-! ## Interpolations -/

/-- A word in an interpolation is exchanged for a neutral one with which the text is an expression: the tree is
the same but for the interpolation, which has the other word. -/
theorem Interpolates.exchange_word {interpolation : Interpolation} {inner : List Char}
    (h : Interpolates language source id interpolation builder last start inner tail)
    (hsource : source = front ++ (word ++ back)) (hedited : edited = front ++ (word' ++ back)) (hword : ∀ c ∈ word', Neutral c)
    (hsome' : word' ≠ []) (hstart : interpolation.opening.stop ≤ byteLength front)
    (hstop : byteLength front + byteLength word ≤ interpolation.closing.start)
    (hexpression : (Fragment.expression? language interpolation.opening.stop
      (slice source ⟨interpolation.opening.stop, byteLength front⟩ ++
      (word' ++ slice source ⟨byteLength front + byteLength word, interpolation.closing.start⟩))).isSome = true) :
    (parse language source).1.Keeps (.cut source edited (byteLength front) (byteLength front + byteLength word)
        (byteLength front + byteLength word')) (· = id) (parse language edited).1 ∧
      (parse language edited).1.interpolation? id = some (interpolationOf language (byteLength start)
        (slice source ⟨interpolation.opening.stop, byteLength front⟩ ++
          (word' ++ slice source ⟨byteLength front + byteLength word, interpolation.closing.start⟩))) := by
  have hopening : interpolation.opening.stop = byteLength (start ++ ['{', '{']) := by
    rw [h.content_eq, byteLength_append]
    rfl
  have hclosing : interpolation.closing.start = byteLength (start ++ ['{', '{']) + byteLength inner := by
    rw [h.content_eq, byteLength_append]
    rfl
  rw [hopening] at hstart hexpression ⊢
  rw [hclosing] at hstop hexpression ⊢
  -- The word stands between the braces.
  have hall : start ++ ['{', '{'] ++ (inner ++ '}' :: '}' :: tail) = front ++ (word ++ back) := by
    rw [← hsource, h.source_eq, List.append_assoc]
    rfl
  obtain ⟨early, rfl, hinner⟩ := exists_of_append_eq hall hstart
  have hfront := byteLength_append (start ++ ['{', '{']) early
  rw [← List.append_assoc early] at hinner
  obtain ⟨late, rfl, rfl⟩ := exists_of_append_eq hinner.symm (by
    rw [byteLength_append]
    omega)
  obtain ⟨hearly, hlate⟩ := slice_around (start ++ ['{', '{']) early word late ('}' :: '}' :: tail)
  rw [List.append_assoc early] at h hexpression ⊢
  rw [← hsource] at hearly hlate
  rw [hearly, hlate] at hexpression ⊢
  have hoffset : byteLength (start ++ ['{', '{']) = byteLength start + 2 := byteLength_append start _
  rw [hoffset] at hexpression
  have hrev := Revision.replaces_cut start ('{' :: '{' :: early) word word' (late ++ ['}', '}']) tail
  have hshape : ∀ word : List Char, start ++ ('{' :: '{' :: early ++ (word ++ (late ++ ['}', '}'])) ++ tail) =
      start ++ ['{', '{'] ++ early ++ (word ++ (late ++ '}' :: '}' :: tail)) := fun word => by simp
  rw [hshape, hshape, ← hsource, ← hedited, show start ++ '{' :: '{' :: early = start ++ ['{', '{'] ++ early by simp] at hrev
  have hbracket : ']' ∈ early ++ (word' ++ late) → ']' ∈ early ++ (word ++ late) := mem_bracket_exchange hword
  have hclosed : occurs ['}', '}'] (early ++ (word' ++ late) ++ ['}']) = false := by
    have hclosed := h.closed
    rw [List.append_assoc, List.append_assoc] at hclosed ⊢
    exact Bool.eq_false_iff.2 fun hoccurs => Bool.eq_false_iff.1 hclosed (occurs_braces_exchange hword hsome' hoccurs)
  have hreread : edited = start ++ '{' :: '{' :: (early ++ (word' ++ late) ++ '}' :: '}' :: tail) := by
    rw [hedited]
    simp
  refine ⟨?_, h.interpolation?_reread hbracket rfl hclosed hreread⟩
  have hpasses := h.passes
  have htext : ∀ word : List Char, '{' :: '{' :: (early ++ (word ++ late) ++ ['}', '}']) =
      '{' :: '{' :: early ++ (word ++ (late ++ ['}', '}'])) := fun word => by simp
  rw [htext] at hpasses
  generalize hcut : Revision.cut source edited _ _ _ = rev at hrev ⊢
  obtain ⟨rfl, rfl⟩ : rev.source = source ∧ rev.edited = edited := by rw [← hcut]; exact ⟨rfl, rfl⟩
  refine hpasses.keeps hrev ?_ (fun name _ hcloses => by cases hcloses) fun builder' hbefore' hlock => ?_
  · rw [← htext, ← htext, interpolation_append, interpolation_append]
    exact .of_interpolation hbracket
  · have hbuilder' := hbefore'.standing (start_standing _)
    have hover' := @walks_interpolation language (byteLength rev.edited) builder' _
      (hlock.surroundings language ▸ h.interpolates) hclosed
      (byteLength start) tail
    rw [htext] at hover'
    refine ⟨_, hover', hlock.addInterpolation hpasses.shaped hbuilder'.shaped ((hlock.size 0).trans h.size) _ ?_⟩
    rw [Piece.problems, interpolationOf, Option.isNone_eq_false_iff.2 hexpression]
    rfl

end Builder

end ComponentLint.Markup
