import ComponentLint.Proofs.Markup.ClosingMarks

/-!
# Gaps before closing marks

What stands between the last token of a start tag and its closing mark says nothing: with other blanks in its place the tag is
read as before (`readStartTag_gapsAt`), unless the mark comes to stand right behind something that takes its slash.
-/

namespace ComponentLint.Markup

open Text

/-! ## The last attribute -/

section Attributes

variable {around : Surroundings}

theorem Listed.concat {stream last : Stream} {reads : List ReadAttribute} {read : ReadAttribute}
    (h : Listed around stream (reads ++ [read]) last) :
    ∃ middle here gap, Listed around stream reads middle ∧ middle.Reads gap here ∧ (∀ c ∈ gap, TagGap c) ∧
      StartsAttribute here.chars ∧ readAttribute around here = (read, last) := by
  induction reads generalizing stream with
  | nil =>
    cases h with
    | cons hgap hgaps hstart hread h =>
      rw [h.eq_of_nil]
      exact ⟨_, _, _, .none _, hgap, hgaps, hstart, hread⟩
  | cons first reads ih =>
    cases h with
    | cons hgap hgaps hstart hread h =>
      obtain ⟨middle, here, gap, hlisted, hrest⟩ := ih h
      exact ⟨middle, here, gap, .cons hgap hgaps hstart hread hlisted, hrest⟩

theorem Listed.snoc {stream middle here last : Stream} {gap : List Char} {reads : List ReadAttribute} {read : ReadAttribute}
    (h : Listed around stream reads middle) (hgap : middle.Reads gap here) (hgaps : ∀ c ∈ gap, TagGap c)
    (hstart : StartsAttribute here.chars) (hread : readAttribute around here = (read, last)) :
    Listed around stream (reads ++ [read]) last := by
  induction h with
  | none => exact .cons hgap hgaps hstart hread (.none _)
  | cons hgap' hgaps' hstart' hread' _ ih => exact .cons hgap' hgaps' hstart' hread' (ih hgap)

/-- An attribute with an empty value: its name, and an equals sign between blanks. -/
def emptyAttribute (around : Surroundings) (offset : Nat) (name blanks more : List Char) : ReadAttribute :=
  let key := Key.parse name offset around.topLevel
  let stop := offset + byteLength name + byteLength blanks + 1 + byteLength more
  ⟨⟨⟨offset, stop⟩, key, some (readValue.value around.language key ⟨stop, stop⟩ ⟨stop, stop⟩ [] none)⟩,
    some (offset + byteLength name + byteLength blanks), false⟩

/-- How an attribute ends that something follows: with its last token, or behind an equals sign with blanks that the closing mark
follows. -/
inductive AttributeEnds (around : Surroundings) (offset : Nat) (read : ReadAttribute) : List Char → List Char → Prop where
  | token {taken rest : List Char} {tokens : List Token} {token : Token} (htokens : read.tokens = tokens ++ [token])
      (hstop : token.span.stop = offset + byteLength taken) (hkind : token.kind ≠ .whitespace)
      (hraw : ∀ value, read.attr.value = some value → value.quote = none → value.raw ≠ "") :
      AttributeEnds around offset read taken rest
  | empty {name blanks more rest : List Char} (hname : wholeName (name ++ (blanks ++ '=' :: (more ++ '>' :: rest))) =
        (name, blanks ++ '=' :: (more ++ '>' :: rest))) (hblanks : ∀ c ∈ blanks, isAsciiSpace c = true)
      (hmore : ∀ c ∈ more, isAsciiSpace c = true) (hread : read = emptyAttribute around offset name blanks more) :
      AttributeEnds around offset read (name ++ (blanks ++ '=' :: more)) ('>' :: rest)

theorem readAttribute_empty {name blanks more rest : List Char} (offset : Nat)
    (hname : wholeName (name ++ (blanks ++ '=' :: (more ++ '>' :: rest))) = (name, blanks ++ '=' :: (more ++ '>' :: rest)))
    (hblanks : ∀ c ∈ blanks, isAsciiSpace c = true) (hmore : ∀ c ∈ more, isAsciiSpace c = true) :
    readAttribute around ⟨offset, name ++ (blanks ++ '=' :: (more ++ '>' :: rest))⟩ =
      (emptyAttribute around offset name blanks more,
        ⟨offset + byteLength name + byteLength blanks + 1 + byteLength more, '>' :: rest⟩) := by
  have hvalue := @readValue_bare around.language (Key.parse name offset around.topLevel) [] ('>' :: rest)
    (offset + byteLength name + byteLength blanks + 1 + byteLength more) (by simp) (by simp) (by simp)
  exact readAttribute_valued around offset hname hblanks hmore (by simp [isAsciiSpace]) hvalue

theorem spanning_of_lt (kind : TokenKind) {start stop : Nat} (h : start < stop) :
    Token.spanning kind start stop = [⟨kind, ⟨start, stop⟩⟩] :=
  if_pos h

theorem attributeEnds {offset stop : Nat} {taken rest : List Char} {read : ReadAttribute}
    (hstart : StartsAttribute (taken ++ rest)) (hne : rest ≠ [])
    (hread : readAttribute around ⟨offset, taken ++ rest⟩ = (read, ⟨stop, rest⟩)) :
    AttributeEnds around offset read taken rest := by
  have hstop : stop = offset + byteLength taken := by
    obtain ⟨taken', -, htaken⟩ := readAttribute_reads hstart hread
    obtain rfl : taken' = taken := (List.append_cancel_right htaken.chars).symm
    exact htaken.offset
  obtain ⟨-, hspan, -⟩ := readAttribute_lays around (show (⟨offset, taken ++ rest⟩ : Stream).chars ≠ [] from hstart.ne_nil)
  rw [hread] at hspan
  have htext := attributeText hstart.ne_nil
  generalize hchars : taken ++ rest = chars at hstart hread htext
  cases htext with
  | plain hname hequals =>
    rename_i name after
    rw [readAttribute_plain around offset hname hequals] at hread
    obtain ⟨rfl, hrest⟩ := Prod.mk.inj hread
    obtain ⟨-, rfl⟩ := Stream.mk.inj hrest
    obtain rfl : taken = name := List.append_cancel_right hchars
    have hnonempty := (wholeName_append hstart.ne_nil).2
    rw [hname] at hnonempty
    have hpos := (byteLength_pos_iff taken).2 hnonempty
    have htokens := spanning_of_lt .attributeName (show offset < offset + byteLength taken by omega)
    refine .token (show _ = [] ++ [(⟨.attributeName, ⟨offset, offset + byteLength taken⟩⟩ : Token)] from ?_) rfl
      (by rintro ⟨⟩) (by rintro _ ⟨⟩)
    simpa [ReadAttribute.tokens, Key.span_parse] using htokens
  | valued hname hblanks hmore hafter =>
    rename_i name blanks more after
    obtain ⟨value, unclosed, last, hvalue⟩ : ∃ value unclosed last,
      readValue around.language (Key.parse name offset around.topLevel)
        ⟨offset + byteLength name + byteLength blanks + 1 + byteLength more, after⟩ = (value, unclosed, last) := ⟨_, _, _, rfl⟩
    rw [readAttribute_valued around offset hname hblanks hmore hafter hvalue] at hread
    obtain ⟨rfl, rfl⟩ := Prod.mk.inj hread
    -- A value that is not empty is the last token.
    have htoken : value.span.start < value.span.stop → (value.quote = none → value.raw ≠ "") →
        AttributeEnds around offset ⟨⟨⟨offset, value.span.stop⟩, Key.parse name offset around.topLevel, some value⟩,
          some (offset + byteLength name + byteLength blanks), unclosed⟩ taken rest := by
      intro hlt hraw
      refine .token (congrArg (_ ++ ·) (spanning_of_lt .attributeValue hlt)) ?_ (by rintro ⟨⟩) fun found hfound => ?_
      · exact (congrArg Span.stop hspan).trans hstop
      · obtain rfl : value = found := Option.some.inj hfound
        exact hraw
    cases valueText after with
    | quoted hmark hinner =>
      rw [readValue_between _ _ _ _ hmark hinner] at hvalue
      obtain ⟨rfl, -⟩ := Prod.mk.inj hvalue
      exact htoken (by dsimp only [readValue.value]; omega) (by rintro ⟨⟩)
    | unclosed hmark hinner =>
      have hnil := readValue_unclosed around.language (Key.parse name offset around.topLevel)
        (offset + byteLength name + byteLength blanks + 1 + byteLength more) hmark hinner
      rw [hvalue] at hnil
      exact absurd hnil hne
    | bare hfirst hinner hstops =>
      rename_i inner after
      rw [readValue_bare _ _ _ hfirst hinner hstops] at hvalue
      simp only [Prod.mk.injEq, Stream.mk.injEq] at hvalue
      obtain ⟨rfl, rfl, rfl, rfl⟩ := hvalue
      by_cases hempty : inner = []
      · subst hempty
        obtain ⟨c, tail, rfl⟩ := List.exists_cons_of_ne_nil hne
        obtain rfl : c = '>' := by
          refine (hstops c rfl).resolve_left fun hblank => ?_
          rw [hafter c rfl] at hblank
          cases hblank
        obtain rfl : taken = name ++ (blanks ++ '=' :: more) := by
          refine List.append_cancel_right (hchars.trans ?_)
          simp
        exact .empty hname hblanks hmore rfl
      · have hpos := (byteLength_pos_iff inner).2 hempty
        refine htoken (by dsimp only [readValue.value]; omega) fun _ hraw => hempty ?_
        simpa [readValue.value] using hraw

/-! ## What tags say -/

/-- What the value of an attribute says, wherever it stands. -/
def AttributeValue.saying (value : AttributeValue) : String × Option Char × Option DirectiveValue :=
  (value.raw, value.quote, value.meaning)

/-- What an attribute says: its key, and its value. -/
def Attribute.saying (attr : Attribute) : Key × Option (String × Option Char × Option DirectiveValue) :=
  (attr.key, attr.value.map AttributeValue.saying)

/-- What an attribute says, and whether its value is closed. -/
def ReadAttribute.saying (read : ReadAttribute) :
    (Key × Option (String × Option Char × Option DirectiveValue)) × Bool :=
  (read.attr.saying, read.unclosed)

/-- Start tags at one place that say the same. -/
structure ReadTag.SaysSame (tag tag' : ReadTag) : Prop where
  rawName : tag'.rawName = tag.rawName
  start : tag'.start = tag.start
  attributes : tag'.attributes.map ReadAttribute.saying = tag.attributes.map ReadAttribute.saying
  ending : tag'.ending = tag.ending

theorem emptyAttribute_saying (around : Surroundings) (offset : Nat) (name blanks more more' : List Char) :
    (emptyAttribute around offset name blanks more').saying = (emptyAttribute around offset name blanks more).saying := by
  have hmeaning : ∀ (name : String) (start : Nat), Fragment.directiveValue around.language name start [] = none :=
    fun _ _ => rfl
  simp only [emptyAttribute, ReadAttribute.saying, Attribute.saying, AttributeValue.saying,
    readValue.value, hmeaning, Option.map_some]

/-! ## Other blanks before the closing mark -/

variable {gap gap' rest rest' : List Char} {ending : TagEnd}

theorem blank_gaps (hblank : ∀ c ∈ gap', isAsciiSpace c = true) : ∀ c ∈ gap', TagGap c :=
  fun c hc => Or.inl (hblank c hc)

theorem endsTagName_blank (hblank : ∀ c ∈ gap', isAsciiSpace c = true) (hended : ending ≠ .missing) (rest' : List Char) :
    endsTagName (gap' ++ (ending.mark ++ rest')) = true := by
  cases gap' with
  | nil => exact endsTagName_mark hended rest'
  | cons c gap' => simp [endsTagName, hblank c List.mem_cons_self]

/-- Behind something that ends in a slash a closing mark does not follow at once, unless it has its own slash. -/
theorem head?_ne_close (hblank : ∀ c ∈ gap', isAsciiSpace c = true) (hsome : gap' = [] → ending ≠ .plain) (rest' : List Char)
    (hended : ending ≠ .missing) : (gap' ++ (ending.mark ++ rest')).head? ≠ some '>' := by
  cases gap' with
  | nil =>
    cases ending with
    | plain => exact absurd rfl (hsome rfl)
    | selfClosing => simp [TagEnd.mark]
    | missing => exact absurd rfl hended
  | cons c gap' =>
    intro hc
    obtain rfl : c = '>' := Option.some.inj hc
    cases hblank '>' List.mem_cons_self

/-- What says something else than an empty value may be followed by blanks and the closing mark. -/
theorem Attribute.EndsBefore.of_blank {attr : Attribute} {taken : List Char} (hblank : ∀ c ∈ gap', isAsciiSpace c = true)
    (hended : ending ≠ .missing) (hraw : ∀ value, attr.value = some value → value.quote = none → value.raw ≠ "")
    (hplain : gap' = [] → ending = .plain → attr.value = none → taken.getLast? ≠ some '/')
    (hself : gap' = [] → ending = .selfClosing → ∀ value, attr.value = some value → value.quote ≠ none) (rest' : List Char) :
    attr.EndsBefore taken (gap' ++ (ending.mark ++ rest')) := by
  unfold EndsBefore
  split
  · rename_i hvalue
    refine ⟨Or.inr ?_, fun hlast => ?_, head?_mark_ne_equals hended (blank_gaps hblank) rest'⟩
    · rw [endsAttributeName, endsTagName_blank hblank hended, Bool.true_or]
    · exact head?_ne_close hblank (fun hnil hmark => hplain hnil hmark hvalue hlast) rest' hended
  · rename_i value hvalue
    intro hquote c hc
    cases gap' with
    | nil =>
      cases ending with
      | plain => exact Or.inl (Option.some.inj hc).symm
      | selfClosing => exact absurd hquote (hself rfl rfl value hvalue)
      | missing => exact absurd rfl hended
    | cons d gap' =>
      obtain rfl : d = c := Option.some.inj hc
      exact Or.inr ⟨hraw value hvalue hquote, hblank d List.mem_cons_self⟩

/-- Whether the closing mark can stand right behind the last token: its slash is not taken by a value without quotes, and it does
not get a slash that ends a name. -/
def ReadTag.Detached (tag : ReadTag) (before : List Char) : Prop :=
  match tag.ending with
  | .plain => (∀ read ∈ tag.attributes.getLast?, read.attr.value = none) → before.getLast? ≠ some '/'
  | _ => ∀ read ∈ tag.attributes.getLast?, ∀ value ∈ read.attr.value, value.quote ≠ none

/-- A start tag in two parts: `before`, which ends with its last token, and the gap between that and the closing mark. The gap can
be exchanged for blanks. -/
structure ReadTag.GapsAt (around : Surroundings) (tag : ReadTag) (before gap rest : List Char) : Prop where
  gaps : ∀ c ∈ gap, TagGap c
  name : tag.rawName <+: before
  token : ∃ tokens token, (Piece.startTag tag).tokens = tokens ++ token :: tag.ending.tokens tag.stop ∧
    token.span.stop = tag.start + 1 + byteLength before ∧ token.kind ≠ .whitespace
  regap : ∀ gap' rest', (∀ c ∈ gap', isAsciiSpace c = true) → (gap' = [] → tag.Detached before) → (']' ∈ rest' → ']' ∈ rest) →
    ∃ tag', readStartTag around ⟨tag.start, '<' :: (before ++ (gap' ++ (tag.ending.mark ++ rest')))⟩ =
      (tag', ⟨tag.start + 1 + byteLength before + byteLength gap' + byteLength tag.ending.mark, rest'⟩) ∧ tag.SaysSame tag'

/-- Blanks may stand in the gap behind everything but an empty value. -/
theorem readStartTag_blank {offset last : Nat} {name front : List Char} {reads : List ReadAttribute} {stop : Nat}
    (hname : tagName (name ++ (front ++ (gap ++ (ending.mark ++ rest)))) = (name, front ++ (gap ++ (ending.mark ++ rest))))
    (hlisted : Listed around ⟨offset + 1 + byteLength name, front ++ (gap ++ (ending.mark ++ rest))⟩ reads
      ⟨last, gap ++ (ending.mark ++ rest)⟩) (hended : ending ≠ .missing) (hblank : ∀ c ∈ gap', isAsciiSpace c = true)
    (hraw : ∀ read ∈ reads.getLast?, ∀ value, read.attr.value = some value → value.quote = none → value.raw ≠ "")
    (hdetached : gap' = [] → ReadTag.Detached ⟨name, offset, reads, ending, stop⟩ (name ++ front))
    (hbracket : ']' ∈ rest' → ']' ∈ rest) :
    readStartTag around ⟨offset, '<' :: (name ++ (front ++ (gap' ++ (ending.mark ++ rest'))))⟩ =
      (⟨name, offset, reads, ending, last + byteLength (gap' ++ ending.mark)⟩,
        ⟨last + byteLength (gap' ++ ending.mark), rest'⟩) := by
  have hmarked : gap ++ (ending.mark ++ rest) ≠ [] := by simp [TagEnd.mark_ne_nil hended]
  have hlast : ending = .plain → gap'.getLast? ≠ some '/' := by
    intro _ hslash
    cases hblank '/' (List.mem_of_getLast? hslash)
  have hslash : ∀ taken, taken <:+ name ++ front → gap' = [] → ending = .plain →
      (∀ read ∈ reads.getLast?, read.attr.value = none) → taken.getLast? ≠ some '/' := by
    rintro taken ⟨early, hearly⟩ hnil rfl hvalues htaken
    refine hdetached hnil hvalues ?_
    rw [← hearly, List.getLast?_append, htaken]
    rfl
  refine readStartTag_retail hname hlisted hmarked (TagTail.of_parts (blank_gaps hblank) hended hlast) (fun hnone => ⟨?_, ?_⟩)
    (fun read hread taken htaken _ => ?_) fun hmem => ?_
  · exact endsTagName_blank hblank hended rest'
  · intro hnameSlash
    rw [hnone] at hlisted
    obtain rfl : front = [] := List.append_left_eq_self.1 (congrArg Stream.chars hlisted.eq_of_nil).symm
    exact head?_ne_close hblank
      (fun hnil hplain => hslash name (by simp) hnil hplain (by simp [hnone]) hnameSlash) rest' hended
  · refine .of_blank hblank hended (hraw read hread) (fun hnil hplain hvalue => ?_) (fun hnil hself value hvalue => ?_) rest'
    · refine hslash taken (htaken.trans (List.suffix_append name front)) hnil hplain fun other hother => ?_
      obtain rfl : read = other := Option.some.inj (hread.symm.trans hother)
      exact hvalue
    · have hfree := hdetached hnil
      rw [hself] at hfree
      exact hfree read hread value hvalue
  · simp only [List.mem_append] at hmem ⊢
    rcases hmem with hmem | hmem | hmem
    · cases hblank ']' hmem
    · exact Or.inr (Or.inl hmem)
    · exact Or.inr (Or.inr (hbracket hmem))

/-- Blanks may stand behind the equals sign of an empty value. -/
theorem readStartTag_empty {offset middle : Nat} {name front between key blanks more : List Char} {reads : List ReadAttribute}
    (hname : tagName (name ++ (front ++ (between ++ (key ++ (blanks ++ '=' :: (more ++ '>' :: rest)))))) =
      (name, front ++ (between ++ (key ++ (blanks ++ '=' :: (more ++ '>' :: rest))))))
    (hlisted : Listed around ⟨offset + 1 + byteLength name,
      front ++ (between ++ (key ++ (blanks ++ '=' :: (more ++ '>' :: rest))))⟩
      reads ⟨middle, between ++ (key ++ (blanks ++ '=' :: (more ++ '>' :: rest)))⟩)
    (hbetweens : ∀ c ∈ between, TagGap c) (hstart : StartsAttribute (key ++ (blanks ++ '=' :: (more ++ '>' :: rest))))
    (hkey : wholeName (key ++ (blanks ++ '=' :: (more ++ '>' :: rest))) = (key, blanks ++ '=' :: (more ++ '>' :: rest)))
    (hblanks : ∀ c ∈ blanks, isAsciiSpace c = true) (hblank : ∀ c ∈ gap', isAsciiSpace c = true)
    (hbracket : ']' ∈ rest' → ']' ∈ rest) :
    ∃ stop, readStartTag around
      ⟨offset, '<' :: (name ++ (front ++ (between ++ (key ++ (blanks ++ '=' :: (gap' ++ '>' :: rest'))))))⟩ =
        (⟨name, offset, reads ++ [emptyAttribute around (middle + byteLength between) key blanks gap'], .plain, stop⟩,
          ⟨stop, rest'⟩) ∧
      stop = middle + byteLength between + byteLength key + byteLength blanks + 1 + byteLength gap' + 1 := by
  have hbehind : ∀ front : List Char, ']' ∈ front ++ (gap' ++ '>' :: rest') → ']' ∈ front ++ (more ++ '>' :: rest) := by
    intro front hmem
    simp only [List.mem_append, List.mem_cons] at hmem ⊢
    rcases hmem with hmem | hmem | hmem | hmem
    · exact Or.inl hmem
    · cases hblank ']' hmem
    · cases hmem
    · exact Or.inr (Or.inr (Or.inr (hbracket hmem)))
  -- Up to the equals sign both texts are the same, and the sign is no gap.
  have hsplit : ∀ before after : List Char, before ++ (between ++ (key ++ (blanks ++ '=' :: after))) =
      (before ++ (between ++ (key ++ (blanks ++ ['='])))) ++ after := by simp
  have hanchor : ∀ before : List Char, ∃ c ∈ before ++ (between ++ (key ++ (blanks ++ ['=']))), ¬TagGap c :=
    fun _ => ⟨'=', by simp, by rintro (h | h) <;> cases h⟩
  have hlisted' : Listed around
    ⟨offset + 1 + byteLength name, front ++ (between ++ (key ++ (blanks ++ '=' :: (gap' ++ '>' :: rest'))))⟩
      reads ⟨middle, between ++ (key ++ (blanks ++ '=' :: (gap' ++ '>' :: rest')))⟩ := by
    refine hlisted.swap rfl rfl (by simp) (fun read _ taken _ hbefore => ?_) fun hmem => ?_
    · have hsplit' := hsplit []
      simp only [List.nil_append] at hsplit'
      rw [hsplit'] at hbefore ⊢
      exact hbefore.front (hanchor []) _
    · have hmore := hbehind (between ++ (key ++ (blanks ++ ['=']))) (by simpa using hmem)
      simpa using hmore
  have hname' : tagName (name ++ (front ++ (between ++ (key ++ (blanks ++ '=' :: (gap' ++ '>' :: rest')))))) =
      (name, front ++ (between ++ (key ++ (blanks ++ '=' :: (gap' ++ '>' :: rest'))))) := by
    have hends := tagName_ends (name ++ (front ++ (between ++ (key ++ (blanks ++ '=' :: (more ++ '>' :: rest))))))
    have hslash := tagName_slash (name ++ (front ++ (between ++ (key ++ (blanks ++ '=' :: (more ++ '>' :: rest))))))
    rw [hname] at hends hslash
    refine tagName_swap hname ?_ fun hlast => ?_
    · rw [hsplit, ← endsTagName_front (hanchor front) (more ++ '>' :: rest), ← hsplit]
      exact hends
    · rw [hsplit, ← head?_front (hanchor front) (more ++ '>' :: rest), ← hsplit]
      exact hslash hlast
  have hkeyEnds : endsAttributeName (blanks ++ '=' :: (gap' ++ '>' :: rest')) = true ∧
      (blanks ++ '=' :: (gap' ++ '>' :: rest')).head? ≠ some '>' := by
    cases blanks with
    | nil => exact ⟨by simp [endsAttributeName], by simp⟩
    | cons c blanks =>
      have hc := hblanks c List.mem_cons_self
      refine ⟨by simp [endsAttributeName, endsTagName, hc], ?_⟩
      rintro heq
      obtain rfl : c = '>' := Option.some.inj heq
      cases hc
  have hkey' := wholeName_swap hstart hkey (Or.inr hkeyEnds.1) (fun _ => hkeyEnds.2) fun hmem => by
    have hmore := hbehind (blanks ++ ['=']) (by simpa using hmem)
    simpa using hmore
  have hstart' : StartsAttribute (key ++ (blanks ++ '=' :: (gap' ++ '>' :: rest'))) := by
    obtain ⟨c, key, rfl⟩ := List.exists_cons_of_ne_nil (show key ≠ [] by
      have hnonempty := (wholeName_append hstart.ne_nil).2
      rwa [hkey] at hnonempty)
    exact hstart
  have hattr := @readAttribute_empty around _ _ _ _ (middle + byteLength between) hkey' hblanks hblank
  refine ⟨_, readStartTag_of_listed hname' (hlisted'.snoc ⟨rfl, rfl⟩ hbetweens hstart' hattr)
    (@TagTail.of_parts _ [] rest' .plain (by simp) (by decide) (by simp)), rfl⟩

theorem readStartTag_gapsAt {around : Surroundings} {offset : Nat} {chars : List Char} {tag : ReadTag} {rest : Stream}
    (hread : readStartTag around ⟨offset, '<' :: chars⟩ = (tag, rest)) (hended : tag.ending ≠ .missing) :
    ∃ before gap, chars = before ++ (gap ++ (tag.ending.mark ++ rest.chars)) ∧ tag.start = offset ∧
      tag.GapsAt around before gap rest.chars := by
  obtain ⟨front, gap, hchars, hname, hlisted, hgaps, -, rfl, -⟩ := readStartTag_parts hread hended
  rw [hchars] at hname
  -- The tail of the tag is the gap, unless the last value is empty.
  have hplain : ∀ tokens token, (Piece.startTag tag).tokens = tokens ++ token :: tag.ending.tokens tag.stop →
      token.span.stop = tag.start + 1 + byteLength tag.rawName + byteLength front → token.kind ≠ .whitespace →
      (∀ read ∈ tag.attributes.getLast?, ∀ value, read.attr.value = some value → value.quote = none → value.raw ≠ "") →
      ∃ before gap, chars = before ++ (gap ++ (tag.ending.mark ++ rest.chars)) ∧ tag.start = tag.start ∧
        tag.GapsAt around before gap rest.chars := by
    intro tokens token htokens hstop hkind hraw
    refine ⟨tag.rawName ++ front, gap, by rw [hchars, List.append_assoc], rfl, hgaps, List.prefix_append _ _,
      ⟨tokens, token, htokens, by rw [hstop, byteLength_append, Nat.add_assoc], hkind⟩,
        fun gap' rest' hblank hdetached hbracket => ?_⟩
    have hresult := @readStartTag_blank around _ gap' _ rest' _ _ _ _ _ _ tag.stop hname hlisted hended
      hblank hraw hdetached hbracket
    have hstop' : tag.start + 1 + byteLength tag.rawName + byteLength front + byteLength (gap' ++ tag.ending.mark) =
        tag.start + 1 + byteLength (tag.rawName ++ front) + byteLength gap' + byteLength tag.ending.mark := by
      simp only [byteLength_append]
      omega
    rw [List.append_assoc, hresult, hstop']
    exact ⟨_, rfl, ⟨rfl, rfl, rfl, rfl⟩⟩
  rcases List.eq_nil_or_concat tag.attributes with hnone | ⟨reads, read, hreads⟩
  · have htokens : (Piece.startTag tag).tokens = [] ++ ⟨.tagOpen, ⟨tag.start, tag.start + 1 + byteLength tag.rawName⟩⟩ ::
        tag.ending.tokens tag.stop := by
      simp [Piece.tokens, hnone, spanning_of_lt .tagOpen (show tag.start < tag.start + 1 + byteLength tag.rawName by omega)]
    rw [hnone] at hlisted
    obtain rfl : front = [] := List.append_left_eq_self.1 (congrArg Stream.chars hlisted.eq_of_nil).symm
    exact hplain _ _ htokens rfl (by rintro ⟨⟩) (by simp [hnone])
  · have hlast : tag.attributes.getLast? = some read := by rw [hreads, List.concat_eq_append, List.getLast?_concat]
    rw [hreads, List.concat_eq_append] at hlisted
    obtain ⟨⟨middle, middleChars⟩, ⟨here, hereChars⟩, between, hlisted', hbetween, hbetweens, hstart, hattr⟩ := hlisted.concat
    obtain ⟨taken, -, htaken⟩ := readAttribute_reads hstart hattr
    obtain rfl : hereChars = taken ++ (gap ++ (tag.ending.mark ++ rest.chars)) := htaken.chars
    have hmarked : gap ++ (tag.ending.mark ++ rest.chars) ≠ [] := by simp [TagEnd.mark_ne_nil hended]
    have hends := attributeEnds hstart hmarked hattr
    generalize htail : gap ++ (tag.ending.mark ++ rest.chars) = tail at hends
    cases hends with
    | token htokens hstop hkind hraw =>
      rename_i tokens token
      refine hplain (Token.spanning .tagOpen tag.start (tag.start + 1 + byteLength tag.rawName) ++
        reads.flatMap (·.tokens) ++ tokens)
        token ?_ ?_ hkind fun other hother => ?_
      · simp [Piece.tokens, hreads, htokens]
      · exact hstop.trans (htaken.offset.symm)
      · obtain rfl : read = other := Option.some.inj (hlast.symm.trans hother)
        exact hraw
    | empty hempty hblanks hmore hvalue =>
      rename_i name blanks more after
      obtain ⟨hending, rfl, rfl⟩ : tag.ending = .plain ∧ gap = [] ∧ after = rest.chars := by
        cases gap with
        | nil => cases hmark : tag.ending <;> simp_all [TagEnd.mark]
        | cons c gap =>
          obtain rfl : c = '>' := (List.cons.inj htail).1
          rcases hgaps '>' List.mem_cons_self with h | h <;> cases h
      obtain ⟨early, hearly⟩ := hlisted'.reads
      obtain rfl : middleChars = between ++ (name ++ (blanks ++ '=' :: (more ++ '>' :: rest.chars))) := by
        refine hbetween.chars.trans ?_
        simp [hending, TagEnd.mark]
      have hfront : front ++ '>' :: rest.chars = early ++
          (between ++ (name ++ (blanks ++ '=' :: (more ++ '>' :: rest.chars)))) := by
        refine Eq.trans ?_ hearly.chars
        rw [hending]
        rfl
      have hmiddle : middle = tag.start + 1 + byteLength tag.rawName + byteLength early := hearly.offset
      have hhere : here = middle + byteLength between := hbetween.offset
      replace hstart : StartsAttribute (name ++ (blanks ++ '=' :: (more ++ '>' :: rest.chars))) := by
        simpa [hending, TagEnd.mark] using hstart
      have hmark : ([] : List Char) ++ (tag.ending.mark ++ rest.chars) = '>' :: rest.chars := by rw [hending]; rfl
      rw [hmark, hfront] at hname hlisted'
      refine ⟨tag.rawName ++ (early ++ (between ++ (name ++ (blanks ++ ['='])))), more, ?_, rfl, fun c hc => Or.inl (hmore c hc),
        List.prefix_append _ _, ?_, fun gap' rest' hblank _ hbracket => ?_⟩
      · rw [hchars, hmark, hfront, hending]
        simp [TagEnd.mark]
      · refine ⟨Token.spanning .tagOpen tag.start (tag.start + 1 + byteLength tag.rawName) ++ reads.flatMap (·.tokens) ++
          Token.spanning .attributeName here (here + byteLength name),
          ⟨.attributeEquals, ⟨here + byteLength name + byteLength blanks,
            here + byteLength name + byteLength blanks + 1⟩⟩, ?_, ?_,
          by rintro ⟨⟩⟩
        · simp [Piece.tokens, hreads, hvalue, emptyAttribute, ReadAttribute.tokens, Key.span_parse,
            readValue.value, Token.spanning]
        · simp only [byteLength_append, byteLength_cons, byteLength_nil, show '='.utf8Size = 1 from rfl]
          omega
      · obtain ⟨stop, hresult, hstop⟩ := readStartTag_empty hname hlisted' hbetweens hstart hempty hblanks hblank hbracket
        have hstop' : stop = tag.start + 1 + byteLength (tag.rawName ++ (early ++ (between ++ (name ++ (blanks ++ ['=']))))) +
            byteLength gap' + byteLength tag.ending.mark := by
          rw [hending]
          simp only [byteLength_append, byteLength_cons, byteLength_nil, TagEnd.mark, show '='.utf8Size = 1 from rfl,
            show '>'.utf8Size = 1 from rfl]
          omega
        have hchars' : tag.rawName ++ (early ++ (between ++ (name ++ (blanks ++ ['='])))) ++
          (gap' ++ (tag.ending.mark ++ rest')) =
            tag.rawName ++ (early ++ (between ++ (name ++ (blanks ++ '=' :: (gap' ++ '>' :: rest'))))) := by
          simp [hending, TagEnd.mark]
        rw [hchars', hresult, ← hstop', ← hhere]
        refine ⟨_, rfl, ⟨rfl, rfl, ?_, hending.symm⟩⟩
        rw [hreads, hvalue]
        simp [emptyAttribute_saying around here name blanks more gap']

end Attributes

end ComponentLint.Markup
