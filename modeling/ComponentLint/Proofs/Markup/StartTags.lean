import ComponentLint.Proofs.Markup.Pieces

/-!
# How start tags are laid out

The readers of a start tag, described by the text they take. Each reader has two lemmas: what text it can meet (`_split`), and
what it makes of such a text whatever comes after it, as long as that ends the reader's part. On top of these a start tag is
its name, the attributes that are `Listed` one after the other, and a `TagTail` with the closing mark.
-/

namespace ComponentLint

open Text

namespace Stream

theorem Before.of_le {text : List Char} {s t : Stream} (hs : Before ⟨0, text⟩ s) (ht : Before ⟨0, text⟩ t)
    (hle : s.offset ≤ t.offset) : s.Before t := by
  obtain ⟨first, hfirst⟩ := hs
  obtain ⟨second, hsecond⟩ := ht
  have hfirstOffset : s.offset = byteLength first := by simpa using hfirst.offset
  have hsecondOffset : t.offset = byteLength second := by simpa using hsecond.offset
  rcases List.append_eq_append_iff.1 (hfirst.chars.symm.trans hsecond.chars) with ⟨more, rfl, hmore⟩ | ⟨more, rfl, hmore⟩
  · refine ⟨more, hmore, ?_⟩
    rw [hsecondOffset, byteLength_append, hfirstOffset]
  · rw [hfirstOffset, hsecondOffset, byteLength_append] at hle
    obtain rfl : more = [] := (byteLength_eq_zero_iff more).1 (by omega)
    refine ⟨[], hmore.symm, ?_⟩
    rw [hfirstOffset, hsecondOffset, List.append_nil, byteLength_nil, Nat.add_zero]

/-- What is left after some characters is determined by them. -/
theorem Reads.unique {stream rest other : Stream} {taken : List Char} (h : stream.Reads taken rest)
    (h' : stream.Reads taken other) : rest = other := by
  have hchars : rest.chars = other.chars := List.append_cancel_left (h.chars.symm.trans h'.chars)
  have hoffset : rest.offset = other.offset := h.offset.trans h'.offset.symm
  cases rest
  cases other
  simp_all

/-- Characters that pass a test are read up to where none follows. -/
theorem span_exact {test : Char → Bool} {taken rest : List Char} (offset : Nat) (h : ∀ c ∈ taken, test c = true)
    (hrest : ∀ c ∈ rest.head?, test c = false) :
    Stream.span test ⟨offset, taken ++ rest⟩ = (taken, ⟨offset + byteLength taken, rest⟩) := by
  cases rest with
  | cons d rest => exact spanFrom_append rest offset h (hrest d rfl)
  | nil =>
    rw [List.append_nil]
    have hfrom : ∀ start, spanFrom test start taken = (taken, ⟨start + byteLength taken, []⟩) := by
      induction taken with
      | nil => exact fun _ => rfl
      | cons c taken ih =>
        intro start
        obtain ⟨hc, htaken⟩ := List.forall_mem_cons.1 h
        rw [spanFrom, if_pos hc, ih htaken, byteLength_cons, Nat.add_assoc]
    exact hfrom offset

end Stream

namespace Markup

/-- The blanks at the front of a text, and what follows them. -/
theorem exists_blanks (chars : List Char) : ∃ blanks rest, chars = blanks ++ rest ∧ (∀ c ∈ blanks, isAsciiSpace c = true) ∧
    ∀ c ∈ rest.head?, isAsciiSpace c = false := by
  refine ⟨chars.takeWhile isAsciiSpace, chars.dropWhile isAsciiSpace, List.takeWhile_append_dropWhile.symm, ?_, ?_⟩
  · exact fun c hc => List.all_eq_true.1 List.all_takeWhile c hc
  · intro c hc
    have hhead := List.head?_dropWhile_not (p := isAsciiSpace) (l := chars)
    rw [show (chars.dropWhile isAsciiSpace).head? = some c from hc] at hhead
    simpa using hhead

/-- Blanks are skipped up to where none follows. -/
theorem skipBlanks_exact {blanks rest : List Char} (offset : Nat) (h : ∀ c ∈ blanks, isAsciiSpace c = true)
    (hrest : ∀ c ∈ rest.head?, isAsciiSpace c = false) :
    skipBlanks ⟨offset, blanks ++ rest⟩ = ⟨offset + byteLength blanks, rest⟩ := by
  rw [skipBlanks, Stream.span_exact offset h hrest]

/-- Nothing is skipped where there is no blank. -/
theorem skipBlanks_none {stream : Stream} (h : ∀ c ∈ stream.chars.head?, isAsciiSpace c = false) :
    skipBlanks stream = stream :=
  @skipBlanks_exact [] stream.chars stream.offset (by simp) h

/-! ## Names -/

/-- Whether the name of a tag ends here. -/
def endsTagName : List Char → Bool
  | [] => true
  | c :: rest => isAsciiSpace c || c == '>' || (c == '/' && rest.head? == some '>')

/-- Whether the name of an attribute ends here. -/
def endsAttributeName (chars : List Char) : Bool :=
  endsTagName chars || chars.head? == some '='

theorem tagName_cons (c : Char) (rest : List Char) :
    tagName (c :: rest) = if endsTagName (c :: rest) then ([], c :: rest) else (c :: (tagName rest).1, (tagName rest).2) := by
  conv =>
    lhs
    unfold tagName
  split
  · rename_i heq
    cases heq
  · rename_i tail heq
    cases heq
    simp [endsTagName]
  · rename_i d tail hslash heq
    obtain ⟨rfl, rfl⟩ := List.cons.inj heq
    have hmark : (c == '/' && rest.head? == some '>') = false := by
      refine Bool.eq_false_iff.2 fun h => ?_
      simp only [Bool.and_eq_true, beq_iff_eq] at h
      obtain ⟨tail, hrest⟩ := List.head?_eq_some_iff.1 h.2
      exact hslash tail h.1 hrest
    rw [endsTagName, hmark, Bool.or_false]

theorem attributeName_cons (c : Char) (rest : List Char) :
    attributeName false (c :: rest) =
      if endsAttributeName (c :: rest) then ([], c :: rest)
      else (c :: (attributeName (c == '[' && rest.contains ']') rest).1,
        (attributeName (c == '[' && rest.contains ']') rest).2) := by
  have htest : (isAsciiSpace c || c == '=' || c == '>' || (c == '/' && rest.head? == some '>')) =
      endsAttributeName (c :: rest) := by
    rw [endsAttributeName, endsTagName, List.head?_cons, Option.some_beq_some]
    cases isAsciiSpace c <;> cases c == '=' <;> cases c == '>' <;> simp
  rw [attributeName, htest]

/-- Text at which an attribute can start: neither a gap nor the end of the tag. -/
def StartsAttribute (chars : List Char) : Prop :=
  ∃ c ∈ chars.head?, ¬TagGap c ∧ c ≠ '>'

/-- An equals sign where an attribute should start is its name. -/
theorem wholeName_equals (rest : List Char) : wholeName ('=' :: rest) = (['='], rest) := by
  rw [wholeName, attributeName_cons, if_pos (by simp [endsAttributeName])]

/-- Otherwise the name goes on to where it ends. -/
theorem wholeName_of_start {c : Char} {rest : List Char} (hgap : ¬TagGap c) (hmark : c ≠ '>') (hequals : c ≠ '=') :
    wholeName (c :: rest) = attributeName false (c :: rest) := by
  have hends : endsAttributeName (c :: rest) = false := by
    obtain ⟨hblank, hslash⟩ := not_or.1 hgap
    simp [endsAttributeName, endsTagName, hblank, hslash, hmark, hequals]
  rw [wholeName, attributeName_cons, if_neg (by simp [hends])]

/-! ## Values -/

section Values

variable (language : Script.Language) (key : Key)

/-- The text of a value: between two quotes, after a quote that is not closed, or up to a blank or the end of the tag. -/
inductive ValueText : List Char → Prop where
  | quoted {quote : Char} {inner rest : List Char} (hquote : quote = '"' ∨ quote = '\'') (hinner : quote ∉ inner) :
      ValueText (quote :: (inner ++ quote :: rest))
  | unclosed {quote : Char} {inner : List Char} (hquote : quote = '"' ∨ quote = '\'')
      (hinner : inner.dropWhile (· != quote) = []) : ValueText (quote :: inner)
  | bare {inner rest : List Char} (hfirst : ∀ c ∈ (inner ++ rest).head?, c ≠ '"' ∧ c ≠ '\'')
      (hinner : ∀ c ∈ inner, isAsciiSpace c = false ∧ c ≠ '>') (hrest : ∀ c ∈ rest.head?, isAsciiSpace c = true ∨ c = '>') :
      ValueText (inner ++ rest)

theorem valueText (chars : List Char) : ValueText chars := by
  have hbare : (∀ c ∈ chars.head?, c ≠ '"' ∧ c ≠ '\'') → ValueText chars := by
    intro hfirst
    have happ := List.takeWhile_append_dropWhile (p := fun c => !isAsciiSpace c && c != '>') (l := chars)
    rw [← happ] at hfirst ⊢
    refine .bare hfirst (fun c hc => ?_) (fun c hc => ?_)
    · simpa using List.all_eq_true.1 List.all_takeWhile c hc
    · have hhead := List.head?_dropWhile_not (p := fun c => !isAsciiSpace c && c != '>') (l := chars)
      rw [show (chars.dropWhile _).head? = some c from hc] at hhead
      cases hblank : isAsciiSpace c with
      | true => exact Or.inl rfl
      | false => exact Or.inr (by simpa [hblank] using hhead)
  cases chars with
  | nil => exact hbare (by simp)
  | cons c rest =>
    by_cases hquote : c = '"' ∨ c = '\''
    · have happ := List.takeWhile_append_dropWhile (p := (· != c)) (l := rest)
      have hnot : c ∉ rest.takeWhile (· != c) := by
        intro hmem
        simpa using List.all_eq_true.1 List.all_takeWhile c hmem
      cases hdrop : rest.dropWhile (· != c) with
      | nil => exact .unclosed hquote hdrop
      | cons d after =>
        have hd : d = c := by
          have hhead := List.head?_dropWhile_not (p := (· != c)) (l := rest)
          simpa [hdrop] using hhead
        subst hd
        rw [← happ, hdrop]
        exact .quoted hquote hnot
    · refine hbare fun d hd => ?_
      obtain rfl : c = d := Option.some.inj hd
      exact not_or.1 hquote

/-- A value in quotes ends at the second one. -/
theorem readValue_between {quote : Char} {inner : List Char} (offset : Nat) (rest : List Char)
    (hquote : quote = '"' ∨ quote = '\'') (hinner : quote ∉ inner) :
    readValue language key ⟨offset, quote :: (inner ++ quote :: rest)⟩ =
      (readValue.value language key ⟨offset, offset + 1 + byteLength inner + 1⟩ ⟨offset + 1, offset + 1 + byteLength inner⟩ inner
        (some quote), false, ⟨offset + 1 + byteLength inner + 1, rest⟩) := by
  have hpass : ∀ c ∈ inner, (c != quote) = true := fun c hc => bne_iff_ne.2 fun heq => hinner (heq ▸ hc)
  have htake : (inner ++ quote :: rest).takeWhile (· != quote) = inner := by
    rw [List.takeWhile_append_of_pos hpass]
    simp
  have hdrop : (inner ++ quote :: rest).dropWhile (· != quote) = quote :: rest := by
    rw [List.dropWhile_append_of_pos hpass]
    simp
  unfold readValue
  dsimp only
  rw [if_pos (by simpa using hquote), htake, hdrop]

/-- A quote that is not closed takes the rest of the file. -/
theorem readValue_unclosed {quote : Char} {inner : List Char} (offset : Nat) (hquote : quote = '"' ∨ quote = '\'')
    (hinner : inner.dropWhile (· != quote) = []) : (readValue language key ⟨offset, quote :: inner⟩).2.2.chars = [] := by
  unfold readValue
  dsimp only
  rw [if_pos (by simpa using hquote), hinner]

/-- A value without quotes ends at a blank or at the end of the tag. -/
theorem readValue_bare {inner rest : List Char} (offset : Nat) (hfirst : ∀ c ∈ (inner ++ rest).head?, c ≠ '"' ∧ c ≠ '\'')
    (hinner : ∀ c ∈ inner, isAsciiSpace c = false ∧ c ≠ '>') (hrest : ∀ c ∈ rest.head?, isAsciiSpace c = true ∨ c = '>') :
    readValue language key ⟨offset, inner ++ rest⟩ =
      (readValue.value language key ⟨offset, offset + byteLength inner⟩ ⟨offset, offset + byteLength inner⟩ inner none, false,
        ⟨offset + byteLength inner, rest⟩) := by
  have hspan : Stream.span (fun d => !isAsciiSpace d && d != '>') ⟨offset, inner ++ rest⟩ =
      (inner, ⟨offset + byteLength inner, rest⟩) := by
    refine Stream.span_exact offset (fun c hc => ?_) (fun c hc => ?_)
    · simpa using hinner c hc
    · rcases hrest c hc with hblank | rfl
      · simp [hblank]
      · simp
  unfold readValue
  dsimp only
  split
  · rename_i c tail heq
    obtain ⟨hdouble, hsingle⟩ := hfirst c (by rw [heq]; rfl)
    rw [if_neg (by simp [hdouble, hsingle]), hspan]
  · rename_i heq
    obtain ⟨rfl, rfl⟩ := List.append_eq_nil_iff.1 heq
    rfl

end Values

/-! ## Attributes -/

/-- The text of an attribute: a name alone, or a name, an equals sign between blanks, and a value. -/
inductive AttributeText : List Char → Prop where
  | plain {name rest : List Char} (hname : wholeName (name ++ rest) = (name, rest))
      (hequals : (rest.dropWhile isAsciiSpace).head? ≠ some '=') : AttributeText (name ++ rest)
  | valued {name blanks more chars : List Char}
      (hname : wholeName (name ++ (blanks ++ '=' :: (more ++ chars))) = (name, blanks ++ '=' :: (more ++ chars)))
      (hblanks : ∀ c ∈ blanks, isAsciiSpace c = true) (hmore : ∀ c ∈ more, isAsciiSpace c = true)
      (hchars : ∀ c ∈ chars.head?, isAsciiSpace c = false) : AttributeText (name ++ (blanks ++ '=' :: (more ++ chars)))

theorem dropWhile_blanks {blanks rest : List Char} (h : ∀ c ∈ blanks, isAsciiSpace c = true)
    (hrest : ∀ c ∈ rest.head?, isAsciiSpace c = false) : (blanks ++ rest).dropWhile isAsciiSpace = rest :=
  (takeWhile_run h hrest).2

theorem attributeText {chars : List Char} (hne : chars ≠ []) : AttributeText chars := by
  obtain ⟨happ, -⟩ := wholeName_append hne
  obtain ⟨name, rest, hname⟩ : ∃ name rest, wholeName chars = (name, rest) := ⟨_, _, rfl⟩
  rw [hname] at happ
  subst happ
  obtain ⟨blanks, after, rfl, hblanks, hafter⟩ := exists_blanks rest
  by_cases hequals : after.head? = some '='
  · obtain ⟨tail, rfl⟩ := List.head?_eq_some_iff.1 hequals
    obtain ⟨more, chars, rfl, hmore, hchars⟩ := exists_blanks tail
    exact .valued hname hblanks hmore hchars
  · exact .plain hname (by rwa [dropWhile_blanks hblanks hafter])

section Attributes

variable (around : Surroundings)

theorem readAttribute_plain {name rest : List Char} (offset : Nat) (hname : wholeName (name ++ rest) = (name, rest))
    (hequals : (rest.dropWhile isAsciiSpace).head? ≠ some '=') :
    readAttribute around ⟨offset, name ++ rest⟩ =
      (⟨⟨⟨offset, offset + byteLength name⟩, Key.parse name offset around.topLevel, none⟩, none, false⟩,
        ⟨offset + byteLength name, rest⟩) := by
  obtain ⟨blanks, after, rfl, hblanks, hafter⟩ := exists_blanks rest
  rw [dropWhile_blanks hblanks hafter] at hequals
  unfold readAttribute
  dsimp only
  rw [hname]
  dsimp only [Stream.after]
  rw [skipBlanks_exact _ hblanks hafter]
  dsimp only
  split
  · exact absurd rfl hequals
  · rfl

theorem readAttribute_valued {name blanks more chars : List Char} (offset : Nat)
    (hname : wholeName (name ++ (blanks ++ '=' :: (more ++ chars))) = (name, blanks ++ '=' :: (more ++ chars)))
    (hblanks : ∀ c ∈ blanks, isAsciiSpace c = true) (hmore : ∀ c ∈ more, isAsciiSpace c = true)
    (hchars : ∀ c ∈ chars.head?, isAsciiSpace c = false) {value : AttributeValue} {unclosed : Bool} {rest : Stream}
    (hvalue : readValue around.language (Key.parse name offset around.topLevel)
      ⟨offset + byteLength name + byteLength blanks + 1 + byteLength more, chars⟩ = (value, unclosed, rest)) :
    readAttribute around ⟨offset, name ++ (blanks ++ '=' :: (more ++ chars))⟩ =
      (⟨⟨⟨offset, value.span.stop⟩, Key.parse name offset around.topLevel, some value⟩,
        some (offset + byteLength name + byteLength blanks), unclosed⟩, rest) := by
  unfold readAttribute
  dsimp only
  rw [hname]
  dsimp only [Stream.after]
  rw [skipBlanks_exact _ hblanks (by simp [isAsciiSpace])]
  dsimp only [Stream.next]
  rw [skipBlanks_exact _ hmore hchars, show '='.utf8Size = 1 from rfl, hvalue]
  rfl

/-- Attributes one after the other, with gaps before each of them. -/
inductive Listed : Stream → List ReadAttribute → Stream → Prop where
  | none (stream : Stream) : Listed stream [] stream
  | cons {stream here after rest : Stream} {gap : List Char} {read : ReadAttribute} {reads : List ReadAttribute}
      (hgap : stream.Reads gap here) (hgaps : ∀ c ∈ gap, TagGap c) (hstart : StartsAttribute here.chars)
      (hread : readAttribute around here = (read, after)) (h : Listed after reads rest) : Listed stream (read :: reads) rest

variable {around}

theorem StartsAttribute.ne_nil {chars : List Char} (h : StartsAttribute chars) : chars ≠ [] := by
  rintro rfl
  obtain ⟨c, hc, -⟩ := h
  cases hc

theorem readAttribute_reads {here after : Stream} {read : ReadAttribute} (hstart : StartsAttribute here.chars)
    (hread : readAttribute around here = (read, after)) : ∃ taken, taken ≠ [] ∧ here.Reads taken after := by
  obtain ⟨⟨taken, htaken, -⟩, -, hlt⟩ := readAttribute_lays around hstart.ne_nil
  rw [hread] at htaken hlt
  refine ⟨taken, ?_, htaken⟩
  rintro rfl
  have hoffset := htaken.offset
  rw [byteLength_nil] at hoffset
  omega

theorem Listed.reads {stream rest : Stream} {reads : List ReadAttribute} (h : Listed around stream reads rest) :
    ∃ taken, stream.Reads taken rest := by
  induction h with
  | none stream => exact ⟨[], .refl stream⟩
  | cons hgap _ hstart hread _ ih =>
    obtain ⟨taken, -, htaken⟩ := readAttribute_reads hstart hread
    obtain ⟨others, hothers⟩ := ih
    exact ⟨_, (hgap.trans htaken).trans hothers⟩

/-- More gaps may stand before the first attribute. -/
theorem Listed.widen {stream earlier rest : Stream} {gap : List Char} {reads : List ReadAttribute}
    (h : Listed around stream reads rest) (hne : reads ≠ []) (hgap : earlier.Reads gap stream) (hgaps : ∀ c ∈ gap, TagGap c) :
    Listed around earlier reads rest := by
  cases h with
  | none => exact absurd rfl hne
  | cons hgap' hgaps' hstart hread h =>
    refine .cons (hgap.trans hgap') (fun c hc => ?_) hstart hread h
    exact (List.mem_append.1 hc).elim (hgaps c) (hgaps' c)

/-- What follows the last attribute of a start tag: gaps, and the mark that ends the tag. -/
inductive TagTail (stream : Stream) : TagEnd → Stream → Prop where
  /-- A slash right before the closing mark would belong to it. -/
  | plain {gap : List Char} {mark rest : Stream} (hgap : stream.Reads gap mark) (hgaps : ∀ c ∈ gap, TagGap c)
      (hlast : gap.getLast? ≠ some '/') (hmark : mark.Reads ['>'] rest) : TagTail stream .plain rest
  | selfClosing {gap : List Char} {mark rest : Stream} (hgap : stream.Reads gap mark) (hgaps : ∀ c ∈ gap, TagGap c)
      (hmark : mark.Reads ['/', '>'] rest) : TagTail stream .selfClosing rest
  | missing {gap : List Char} {rest : Stream} (hgap : stream.Reads gap rest) (hgaps : ∀ c ∈ gap, TagGap c)
      (hend : rest.chars = []) : TagTail stream .missing rest

theorem TagTail.widen {stream earlier rest : Stream} {ending : TagEnd} {gap : List Char} (h : TagTail stream ending rest)
    (hgap : earlier.Reads gap stream) (hgaps : ∀ c ∈ gap, TagGap c)
    (hlast : gap.getLast? = some '/' → stream.chars.head? ≠ some '>') : TagTail earlier ending rest := by
  have hall : ∀ {gap' : List Char}, (∀ c ∈ gap', TagGap c) → ∀ c ∈ gap ++ gap', TagGap c :=
    fun hgaps' c hc => (List.mem_append.1 hc).elim (hgaps c) (hgaps' c)
  cases h with
  | plain hgap' hgaps' hlast' hmark =>
    refine .plain (hgap.trans hgap') (hall hgaps') ?_ hmark
    rename_i gap' mark
    intro hslash
    cases gap' with
    | nil =>
      rw [List.append_nil] at hslash
      refine hlast hslash ?_
      rw [hgap'.chars, List.nil_append, hmark.chars]
      rfl
    | cons c gap' =>
      rw [List.getLast?_append, Option.or_of_isSome (by simp)] at hslash
      exact hlast' hslash
  | selfClosing hgap' hgaps' hmark => exact .selfClosing (hgap.trans hgap') (hall hgaps') hmark
  | missing hgap' hgaps' hend => exact .missing (hgap.trans hgap') (hall hgaps') hend

/-- The attributes of a start tag are listed, and its tail follows them. -/
theorem readAttributes_listed (around : Surroundings) {fuel : Nat} {stream : Stream} (hfuel : stream.chars.length < fuel) :
    ∃ last, Listed around stream (readAttributes around fuel stream).1 last ∧
      TagTail last (readAttributes around fuel stream).2.1 (readAttributes around fuel stream).2.2 := by
  induction fuel generalizing stream with
  | zero => omega
  | succ fuel ih =>
    obtain ⟨blanks, hblanks, hblank⟩ := skipBlanks_reads stream
    have hgaps : ∀ c ∈ blanks, TagGap c := fun c hc => Or.inl (hblank c hc)
    have hlast : blanks.getLast? ≠ some '/' := by
      intro heq
      cases hblank '/' (List.mem_of_getLast? heq)
    have hlength := hblanks.length
    have hhead : ∀ c ∈ (skipBlanks stream).chars.head?, isAsciiSpace c = false := by
      obtain ⟨blanks, rest, hchars, hall, hrest⟩ := exists_blanks stream.chars
      have hskip := skipBlanks_exact stream.offset hall hrest
      rw [← hchars] at hskip
      rw [show skipBlanks stream = _ from hskip]
      exact hrest
    unfold readAttributes
    generalize skipBlanks stream = here at hblanks hlength hhead
    dsimp only
    split
    · rename_i hend
      exact ⟨stream, .none _, .missing hblanks hgaps hend⟩
    · rename_i tail hmark
      exact ⟨stream, .none _, .plain hblanks hgaps hlast (Stream.reads_next hmark)⟩
    · rename_i tail hmark
      exact ⟨stream, .none _, .selfClosing hblanks hgaps (Stream.reads_skip ['/', '>'] hmark rfl)⟩
    · rename_i tail hnot hslash
      have hnext := Stream.reads_next hslash
      have hless := hnext.length
      rw [List.length_singleton] at hless
      obtain ⟨last, hlisted, htail⟩ := @ih here.next (by omega)
      have hgap := hblanks.trans hnext
      have hgaps' : ∀ c ∈ blanks ++ ['/'], TagGap c := by
        intro c hc
        rcases List.mem_append.1 hc with hc | hc
        · exact hgaps c hc
        · exact Or.inr (List.mem_singleton.1 hc)
      have htailChars : here.next.chars = tail := by simp [Stream.next, hslash]
      generalize readAttributes around fuel here.next = read at hlisted htail ⊢
      obtain ⟨reads, ending, rest⟩ := read
      dsimp only at hlisted htail ⊢
      cases reads with
      | nil =>
        cases hlisted
        refine ⟨stream, .none _, htail.widen hgap hgaps' fun _ hmark => ?_⟩
        obtain ⟨more, hmore⟩ := List.head?_eq_some_iff.1 (htailChars ▸ hmark)
        exact hnot more hmore
      | cons read reads => exact ⟨last, hlisted.widen (List.cons_ne_nil _ _) hgap hgaps', htail⟩
    · rename_i hnil hmark _ hslash
      obtain ⟨c, tail, hchars⟩ := List.exists_cons_of_ne_nil hnil
      have hstart : StartsAttribute here.chars := by
        refine ⟨c, by rw [hchars]; rfl, ?_, ?_⟩
        · rintro (hspace | rfl)
          · rw [hhead c (by rw [hchars]; rfl)] at hspace
            cases hspace
          · exact hslash _ hchars
        · rintro rfl
          exact hmark _ hchars
      obtain ⟨read, after, hread⟩ : ∃ read after, readAttribute around here = (read, after) := ⟨_, _, rfl⟩
      obtain ⟨taken, hne, htaken⟩ := readAttribute_reads hstart hread
      have hless := htaken.length
      have hpos := List.length_pos_iff.2 hne
      obtain ⟨last, hlisted, htail⟩ := @ih after (by omega)
      rw [hread]
      exact ⟨last, .cons hblanks hgaps hstart hread hlisted, htail⟩

/-! Reading the attributes step by step. -/

theorem readAttributes_blank {stream : Stream} {c : Char} {rest : List Char} (hchars : stream.chars = c :: rest)
    (hc : isAsciiSpace c = true) (fuel : Nat) : readAttributes around (fuel + 1) stream = readAttributes around
      (fuel + 1) stream.next := by
  obtain ⟨blanks, after, rfl, hblanks, hafter⟩ := exists_blanks rest
  have hnext : stream.next = ⟨stream.offset + c.utf8Size, blanks ++ after⟩ := by simp [Stream.next, hchars]
  have hstream : stream = ⟨stream.offset, (c :: blanks) ++ after⟩ := congrArg (Stream.mk stream.offset) hchars
  have hskip : skipBlanks stream = skipBlanks stream.next := by
    rw [hnext, skipBlanks_exact _ hblanks hafter, hstream,
      skipBlanks_exact _ (List.forall_mem_cons.2 ⟨hc, hblanks⟩) hafter, byteLength_cons, Nat.add_assoc]
  rw [readAttributes, readAttributes, hskip]

theorem readAttributes_slash {stream : Stream} {rest : List Char} (hchars : stream.chars = '/' :: rest)
    (hrest : rest.head? ≠ some '>') (fuel : Nat) : readAttributes around
      (fuel + 1) stream = readAttributes around fuel stream.next := by
  have hself : skipBlanks stream = stream := skipBlanks_none (by simp [hchars, isAsciiSpace])
  rw [readAttributes, hself]
  cases rest with
  | nil => simp [hchars]
  | cons c rest =>
    have hc : c ≠ '>' := by simpa using hrest
    simp [hchars, hc]

theorem readAttributes_attribute {here after : Stream} {read : ReadAttribute} (hstart : StartsAttribute here.chars)
    (hread : readAttribute around here = (read, after)) (fuel : Nat) :
    readAttributes around (fuel + 1) here =
      (read :: (readAttributes around fuel after).1, (readAttributes around fuel after).2) := by
  obtain ⟨c, hc, hgap, hmark⟩ := hstart
  obtain ⟨rest, hchars⟩ := List.head?_eq_some_iff.1 hc
  obtain ⟨hblank, hslash⟩ := not_or.1 hgap
  have hself : skipBlanks here = here := skipBlanks_none (by simpa [hchars] using hblank)
  rw [readAttributes, hself]
  simp [hchars, hslash, hmark, hread]

/-- Gaps before an attribute or a mark are passed over, and what is left of the fuel is enough for the rest. -/
theorem readAttributes_gaps (around : Surroundings) {gap : List Char} {stream here : Stream} (hgap : stream.Reads gap here)
    (hgaps : ∀ c ∈ gap, TagGap c) (hlast : gap.getLast? = some '/' → here.chars.head? ≠ some '>') {fuel : Nat}
    (hfuel : stream.chars.length < fuel) :
    ∃ left, here.chars.length < left + 1 ∧ readAttributes around fuel stream = readAttributes around (left + 1) here := by
  induction gap generalizing stream fuel with
  | nil =>
    obtain rfl : here = stream := hgap.eq_of_offset_eq (by simpa using hgap.offset.symm)
    cases fuel with
    | zero => omega
    | succ fuel => exact ⟨fuel, hfuel, rfl⟩
  | cons c gap ih =>
    obtain ⟨hc, hrestGaps⟩ := List.forall_mem_cons.1 hgaps
    have hchars : stream.chars = c :: (gap ++ here.chars) := hgap.chars
    have hnext := Stream.reads_next hchars
    have hrest : stream.next.Reads gap here := by
      refine ⟨by simp [Stream.next, hchars], ?_⟩
      rw [hgap.offset, hnext.offset, byteLength_cons, byteLength_cons, byteLength_nil]
      omega
    have hlast' : gap.getLast? = some '/' → here.chars.head? ≠ some '>' := by
      intro hslash
      refine hlast ?_
      rw [List.getLast?_cons, hslash]
      rfl
    have hless := hnext.length
    rw [List.length_singleton] at hless
    cases fuel with
    | zero => omega
    | succ fuel =>
      rcases hc with hblank | hslash
      · rw [readAttributes_blank hchars hblank]
        exact ih hrest hrestGaps hlast' (by omega)
      · have hnot : (gap ++ here.chars).head? ≠ some '>' := by
          cases gap with
          | nil => exact hlast (by rw [hslash]; rfl)
          | cons d gap =>
            intro hd
            obtain rfl : d = '>' := Option.some.inj hd
            rcases hrestGaps '>' List.mem_cons_self with hd | hd <;> cases hd
        rw [readAttributes_slash (hslash ▸ hchars) hnot]
        exact ih hrest hrestGaps hlast' (by omega)

theorem readAttributes_tail {stream rest : Stream} {ending : TagEnd} (h : TagTail stream ending rest) {fuel : Nat}
    (hfuel : stream.chars.length < fuel) : readAttributes around fuel stream = ([], ending, rest) := by
  have hself : ∀ {mark : Stream} {chars : List Char}, mark.chars = '>' :: chars ∨ mark.chars = '/' :: chars →
      skipBlanks mark = mark := by
    rintro mark chars (hmark | hmark) <;> exact skipBlanks_none (by simp [hmark, isAsciiSpace])
  cases h with
  | plain hgap hgaps hlast hmark =>
    obtain ⟨left, -, heq⟩ := readAttributes_gaps around hgap hgaps (fun hslash => absurd hslash hlast) hfuel
    rw [heq, readAttributes, hself (Or.inl hmark.chars)]
    simp [hmark.chars, hmark.unique (Stream.reads_next hmark.chars)]
  | selfClosing hgap hgaps hmark =>
    obtain ⟨left, -, heq⟩ := readAttributes_gaps around hgap hgaps (by simp [hmark.chars]) hfuel
    rw [heq, readAttributes, hself (Or.inr hmark.chars)]
    simp [hmark.chars, hmark.unique (Stream.reads_skip ['/', '>'] hmark.chars rfl)]
  | missing hgap hgaps hend =>
    obtain ⟨left, -, heq⟩ := readAttributes_gaps around hgap hgaps (by simp [hend]) hfuel
    rw [heq, readAttributes, skipBlanks_none (by simp [hend])]
    simp [hend]

/-- Listed attributes with a tail behind them are what is read. -/
theorem readAttributes_of_listed {stream last rest : Stream} {reads : List ReadAttribute} {ending : TagEnd}
    (h : Listed around stream reads last) (htail : TagTail last ending rest) {fuel : Nat} (hfuel : stream.chars.length < fuel) :
    readAttributes around fuel stream = (reads, ending, rest) := by
  induction h generalizing fuel with
  | none stream => exact readAttributes_tail htail hfuel
  | cons hgap hgaps hstart hread _ ih =>
    rename_i here after _ _ _ _ _
    have hnot : here.chars.head? ≠ some '>' := by
      intro hmark
      obtain ⟨c, hc, -, hne⟩ := hstart
      exact hne (Option.some.inj (hc.symm.trans hmark))
    obtain ⟨left, hleft, heq⟩ := readAttributes_gaps around hgap hgaps (fun _ => hnot) hfuel
    obtain ⟨taken, hne, htaken⟩ := readAttribute_reads hstart hread
    have hless := htaken.length
    have hpos := List.length_pos_iff.2 hne
    rw [heq, readAttributes_attribute hstart hread, ih htail (by omega)]

/-! ## Whole tags -/

/-- A start tag, from the name behind its opening on: its attributes are listed, and its tail follows them. -/
theorem readStartTag_listed (around : Surroundings) {offset : Nat} {name chars : List Char}
    (hname : tagName (name ++ chars) = (name, chars)) {tag : ReadTag} {rest : Stream}
    (h : readStartTag around ⟨offset, '<' :: (name ++ chars)⟩ = (tag, rest)) :
    tag.rawName = name ∧ tag.start = offset ∧ tag.stop = rest.offset ∧
      ∃ last, Listed around ⟨offset + 1 + byteLength name, chars⟩ tag.attributes last ∧ TagTail last tag.ending rest := by
  have hlisted := @readAttributes_listed around _ ⟨offset + 1 + byteLength name, chars⟩ (Nat.lt_succ_self chars.length)
  unfold readStartTag at h
  simp only [List.drop_one, List.tail_cons, hname] at h
  obtain ⟨htag, hrest⟩ := Prod.mk.inj h
  subst htag
  subst hrest
  exact ⟨rfl, rfl, rfl, hlisted⟩

/-- A name, listed attributes and a tail are read as a start tag. -/
theorem readStartTag_of_listed {around : Surroundings} {offset : Nat} {name chars : List Char}
    (hname : tagName (name ++ chars) = (name, chars)) {reads : List ReadAttribute} {ending : TagEnd} {last rest : Stream}
    (h : Listed around ⟨offset + 1 + byteLength name, chars⟩ reads last) (htail : TagTail last ending rest) :
    readStartTag around ⟨offset, '<' :: (name ++ chars)⟩ = (⟨name, offset, reads, ending, rest.offset⟩, rest) := by
  have hread := readAttributes_of_listed h htail (Nat.lt_succ_self chars.length)
  unfold readStartTag
  simp only [List.drop_one, List.tail_cons, hname]
  rw [show Stream.after (Stream.next ⟨offset, '<' :: (name ++ chars)⟩) name chars =
    ⟨offset + 1 + byteLength name, chars⟩ from rfl,
    hread]

end Attributes

end Markup

end ComponentLint
