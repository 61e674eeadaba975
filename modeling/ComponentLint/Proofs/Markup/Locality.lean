import ComponentLint.Proofs.Markup.StartTags
import ComponentLint.Proofs.Text.Occurrences

/-!
# Reading looks no further

What a reader takes off the front of a text stays the same when the text behind it is exchanged, as long as that ends the
reader's part in the same way. Here this is said for the parts of a start tag, down to what may follow an attribute
(`Attribute.EndsBefore`), and for start tags as a whole (`readStartTag_swap`). Only the search for a closing bracket in the name
of an attribute may run to the end of the file.
-/

namespace ComponentLint

namespace Markup

open Text

/-! ## Names -/

theorem endsTagName_cons_swap {c : Char} {name rest rest' : List Char} (h : endsTagName (c :: (name ++ rest)) = false)
    (hslash : (c :: name).getLast? = some '/' → rest'.head? ≠ some '>') : endsTagName (c :: (name ++ rest')) = false := by
  cases name with
  | cons d name => exact h
  | nil =>
    simp only [endsTagName, Bool.or_eq_false_iff] at h ⊢
    refine ⟨h.1, ?_⟩
    by_cases hc : c = '/'
    · have hmark := hslash (by rw [hc]; rfl)
      simp [hmark]
    · simp [hc]

/-- A name ends in the same place when what follows still ends it. -/
theorem tagName_swap {name rest rest' : List Char} (h : tagName (name ++ rest) = (name, rest))
    (hends : endsTagName rest' = true) (hslash : name.getLast? = some '/' → rest'.head? ≠ some '>') :
    tagName (name ++ rest') = (name, rest') := by
  induction name with
  | nil =>
    cases rest' with
    | nil => rfl
    | cons c rest' => rw [List.nil_append, tagName_cons, if_pos hends]
  | cons c name ih =>
    rw [List.cons_append, tagName_cons] at h ⊢
    split at h
    · cases (Prod.mk.inj h).1
    · rename_i hgoes
      obtain ⟨hname, hrest⟩ := Prod.mk.inj h
      have htail : tagName (name ++ rest) = (name, rest) := Prod.ext (List.cons.inj hname).2 hrest
      have hgoes' := endsTagName_cons_swap (Bool.eq_false_iff.2 hgoes) hslash
      rw [if_neg (Bool.eq_false_iff.1 hgoes'), ih htail]
      intro hlast
      refine hslash ?_
      rw [List.getLast?_cons, hlast]
      rfl

theorem tagName_ends (chars : List Char) : endsTagName (tagName chars).2 = true := by
  induction chars with
  | nil => rfl
  | cons c rest ih =>
    rw [tagName_cons]
    split
    · rename_i hends
      exact hends
    · exact ih

/-- A slash at the end of a name does not stand right before the closing mark. -/
theorem tagName_slash (chars : List Char) (h : (tagName chars).1.getLast? = some '/') :
    (tagName chars).2.head? ≠ some '>' := by
  induction chars with
  | nil => simp [tagName]
  | cons c rest ih =>
    rw [tagName_cons] at h ⊢
    split at h
    · cases h
    · rename_i hgoes
      rw [if_neg hgoes]
      dsimp only at h ⊢
      cases hname : (tagName rest).1 with
      | cons d name =>
        refine ih ?_
        rw [hname] at h ⊢
        rwa [List.getLast?_cons_cons] at h
      | nil =>
        rw [hname] at h
        obtain rfl : c = '/' := Option.some.inj h
        have happ := tagName_append rest
        rw [hname, List.nil_append] at happ
        rw [happ]
        intro hmark
        simp [endsTagName, hmark] at hgoes

/-- Inside brackets a name goes on at least to the closing one. -/
theorem attributeName_bracket {name rest : List Char} (h : attributeName true (name ++ rest) = (name, rest))
    (hmem : ']' ∈ name ++ rest) : ']' ∈ name := by
  induction name with
  | nil =>
    cases rest with
    | nil => exact hmem
    | cons c rest =>
      rw [List.nil_append, attributeName] at h
      cases (Prod.mk.inj h).1
  | cons c name ih =>
    rw [List.cons_append, attributeName] at h
    by_cases hc : c = ']'
    · rw [hc]
      exact List.mem_cons_self
    · rw [show (c != ']') = true by simpa using hc] at h
      obtain ⟨hname, hrest⟩ := Prod.mk.inj h
      refine List.mem_cons_of_mem _ (ih (Prod.ext (List.cons.inj hname).2 hrest) ?_)
      exact (List.mem_cons.1 hmem).resolve_left (Ne.symm hc)

/-- The name of an attribute ends in the same place when what follows still ends it and holds no new closing bracket. -/
theorem attributeName_swap {inside : Bool} {name rest rest' : List Char} (h : attributeName inside (name ++ rest) = (name, rest))
    (hinside : inside = true → ']' ∈ name) (hends : endsAttributeName rest' = true)
    (hslash : name.getLast? = some '/' → rest'.head? ≠ some '>') (hbracket : ']' ∈ rest' → ']' ∈ rest) :
    attributeName inside (name ++ rest') = (name, rest') := by
  induction name generalizing inside with
  | nil =>
    cases inside with
    | true => cases hinside rfl
    | false =>
      cases rest' with
      | nil => rfl
      | cons c rest' => rw [List.nil_append, attributeName_cons, if_pos hends]
  | cons c name ih =>
    have hslash' : name.getLast? = some '/' → rest'.head? ≠ some '>' := by
      intro hlast
      refine hslash ?_
      rw [List.getLast?_cons, hlast]
      rfl
    cases inside with
    | true =>
      rw [List.cons_append, attributeName] at h ⊢
      obtain ⟨hname, hrest⟩ := Prod.mk.inj h
      rw [ih (Prod.ext (List.cons.inj hname).2 hrest) ?_ hslash']
      intro hc
      exact (List.mem_cons.1 (hinside rfl)).resolve_left fun heq => by simp [← heq] at hc
    | false =>
      rw [List.cons_append, attributeName_cons] at h ⊢
      split at h
      · cases (Prod.mk.inj h).1
      · rename_i hgoes
        obtain ⟨hname, hrest⟩ := Prod.mk.inj h
        have htail : attributeName (c == '[' && (name ++ rest).contains ']') (name ++ rest) = (name, rest) :=
          Prod.ext (List.cons.inj hname).2 hrest
        have hopen : (c == '[' && (name ++ rest).contains ']') = true → ']' ∈ name := by
          intro hbracket
          rw [hbracket] at htail
          exact attributeName_bracket htail (by simpa using (Bool.and_eq_true_iff.1 hbracket).2)
        have hsame : (c == '[' && (name ++ rest).contains ']') = (c == '[' && (name ++ rest').contains ']') := by
          rw [Bool.eq_iff_iff]
          refine ⟨fun hmem => ?_, fun hmem => ?_⟩
          · simp [hopen hmem, (Bool.and_eq_true_iff.1 hmem).1]
          · obtain ⟨hc, hmem⟩ := Bool.and_eq_true_iff.1 hmem
            rw [hc, Bool.true_and, List.contains_iff_mem]
            rw [List.contains_iff_mem] at hmem
            exact List.mem_append.2 ((List.mem_append.1 hmem).imp_right hbracket)
        have hgoes' : ¬endsAttributeName (c :: (name ++ rest')) = true := by
          simp only [endsAttributeName, List.head?_cons, Bool.or_eq_true, not_or, Bool.not_eq_true] at hgoes ⊢
          exact ⟨endsTagName_cons_swap hgoes.1 hslash, hgoes.2⟩
        rw [if_neg hgoes', ← hsame, ih htail hopen hslash']

theorem attributeName_ends (inside : Bool) (chars : List Char) : endsAttributeName (attributeName inside chars).2 = true := by
  induction chars generalizing inside with
  | nil => cases inside <;> rfl
  | cons c rest ih =>
    cases inside with
    | true => exact ih _
    | false =>
      rw [attributeName_cons]
      split
      · rename_i hends
        exact hends
      · exact ih _

theorem attributeName_slash (inside : Bool) (chars : List Char) (h : (attributeName inside chars).1.getLast? = some '/') :
    (attributeName inside chars).2.head? ≠ some '>' := by
  induction chars generalizing inside with
  | nil => cases inside <;> simp [attributeName]
  | cons c rest ih =>
    have hnext : ∀ inside', (c :: (attributeName inside' rest).1).getLast? = some '/' →
        (inside' = true ∨ rest.head? ≠ some '>') → (attributeName inside' rest).2.head? ≠ some '>' := by
      intro inside' hlast hfirst
      cases hname : (attributeName inside' rest).1 with
      | cons d name =>
        refine ih inside' ?_
        rw [hname] at hlast ⊢
        rwa [List.getLast?_cons_cons] at hlast
      | nil =>
        have happ := attributeName_append inside' rest
        rw [hname, List.nil_append] at happ
        rw [happ]
        rcases hfirst with rfl | hfirst
        · cases rest with
          | nil => simp
          | cons d rest => cases hname
        · exact hfirst
    cases inside with
    | true =>
      refine hnext _ h ?_
      by_cases hc : c = ']'
      · rw [attributeName, show (c != ']') = false by simp [hc]] at h
        right
        intro hmark
        obtain ⟨rest, rfl⟩ := List.head?_eq_some_iff.1 hmark
        rw [hc] at h
        simp [attributeName] at h
      · exact Or.inl (by simpa using hc)
    | false =>
      rw [attributeName_cons] at h ⊢
      split at h
      · cases h
      · rename_i hgoes
        rw [if_neg hgoes]
        refine hnext _ h ?_
        by_cases hc : c = '/'
        · right
          intro hmark
          simp [endsAttributeName, endsTagName, hc, hmark] at hgoes
        · by_cases hbracket : (c == '[' && rest.contains ']') = true
          · exact Or.inl hbracket
          · right
            intro hmark
            obtain ⟨rest, rfl⟩ := List.head?_eq_some_iff.1 hmark
            rw [Bool.eq_false_iff.2 hbracket] at h
            simp [attributeName, hc] at h

theorem wholeName_swap {name rest rest' : List Char} (hstart : StartsAttribute (name ++ rest))
    (h : wholeName (name ++ rest) = (name, rest)) (hends : name.head? = some '=' ∨ endsAttributeName rest' = true)
    (hslash : name.getLast? = some '/' → rest'.head? ≠ some '>') (hbracket : ']' ∈ rest' → ']' ∈ rest) :
    wholeName (name ++ rest') = (name, rest') := by
  have hne : name ≠ [] := by
    have hnonempty := (wholeName_append hstart.ne_nil).2
    rwa [h] at hnonempty
  obtain ⟨c, name, rfl⟩ := List.exists_cons_of_ne_nil hne
  obtain ⟨d, hd, hgap, hmark⟩ := hstart
  obtain rfl : c = d := Option.some.inj hd
  by_cases hc : c = '='
  · subst hc
    rw [List.cons_append, wholeName_equals] at h
    obtain ⟨hname, -⟩ := Prod.mk.inj h
    rw [← hname]
    exact wholeName_equals rest'
  · rw [List.cons_append, wholeName_of_start hgap hmark hc] at h ⊢
    exact attributeName_swap h (by simp) (hends.resolve_left (by simpa using hc)) hslash hbracket

/-! ## Attributes -/

/-- What may follow an attribute. The name of an attribute without a value has to end there, no value may follow, and a slash
that ends the name may not come to stand before the closing mark. A value without quotes goes on to a blank or the closing
mark, and an empty one takes the blanks before it. -/
def Attribute.EndsBefore (attr : Attribute) (taken rest : List Char) : Prop :=
  match attr.value with
  | none => (taken.head? = some '=' ∨ endsAttributeName rest = true) ∧ (taken.getLast? = some '/' → rest.head? ≠ some '>') ∧
      (rest.dropWhile isAsciiSpace).head? ≠ some '='
  | some value => value.quote = none → ∀ c ∈ rest.head?, c = '>' ∨ (value.raw ≠ "" ∧ isAsciiSpace c = true)

section Attributes

variable {around : Surroundings}

/-- An attribute is followed by what may follow it. -/
theorem readAttribute_endsBefore {offset stop : Nat} {taken rest : List Char} {read : ReadAttribute}
    (hstart : StartsAttribute (taken ++ rest)) (hread : readAttribute around ⟨offset, taken ++ rest⟩ = (read, ⟨stop, rest⟩)) :
    read.attr.EndsBefore taken rest := by
  have htext := attributeText hstart.ne_nil
  generalize hchars : taken ++ rest = chars at hstart hread htext
  cases htext with
  | plain hname hequals =>
    rename_i name after
    rw [readAttribute_plain around offset hname hequals] at hread
    obtain ⟨rfl, hrest⟩ := Prod.mk.inj hread
    obtain ⟨-, rfl⟩ := Stream.mk.inj hrest
    obtain rfl : taken = name := List.append_cancel_right hchars
    obtain ⟨c, taken, rfl⟩ := List.exists_cons_of_ne_nil (hname ▸ (wholeName_append hstart.ne_nil).2)
    obtain ⟨d, hd, hgap, hmark⟩ := hstart
    obtain rfl : c = d := Option.some.inj hd
    by_cases hc : c = '='
    · rw [hc, List.cons_append, wholeName_equals] at hname
      obtain rfl : [] = taken := (List.cons.inj (Prod.mk.inj hname).1).2
      exact ⟨Or.inl (by rw [hc]; rfl), by simp [hc], hequals⟩
    · rw [List.cons_append, wholeName_of_start hgap hmark hc] at hname
      have hends := attributeName_ends false (c :: (taken ++ after))
      have hslash := attributeName_slash false (c :: (taken ++ after))
      rw [hname] at hends hslash
      exact ⟨Or.inr hends, hslash, hequals⟩
  | valued hname hblanks hmore hafter =>
    rename_i name blanks more after
    obtain ⟨value, unclosed, last, hvalue⟩ : ∃ value unclosed last,
      readValue around.language (Key.parse name offset around.topLevel)
        ⟨offset + byteLength name + byteLength blanks + 1 + byteLength more, after⟩ = (value, unclosed, last) := ⟨_, _, _, rfl⟩
    rw [readAttribute_valued around offset hname hblanks hmore hafter hvalue] at hread
    obtain ⟨rfl, rfl⟩ := Prod.mk.inj hread
    intro hquote c hc
    cases valueText after with
    | quoted hmark hinner =>
      rw [readValue_between _ _ _ _ hmark hinner] at hvalue
      obtain ⟨rfl, -⟩ := Prod.mk.inj hvalue
      cases hquote
    | unclosed hmark hinner =>
      have hnil := readValue_unclosed around.language (Key.parse name offset around.topLevel)
        (offset + byteLength name + byteLength blanks + 1 + byteLength more) hmark hinner
      rw [hvalue] at hnil
      rw [show rest = [] from hnil] at hc
      cases hc
    | bare hfirst hinner hstops =>
      rename_i inner after
      rw [readValue_bare _ _ _ hfirst hinner hstops] at hvalue
      simp only [Prod.mk.injEq, Stream.mk.injEq] at hvalue
      obtain ⟨rfl, -, -, rfl⟩ := hvalue
      rcases hstops c hc with hblank | hend
      · refine Or.inr ⟨?_, hblank⟩
        intro hempty
        have hnil : inner = [] := by simpa [readValue.value] using hempty
        rw [hnil, List.nil_append] at hafter
        rw [hafter c hc] at hblank
        cases hblank
      · exact Or.inl hend

/-- A value that takes nothing is an empty one without quotes. -/
theorem readValue_empty {language : Script.Language} {key : Key} {offset stop : Nat} {rest : List Char} {value : AttributeValue}
    {unclosed : Bool} (hne : rest ≠ []) (hread : readValue language key ⟨offset, rest⟩ = (value, unclosed, ⟨stop, rest⟩)) :
    value.quote = none ∧ value.raw = "" := by
  have htext := valueText rest
  generalize hchars : rest = chars at hread htext
  cases htext with
  | quoted hmark hinner =>
    rw [readValue_between _ _ _ _ hmark hinner] at hread
    simp only [Prod.mk.injEq, Stream.mk.injEq] at hread
    have hlength := congrArg List.length hread.2.2.2
    simp at hlength
    omega
  | unclosed hmark hinner =>
    have hnil := readValue_unclosed language key offset hmark hinner
    rw [hread] at hnil
    exact absurd (hchars.trans hnil) hne
  | bare hfirst hinner hstops =>
    rw [readValue_bare _ _ _ hfirst hinner hstops] at hread
    simp only [Prod.mk.injEq, Stream.mk.injEq, List.self_eq_append_left] at hread
    obtain ⟨rfl, -, -, rfl⟩ := hread
    exact ⟨rfl, rfl⟩

/-- A value is the same before another text that ends it. -/
theorem readValue_swap {language : Script.Language} {key : Key} {offset stop : Nat} {taken rest rest' : List Char}
    {value : AttributeValue} {unclosed : Bool} (hne : rest ≠ [])
    (hread : readValue language key ⟨offset, taken ++ rest⟩ = (value, unclosed, ⟨stop, rest⟩))
    (hends : value.quote = none → ∀ c ∈ rest'.head?, c = '>' ∨ (value.raw ≠ "" ∧ isAsciiSpace c = true)) :
    readValue language key ⟨offset, taken ++ rest'⟩ = (value, unclosed, ⟨stop, rest'⟩) := by
  have htext := valueText (taken ++ rest)
  generalize hchars : taken ++ rest = chars at hread htext
  cases htext with
  | quoted hmark hinner =>
    rename_i quote inner after
    rw [readValue_between _ _ _ _ hmark hinner] at hread
    simp only [Prod.mk.injEq, Stream.mk.injEq] at hread
    obtain ⟨rfl, rfl, rfl, rfl⟩ := hread
    have htaken : taken = quote :: (inner ++ [quote]) := by
      refine List.append_cancel_right (hchars.trans ?_)
      simp
    rw [htaken, List.cons_append, List.append_assoc]
    exact readValue_between _ _ _ _ hmark hinner
  | unclosed hmark hinner =>
    have hnil := readValue_unclosed language key offset hmark hinner
    rw [hread] at hnil
    exact absurd hnil hne
  | bare hfirst hinner hstops =>
    rename_i inner after
    rw [readValue_bare _ _ _ hfirst hinner hstops] at hread
    simp only [Prod.mk.injEq, Stream.mk.injEq] at hread
    obtain ⟨rfl, rfl, rfl, rfl⟩ := hread
    obtain rfl : taken = inner := List.append_cancel_right hchars
    refine readValue_bare _ _ _ ?_ hinner fun c hc => (hends rfl c hc).symm.imp_left And.right
    intro c hc
    cases taken with
    | cons d taken => exact hfirst c hc
    | nil =>
      rcases hends rfl c hc with rfl | ⟨-, hblank⟩
      · decide
      · constructor <;> rintro rfl <;> cases hblank

/-- An attribute is the same before another text that may follow it. -/
theorem readAttribute_swap {offset stop : Nat} {taken rest rest' : List Char} {read : ReadAttribute}
    (hstart : StartsAttribute (taken ++ rest)) (hne : rest ≠ [])
    (hread : readAttribute around ⟨offset, taken ++ rest⟩ = (read, ⟨stop, rest⟩)) (hends : read.attr.EndsBefore taken rest')
    (hbracket : ']' ∈ rest' → ']' ∈ rest) : readAttribute around ⟨offset, taken ++ rest'⟩ = (read, ⟨stop, rest'⟩) := by
  have htext := attributeText hstart.ne_nil
  generalize hchars : taken ++ rest = chars at hstart hread htext
  cases htext with
  | plain hname hequals =>
    rename_i name after
    rw [readAttribute_plain around offset hname hequals] at hread
    obtain ⟨rfl, hrest⟩ := Prod.mk.inj hread
    obtain ⟨rfl, rfl⟩ := Stream.mk.inj hrest
    obtain rfl : taken = name := List.append_cancel_right hchars
    obtain ⟨hname', hslash, hequals'⟩ := hends
    exact readAttribute_plain around offset (wholeName_swap hstart hname hname' hslash hbracket) hequals'
  | valued hname hblanks hmore hafter =>
    rename_i name blanks more after
    obtain ⟨value, unclosed, last, hvalue⟩ : ∃ value unclosed last,
      readValue around.language (Key.parse name offset around.topLevel)
        ⟨offset + byteLength name + byteLength blanks + 1 + byteLength more, after⟩ = (value, unclosed, last) := ⟨_, _, _, rfl⟩
    rw [readAttribute_valued around offset hname hblanks hmore hafter hvalue] at hread
    obtain ⟨rfl, rfl⟩ := Prod.mk.inj hread
    obtain ⟨inner, hinner, -⟩ := readValue_reads around.language (Key.parse name offset around.topLevel)
      ⟨offset + byteLength name + byteLength blanks + 1 + byteLength more, after⟩
    rw [hvalue] at hinner
    obtain rfl : after = inner ++ rest := hinner.chars
    obtain rfl : taken = name ++ (blanks ++ '=' :: (more ++ inner)) := by
      refine List.append_cancel_right (hchars.trans ?_)
      simp
    have hsign : endsAttributeName (blanks ++ '=' :: (more ++ (inner ++ rest'))) = true := by
      cases blanks with
      | nil => simp [endsAttributeName]
      | cons c blanks => simp [endsAttributeName, endsTagName, hblanks c List.mem_cons_self]
    have hnot : (blanks ++ '=' :: (more ++ (inner ++ rest'))).head? ≠ some '>' := by
      cases blanks with
      | nil => simp
      | cons c blanks =>
        intro hc
        obtain rfl : c = '>' := Option.some.inj hc
        cases hblanks '>' List.mem_cons_self
    have hbracket' : ']' ∈ blanks ++ '=' :: (more ++ (inner ++ rest')) → ']' ∈ blanks ++ '=' :: (more ++ (inner ++ rest)) := by
      simp only [List.mem_append, List.mem_cons]
      exact Or.imp_right (Or.imp_right (Or.imp_right (Or.imp_right hbracket)))
    have hafter' : ∀ c ∈ (inner ++ rest').head?, isAsciiSpace c = false := by
      cases inner with
      | cons d inner => exact hafter
      | nil =>
        intro c hc
        obtain ⟨hquote, hraw⟩ := readValue_empty hne hvalue
        rcases hends hquote c hc with rfl | ⟨hne, -⟩
        · rfl
        · exact absurd hraw hne
    have hname' := wholeName_swap hstart hname (Or.inr hsign) (fun _ => hnot) hbracket'
    simpa using readAttribute_valued around offset hname' hblanks hmore hafter' (readValue_swap hne hvalue hends)

/-- Where a name ends is decided before the first character that is no gap. -/
theorem endsTagName_front {front : List Char} (hfront : ∃ c ∈ front, ¬TagGap c) (rest rest' : List Char) :
    endsTagName (front ++ rest) = endsTagName (front ++ rest') := by
  obtain ⟨c, hc, hgap⟩ := hfront
  rcases front with _ | ⟨a, _ | ⟨b, front⟩⟩
  · cases hc
  · obtain rfl : c = a := List.mem_singleton.1 hc
    have hslash : (c == '/') = false := by simpa using (not_or.1 hgap).2
    simp [endsTagName, hslash]
  · rfl

theorem head?_front {front : List Char} (hfront : ∃ c ∈ front, ¬TagGap c) (rest rest' : List Char) :
    (front ++ rest).head? = (front ++ rest').head? := by
  obtain ⟨c, hc, -⟩ := hfront
  cases front with
  | nil => cases hc
  | cons a front => rfl

theorem Attribute.EndsBefore.front {attr : Attribute} {taken front rest : List Char} (h : attr.EndsBefore taken (front ++ rest))
    (hfront : ∃ c ∈ front, ¬TagGap c) (rest' : List Char) : attr.EndsBefore taken (front ++ rest') := by
  have hhead := head?_front hfront rest rest'
  have hends : endsAttributeName (front ++ rest) = endsAttributeName (front ++ rest') := by
    rw [endsAttributeName, endsAttributeName, endsTagName_front hfront rest rest', hhead]
  have hdrop : ((front ++ rest).dropWhile isAsciiSpace).head? = ((front ++ rest').dropWhile isAsciiSpace).head? := by
    obtain ⟨c, hc, hgap⟩ := hfront
    have hleft : front.dropWhile isAsciiSpace ≠ [] := by
      intro hnil
      have hall := List.takeWhile_append_dropWhile (p := isAsciiSpace) (l := front)
      rw [hnil, List.append_nil] at hall
      exact hgap (Or.inl (List.all_eq_true.1 List.all_takeWhile c (hall.symm ▸ hc)))
    obtain ⟨d, left, hd⟩ := List.exists_cons_of_ne_nil hleft
    rw [List.dropWhile_append, List.dropWhile_append, hd]
    rfl
  unfold EndsBefore at h ⊢
  split
  · rename_i hvalue
    rw [hvalue] at h
    rwa [← hends, ← hhead, ← hdrop]
  · rename_i value hvalue
    rw [hvalue] at h
    rwa [← hhead]

theorem Listed.eq_of_nil {stream last : Stream} (h : Listed around stream [] last) : last = stream := by
  cases h
  rfl

/-- A list of attributes holds a character that is no gap. -/
theorem Listed.front {stream last : Stream} {reads : List ReadAttribute} {taken : List Char} (h : Listed around stream reads last)
    (hne : reads ≠ []) (htaken : stream.Reads taken last) : ∃ c ∈ taken, ¬TagGap c := by
  cases h with
  | none => exact absurd rfl hne
  | cons hgap _ hstart hread h =>
    rename_i here after gap read reads
    obtain ⟨name, hname, hreads⟩ := readAttribute_reads hstart hread
    obtain ⟨others, hothers⟩ := h.reads
    have hchars := ((hgap.trans hreads).trans hothers).chars.symm.trans htaken.chars
    rw [← List.append_cancel_right hchars]
    obtain ⟨c, hc, hc', -⟩ := hstart
    obtain ⟨a, name, rfl⟩ := List.exists_cons_of_ne_nil hname
    rw [hreads.chars] at hc
    obtain rfl : a = c := Option.some.inj hc
    exact ⟨a, by simp, hc'⟩

/-- Attributes are the same before another text that may follow the last of them. -/
theorem Listed.swap {stream last : Stream} {reads : List ReadAttribute} (h : Listed around stream reads last)
    {front rest rest' : List Char} (hchars : stream.chars = front ++ rest) (hlast : last.chars = rest) (hne : rest ≠ [])
    (hends : ∀ read ∈ reads.getLast?, ∀ taken, taken <:+ front → read.attr.EndsBefore taken rest →
      read.attr.EndsBefore taken rest') (hbracket : ']' ∈ rest' → ']' ∈ rest) :
    Listed around ⟨stream.offset, front ++ rest'⟩ reads ⟨last.offset, rest'⟩ := by
  induction h generalizing front with
  | none stream =>
    have hnil : front = [] := List.append_left_eq_self.1 (hchars.symm.trans hlast)
    rw [hnil]
    exact .none _
  | cons hgap hgaps hstart hread h ih =>
    rename_i stream here after last gap read reads
    obtain ⟨taken, hnonempty, htaken⟩ := readAttribute_reads hstart hread
    obtain ⟨others, hothers⟩ := h.reads
    have hafter : after.chars = others ++ rest := by rw [hothers.chars, hlast]
    have hhere : here = ⟨here.offset, taken ++ (others ++ rest)⟩ := congrArg (Stream.mk here.offset) (hafter ▸ htaken.chars)
    have hfront : front = gap ++ (taken ++ others) := by
      refine List.append_cancel_right (hchars.symm.trans ?_)
      rw [hgap.chars, htaken.chars, hafter]
      simp
    have hlisted := ih hafter hlast fun next hnext taken' htaken' =>
      hends next (by rw [List.getLast?_cons, show reads.getLast? = some next from hnext]; rfl) taken'
        (htaken'.trans ⟨gap ++ taken, by rw [hfront, List.append_assoc]⟩)
    have hstart' : StartsAttribute (taken ++ (others ++ rest)) := by rwa [hhere] at hstart
    have hread' : readAttribute around ⟨here.offset, taken ++ (others ++ rest)⟩ = (read, ⟨after.offset, others ++ rest⟩) := by
      rw [← hhere, ← hafter]
      exact hread
    have hbefore := readAttribute_endsBefore hstart' hread'
    have hbefore' : read.attr.EndsBefore taken (others ++ rest') := by
      cases reads with
      | cons next reads => exact hbefore.front (h.front (List.cons_ne_nil _ _) hothers) rest'
      | nil =>
        cases h
        obtain rfl : others = [] := List.append_left_eq_self.1 (hafter.symm.trans hlast)
        exact hends read rfl taken ⟨gap, by rw [hfront, List.append_nil]⟩ hbefore
    have hswap := readAttribute_swap hstart' (by simp [hne]) hread' hbefore' fun hmem =>
      List.mem_append.2 ((List.mem_append.1 hmem).imp_right hbracket)
    have hgap' : Stream.Reads ⟨stream.offset, front ++ rest'⟩ gap ⟨here.offset, taken ++ (others ++ rest')⟩ :=
      ⟨by simp [hfront], hgap.offset⟩
    refine .cons hgap' hgaps ?_ hswap hlisted
    obtain ⟨c, taken, rfl⟩ := List.exists_cons_of_ne_nil hnonempty
    exact hstart'

/-- The tail of a tag that ends is the same before any text. -/
theorem TagTail.swap {stream rest : Stream} {ending : TagEnd} (h : TagTail stream ending rest) (hne : rest.chars ≠ []) :
    ∃ taken, stream.Reads taken rest ∧ '>' ∈ taken ∧
      ∀ rest', TagTail ⟨stream.offset, taken ++ rest'⟩ ending ⟨rest.offset, rest'⟩ := by
  cases h with
  | plain hgap hgaps hlast hmark =>
    rename_i gap mark
    refine ⟨gap ++ ['>'], hgap.trans hmark, by simp, fun rest' => ?_⟩
    have hgap' : Stream.Reads ⟨stream.offset, gap ++ ['>'] ++ rest'⟩ gap ⟨mark.offset, '>' :: rest'⟩ :=
      ⟨by simp, hgap.offset⟩
    exact .plain hgap' hgaps hlast ⟨rfl, hmark.offset⟩
  | selfClosing hgap hgaps hmark =>
    rename_i gap mark
    refine ⟨gap ++ ['/', '>'], hgap.trans hmark, by simp, fun rest' => ?_⟩
    have hgap' : Stream.Reads ⟨stream.offset, gap ++ ['/', '>'] ++ rest'⟩ gap ⟨mark.offset, '/' :: '>' :: rest'⟩ :=
      ⟨by simp, hgap.offset⟩
    exact .selfClosing hgap' hgaps ⟨rfl, hmark.offset⟩
  | missing hgap hgaps hend => exact absurd hend hne

/-- A name and attributes are read with another tail behind them, if the tail may follow the last of them. -/
theorem readStartTag_retail {offset last : Nat} {name front rest rest' : List Char} {reads : List ReadAttribute} {ending : TagEnd}
    {after : Stream} (hname : tagName (name ++ (front ++ rest)) = (name, front ++ rest))
    (hlisted : Listed around ⟨offset + 1 + byteLength name, front ++ rest⟩ reads ⟨last, rest⟩) (hne : rest ≠ [])
    (htail : TagTail ⟨last, rest'⟩ ending after)
    (hbare : reads = [] → endsTagName rest' = true ∧ (name.getLast? = some '/' → rest'.head? ≠ some '>'))
    (hends : ∀ read ∈ reads.getLast?, ∀ taken, taken <:+ front → read.attr.EndsBefore taken rest →
      read.attr.EndsBefore taken rest') (hbracket : ']' ∈ rest' → ']' ∈ rest) :
    readStartTag around ⟨offset, '<' :: (name ++ (front ++ rest'))⟩ = (⟨name, offset, reads, ending, after.offset⟩, after) := by
  have hlisted' := hlisted.swap rfl rfl hne hends hbracket
  refine readStartTag_of_listed ?_ hlisted' htail
  by_cases hreads : reads = []
  · rw [hreads] at hlisted
    obtain rfl : front = [] := List.append_left_eq_self.1 (congrArg Stream.chars hlisted.eq_of_nil).symm
    exact tagName_swap hname (hbare hreads).1 (hbare hreads).2
  · obtain ⟨taken, htaken⟩ := hlisted.reads
    obtain rfl : taken = front := List.append_cancel_right htaken.chars.symm
    have hfront := hlisted.front hreads htaken
    have hends := tagName_ends (name ++ (taken ++ rest))
    have hslash := tagName_slash (name ++ (taken ++ rest))
    rw [hname] at hends hslash
    refine tagName_swap hname ?_ fun hlast => ?_
    · rw [← endsTagName_front hfront rest rest']
      exact hends
    · rw [← head?_front hfront rest rest']
      exact hslash hlast

/-- A start tag is the same before any text that holds no new closing bracket. -/
theorem readStartTag_swap {offset stop : Nat} {taken rest rest' : List Char} {tag : ReadTag} (hne : rest ≠ [])
    (hread : readStartTag around ⟨offset, '<' :: (taken ++ rest)⟩ = (tag, ⟨stop, rest⟩)) (hbracket : ']' ∈ rest' → ']' ∈ rest) :
    readStartTag around ⟨offset, '<' :: (taken ++ rest')⟩ = (tag, ⟨stop, rest'⟩) := by
  have happ := tagName_append (taken ++ rest)
  have hends := tagName_ends (taken ++ rest)
  have hslash := tagName_slash (taken ++ rest)
  obtain ⟨name, chars, hname⟩ : ∃ name chars, tagName (taken ++ rest) = (name, chars) := ⟨_, _, rfl⟩
  rw [hname] at happ hends hslash
  dsimp only at happ hends hslash
  rw [← happ] at hname hread
  obtain ⟨hrawName, hstart, hstop, ⟨last, lastChars⟩, hlisted, htail⟩ := readStartTag_listed around hname hread
  obtain ⟨front, hfront⟩ := hlisted.reads
  obtain ⟨tail, htaken, hmark, htail'⟩ := htail.swap hne
  obtain rfl : lastChars = tail ++ rest := htaken.chars
  obtain rfl : chars = front ++ (tail ++ rest) := hfront.chars
  have hanchor : ∃ c ∈ tail, ¬TagGap c := by
    refine ⟨'>', hmark, ?_⟩
    rintro (h | h) <;> cases h
  obtain rfl : taken = name ++ (front ++ tail) := by
    refine List.append_cancel_right (happ.symm.trans ?_)
    simp
  have hbare : tag.attributes = [] →
      endsTagName (tail ++ rest') = true ∧ (name.getLast? = some '/' → (tail ++ rest').head? ≠ some '>') := by
    intro hnone
    rw [hnone] at hlisted
    obtain rfl : front = [] := List.append_left_eq_self.1 (congrArg Stream.chars hlisted.eq_of_nil).symm
    rw [← endsTagName_front hanchor rest rest', ← head?_front hanchor rest rest']
    exact ⟨hends, hslash⟩
  have hresult := readStartTag_retail hname hlisted (by simp [hne]) (htail' rest') hbare
    (fun _ _ _ _ hbefore => hbefore.front hanchor rest')
    (fun hmem => List.mem_append.2 ((List.mem_append.1 hmem).imp_right hbracket))
  rw [show name ++ (front ++ tail) ++ rest' = name ++ (front ++ (tail ++ rest')) by simp, hresult]
  cases tag
  cases hrawName
  cases hstart
  cases hstop
  rfl

end Attributes

end Markup

end ComponentLint
