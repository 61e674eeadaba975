import ComponentLint.Proofs.Text.Blanks

/-!
# What a normal form keeps

A text is its solid characters, each with or without blanks in front of it (`spacedFrom`). The normal form
settles where blanks stay, which is between two words only (`settleFrom`), and writes the characters down again.
What is written is read back (`spacedFrom_spell`), so two texts have one normal form if and only if they are
settled alike: if they have the same solid characters and agree on the blanks between words (`normalize_exact`).
-/

namespace ComponentLint.Text

/-- The characters of a text that are not blank. -/
def solidChars (text : List Char) : List Char :=
  text.filter (!isSpace ·)

/-- Blanks stand behind the solid character number `place` of a text, in front of another one. -/
def GapBehind (text : List Char) (place : Nat) : Prop :=
  ∃ before c blanks d after, text = before ++ c :: (blanks ++ d :: after) ∧ (solidChars before).length = place ∧
    isSpace c = false ∧ isSpace d = false ∧ blanks ≠ [] ∧ ∀ blank ∈ blanks, isSpace blank = true

/-- Whether there is a character, one of a word and not blank. -/
def HasWordChar (found : Option Char) : Prop :=
  ∃ c ∈ found, isScriptWordChar c = true ∧ isSpace c = false

/-- A text without blanks at its ends, in which every blank is a single one between two characters of words. -/
structure Squeezed (text : List Char) : Prop where
  start : ∀ c ∈ text.head?, isSpace c = false
  stop : ∀ c ∈ text.getLast?, isSpace c = false
  between : ∀ before blank after, text = before ++ blank :: after → isSpace blank = true →
    blank = ' ' ∧ HasWordChar before.getLast? ∧ HasWordChar after.head?

/-- A solid character, and whether blanks stand in front of it. -/
structure Spaced where
  gap : Bool
  char : Char

/-- The solid characters of a text; `gap` when blanks stand in front of the text. -/
def spacedFrom (gap : Bool) : List Char → List Spaced
  | [] => []
  | c :: rest => if isSpace c then spacedFrom true rest else ⟨gap, c⟩ :: spacedFrom false rest

/-- Blanks stay only where two words would run together. -/
def settleFrom (last : Option Char) : List Spaced → List Spaced
  | [] => []
  | first :: rest => ⟨first.gap && joinsWord last first.char, first.char⟩ :: settleFrom (some first.char) rest

/-- The text of solid characters, with one blank where there are any. -/
def spell (chars : List Spaced) : List Char :=
  chars.flatMap fun first => if first.gap then [' ', first.char] else [first.char]

/-! ## Reading and writing solid characters -/

theorem squeeze_eq (last : Option Char) (gap : Bool) (text : List Char) :
    squeeze last gap text = spell (settleFrom last (spacedFrom gap text)) := by
  induction text generalizing last gap with
  | nil => rfl
  | cons c text ih =>
    rw [squeeze, spacedFrom]
    by_cases hspace : isSpace c = true
    · simp [hspace, ih]
    · by_cases hjoins : (gap && joinsWord last c) = true
      · simp [hspace, hjoins, ih, settleFrom, spell]
      · simp [hspace, hjoins, ih, settleFrom, spell]

theorem map_char_spacedFrom (gap : Bool) (text : List Char) : (spacedFrom gap text).map (·.char) = solidChars text := by
  induction text generalizing gap with
  | nil => rfl
  | cons c text ih =>
    rw [spacedFrom, solidChars]
    by_cases hspace : isSpace c = true
    · simp [hspace, ih, solidChars]
    · simp [hspace, ih, solidChars]

theorem map_char_settleFrom (last : Option Char) (chars : List Spaced) :
    (settleFrom last chars).map (·.char) = chars.map (·.char) := by
  induction chars generalizing last with
  | nil => rfl
  | cons first chars ih => simp [settleFrom, ih]

/-- What is written is read back. -/
theorem spacedFrom_spell {chars : List Spaced} (h : ∀ first ∈ chars, isSpace first.char = false) :
    spacedFrom false (spell chars) = chars := by
  induction chars with
  | nil => rfl
  | cons first chars ih =>
    obtain ⟨hfirst, hchars⟩ := List.forall_mem_cons.1 h
    obtain ⟨gap, c⟩ := first
    have hblank : isSpace ' ' = true := by decide
    have hrest := ih hchars
    rw [spell] at hrest
    cases gap with
    | true => simp [spell, spacedFrom, hblank, hfirst, hrest]
    | false => simp [spell, spacedFrom, hfirst, hrest]

/-- Settling twice is settling once. -/
theorem settleFrom_settleFrom (last : Option Char) (chars : List Spaced) :
    settleFrom last (settleFrom last chars) = settleFrom last chars := by
  induction chars generalizing last with
  | nil => rfl
  | cons first chars ih => simp [settleFrom, ih]

/-- The solid characters of a normal form are those of the text, settled. -/
theorem spacedFrom_normalize (text : List Char) :
    spacedFrom false (normalize text) = settleFrom none (spacedFrom false text) := by
  rw [normalize, squeeze_eq]
  refine spacedFrom_spell fun first hfirst => ?_
  have hmem := List.mem_map_of_mem (f := Spaced.char) hfirst
  rw [map_char_settleFrom, map_char_spacedFrom] at hmem
  simpa using (List.mem_filter.1 hmem).2

theorem normalize_eq_iff_settled (a b : List Char) :
    normalize a = normalize b ↔ settleFrom none (spacedFrom false a) = settleFrom none (spacedFrom false b) := by
  constructor
  · intro h
    rw [← spacedFrom_normalize, ← spacedFrom_normalize, h]
  · intro h
    rw [normalize, normalize, squeeze_eq, squeeze_eq, h]

theorem normalize_normalize (text : List Char) : normalize (normalize text) = normalize text := by
  rw [normalize_eq_iff_settled, spacedFrom_normalize, settleFrom_settleFrom]

/-! ## Places of gaps -/

theorem getElem?_solidChars (gap : Bool) (text : List Char) (place : Nat) :
    (solidChars text)[place]? = (spacedFrom gap text)[place]?.map (·.char) := by
  rw [← map_char_spacedFrom gap, List.getElem?_map]

theorem length_spacedFrom (gap : Bool) (text : List Char) : (spacedFrom gap text).length = (solidChars text).length := by
  rw [← map_char_spacedFrom gap, List.length_map]

/-- In front of a solid character stand blanks, and a solid character in front of them or nothing at all. -/
theorem exists_of_getElem?_spacedFrom {gap : Bool} {text : List Char} {place : Nat} {found : Spaced}
    (h : (spacedFrom gap text)[place]? = some found) :
    ∃ front blanks after, text = front ++ (blanks ++ found.char :: after) ∧ (solidChars front).length = place ∧
      (∀ c ∈ front.getLast?, isSpace c = false) ∧ isSpace found.char = false ∧ (∀ blank ∈ blanks, isSpace blank = true) ∧
      (found.gap = true ↔ blanks ≠ [] ∨ (gap = true ∧ front = [])) := by
  induction text generalizing gap place with
  | nil => simp [spacedFrom] at h
  | cons c text ih =>
    rw [spacedFrom] at h
    by_cases hspace : isSpace c = true
    · rw [if_pos hspace] at h
      obtain ⟨front, blanks, after, rfl, hplace, hlast, hfound, hblanks, hgap⟩ := ih h
      cases front with
      | nil => exact ⟨[], c :: blanks, after, rfl, hplace, nofun, hfound,
        List.forall_mem_cons.2 ⟨hspace, hblanks⟩, by simp [hgap]⟩
      | cons d front =>
        refine ⟨c :: d :: front, blanks, after, rfl, ?_, ?_, hfound, hblanks, by simp [hgap]⟩
        · simpa [solidChars, hspace] using hplace
        · simpa using hlast
    · rw [if_neg hspace] at h
      have hsolid : isSpace c = false := Bool.eq_false_iff.2 hspace
      cases place with
      | zero =>
        obtain rfl := Option.some.inj h
        exact ⟨[], [], text, rfl, rfl, nofun, hsolid, nofun, by simp⟩
      | succ place =>
        obtain ⟨front, blanks, after, rfl, hplace, hlast, hfound, hblanks, hgap⟩ := ih h
        refine ⟨c :: front, blanks, after, rfl, ?_, ?_, hfound, hblanks, by simp [hgap]⟩
        · simp [solidChars, hsolid] at hplace ⊢
          exact hplace
        · cases front with
          | nil => simpa using hsolid
          | cons d front => simpa using hlast

theorem spacedFrom_append_solid {c : Char} (hc : isSpace c = false) (gap : Bool) (before rest : List Char) :
    spacedFrom gap (before ++ c :: rest) = spacedFrom gap (before ++ [c]) ++ spacedFrom false rest := by
  induction before generalizing gap with
  | nil => simp [spacedFrom, hc]
  | cons d before ih =>
    rw [List.cons_append, List.cons_append, spacedFrom, spacedFrom]
    by_cases hspace : isSpace d = true
    · simp [hspace, ih]
    · simp [hspace, ih]

theorem spacedFrom_blanks {blanks : List Char} (h : ∀ blank ∈ blanks, isSpace blank = true) (gap : Bool) (rest : List Char) :
    spacedFrom gap (blanks ++ rest) = spacedFrom (gap || !blanks.isEmpty) rest := by
  induction blanks generalizing gap with
  | nil => simp
  | cons blank blanks ih =>
    obtain ⟨hblank, hblanks⟩ := List.forall_mem_cons.1 h
    simp [spacedFrom, hblank, ih hblanks]

/-- Where there are blanks behind a solid character, the next one has blanks in front of it. -/
theorem gapBehind_iff {text : List Char} {place : Nat} :
    GapBehind text place ↔ ∃ found, (spacedFrom false text)[place + 1]? = some found ∧ found.gap = true := by
  constructor
  · rintro ⟨before, c, blanks, d, after, rfl, rfl, hc, hd, hne, hblanks⟩
    have hlength : (spacedFrom false (before ++ [c])).length = (solidChars before).length + 1 := by
      rw [length_spacedFrom]
      simp [solidChars, hc]
    refine ⟨⟨true, d⟩, ?_, rfl⟩
    rw [spacedFrom_append_solid hc, List.getElem?_append_right (Nat.le_of_eq hlength), hlength, spacedFrom_blanks hblanks]
    simp [spacedFrom, hd, hne]
  · rintro ⟨found, hfound, hgap⟩
    obtain ⟨front, blanks, after, rfl, hplace, hlast, hsolid, hblanks, hiff⟩ := exists_of_getElem?_spacedFrom hfound
    rcases List.eq_nil_or_concat front with rfl | ⟨before, c, rfl⟩
    · cases hplace
    · have hc : isSpace c = false := hlast c (by simp)
      have hne : blanks ≠ [] := by simpa using hiff.1 hgap
      refine ⟨before, c, blanks, found.char, after, by simp, ?_, hc, hsolid, hne, hblanks⟩
      simpa [solidChars, hc] using hplace

/-! ## Settling place by place -/

theorem joinsWord_iff {last : Option Char} {c : Char} :
    joinsWord last c = true ↔ ∃ d ∈ last, isScriptWordChar d = true ∧ isScriptWordChar c = true := by
  cases last with
  | none => simp [joinsWord]
  | some d => simp [joinsWord]

/-- The first character is settled without blanks in front of it. -/
theorem getElem?_settleFrom_zero (chars : List Spaced) :
    (settleFrom none chars)[0]? = (chars[0]?.map (·.char)).map (⟨false, ·⟩) := by
  cases chars with
  | nil => rfl
  | cons first chars => simp [settleFrom, joinsWord]

/-- Every later character is settled by itself and the character in front of it. -/
theorem getElem?_settleFrom_succ (last : Option Char) (chars : List Spaced) (place : Nat) :
    (settleFrom last chars)[place + 1]? = chars[place + 1]?.map fun second =>
      ⟨second.gap && joinsWord (chars[place]?.map (·.char)) second.char, second.char⟩ := by
  induction chars generalizing last place with
  | nil => rfl
  | cons first chars ih =>
    rw [settleFrom, List.getElem?_cons_succ, List.getElem?_cons_succ]
    cases place with
    | zero => cases chars <;> rfl
    | succ place => exact ih (some first.char) place

/-- Texts that are settled alike have blanks between the same words. -/
theorem gapBehind_iff_of_settled {a b : List Char} (hchars : solidChars a = solidChars b)
    (h : settleFrom none (spacedFrom false a) = settleFrom none (spacedFrom false b)) {place : Nat} {c d : Char}
    (hc : (solidChars a)[place]? = some c) (hd : (solidChars a)[place + 1]? = some d) (hcword : isScriptWordChar c = true)
    (hdword : isScriptWordChar d = true) : GapBehind a place ↔ GapBehind b place := by
  have hjoins : joinsWord (some c) d = true := joinsWord_iff.2 ⟨c, rfl, hcword, hdword⟩
  have hplace := congrArg (·[place + 1]?) h
  simp only [getElem?_settleFrom_succ, ← getElem?_solidChars, ← hchars, hc] at hplace
  rw [getElem?_solidChars false] at hd
  obtain ⟨first, hfirst, rfl⟩ := Option.map_eq_some_iff.1 hd
  rw [hfirst, Option.map_some, hjoins, Bool.and_true] at hplace
  obtain ⟨second, hsecond, hsame⟩ := Option.map_eq_some_iff.1 hplace.symm
  obtain ⟨hgap, hchar⟩ := Spaced.mk.inj hsame
  rw [hchar, hjoins, Bool.and_true] at hgap
  rw [gapBehind_iff, gapBehind_iff, hfirst, hsecond]
  simp [hgap]

/-- Texts with the same solid characters and blanks between the same words are settled alike. -/
theorem settled_of_gapBehind_iff {a b : List Char} (hchars : solidChars a = solidChars b)
    (h : ∀ place c d, (solidChars a)[place]? = some c → (solidChars a)[place + 1]? = some d →
      isScriptWordChar c = true → isScriptWordChar d = true → (GapBehind a place ↔ GapBehind b place)) :
    settleFrom none (spacedFrom false a) = settleFrom none (spacedFrom false b) := by
  refine List.ext_getElem? fun place => ?_
  cases place with
  | zero => rw [getElem?_settleFrom_zero, getElem?_settleFrom_zero, ← getElem?_solidChars, ← getElem?_solidChars, hchars]
  | succ place =>
    rw [getElem?_settleFrom_succ, getElem?_settleFrom_succ, ← getElem?_solidChars, ← getElem?_solidChars, ← hchars]
    have hsame := congrArg (·[place + 1]?) hchars
    simp only [getElem?_solidChars false] at hsame
    cases hfirst : (spacedFrom false a)[place + 1]? with
    | none =>
      rw [hfirst, Option.map_none, eq_comm, Option.map_eq_none_iff] at hsame
      rw [hsame]
    | some first =>
      rw [hfirst, Option.map_some, eq_comm] at hsame
      obtain ⟨second, hsecond, hchar⟩ := Option.map_eq_some_iff.1 hsame
      rw [hsecond, Option.map_some, Option.map_some, hchar]
      -- Only between words does it matter whether there are blanks.
      cases hjoins : joinsWord (solidChars a)[place]? first.char with
      | false => simp
      | true =>
        obtain ⟨c, hc, hcword, hdword⟩ := joinsWord_iff.1 hjoins
        have hd : (solidChars a)[place + 1]? = some first.char := by rw [getElem?_solidChars false, hfirst]; rfl
        have hgaps := h place c first.char hc hd hcword hdword
        rw [gapBehind_iff, gapBehind_iff, hfirst, hsecond] at hgaps
        simp only [Option.some.injEq, exists_eq_left'] at hgaps
        rw [Bool.eq_iff_iff.2 hgaps]

/-! ## The form of a normal form -/

theorem HasWordChar.or {found : Option Char} (h : HasWordChar found) (other : Option Char) : HasWordChar (found.or other) := by
  obtain ⟨c, hc, hword⟩ := h
  exact ⟨c, by simp [Option.mem_def.1 hc], hword⟩

/-- A blank that is written stands between two words; `last` is the solid character in front of what is written. -/
theorem blank_of_squeeze {last : Option Char} {gap : Bool} {text before : List Char} {blank : Char} {after : List Char}
    (hlast : ∀ c ∈ last, isSpace c = false) (h : squeeze last gap text = before ++ blank :: after)
    (hblank : isSpace blank = true) : blank = ' ' ∧ HasWordChar (before.getLast?.or last) ∧ HasWordChar after.head? := by
  induction text generalizing last gap before with
  | nil => simp [squeeze] at h
  | cons c text ih =>
    rw [squeeze] at h
    by_cases hspace : isSpace c = true
    · rw [if_pos hspace] at h
      exact ih hlast h
    · have hsolid : isSpace c = false := Bool.eq_false_iff.2 hspace
      rw [if_neg hspace] at h
      -- What is written from the character on starts with it, so a blank stands behind it.
      have hbehind : ∀ {front}, c :: squeeze (some c) false text = front ++ blank :: after →
          blank = ' ' ∧ HasWordChar front.getLast? ∧ HasWordChar after.head? := by
        intro front hwritten
        cases front with
        | nil =>
          obtain ⟨rfl, -⟩ := List.cons.inj hwritten
          exact absurd hblank hspace
        | cons d front =>
          obtain ⟨rfl, hrest⟩ := List.cons.inj hwritten
          have hnext := ih (by rintro d ⟨⟩; exact hsolid) hrest
          rwa [Option.or_some, ← List.getLast?_cons] at hnext
      by_cases hjoins : (gap && joinsWord last c) = true
      · rw [if_pos hjoins] at h
        obtain ⟨d, hd, hdword, hcword⟩ := joinsWord_iff.1 (Bool.and_eq_true_iff.1 hjoins).2
        cases before with
        | nil =>
          obtain ⟨rfl, rfl⟩ := List.cons.inj h
          exact ⟨rfl, ⟨d, hd, hdword, hlast d hd⟩, ⟨c, rfl, hcword, hsolid⟩⟩
        | cons space before =>
          obtain ⟨hspace, hbefore, hafter⟩ := hbehind (List.cons.inj h).2
          rw [List.getLast?_cons, ← Option.or_some]
          exact ⟨hspace, (hbefore.or _).or _, hafter⟩
      · rw [if_neg hjoins] at h
        obtain ⟨hspace, hbefore, hafter⟩ := hbehind h
        exact ⟨hspace, hbefore.or _, hafter⟩

theorem squeezed_normalize (text : List Char) : Squeezed (normalize text) := by
  have hbetween : ∀ before blank after, normalize text = before ++ blank :: after → isSpace blank = true →
      blank = ' ' ∧ HasWordChar before.getLast? ∧ HasWordChar after.head? := by
    intro before blank after hwritten hblank
    have hlast : ∀ c ∈ (none : Option Char), isSpace c = false := nofun
    have hwords := blank_of_squeeze hlast hwritten hblank
    rwa [Option.or_none] at hwords
  refine ⟨fun c hc => ?_, fun c hc => ?_, hbetween⟩
  · rw [← Bool.not_eq_true]
    intro hblank
    obtain ⟨rest, hrest⟩ := List.head?_eq_some_iff.1 hc
    obtain ⟨-, ⟨d, hd, -⟩, -⟩ := hbetween [] c rest hrest hblank
    cases hd
  · rw [← Bool.not_eq_true]
    intro hblank
    obtain ⟨front, hfront⟩ := List.getLast?_eq_some_iff.1 hc
    obtain ⟨-, -, ⟨d, hd, -⟩⟩ := hbetween front c [] hfront hblank
    cases hd

/-- Two texts have one normal form if and only if they have the same solid characters and agree on the blanks between words. A
normal form is its own normal form; it has no blanks at its ends, and inside it single ones between words. -/
theorem normalize_exact :
    (∀ a b, normalize a = normalize b ↔ solidChars a = solidChars b ∧
      ∀ place c d, (solidChars a)[place]? = some c → (solidChars a)[place + 1]? = some d →
        isScriptWordChar c = true → isScriptWordChar d = true → (GapBehind a place ↔ GapBehind b place)) ∧
    ∀ text, normalize (normalize text) = normalize text ∧ Squeezed (normalize text) := by
  refine ⟨fun a b => ?_, fun text => ⟨normalize_normalize text, squeezed_normalize text⟩⟩
  rw [normalize_eq_iff_settled]
  constructor
  · intro h
    have hchars : solidChars a = solidChars b := by
      rw [← map_char_spacedFrom false a, ← map_char_spacedFrom false b, ← map_char_settleFrom none, h, map_char_settleFrom]
    exact ⟨hchars, fun place c d hc hd hcword hdword => gapBehind_iff_of_settled hchars h hc hd hcword hdword⟩
  · rintro ⟨hchars, hgaps⟩
    exact settled_of_gapBehind_iff hchars hgaps

example : normalize " a  ||\n\tb in c ".toList = "a||b in c".toList := by decide

end ComponentLint.Text
