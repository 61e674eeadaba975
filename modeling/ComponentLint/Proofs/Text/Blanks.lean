import ComponentLint.Proofs.Text.Positions
import ComponentLint.Text.Normal

/-!
# Blanks of a text

A text that is not blank has blanks, what starts and ends with something else, and blanks (`Framed`). Trimming it takes the blanks
away, so it does not matter which blanks they are. A normal form has the characters of its text that are not blank, in their order
(`filter_normalize`). It is made apart on the two sides of a mark that is in no word (`squeeze_mark`), so what stands between two
quotes has the normal form that it has alone.
-/

namespace ComponentLint.Text

theorem byteLength_trimStart (text : List Char) : byteLength (trimStart text) ≤ byteLength text := by
  have happ := congrArg byteLength (List.takeWhile_append_dropWhile (p := isSpace) (l := text))
  rw [byteLength_append] at happ
  exact Nat.le_trans (Nat.le_add_left _ _) (Nat.le_of_eq happ)

theorem byteLength_trimEnd (text : List Char) : byteLength (trimEnd text) ≤ byteLength text := by
  have happ := congrArg byteLength (trimEnd_append text)
  rw [byteLength_append] at happ
  omega

theorem trimStart_append {lead rest : List Char}
    (hlead : ∀ c ∈ lead, isSpace c = true) (hfirst : ∀ c ∈ rest.head?, isSpace c = false) :
    trimStart (lead ++ rest) = rest :=
  (takeWhile_run hlead hfirst).2

theorem trimEnd_blank {front trail : List Char}
    (htrail : ∀ c ∈ trail, isSpace c = true) (hlast : ∀ c ∈ front.getLast?, isSpace c = false) :
    trimEnd (front ++ trail) = front := by
  have hreverse := @trimStart_append trail.reverse front.reverse (fun c hc => htrail c (List.mem_reverse.1 hc))
    (by rw [List.head?_reverse]; exact hlast)
  rw [trimEnd, List.reverse_append, ← trimStart, hreverse, List.reverse_reverse]

theorem isSpace_of_mem_takeWhile {text : List Char} {c : Char} (h : c ∈ text.takeWhile isSpace) : isSpace c = true :=
  List.all_eq_true.1 (List.all_takeWhile) c h

/-- A text in three parts: blanks, what starts and ends with something else, and blanks. -/
structure Framed (text lead core trail : List Char) : Prop where
  text_eq : text = lead ++ (core ++ trail)
  leads : ∀ c ∈ lead, isSpace c = true
  trails : ∀ c ∈ trail, isSpace c = true
  nonempty : core ≠ []
  first : ∀ c ∈ core.head?, isSpace c = false
  last : ∀ c ∈ core.getLast?, isSpace c = false

namespace Framed

variable {text lead core trail : List Char}

theorem trimStart_eq (h : Framed text lead core trail) : trimStart text = core ++ trail := by
  rw [h.text_eq, trimStart_append h.leads]
  intro c hc
  obtain ⟨d, core, rfl⟩ := List.exists_cons_of_ne_nil h.nonempty
  exact h.first c hc

theorem trimEnd_eq (h : Framed text lead core trail) : trimEnd text = lead ++ core := by
  rw [h.text_eq, ← List.append_assoc, trimEnd_blank h.trails]
  intro c hc
  rw [List.getLast?_append, List.getLast?_eq_some_getLast h.nonempty, Option.some_or, ← List.getLast?_eq_some_getLast] at hc
  exact h.last c hc

theorem trim_eq (h : Framed text lead core trail) : trim text = core := by
  rw [trim, h.trimStart_eq, trimEnd_blank h.trails h.last]

theorem takeWhile_eq (h : Framed text lead core trail) : text.takeWhile isSpace = lead := by
  obtain ⟨c, core, rfl⟩ := List.exists_cons_of_ne_nil h.nonempty
  rw [h.text_eq, List.takeWhile_append_of_pos h.leads, List.cons_append, List.takeWhile_cons, h.first c rfl, if_neg nofun,
    List.append_nil]

/-- A text read backwards has the same parts, backwards. -/
theorem reverse (h : Framed text lead core trail) : Framed text.reverse trail.reverse core.reverse lead.reverse where
  text_eq := by rw [h.text_eq]; simp
  leads c hc := h.trails c (List.mem_reverse.1 hc)
  trails c hc := h.leads c (List.mem_reverse.1 hc)
  nonempty := mt List.reverse_eq_nil_iff.1 h.nonempty
  first := by rw [List.head?_reverse]; exact h.last
  last := by rw [List.getLast?_reverse]; exact h.first

theorem takeWhile_reverse_eq (h : Framed text lead core trail) : text.reverse.takeWhile isSpace = trail.reverse :=
  h.reverse.takeWhile_eq

theorem isBlank_eq (h : Framed text lead core trail) : isBlank text = false := by
  obtain ⟨c, core, rfl⟩ := List.exists_cons_of_ne_nil h.nonempty
  rw [h.text_eq, isBlank, List.all_append, List.all_append, List.all_cons, h.first c rfl]
  simp

/-- The text between the blanks can get others. -/
theorem reframe (h : Framed text lead core trail) {lead' trail' : List Char} (hlead : ∀ c ∈ lead', isSpace c = true)
    (htrail : ∀ c ∈ trail', isSpace c = true) : Framed (lead' ++ (core ++ trail')) lead' core trail' :=
  ⟨rfl, hlead, htrail, h.nonempty, h.first, h.last⟩

end Framed

/-- Every text that is not blank has three such parts. -/
theorem exists_framed {text : List Char} (h : isBlank text = false) : ∃ lead core trail, Framed text lead core trail := by
  have hlead : text.takeWhile isSpace ++ trimStart text = text := List.takeWhile_append_dropWhile
  have htrail := trimEnd_append (trimStart text)
  have hstart : ∀ {rest : List Char}, ∀ c ∈ (rest.dropWhile isSpace).head?, isSpace c = false := by
    intro rest c hc
    have hhead := List.head?_dropWhile_not isSpace rest
    rw [hc] at hhead
    simpa using hhead
  have hnonempty : trim text ≠ [] := by
    intro hnil
    rw [← trim, hnil, List.nil_append] at htrail
    have hall : text.all isSpace = true := by
      rw [← hlead, ← htrail]
      refine List.all_eq_true.2 fun c hc => ?_
      rcases List.mem_append.1 hc with hc | hc
      · exact isSpace_of_mem_takeWhile hc
      · exact isSpace_of_mem_takeWhile (List.mem_reverse.1 hc)
    rw [isBlank, hall] at h
    cases h
  refine ⟨text.takeWhile isSpace, trim text, ((trimStart text).reverse.takeWhile isSpace).reverse, ?_,
    fun c hc => isSpace_of_mem_takeWhile hc, fun c hc => isSpace_of_mem_takeWhile (List.mem_reverse.1 hc), hnonempty,
    fun c hc => ?_, fun c hc => ?_⟩
  · rw [trim, htrail, hlead]
  · refine @hstart text c ?_
    obtain ⟨d, core, hcore⟩ := List.exists_cons_of_ne_nil hnonempty
    rw [← trimStart, ← htrail, ← trim, hcore]
    rwa [hcore] at hc
  · rw [trim, trimEnd, List.getLast?_reverse] at hc
    exact hstart c hc

/-! ## Normal forms -/

theorem filter_squeeze (last : Option Char) (gap : Bool) (text : List Char) :
    (squeeze last gap text).filter (!isSpace ·) = text.filter (!isSpace ·) := by
  induction text generalizing last gap with
  | nil => rfl
  | cons c text ih =>
    have hblank : isSpace ' ' = true := by decide
    rw [squeeze]
    by_cases hspace : isSpace c = true
    · simp [hspace, ih]
    · by_cases hjoins : (gap && joinsWord last c) = true
      · simp [hspace, hjoins, hblank, ih]
      · simp [hspace, hjoins, ih]

/-- A text and its normal form differ in blanks only. -/
theorem filter_normalize (text : List Char) : (normalize text).filter (!isSpace ·) = text.filter (!isSpace ·) :=
  filter_squeeze none false text

/-- A text without blanks is its own normal form. -/
theorem normalize_eq_self {text : List Char} (h : ∀ c ∈ text, isSpace c = false) : normalize text = text := by
  have hsqueeze : ∀ last, squeeze last false text = text := by
    induction text with
    | nil => exact fun _ => rfl
    | cons c text ih =>
      obtain ⟨hc, htext⟩ := List.forall_mem_cons.1 h
      intro last
      simp [squeeze, hc, ih htext]
  exact hsqueeze none

/-- Behind a character that is in no word a text has the normal form that it has alone. -/
theorem squeeze_behind {last : Option Char} (h : last.any isScriptWordChar = false) (gap : Bool) (text : List Char) :
    squeeze last gap text = squeeze none gap text := by
  induction text generalizing gap with
  | nil => rfl
  | cons c text ih =>
    have hjoins : joinsWord last c = joinsWord none c := by simp [joinsWord, h]
    rw [squeeze, squeeze, hjoins, ih]

/-- A mark that is in no word parts the normal form. -/
theorem squeeze_mark {mark : Char} (hspace : isSpace mark = false) (hword : isScriptWordChar mark = false) (last : Option Char)
    (gap : Bool) (text rest : List Char) :
    squeeze last gap (text ++ mark :: rest) = squeeze last gap text ++ mark :: normalize rest := by
  have hbehind : squeeze (some mark) false rest = normalize rest := squeeze_behind (by simpa using hword) false rest
  induction text generalizing last gap with
  | nil => simp [squeeze, hspace, joinsWord, hword, hbehind]
  | cons c text ih =>
    rw [List.cons_append, squeeze, squeeze]
    by_cases hc : isSpace c = true
    · simp [hc, ih]
    · by_cases hjoins : (gap && joinsWord last c) = true
      · simp [hc, hjoins, ih]
      · simp [hc, hjoins, ih]

/-- What stands between two marks that are in no word has a part of its own in the normal form. -/
theorem normalize_between {mark : Char} (hspace : isSpace mark = false) (hword : isScriptWordChar mark = false)
    (front text : List Char) :
    normalize (front ++ mark :: (text ++ [mark])) = normalize front ++ mark :: (normalize text ++ [mark]) := by
  have hrest : normalize (text ++ [mark]) = normalize text ++ [mark] := squeeze_mark hspace hword none false text []
  rw [normalize, squeeze_mark hspace hword, hrest]
  rfl

end ComponentLint.Text
