import ComponentLint.Proofs.Text.Occurrences
import ComponentLint.Text.Case

/-!
# Names in a style

What the two forms of a name are made of, and when they follow their styles. A name of ASCII letters, digits and separators is
always put in camel case (`isCamelCase_toCamelCase`). Kebab case turns every separator into a hyphen where it stands, so it comes
out right only if none stands at the start and no two stand side by side (`isKebabCase_toKebabCase`).
-/

namespace ComponentLint.Text

/-- What separates the words of a name. -/
def isSeparator (c : Char) : Bool :=
  c == '-' || c == '_'

/-- What the names of the two styles, and of those with low lines, are made of. -/
def isNameChar (c : Char) : Bool :=
  c.isAlphanum || isSeparator c

/-- A name without a separator at its start, and with no two side by side. -/
structure WellSeparated (name : List Char) : Prop where
  start : ∀ c ∈ name.head?, isSeparator c = false
  apart : name.IsChain fun a b => isSeparator a = false ∨ isSeparator b = false

instance (name : List Char) : Decidable (WellSeparated name) :=
  decidable_of_iff (name.head?.all (!isSeparator ·) = true ∧ name.IsChain fun a b =>
    isSeparator a = false ∨ isSeparator b = false)
    ⟨fun h => ⟨by simpa [Option.all_eq_true] using h.1, h.2⟩, fun h => ⟨by simpa [Option.all_eq_true] using h.start, h.apart⟩⟩

/-! ## Characters -/

/-- What holds of all codes up to 127 holds of the characters of the ASCII range. -/
theorem ascii_forall {P : Char → Prop} (h : ∀ code < 128, P (Char.ofNat code)) {c : Char} (hc : isAscii c = true) : P c := by
  have hcode := h c.toNat (of_decide_eq_true hc)
  rwa [Char.ofNat_toNat] at hcode

theorem isAscii_of_isAlphanum {c : Char} (h : c.isAlphanum = true) : isAscii c = true := by
  have halphanum : c.isAlphanum = ((decide (65 ≤ c.val ∧ c.val ≤ 90) || (decide (97 ≤ c.val) && decide (c.val ≤ 122))) ||
      (decide (48 ≤ c.val) && decide (c.val ≤ 57))) := rfl
  have hascii : c.val.toNat < 128 := by
    simp only [halphanum, Bool.or_eq_true, Bool.and_eq_true, decide_eq_true_eq, UInt32.le_iff_toNat_le,
      UInt32.reduceToNat] at h
    omega
  exact decide_eq_true hascii

theorem isAscii_of_isNameChar {c : Char} (h : isNameChar c = true) : isAscii c = true := by
  rcases Bool.or_eq_true_iff.1 h with h | h
  · exact isAscii_of_isAlphanum h
  · rcases Bool.or_eq_true_iff.1 h with h | h <;> rw [eq_of_beq h] <;> rfl

theorem toLowerCase_ascii {c : Char} (h : isAscii c = true) : toLowerCase c = [c.toLower] :=
  if_pos h

theorem toUpperCase_ascii {c : Char} (h : isAscii c = true) : toUpperCase c = [c.toUpper] :=
  if_pos h

/-- What raising and lowering make of a character, and what the styles admit of it. -/
structure Styled (c : Char) : Prop where
  plain : isNameChar c = true → nameSymbols.contains c = false ∧ isSpace c = false
  isUppercase_toLower : isUppercase c.toLower = false
  toLower_eq : isUppercase c = false → c.toLower = c
  isSeparator_toLower : isSeparator c.toLower = isSeparator c
  isAlphanum_toLower : c.isAlphanum = true → c.toLower.isAlphanum = true
  isAlphanum_toUpper : c.isAlphanum = true → c.toUpper.isAlphanum = true

instance (c : Char) : Decidable (Styled c) :=
  decidable_of_iff
    ((isNameChar c = true → nameSymbols.contains c = false ∧ isSpace c = false) ∧ isUppercase c.toLower = false ∧
      (isUppercase c = false → c.toLower = c) ∧ isSeparator c.toLower = isSeparator c ∧
      (c.isAlphanum = true → c.toLower.isAlphanum = true) ∧ (c.isAlphanum = true → c.toUpper.isAlphanum = true))
    ⟨fun ⟨h1, h2, h3, h4, h5, h6⟩ => ⟨h1, h2, h3, h4, h5, h6⟩, fun ⟨h1, h2, h3, h4, h5, h6⟩ => ⟨h1, h2, h3, h4, h5, h6⟩⟩

theorem styled {c : Char} (h : isAscii c = true) : Styled c :=
  ascii_forall (by decide +kernel) h

/-- What no separator has is had by other characters only. -/
theorem isSeparator_eq_false_of {P : Char → Bool} (hhyphen : P '-' = false) (hline : P '_' = false) {c : Char} (h : P c = true) :
    isSeparator c = false := by
  refine Bool.or_eq_false_iff.2 ⟨beq_eq_false_iff_ne.2 ?_, beq_eq_false_iff_ne.2 ?_⟩
  · rintro rfl
    exact Bool.false_ne_true (hhyphen.symm.trans h)
  · rintro rfl
    exact Bool.false_ne_true (hline.symm.trans h)

theorem isSeparator_of_isUppercase {c : Char} (h : isUppercase c = true) : isSeparator c = false :=
  isSeparator_eq_false_of (P := isUppercase) rfl rfl h

theorem isSeparator_of_isAlphanum {c : Char} (h : c.isAlphanum = true) : isSeparator c = false :=
  isSeparator_eq_false_of (P := Char.isAlphanum) rfl rfl h

theorem isNameChar_toLower {c : Char} (h : isNameChar c = true) (hc : c ≠ '_') :
    isNameChar c.toLower = true ∧ isUppercase c.toLower = false ∧ c.toLower ≠ '_' := by
  have hstyled := styled (isAscii_of_isNameChar h)
  refine ⟨?_, hstyled.isUppercase_toLower, fun hline => ?_⟩
  · rcases Bool.or_eq_true_iff.1 h with h | h
    · exact Bool.or_eq_true_iff.2 (.inl (hstyled.isAlphanum_toLower h))
    · exact Bool.or_eq_true_iff.2 (.inr (hstyled.isSeparator_toLower.trans h))
  · -- A character that becomes a separator is one, so it is no capital and has not changed.
    have hseparator : isSeparator c = true := by rw [← hstyled.isSeparator_toLower, hline]; rfl
    have hcapital : isUppercase c = false := by
      rw [← Bool.not_eq_true]
      exact fun h => Bool.false_ne_true ((isSeparator_of_isUppercase h).symm.trans hseparator)
    exact hc ((hstyled.toLower_eq hcapital).symm.trans hline)

/-! ## Camel case -/

section Camel

variable {name : List Char}

/-- A name in camel case is made of the letters and digits of the name, some of them raised or lowered. -/
theorem mem_camelFrom (h : ∀ c ∈ name, isAscii c = true) {started raised : Bool} {c : Char}
    (hc : c ∈ camelFrom started raised name) :
    ∃ old ∈ name, isSeparator old = false ∧ (c = old ∨ c = old.toUpper ∨ c = old.toLower) := by
  induction name generalizing started raised with
  | nil => cases hc
  | cons first rest ih =>
    obtain ⟨hfirst, hrest⟩ := List.forall_mem_cons.1 h
    have hlater : ∀ {started raised}, c ∈ camelFrom started raised rest →
        ∃ old ∈ first :: rest, isSeparator old = false ∧ (c = old ∨ c = old.toUpper ∨ c = old.toLower) := by
      intro started raised hmem
      obtain ⟨old, hold, hform⟩ := ih hrest hmem
      exact ⟨old, List.mem_cons_of_mem _ hold, hform⟩
    rw [camelFrom] at hc
    split at hc
    · exact hlater hc
    · next hseparator =>
      have hplain : isSeparator first = false := Bool.eq_false_iff.2 hseparator
      split at hc
      · rw [toUpperCase_ascii hfirst, List.singleton_append, List.mem_cons] at hc
        exact hc.elim (fun heq => ⟨first, List.mem_cons_self, hplain, .inr (.inl heq)⟩) hlater
      · split at hc
        · exact (List.mem_cons.1 hc).elim (fun heq => ⟨first, List.mem_cons_self, hplain, .inl heq⟩) hlater
        · rw [toLowerCase_ascii hfirst, List.singleton_append, List.mem_cons] at hc
          exact hc.elim (fun heq => ⟨first, List.mem_cons_self, hplain, .inr (.inr heq)⟩) hlater

/-- What is written first is lowered. -/
theorem head_toCamelCase (h : ∀ c ∈ name, isAscii c = true) : ∀ c ∈ (toCamelCase name).head?, isUppercase c = false := by
  induction name with
  | nil => nofun
  | cons first rest ih =>
    obtain ⟨hfirst, hrest⟩ := List.forall_mem_cons.1 h
    rw [toCamelCase, camelFrom]
    split
    · exact ih hrest
    · rw [if_neg Bool.false_ne_true, if_neg Bool.false_ne_true, toLowerCase_ascii hfirst]
      rintro c ⟨⟩
      exact (styled hfirst).isUppercase_toLower

/-- Only letters and digits are left of a name. -/
theorem isAlphanum_of_mem_toCamelCase (h : ∀ c ∈ name, isNameChar c = true) : ∀ c ∈ toCamelCase name, c.isAlphanum = true := by
  intro c hc
  obtain ⟨old, hold, hseparator, hform⟩ := mem_camelFrom (fun c hc => isAscii_of_isNameChar (h c hc)) hc
  have halphanum : old.isAlphanum = true := by simpa [isNameChar, hseparator] using h old hold
  rcases hform with rfl | rfl | rfl
  · exact halphanum
  · exact (styled (isAscii_of_isAlphanum halphanum)).isAlphanum_toUpper halphanum
  · exact (styled (isAscii_of_isAlphanum halphanum)).isAlphanum_toLower halphanum

/-- The camel case of a name is in camel case. -/
theorem isCamelCase_toCamelCase (h : ∀ c ∈ name, isNameChar c = true) : isCamelCase (toCamelCase name) = true := by
  have halphanum := isAlphanum_of_mem_toCamelCase h
  have hplain : ∀ c ∈ toCamelCase name, nameSymbols.contains c = false ∧ isSpace c = false :=
    fun c hc => (styled (isAscii_of_isAlphanum (halphanum c hc))).plain (Bool.or_eq_true_iff.2 (.inl (halphanum c hc)))
  have hhead := head_toCamelCase fun c hc => isAscii_of_isNameChar (h c hc)
  simp only [isCamelCase, hasSymbols, Bool.and_eq_true, Bool.not_eq_true', List.any_eq_false, Bool.not_eq_true]
  refine ⟨⟨⟨fun c hc => (hplain c hc).1, fun c hc => hhead c ?_⟩, fun c hc => ?_⟩, fun c hc => (hplain c hc).2⟩
  · rw [List.take_one] at hc
    exact Option.mem_toList.1 hc
  · exact isSeparator_of_isAlphanum (halphanum c hc)

end Camel

/-! ## Kebab case -/

section Kebab

variable {name : List Char}

/-- A name in kebab case is made of hyphens and the characters of the name, lowered. -/
theorem mem_kebabFrom (h : ∀ c ∈ name, isAscii c = true) {joined : Bool} {c : Char} (hc : c ∈ kebabFrom joined name) :
    c = '-' ∨ ∃ old ∈ name, old ≠ '_' ∧ c = old.toLower := by
  induction name generalizing joined with
  | nil => cases hc
  | cons first rest ih =>
    obtain ⟨hfirst, hrest⟩ := List.forall_mem_cons.1 h
    have hlater : ∀ {joined}, c ∈ kebabFrom joined rest → c = '-' ∨ ∃ old ∈ first :: rest, old ≠ '_' ∧ c = old.toLower := by
      intro joined hmem
      exact (ih hrest hmem).imp_right fun ⟨old, hold, hform⟩ => ⟨old, List.mem_cons_of_mem _ hold, hform⟩
    rw [kebabFrom] at hc
    split at hc
    · exact (List.mem_cons.1 hc).elim .inl hlater
    · next hline =>
      have hother : first ≠ '_' := fun heq => hline (beq_iff_eq.2 heq)
      split at hc
      · rw [toLowerCase_ascii hfirst, List.mem_append, List.mem_append, List.mem_singleton] at hc
        rcases hc with (hhyphen | heq) | hmem
        · split at hhyphen
          · cases hhyphen
          · exact .inl (List.mem_singleton.1 hhyphen)
        · exact .inr ⟨first, List.mem_cons_self, hother, heq⟩
        · exact hlater hmem
      · next hcapital =>
        have hlower := (styled hfirst).toLower_eq (Bool.eq_false_iff.2 hcapital)
        exact (List.mem_cons.1 hc).elim (fun heq => .inr ⟨first, List.mem_cons_self, hother, heq.trans hlower.symm⟩) hlater

/-- Only lowered letters, digits and hyphens are left of a name. -/
theorem of_mem_toKebabCase (h : ∀ c ∈ name, isNameChar c = true) :
    ∀ c ∈ toKebabCase name, isNameChar c = true ∧ isUppercase c = false ∧ c ≠ '_' := by
  intro c hc
  obtain rfl | ⟨old, hold, hline, rfl⟩ := mem_kebabFrom (fun c hc => isAscii_of_isNameChar (h c hc)) hc
  · decide
  · exact isNameChar_toLower (h old hold) hline

/-- Behind a separator, and at the start, only a separator is written as a hyphen. -/
theorem head_kebabFrom (h : ∀ c ∈ name, isAscii c = true) :
    (∀ c ∈ (kebabFrom true name).head?, c ≠ '-') ↔ ∀ c ∈ name.head?, isSeparator c = false := by
  cases name with
  | nil => exact ⟨nofun, nofun⟩
  | cons first rest =>
    have hfirst := h first List.mem_cons_self
    rw [kebabFrom]
    split
    · next hline =>
      rw [eq_of_beq hline]
      simp [isSeparator]
    · next hline =>
      split
      · next hcapital =>
        have hseparator := isSeparator_of_isUppercase hcapital
        have hlower : first.toLower ≠ '-' := by
          intro heq
          rw [← (styled hfirst).isSeparator_toLower, heq] at hseparator
          cases hseparator
        rw [toLowerCase_ascii hfirst]
        simp [hseparator, hlower]
      · have hother : first ≠ '_' := fun heq => hline (beq_iff_eq.2 heq)
        simp [isSeparator, hother]

/-- Hyphens stand side by side where separators do. -/
theorem isChain_kebabFrom (h : ∀ c ∈ name, isAscii c = true) (joined : Bool) :
    (kebabFrom joined name).IsChain (fun a b => a ≠ '-' ∨ b ≠ '-') ↔
      name.IsChain fun a b => isSeparator a = false ∨ isSeparator b = false := by
  induction name generalizing joined with
  | nil => exact iff_of_true .nil .nil
  | cons first rest ih =>
    obtain ⟨hfirst, hrest⟩ := List.forall_mem_cons.1 h
    -- What a separator makes of a name and what it is in the name depend on the same neighbours.
    have hhyphen : isSeparator first = true → (('-' :: kebabFrom true rest).IsChain (fun a b => a ≠ '-' ∨ b ≠ '-') ↔
        (first :: rest).IsChain fun a b => isSeparator a = false ∨ isSeparator b = false) := by
      intro hseparator
      rw [List.isChain_cons, List.isChain_cons, ih hrest]
      simpa [hseparator] using fun _ => head_kebabFrom hrest
    have hother : ∀ {c}, c ≠ '-' → isSeparator first = false →
        ((c :: kebabFrom false rest).IsChain (fun a b => a ≠ '-' ∨ b ≠ '-') ↔
        (first :: rest).IsChain fun a b => isSeparator a = false ∨ isSeparator b = false) := by
      intro c hc hseparator
      rw [List.isChain_cons, List.isChain_cons, ih hrest]
      simp [hc, hseparator]
    rw [kebabFrom]
    split
    · next hline => exact hhyphen (by rw [eq_of_beq hline]; rfl)
    · next hline =>
      split
      · next hcapital =>
        have hseparator := isSeparator_of_isUppercase hcapital
        have hlower : first.toLower ≠ '-' := by
          intro heq
          rw [← (styled hfirst).isSeparator_toLower, heq] at hseparator
          cases hseparator
        rw [toLowerCase_ascii hfirst, List.append_assoc, List.singleton_append, ← hother hlower hseparator]
        cases joined with
        | true => rfl
        | false => simp [List.isChain_cons, hlower]
      · cases hhyphen_eq : first == '-' with
        | true =>
          obtain rfl := eq_of_beq hhyphen_eq
          exact hhyphen rfl
        | false => exact hother (ne_of_beq_false hhyphen_eq) (by simp [isSeparator, hhyphen_eq, hline])

/-- The kebab case of a name is in kebab case if and only if the separators of the name are apart. -/
theorem isKebabCase_toKebabCase (h : ∀ c ∈ name, isNameChar c = true) :
    isKebabCase (toKebabCase name) = true ↔ WellSeparated name := by
  have hascii : ∀ c ∈ name, isAscii c = true := fun c hc => isAscii_of_isNameChar (h c hc)
  have hchars := of_mem_toKebabCase h
  have hplain : ∀ c ∈ toKebabCase name, nameSymbols.contains c = false ∧ isSpace c = false :=
    fun c hc => (styled (isAscii_of_isNameChar (hchars c hc).1)).plain (hchars c hc).1
  have hstart : ['-'].isPrefixOf (toKebabCase name) = false ↔ ∀ c ∈ name.head?, isSeparator c = false := by
    rw [← head_kebabFrom hascii, ← toKebabCase]
    cases toKebabCase name with
    | nil => simp
    | cons first rest =>
      rw [List.isPrefixOf, List.isPrefixOf, Bool.and_true, beq_eq_false_iff_ne]
      exact ⟨fun hne c hc => Option.some.inj hc ▸ hne.symm, fun h => (h first rfl).symm⟩
  have hline : (toKebabCase name).contains '_' = false := by
    rw [← Bool.not_eq_true, List.contains_iff_mem]
    exact fun hmem => (hchars _ hmem).2.2 rfl
  have hsymbols : hasSymbols (toKebabCase name) = false := by
    rw [hasSymbols, List.any_eq_false]
    exact fun c hc => Bool.eq_false_iff.1 (hplain c hc).1
  have hcapitals : (toKebabCase name).any isUppercase = false :=
    List.any_eq_false.2 fun c hc => Bool.eq_false_iff.1 (hchars c hc).2.1
  have hspaces : (toKebabCase name).any isSpace = false :=
    List.any_eq_false.2 fun c hc => Bool.eq_false_iff.1 (hplain c hc).2
  rw [isKebabCase, hsymbols, hcapitals, hline, hspaces]
  simp only [Bool.not_false, Bool.true_and, Bool.and_true, Bool.and_eq_true, Bool.not_eq_true', hstart, occurs_pair]
  rw [toKebabCase, isChain_kebabFrom hascii]
  exact ⟨fun h => ⟨h.1, h.2⟩, fun h => ⟨h.start, h.apart⟩⟩

end Kebab

end ComponentLint.Text
