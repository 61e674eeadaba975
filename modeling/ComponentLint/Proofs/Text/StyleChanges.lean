import ComponentLint.Proofs.Text.NamingStyles

/-!
# From one style to the other

A name is made of words. Kebab case joins them by hyphens (`joined`), and camel case raises the first letter of
every word but the first (`humped`). Each conversion takes one of these forms to the other one
(`toCamelCase_joined`, `toKebabCase_humped`), and every name of letters and digits that does not start with a
capital is the camel case of words (`exists_words`). So the conversions undo each other, and a name that is in a
style already is left as it is (`conversions_inverse`).
-/

namespace ComponentLint.Text

/-- A lower-case letter or a digit of ASCII. -/
def isWordLetter (c : Char) : Bool :=
  c.isLower || c.isDigit

/-- Letters and digits of ASCII, without a capital at the start. -/
structure CamelName (name : List Char) : Prop where
  plain : ∀ c ∈ name, c.isAlphanum = true
  start : ∀ c ∈ name.head?, isUppercase c = false

/-- Lower-case letters and digits, at least one. -/
structure Word (word : List Char) : Prop where
  nonempty : word ≠ []
  plain : ∀ c ∈ word, isWordLetter c = true

/-- A word behind the first one, which starts with a letter. -/
structure LaterWord (word : List Char) : Prop extends Word word where
  start : ∀ c ∈ word.head?, c.isLower = true

/-- The words of a name. -/
structure NameWords (words : List (List Char)) : Prop where
  first : ∀ word ∈ words.head?, Word word
  later : ∀ word ∈ words.tail, LaterWord word

/-- The words joined by single hyphens. -/
def joined (words : List (List Char)) : List Char :=
  ['-'].intercalate words

/-- A word with its first letter raised. -/
def raise : List Char → List Char
  | [] => []
  | c :: rest => c.toUpper :: rest

/-- The words with the first letters raised, but that of the first word. -/
def humped : List (List Char) → List Char
  | [] => []
  | first :: others => first ++ others.flatMap raise

instance (name : List Char) : Decidable (CamelName name) :=
  decidable_of_iff (name.all Char.isAlphanum = true ∧ name.head?.any isUppercase = false)
    ⟨fun h => ⟨List.all_eq_true.1 h.1, (Option.any_eq_false _ _).1 h.2⟩,
      fun h => ⟨List.all_eq_true.2 h.plain, (Option.any_eq_false _ _).2 h.start⟩⟩

instance (word : List Char) : Decidable (Word word) :=
  decidable_of_iff (word ≠ [] ∧ word.all isWordLetter = true)
    ⟨fun h => ⟨h.1, List.all_eq_true.1 h.2⟩, fun h => ⟨h.nonempty, List.all_eq_true.2 h.plain⟩⟩

instance (word : List Char) : Decidable (LaterWord word) :=
  decidable_of_iff (Word word ∧ word.head?.all Char.isLower = true)
    ⟨fun h => ⟨h.1, (Option.all_eq_true _ _).1 h.2⟩, fun h => ⟨h.toWord, (Option.all_eq_true _ _).2 h.start⟩⟩

instance (words : List (List Char)) : Decidable (NameWords words) :=
  decidable_of_iff ((∀ word ∈ words.head?, Word word) ∧ ∀ word ∈ words.tail, LaterWord word)
    ⟨fun h => ⟨h.1, h.2⟩, fun h => ⟨h.first, h.later⟩⟩

/-! ## Characters -/

/-- What raising and lowering keep of a character, and how they undo each other. -/
structure Recased (c : Char) : Prop where
  isAscii_toUpper : isAscii c.toUpper = true
  isAscii_toLower : isAscii c.toLower = true
  isSeparator_toUpper : isSeparator c.toUpper = isSeparator c
  eq_line_of_toLower : c.toLower = '_' → c = '_'
  wordLetter : c.isAlphanum = true → isUppercase c = false → isWordLetter c = true
  capital : isUppercase c = true → c.toLower.isLower = true ∧ c.toLower.toUpper = c
  letter : c.isLower = true → isUppercase c.toUpper = true ∧ c.toUpper.toLower = c
  settled : isWordLetter c = true → c.isAlphanum = true ∧ isUppercase c = false ∧ c.toLower = c

instance (c : Char) : Decidable (Recased c) :=
  decidable_of_iff
    (isAscii c.toUpper = true ∧ isAscii c.toLower = true ∧ isSeparator c.toUpper = isSeparator c ∧ (c.toLower = '_' → c = '_') ∧
      (c.isAlphanum = true → isUppercase c = false → isWordLetter c = true) ∧
      (isUppercase c = true → c.toLower.isLower = true ∧ c.toLower.toUpper = c) ∧
      (c.isLower = true → isUppercase c.toUpper = true ∧ c.toUpper.toLower = c) ∧
      (isWordLetter c = true → c.isAlphanum = true ∧ isUppercase c = false ∧ c.toLower = c))
    ⟨fun ⟨h1, h2, h3, h4, h5, h6, h7, h8⟩ => ⟨h1, h2, h3, h4, h5, h6, h7, h8⟩,
      fun ⟨h1, h2, h3, h4, h5, h6, h7, h8⟩ => ⟨h1, h2, h3, h4, h5, h6, h7, h8⟩⟩

theorem recased {c : Char} (h : isAscii c = true) : Recased c :=
  ascii_forall (by decide +kernel) h

theorem isAscii_of_isWordLetter {c : Char} (h : isWordLetter c = true) : isAscii c = true := by
  rw [isWordLetter, Bool.or_eq_true] at h
  have halpha : c.isLower = true → c.isAlpha = true := fun hlower => Bool.or_eq_true_iff.2 (.inr hlower)
  exact isAscii_of_isAlphanum (Bool.or_eq_true_iff.2 (h.imp_left halpha))

theorem isSeparator_of_isWordLetter {c : Char} (h : isWordLetter c = true) : isSeparator c = false :=
  isSeparator_of_isAlphanum ((recased (isAscii_of_isWordLetter h)).settled h).1

theorem isWordLetter_of_isLower {c : Char} (h : c.isLower = true) : isWordLetter c = true := by
  simp [isWordLetter, h]

/-! ## Words into camel case -/

theorem joined_cons (first : List Char) (others : List (List Char)) :
    joined (first :: others) = first ++ others.flatMap ('-' :: ·) := by
  induction others generalizing first with
  | nil => simp [joined, List.intercalate]
  | cons second others ih =>
    have hjoined : joined (first :: second :: others) = first ++ '-' :: joined (second :: others) := by
      simp [joined, List.intercalate]
    rw [hjoined, ih]
    simp

/-- What is no separator stays as it is behind the start of a name. -/
theorem camelFrom_plain {text : List Char} (h : ∀ c ∈ text, isSeparator c = false) (rest : List Char) :
    camelFrom true false (text ++ rest) = text ++ camelFrom true false rest := by
  induction text with
  | nil => rfl
  | cons c text ih =>
    obtain ⟨hc, htext⟩ := List.forall_mem_cons.1 h
    have hnot : (c == '-' || c == '_') = false := hc
    simp [camelFrom, hnot, ih htext]

/-- Behind the start of a name a hyphen goes, and the character behind it is raised. -/
theorem camelFrom_hyphen {c : Char} (hascii : isAscii c = true) (hc : isSeparator c = false) (rest : List Char) :
    camelFrom true false ('-' :: c :: rest) = c.toUpper :: camelFrom true false rest := by
  have hnot : (c == '-' || c == '_') = false := hc
  simp [camelFrom, hnot, toUpperCase_ascii hascii]

/-- The first character is lowered. -/
theorem toCamelCase_cons {c : Char} (hascii : isAscii c = true) (hc : isSeparator c = false) (rest : List Char) :
    toCamelCase (c :: rest) = c.toLower :: camelFrom true false rest := by
  have hnot : (c == '-' || c == '_') = false := hc
  simp [toCamelCase, camelFrom, hnot, toLowerCase_ascii hascii]

theorem camelFrom_words {words : List (List Char)} (h : ∀ word ∈ words, LaterWord word) :
    camelFrom true false (words.flatMap ('-' :: ·)) = words.flatMap raise := by
  induction words with
  | nil => rfl
  | cons word words ih =>
    obtain ⟨hword, hrest⟩ := List.forall_mem_cons.1 h
    obtain ⟨c, word, rfl⟩ := List.exists_cons_of_ne_nil hword.nonempty
    obtain ⟨hc, hplain⟩ := List.forall_mem_cons.1 hword.plain
    have hseparators : ∀ c ∈ word, isSeparator c = false := fun c hmem => isSeparator_of_isWordLetter (hplain c hmem)
    rw [List.flatMap_cons, List.flatMap_cons, List.cons_append, List.cons_append,
      camelFrom_hyphen (isAscii_of_isWordLetter hc) (isSeparator_of_isWordLetter hc), camelFrom_plain hseparators, ih hrest]
    rfl

/-- The camel case of words that are joined by hyphens. -/
theorem toCamelCase_joined {words : List (List Char)} (h : NameWords words) : toCamelCase (joined words) = humped words := by
  cases words with
  | nil => rfl
  | cons first others =>
    have hfirst : Word first := h.first first rfl
    have hothers : ∀ word ∈ others, LaterWord word := h.later
    obtain ⟨c, word, rfl⟩ := List.exists_cons_of_ne_nil hfirst.nonempty
    obtain ⟨hc, hplain⟩ := List.forall_mem_cons.1 hfirst.plain
    have hseparators : ∀ c ∈ word, isSeparator c = false := fun c hmem => isSeparator_of_isWordLetter (hplain c hmem)
    have hlower : c.toLower = c := ((recased (isAscii_of_isWordLetter hc)).settled hc).2.2
    rw [joined_cons, List.cons_append, toCamelCase_cons (isAscii_of_isWordLetter hc) (isSeparator_of_isWordLetter hc), hlower,
      camelFrom_plain hseparators, camelFrom_words hothers]
    rfl

/-! ## Words into kebab case -/

/-- Lower-case letters and digits stay as they are. -/
theorem kebabFrom_plain {word : List Char} (h : ∀ c ∈ word, isWordLetter c = true) (rest : List Char) :
    kebabFrom false (word ++ rest) = word ++ kebabFrom false rest := by
  induction word with
  | nil => rfl
  | cons c word ih =>
    obtain ⟨hc, hword⟩ := List.forall_mem_cons.1 h
    have hcapital : isUppercase c = false := ((recased (isAscii_of_isWordLetter hc)).settled hc).2.1
    obtain ⟨hhyphen, hline⟩ := Bool.or_eq_false_iff.1 (isSeparator_of_isWordLetter hc)
    simp [kebabFrom, hcapital, hhyphen, hline, ih hword]

/-- At the start of a name the first character stays as it is as well. -/
theorem toKebabCase_cons {c : Char} (hc : isWordLetter c = true) (rest : List Char) :
    toKebabCase (c :: rest) = c :: kebabFrom false rest := by
  have hcapital : isUppercase c = false := ((recased (isAscii_of_isWordLetter hc)).settled hc).2.1
  obtain ⟨hhyphen, hline⟩ := Bool.or_eq_false_iff.1 (isSeparator_of_isWordLetter hc)
  simp [toKebabCase, kebabFrom, hcapital, hhyphen, hline]

/-- A letter that was raised is lowered, behind a hyphen. -/
theorem kebabFrom_raised {c : Char} (hc : c.isLower = true) (rest : List Char) :
    kebabFrom false (c.toUpper :: rest) = '-' :: c :: kebabFrom false rest := by
  have hrecased := recased (isAscii_of_isWordLetter (isWordLetter_of_isLower hc))
  obtain ⟨hcapital, hlower⟩ := hrecased.letter hc
  obtain ⟨-, hline⟩ := Bool.or_eq_false_iff.1 (isSeparator_of_isUppercase hcapital)
  simp [kebabFrom, hcapital, hline, toLowerCase_ascii hrecased.isAscii_toUpper, hlower]

theorem kebabFrom_words {words : List (List Char)} (h : ∀ word ∈ words, LaterWord word) :
    kebabFrom false (words.flatMap raise) = words.flatMap ('-' :: ·) := by
  induction words with
  | nil => rfl
  | cons word words ih =>
    obtain ⟨hword, hrest⟩ := List.forall_mem_cons.1 h
    obtain ⟨c, word, rfl⟩ := List.exists_cons_of_ne_nil hword.nonempty
    obtain ⟨-, hplain⟩ := List.forall_mem_cons.1 hword.plain
    rw [List.flatMap_cons, List.flatMap_cons, raise, List.cons_append, kebabFrom_raised (hword.start c rfl),
      kebabFrom_plain hplain, ih hrest]
    rfl

/-- The kebab case of words whose first letters are raised. -/
theorem toKebabCase_humped {words : List (List Char)} (h : NameWords words) : toKebabCase (humped words) = joined words := by
  cases words with
  | nil => rfl
  | cons first others =>
    have hfirst : Word first := h.first first rfl
    have hothers : ∀ word ∈ others, LaterWord word := h.later
    obtain ⟨c, word, rfl⟩ := List.exists_cons_of_ne_nil hfirst.nonempty
    obtain ⟨hc, hplain⟩ := List.forall_mem_cons.1 hfirst.plain
    rw [humped, joined_cons, List.cons_append, List.cons_append, toKebabCase_cons hc, kebabFrom_plain hplain,
      kebabFrom_words hothers]

/-! ## Names into words -/

/-- Letters and digits are what is left of a word, followed by words whose first letters are raised. -/
theorem exists_later_words {text : List Char} (h : ∀ c ∈ text, c.isAlphanum = true) :
    ∃ (front : List Char) (words : List (List Char)), front ++ words.flatMap raise = text ∧
      (∀ c ∈ front, isWordLetter c = true) ∧ ∀ word ∈ words, LaterWord word := by
  induction text with
  | nil => exact ⟨[], [], rfl, nofun, nofun⟩
  | cons c text ih =>
    obtain ⟨hc, htext⟩ := List.forall_mem_cons.1 h
    obtain ⟨front, words, rfl, hfront, hwords⟩ := ih htext
    have hrecased := recased (isAscii_of_isAlphanum hc)
    by_cases hcapital : isUppercase c = true
    · -- A capital is where a word starts.
      obtain ⟨hlower, hupper⟩ := hrecased.capital hcapital
      have hword : LaterWord (c.toLower :: front) := by
        refine ⟨⟨nofun, List.forall_mem_cons.2 ⟨isWordLetter_of_isLower hlower, hfront⟩⟩, ?_⟩
        rintro d ⟨⟩
        exact hlower
      exact ⟨[], (c.toLower :: front) :: words, by simp [raise, hupper], nofun, List.forall_mem_cons.2 ⟨hword, hwords⟩⟩
    · have hletter := hrecased.wordLetter hc (Bool.eq_false_iff.2 hcapital)
      exact ⟨c :: front, words, rfl, List.forall_mem_cons.2 ⟨hletter, hfront⟩, hwords⟩

/-- A name in camel case is made of words. -/
theorem exists_words {name : List Char} (h : CamelName name) : ∃ words, NameWords words ∧ humped words = name := by
  cases name with
  | nil => exact ⟨[], ⟨nofun, nofun⟩, rfl⟩
  | cons c name =>
    obtain ⟨hc, hname⟩ := List.forall_mem_cons.1 h.plain
    have hletter := (recased (isAscii_of_isAlphanum hc)).wordLetter hc (h.start c rfl)
    obtain ⟨front, words, rfl, hfront, hwords⟩ := exists_later_words hname
    have hfirst : Word (c :: front) := ⟨nofun, List.forall_mem_cons.2 ⟨hletter, hfront⟩⟩
    refine ⟨(c :: front) :: words, ⟨?_, hwords⟩, rfl⟩
    rintro word ⟨⟩
    exact hfirst

/-! ## Names that are in a style already -/

theorem toCamelCase_eq_self {name : List Char}
    (hascii : ∀ c ∈ name, isAscii c = true) (hplain : ∀ c ∈ name, isSeparator c = false)
    (hstart : ∀ c ∈ name.head?, isUppercase c = false) : toCamelCase name = name := by
  cases name with
  | nil => rfl
  | cons c name =>
    obtain ⟨hc, -⟩ := List.forall_mem_cons.1 hascii
    obtain ⟨hfirst, hrest⟩ := List.forall_mem_cons.1 hplain
    have hsame := camelFrom_plain hrest []
    rw [List.append_nil] at hsame
    rw [toCamelCase_cons hc hfirst, hsame, (styled hc).toLower_eq (hstart c rfl)]
    simp [camelFrom]

theorem kebabFrom_eq_self {name : List Char} (hcapitals : ∀ c ∈ name, isUppercase c = false) (hlines : '_' ∉ name)
    (joined : Bool) :
    kebabFrom joined name = name := by
  induction name generalizing joined with
  | nil => rfl
  | cons c name ih =>
    obtain ⟨hc, hname⟩ := List.forall_mem_cons.1 hcapitals
    obtain ⟨hline, hrest⟩ := not_or.1 (mt List.mem_cons.2 hlines)
    have hnot : (c == '_') = false := beq_eq_false_iff_ne.2 (Ne.symm hline)
    simp [kebabFrom, hc, hnot, ih hname hrest]

/-- What is in camel case stays as it is. -/
theorem toCamelCase_toCamelCase {name : List Char} (h : ∀ c ∈ name, isAscii c = true) :
    toCamelCase (toCamelCase name) = toCamelCase name := by
  have hform : ∀ c ∈ toCamelCase name, isAscii c = true ∧ isSeparator c = false := by
    intro c hc
    obtain ⟨old, hold, hplain, hcase⟩ := mem_camelFrom h hc
    have hascii := h old hold
    rcases hcase with rfl | rfl | rfl
    · exact ⟨hascii, hplain⟩
    · exact ⟨(recased hascii).isAscii_toUpper, (recased hascii).isSeparator_toUpper.trans hplain⟩
    · exact ⟨(recased hascii).isAscii_toLower, (styled hascii).isSeparator_toLower.trans hplain⟩
  exact toCamelCase_eq_self (fun c hc => (hform c hc).1) (fun c hc => (hform c hc).2) (head_toCamelCase h)

/-- What is in kebab case stays as it is. -/
theorem toKebabCase_toKebabCase {name : List Char} (h : ∀ c ∈ name, isAscii c = true) :
    toKebabCase (toKebabCase name) = toKebabCase name := by
  have hform : ∀ c ∈ toKebabCase name, isUppercase c = false ∧ c ≠ '_' := by
    intro c hc
    rcases mem_kebabFrom h hc with rfl | ⟨old, hold, hline, rfl⟩
    · decide
    · exact ⟨(styled (h old hold)).isUppercase_toLower, mt (recased (h old hold)).eq_line_of_toLower hline⟩
  exact kebabFrom_eq_self (fun c hc => (hform c hc).1) (fun hline => (hform '_' hline).2 rfl) true

/-- On names of letters and digits without a capital at the start, camel case undoes kebab case; on words that are joined by
hyphens, kebab case undoes camel case; and of every ASCII name both forms stay as they are when they are made again. -/
theorem conversions_inverse :
    (∀ name, CamelName name → toCamelCase (toKebabCase name) = name) ∧
    (∀ words, NameWords words → toKebabCase (toCamelCase (joined words)) = joined words) ∧
    ∀ name : List Char, (∀ c ∈ name, isAscii c = true) →
      toCamelCase (toCamelCase name) = toCamelCase name ∧ toKebabCase (toKebabCase name) = toKebabCase name := by
  refine ⟨fun name h => ?_, fun words h => ?_, fun name h => ⟨toCamelCase_toCamelCase h, toKebabCase_toKebabCase h⟩⟩
  · obtain ⟨words, hwords, rfl⟩ := exists_words h
    rw [toKebabCase_humped hwords, toCamelCase_joined hwords]
  · rw [toCamelCase_joined h, toKebabCase_humped h]

/-- A run of capitals and digits, words that start with a digit or end with one, and separators in any place. -/
theorem conversions_inverse_mixedRuns :
    CamelName "x1YZ2b".toList ∧ toKebabCase "x1YZ2b".toList = "x1-y-z2b".toList ∧
    toCamelCase (toKebabCase "x1YZ2b".toList) = "x1YZ2b".toList ∧
    NameWords ["1".toList, "a2".toList, "b".toList] ∧
    toKebabCase (toCamelCase (joined ["1".toList, "a2".toList, "b".toList])) = "1-a2-b".toList ∧
    (∀ c ∈ "-_A__bC-".toList, isAscii c = true) ∧ toCamelCase (toCamelCase "-_A__bC-".toList) = "aBC".toList ∧
    toKebabCase (toKebabCase "-_A__bC-".toList) = "--a--b-c-".toList := by
  obtain ⟨hcamel, hkebab, hagain⟩ := conversions_inverse
  have hname : CamelName "x1YZ2b".toList := by decide
  have hwords : NameWords ["1".toList, "a2".toList, "b".toList] := by decide
  have hascii : ∀ c ∈ "-_A__bC-".toList, isAscii c = true := List.all_eq_true.1 (by decide)
  refine ⟨hname, by decide, hcamel _ hname, hwords, (hkebab _ hwords).trans (by decide), hascii, ?_, ?_⟩
  · exact (hagain _ hascii).1.trans (by decide)
  · exact (hagain _ hascii).2.trans (by decide)

end ComponentLint.Text
