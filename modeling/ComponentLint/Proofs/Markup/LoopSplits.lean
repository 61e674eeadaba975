import ComponentLint.Markup.Fragment
import ComponentLint.Proofs.Text.Reading

/-!
# Where a loop is split

The text of a loop is split at the first place where it can be: at blanks outside all brackets, behind something
and in front of the word of a loop and more blanks. This is a property of the bytes of the text and of an offset
(`SplitsAt`). What the search asks at a blank is this property of the offset of that blank
(`splitsAt_blank_iff`), and inside a character of several bytes there is no such offset, so the search finds the
first of all offsets that have it, if there is one (`splitLoop?_exact`).
-/

namespace ComponentLint.Markup

open Text

/-- The letters of the word of a loop. -/
def LoopWord.letters : LoopWord → List Char
  | .inWord => ['i', 'n']
  | .ofWord => ['o', 'f']

namespace Fragment

/-- The blanks of markup. -/
def blankChars : List Char :=
  [' ', '\t', '\n', '\x0c', '\r']

/-- The brackets that open. -/
def openBrackets : List Char :=
  ['(', '[', '{']

/-- The brackets that close. -/
def closeBrackets : List Char :=
  [')', ']', '}']

/-- The bytes of a loop in five parts: the aliases, blanks, the word, blanks again and the source. There are
aliases; they do not end with a blank, and they open as many brackets as they close. The source does not start
with a blank. -/
structure LoopParts (text aliases gap : List UInt8) (word : LoopWord) (space source : List UInt8) : Prop where
  text_eq : text = aliases ++ (gap ++ (bytes word.letters ++ (space ++ source)))
  named : aliases ≠ []
  edge : ∀ byte ∈ aliases.getLast?, byte ∉ bytes blankChars
  balanced : aliases.countP (bytes openBrackets).contains = aliases.countP (bytes closeBrackets).contains
  gap_ne : gap ≠ []
  gap_blank : ∀ byte ∈ gap, byte ∈ bytes blankChars
  space_ne : space ≠ []
  space_blank : ∀ byte ∈ space, byte ∈ bytes blankChars
  start : ∀ byte ∈ source.head?, byte ∉ bytes blankChars

/-- An offset at which the bytes of a loop can be split, with the word behind it and the offset of the source. -/
def SplitsAt (text : List UInt8) (stop : Nat) (word : LoopWord) (start : Nat) : Prop :=
  ∃ aliases gap space source, LoopParts text aliases gap word space source ∧ aliases.length = stop ∧
    start + source.length = text.length

/-- What is found from an offset on: the first place behind it where the bytes can be split, or nothing if there is none. -/
def Finds (text : List UInt8) (lower : Nat) : Option (Nat × LoopWord × Nat) → Prop
  | none => ∀ stop word start, lower ≤ stop → ¬SplitsAt text stop word start
  | some (stop, word, start) =>
    SplitsAt text stop word start ∧ ∀ other word' start', lower ≤ other → SplitsAt text other word' start' → stop ≤ other

/-- The brackets that a text opens, without those that it closes. -/
def balance (front : List Char) : Int :=
  front.countP openBrackets.contains - front.countP closeBrackets.contains

/-! ## Characters of a loop -/

theorem isAsciiSpace_eq : isAsciiSpace = blankChars.contains := by
  funext c
  simp only [isAsciiSpace, blankChars, List.contains_cons, List.contains_nil, Bool.or_false, Bool.or_assoc]

theorem blankChars_ascii : ∀ c ∈ blankChars, isAscii c = true :=
  List.all_eq_true.1 (by decide)

theorem balance_append_singleton (front : List Char) (c : Char) : balance (front ++ [c]) = balance front + depthChange c := by
  have hchange : ((if openBrackets.contains c then 1 else 0 : Nat) : Int) - (if closeBrackets.contains c then 1 else 0 : Nat) =
      depthChange c := by
    by_cases hopen : c ∈ openBrackets
    · simp only [openBrackets, List.mem_cons, List.not_mem_nil, or_false] at hopen
      rcases hopen with rfl | rfl | rfl <;> decide
    · by_cases hclose : c ∈ closeBrackets
      · simp only [closeBrackets, List.mem_cons, List.not_mem_nil, or_false] at hclose
        rcases hclose with rfl | rfl | rfl <;> decide
      · simp only [openBrackets, closeBrackets, List.mem_cons, List.not_mem_nil, or_false, not_or] at hopen hclose
        simp [openBrackets, closeBrackets, depthChange, hopen, hclose]
  rw [balance, balance, List.countP_append, List.countP_append, List.countP_singleton, List.countP_singleton, ← hchange]
  omega

theorem depthChange_blank {c : Char} (h : isAsciiSpace c = true) : depthChange c = 0 := by
  rw [isAsciiSpace_eq, List.contains_iff_mem] at h
  simp only [blankChars, List.mem_cons, List.not_mem_nil, or_false] at h
  rcases h with rfl | rfl | rfl | rfl | rfl <;> decide

theorem letters_ascii (word : LoopWord) : ∀ c ∈ word.letters, isAscii c = true :=
  List.all_eq_true.1 (by cases word <;> decide)

theorem balanced_iff (front : List Char) :
    (bytes front).countP (bytes openBrackets).contains = (bytes front).countP (bytes closeBrackets).contains ↔
      balance front = 0 := by
  rw [countP_bytes (List.all_eq_true.1 (by decide)), countP_bytes (List.all_eq_true.1 (by decide)), balance]
  omega

/-- The word of a loop is read in front of blanks. -/
theorem loopWord?_eq_some_iff {text : List Char} {word : LoopWord} {length : Nat} :
    loopWord? text = some (word, length) ↔ ∃ rest, text = word.letters ++ rest ∧ rest.takeWhile isAsciiSpace ≠ [] ∧
      length = 2 + byteLength (rest.takeWhile isAsciiSpace) := by
  have hfinish : ∀ {read : LoopWord} {rest}, loopWord?.finish read rest = some (word, length) ↔ read = word ∧
      rest.takeWhile isAsciiSpace ≠ [] ∧ length = 2 + byteLength (rest.takeWhile isAsciiSpace) := by
    intro read rest
    by_cases hnil : rest.takeWhile isAsciiSpace = []
    · simp [loopWord?.finish, hnil]
    · simp only [loopWord?.finish, List.isEmpty_iff, hnil, if_false, Option.some.injEq, Prod.mk.injEq, ne_eq, not_false_eq_true,
        true_and]
      exact and_congr_right fun _ => eq_comm
  constructor
  · intro h
    unfold loopWord? at h
    split at h
    · next rest =>
      obtain ⟨rfl, hblanks⟩ := hfinish.1 h
      exact ⟨rest, rfl, hblanks⟩
    · next rest =>
      obtain ⟨rfl, hblanks⟩ := hfinish.1 h
      exact ⟨rest, rfl, hblanks⟩
    · cases h
  · rintro ⟨rest, rfl, hblanks⟩
    cases word with
    | inWord => exact hfinish.2 ⟨rfl, hblanks⟩
    | ofWord => exact hfinish.2 ⟨rfl, hblanks⟩

/-! ## Blanks and words among the bytes -/

theorem bytes_ne_nil_iff {text : List Char} : bytes text ≠ [] ↔ text ≠ [] := by
  rw [← List.length_pos_iff, length_bytes, byteLength_pos_iff]

theorem mem_blankChars_of_takeWhile {text : List Char} {byte : UInt8} (h : byte ∈ bytes (text.takeWhile isAsciiSpace)) :
    byte ∈ bytes blankChars := by
  rw [isAsciiSpace_eq, ← (takeWhile_bytes blankChars_ascii text).1] at h
  exact List.contains_iff_mem.1 (List.mem_takeWhile_imp h)

theorem notMem_blankChars_of_dropWhile {text : List Char} {byte : UInt8}
    (h : byte ∈ (bytes (text.dropWhile isAsciiSpace)).head?) : byte ∉ bytes blankChars := by
  rw [isAsciiSpace_eq, ← (takeWhile_bytes blankChars_ascii text).2] at h
  have hhead := List.head?_dropWhile_not (bytes blankChars).contains (bytes text)
  rw [Option.mem_def.1 h] at hhead
  simpa using hhead

/-- The letters of a word are no blanks. -/
theorem notMem_blankChars_of_letters {word : LoopWord} {rest : List UInt8} {byte : UInt8}
    (h : byte ∈ (bytes word.letters ++ rest).head?) : byte ∉ bytes blankChars := by
  obtain ⟨letter, letters, hletters, hletter⟩ : ∃ letter letters, bytes word.letters = letter :: letters ∧
      letter ∉ bytes blankChars := by
    cases word <;> exact ⟨_, _, rfl, by decide⟩
  rw [hletters] at h
  obtain rfl := Option.some.inj h
  exact hletter

theorem edge_iff (front : List Char) :
    (∀ byte ∈ (bytes front).getLast?, byte ∉ bytes blankChars) ↔ front.getLast?.any isAsciiSpace = false := by
  rw [isAsciiSpace_eq, ← getLast?_bytes blankChars_ascii]
  cases (bytes front).getLast? <;> simp

theorem byteLength_letters (word : LoopWord) : byteLength word.letters = 2 := by
  cases word <;> rfl

theorem eq_of_bytes_letters {word word' : LoopWord} (h : bytes word.letters = bytes word'.letters) : word = word' := by
  cases word <;> cases word' <;> first | rfl | exact absurd h (by decide)

/-- The bytes are in one way a run of blanks and what follows it. -/
theorem blankRun_inj {run rest run' rest' : List UInt8}
    (h : run ++ rest = run' ++ rest') (hrun : ∀ byte ∈ run, byte ∈ bytes blankChars)
    (hrest : ∀ byte ∈ rest.head?, byte ∉ bytes blankChars) (hrun' : ∀ byte ∈ run', byte ∈ bytes blankChars)
    (hrest' : ∀ byte ∈ rest'.head?, byte ∉ bytes blankChars) : run = run' ∧ rest = rest' := by
  have hblanks : ∀ {run rest : List UInt8}, (∀ byte ∈ run, byte ∈ bytes blankChars) →
      (∀ byte ∈ rest.head?, byte ∉ bytes blankChars) → (run ++ rest).takeWhile (bytes blankChars).contains = run :=
    fun hrun hrest => (takeWhile_run (fun byte hbyte => by simpa using hrun byte hbyte) fun byte hbyte => by
      simpa using hrest byte hbyte).1
  have heq : run = run' := by rw [← hblanks hrun hrest, h, hblanks hrun' hrest']
  subst heq
  exact ⟨rfl, List.append_cancel_left h⟩

/-- A run of blanks in the bytes of a text is one of the text. -/
theorem blankRun_bytes {text : List Char} {run rest : List UInt8} (h : bytes text = run ++ rest)
    (hrun : ∀ byte ∈ run, byte ∈ bytes blankChars) (hrest : ∀ byte ∈ rest.head?, byte ∉ bytes blankChars) :
    run = bytes (text.takeWhile isAsciiSpace) ∧ rest = bytes (text.dropWhile isAsciiSpace) := by
  have hparts : run ++ rest = bytes (text.takeWhile isAsciiSpace) ++ bytes (text.dropWhile isAsciiSpace) := by
    rw [← bytes_append, List.takeWhile_append_dropWhile, h]
  exact blankRun_inj hparts hrun hrest (fun _ => mem_blankChars_of_takeWhile) fun _ => notMem_blankChars_of_dropWhile

/-! ## Places -/

/-- The aliases alone determine all parts. -/
theorem SplitsAt.unique {text : List UInt8} {stop start start' : Nat} {word word' : LoopWord} (h : SplitsAt text stop word start)
    (h' : SplitsAt text stop word' start') : word = word' ∧ start = start' := by
  obtain ⟨aliases, gap, space, source, parts, rfl, hstart⟩ := h
  obtain ⟨aliases', gap', space', source', parts', hstop, hstart'⟩ := h'
  obtain ⟨rfl, htail⟩ := List.append_inj (parts.text_eq.symm.trans parts'.text_eq) hstop.symm
  obtain ⟨-, htail⟩ := blankRun_inj htail parts.gap_blank (fun _ => notMem_blankChars_of_letters) parts'.gap_blank
    fun _ => notMem_blankChars_of_letters
  obtain ⟨hletters, htail⟩ := List.append_inj htail (by simp only [length_bytes, byteLength_letters])
  obtain ⟨-, rfl⟩ := blankRun_inj htail parts.space_blank parts.start parts'.space_blank parts'.start
  exact ⟨eq_of_bytes_letters hletters, by omega⟩

/-- A text is split in front of a blank. -/
theorem SplitsAt.exists_blank {text : List UInt8} {stop start : Nat} {word : LoopWord} (h : SplitsAt text stop word start) :
    ∃ byte ∈ bytes blankChars, text[stop]? = some byte := by
  obtain ⟨aliases, gap, space, source, parts, rfl, -⟩ := h
  obtain ⟨byte, more, rfl⟩ := List.exists_cons_of_ne_nil parts.gap_ne
  refine ⟨byte, parts.gap_blank byte List.mem_cons_self, ?_⟩
  rw [parts.text_eq, List.getElem?_append_right (Nat.le_refl _), Nat.sub_self]
  rfl

/-- No text is split behind the first byte of a character. -/
theorem SplitsAt.eq_byteLength {front rest : List Char} {c : Char} {stop start : Nat} {word : LoopWord}
    (h : SplitsAt (bytes (front ++ c :: rest)) stop word start) (hle : byteLength front ≤ stop)
    (hlt : stop < byteLength front + c.utf8Size) : stop = byteLength front := by
  obtain ⟨byte, hblank, hget⟩ := h.exists_blank
  have hinside : stop - (bytes front).length < (String.utf8EncodeChar c).length := by
    rw [length_bytes, String.length_utf8EncodeChar]
    omega
  rw [bytes_append, bytes_cons, List.getElem?_append_right (by rwa [length_bytes]), List.getElem?_append_left hinside] at hget
  have hc := (mem_bytes_iff blankChars_ascii (List.mem_of_getElem? hget)).1 hblank
  obtain ⟨code, hcode, -⟩ := exists_byte (blankChars_ascii c hc)
  have hone : c.utf8Size = 1 := by rw [← String.length_utf8EncodeChar, hcode]; rfl
  omega

/-- At a place between two characters a text can be split if the search finds a word behind it. -/
theorem splitsAt_iff {front behind : List Char} {word : LoopWord} {start : Nat} :
    SplitsAt (bytes (front ++ behind)) (byteLength front) word start ↔ front ≠ [] ∧ front.getLast?.any isAsciiSpace = false ∧
      balance front = 0 ∧ behind.takeWhile isAsciiSpace ≠ [] ∧ ∃ length,
        loopWord? (behind.dropWhile isAsciiSpace) = some (word, length) ∧
          start = byteLength front + byteLength (behind.takeWhile isAsciiSpace) + length := by
  have hlengths : ∀ text : List Char, byteLength (text.takeWhile isAsciiSpace) + byteLength (text.dropWhile isAsciiSpace) =
      byteLength text := by
    intro text
    rw [← byteLength_append, List.takeWhile_append_dropWhile]
  constructor
  · rintro ⟨aliases, gap, space, source, parts, hstop, hstart⟩
    have htext := parts.text_eq
    rw [bytes_append] at htext
    obtain ⟨rfl, hbehind⟩ := List.append_inj htext (by rw [length_bytes, hstop])
    obtain ⟨rfl, hword⟩ := blankRun_bytes hbehind parts.gap_blank fun _ => notMem_blankChars_of_letters
    obtain ⟨more, hmore, hspaced⟩ := exists_of_bytes_eq_append (letters_ascii word) hword.symm
    obtain ⟨rfl, rfl⟩ := blankRun_bytes hspaced parts.space_blank parts.start
    refine ⟨bytes_ne_nil_iff.1 parts.named, (edge_iff front).1 parts.edge, (balanced_iff front).1 parts.balanced,
      bytes_ne_nil_iff.1 parts.gap_ne, _, loopWord?_eq_some_iff.2 ⟨more, hmore, bytes_ne_nil_iff.1 parts.space_ne, rfl⟩, ?_⟩
    have hall := hlengths behind
    rw [hmore, byteLength_append, byteLength_letters, ← hlengths more] at hall
    rw [length_bytes, length_bytes, byteLength_append] at hstart
    omega
  · rintro ⟨hnamed, hedge, hbalance, hgap, length, hword, rfl⟩
    obtain ⟨more, hmore, hspace, rfl⟩ := loopWord?_eq_some_iff.1 hword
    have htext : front ++ behind = front ++ (behind.takeWhile isAsciiSpace ++ (word.letters ++
        (more.takeWhile isAsciiSpace ++ more.dropWhile isAsciiSpace))) := by
      rw [List.takeWhile_append_dropWhile, ← hmore, List.takeWhile_append_dropWhile]
    refine ⟨bytes front, bytes (behind.takeWhile isAsciiSpace), bytes (more.takeWhile isAsciiSpace),
      bytes (more.dropWhile isAsciiSpace), ?_, length_bytes front, ?_⟩
    · exact {
        text_eq := by rw [htext, bytes_append, bytes_append, bytes_append, bytes_append]
        named := bytes_ne_nil_iff.2 hnamed
        edge := (edge_iff front).2 hedge
        balanced := (balanced_iff front).2 hbalance
        gap_ne := bytes_ne_nil_iff.2 hgap
        gap_blank := fun _ => mem_blankChars_of_takeWhile
        space_ne := bytes_ne_nil_iff.2 hspace
        space_blank := fun _ => mem_blankChars_of_takeWhile
        start := fun _ => notMem_blankChars_of_dropWhile }
    · rw [htext, length_bytes, length_bytes]
      simp only [byteLength_append, byteLength_letters]
      omega

/-- At a blank the search asks for what a place needs. -/
theorem splitsAt_blank_iff {front rest : List Char} {c : Char} (hblank : isAsciiSpace c = true) {word : LoopWord} {start : Nat} :
    SplitsAt (bytes (front ++ c :: rest)) (byteLength front) word start ↔
      (balance front == 0 && !front.getLast?.any isAsciiSpace && decide (byteLength front > 0)) = true ∧ ∃ length,
        loopWord? (rest.dropWhile isAsciiSpace) = some (word, length) ∧
          start = byteLength front + c.utf8Size + byteLength (rest.takeWhile isAsciiSpace) + length := by
  rw [splitsAt_iff, List.takeWhile_cons_of_pos hblank, List.dropWhile_cons_of_pos hblank, byteLength_cons, ← Nat.add_assoc]
  simp only [Bool.and_eq_true, beq_iff_eq, Bool.not_eq_true', decide_eq_true_eq, gt_iff_lt, byteLength_pos_iff]
  constructor
  · rintro ⟨hnamed, hedge, hbalance, -, hword⟩
    exact ⟨⟨⟨hbalance, hedge⟩, hnamed⟩, hword⟩
  · rintro ⟨⟨⟨hbalance, hedge⟩, hnamed⟩, hword⟩
    exact ⟨hnamed, hedge, hbalance, List.cons_ne_nil _ _, hword⟩

/-! ## The search -/

/-- What is found from a later offset on is found from an earlier one on if there is no place between them. -/
theorem Finds.of_none_between {text : List UInt8} {lower lower' : Nat} {found : Option (Nat × LoopWord × Nat)}
    (h : Finds text lower' found) (hnone : ∀ stop word start, SplitsAt text stop word start → lower ≤ stop → lower' ≤ stop) :
    Finds text lower found := by
  cases found with
  | none =>
    intro stop word start hle hsplit
    exact h stop word start (hnone stop word start hsplit hle) hsplit
  | some split =>
    refine ⟨h.1, fun other word start hle hsplit => ?_⟩
    exact h.2 other word start (hnone other word start hsplit hle) hsplit

/-- The search goes on from behind `front` with its number of bytes, its balance of brackets, and whether it ends with a blank. -/
theorem finds_splitLoopFrom (front text : List Char) :
    Finds (bytes (front ++ text)) (byteLength front)
      (splitLoopFrom (byteLength front) (balance front) (front.getLast?.any isAsciiSpace) text) := by
  induction text generalizing front with
  | nil =>
    intro stop word start hle hsplit
    obtain ⟨byte, -, hget⟩ := hsplit.exists_blank
    have hlt := (List.getElem?_eq_some_iff.1 hget).1
    rw [List.append_nil, length_bytes] at hlt
    exact absurd hle (Nat.not_le.2 hlt)
  | cons c rest ih =>
    have hskip : (∀ word start, ¬SplitsAt (bytes (front ++ c :: rest)) (byteLength front) word start) →
        Finds (bytes (front ++ c :: rest)) (byteLength front)
          (splitLoopFrom (byteLength front + c.utf8Size) (balance front + depthChange c) (isAsciiSpace c) rest) := by
      intro hnone
      have hnext := ih (front ++ [c])
      rw [List.append_assoc, List.singleton_append, byteLength_append, balance_append_singleton, List.getLast?_concat,
        Option.any_some] at hnext
      refine Finds.of_none_between hnext fun stop word start hsplit hle => ?_
      rcases Nat.lt_or_ge stop (byteLength front + c.utf8Size) with hlt | hge
      · obtain rfl := hsplit.eq_byteLength hle hlt
        exact absurd hsplit (hnone word start)
      · exact hge
    rw [splitLoopFrom]
    by_cases hblank : isAsciiSpace c = true
    · rw [depthChange_blank hblank, hblank, Int.add_zero] at hskip
      rw [if_pos hblank]
      split
      · next hplace =>
        cases hword : loopWord? (rest.dropWhile isAsciiSpace) with
        | none =>
          refine hskip fun word start hsplit => ?_
          obtain ⟨-, length, hread, -⟩ := (splitsAt_blank_iff hblank).1 hsplit
          rw [hword] at hread
          cases hread
        | some read =>
          obtain ⟨word, length⟩ := read
          exact ⟨(splitsAt_blank_iff hblank).2 ⟨hplace, length, hword, rfl⟩, fun _ _ _ hle _ => hle⟩
      · next hplace => exact hskip fun word start hsplit => hplace ((splitsAt_blank_iff hblank).1 hsplit).1
    · rw [Bool.eq_false_iff.2 hblank] at hskip
      rw [if_neg hblank]
      refine hskip fun word start hsplit => ?_
      obtain ⟨-, -, -, hgap, -⟩ := splitsAt_iff.1 hsplit
      exact hgap (List.takeWhile_cons_of_neg hblank)

/-- A loop is split at the first offset of all at which its bytes can be split, with the word and the start of
the source that belong to that offset. It is not split exactly if there is no such offset, whatever the text
is. -/
theorem splitLoop?_exact (text : List Char) :
    (∀ stop word start, splitLoop? text = some (stop, word, start) ↔ SplitsAt (bytes text) stop word start ∧
      ∀ other word' start', SplitsAt (bytes text) other word' start' → stop ≤ other) ∧
    (splitLoop? text = none ↔ ¬∃ stop word start, SplitsAt (bytes text) stop word start) := by
  have hfinds : Finds (bytes text) 0 (splitLoop? text) := finds_splitLoopFrom [] text
  cases hfound : splitLoop? text with
  | none =>
    rw [hfound] at hfinds
    have hnone : ¬∃ stop word start, SplitsAt (bytes text) stop word start := by
      rintro ⟨stop, word, start, hsplit⟩
      exact hfinds stop word start (Nat.zero_le _) hsplit
    refine ⟨fun stop word start => ⟨fun h => (by cases h), ?_⟩, iff_of_true rfl hnone⟩
    rintro ⟨hsplit, -⟩
    exact absurd ⟨stop, word, start, hsplit⟩ hnone
  | some split =>
    obtain ⟨first, read, source⟩ := split
    rw [hfound] at hfinds
    obtain ⟨hfirst, hleast⟩ := hfinds
    refine ⟨fun stop word start => ⟨?_, ?_⟩, iff_of_false nofun (not_not_intro ⟨first, read, source, hfirst⟩)⟩
    · rintro ⟨⟩
      exact ⟨hfirst, fun other word' start' => hleast other word' start' (Nat.zero_le _)⟩
    · rintro ⟨hsplit, hleast'⟩
      obtain rfl : first = stop := Nat.le_antisymm (hleast stop word start (Nat.zero_le _) hsplit)
        (hleast' first read source hfirst)
      obtain ⟨rfl, rfl⟩ := hfirst.unique hsplit
      rfl

example : splitLoop? "\x7b in: x \x7d in items".toList = some (9, .inWord, 13) := by decide

-- There is nothing in front of the first word, the second one is glued to a name, and the source may be empty.
example : splitLoop? " in\tindex  of\n".toList = some (9, .ofWord, 14) := by decide

end Fragment

end ComponentLint.Markup
