import ComponentLint.Text.CharClass
import ComponentLint.Text.Span

/-!
# Offsets of a text

`splitAt?`, `slice?` and `isBoundary` are about offsets; here they are read as statements about the characters on the two
sides of an offset. `bytes` is the UTF-8 form that the offsets count.

An ASCII character is one byte, and no other character has that byte in it (`eq_of_mem_utf8EncodeChar`). So what
is asked of bytes by a list of ASCII characters is what is asked of the text: which of them stand at the front
(`takeWhile_bytes`), how many there are (`countP_bytes`), and whether one of them is the last
(`getLast?_bytes`).
-/

namespace ComponentLint

namespace Span

/-- Whether an offset is one of the bytes of a span. -/
def Holds (span : Span) (offset : Nat) : Prop :=
  span.start ≤ offset ∧ offset < span.stop

/-- Whether a span lies inside another one. -/
def Within (inner outer : Span) : Prop :=
  outer.start ≤ inner.start ∧ inner.stop ≤ outer.stop

instance (inner outer : Span) : Decidable (inner.Within outer) :=
  inferInstanceAs (Decidable (_ ∧ _))

end Span

namespace Text

/-- The UTF-8 form of a text. -/
def bytes (text : List Char) : List UInt8 :=
  text.flatMap String.utf8EncodeChar

@[simp] theorem bytes_nil : bytes [] = [] := rfl

@[simp] theorem bytes_cons (c : Char) (rest : List Char) : bytes (c :: rest) = String.utf8EncodeChar c ++ bytes rest :=
  List.flatMap_cons

@[simp] theorem bytes_append (a b : List Char) : bytes (a ++ b) = bytes a ++ bytes b :=
  List.flatMap_append

/-- The length that offsets count is the number of bytes. -/
@[simp] theorem length_bytes (text : List Char) : (bytes text).length = byteLength text := by
  induction text with
  | nil => rfl
  | cons c rest ih => simp [ih]

/-- The byte after a text is the first byte of the character that follows it, when that character takes one byte. -/
theorem bytes_get_one {before after : List Char} {c : Char} (hc : c.utf8Size = 1) :
    (bytes (before ++ c :: after))[byteLength before]? = some c.val.toUInt8 := by
  rw [bytes_append, List.getElem?_append_right (by simp)]
  simp [String.utf8EncodeChar_eq_singleton hc]

/-- Only the empty text takes no bytes. -/
theorem byteLength_eq_zero_iff (text : List Char) : byteLength text = 0 ↔ text = [] := by
  cases text with
  | nil => simp
  | cons c rest => have := c.utf8Size_pos; simp; omega

theorem byteLength_pos_iff (text : List Char) : 0 < byteLength text ↔ text ≠ [] := by
  rw [Nat.pos_iff_ne_zero, Ne, byteLength_eq_zero_iff]

@[simp] theorem byteLength_reverse (text : List Char) : byteLength text.reverse = byteLength text := by
  induction text with
  | nil => rfl
  | cons c rest ih => simp [ih, Nat.add_comm]

/-- A split gives two parts that make up the text, the first of the length asked for. -/
theorem splitAt?_eq_some_iff {count : Nat} {text a b : List Char} :
    splitAt? count text = some (a, b) ↔ text = a ++ b ∧ byteLength a = count := by
  constructor
  · intro h
    fun_induction splitAt? count text generalizing a with
    | case1 text => simp_all
    | case2 => simp at h
    | case3 count c rest hle ih =>
      obtain ⟨⟨before, after⟩, hb, he⟩ := Option.map_eq_some_iff.1 h
      obtain ⟨rfl, rfl⟩ := Prod.mk.inj he
      obtain ⟨rfl, hl⟩ := ih hb
      exact ⟨rfl, by simp only [byteLength_cons]; omega⟩
    | case4 => simp at h
  · rintro ⟨rfl, rfl⟩
    exact splitAt?_byteLength a b

/-- A text is cut in two by the length of its front. -/
theorem append_inj_of_byteLength {front back front' back' : List Char} (h : front ++ back = front' ++ back')
    (hlength : byteLength front = byteLength front') : front = front' ∧ back = back' := by
  have hsplit := splitAt?_byteLength front back
  rw [splitAt?_eq_some_iff.2 ⟨h, hlength.symm⟩] at hsplit
  obtain ⟨hfront, hback⟩ := Prod.mk.inj (Option.some.inj hsplit)
  exact ⟨hfront.symm, hback.symm⟩

/-- An offset is a position of the text exactly when it is the length of a part at its front. -/
theorem isBoundary_iff {text : List Char} {offset : Nat} :
    isBoundary text offset = true ↔ ∃ a b, text = a ++ b ∧ byteLength a = offset := by
  rw [isBoundary, Option.isSome_iff_exists]
  constructor
  · rintro ⟨⟨a, b⟩, h⟩
    exact ⟨a, b, splitAt?_eq_some_iff.1 h⟩
  · rintro ⟨a, b, h⟩
    exact ⟨(a, b), splitAt?_eq_some_iff.2 h⟩

theorem isBoundary_le {text : List Char} {offset : Nat} (h : isBoundary text offset = true) :
    offset ≤ byteLength text := by
  obtain ⟨a, b, rfl, rfl⟩ := isBoundary_iff.1 h
  simp

/-- The slice of the middle part of a text. -/
theorem slice_append (a b c : List Char) :
    slice (a ++ (b ++ c)) ⟨byteLength a, byteLength a + byteLength b⟩ = b := by
  have hb : splitAt? (byteLength b) (b ++ c) = some (b, c) := splitAt?_byteLength b c
  simp [slice, slice?, splitAt?_byteLength a (b ++ c), hb]

/-- Of two ways to cut a text, the shorter front is the start of the other one. -/
theorem exists_of_append_eq {a b c d : List Char} (h : a ++ b = c ++ d) (hle : byteLength a ≤ byteLength c) :
    ∃ between, c = a ++ between ∧ b = between ++ d := by
  rcases List.append_eq_append_iff.1 h with ⟨between, rfl, rfl⟩ | ⟨between, rfl, rfl⟩
  · exact ⟨between, rfl, rfl⟩
  · have hnil : between = [] := (byteLength_eq_zero_iff between).1 (by simp only [byteLength_append] at hle; omega)
    subst hnil
    exact ⟨[], by simp, by simp⟩

/-- Two positions in order cut a text into three parts. -/
theorem exists_parts {text : List Char} {first last : Nat} (hf : isBoundary text first = true)
    (hl : isBoundary text last = true) (hle : first ≤ last) :
    ∃ a b c, text = a ++ (b ++ c) ∧ byteLength a = first ∧ byteLength a + byteLength b = last := by
  obtain ⟨a, rest, rfl, rfl⟩ := isBoundary_iff.1 hf
  obtain ⟨front, c, heq, rfl⟩ := isBoundary_iff.1 hl
  obtain ⟨b, rfl, rfl⟩ := exists_of_append_eq heq hle
  exact ⟨a, b, c, rfl, rfl, by simp⟩

/-- A position behind the first part of a text is a position of the second part. -/
theorem isBoundary_of_append {a b : List Char} {offset : Nat} (h : isBoundary (a ++ b) (byteLength a + offset) = true) :
    isBoundary b offset = true := by
  obtain ⟨a', b', c, he, ha, hb⟩ :=
    exists_parts (isBoundary_iff.2 ⟨a, b, rfl, rfl⟩) h (Nat.le_add_right (byteLength a) offset)
  have hsplit := splitAt?_eq_some_iff.2 ⟨he, ha⟩
  rw [splitAt?_byteLength] at hsplit
  obtain ⟨rfl, rfl⟩ := Prod.mk.inj (Option.some.inj hsplit)
  exact isBoundary_iff.2 ⟨b', c, rfl, Nat.add_left_cancel hb⟩

/-! ## ASCII characters among bytes -/

/-- The bytes of a character that takes more than one are all behind the ASCII codes. -/
theorem le_of_mem_utf8EncodeChar {c : Char} (h : 127 < c.val.toNat) {byte : UInt8} (hbyte : byte ∈ String.utf8EncodeChar c) :
    128 ≤ byte.toNat := by
  unfold String.utf8EncodeChar at hbyte
  extract_lets code at hbyte
  rw [if_neg (Nat.not_le.2 h)] at hbyte
  split at hbyte
  · simp only [List.mem_cons, List.not_mem_nil, or_false] at hbyte
    rcases hbyte with rfl | rfl
    all_goals rw [UInt8.toNat_ofNat']; omega
  · split at hbyte
    all_goals
      simp only [List.mem_cons, List.not_mem_nil, or_false] at hbyte
    · rcases hbyte with rfl | rfl | rfl
      all_goals rw [UInt8.toNat_ofNat']; omega
    · rcases hbyte with rfl | rfl | rfl | rfl
      all_goals rw [UInt8.toNat_ofNat']; omega

/-- An ASCII character is one byte, its code. -/
theorem exists_byte {c : Char} (h : isAscii c = true) : ∃ byte, String.utf8EncodeChar c = [byte] ∧ byte.toNat = c.toNat := by
  have hcode : c.val.toNat < 128 := of_decide_eq_true h
  refine ⟨UInt8.ofNat c.val.toNat, ?_, ?_⟩
  · rw [String.utf8EncodeChar, if_pos (Nat.le_of_lt_succ hcode)]
  · rw [UInt8.toNat_ofNat', Nat.mod_eq_of_lt (Nat.lt_trans hcode (by decide))]
    rfl

/-- The byte of an ASCII character is in no other character. -/
theorem eq_of_mem_utf8EncodeChar {c d : Char} (hc : isAscii c = true) {byte : UInt8} (hbyte : byte ∈ String.utf8EncodeChar c)
    (hbyte' : byte ∈ String.utf8EncodeChar d) : d = c := by
  obtain ⟨code, hcode, hvalue⟩ := exists_byte hc
  obtain rfl : byte = code := by simpa [hcode] using hbyte
  by_cases hd : isAscii d = true
  · obtain ⟨code', hcode', hvalue'⟩ := exists_byte hd
    obtain rfl : byte = code' := by simpa [hcode'] using hbyte'
    exact Char.toNat_inj.1 (hvalue'.symm.trans hvalue)
  · have hlarge : 127 < d.val.toNat := Nat.not_le.1 fun hle => hd (decide_eq_true (Nat.lt_succ_of_le hle))
    have hle := le_of_mem_utf8EncodeChar hlarge hbyte'
    have hlt : c.toNat < 128 := of_decide_eq_true hc
    omega

theorem utf8EncodeChar_ne_nil (c : Char) : String.utf8EncodeChar c ≠ [] := by
  intro hnil
  have hlength := congrArg List.length hnil
  rw [String.length_utf8EncodeChar, List.length_nil] at hlength
  exact absurd hlength (Nat.ne_of_gt c.utf8Size_pos)

/-- A text of ASCII characters is found at the front of a text if its bytes are found at the front of the bytes. -/
theorem exists_of_bytes_eq_append {word text : List Char} (hword : ∀ c ∈ word, isAscii c = true) {rest : List UInt8}
    (h : bytes text = bytes word ++ rest) : ∃ behind, text = word ++ behind ∧ bytes behind = rest := by
  induction word generalizing text with
  | nil => exact ⟨text, rfl, h⟩
  | cons c word ih =>
    obtain ⟨hc, hrest⟩ := List.forall_mem_cons.1 hword
    obtain ⟨byte, hbyte, -⟩ := exists_byte hc
    cases text with
    | nil => simp [hbyte] at h
    | cons d text =>
      rw [bytes_cons, bytes_cons, hbyte] at h
      obtain ⟨first, more, hd⟩ := List.exists_cons_of_ne_nil (utf8EncodeChar_ne_nil d)
      have hfirst : first = byte := by
        rw [hd] at h
        exact (List.cons.inj h).1
      have hmem : byte ∈ String.utf8EncodeChar c := by simp [hbyte]
      have hmem' : byte ∈ String.utf8EncodeChar d := by simp [hd, hfirst]
      obtain rfl : d = c := eq_of_mem_utf8EncodeChar hc hmem hmem'
      rw [hbyte, List.append_assoc] at h
      obtain ⟨behind, rfl, hbehind⟩ := ih hrest (List.append_cancel_left h)
      exact ⟨behind, rfl, hbehind⟩

section Marks

variable {marks : List Char}

/-- A byte of a character is one of the marks if the character is. -/
theorem mem_bytes_iff (h : ∀ mark ∈ marks, isAscii mark = true) {c : Char} {byte : UInt8}
    (hbyte : byte ∈ String.utf8EncodeChar c) :
    byte ∈ bytes marks ↔ c ∈ marks := by
  rw [bytes, List.mem_flatMap]
  constructor
  · rintro ⟨mark, hmark, hmem⟩
    rwa [eq_of_mem_utf8EncodeChar (h mark hmark) hmem hbyte]
  · exact fun hc => ⟨c, hc, hbyte⟩

theorem contains_bytes (h : ∀ mark ∈ marks, isAscii mark = true) {c : Char} {byte : UInt8}
    (hbyte : byte ∈ String.utf8EncodeChar c) :
    (bytes marks).contains byte = marks.contains c := by
  rw [Bool.eq_iff_iff, List.contains_iff_mem, List.contains_iff_mem]
  exact mem_bytes_iff h hbyte

/-- The marks at the front of the bytes are those at the front of the text. -/
theorem takeWhile_bytes (h : ∀ mark ∈ marks, isAscii mark = true) (text : List Char) :
    (bytes text).takeWhile (bytes marks).contains = bytes (text.takeWhile marks.contains) ∧
      (bytes text).dropWhile (bytes marks).contains = bytes (text.dropWhile marks.contains) := by
  induction text with
  | nil => exact ⟨rfl, rfl⟩
  | cons c text ih =>
    have hsame : ∀ byte ∈ String.utf8EncodeChar c, (bytes marks).contains byte = marks.contains c :=
      fun byte hbyte => contains_bytes h hbyte
    cases hc : marks.contains c with
    | true =>
      rw [hc] at hsame
      rw [bytes_cons, List.takeWhile_append_of_pos hsame, List.dropWhile_append_of_pos hsame, List.takeWhile_cons_of_pos hc,
        List.dropWhile_cons_of_pos hc, bytes_cons, ih.1, ih.2]
      exact ⟨rfl, rfl⟩
    | false =>
      obtain ⟨byte, more, hbytes⟩ := List.exists_cons_of_ne_nil (utf8EncodeChar_ne_nil c)
      have hbyte : (bytes marks).contains byte = false := (hsame byte (by simp [hbytes])).trans hc
      rw [bytes_cons, hbytes, List.cons_append, List.takeWhile_cons_of_neg (by simpa using hbyte),
        List.dropWhile_cons_of_neg (by simpa using hbyte), List.takeWhile_cons_of_neg (by simpa using hc),
        List.dropWhile_cons_of_neg (by simpa using hc), bytes_cons, hbytes]
      exact ⟨rfl, rfl⟩

/-- There are as many marks among the bytes as in the text. -/
theorem countP_bytes (h : ∀ mark ∈ marks, isAscii mark = true) (text : List Char) :
    (bytes text).countP (bytes marks).contains = text.countP marks.contains := by
  induction text with
  | nil => rfl
  | cons c text ih =>
    have hsame : ∀ byte ∈ String.utf8EncodeChar c, (bytes marks).contains byte = marks.contains c :=
      fun byte hbyte => contains_bytes h hbyte
    have hchar : (String.utf8EncodeChar c).countP (bytes marks).contains = if marks.contains c then 1 else 0 := by
      cases hc : marks.contains c with
      | true =>
        obtain ⟨byte, hbyte, -⟩ := exists_byte (h c (List.contains_iff_mem.1 hc))
        rw [List.countP_eq_length.2 fun byte hbyte => (hsame byte hbyte).trans hc, hbyte]
        rfl
      | false =>
        rw [List.countP_eq_zero.2 fun byte hbyte => by rw [hsame byte hbyte, hc]; exact Bool.false_ne_true]
        rfl
    rw [bytes_cons, List.countP_append, List.countP_cons, hchar, ih, Nat.add_comm]

/-- The bytes end with a mark if the text does. -/
theorem getLast?_bytes (h : ∀ mark ∈ marks, isAscii mark = true) (text : List Char) :
    (bytes text).getLast?.any (bytes marks).contains = text.getLast?.any marks.contains := by
  rcases List.eq_nil_or_concat text with rfl | ⟨front, c, rfl⟩
  · rfl
  · have hlast := contains_bytes h (List.getLast_mem (utf8EncodeChar_ne_nil c))
    have hbytes : (bytes (front.concat c)).getLast? = some ((String.utf8EncodeChar c).getLast (utf8EncodeChar_ne_nil c)) := by
      simp [List.getLast?_append, List.getLast?_eq_some_getLast (utf8EncodeChar_ne_nil c)]
    rw [hbytes, Option.any_some, hlast]
    simp

end Marks

end Text

end ComponentLint
