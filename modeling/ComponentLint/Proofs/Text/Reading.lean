import ComponentLint.Proofs.Text.Offsets
import ComponentLint.Text.Scan
import ComponentLint.Text.Stream
import Mathlib.Data.List.TakeWhile

/-!
# Reading off a stream

`Reads` says which characters stand between two states of a stream. Every reader of markup is described by it, so that
nothing a reader passes over can get lost between one reader and the next.
-/

namespace ComponentLint

open Text

namespace Text

/-! ## Up to a mark -/

/-- A run ends in front of what does not pass its test. -/
theorem takeWhile_run {α : Type} {test : α → Bool} {run rest : List α} (hrun : ∀ a ∈ run, test a = true)
    (hrest : ∀ a ∈ rest.head?, test a = false) : (run ++ rest).takeWhile test = run ∧ (run ++ rest).dropWhile test = rest := by
  rw [List.takeWhile_append_of_pos hrun, List.dropWhile_append_of_pos hrun]
  cases rest with
  | nil => simp
  | cons a rest => simp [hrest a rfl]

/-- In front of the first mark there is none. -/
theorem notMem_takeWhile_ne (mark : Char) (text : List Char) : mark ∉ text.takeWhile (· != mark) := by
  intro h
  simpa using List.mem_takeWhile_imp h

/-- What stands in front of the first of its marks, and what stands from there on. -/
theorem takeWhile_ne_append {mark : Char} {front : List Char} (hfront : mark ∉ front) (back : List Char) :
    (front ++ mark :: back).takeWhile (· != mark) = front ∧ (front ++ mark :: back).dropWhile (· != mark) = mark :: back := by
  have hall : ∀ c ∈ front, (c != mark) = true := by
    intro c hc
    exact bne_iff_ne.2 fun heq => hfront (heq ▸ hc)
  exact takeWhile_run hall (by simp)

/-- Where there is no mark everything stands in front of it. -/
theorem takeWhile_ne_of_notMem {mark : Char} {text : List Char} (h : mark ∉ text) :
    text.takeWhile (· != mark) = text ∧ text.dropWhile (· != mark) = [] := by
  have hall : ∀ c ∈ text, (c != mark) = true := by
    intro c hc
    exact bne_iff_ne.2 fun heq => h (heq ▸ hc)
  exact ⟨List.takeWhile_eq_self_iff.2 hall, List.dropWhile_eq_nil_iff.2 hall⟩

end Text

/-! ## Streams -/

namespace Stream

/-- Reading `taken` off the front of a stream leaves `rest`. -/
structure Reads (stream : Stream) (taken : List Char) (rest : Stream) : Prop where
  chars : stream.chars = taken ++ rest.chars
  offset : rest.offset = stream.offset + byteLength taken

theorem Reads.refl (stream : Stream) : stream.Reads [] stream :=
  ⟨rfl, rfl⟩

/-- Readings compose: what is read first stands before what is read next. -/
theorem Reads.trans {s t u : Stream} {a b : List Char} (h : s.Reads a t) (h' : t.Reads b u) : s.Reads (a ++ b) u := by
  refine ⟨?_, ?_⟩
  · rw [h.chars, h'.chars, List.append_assoc]
  · rw [h'.offset, h.offset, byteLength_append, Nat.add_assoc]

theorem Reads.offset_le {s t : Stream} {a : List Char} (h : s.Reads a t) : s.offset ≤ t.offset := by
  rw [h.offset]
  omega

theorem Reads.length {s t : Stream} {a : List Char} (h : s.Reads a t) :
    s.chars.length = a.length + t.chars.length := by
  rw [h.chars, List.length_append]

/-- A stream is left as it is when its offset does not change. -/
theorem Reads.eq_of_offset_eq {s t : Stream} {a : List Char} (h : s.Reads a t) (ho : s.offset = t.offset) : t = s := by
  have hoff := h.offset
  have hnil : a = [] := (byteLength_eq_zero_iff a).1 (by omega)
  have hchars := h.chars
  rw [hnil, List.nil_append] at hchars
  cases s
  cases t
  simp_all

theorem Reads.length_lt {s t : Stream} {a : List Char} (h : s.Reads a t) (ho : s.offset < t.offset) :
    t.chars.length < s.chars.length := by
  have hoff := h.offset
  have hne : a ≠ [] := (byteLength_pos_iff a).1 (by omega)
  have hpos := List.length_pos_iff.2 hne
  have := h.length
  omega

/-- The second stream is what is left of the first after some characters. -/
def Before (stream later : Stream) : Prop :=
  ∃ taken, stream.Reads taken later

namespace Before

variable {s t u : Stream}

theorem refl (s : Stream) : s.Before s :=
  ⟨[], Reads.refl s⟩

theorem trans (h : s.Before t) (h' : t.Before u) : s.Before u := by
  obtain ⟨a, ha⟩ := h
  obtain ⟨b, hb⟩ := h'
  exact ⟨a ++ b, ha.trans hb⟩

theorem offset_le (h : s.Before t) : s.offset ≤ t.offset := by
  obtain ⟨taken, hr⟩ := h
  exact hr.offset_le

end Before

theorem Reads.before {s t : Stream} {taken : List Char} (h : s.Reads taken t) : s.Before t :=
  ⟨taken, h⟩

/-- What is read off a text is its slice between the two offsets. -/
theorem Reads.slice {source before taken : List Char} {s t : Stream} (hbefore : Reads ⟨0, source⟩ before s)
    (h : s.Reads taken t) : Text.slice source ⟨s.offset, t.offset⟩ = taken := by
  have hchars : source = before ++ (taken ++ t.chars) := by
    rw [← h.chars]
    exact hbefore.chars
  have hs : s.offset = byteLength before := by simpa using hbefore.offset
  rw [h.offset, hs, hchars]
  exact slice_append before taken t.chars

/-- Stepping over the first character reads it. -/
theorem reads_next {stream : Stream} {c : Char} {rest : List Char} (h : stream.chars = c :: rest) :
    stream.Reads [c] stream.next := by
  refine ⟨?_, ?_⟩ <;> simp [next, h]

/-- Stepping over several characters reads them. -/
theorem reads_skip {stream : Stream} (taken : List Char) {rest : List Char} {count : Nat} (h : stream.chars = taken ++ rest)
    (hcount : count = taken.length) : stream.Reads taken (skip count stream) := by
  subst hcount
  induction taken generalizing stream with
  | nil => exact Reads.refl stream
  | cons c taken ih =>
    have hc := reads_next h
    have hn : stream.next.chars = taken ++ rest := List.append_cancel_left (hc.chars.symm.trans h)
    exact hc.trans (ih hn)

theorem reads_after {stream : Stream} {taken rest : List Char} (h : stream.chars = taken ++ rest) :
    stream.Reads taken (stream.after taken rest) :=
  ⟨h, rfl⟩

theorem reads_spanFrom (test : Char → Bool) (offset : Nat) (chars : List Char) :
    (⟨offset, chars⟩ : Stream).Reads (spanFrom test offset chars).1 (spanFrom test offset chars).2 := by
  induction chars generalizing offset with
  | nil => exact Reads.refl _
  | cons c rest ih =>
    unfold spanFrom
    split
    · have hfirst : (⟨offset, c :: rest⟩ : Stream).Reads [c] ⟨offset + c.utf8Size, rest⟩ := reads_next rfl
      exact hfirst.trans (ih (offset + c.utf8Size))
    · exact Reads.refl _

/-- The characters that pass a test are read. -/
theorem reads_span (test : Char → Bool) (stream : Stream) :
    stream.Reads (stream.span test).1 (stream.span test).2 :=
  reads_spanFrom test stream.offset stream.chars

theorem spanFrom_fst (test : Char → Bool) (offset : Nat) (chars : List Char) :
    (spanFrom test offset chars).1 = chars.takeWhile test := by
  induction chars generalizing offset with
  | nil => rfl
  | cons c rest ih =>
    unfold spanFrom
    split
    · rename_i hc
      simp [hc, ih (offset + c.utf8Size)]
    · rename_i hc
      simp [hc]

/-- What is read are the characters at the front that pass the test. -/
theorem span_fst (test : Char → Bool) (stream : Stream) : (stream.span test).1 = stream.chars.takeWhile test :=
  spanFrom_fst test stream.offset stream.chars

theorem spanFrom_append {test : Char → Bool} {taken : List Char} {d : Char} (rest : List Char) (offset : Nat)
    (h : ∀ c ∈ taken, test c = true) (hd : test d = false) :
    spanFrom test offset (taken ++ d :: rest) = (taken, ⟨offset + byteLength taken, d :: rest⟩) := by
  induction taken generalizing offset with
  | nil => simp [spanFrom, hd]
  | cons c taken ih =>
    obtain ⟨hc, htaken⟩ := List.forall_mem_cons.1 h
    simp [spanFrom, hc, ih _ htaken, Nat.add_assoc]

/-- Characters that pass the test are read up to the first that does not. -/
theorem span_append {test : Char → Bool} {stream : Stream} {taken rest : List Char} {d : Char}
    (hs : stream.chars = taken ++ d :: rest) (h : ∀ c ∈ taken, test c = true) (hd : test d = false) :
    stream.span test = (taken, stream.after taken (d :: rest)) := by
  rw [span, hs]
  exact spanFrom_append rest stream.offset h hd

/-- Stepping over one part and then over the next is stepping over both. -/
theorem after_after (stream : Stream) (a b mid rest : List Char) :
    (stream.after a mid).after b rest = stream.after (a ++ b) rest := by
  simp [after, Nat.add_assoc]

/-- Every character that is read passes the test. -/
theorem of_mem_span {test : Char → Bool} {stream : Stream} {c : Char} (h : c ∈ (stream.span test).1) : test c = true := by
  rw [span_fst] at h
  exact List.all_eq_true.1 List.all_takeWhile c h

/-! ### Streams at another place -/

/-- The same text, further right. -/
def shift (stream : Stream) (distance : Nat) : Stream :=
  { stream with offset := stream.offset + distance }

section Shift

variable (stream : Stream) (distance : Nat)

@[simp] theorem shift_chars : (stream.shift distance).chars = stream.chars := rfl

@[simp] theorem shift_offset : (stream.shift distance).offset = stream.offset + distance := rfl

theorem shift_next : (stream.shift distance).next = stream.next.shift distance := by
  obtain ⟨offset, chars⟩ := stream
  cases chars with
  | nil => rfl
  | cons c rest => simp [next, shift, Nat.add_right_comm]

theorem shift_skip (count : Nat) : (stream.shift distance).skip count = (stream.skip count).shift distance := by
  induction count generalizing stream with
  | zero => rfl
  | succ count ih => rw [skip, skip, shift_next, ih]

theorem shift_after (taken rest : List Char) :
    (stream.shift distance).after taken rest = (stream.after taken rest).shift distance := by
  simp [after, shift, Nat.add_right_comm]

theorem shift_span (test : Char → Bool) :
    (stream.shift distance).span test = ((stream.span test).1, (stream.span test).2.shift distance) := by
  have hfrom : ∀ chars offset, spanFrom test (offset + distance) chars =
      ((spanFrom test offset chars).1, (spanFrom test offset chars).2.shift distance) := by
    intro chars
    induction chars with
    | nil => exact fun _ => rfl
    | cons c rest ih =>
      intro offset
      unfold spanFrom
      split
      · rw [Nat.add_right_comm, ih]
      · rfl
  exact hfrom stream.chars stream.offset

end Shift

end Stream

namespace Text

/-- A cut takes the text apart at an occurrence of the word. -/
theorem eq_of_cutAt? {word text before after : List Char} (h : cutAt? word text = some (before, after)) :
    text = before ++ (word ++ after) := by
  induction text generalizing before with
  | nil =>
    unfold cutAt? at h
    split at h
    · rename_i he
      obtain ⟨rfl, rfl⟩ := Prod.mk.inj (Option.some.inj h)
      simp [List.isEmpty_iff.1 he]
    · nomatch h
  | cons c rest ih =>
    unfold cutAt? at h
    split at h
    · rename_i hp
      obtain ⟨rfl, rfl⟩ := Prod.mk.inj (Option.some.inj h)
      obtain ⟨tail, ht⟩ := List.isPrefixOf_iff_prefix.1 hp
      rw [← ht]
      simp
    · obtain ⟨⟨b, a⟩, hb, he⟩ := Option.map_eq_some_iff.1 h
      obtain ⟨rfl, rfl⟩ := Prod.mk.inj he
      rw [ih hb]
      rfl

end Text

end ComponentLint
