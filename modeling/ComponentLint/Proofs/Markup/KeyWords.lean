import ComponentLint.Proofs.Markup.KeyParts
import ComponentLint.Proofs.Markup.Moving

/-!
# What is read behind an argument

The modifiers of a key are the words between the dots of what its argument leaves. Their texts depend neither on where the
key stands nor on dots that follow one another, and an argument is read again wherever a text stands behind it that it ends
in front of (`EndsBefore`). With both one can say what a key says after its text has been edited.
-/

namespace ComponentLint.Markup.Key

open Text

/-! ## Words between dots -/

/-- The parts of a text between its dots that are not empty. -/
def words (text : List Char) : List String :=
  ((text.splitOnP (· == '.')).filter (!·.isEmpty)).map String.ofList

@[simp] theorem words_nil : words [] = [] := rfl

@[simp] theorem words_append_dot (front back : List Char) : words (front ++ '.' :: back) = words front ++ words back := by
  rw [words, List.splitOnP_append_cons (p := (· == '.')) front back rfl, List.filter_append, List.map_append]
  rfl

@[simp] theorem words_dot (back : List Char) : words ('.' :: back) = words back := words_append_dot [] back

theorem words_of_notMem {word : List Char} (hne : word ≠ []) (hdot : '.' ∉ word) : words word = [String.ofList word] := by
  have hletter : ∀ c ∈ word, (c == '.') = false := by
    intro c hc
    exact beq_eq_false_iff_ne.2 fun heq => hdot (heq ▸ hc)
  rw [words, List.splitOnP_eq_singleton hletter]
  simp [hne]

/-- A word that is glued to the front of a text becomes part of its first word. -/
theorem length_words_append {word text : List Char} (hdot : '.' ∉ word) (hhead : ∀ c ∈ text.head?, c ≠ '.') (hne : text ≠ []) :
    (words (word ++ text)).length = (words text).length := by
  have hfirst := notMem_takeWhile_ne '.' text
  have hsplit := List.takeWhile_append_dropWhile (p := (· != '.')) (l := text)
  have hstop := List.head?_dropWhile_not (p := (· != '.')) (l := text)
  have hfirst_ne : text.takeWhile (· != '.') ≠ [] := by
    cases text with
    | nil => exact absurd rfl hne
    | cons c text =>
      have hc : c ≠ '.' := hhead c rfl
      simp [hc]
  generalize text.takeWhile (· != '.') = first at hfirst hsplit hfirst_ne
  generalize text.dropWhile (· != '.') = back at hsplit hstop
  subst hsplit
  have hglued : '.' ∉ word ++ first := by simp [hdot, hfirst]
  rw [← List.append_assoc]
  cases back with
  | nil =>
    rw [List.append_nil, List.append_nil, words_of_notMem hfirst_ne hfirst, words_of_notMem (by simp [hfirst_ne]) hglued]
    rfl
  | cons c back =>
    obtain rfl : c = '.' := by simpa using hstop
    rw [words_append_dot, words_append_dot, words_of_notMem hfirst_ne hfirst, words_of_notMem (by simp [hfirst_ne]) hglued]
    simp

/-- The texts of the modifiers are the words of the text they are read from. -/
theorem dotted_texts {part : List Char} (offset : Nat) (hpart : '.' ∉ part) (text : List Char) :
    (dotted offset part text).map (·.text) = words (part.reverse ++ text) := by
  have hending : ∀ offset, ∀ part : List Char, '.' ∉ part →
      (dotted.ending offset part).map (·.text) = words part.reverse := by
    intro offset part hpart
    cases part with
    | nil => rfl
    | cons c part =>
      rw [words_of_notMem (by simp) (by rwa [List.mem_reverse])]
      rfl
  induction text generalizing offset part with
  | nil => simpa [dotted] using hending offset part hpart
  | cons c text ih =>
    unfold dotted
    split
    · next hc =>
      obtain rfl : c = '.' := eq_of_beq hc
      rw [List.map_append, hending offset part hpart, ih _ (List.not_mem_nil), words_append_dot]
      rfl
    · next hc =>
      have hc : c ≠ '.' := by simpa using hc
      have hpart' : '.' ∉ c :: part := by simp [hpart, hc.symm]
      simpa using ih offset hpart'

/-- A name stands in a text that starts at an offset, between dots or the ends of the text. -/
def StandsBetweenDots (offset : Nat) (text : List Char) (name : Name) : Prop :=
  ∃ before after, text = before ++ (name.text.toList ++ after) ∧
    name.span = ⟨offset + byteLength before, offset + byteLength before + byteLength name.text.toList⟩ ∧
    (before = [] ∨ ∃ front, before = front ++ ['.']) ∧ (after = [] ∨ ∃ back, after = '.' :: back)

/-- The name at hand stands in front of what is left. -/
theorem standsBetweenDots_of_mem_ending {offset : Nat} {part after : List Char} {name : Name}
    (h : name ∈ dotted.ending offset part) (hafter : after = [] ∨ ∃ back, after = '.' :: back) :
    StandsBetweenDots offset (part.reverse ++ after) name := by
  unfold dotted.ending at h
  split at h
  · cases h
  · obtain rfl := List.mem_singleton.1 h
    exact ⟨[], after, by simp [nameAt], by simp [nameAt], Or.inl rfl, hafter⟩

/-- A modifier stands between dots, or the ends, of the text that the modifiers are read from. -/
theorem standsBetweenDots_of_mem_dotted {offset : Nat} {part text : List Char} {name : Name}
    (h : name ∈ dotted offset part text) : StandsBetweenDots offset (part.reverse ++ text) name := by
  induction text generalizing offset part with
  | nil => exact standsBetweenDots_of_mem_ending h (Or.inl rfl)
  | cons c text ih =>
    unfold dotted at h
    split at h
    · next hc =>
      obtain rfl : c = '.' := eq_of_beq hc
      rcases List.mem_append.1 h with hhere | hlater
      · exact standsBetweenDots_of_mem_ending hhere (Or.inr ⟨text, rfl⟩)
      · obtain ⟨before, after, htext, hspan, hbefore, hafter⟩ := ih hlater
        have htext : text = before ++ (name.text.toList ++ after) := htext
        refine ⟨part.reverse ++ '.' :: before, after, by simp [htext], ?_, Or.inr ?_, hafter⟩
        · have hsize : Char.utf8Size '.' = 1 := rfl
          simp only [hspan, byteLength_append, byteLength_cons, byteLength_reverse, hsize, Span.mk.injEq]
          omega
        · rcases hbefore with rfl | ⟨front, rfl⟩
          · exact ⟨part.reverse, rfl⟩
          · exact ⟨part.reverse ++ '.' :: front, by simp⟩
    · simpa using ih h

/-- The part at hand becomes a modifier that starts where it does. -/
theorem exists_mem_dotted_start {part : List Char} (hne : part ≠ []) (offset : Nat) (text : List Char) :
    ∃ name ∈ dotted offset part text, name.span.start = offset := by
  have hending : nameAt offset part.reverse ∈ dotted.ending offset part := by
    simp [dotted.ending, hne]
  induction text generalizing part with
  | nil => exact ⟨_, hending, rfl⟩
  | cons c text ih =>
    unfold dotted
    split
    · exact ⟨_, List.mem_append_left _ hending, rfl⟩
    · exact ih (List.cons_ne_nil c part) (by simp [dotted.ending])

/-- A modifier starts where the text does unless a dot, or nothing, stands there. -/
theorem exists_mem_dotted_start_iff (offset : Nat) (text : List Char) :
    (∃ name ∈ dotted offset [] text, name.span.start = offset) ↔ ¬ (text = [] ∨ ∃ back, text = '.' :: back) := by
  cases text with
  | nil => simp [dotted, dotted.ending]
  | cons c text =>
    by_cases hc : c = '.'
    · subst hc
      refine iff_of_false ?_ (not_not_intro (Or.inr ⟨text, rfl⟩))
      rintro ⟨name, hname, hstart⟩
      have hname : name ∈ dotted (offset + 1) [] text := hname
      have hwithin := ((dotted_layout (offset + 1) [] text).within _ (List.mem_map_of_mem hname)).1
      have hstart' : name.part.span.start = offset := hstart
      omega
    · refine iff_of_true ?_ (by simp [hc])
      have hbehind := exists_mem_dotted_start (List.cons_ne_nil c []) offset text
      simpa [dotted, hc] using hbehind

/-! ## Arguments -/

/-- What may stand behind the text of an argument: behind a name a dot or nothing, behind brackets that are closed any text,
and nothing behind brackets that are not. -/
inductive EndsBefore : List Char → List Char → Prop where
  | name {name rest : List Char} (hne : name ≠ []) (hbracket : name.head? ≠ some '[') (hdot : '.' ∉ name)
      (hrest : rest = [] ∨ ∃ back, rest = '.' :: back) : EndsBefore name rest
  | closed {inner : List Char} (rest : List Char) (hinner : ']' ∉ inner) : EndsBefore ('[' :: inner ++ [']']) rest
  | unclosed {inner : List Char} (hinner : ']' ∉ inner) : EndsBefore ('[' :: inner) []

theorem EndsBefore.taken_ne_nil {taken rest : List Char} (h : EndsBefore taken rest) : taken ≠ [] := by
  cases h with
  | name hne _ _ _ => exact hne
  | closed _ _ => simp
  | unclosed _ => simp

/-- The argument that a text is read as. -/
def argumentAt (offset : Nat) : List Char → Argument
  | '[' :: inner => .dynamic ⟨offset, offset + byteLength ('[' :: inner)⟩ (String.ofList (inner.takeWhile (· != ']')))
  | name => .static (nameAt offset name)

theorem argumentAt_name {name : List Char} (hbracket : name.head? ≠ some '[') (offset : Nat) :
    argumentAt offset name = .static (nameAt offset name) := by
  unfold argumentAt
  split
  · exact absurd rfl hbracket
  · rfl

theorem argumentAt_span (offset : Nat) (taken : List Char) :
    (argumentAt offset taken).span = ⟨offset, offset + byteLength taken⟩ := by
  unfold argumentAt
  split
  · rfl
  · rfl

/-- An argument is read up to where it ends, whatever stands behind it. -/
theorem readArgument_append {taken rest : List Char} (h : EndsBefore taken rest) (offset : Nat) :
    readArgument offset (taken ++ rest) = (some (argumentAt offset taken), offset + byteLength taken, rest) := by
  cases h with
  | name hne hbracket hdot hrest =>
    have hparts : (taken ++ rest).takeWhile (· != '.') = taken ∧ (taken ++ rest).dropWhile (· != '.') = rest := by
      rcases hrest with rfl | ⟨back, rfl⟩
      · simpa using takeWhile_ne_of_notMem hdot
      · exact takeWhile_ne_append hdot back
    unfold readArgument
    split
    · next heq =>
      refine absurd ?_ hbracket
      cases taken with
      | nil => exact absurd rfl hne
      | cons c taken => simp_all
    · rw [argumentAt_name hbracket]
      simp [hparts, hne]
  | @closed inner rest hinner =>
    have htext : '[' :: inner ++ [']'] ++ rest = '[' :: (inner ++ ']' :: rest) := by simp
    have hparts := takeWhile_ne_append hinner rest
    have hinside := takeWhile_ne_append hinner []
    have hstop : offset + byteLength ('[' :: inner ++ [']']) = offset + 1 + byteLength inner + 1 := by
      rw [byteLength_append]
      show offset + ((1 + byteLength inner) + 1) = _
      omega
    rw [htext, hstop]
    unfold readArgument
    simp only [hparts, List.cons_append, argumentAt, hinside]
    rw [← List.cons_append, hstop]
  | @unclosed inner hinner =>
    have hparts := takeWhile_ne_of_notMem hinner
    have hstop : offset + byteLength ('[' :: inner) = offset + 1 + byteLength inner := by
      show offset + (1 + byteLength inner) = _
      omega
    rw [List.append_nil, hstop]
    unfold readArgument
    simp only [hparts, argumentAt, hstop]

/-- Where an argument is read, the text falls into the text of the argument and what it ends in front of. -/
theorem exists_endsBefore {offset : Nat} {text : List Char} {argument : Argument}
    (h : (readArgument offset text).1 = some argument) :
    ∃ taken rest, text = taken ++ rest ∧ EndsBefore taken rest ∧ argument = argumentAt offset taken := by
  suffices hparts : ∃ taken rest, text = taken ++ rest ∧ EndsBefore taken rest by
    obtain ⟨taken, rest, rfl, hends⟩ := hparts
    rw [readArgument_append hends] at h
    exact ⟨taken, rest, rfl, hends, (Option.some.inj h).symm⟩
  unfold readArgument at h
  split at h
  · next inner =>
    have hinner := notMem_takeWhile_ne ']' inner
    have hsplit := List.takeWhile_append_dropWhile (p := (· != ']')) (l := inner)
    have hstop := List.head?_dropWhile_not (p := (· != ']')) (l := inner)
    cases hafter : inner.dropWhile (· != ']') with
    | nil =>
      rw [hafter, List.append_nil] at hsplit
      rw [hsplit] at hinner
      exact ⟨'[' :: inner, [], by simp, .unclosed hinner⟩
    | cons c after =>
      rw [hafter] at hstop hsplit
      obtain rfl : c = ']' := by simpa using hstop
      exact ⟨'[' :: inner.takeWhile (· != ']') ++ [']'], after, by simp [hsplit], .closed after hinner⟩
  · next hbracket =>
    have hdot := notMem_takeWhile_ne '.' text
    have hsplit := List.takeWhile_append_dropWhile (p := (· != '.')) (l := text)
    have hstop := List.head?_dropWhile_not (p := (· != '.')) (l := text)
    dsimp only at h
    split at h
    · cases h
    · next hne =>
      refine ⟨text.takeWhile (· != '.'), text.dropWhile (· != '.'), hsplit.symm, .name (by simpa using hne) ?_ hdot ?_⟩
      · intro hhead
        cases text with
        | nil => cases hhead
        | cons c text =>
          rw [List.takeWhile_cons] at hhead
          split at hhead
          · exact hbracket text (by rw [Option.some.inj hhead])
          · cases hhead
      · cases hback : text.dropWhile (· != '.') with
        | nil => exact Or.inl rfl
        | cons c back =>
          rw [hback] at hstop
          obtain rfl : c = '.' := by simpa using hstop
          exact Or.inr ⟨back, rfl⟩

/-- What is read behind an opening bracket: the text up to the next closing one. -/
theorem readArgument_bracket (offset : Nat) (text : List Char) :
    ∃ span, (readArgument offset ('[' :: text)).1 = some (.dynamic span (String.ofList (text.takeWhile (· != ']')))) := by
  cases hafter : text.dropWhile (· != ']') with
  | nil => exact ⟨_, by rw [readArgument, hafter]⟩
  | cons c after => exact ⟨_, by rw [readArgument, hafter]⟩

end ComponentLint.Markup.Key
