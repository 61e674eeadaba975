import ComponentLint.Proofs.Text.Reading
import Mathlib.Data.List.Chain

/-!
# Words in a text

A word occurs in a text if the text can be taken apart around it (`occurs_iff`). It does not reach over a
character that it does not hold (`occurs_split`), so characters of other kinds may be added to a text, or left
out, without changing which words occur.
-/

namespace ComponentLint.Text

/-- A word occurs where the text can be taken apart around it. -/
theorem occurs_iff {word text : List Char} (hne : word ≠ []) :
    occurs word text = true ↔ ∃ before after, text = before ++ (word ++ after) := by
  refine ⟨fun h => ?_, ?_⟩
  · obtain ⟨⟨before, after⟩, hcut⟩ := Option.isSome_iff_exists.1 h
    exact ⟨before, after, eq_of_cutAt? hcut⟩
  · rintro ⟨before, after, rfl⟩
    induction before with
    | nil =>
      obtain ⟨c, word, rfl⟩ := List.exists_cons_of_ne_nil hne
      have hprefix : (c :: word).isPrefixOf (c :: (word ++ after)) = true :=
        List.isPrefixOf_iff_prefix.2 ⟨after, rfl⟩
      rw [occurs, List.nil_append, List.cons_append, cutAt?, if_pos hprefix]
      rfl
    | cons c before ih =>
      rw [occurs] at ih ⊢
      rw [List.cons_append, cutAt?]
      split
      · rfl
      · rwa [Option.isSome_map]

/-- A text is cut around the first place where it can be taken apart so. -/
theorem cutAt?_eq_some_iff {word text before after : List Char} (hne : word ≠ []) :
    cutAt? word text = some (before, after) ↔ text = before ++ (word ++ after) ∧
      ∀ other rest, text = other ++ (word ++ rest) → before.length ≤ other.length := by
  -- Nothing before the cut starts with the word.
  have hleast : ∀ {text before after : List Char}, cutAt? word text = some (before, after) → ∀ other rest,
      text = other ++ (word ++ rest) → before.length ≤ other.length := by
    intro text before after h other rest heq
    induction text generalizing before other with
    | nil => simp [hne] at heq
    | cons c text ih =>
      rw [cutAt?] at h
      split at h
      · rw [← (Prod.mk.inj (Option.some.inj h)).1]
        exact Nat.zero_le _
      · next hnot =>
        obtain ⟨⟨before, after⟩, hcut, hpair⟩ := Option.map_eq_some_iff.1 h
        obtain ⟨rfl, rfl⟩ := Prod.mk.inj hpair
        cases other with
        | nil => exact absurd (List.isPrefixOf_iff_prefix.2 ⟨rest, heq.symm⟩) hnot
        | cons d other => exact Nat.succ_le_succ (ih hcut other (List.cons.inj heq).2)
  refine ⟨fun h => ⟨eq_of_cutAt? h, hleast h⟩, ?_⟩
  rintro ⟨rfl, hfirst⟩
  obtain ⟨⟨other, rest⟩, hcut⟩ := Option.isSome_iff_exists.1 ((occurs_iff hne).2 ⟨before, after, rfl⟩)
  have heq := eq_of_cutAt? hcut
  obtain ⟨rfl, hrest⟩ := List.append_inj heq (Nat.le_antisymm (hfirst other rest heq) (hleast hcut before after rfl))
  rw [hcut, List.append_cancel_left hrest]

/-- A word whose first character is not in the rest of it occurs first where it is put, unless it occurs in front of it. -/
theorem cutAt?_mark {c : Char} {word : List Char} (hc : c ∉ word) (before after : List Char) :
    cutAt? (c :: word) (before ++ (c :: word ++ after)) = some (before, after) ↔ occurs (c :: word) before = false := by
  have hne : c :: word ≠ [] := List.cons_ne_nil c word
  rw [cutAt?_eq_some_iff hne, ← Bool.not_eq_true, occurs_iff hne]
  constructor
  · rintro ⟨-, hfirst⟩ ⟨front, rest, rfl⟩
    have hle := hfirst front (rest ++ (c :: word ++ after)) (by simp)
    simp only [List.length_append, List.length_cons] at hle
    omega
  · refine fun hnone => ⟨rfl, fun other rest heq => ?_⟩
    rcases List.append_eq_append_iff.1 heq with ⟨more, rfl, -⟩ | ⟨more, rfl, hmore⟩
    · simp
    · -- What stands before the word starts with the word, wholly or in part.
      rcases List.append_eq_append_iff.1 hmore with ⟨more', rfl, -⟩ | ⟨last, hword, hlast⟩
      · exact absurd ⟨other, more', rfl⟩ hnone
      · cases more with
        | nil => simp
        | cons d more =>
          obtain ⟨rfl, rfl⟩ := List.cons.inj hword
          cases last with
          | nil => exact absurd ⟨other, [], by simp⟩ hnone
          | cons e last =>
            obtain ⟨rfl, -⟩ := List.cons.inj hlast
            exact absurd (List.mem_append_right _ List.mem_cons_self) hc

theorem occurs_nil {word : List Char} (hne : word ≠ []) : occurs word [] = false := by
  cases word with
  | nil => exact absurd rfl hne
  | cons c word => rfl

/-- A word does not reach over a character that it does not hold. -/
theorem occurs_split {word : List Char} (hne : word ≠ []) {c : Char} (hc : c ∉ word) (front rest : List Char) :
    occurs word (front ++ c :: rest) = (occurs word front || occurs word rest) := by
  rw [Bool.eq_iff_iff, Bool.or_eq_true, occurs_iff hne, occurs_iff hne, occurs_iff hne]
  constructor
  · rintro ⟨before, after, heq⟩
    rcases List.append_eq_append_iff.1 heq with ⟨more, rfl, hmore⟩ | ⟨more, rfl, hmore⟩
    · cases more with
      | nil =>
        obtain ⟨d, word, rfl⟩ := List.exists_cons_of_ne_nil hne
        exact absurd (List.cons.inj hmore).1 fun h => hc (h ▸ List.mem_cons_self)
      | cons d more => exact Or.inr ⟨more, after, (List.cons.inj hmore).2⟩
    · rcases List.append_eq_append_iff.1 hmore with ⟨more', rfl, -⟩ | ⟨more', rfl, hrest⟩
      · exact Or.inl ⟨before, more', rfl⟩
      · cases more' with
        | nil => exact Or.inl ⟨before, [], by simp⟩
        | cons d more' =>
          obtain ⟨rfl, -⟩ := List.cons.inj hrest
          exact absurd (by simp) hc
  · rintro (⟨before, after, rfl⟩ | ⟨before, after, rfl⟩)
    · exact ⟨before, after ++ c :: rest, by simp⟩
    · exact ⟨front ++ c :: before, after, by simp⟩

theorem occurs_of_part {word part text : List Char} (hne : word ≠ []) (hpart : part <:+: text) (h : occurs word part = true) :
    occurs word text = true := by
  obtain ⟨front, rest, rfl⟩ := hpart
  obtain ⟨before, after, rfl⟩ := (occurs_iff hne).1 h
  exact (occurs_iff hne).2 ⟨front ++ before, after ++ rest, by simp⟩

/-- Characters that a word does not have add nothing to a text in which it occurs. -/
theorem occurs_append {word : List Char} (hne : word ≠ []) {more : List Char} (hmore : ∀ c ∈ more, c ∉ word) (front : List Char) :
    occurs word (front ++ more) = occurs word front := by
  cases more with
  | nil => rw [List.append_nil]
  | cons c more =>
    obtain ⟨hc, hmore⟩ := List.forall_mem_cons.1 hmore
    have hnone : occurs word more = false := by
      refine Bool.eq_false_iff.2 fun hoccurs => ?_
      obtain ⟨before, after, rfl⟩ := (occurs_iff hne).1 hoccurs
      obtain ⟨d, word, rfl⟩ := List.exists_cons_of_ne_nil hne
      exact hmore d (by simp) List.mem_cons_self
    rw [occurs_split hne hc, hnone, Bool.or_false]

/-- Characters that are not in a word add nothing in front either. -/
theorem occurs_prepend {word : List Char} (hne : word ≠ []) {more : List Char} (hmore : ∀ c ∈ more, c ∉ word) (rest : List Char) :
    occurs word (more ++ rest) = occurs word rest := by
  induction more with
  | nil => rfl
  | cons c more ih =>
    obtain ⟨hc, hmore⟩ := List.forall_mem_cons.1 hmore
    have hsplit := occurs_split hne hc [] (more ++ rest)
    rw [occurs_nil hne, Bool.false_or, List.nil_append, ih hmore] at hsplit
    exact hsplit

/-- A word is not found across characters that are not in it. -/
theorem occurs_between {word : List Char} (hne : word ≠ []) {between : List Char} (hsome : between ≠ [])
    (hbetween : ∀ c ∈ between, c ∉ word) (front rest : List Char) :
    occurs word (front ++ (between ++ rest)) = (occurs word front || occurs word rest) := by
  obtain ⟨c, between, rfl⟩ := List.exists_cons_of_ne_nil hsome
  obtain ⟨hc, hbetween⟩ := List.forall_mem_cons.1 hbetween
  rw [List.cons_append, occurs_split hne hc, occurs_prepend hne hbetween]

theorem isPrefixOf_split {word : List Char} {c : Char} (hc : c ∉ word) (front rest : List Char) :
    word.isPrefixOf (front ++ c :: rest) = word.isPrefixOf front := by
  induction word generalizing front with
  | nil => simp
  | cons d word ih =>
    obtain ⟨hd, hword⟩ : c ≠ d ∧ c ∉ word := by simpa using hc
    cases front with
    | nil =>
      have hne : (d == c) = false := by simpa using Ne.symm hd
      simp [List.isPrefixOf, hne]
    | cons e front => simp [List.isPrefixOf, ih hword]

/-- Where a word occurs first does not depend on what follows it. -/
theorem cutAt?_swap {word before rest : List Char} (h : cutAt? word (before ++ (word ++ rest)) = some (before, rest))
    (rest' : List Char) (hne : word ≠ []) : cutAt? word (before ++ (word ++ rest')) = some (before, rest') := by
  obtain ⟨c, word, rfl⟩ := List.exists_cons_of_ne_nil hne
  induction before with
  | nil =>
    have hprefix : (c :: word).isPrefixOf (c :: (word ++ rest')) = true := List.isPrefixOf_iff_prefix.2 ⟨rest', rfl⟩
    rw [List.nil_append, List.cons_append, cutAt?, if_pos hprefix]
    simp
  | cons d before ih =>
    rw [List.cons_append, cutAt?] at h ⊢
    have hsame : ∀ tail, (c :: word).isPrefixOf (d :: (before ++ (c :: word ++ tail))) =
        (c :: word).isPrefixOf (d :: (before ++ c :: word)) := by
      intro tail
      rw [← List.append_assoc, ← List.cons_append, Bool.eq_iff_iff, List.isPrefixOf_iff_prefix, List.isPrefixOf_iff_prefix]
      refine ⟨fun hprefix => ?_, fun hprefix => hprefix.trans (List.prefix_append _ _)⟩
      exact List.prefix_of_prefix_length_le hprefix (List.prefix_append _ _) (by simp; omega)
    rw [hsame] at h ⊢
    split at h
    · cases (Prod.mk.inj (Option.some.inj h)).1
    · rename_i hnot
      rw [if_neg hnot]
      obtain ⟨⟨first, last⟩, hcut, heq⟩ := Option.map_eq_some_iff.1 h
      obtain ⟨hfirst, rfl⟩ := Prod.mk.inj heq
      obtain rfl : first = before := (List.cons.inj hfirst).2
      rw [ih hcut]
      rfl

/-- Two characters occur side by side unless no neighbours in the text are these. -/
theorem occurs_pair (a b : Char) (text : List Char) :
    occurs [a, b] text = false ↔ text.IsChain fun c d => c ≠ a ∨ d ≠ b := by
  rw [← Bool.not_eq_true, occurs_iff (by simp), List.isChain_iff_forall_rel_of_append_cons_cons]
  constructor
  · rintro h c d before after rfl
    rw [← not_and_or]
    rintro ⟨rfl, rfl⟩
    exact h ⟨before, after, rfl⟩
  · rintro h ⟨before, after, rfl⟩
    exact (h rfl).elim (· rfl) (· rfl)

end ComponentLint.Text
