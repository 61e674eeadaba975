import ComponentLint.Text.Span

/-!
# The order of spans

Fixes and diagnostics are put in the order of their spans, and those of one span keep the order they had. Because of that,
leaving some of them out before or after sorting makes no difference (`filter_mergeSort`).
-/

namespace ComponentLint

namespace Span

theorem le_iff {a b : Span} : a.le b = true ↔ a.start < b.start ∨ (a.start = b.start ∧ a.stop ≤ b.stop) := by
  simp [le]

theorem le_trans (a b c : Span) (hab : a.le b = true) (hbc : b.le c = true) : a.le c = true := by
  rw [le_iff] at hab hbc ⊢
  omega

theorem le_total (a b : Span) : (a.le b || b.le a) = true := by
  rw [Bool.or_eq_true, le_iff, le_iff]
  omega

theorem le_refl (a : Span) : a.le a = true := by
  rw [le_iff]
  omega

theorem le_antisymm {a b : Span} (hab : a.le b = true) (hba : b.le a = true) : a = b := by
  rw [le_iff] at hab hba
  obtain ⟨start, stop⟩ := a
  obtain ⟨start', stop'⟩ := b
  simp only [Span.mk.injEq]
  dsimp only at hab hba
  omega

end Span

section Stable

variable {α : Type} {le : α → α → Bool}

/-- Two ways of cutting a list where a test starts to hold are one. -/
theorem append_inj_of_test {test : α → Bool} {a b c d : List α} (h : a ++ b = c ++ d) (ha : ∀ x ∈ a, test x = false)
    (hb : ∀ x ∈ b, test x = true) (hc : ∀ x ∈ c, test x = false) (hd : ∀ x ∈ d, test x = true) : a = c ∧ b = d := by
  have hcut : ∀ front back : List α, (∀ x ∈ front, test x = false) → (∀ x ∈ back, test x = true) →
      (front ++ back).filter (fun x => !test x) = front := by
    intro front back hfront hback
    rw [List.filter_append, List.filter_eq_self.2 fun x hx => by simp [hfront x hx],
      List.filter_eq_nil_iff.2 fun x hx => by simp [hback x hx], List.append_nil]
  have hac : a = c := by
    rw [← hcut a b ha hb, h, hcut c d hc hd]
  subst hac
  exact ⟨rfl, List.append_cancel_left h⟩

/-- Leaving elements out of a list and sorting it are done in any order. -/
theorem filter_mergeSort (trans : ∀ a b c : α, le a b → le b c → le a c) (total : ∀ a b : α, le a b || le b a)
    (keep : α → Bool) (items : List α) : (items.mergeSort le).filter keep = (items.filter keep).mergeSort le := by
  induction items with
  | nil => simp
  | cons first items ih =>
    -- Sorting puts the first element before the first of those that do not come before it.
    obtain ⟨before, after, hall, hrest, hbefore⟩ := List.mergeSort_cons trans total first items
    have hafter : ∀ x ∈ after, le first x = true := by
      have hsorted := List.pairwise_mergeSort trans total (first :: items)
      rw [hall] at hsorted
      exact (List.pairwise_cons.1 (List.pairwise_append.1 hsorted).2.1).1
    rw [hrest, List.filter_append] at ih
    rw [hall, List.filter_append]
    by_cases hkeep : keep first = true
    · rw [List.filter_cons_of_pos hkeep, List.filter_cons_of_pos hkeep]
      obtain ⟨before', after', hall', hrest', hbefore'⟩ := List.mergeSort_cons trans total first (items.filter keep)
      have hafter' : ∀ x ∈ after', le first x = true := by
        have hsorted := List.pairwise_mergeSort trans total (first :: items.filter keep)
        rw [hall'] at hsorted
        exact (List.pairwise_cons.1 (List.pairwise_append.1 hsorted).2.1).1
      obtain ⟨hb, ha⟩ := append_inj_of_test (ih.trans hrest')
        (fun x hx => by simpa using hbefore x ((List.mem_filter.1 hx).1)) (fun x hx => hafter x ((List.mem_filter.1 hx).1))
        (fun x hx => by simpa using hbefore' x hx) hafter'
      rw [hall', hb, ha]
    · rw [List.filter_cons_of_neg hkeep, List.filter_cons_of_neg hkeep]
      exact ih

end Stable

/-- `order` holds the items in the order of their spans, and those of one span in the order they had. -/
structure StablyOrdered {α : Type} (span : α → Span) (items order : List α) : Prop where
  perm : order.Perm items
  sorted : order.Pairwise fun a b => (span a).le (span b) = true
  stable : ∀ place, (order.filter fun a => span a = place) = items.filter fun a => span a = place

/-- Sorting by spans is stable. -/
theorem stablyOrdered_mergeSort {α : Type} (span : α → Span) (items : List α) :
    StablyOrdered span items (items.mergeSort fun a b => (span a).le (span b)) := by
  have trans : ∀ a b c : α, (span a).le (span b) → (span b).le (span c) → (span a).le (span c) :=
    fun a b c => Span.le_trans _ _ _
  have total : ∀ a b : α, (span a).le (span b) || (span b).le (span a) := fun a b => Span.le_total _ _
  refine ⟨List.mergeSort_perm _ _, List.pairwise_mergeSort trans total items, fun place => ?_⟩
  rw [filter_mergeSort trans total]
  refine List.mergeSort_of_pairwise (List.pairwise_of_forall_mem_list ?_)
  intro a ha b hb
  have hsame : span a = place := by simpa using (List.mem_filter.1 ha).2
  have hsame' : span b = place := by simpa using (List.mem_filter.1 hb).2
  rw [hsame, hsame']
  exact Span.le_refl place

end ComponentLint
