import ComponentLint.Proofs.Fix.Splice

/-!
# A pass of fixes does not depend on the order of its diagnostics

Sorting by spans puts fixes of one span side by side, so two orders of the same diagnostics give passes that see the same
spans in the same order. What a pass admits is decided by spans alone (`Level.foldl_take`), and its text by the edits of what
it admits (`foldl_take_written`).
-/

namespace ComponentLint

open Text

namespace FixPass

/-- The fixes a pass goes on to make. -/
def made (source : List Char) (pass : FixPass) : List Fix → List Fix
  | [] => []
  | fix :: rest =>
    if pass.admits (byteLength source) fix then fix :: made source (pass.take source fix) rest
    else made source (pass.take source fix) rest

/-- Two passes that have counted the same and go on from the same end. -/
structure Level (first second : FixPass) : Prop where
  last : first.last = second.last
  applied : first.applied = second.applied
  remaining : first.remaining = second.remaining

variable {source : List Char}

@[simp] theorem take_last (pass : FixPass) (fix : Fix) : (pass.take source fix).last =
    if pass.admits (byteLength source) fix then some fix.span.stop else pass.last := by
  unfold take
  split <;> rfl

@[simp] theorem take_applied (pass : FixPass) (fix : Fix) : (pass.take source fix).applied =
    if pass.admits (byteLength source) fix then pass.applied + 1 else pass.applied := by
  unfold take
  split <;> rfl

@[simp] theorem take_remaining (pass : FixPass) (fix : Fix) : (pass.take source fix).remaining =
    if pass.admits (byteLength source) fix then pass.remaining else pass.remaining + 1 := by
  unfold take
  split
  · rw [foldl_edit_eq]
  · rfl

namespace Level

variable {first second : FixPass} {a b : Fix}

/-- Level passes admit fixes of one span alike. -/
theorem admits_eq (h : first.Level second) (hspan : a.span = b.span) (length : Nat) :
    first.admits length a = second.admits length b := by
  rw [admits, admits, h.last, hspan]

/-- Level passes stay level over fixes of one span. -/
theorem take (h : first.Level second) (hspan : a.span = b.span) :
    (first.take source a).Level (second.take source b) := by
  have hadmits := h.admits_eq hspan (byteLength source)
  constructor
  · rw [take_last, take_last, hadmits, hspan, h.last]
  · rw [take_applied, take_applied, hadmits, h.applied]
  · rw [take_remaining, take_remaining, hadmits, h.remaining]

/-- Level passes over fixes of the same spans stay level and make fixes of the same spans. -/
theorem foldl_take (source : List Char) {order other : List Fix} (h : first.Level second)
    (hspans : order.map (·.span) = other.map (·.span)) :
    (order.foldl (FixPass.take source) first).Level (other.foldl (FixPass.take source) second) ∧
      (first.made source order).map (·.span) = (second.made source other).map (·.span) := by
  induction order generalizing first second other with
  | nil =>
    have hnil : other = [] := List.map_eq_nil_iff.1 hspans.symm
    subst hnil
    exact ⟨h, rfl⟩
  | cons a order ih =>
    obtain ⟨b, rest, rfl, hspan, hrest⟩ := List.map_eq_cons_iff.1 hspans.symm
    obtain ⟨hlevel, hmade⟩ := ih (h.take hspan.symm) hrest.symm
    have hadmits := h.admits_eq hspan.symm (byteLength source)
    refine ⟨hlevel, ?_⟩
    rw [made, made, hadmits]
    split
    · rw [List.map_cons, List.map_cons, hspan, hmade]
    · exact hmade

end Level

/-- A pass counts every fix it makes. -/
theorem foldl_take_applied (order : List Fix) (pass : FixPass) :
    (order.foldl (take source) pass).applied = pass.applied + (pass.made source order).length := by
  induction order generalizing pass with
  | nil => rfl
  | cons fix order ih =>
    rw [List.foldl_cons, ih, take_applied, made]
    split
    · rw [List.length_cons]
      omega
    · rfl

theorem mem_of_mem_made {order : List Fix} {pass : FixPass} {fix : Fix} (h : fix ∈ pass.made source order) :
    fix ∈ order := by
  induction order generalizing pass with
  | nil => exact h
  | cons first order ih =>
    rw [made] at h
    split at h
    · rcases List.mem_cons.1 h with rfl | h
      · exact List.mem_cons_self
      · exact List.mem_cons_of_mem _ (ih h)
    · exact List.mem_cons_of_mem _ (ih h)

/-- Passes that have written the same write the same text over the same edits. -/
theorem foldl_edit_finish {first second : FixPass} (houtput : first.output = second.output)
    (hcursor : first.cursor = second.cursor) (edits : List Edit) :
    (edits.foldl (edit source) first).output = (edits.foldl (edit source) second).output ∧
      (edits.foldl (edit source) first).cursor = (edits.foldl (edit source) second).cursor := by
  induction edits generalizing first second with
  | nil => exact ⟨houtput, hcursor⟩
  | cons next edits ih =>
    refine ih ?_ rfl
    rw [edit, edit, houtput, hcursor]

/-- A pass writes the edits of the fixes it makes, and nothing else. -/
theorem foldl_take_written (source : List Char) (order : List Fix) (pass : FixPass) :
    (order.foldl (take source) pass).output =
        (((pass.made source order).flatMap (·.edits)).foldl (edit source) pass).output ∧
      (order.foldl (take source) pass).cursor =
        (((pass.made source order).flatMap (·.edits)).foldl (edit source) pass).cursor := by
  induction order generalizing pass with
  | nil => exact ⟨rfl, rfl⟩
  | cons fix order ih =>
    obtain ⟨houtput, hcursor⟩ := ih (pass.take source fix)
    rw [List.foldl_cons, houtput, hcursor, made]
    by_cases hadmits : pass.admits (byteLength source) fix = true
    · rw [if_pos hadmits, List.flatMap_cons, List.foldl_append]
      refine foldl_edit_finish ?_ ?_ _
      · rw [take, if_pos hadmits]
      · rw [take, if_pos hadmits]
    · rw [if_neg hadmits]
      refine foldl_edit_finish ?_ ?_ _
      · rw [take, if_neg hadmits]
      · rw [take, if_neg hadmits]

end FixPass

namespace Fix

/-- The fixes that a pass over fixes makes, in the order it makes them. -/
def made (source : List Char) (fixes : List Fix) : List Fix :=
  FixPass.start.made source (sorted fixes)

/-- Two orders of the same fixes are sorted into the same spans. -/
theorem sorted_map_span {first second : List Fix} (h : first.Perm second) :
    (sorted first).map (·.span) = (sorted second).map (·.span) := by
  have hfirst : StablyOrdered Fix.span first (sorted first) := stablyOrdered_mergeSort Fix.span first
  have hsecond : StablyOrdered Fix.span second (sorted second) := stablyOrdered_mergeSort Fix.span second
  have hperm : (sorted first).Perm (sorted second) := (hfirst.perm.trans h).trans hsecond.perm.symm
  refine List.Perm.eq_of_pairwise (fun a b _ _ => Span.le_antisymm) ?_ ?_ (hperm.map _)
  · exact List.pairwise_map.2 hfirst.sorted
  · exact List.pairwise_map.2 hsecond.sorted

/-- Two lists of fixes of the same spans have the same edits, if fixes of one span have. -/
theorem map_edits_eq {first second : List Fix} (hspans : first.map (·.span) = second.map (·.span))
    (hsame : ∀ a ∈ first, ∀ b ∈ second, a.span = b.span → a.edits = b.edits) :
    first.map (·.edits) = second.map (·.edits) := by
  induction first generalizing second with
  | nil =>
    have hnil : second = [] := List.map_eq_nil_iff.1 hspans.symm
    rw [hnil]
  | cons a first ih =>
    obtain ⟨b, rest, rfl, hspan, hrest⟩ := List.map_eq_cons_iff.1 hspans.symm
    have htail := ih hrest.symm fun c hc d hd => hsame c (List.mem_cons_of_mem _ hc) d (List.mem_cons_of_mem _ hd)
    have hhead := hsame a List.mem_cons_self b List.mem_cons_self hspan.symm
    rw [List.map_cons, List.map_cons, hhead, htail]

end Fix

/-- Passes over two orders of the same diagnostics make and leave equally many fixes, and those they make have the same spans
in the same order. Where fixes of one span have the same edits, the passes write the same text. -/
theorem applyAll_perm (source : List Char) {first second : LintResult} (h : first.diagnostics.Perm second.diagnostics) :
    (Fix.applyAll source first.fixes).applied = (Fix.applyAll source second.fixes).applied ∧
      (Fix.applyAll source first.fixes).remaining = (Fix.applyAll source second.fixes).remaining ∧
      (Fix.applyAll source first.fixes).applied = (Fix.made source first.fixes).length ∧
      (Fix.made source first.fixes).map (·.span) = (Fix.made source second.fixes).map (·.span) ∧
      ((∀ a ∈ first.fixes, ∀ b ∈ first.fixes, a.span = b.span → a.edits = b.edits) →
        Fix.applyAll source first.fixes = Fix.applyAll source second.fixes) := by
  have hperm : first.fixes.Perm second.fixes := h.filterMap _
  have hstart : FixPass.start.Level FixPass.start := ⟨rfl, rfl, rfl⟩
  obtain ⟨hlevel, hmade⟩ := hstart.foldl_take source (Fix.sorted_map_span hperm)
  refine ⟨hlevel.applied, hlevel.remaining, ?_, hmade, ?_⟩
  · rw [Fix.applyAll, FixPass.finish, FixPass.foldl_take_applied]
    exact Nat.zero_add _
  · intro hsame
    have hedits : (Fix.made source first.fixes).map (·.edits) = (Fix.made source second.fixes).map (·.edits) := by
      refine Fix.map_edits_eq hmade fun a ha b hb => hsame a ?_ b ?_
      · exact (List.mergeSort_perm _ _).mem_iff.1 (FixPass.mem_of_mem_made ha)
      · exact hperm.mem_iff.2 ((List.mergeSort_perm _ _).mem_iff.1 (FixPass.mem_of_mem_made hb))
    have hflat : (Fix.made source first.fixes).flatMap (·.edits) = (Fix.made source second.fixes).flatMap (·.edits) := by
      rw [List.flatMap_def, List.flatMap_def, hedits]
    obtain ⟨houtput, hcursor⟩ := FixPass.foldl_take_written source (Fix.sorted first.fixes) .start
    obtain ⟨houtput', hcursor'⟩ := FixPass.foldl_take_written source (Fix.sorted second.fixes) .start
    rw [← Fix.made, hflat, Fix.made, ← houtput'] at houtput
    rw [← Fix.made, hflat, Fix.made, ← hcursor'] at hcursor
    rw [Fix.applyAll, Fix.applyAll, FixPass.finish, FixPass.finish, houtput, hcursor, hlevel.applied, hlevel.remaining]

/-- Diagnostics for the text `aéb`: two fixes of one span, one insertion that touches them and one apart from them. -/
def tiedFixes : LintResult :=
  let diagnostic (message : String) (edits : List Edit) : Diagnostic :=
    ⟨"rule", .error, { messageId := "id", span := ⟨0, 1⟩, message := message, fix := some ⟨edits, some message⟩ }⟩
  ⟨[diagnostic "first" [⟨⟨0, 1⟩, "A"⟩], diagnostic "last" [⟨⟨4, 4⟩, "!"⟩], diagnostic "second" [⟨⟨0, 1⟩, "A"⟩],
    diagnostic "between" [⟨⟨1, 1⟩, "-"⟩]], []⟩

theorem applyAll_perm_tiedFixes :
    let reversed : LintResult := ⟨tiedFixes.diagnostics.reverse, []⟩
    tiedFixes.diagnostics.Perm reversed.diagnostics ∧
      (∀ a ∈ tiedFixes.fixes, ∀ b ∈ tiedFixes.fixes, a.span = b.span → a.edits = b.edits) ∧
      (Fix.made "aéb".toList tiedFixes.fixes).map (·.span) = (Fix.made "aéb".toList reversed.fixes).map (·.span) ∧
      Fix.applyAll "aéb".toList tiedFixes.fixes = Fix.applyAll "aéb".toList reversed.fixes := by
  intro reversed
  have hperm : tiedFixes.diagnostics.Perm reversed.diagnostics := (List.reverse_perm _).symm
  have hsame : ∀ a ∈ tiedFixes.fixes, ∀ b ∈ tiedFixes.fixes, a.span = b.span → a.edits = b.edits := by decide
  obtain ⟨_, _, _, hspans, houtput⟩ := applyAll_perm "aéb".toList hperm
  exact ⟨hperm, hsame, hspans, houtput hsame⟩

end ComponentLint
