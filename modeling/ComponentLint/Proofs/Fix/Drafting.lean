import ComponentLint.Fix.Basic
import ComponentLint.Proofs.Sorting
import ComponentLint.Proofs.Text.Positions

/-!
# What a draft becomes

A fix that is built from a draft has edits, in the order of their spans and apart from each other, and none of them ends
behind the text (`Fix.Drafted`). That much a draft checks. That the spans are spans of the text is for those who ask for the
edits to know; where they rely on more than the draft, it is `trusted`.
-/

namespace ComponentLint

open Text

/-- What a draft for a text guarantees of a fix, and what those who asked for the edits do. -/
structure Fix.Drafted (text : List Char) (trusted : Prop) (fix : Fix) : Prop where
  nonempty : fix.edits ≠ []
  sorted : fix.edits.Pairwise fun a b => a.span.le b.span = true
  disjoint : fix.edits.Pairwise fun a b => a.span.stop ≤ b.span.start
  bounded : ∀ edit ∈ fix.edits, edit.span.stop ≤ byteLength text
  located : trusted → ∀ edit ∈ fix.edits, edit.span.InText text

/-- In the order of their starts, edits that are apart from the next are apart from all later ones. -/
theorem Edit.pairwise_of_areDisjoint {edits : List Edit} (hsorted : edits.Pairwise fun a b => a.span.le b.span = true)
    (h : areDisjoint edits = true) : edits.Pairwise fun a b => a.span.stop ≤ b.span.start := by
  induction edits with
  | nil => exact List.Pairwise.nil
  | cons first rest ih =>
    cases rest with
    | nil => exact List.pairwise_singleton _ first
    | cons second rest =>
      simp only [areDisjoint, Bool.and_eq_true, decide_eq_true_eq] at h
      obtain ⟨hnext, hrest⟩ := h
      obtain ⟨-, hsorted⟩ := List.pairwise_cons.1 hsorted
      refine List.pairwise_cons.2 ⟨fun later hlater => ?_, ih hsorted hrest⟩
      rcases List.mem_cons.1 hlater with rfl | hlater
      · exact hnext
      · have hle := Span.le_iff.1 ((List.pairwise_cons.1 hsorted).1 later hlater)
        omega

/-- Edits that are apart from all later ones are apart from the next. -/
theorem Edit.areDisjoint_of_pairwise {edits : List Edit} (h : edits.Pairwise fun a b => a.span.stop ≤ b.span.start) :
    areDisjoint edits = true := by
  induction edits with
  | nil => rfl
  | cons first rest ih =>
    cases rest with
    | nil => rfl
    | cons second rest =>
      obtain ⟨hfirst, hrest⟩ := List.pairwise_cons.1 h
      simp only [areDisjoint, Bool.and_eq_true, decide_eq_true_eq]
      exact ⟨hfirst second List.mem_cons_self, ih hrest⟩

namespace FixDraft

/-- A draft for a text: as long as it is not spoiled, its edits end in the text, and where those who asked for them can be
`trusted` they are edits of the text. -/
structure For (text : List Char) (trusted : Prop) (draft : FixDraft) : Prop where
  length : draft.length = byteLength text
  bounded : draft.spoiled = false → ∀ edit ∈ draft.edits, edit.span.stop ≤ byteLength text
  located : trusted → ∀ edit ∈ draft.edits, edit.span.InText text

namespace For

variable {text : List Char} {trusted : Prop} {draft : FixDraft}

theorem ofLength (text : List Char) (trusted : Prop) : For text trusted (.ofLength (byteLength text)) :=
  ⟨rfl, nofun, nofun⟩

theorem describe (h : draft.For text trusted) (message : String) : (draft.describe message).For text trusted :=
  ⟨h.length, h.bounded, h.located⟩

/-- One more edit; one that ends behind the text spoils the draft. -/
theorem add (h : draft.For text trusted) {span : Span} (hspan : trusted → span.InText text) (replacement : String) :
    (draft.add span replacement).For text trusted := by
  refine ⟨h.length, fun hclean edit hedit => ?_, fun ht edit hedit => ?_⟩
  · simp only [FixDraft.add, Bool.or_eq_false_iff, decide_eq_false_iff_not, Nat.not_lt] at hclean
    rcases List.mem_append.1 hedit with hold | hnew
    · exact h.bounded hclean.1 edit hold
    · rw [List.mem_singleton.1 hnew, ← h.length]
      exact hclean.2
  · rcases List.mem_append.1 hedit with hold | hnew
    · exact h.located ht edit hold
    · rw [List.mem_singleton.1 hnew]
      exact hspan ht

theorem insertAt (h : draft.For text trusted) {offset : Nat} (hoffset : trusted → isBoundary text offset = true)
    (added : String) : (draft.insertAt offset added).For text trusted :=
  h.add (fun ht => .empty (hoffset ht)) added

/-- The edit between two offsets; offsets in the wrong order spoil the draft. -/
theorem replaceBetween (h : draft.For text trusted) {first last : Nat}
    (hfirst : trusted → isBoundary text first = true) (hlast : trusted → isBoundary text last = true)
    (replacement : String) : (draft.replaceBetween first last replacement).For text trusted := by
  unfold FixDraft.replaceBetween
  split
  · exact ⟨h.length, nofun, h.located⟩
  · next hle => exact h.add (fun ht => ⟨Nat.not_lt.1 hle, hfirst ht, hlast ht⟩) replacement

/-- The fix of a draft. -/
theorem build? (h : draft.For text trusted) {fix : Fix} (hfix : draft.build? = some fix) : fix.Drafted text trusted := by
  unfold FixDraft.build? at hfix
  split at hfix
  · nomatch hfix
  · next hgood =>
    obtain rfl := Option.some.inj hfix
    simp only [Bool.or_eq_true, Bool.not_eq_true', not_or, Bool.not_eq_true, Bool.not_eq_false] at hgood
    obtain ⟨⟨hclean, hedits⟩, hdisjoint⟩ := hgood
    have horder := stablyOrdered_mergeSort (fun edit : Edit => edit.span) draft.edits
    have hmem : ∀ edit ∈ draft.sorted, edit ∈ draft.edits := fun edit he => List.mem_mergeSort.1 he
    refine ⟨fun hnil => ?_, horder.sorted, Edit.pairwise_of_areDisjoint horder.sorted hdisjoint,
      fun edit he => h.bounded hclean edit (hmem edit he), fun ht edit he => h.located ht edit (hmem edit he)⟩
    have hlength : draft.sorted.length = draft.edits.length := List.length_mergeSort _
    rw [show draft.sorted = [] from hnil] at hlength
    rw [List.eq_nil_of_length_eq_zero hlength.symm] at hedits
    cases hedits

end For

theorem replaceBetween_of_le {first last : Nat} (h : first ≤ last) (draft : FixDraft) (replacement : String) :
    draft.replaceBetween first last replacement = draft.add ⟨first, last⟩ replacement :=
  if_neg (Nat.not_lt.2 h)

/-- The fix of a draft with one edit is that edit. -/
theorem build?_add {draft : FixDraft} (hempty : draft.edits = []) {span : Span} {text : String} {fix : Fix}
    (h : (draft.add span text).build? = some fix) : fix = ⟨[⟨span, text⟩], draft.message⟩ := by
  unfold build? at h
  split at h
  · cases h
  · rw [← Option.some.inj h, sorted, add, hempty]
    exact congrArg (Fix.mk · _) (List.mergeSort_singleton _)

/-- What a draft holds after edits have been asked for. -/
theorem foldl_add (edits : List Edit) (draft : FixDraft) :
    edits.foldl (fun draft edit => draft.add edit.span edit.replacement) draft =
      { draft with
        edits := draft.edits ++ edits
        spoiled := draft.spoiled || edits.any fun edit => decide (draft.length < edit.span.stop) } := by
  induction edits generalizing draft with
  | nil => simp
  | cons edit rest ih =>
    rw [List.foldl_cons, ih]
    simp only [add, List.append_assoc, List.singleton_append, List.any_cons, Bool.or_assoc]
    rfl

/-- Edits that are asked for in their order, apart from each other and in the text, make a fix. -/
theorem build?_foldl_add {draft : FixDraft} (hempty : draft.edits = []) (hclean : draft.spoiled = false) {edits : List Edit}
    (hsome : edits ≠ []) (hfits : ∀ edit ∈ edits, edit.span.start ≤ edit.span.stop ∧ edit.span.stop ≤ draft.length)
    (hapart : edits.Pairwise fun a b => a.span.stop ≤ b.span.start) :
    (edits.foldl (fun draft edit => draft.add edit.span edit.replacement) draft).build? = some ⟨edits, draft.message⟩ := by
  have hsorted : edits.mergeSort (fun a b => a.span.le b.span) = edits := by
    refine List.mergeSort_of_pairwise (hapart.imp_of_mem fun {a b} ha hb hle => Span.le_iff.2 ?_)
    have hfirst := (hfits a ha).1
    have hsecond := (hfits b hb).1
    omega
  have hunspoiled : edits.any (fun edit => decide (draft.length < edit.span.stop)) = false := by
    simpa using fun edit hedit => (hfits edit hedit).2
  rw [foldl_add, build?, sorted, hempty, List.nil_append, hclean, hunspoiled, hsorted, Edit.areDisjoint_of_pairwise hapart,
    List.isEmpty_eq_false_iff.2 hsome]
  rfl

/-- One edit that ends in the text makes a fix. -/
theorem build?_add_of_le {draft : FixDraft} (hempty : draft.edits = []) (hclean : draft.spoiled = false) {span : Span}
    (hspan : span.stop ≤ draft.length) (text : String) :
    (draft.add span text).build? = some ⟨[⟨span, text⟩], draft.message⟩ := by
  have hsorted : (draft.add span text).sorted = [⟨span, text⟩] := by
    rw [sorted, add, hempty]
    exact List.mergeSort_singleton _
  have hunspoiled : (draft.add span text).spoiled = false := by simpa [add, hclean] using hspan
  have hedits : (draft.add span text).edits.isEmpty = false := by simp [add]
  unfold build?
  rw [hsorted, hunspoiled, hedits]
  rfl

/-- Two edits that are asked for in their order, apart from each other and in the text, make a fix. -/
theorem build?_add_add_of_le {draft : FixDraft} (hempty : draft.edits = []) (hclean : draft.spoiled = false)
    {first second : Span} (hfirst : first.start ≤ first.stop) (hapart : first.stop ≤ second.start)
    (hsecond : second.start ≤ second.stop) (hlast : second.stop ≤ draft.length) (text text' : String) :
    ((draft.add first text).add second text').build? = some ⟨[⟨first, text⟩, ⟨second, text'⟩], draft.message⟩ := by
  have hstop : first.stop ≤ draft.length := by omega
  exact build?_foldl_add hempty hclean (List.cons_ne_nil ⟨first, text⟩ [⟨second, text'⟩])
    (by simp [hfirst, hstop, hsecond, hlast]) (by simp [hapart])

end FixDraft

end ComponentLint
