import ComponentLint.Fix.Apply
import ComponentLint.Lint.Run
import ComponentLint.Proofs.Sorting
import ComponentLint.Proofs.Text.Offsets

/-!
# A pass of fixes is exact

A pass writes its text in one go, copying what lies between two edits when it makes the second. Here it is compared with
making the same edits one by one from the back to the front (`makeBackwards`). Both give the text that has the source's
characters outside the edited spans (`Spliced`), provided that the edits of each fix can be made (`Fix.Sound`). A pass leaves
out a fix only because of another one that it touches: of fixes that lie apart it makes all (`Fix.applyAll_of_apart`).
-/

namespace ComponentLint

open Text

/-- An edit of a span of a text. -/
structure Edit.Sound (source : List Char) (edit : Edit) : Prop where
  ordered : edit.span.start ≤ edit.span.stop
  start : isBoundary source edit.span.start = true
  stop : isBoundary source edit.span.stop = true

/-- A fix whose edits are edits of a text, in order and apart from each other. -/
structure Fix.Sound (source : List Char) (fix : Fix) : Prop where
  edits : ∀ edit ∈ fix.edits, edit.Sound source
  disjoint : fix.edits.Pairwise fun a b => a.span.stop ≤ b.span.start

instance (source : List Char) (edit : Edit) : Decidable (edit.Sound source) :=
  decidable_of_iff (edit.span.start ≤ edit.span.stop ∧ isBoundary source edit.span.start = true ∧
    isBoundary source edit.span.stop = true) ⟨fun h => ⟨h.1, h.2.1, h.2.2⟩, fun h => ⟨h.ordered, h.start, h.stop⟩⟩

instance (source : List Char) (fix : Fix) : Decidable (fix.Sound source) :=
  decidable_of_iff ((∀ edit ∈ fix.edits, edit.Sound source) ∧ fix.edits.Pairwise fun a b => a.span.stop ≤ b.span.start)
    ⟨fun h => ⟨h.1, h.2⟩, fun h => ⟨h.edits, h.disjoint⟩⟩

/-- The text with a span replaced, if the span is one of the text. -/
def replaceSpan? (text : List Char) (span : Span) (replacement : List Char) : Option (List Char) :=
  if span.start ≤ span.stop then do
    let (before, _) ← splitAt? span.start text
    let (_, after) ← splitAt? span.stop text
    return before ++ replacement ++ after
  else none

/-- Makes edits one by one, the last one first, so that the offsets of those to come stay right. -/
def makeBackwards (source : List Char) : List Edit → Option (List Char)
  | [] => some source
  | edit :: rest => do
    let text ← makeBackwards source rest
    replaceSpan? text edit.span edit.replacement.toList

/-- Two texts that are the same but for the spans of edits: what is kept stands in both, in order and once. The first text
starts at `offset`. -/
inductive Spliced : Nat → List Char → List Edit → List Char → Prop where
  | done (offset : Nat) (kept : List Char) : Spliced offset kept [] kept
  | edit {offset : Nat} (kept old : List Char) {rest output : List Char} {edit : Edit} {edits : List Edit}
      (hspan : edit.span = ⟨offset + byteLength kept, offset + byteLength kept + byteLength old⟩)
      (hrest : Spliced edit.span.stop rest edits output) :
      Spliced offset (kept ++ (old ++ rest)) (edit :: edits) (kept ++ (edit.replacement.toList ++ output))

namespace Fix

/-- The fixes made when one more is considered: it is made if it is the first, or starts after the one made last has ended. -/
def accept (made : List Fix) (fix : Fix) : List Fix :=
  if ∀ last ∈ made.getLast?, last.span.stop < fix.span.start then made ++ [fix] else made

/-- The fixes made of fixes that are considered in order. -/
def accepted (order : List Fix) : List Fix :=
  order.foldl accept []

end Fix

/-! ## Texts with edits made -/

namespace Spliced

variable {offset : Nat} {text output : List Char} {edits : List Edit}

/-- Text behind the last edit is kept. -/
theorem append_kept (h : Spliced offset text edits output) (kept : List Char) :
    Spliced offset (text ++ kept) edits (output ++ kept) := by
  induction h with
  | done offset before => exact done offset (before ++ kept)
  | edit before old hspan _ ih =>
    have hmore := edit before old hspan ih
    simpa only [List.append_assoc] using hmore

/-- Text before the first edit is kept. -/
theorem prepend_kept {kept : List Char} (h : Spliced (offset + byteLength kept) text edits output) :
    Spliced offset (kept ++ text) edits (kept ++ output) := by
  cases h with
  | done => exact done offset (kept ++ _)
  | edit before old hspan hrest =>
    have hmore := edit (kept ++ before) old (by rw [hspan, byteLength_append, Nat.add_assoc offset]) hrest
    simpa only [List.append_assoc] using hmore

/-- One more edit can be made behind the text. -/
theorem append_edit (h : Spliced offset text edits output) {kept old : List Char} {last : Edit}
    (hspan : last.span =
      ⟨offset + byteLength text + byteLength kept, offset + byteLength text + byteLength kept + byteLength old⟩) :
    Spliced offset (text ++ (kept ++ old)) (edits ++ [last]) (output ++ (kept ++ last.replacement.toList)) := by
  induction h with
  | done offset before =>
    have hplace : last.span = ⟨offset + byteLength (before ++ kept), offset + byteLength (before ++ kept) + byteLength old⟩ := by
      simpa [Nat.add_assoc] using hspan
    simpa using edit (before ++ kept) old hplace (done _ [])
  | edit before old' hfirst _ ih =>
    have hmore := edit before old' hfirst (ih (by rw [hspan, hfirst]; simp [Nat.add_assoc]))
    simpa only [List.append_assoc, List.cons_append] using hmore

/-- What no edit touches is kept, and the text in front of it and the text behind it are edited on their own. -/
theorem split {front part rest : List Char} (h : Spliced offset text edits output) (htext : text = front ++ (part ++ rest))
    (hapart : ∀ edit ∈ edits, edit.span.stop ≤ offset + byteLength front ∨
      offset + byteLength front + byteLength part ≤ edit.span.start) :
    ∃ first last front' rest', edits = first ++ last ∧ output = front' ++ (part ++ rest') ∧ Spliced offset front first front' ∧
      Spliced (offset + byteLength front + byteLength part) rest last rest' := by
  induction h generalizing front with
  | done offset kept =>
    subst htext
    exact ⟨[], [], front, rest, rfl, rfl, .done _ _, .done _ _⟩
  | @edit offset kept old later output edit edits hspan hrest ih =>
    obtain ⟨hhere, hlater⟩ := List.forall_mem_cons.1 hapart
    simp only [hspan] at hhere
    rcases hhere with hbefore | hbehind
    · -- The edit lies in the text in front.
      have hle : byteLength (kept ++ old) ≤ byteLength front := by
        rw [byteLength_append]
        omega
      rw [← List.append_assoc kept] at htext
      obtain ⟨between, rfl, hbetween⟩ := exists_of_append_eq htext hle
      have hplace : edit.span.stop + byteLength between = offset + byteLength (kept ++ old ++ between) := by
        rw [hspan]
        simp [Nat.add_assoc]
      obtain ⟨first, last, front', rest', rfl, rfl, hfront, hrest'⟩ := ih hbetween fun other hother => by
        rw [hplace]
        exact hlater other hother
      rw [hplace] at hrest'
      refine ⟨edit :: first, last, kept ++ (edit.replacement.toList ++ front'), rest', rfl, by simp, ?_, hrest'⟩
      rw [List.append_assoc]
      exact .edit kept old hspan hfront
    · -- The edit and all after it lie in the text behind.
      have hle : byteLength (front ++ part) ≤ byteLength kept := by
        rw [byteLength_append]
        omega
      rw [← List.append_assoc front] at htext
      obtain ⟨between, rfl, hbetween⟩ := exists_of_append_eq htext.symm hle
      refine ⟨[], edit :: edits, front, between ++ (edit.replacement.toList ++ output), rfl, by simp, .done _ _, ?_⟩
      rw [hbetween]
      exact .edit between old (by rw [hspan]; simp [Nat.add_assoc]) hrest

/-- At an edit its text is written, and the texts in front of it and behind it are edited on their own. -/
theorem cut {first last : List Edit} {edit : Edit} (h : Spliced offset text (first ++ edit :: last) output) :
    ∃ front old rest front' rest', text = front ++ (old ++ rest) ∧
      edit.span = ⟨offset + byteLength front, offset + byteLength front + byteLength old⟩ ∧
      output = front' ++ (edit.replacement.toList ++ rest') ∧ Spliced offset front first front' ∧
      Spliced edit.span.stop rest last rest' := by
  induction first generalizing offset text output with
  | nil =>
    cases h with
    | edit kept old hspan hrest => exact ⟨kept, old, _, kept, _, rfl, hspan, rfl, .done _ _, hrest⟩
  | cons other first ih =>
    cases h with
    | edit kept old' hplace hrest =>
      obtain ⟨front, old, rest, front', rest', rfl, hspan, rfl, hfront, hlast⟩ := ih hrest
      refine ⟨kept ++ (old' ++ front), old, rest, kept ++ (other.replacement.toList ++ front'), rest', by simp, ?_, by simp,
        .edit kept old' hplace hfront, hlast⟩
      rw [hspan, hplace]
      simp [Nat.add_assoc]

/-- A text that is only edited further on starts as before. -/
theorem head?_eq (h : Spliced offset text edits output) (hlater : ∀ edit ∈ edits, offset < edit.span.start) :
    output.head? = text.head? := by
  cases h with
  | done => rfl
  | edit kept old hspan =>
    have hstart := hlater _ List.mem_cons_self
    rw [hspan] at hstart
    cases kept with
    | nil => exact absurd hstart (Nat.lt_irrefl _)
    | cons c kept => rfl

/-- Making the edits from the back to the front gives the same text. -/
theorem makeBackwards_eq (h : Spliced offset text edits output) {front : List Char} (hfront : byteLength front = offset) :
    makeBackwards (front ++ text) edits = some (front ++ output) := by
  induction h generalizing front with
  | done offset kept => rfl
  | @edit offset kept old rest output edit edits hspan _ ih =>
    have hstop : byteLength (front ++ (kept ++ old)) = edit.span.stop := by
      rw [hspan, ← hfront]
      simp [Nat.add_assoc]
    have hstart : byteLength (front ++ kept) = edit.span.start := by
      rw [hspan, ← hfront]
      simp
    have hbefore : splitAt? edit.span.start (front ++ (kept ++ (old ++ output))) = some (front ++ kept, old ++ output) :=
      splitAt?_eq_some_iff.2 ⟨by simp, hstart⟩
    have hafter : splitAt? edit.span.stop (front ++ (kept ++ (old ++ output))) = some (front ++ (kept ++ old), output) :=
      splitAt?_eq_some_iff.2 ⟨by simp, hstop⟩
    have hle : edit.span.start ≤ edit.span.stop := by
      rw [hspan]
      exact Nat.le_add_right _ _
    have hinner := ih hstop
    simp only [List.append_assoc] at hinner
    rw [makeBackwards, hinner, Option.bind_eq_bind, Option.bind_some, replaceSpan?, if_pos hle, hbefore, hafter]
    simp

/-- Edits that take away and put in only characters of one sort leave all others as they are. -/
theorem filter_eq {keep : Char → Bool} (h : Spliced offset text edits output) {front : List Char}
    (hfront : byteLength front = offset) (hedits : ∀ edit ∈ edits,
      ∀ c ∈ slice (front ++ text) edit.span ++ edit.replacement.toList, keep c = false) :
    output.filter keep = text.filter keep := by
  induction h generalizing front with
  | done => rfl
  | @edit offset kept old rest output edit edits hspan _ ih =>
    have hslice : slice (front ++ (kept ++ (old ++ rest))) edit.span = old := by
      have hparts := slice_append (front ++ kept) old rest
      rwa [List.append_assoc, byteLength_append, hfront, ← hspan] at hparts
    have hnone := hedits edit List.mem_cons_self
    rw [hslice] at hnone
    obtain ⟨hold, hnew⟩ := List.forall_mem_append.1 hnone
    have hrest := @ih (front ++ (kept ++ old)) (by rw [hspan, ← hfront]; simp [Nat.add_assoc]) fun other hother => by
      have hlater := hedits other (List.mem_cons_of_mem _ hother)
      simpa using hlater
    have hold_nil : old.filter keep = [] := List.filter_eq_nil_iff.2 fun c hc => by simp [hold c hc]
    have hnew_nil : edit.replacement.toList.filter keep = [] := List.filter_eq_nil_iff.2 fun c hc => by simp [hnew c hc]
    rw [List.filter_append, List.filter_append, List.filter_append, List.filter_append, hold_nil, hnew_nil, hrest]

end Spliced

/-! ## The span of a fix -/

namespace Fix

/-- No edit of a fix starts before the fix. -/
theorem span_start_le {fix : Fix} {edit : Edit} (h : edit ∈ fix.edits) : fix.span.start ≤ edit.span.start := by
  have hmem : edit.span.start ∈ fix.edits.map (·.span.start) := List.mem_map_of_mem h
  cases hmin : (fix.edits.map (·.span.start)).min? with
  | none =>
    rw [List.min?_eq_none_iff.1 hmin] at hmem
    cases hmem
  | some least =>
    simp only [span, firstStart, hmin, Option.getD_some]
    exact (List.min?_eq_some_iff.1 hmin).2 _ hmem

/-- No edit of a fix stops after the fix. -/
theorem le_span_stop {fix : Fix} {edit : Edit} (h : edit ∈ fix.edits) : edit.span.stop ≤ fix.span.stop := by
  have hmem : edit.span.stop ∈ fix.edits.map (·.span.stop) := List.mem_map_of_mem h
  cases hmax : (fix.edits.map (·.span.stop)).max? with
  | none =>
    rw [List.max?_eq_none_iff.1 hmax] at hmem
    cases hmem
  | some greatest =>
    simp only [span, lastStop, hmax, Option.getD_some]
    exact (List.max?_eq_some_iff.1 hmax).2 _ hmem

/-- A fix without edits lies at the start of the text; any other stops with one of its edits. -/
theorem span_stop_cases (fix : Fix) :
    (fix.edits = [] ∧ fix.span = ⟨0, 0⟩) ∨ ∃ edit ∈ fix.edits, fix.span.stop = edit.span.stop := by
  cases hmax : (fix.edits.map (·.span.stop)).max? with
  | none =>
    have hnil : fix.edits = [] := by simpa using List.max?_eq_none_iff.1 hmax
    exact Or.inl ⟨hnil, by simp [span, firstStart, lastStop, hnil]⟩
  | some greatest =>
    obtain ⟨edit, hedit, hstop⟩ := List.mem_map.1 (List.max?_eq_some_iff.1 hmax).1
    refine Or.inr ⟨edit, hedit, ?_⟩
    simp only [span, lastStop, hmax, Option.getD_some]
    exact hstop.symm

/-- A sound fix starts before it stops, and stops in the text. -/
theorem Sound.span_le {source : List Char} {fix : Fix} (h : fix.Sound source) :
    fix.span.start ≤ fix.span.stop ∧ fix.span.stop ≤ byteLength source := by
  rcases span_stop_cases fix with ⟨_, hspan⟩ | ⟨edit, hedit, hstop⟩
  · rw [hspan]
    exact ⟨Nat.le_refl _, Nat.zero_le _⟩
  · have hsound := h.edits edit hedit
    rw [hstop]
    exact ⟨Nat.le_trans (span_start_le hedit) hsound.ordered, isBoundary_le hsound.stop⟩

end Fix

/-! ## Passes -/

namespace FixPass

/-- What a pass has written when it has come to its cursor and made edits. -/
def Written (source : List Char) (done : List Edit) (pass : FixPass) : Prop :=
  ∃ before rest, source = before ++ rest ∧ pass.cursor = byteLength before ∧ Spliced 0 before done pass.output

/-- An edit behind the cursor is made, and nothing else is lost or written twice. -/
theorem edit_written {source : List Char} {done : List Edit} {pass : FixPass} (h : pass.Written source done) {next : Edit}
    (hnext : next.Sound source) (hbehind : pass.cursor ≤ next.span.start) :
    (pass.edit source next).Written source (done ++ [next]) := by
  obtain ⟨before, rest, hsource, hcursor, hspliced⟩ := h
  obtain ⟨past, hpast⟩ := Nat.exists_eq_add_of_le (hcursor ▸ hbehind)
  obtain ⟨size, hsize⟩ := Nat.exists_eq_add_of_le hnext.ordered
  have hstart := hnext.start
  have hstop := hnext.stop
  rw [hsize, hpast, Nat.add_assoc] at hstop
  rw [hpast] at hstart
  rw [hsource] at hstart hstop
  obtain ⟨kept, old, rest', rfl, rfl, hold⟩ :=
    exists_parts (isBoundary_of_append hstart) (isBoundary_of_append hstop) (Nat.le_add_right past size)
  have hspan : next.span =
      ⟨0 + byteLength before + byteLength kept, 0 + byteLength before + byteLength kept + byteLength old⟩ := by
    have hstop' : next.span.stop = byteLength before + byteLength kept + byteLength old := by omega
    cases hs : next.span
    simp_all
  have hkept : slice source ⟨pass.cursor, next.span.start⟩ = kept := by
    rw [hcursor, hpast, hsource]
    exact slice_append before kept (old ++ rest')
  refine ⟨before ++ (kept ++ old), rest', by simp [hsource], ?_, ?_⟩
  · rw [edit, hspan]
    simp [Nat.add_assoc]
  · have hmore := hspliced.append_edit hspan
    rw [edit, hkept]
    simpa using hmore

/-- Making edits changes only the text and the cursor. -/
theorem foldl_edit_eq (source : List Char) (edits : List Edit) (pass : FixPass) :
    edits.foldl (edit source) pass =
      { pass with
        output := (edits.foldl (edit source) pass).output
        cursor := (edits.foldl (edit source) pass).cursor } := by
  induction edits generalizing pass with
  | nil => rfl
  | cons first edits ih =>
    rw [List.foldl_cons, ih]
    rfl

/-- Edits behind the cursor are made one after the other, and the cursor ends behind one of them. -/
theorem foldl_edit_written {source : List Char} {edits done : List Edit} {pass : FixPass} (h : pass.Written source done)
    (hsound : ∀ edit ∈ edits, edit.Sound source) (hdisjoint : edits.Pairwise fun a b => a.span.stop ≤ b.span.start)
    (hbehind : ∀ edit ∈ edits, pass.cursor ≤ edit.span.start) :
    (edits.foldl (edit source) pass).Written source (done ++ edits) ∧
      ((edits.foldl (edit source) pass).cursor = pass.cursor ∨
        ∃ edit ∈ edits, (edits.foldl (FixPass.edit source) pass).cursor = edit.span.stop) := by
  induction edits generalizing pass done with
  | nil => exact ⟨by simpa using h, Or.inl rfl⟩
  | cons first edits ih =>
    have hfirst := edit_written h (hsound first List.mem_cons_self) (hbehind first List.mem_cons_self)
    obtain ⟨hhead, htail⟩ := List.pairwise_cons.1 hdisjoint
    obtain ⟨hwritten, hcursor⟩ := ih hfirst (fun edit he => hsound edit (List.mem_cons_of_mem _ he)) htail hhead
    refine ⟨by simpa using hwritten, Or.inr ?_⟩
    rcases hcursor with hcursor | ⟨edit, hedit, hcursor⟩
    · exact ⟨first, List.mem_cons_self, hcursor⟩
    · exact ⟨edit, List.mem_cons_of_mem _ hedit, hcursor⟩

/-- What holds of a pass that has made some of the fixes it has considered. -/
structure Passed (source : List Char) (made : List Fix) (considered : Nat) (pass : FixPass) : Prop where
  written : pass.Written source (made.flatMap (·.edits))
  last : pass.last = made.getLast?.map (·.span.stop)
  /-- Nothing behind the end of the fix made last has been touched. -/
  cursor : pass.cursor ≤ pass.last.getD 0
  applied : pass.applied = made.length
  counted : pass.applied + pass.remaining = considered

theorem start_passed (source : List Char) : start.Passed source [] 0 :=
  ⟨⟨[], source, rfl, rfl, Spliced.done 0 []⟩, rfl, Nat.le_refl _, rfl, rfl⟩

section Take

variable {source : List Char} {made : List Fix} {considered : Nat} {pass : FixPass} {fix : Fix}

/-- A sound fix can be made exactly when it starts after the end of the one made last. -/
theorem admits_iff (h : pass.Passed source made considered) (hsound : fix.Sound source) :
    pass.admits (byteLength source) fix = true ↔ ∀ last ∈ made.getLast?, last.span.stop < fix.span.start := by
  rw [admits, h.last, Bool.and_eq_true, decide_eq_true_eq]
  cases made.getLast? with
  | none => simp [hsound.span_le.2]
  | some last => simp [hsound.span_le.2]

/-- Considering a fix makes it or leaves it. -/
theorem take_passed (h : pass.Passed source made considered) (hsound : fix.Sound source) :
    (pass.take source fix).Passed source (Fix.accept made fix) (considered + 1) := by
  have hcounted := h.counted
  rw [take, Fix.accept]
  by_cases hadmits : pass.admits (byteLength source) fix = true
  · have hlast := (admits_iff h hsound).1 hadmits
    rw [if_pos hadmits, if_pos hlast]
    have hstart : pass.cursor ≤ fix.span.start := by
      have hcursor := h.cursor
      rw [h.last] at hcursor
      cases hmade : made.getLast? with
      | none =>
        rw [hmade] at hcursor
        exact Nat.le_trans hcursor (Nat.zero_le _)
      | some last =>
        rw [hmade] at hcursor
        exact Nat.le_trans hcursor (Nat.le_of_lt (hlast last hmade))
    obtain ⟨hwritten, hcursor⟩ := foldl_edit_written h.written hsound.edits hsound.disjoint
      fun edit he => Nat.le_trans hstart (Fix.span_start_le he)
    rw [foldl_edit_eq]
    refine ⟨?_, by simp, ?_, ?_, ?_⟩
    · rw [List.flatMap_append, List.flatMap_singleton]
      exact hwritten
    · simp only [Option.getD_some]
      rcases hcursor with hcursor | ⟨edit, hedit, hcursor⟩
      · rw [hcursor]
        exact Nat.le_trans hstart hsound.span_le.1
      · rw [hcursor]
        exact Fix.le_span_stop hedit
    · simp [h.applied]
    · simp only
      omega
  · rw [if_neg hadmits, if_neg (mt (admits_iff h hsound).2 hadmits)]
    refine ⟨h.written, h.last, h.cursor, h.applied, ?_⟩
    simp only
    omega

end Take

/-- A pass makes the fixes that are accepted one after the other. -/
theorem foldl_take_passed {source : List Char} {order : List Fix} (hsound : ∀ fix ∈ order, fix.Sound source)
    {made : List Fix} {considered : Nat} {pass : FixPass} (h : pass.Passed source made considered) :
    (order.foldl (take source) pass).Passed source (order.foldl Fix.accept made) (considered + order.length) := by
  induction order generalizing made considered pass with
  | nil => exact h
  | cons fix order ih =>
    have hrest := ih (fun other ho => hsound other (List.mem_cons_of_mem _ ho)) (take_passed h (hsound fix List.mem_cons_self))
    rw [List.foldl_cons, List.foldl_cons, List.length_cons, ← Nat.add_assoc, Nat.add_right_comm]
    exact hrest

/-- The text of a pass is the source with the edits of the fixes made. -/
theorem finish_spliced {source : List Char} {made : List Fix} {considered : Nat} {pass : FixPass}
    (h : pass.Passed source made considered) : Spliced 0 source (made.flatMap (·.edits)) (pass.finish source).output := by
  obtain ⟨before, rest, hsource, hcursor, hspliced⟩ := h.written
  have hrest : slice source ⟨pass.cursor, byteLength source⟩ = rest := by
    have := slice_append before rest []
    rw [hcursor, hsource]
    simpa using this
  rw [finish, hrest, hsource]
  exact hspliced.append_kept rest

end FixPass

/-- Fixes that start behind the ends of those before them are all made. -/
theorem Fix.foldl_accept_eq {made order : List Fix} (h : order.Pairwise fun a b => a.span.stop < b.span.start)
    (hmade : ∀ last ∈ made.getLast?, ∀ fix ∈ order, last.span.stop < fix.span.start) :
    order.foldl accept made = made ++ order := by
  induction order generalizing made with
  | nil => simp
  | cons fix order ih =>
    obtain ⟨hbehind, hrest⟩ := List.pairwise_cons.1 h
    rw [List.foldl_cons, accept, if_pos fun last hlast => hmade last hlast fix List.mem_cons_self, ih hrest fun last hlast => ?_]
    · simp
    · obtain rfl : fix = last := by simpa using hlast
      exact hbehind

/-- Fixes that are in order are considered as they come. -/
theorem Fix.applyAll_of_pairwise {source : List Char} {fixes : List Fix} (h : fixes.Pairwise fun a b => a.span.le b.span = true) :
    applyAll source fixes = (fixes.foldl (FixPass.take source) .start).finish source := by
  rw [applyAll, sorted, List.mergeSort_of_pairwise h]

/-- A pass over fixes in order and apart from each other makes all of them. -/
theorem Fix.applyAll_of_spliced {source output : List Char} {fixes : List Fix} (hsound : ∀ fix ∈ fixes, fix.Sound source)
    (hapart : fixes.Pairwise fun a b => a.span.stop < b.span.start)
    (h : Spliced 0 source (fixes.flatMap (·.edits)) output) : applyAll source fixes = ⟨output, fixes.length, 0⟩ := by
  have horder : fixes.Pairwise fun a b => a.span.le b.span = true := by
    refine hapart.imp_of_mem fun {a b} ha _ hlt => Span.le_iff.2 (Or.inl ?_)
    exact Nat.lt_of_le_of_lt (hsound a ha).span_le.1 hlt
  have hpassed := FixPass.foldl_take_passed hsound (FixPass.start_passed source)
  have haccepted : fixes.foldl accept [] = fixes := foldl_accept_eq hapart nofun
  have hcounted := hpassed.counted
  rw [haccepted] at hpassed
  have houtput : ((fixes.foldl (FixPass.take source) .start).finish source).output = output := by
    have hsame := (FixPass.finish_spliced hpassed).makeBackwards_eq (show byteLength [] = 0 from rfl)
    rw [h.makeBackwards_eq (show byteLength [] = 0 from rfl)] at hsame
    exact (Option.some.inj hsame).symm
  have happlied := hpassed.applied
  rw [applyAll_of_pairwise horder, ← houtput]
  simp only [FixPass.finish, FixedText.mk.injEq, true_and]
  omega

/-- A fix of one edit replaces its span. -/
theorem Fix.applyAll_single (front old rest : List Char) (replacement : String) (message : Option String) :
    (applyAll (front ++ (old ++ rest))
      [⟨[⟨⟨byteLength front, byteLength front + byteLength old⟩, replacement⟩], message⟩]).output =
      front ++ (replacement.toList ++ rest) := by
  have hsound : ∀ edit ∈ [(⟨⟨byteLength front, byteLength front + byteLength old⟩, replacement⟩ : Edit)],
      edit.Sound (front ++ (old ++ rest)) := by
    intro edit hedit
    obtain rfl := List.mem_singleton.1 hedit
    exact ⟨Nat.le_add_right _ _, isBoundary_iff.2 ⟨front, old ++ rest, rfl, rfl⟩,
      isBoundary_iff.2 ⟨front ++ old, rest, by simp, by simp⟩⟩
  exact congrArg FixedText.output (applyAll_of_spliced (List.forall_mem_singleton.2 ⟨hsound, List.pairwise_singleton _ _⟩)
    (List.pairwise_singleton _ _) (.edit front old (by simp) (.done _ rest)))

/-- A fix of two edits replaces their spans and keeps what stands between them. -/
theorem Fix.applyAll_pair (front old kept old' rest : List Char) (replacement replacement' : String) (message : Option String) :
    (applyAll (front ++ (old ++ (kept ++ (old' ++ rest))))
        [⟨[⟨⟨byteLength front, byteLength (front ++ old)⟩, replacement⟩,
          ⟨⟨byteLength (front ++ (old ++ kept)), byteLength (front ++ (old ++ (kept ++ old')))⟩, replacement'⟩],
            message⟩]).output =
      front ++ (replacement.toList ++ (kept ++ (replacement'.toList ++ rest))) := by
  have hboundary : ∀ before after, front ++ (old ++ (kept ++ (old' ++ rest))) = before ++ after →
      isBoundary (front ++ (old ++ (kept ++ (old' ++ rest)))) (byteLength before) = true :=
    fun before after heq => isBoundary_iff.2 ⟨before, after, heq, rfl⟩
  refine congrArg FixedText.output (applyAll_of_spliced ?_ (List.pairwise_singleton _ _) ?_)
  · intro fix hfix
    obtain rfl := List.mem_singleton.1 hfix
    refine ⟨fun edit hedit => ?_, ?_⟩
    · rcases List.mem_cons.1 hedit with rfl | hedit
      · exact ⟨by simp, hboundary _ _ rfl, hboundary _ (kept ++ (old' ++ rest)) (by simp)⟩
      · obtain rfl := List.mem_singleton.1 hedit
        exact ⟨by simp, hboundary _ (old' ++ rest) (by simp), hboundary _ rest (by simp)⟩
    · simp only [List.pairwise_pair, byteLength_append]
      omega
  · refine .edit front old (by simp) (.edit kept old' ?_ (.done _ rest))
    simp [Nat.add_assoc]

/-! ## Fixes that lie apart -/

/-- Two fixes with at least a byte between them. -/
def Fix.Apart (a b : Fix) : Prop :=
  a.span.stop < b.span.start ∨ b.span.stop < a.span.start

theorem Fix.Apart.symm {a b : Fix} (h : a.Apart b) : b.Apart a :=
  Or.symm h

/-- In the order of their spans, fixes that lie apart are each behind the one before. -/
theorem Fix.pairwise_sorted {source : List Char} {fixes : List Fix} (hsound : ∀ fix ∈ fixes, fix.Sound source)
    (hapart : fixes.Pairwise Fix.Apart) : (sorted fixes).Pairwise fun a b => a.span.stop < b.span.start := by
  have horder : StablyOrdered Fix.span fixes (sorted fixes) := stablyOrdered_mergeSort Fix.span fixes
  have hboth := horder.sorted.and ((horder.perm.pairwise_iff Fix.Apart.symm).2 hapart)
  refine hboth.imp_of_mem ?_
  rintro a b - hb ⟨hle, hlt | hlt⟩
  · exact hlt
  · have hspan := (hsound b (horder.perm.mem_iff.1 hb)).span_le.1
    rw [Span.le_iff] at hle
    omega

/-- One pass makes all of the fixes that lie apart, whatever their order. -/
theorem Fix.applyAll_of_apart {source : List Char} {fixes : List Fix} (hsound : ∀ fix ∈ fixes, fix.Sound source)
    (hapart : fixes.Pairwise Fix.Apart) :
    (applyAll source fixes).applied = fixes.length ∧ (applyAll source fixes).remaining = 0 ∧
      Spliced 0 source ((sorted fixes).flatMap (·.edits)) (applyAll source fixes).output := by
  have horder : StablyOrdered Fix.span fixes (sorted fixes) := stablyOrdered_mergeSort Fix.span fixes
  have hsounds : ∀ fix ∈ sorted fixes, fix.Sound source := fun fix hfix => hsound fix (horder.perm.mem_iff.1 hfix)
  have hpassed := FixPass.foldl_take_passed hsounds (FixPass.start_passed source)
  rw [foldl_accept_eq (pairwise_sorted hsound hapart) (by simp), List.nil_append, Nat.zero_add] at hpassed
  have happlied := hpassed.applied
  have hcounted := hpassed.counted
  refine ⟨?_, ?_, FixPass.finish_spliced hpassed⟩
  · rw [applyAll, FixPass.finish, happlied, horder.perm.length_eq]
  · change ((sorted fixes).foldl (FixPass.take source) .start).remaining = 0
    omega

/-- A fix that is made alone is made. -/
theorem Fix.exists_applyAll_alone {source : List Char} {fix : Fix} (hsound : fix.Sound source) :
    ∃ output, applyAll source [fix] = ⟨output, 1, 0⟩ ∧ Spliced 0 source fix.edits output := by
  obtain ⟨happlied, hremaining, hspliced⟩ := applyAll_of_apart (List.forall_mem_singleton.2 hsound) (List.pairwise_singleton _ _)
  rw [sorted, List.mergeSort_singleton, List.flatMap_singleton] at hspliced
  generalize applyAll source [fix] = fixed at happlied hremaining hspliced ⊢
  obtain ⟨output, applied, remaining⟩ := fixed
  obtain rfl : applied = 1 := happlied
  obtain rfl : remaining = 0 := hremaining
  exact ⟨output, rfl, hspliced⟩

/-! ## The fixes of a lint -/

/-- A pass over diagnostics whose fixes are sound considers the fixes in the stable order of their spans and makes those that
start after the end of the one made last. Its text is the source with exactly the edits of these fixes made: the text that
they give when they are made one by one from the back to the front. The fixes it does not make are left. -/
theorem applyAll_exact {source : List Char} {result : LintResult} (h : ∀ fix ∈ result.fixes, fix.Sound source) :
    ∃ order, StablyOrdered Fix.span result.fixes order ∧
      Spliced 0 source ((Fix.accepted order).flatMap (·.edits)) (Fix.applyAll source result.fixes).output ∧
      makeBackwards source ((Fix.accepted order).flatMap (·.edits)) = some (Fix.applyAll source result.fixes).output ∧
      (Fix.applyAll source result.fixes).applied = (Fix.accepted order).length ∧
      (Fix.applyAll source result.fixes).applied + (Fix.applyAll source result.fixes).remaining =
        (result.diagnostics.filter (·.report.fix.isSome)).length := by
  have horder : StablyOrdered Fix.span result.fixes (Fix.sorted result.fixes) := stablyOrdered_mergeSort Fix.span _
  have hpassed := FixPass.foldl_take_passed (fun fix hf => h fix (horder.perm.mem_iff.1 hf)) (FixPass.start_passed source)
  have hspliced := FixPass.finish_spliced hpassed
  have hcount : (result.diagnostics.filter (·.report.fix.isSome)).length = result.fixes.length := by
    rw [LintResult.fixes, ← List.countP_eq_length_filter, List.length_filterMap_eq_countP]
  refine ⟨_, horder, hspliced, ?_, hpassed.applied, ?_⟩
  · exact hspliced.makeBackwards_eq (show byteLength [] = 0 from rfl)
  · rw [hcount, ← horder.perm.length_eq, ← Nat.zero_add (Fix.sorted result.fixes).length]
    exact hpassed.counted

/-- Diagnostics for the text `aéb`: the second fix touches the first, and the third is an insertion at the end. -/
def touchingFixes : LintResult :=
  let diagnostic (edits : List Edit) : Diagnostic :=
    ⟨"rule", .error, { messageId := "id", span := ⟨0, 1⟩, message := "", fix := some ⟨edits, none⟩ }⟩
  ⟨[diagnostic [⟨⟨4, 4⟩, "!"⟩], diagnostic [⟨⟨1, 3⟩, "e"⟩], diagnostic [⟨⟨0, 0⟩, "<"⟩, ⟨⟨0, 1⟩, ""⟩]], []⟩

theorem applyAll_touchingFixes : (∀ fix ∈ touchingFixes.fixes, fix.Sound "aéb".toList) ∧
    ∃ order, StablyOrdered Fix.span touchingFixes.fixes order ∧
      Spliced 0 "aéb".toList ((Fix.accepted order).flatMap (·.edits)) (Fix.applyAll "aéb".toList touchingFixes.fixes).output ∧
      makeBackwards "aéb".toList ((Fix.accepted order).flatMap (·.edits)) =
        some (Fix.applyAll "aéb".toList touchingFixes.fixes).output ∧
      (Fix.applyAll "aéb".toList touchingFixes.fixes).applied = (Fix.accepted order).length ∧
      (Fix.applyAll "aéb".toList touchingFixes.fixes).applied + (Fix.applyAll "aéb".toList touchingFixes.fixes).remaining =
        (touchingFixes.diagnostics.filter (·.report.fix.isSome)).length :=
  ⟨by decide, applyAll_exact (by decide)⟩

end ComponentLint
