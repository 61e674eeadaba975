import ComponentLint.Proofs.Fix.Drafting

/-!
# Which drafts become fixes

A draft checks neighbours only: each edit, in the order of the spans, has to end where the next one starts or before. For spans
whose ends are in order this is the same as that no two edits overlap (`Edit.areDisjoint_sorted_iff`). So a draft that was filled
request by request (`FixRequest`) becomes a fix exactly when its edits are safe to make together, and the fix holds all of them
(`FixDraft.build?_requests`).
-/

namespace ComponentLint

open Text

/-! ## Spans that overlap -/

namespace Span

/-- Whether a span is empty and lies strictly inside another one. -/
def Parts (a b : Span) : Prop :=
  a.start = a.stop ∧ b.start < a.start ∧ a.start < b.stop

/-- Whether two spans share a byte, or one is a position strictly inside the other. -/
def Overlaps (a b : Span) : Prop :=
  (∃ offset, a.Holds offset ∧ b.Holds offset) ∨ a.Parts b ∨ b.Parts a

theorem Overlaps.symm {a b : Span} (h : a.Overlaps b) : b.Overlaps a := by
  rcases h with ⟨offset, ha, hb⟩ | hparts | hparts
  · exact .inl ⟨offset, hb, ha⟩
  · exact .inr (.inr hparts)
  · exact .inr (.inl hparts)

/-- Of two spans in order, the first ends before the second one starts exactly when they do not overlap. -/
theorem stop_le_start_iff {a b : Span} (ha : a.start ≤ a.stop) (hb : b.start ≤ b.stop) (hab : a.le b = true) :
    a.stop ≤ b.start ↔ ¬a.Overlaps b := by
  rw [le_iff] at hab
  constructor
  · rintro hle (⟨offset, hfirst, hsecond⟩ | hparts | hparts)
    · exact Nat.not_lt_of_le hle (Nat.lt_of_le_of_lt hsecond.1 hfirst.2)
    · obtain ⟨-, hstart, -⟩ := hparts
      omega
    · obtain ⟨-, -, hstop⟩ := hparts
      omega
  · intro hnot
    by_cases hle : a.stop ≤ b.start
    · exact hle
    · -- The second span starts in the first one: with a byte, or as a position inside it.
      refine absurd ?_ hnot
      by_cases hempty : b.start = b.stop
      · exact .inr (.inr ⟨hempty, by omega, by omega⟩)
      · exact .inl ⟨b.start, ⟨by omega, by omega⟩, ⟨Nat.le_refl _, by omega⟩⟩

end Span

/-! ## Neighbours and pairs -/

namespace Edit

/-- Neighbours in the order of the spans are apart exactly when no two edits overlap. -/
theorem areDisjoint_sorted_iff {edits order : List Edit} (hordered : ∀ edit ∈ edits, edit.span.start ≤ edit.span.stop)
    (h : StablyOrdered Edit.span edits order) :
    areDisjoint order = true ↔ edits.Pairwise fun a b => ¬a.span.Overlaps b.span := by
  have hspan : ∀ edit ∈ order, edit.span.start ≤ edit.span.stop := by
    intro edit hedit
    exact hordered edit (h.perm.mem_iff.1 hedit)
  have hperm : (order.Pairwise fun a b => ¬a.span.Overlaps b.span) ↔ edits.Pairwise fun a b => ¬a.span.Overlaps b.span :=
    h.perm.pairwise_iff fun hnot hoverlaps => hnot hoverlaps.symm
  rw [← hperm]
  constructor
  · intro hneighbours
    refine (h.sorted.and (pairwise_of_areDisjoint h.sorted hneighbours)).imp_of_mem ?_
    rintro a b ha hb ⟨hle, hstop⟩
    exact (Span.stop_le_start_iff (hspan a ha) (hspan b hb) hle).1 hstop
  · intro hpairs
    refine areDisjoint_of_pairwise ((h.sorted.and hpairs).imp_of_mem ?_)
    rintro a b ha hb ⟨hle, hnot⟩
    exact (Span.stop_le_start_iff (hspan a ha) (hspan b hb) hle).2 hnot

end Edit

/-! ## Requests -/

/-- What can be asked of a draft. The two ends of a range may be in any order. -/
inductive FixRequest where
  | insertBefore (span : Span) (text : String)
  | insertAfter (span : Span) (text : String)
  | insertBeforeRange (first last : Nat) (text : String)
  | insertAfterRange (first last : Nat) (text : String)
  | replace (span : Span) (text : String)
  | remove (span : Span)
  | replaceBetween (first last : Nat) (text : String)
  | removeBetween (first last : Nat)
  | describe (message : String)

namespace FixRequest

/-- Does what is asked. -/
def perform (draft : FixDraft) : FixRequest → FixDraft
  | insertBefore span text => draft.insertBefore span text
  | insertAfter span text => draft.insertAfter span text
  | insertBeforeRange first _ text => draft.insertAt first text
  | insertAfterRange _ last text => draft.insertAt last text
  | replace span text => draft.replace span text
  | remove span => draft.remove span
  | replaceBetween first last text => draft.replaceBetween first last text
  | removeBetween first last => draft.removeBetween first last
  | describe message => draft.describe message

/-- The span that a request names. -/
def span? : FixRequest → Option Span
  | insertBefore span _ => some span
  | insertAfter span _ => some span
  | replace span _ => some span
  | remove span => some span
  | _ => none

/-- Whether something is to be replaced or removed between two offsets in the wrong order. -/
def Reversed : FixRequest → Prop
  | replaceBetween first last _ => last < first
  | removeBetween first last => last < first
  | _ => False

/-- The edit of a span, if its ends are in order. -/
def editBetween? (first last : Nat) (text : String) : Option Edit :=
  if first ≤ last then some ⟨⟨first, last⟩, text⟩ else none

/-- The edit that is asked for. -/
def edit? : FixRequest → Option Edit
  | insertBefore span text => some ⟨⟨span.start, span.start⟩, text⟩
  | insertAfter span text => some ⟨⟨span.stop, span.stop⟩, text⟩
  | insertBeforeRange first _ text => some ⟨⟨first, first⟩, text⟩
  | insertAfterRange _ last text => some ⟨⟨last, last⟩, text⟩
  | replace span text => some ⟨span, text⟩
  | remove span => some ⟨span, ""⟩
  | replaceBetween first last text => editBetween? first last text
  | removeBetween first last => editBetween? first last ""
  | describe _ => none

/-- The message that is asked for. -/
def message? : FixRequest → Option String
  | describe message => some message
  | _ => none

/-- An edit that is asked for has its ends in order if the span that the request names has. -/
theorem ordered_of_edit? {request : FixRequest} (h : ∀ span ∈ request.span?, span.start ≤ span.stop) {edit : Edit}
    (hedit : request.edit? = some edit) : edit.span.start ≤ edit.span.stop := by
  have hbetween : ∀ {first last : Nat} {text : String}, editBetween? first last text = some edit →
      edit.span.start ≤ edit.span.stop := by
    intro first last text hsome
    obtain ⟨hle, hedit⟩ := Option.ite_none_right_eq_some.1 hsome
    obtain rfl := Option.some.inj hedit
    exact hle
  cases request with
  | insertBefore | insertAfter | insertBeforeRange | insertAfterRange =>
    obtain rfl := Option.some.inj hedit
    exact Nat.le_refl _
  | replace span | remove span =>
    obtain rfl := Option.some.inj hedit
    exact h span rfl
  | replaceBetween | removeBetween => exact hbetween hedit
  | describe => cases hedit

/-- What is left of requests in a draft for a text of a length: the edits in the order in which they were asked for, the last
message, and whether one of the requests cannot be met. -/
structure Gathered (bytes : Nat) (requests : List FixRequest) (draft : FixDraft) : Prop where
  length : draft.length = bytes
  edits : draft.edits = requests.filterMap edit?
  message : draft.message = (requests.filterMap message?).getLast?
  spoiled : draft.spoiled = true ↔
    (∃ request ∈ requests, request.Reversed) ∨ ∃ edit ∈ requests.filterMap edit?, bytes < edit.span.stop

namespace Gathered

variable {bytes : Nat} {requests : List FixRequest} {draft : FixDraft} {request : FixRequest}

/-- A request that only adds an edit. -/
theorem add (h : Gathered bytes requests draft) {span : Span} {text : String} (hedit : request.edit? = some ⟨span, text⟩)
    (hmessage : request.message? = none) (hreversed : ¬request.Reversed) :
    Gathered bytes (requests ++ [request]) (draft.add span text) := by
  refine ⟨h.length, ?_, ?_, ?_⟩
  · simp [FixDraft.add, h.edits, hedit]
  · simp [FixDraft.add, h.message, hmessage]
  · simp [FixDraft.add, h.spoiled, h.length, hedit, hreversed, or_and_right, exists_or, or_assoc]

/-- A request for what lies between two offsets. -/
theorem replaceBetween (h : Gathered bytes requests draft) {first last : Nat} {text : String}
    (hedit : request.edit? = editBetween? first last text) (hmessage : request.message? = none)
    (hreversed : request.Reversed ↔ last < first) :
    Gathered bytes (requests ++ [request]) (draft.replaceBetween first last text) := by
  by_cases hlt : last < first
  · have hnone : request.edit? = none := by rw [hedit, editBetween?, if_neg (Nat.not_le.2 hlt)]
    rw [FixDraft.replaceBetween, if_pos hlt]
    refine ⟨h.length, ?_, ?_, ?_⟩
    · simp [h.edits, hnone]
    · simp [h.message, hmessage]
    · simp [hreversed, hlt]
  · have hle := Nat.not_lt.1 hlt
    rw [FixDraft.replaceBetween_of_le hle]
    refine h.add ?_ hmessage (mt hreversed.1 hlt)
    rw [hedit, editBetween?, if_pos hle]

theorem perform (h : Gathered bytes requests draft) (request : FixRequest) :
    Gathered bytes (requests ++ [request]) (request.perform draft) := by
  cases request with
  | insertBefore | insertAfter | insertBeforeRange | insertAfterRange | replace | remove => exact h.add rfl rfl not_false
  | replaceBetween | removeBetween => exact h.replaceBetween rfl rfl Iff.rfl
  | describe message =>
    refine ⟨h.length, ?_, ?_, ?_⟩
    · simp [FixRequest.perform, FixDraft.describe, h.edits, edit?]
    · simp [FixRequest.perform, FixDraft.describe, message?]
    · simp [FixRequest.perform, FixDraft.describe, h.spoiled, edit?, Reversed]

/-- A draft gathers what it is asked for, request by request. -/
theorem foldl (h : Gathered bytes requests draft) (more : List FixRequest) :
    Gathered bytes (requests ++ more) (more.foldl FixRequest.perform draft) := by
  induction more generalizing requests draft with
  | nil => simpa using h
  | cons request more ih => simpa using ih (h.perform request)

end Gathered

theorem gathered_ofLength (bytes : Nat) (requests : List FixRequest) :
    Gathered bytes requests (requests.foldl perform (.ofLength bytes)) := by
  have hstart : Gathered bytes [] (.ofLength bytes) := ⟨rfl, rfl, rfl, by simp [FixDraft.ofLength]⟩
  simpa using hstart.foldl requests

end FixRequest

namespace FixDraft

theorem build?_eq_none_iff (draft : FixDraft) :
    draft.build? = none ↔ draft.edits = [] ∨ draft.spoiled = true ∨ Edit.areDisjoint draft.sorted = false := by
  unfold build?
  split
  · next hbad =>
    refine iff_of_true rfl ?_
    simpa [or_comm, or_left_comm, or_assoc] using hbad
  · next hgood =>
    refine iff_of_false nofun ?_
    simpa [and_comm, and_left_comm, and_assoc] using hgood

theorem build?_eq_some {draft : FixDraft} {fix : Fix} (h : draft.build? = some fix) : fix = ⟨draft.sorted, draft.message⟩ := by
  unfold build? at h
  split at h
  · cases h
  · exact (Option.some.inj h).symm

/-- A draft that is filled request by request becomes no fix exactly if no edit was asked for, if something was to be replaced
between offsets in the wrong order, if an edit ends behind the text, or if two edits overlap. Otherwise it becomes the fix with
all the edits in the stable order of their spans, which lie in the text and apart from each other, and with the last message. -/
theorem build?_requests (source : List Char) (requests : List FixRequest)
    (h : ∀ request ∈ requests, ∀ span ∈ request.span?, span.start ≤ span.stop) :
    let draft := requests.foldl FixRequest.perform (.ofLength (byteLength source))
    let edits := requests.filterMap FixRequest.edit?
    (draft.build? = none ↔ edits = [] ∨ (∃ request ∈ requests, request.Reversed) ∨
        (∃ edit ∈ edits, byteLength source < edit.span.stop) ∨
        ∃ first second, [first, second].Sublist edits ∧ first.span.Overlaps second.span) ∧
      ∀ fix, draft.build? = some fix → StablyOrdered Edit.span edits fix.edits ∧
        (∀ edit ∈ fix.edits, edit.span.start ≤ edit.span.stop ∧ edit.span.stop ≤ byteLength source) ∧
        (fix.edits.Pairwise fun a b => a.span.stop ≤ b.span.start) ∧
        fix.message = (requests.filterMap FixRequest.message?).getLast? := by
  intro draft edits
  have hgathered : FixRequest.Gathered (byteLength source) requests draft := FixRequest.gathered_ofLength _ requests
  have hordered : ∀ edit ∈ edits, edit.span.start ≤ edit.span.stop := by
    intro edit hedit
    obtain ⟨request, hrequest, hasked⟩ := List.mem_filterMap.1 hedit
    exact FixRequest.ordered_of_edit? (h request hrequest) hasked
  have horder : StablyOrdered Edit.span edits draft.sorted := by
    rw [sorted, hgathered.edits]
    exact stablyOrdered_mergeSort Edit.span edits
  have hapart := Edit.areDisjoint_sorted_iff hordered horder
  have hnone := build?_eq_none_iff draft
  rw [hgathered.edits, hgathered.spoiled, ← Bool.not_eq_true, hapart, List.pairwise_iff_forall_sublist] at hnone
  constructor
  · rw [hnone, or_assoc]
    simp only [not_forall, not_not, exists_prop, edits]
  · intro fix hfix
    have hsome : ¬draft.build? = none := by simp [hfix]
    rw [hnone, ← List.pairwise_iff_forall_sublist, ← hapart] at hsome
    simp only [not_or, not_not, not_exists, not_and, Nat.not_lt] at hsome
    obtain ⟨-, ⟨-, hbounded⟩, hdisjoint⟩ := hsome
    obtain rfl := build?_eq_some hfix
    refine ⟨horder, ?_, Edit.pairwise_of_areDisjoint horder.sorted hdisjoint, hgathered.message⟩
    intro edit hedit
    have hasked := horder.perm.mem_iff.1 hedit
    exact ⟨hordered edit hasked, hbounded edit hasked⟩

/-- Requests for the text `aéb`: two insertions where a replaced span ends, one of them at a reversed range, and two messages. -/
def touchingRequests : List FixRequest :=
  [.insertAfterRange 4 3 "<", .describe "first", .replace ⟨1, 3⟩ "e", .insertBefore ⟨3, 4⟩ ">", .describe "second"]

theorem build?_requests_touching :
    (∀ request ∈ touchingRequests, ∀ span ∈ request.span?, span.start ≤ span.stop) ∧
      ∃ fix, (touchingRequests.foldl FixRequest.perform (.ofLength (byteLength "aéb".toList))).build? = some fix ∧
        StablyOrdered Edit.span (touchingRequests.filterMap FixRequest.edit?) fix.edits ∧
        fix = ⟨[⟨⟨1, 3⟩, "e"⟩, ⟨⟨3, 3⟩, "<"⟩, ⟨⟨3, 3⟩, ">"⟩], some "second"⟩ := by
  have hordered : ∀ request ∈ touchingRequests, ∀ span ∈ request.span?, span.start ≤ span.stop := by decide
  obtain ⟨-, hsome⟩ := build?_requests "aéb".toList touchingRequests hordered
  have hdraft : touchingRequests.foldl FixRequest.perform (.ofLength (byteLength "aéb".toList)) =
      ⟨4, [⟨⟨3, 3⟩, "<"⟩, ⟨⟨1, 3⟩, "e"⟩, ⟨⟨3, 3⟩, ">"⟩], some "second", false⟩ := rfl
  have hsorted : (⟨4, [⟨⟨3, 3⟩, "<"⟩, ⟨⟨1, 3⟩, "e"⟩, ⟨⟨3, 3⟩, ">"⟩], some "second", false⟩ : FixDraft).sorted =
      [⟨⟨1, 3⟩, "e"⟩, ⟨⟨3, 3⟩, "<"⟩, ⟨⟨3, 3⟩, ">"⟩] := by
    simp [sorted, List.mergeSort, List.MergeSort.Internal.splitInTwo, Span.le]
  have hfix : (touchingRequests.foldl FixRequest.perform (.ofLength (byteLength "aéb".toList))).build? =
      some ⟨[⟨⟨1, 3⟩, "e"⟩, ⟨⟨3, 3⟩, "<"⟩, ⟨⟨3, 3⟩, ">"⟩], some "second"⟩ := by
    rw [hdraft, build?, hsorted]
    rfl
  obtain ⟨horder, -, -, -⟩ := hsome _ hfix
  exact ⟨hordered, _, hfix, horder, rfl⟩

end FixDraft

end ComponentLint
