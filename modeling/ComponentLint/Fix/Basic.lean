import ComponentLint.Text.Span

/-!
# Edits and fixes

An edit replaces a span of a text, a fix is a list of edits that belong together, and a suggestion is a fix that is
only offered.
-/

namespace ComponentLint

/-- The replacement of a span of a text. -/
structure Edit where
  span : Span
  replacement : String
  deriving DecidableEq, Repr

/-- Edits that belong together, with a description of what they do. -/
structure Fix where
  edits : List Edit
  message : Option String
  deriving DecidableEq, Repr

/-- A fix that is offered under a name and never applied on its own. -/
structure Suggestion where
  message : String
  fix : Fix
  deriving DecidableEq, Repr

namespace Fix

/-- The least of the starts, and 0 if there are none. -/
def firstStart (edits : List Edit) : Nat :=
  ((edits.map (·.span.start)).min?).getD 0

/-- The greatest of the ends, and 0 if there are none. -/
def lastStop (edits : List Edit) : Nat :=
  ((edits.map (·.span.stop)).max?).getD 0

/-- The smallest span that covers every edit. -/
def span (fix : Fix) : Span :=
  ⟨firstStart fix.edits, lastStop fix.edits⟩

end Fix

/-- Whether each edit ends where the next one starts, or before. -/
def Edit.areDisjoint : List Edit → Bool
  | first :: second :: rest => first.span.stop ≤ second.span.start && areDisjoint (second :: rest)
  | _ => true

end ComponentLint

/-!
## Drafting a fix

A draft gathers edits against one text. It becomes a fix if it holds an edit, every edit lies in the text and no two
of them overlap; otherwise there is no fix.
-/

namespace ComponentLint

/-- The edits gathered so far, in the order in which they were asked for. -/
structure FixDraft where
  /-- The bytes of the text that the edits are for. -/
  length : Nat
  edits : List Edit
  message : Option String
  /-- Whether an edit was asked for that cannot be made. -/
  spoiled : Bool
  deriving Repr

namespace FixDraft

/-- The draft without edits. -/
def ofLength (length : Nat) : FixDraft :=
  ⟨length, [], none, false⟩

/-- Adds an edit. -/
def add (draft : FixDraft) (span : Span) (replacement : String) : FixDraft :=
  { draft with
    edits := draft.edits ++ [⟨span, replacement⟩]
    spoiled := draft.spoiled || draft.length < span.stop }

/-- Says what the fix does. -/
def describe (draft : FixDraft) (message : String) : FixDraft :=
  { draft with message := some message }

/-- Inserts a text at an offset. -/
def insertAt (draft : FixDraft) (offset : Nat) (text : String) : FixDraft :=
  draft.add ⟨offset, offset⟩ text

/-- Inserts a text before a span. -/
def insertBefore (draft : FixDraft) (span : Span) (text : String) : FixDraft :=
  draft.insertAt span.start text

/-- Inserts a text after a span. -/
def insertAfter (draft : FixDraft) (span : Span) (text : String) : FixDraft :=
  draft.insertAt span.stop text

/-- Replaces a span. -/
def replace (draft : FixDraft) (span : Span) (text : String) : FixDraft :=
  draft.add span text

/-- Removes a span. -/
def remove (draft : FixDraft) (span : Span) : FixDraft :=
  draft.add span ""

/-- Replaces what lies between two offsets; offsets in the wrong order spoil the draft. -/
def replaceBetween (draft : FixDraft) (first last : Nat) (text : String) : FixDraft :=
  if last < first then { draft with spoiled := true } else draft.add ⟨first, last⟩ text

/-- Removes what lies between two offsets. -/
def removeBetween (draft : FixDraft) (first last : Nat) : FixDraft :=
  draft.replaceBetween first last ""

/-- Whether no edit has been added. -/
def isEmpty (draft : FixDraft) : Bool :=
  draft.edits.isEmpty

/-- The edits in the order of their spans; edits of one span keep their order. -/
def sorted (draft : FixDraft) : List Edit :=
  draft.edits.mergeSort fun a b => a.span.le b.span

/-- The fix of a draft, if it is safe to apply. -/
def build? (draft : FixDraft) : Option Fix :=
  if draft.spoiled || draft.edits.isEmpty || !Edit.areDisjoint draft.sorted then none
  else some ⟨draft.sorted, draft.message⟩

end FixDraft

end ComponentLint
