/-!
# Spans and slices

Positions are byte offsets into the UTF-8 form of a text. A text is handled as its list of characters, so an offset
counts the bytes of the characters before it, and an offset inside a character is no position of the text.
-/

namespace ComponentLint

/-- The bytes from `start` up to, but not including, `stop`. -/
structure Span where
  start : Nat
  stop : Nat
  deriving DecidableEq, Repr, Inhabited

namespace Span

/-- The span moved `distance` bytes to the right. -/
def shift (span : Span) (distance : Nat) : Span :=
  ⟨span.start + distance, span.stop + distance⟩

/-- Spans are ordered by their start, then by their end. -/
def le (a b : Span) : Bool :=
  a.start < b.start || (a.start == b.start && a.stop ≤ b.stop)

end Span

namespace Text

/-- The number of bytes that a list of characters takes in UTF-8. -/
def byteLength : List Char → Nat
  | [] => 0
  | c :: rest => c.utf8Size + byteLength rest

@[simp] theorem byteLength_nil : byteLength [] = 0 := rfl

@[simp] theorem byteLength_cons (c : Char) (rest : List Char) :
    byteLength (c :: rest) = c.utf8Size + byteLength rest := rfl

/-- Lengths add up over concatenation. -/
@[simp] theorem byteLength_append (a b : List Char) : byteLength (a ++ b) = byteLength a + byteLength b := by
  induction a with
  | nil => simp
  | cons c rest ih => simp [ih, Nat.add_assoc]

/-- Splits a text after its first `count` bytes; `none` past the end or inside a character. -/
def splitAt? : Nat → List Char → Option (List Char × List Char)
  | 0, text => some ([], text)
  | _ + 1, [] => none
  | count + 1, c :: rest =>
    if c.utf8Size ≤ count + 1 then
      (splitAt? (count + 1 - c.utf8Size) rest).map fun (before, after) => (c :: before, after)
    else none

/-- Splitting a text after as many bytes as its first part has gives back the two parts. -/
theorem splitAt?_byteLength (a b : List Char) : splitAt? (byteLength a) (a ++ b) = some (a, b) := by
  induction a with
  | nil => simp [splitAt?]
  | cons c rest ih =>
    obtain ⟨n, hn⟩ : ∃ n, c.utf8Size + byteLength rest = n + 1 :=
      ⟨c.utf8Size + byteLength rest - 1, by have := c.utf8Size_pos; omega⟩
    have hle : c.utf8Size ≤ n + 1 := by omega
    have hsub : n + 1 - c.utf8Size = byteLength rest := by omega
    simp [hn, splitAt?, hle, hsub, ih]

/-- The characters between two offsets, when both are positions of the text in order. -/
def slice? (text : List Char) (span : Span) : Option (List Char) :=
  if span.start ≤ span.stop then do
    let (_, after) ← splitAt? span.start text
    let (inside, _) ← splitAt? (span.stop - span.start) after
    return inside
  else none

/-- The characters of a span, and nothing for a span that is not one of the text. -/
def slice (text : List Char) (span : Span) : List Char :=
  (slice? text span).getD []

/-- Whether an offset is a position of the text: not past the end and not inside a character. -/
def isBoundary (text : List Char) (offset : Nat) : Bool :=
  (splitAt? offset text).isSome

end Text

end ComponentLint
