import ComponentLint.Text.Span

/-!
# Lines and columns

A line starts at offset 0 and after every line feed. Lines and columns count from zero, columns in bytes.
-/

namespace ComponentLint

/-- A place in a text by line and column. -/
structure LineColumn where
  line : Nat
  column : Nat
  deriving DecidableEq, Repr

/-- The offsets at which the lines of a text start, in order. -/
structure LineIndex where
  starts : List Nat
  deriving Repr

namespace LineIndex

/-- The offsets after the line feeds of a text that itself starts at `offset`. -/
def startsFrom (offset : Nat) : List Char → List Nat
  | [] => []
  | c :: rest =>
    let next := offset + c.utf8Size
    if c == '\n' then next :: startsFrom next rest else startsFrom next rest

/-- The line index of a text. -/
def ofText (text : List Char) : LineIndex :=
  ⟨0 :: startsFrom 0 text⟩

/-- The line and column of an offset: the last line start at or before it, and the distance from there. -/
def position (index : LineIndex) (offset : Nat) : LineColumn :=
  let passed := index.starts.takeWhile (· ≤ offset)
  ⟨passed.length - 1, offset - passed.getLastD 0⟩

/-- The line of an offset. -/
def line (index : LineIndex) (offset : Nat) : Nat :=
  (index.position offset).line

/-- The offset at which a line starts, if the text has that line. -/
def lineStart? (index : LineIndex) (line : Nat) : Option Nat :=
  index.starts[line]?

/-- The number of lines. -/
def count (index : LineIndex) : Nat :=
  index.starts.length

end LineIndex

namespace Text

/-- The number of line feeds in a span of a text; none if the span is not one of the text. -/
def lineBreaks (text : List Char) (span : Span) : Nat :=
  (slice text span).count '\n'

/-- The wording of a number of line breaks. -/
def lineBreakPhrase : Nat → String
  | 0 => "no line breaks"
  | 1 => "1 line break"
  | count => toString count ++ " line breaks"

end Text

end ComponentLint
