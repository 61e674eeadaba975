import ComponentLint.Text.Span

/-!
# Streams

A scanner's view of a text: what is left of it, and the offset at which that starts.
-/

namespace ComponentLint

/-- The rest of a text, with the offset at which it starts. -/
structure Stream where
  offset : Nat
  chars : List Char
  deriving Repr, Inhabited

namespace Stream

/-- The stream after its first character. -/
def next (stream : Stream) : Stream :=
  match stream.chars with
  | [] => stream
  | c :: rest => ⟨stream.offset + c.utf8Size, rest⟩

/-- The stream after a number of characters. -/
def skip : Nat → Stream → Stream
  | 0, stream => stream
  | count + 1, stream => skip count stream.next

/-- The characters at the front that pass a test, and the stream after them. -/
def spanFrom (test : Char → Bool) : Nat → List Char → List Char × Stream
  | offset, [] => ([], ⟨offset, []⟩)
  | offset, c :: rest =>
    if test c then
      let (taken, after) := spanFrom test (offset + c.utf8Size) rest
      (c :: taken, after)
    else ([], ⟨offset, c :: rest⟩)

/-- The characters at the front that pass a test, and the stream after them. -/
def span (test : Char → Bool) (stream : Stream) : List Char × Stream :=
  spanFrom test stream.offset stream.chars

/-- The stream after characters taken from its front, when what follows them is known. -/
def after (stream : Stream) (taken rest : List Char) : Stream :=
  ⟨stream.offset + Text.byteLength taken, rest⟩

/-- Whether a word stands at the front. -/
def startsWith (stream : Stream) (word : String) : Bool :=
  word.toList.isPrefixOf stream.chars

end Stream

end ComponentLint
