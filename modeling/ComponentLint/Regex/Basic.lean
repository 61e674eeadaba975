import ComponentLint.Text.CharClass

/-!
# Patterns and what they match

A pattern denotes a relation between positions of a text. `Regex.reach` follows it from a set of positions to the set
of positions where a match that starts at one of them can end, so the work is bounded by the size of the text.
-/

namespace ComponentLint

open Text

/-!
## Sets of characters

The sets that a pattern can name, built from ranges and classes.
-/

/-- A set of characters. -/
inductive CharSet where
  /-- Code points from `first` to `last`. -/
  | range (first last : Nat)
  | digit
  | word
  | space
  | complement (set : CharSet)
  | union (left right : CharSet)
  | intersection (left right : CharSet)
  /-- The characters that some character of the set equals apart from case. -/
  | folded (set : CharSet)
  deriving DecidableEq, Repr

namespace CharSet

/-- Whether a character belongs to a set. -/
def contains : CharSet → Char → Bool
  | .range first last, c => first ≤ c.toNat && c.toNat ≤ last
  | .digit, c => isDecimal c
  | .word, c => isWordChar c
  | .space, c => isSpace c
  | .complement set, c => !set.contains c
  | .union left right, c => left.contains c || right.contains c
  | .intersection left right, c => left.contains c && right.contains c
  | .folded set, c => (foldClass c).any set.contains

/-- The set of no character. -/
def empty : CharSet := .range 1 0

/-- The set of one character. -/
def only (c : Char) : CharSet := .range c.toNat c.toNat

/-- The set of the given characters. -/
def ofChars (chars : List Char) : CharSet :=
  chars.foldl (fun set c => .union set (only c)) empty

/-- The characters of one set that are not in another. -/
def difference (left right : CharSet) : CharSet :=
  .intersection left (.complement right)

/-- The characters of exactly one of two sets. -/
def symmetricDifference (left right : CharSet) : CharSet :=
  .union (difference left right) (difference right left)

/-- The set closed under case, if case is to be ignored. -/
def foldIf (ignoreCase : Bool) (set : CharSet) : CharSet :=
  if ignoreCase then .folded set else set

/-- The complement of a set, if it is asked for. -/
def complementIf (negated : Bool) (set : CharSet) : CharSet :=
  if negated then .complement set else set

/-- The ASCII classes that are written `[:name:]`. -/
def ofAsciiClass? : String → Option CharSet
  | "alnum" => some (.union (.range 48 57) (.union (.range 65 90) (.range 97 122)))
  | "alpha" => some (.union (.range 65 90) (.range 97 122))
  | "ascii" => some (.range 0 127)
  | "blank" => some (ofChars ['\t', ' '])
  | "cntrl" => some (.union (.range 0 31) (.range 127 127))
  | "digit" => some (.range 48 57)
  | "graph" => some (.range 33 126)
  | "lower" => some (.range 97 122)
  | "print" => some (.range 32 126)
  | "punct" => some (.union (.union (.range 33 47) (.range 58 64)) (.union (.range 91 96) (.range 123 126)))
  | "space" => some (.union (.range 9 13) (.range 32 32))
  | "upper" => some (.range 65 90)
  | "word" => some (.union (.union (.range 48 57) (.range 95 95)) (.union (.range 65 90) (.range 97 122)))
  | "xdigit" => some (.union (.range 48 57) (.union (.range 65 70) (.range 97 102)))
  | _ => none

end CharSet

/-! ## Patterns -/

/-- A condition on a position of a text. -/
inductive Anchor where
  | textStart
  | textEnd
  | lineStart
  | lineEnd
  | wordBoundary
  | noWordBoundary
  | wordStart
  | wordEnd
  deriving DecidableEq, Repr

/-- A pattern. -/
inductive Regex where
  | empty
  | one (set : CharSet)
  | anchor (condition : Anchor)
  | sequence (first second : Regex)
  | either (left right : Regex)
  /-- At least `least` times, and at most `most` times if there is a bound. -/
  | repeated (body : Regex) (least : Nat) (most : Option Nat)
  deriving Repr

/-- The character before a position. -/
def charBefore? (text : Array Char) (position : Nat) : Option Char :=
  if position = 0 then none else text[position - 1]?

/-- Whether a condition holds at a position of a text. -/
def Anchor.holds (text : Array Char) (anchor : Anchor) (position : Nat) : Bool :=
  let before := charBefore? text position
  let after := text[position]?
  let wordBefore := before.any isWordChar
  let wordAfter := after.any isWordChar
  match anchor with
  | .textStart => before.isNone
  | .textEnd => after.isNone
  | .lineStart => before.isNone || before == some '\n'
  | .lineEnd => after.isNone || after == some '\n'
  | .wordBoundary => wordBefore != wordAfter
  | .noWordBoundary => wordBefore == wordAfter
  | .wordStart => !wordBefore && wordAfter
  | .wordEnd => wordBefore && !wordAfter

namespace Regex

/-- The positions of both lists, each once. -/
def join (left right : List Nat) : List Nat :=
  left ++ right.filter (!left.contains ·)

/-- The positions reached by up to `count` steps. -/
def upTo (step : List Nat → List Nat) : Nat → List Nat → List Nat
  | 0, positions => positions
  | count + 1, positions => join positions (upTo step count (step positions))

/-- The positions reached by exactly `count` steps. -/
def exactly (step : List Nat → List Nat) : Nat → List Nat → List Nat
  | 0, positions => positions
  | count + 1, positions => exactly step count (step positions)

/-- The positions at which matches that start at the given positions end. A repetition without bound reaches nothing
new after as many rounds as the text has positions. -/
def reach (text : Array Char) : Regex → List Nat → List Nat
  | .empty, positions => positions
  | .one set, positions => (positions.filter fun position => (text[position]?).any set.contains).map (· + 1)
  | .anchor condition, positions => positions.filter (condition.holds text)
  | .sequence first second, positions => second.reach text (first.reach text positions)
  | .either left right, positions => join (left.reach text positions) (right.reach text positions)
  | .repeated body least most, positions =>
    let step := body.reach text
    let started := exactly step least positions
    match most with
    | some most => upTo step (min (most - least) (text.size + 1)) started
    | none => upTo step (text.size + 1) started

/-- Whether a pattern matches somewhere in a text. -/
def isMatch (regex : Regex) (text : List Char) : Bool :=
  let chars := text.toArray
  !(regex.reach chars (List.range (chars.size + 1))).isEmpty

end Regex

end ComponentLint
