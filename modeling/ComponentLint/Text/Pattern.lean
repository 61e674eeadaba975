import ComponentLint.Text.Span

/-!
# Patterns of names

Which patterns there are and what they match is up to an engine. A list of names may hold patterns between slashes; a text between
slashes that is no pattern of the engine is a plain name.
-/

namespace ComponentLint

open Text

/-- An engine for patterns: a pattern that it accepts becomes a test of texts. -/
structure PatternEngine where
  compile? : String → Option (String → Bool)

/-- The text before the last occurrence of a character, and the text after it. -/
def cutAtLast? (c : Char) (text : List Char) : Option (List Char × List Char) :=
  let after := (text.reverse.takeWhile (· != c)).reverse
  match text.reverse.dropWhile (· != c) with
  | [] => none
  | _ :: before => some (before.reverse, after)

namespace PatternEngine

/-- The test that a text of the form `/pattern/flags` stands for. -/
def namePattern? (engine : PatternEngine) : List Char → Option (String → Bool)
  | '/' :: body => do
    let (source, flags) ← cutAtLast? '/' body
    engine.compile? (String.ofList (if flags.contains 'i' then "(?i)".toList ++ source else source))
  | _ => none

/-- Whether a name is covered by an entry: it matches the entry's pattern or equals the entry. -/
def matchesEntry (engine : PatternEngine) (entry name : String) : Bool :=
  match engine.namePattern? entry.toList with
  | some test => test name
  | none => entry == name

/-- Whether a name is covered by some entry. -/
def matchesAny (engine : PatternEngine) (entries : List String) (name : String) : Bool :=
  entries.any (engine.matchesEntry · name)

end PatternEngine

end ComponentLint
