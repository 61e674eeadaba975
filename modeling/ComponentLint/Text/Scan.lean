import ComponentLint.Text.CharClass
import ComponentLint.Text.Span

/-!
# Searching and trimming

Small operations on lists of characters: cutting blanks off the ends, finding a word, comparing without case.
-/

namespace ComponentLint.Text

/-- The text without its leading white space. -/
def trimStart (text : List Char) : List Char :=
  text.dropWhile isSpace

/-- The text without its trailing white space. -/
def trimEnd (text : List Char) : List Char :=
  (text.reverse.dropWhile isSpace).reverse

/-- The text without the white space at both ends. -/
def trim (text : List Char) : List Char :=
  trimEnd (trimStart text)

/-- A text is blank when it holds nothing but white space. -/
def isBlank (text : List Char) : Bool :=
  text.all isSpace

/-- The text before the first occurrence of a word, and the text after that occurrence. -/
def cutAt? (word : List Char) : List Char → Option (List Char × List Char)
  | [] => if word.isEmpty then some ([], []) else none
  | c :: rest =>
    if word.isPrefixOf (c :: rest) then some ([], (c :: rest).drop word.length)
    else (cutAt? word rest).map fun (before, after) => (c :: before, after)

/-- What stands after a mark at the start of a text. -/
def afterMark? : List Char → List Char → Option (List Char)
  | [], text => some text
  | _ :: _, [] => none
  | m :: mark, c :: text => if m == c then afterMark? mark text else none

/-- Whether a word occurs in a text. -/
def occurs (word text : List Char) : Bool :=
  (cutAt? word text).isSome

/-- Equality of texts without regard to the case of ASCII letters. -/
def eqIgnoreAsciiCase (a b : List Char) : Bool :=
  a.map asciiLower == b.map asciiLower

/-- The text after each occurrence of a word is replaced; occurrences are taken from the left and do not overlap. -/
def replaceAll (word replacement : List Char) : Nat → List Char → List Char
  | 0, text => text
  | fuel + 1, text =>
    match cutAt? word text with
    | none => text
    | some (before, after) =>
      if word.isEmpty then
        match text with
        | [] => replacement
        | c :: rest => replacement ++ c :: replaceAll word replacement fuel rest
      else before ++ replacement ++ replaceAll word replacement fuel after

/-- Replaces every occurrence of a word in a string. -/
def substitute (text word replacement : String) : String :=
  String.ofList (replaceAll word.toList replacement.toList (text.toList.length + 1) text.toList)

end ComponentLint.Text
