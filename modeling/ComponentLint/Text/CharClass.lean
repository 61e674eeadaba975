import ComponentLint.Text.Unicode.CaseMap
import ComponentLint.Text.Unicode.Property

/-!
# Character classes

The classes of characters that scanning, naming and pattern matching ask for. Each class is decided directly on the
ASCII range and by a table above it.
-/

namespace ComponentLint.Text

open Unicode

/-- The five blanks of markup: space, tab, line feed, form feed and carriage return. -/
def isAsciiSpace (c : Char) : Bool :=
  c == ' ' || c == '\t' || c == '\n' || c == '\x0c' || c == '\r'

/-- An ASCII letter. -/
def isAsciiLetter (c : Char) : Bool :=
  c.isAlpha

/-- Lower case on the ASCII letters, every other character unchanged. -/
def asciiLower (c : Char) : Char :=
  c.toLower

/-- The characters with the `White_Space` property. -/
def isSpace (c : Char) : Bool :=
  let n := c.toNat
  (9 ≤ n && n ≤ 13) || n == 32 || n == 133 || n == 160 || n == 5760 || (8192 ≤ n && n ≤ 8202) || n == 8232 ||
    n == 8233 || n == 8239 || n == 8287 || n == 12288

/-- Whether a character lies in the ASCII range. -/
def isAscii (c : Char) : Bool :=
  c.toNat < 128

/-- The characters with the `Alphabetic` property; four symbols may start an identifier without being alphabetic. -/
def isAlphabetic (c : Char) : Bool :=
  if isAscii c then c.isAlpha
  else (holds letters c && !([8472, 8494, 12443, 12444].contains c.toNat)) || holds otherAlphabetic c

/-- Decimal digits of any script. -/
def isDecimal (c : Char) : Bool :=
  if isAscii c then c.isDigit else holds decimals c

/-- Digits, letter numbers and other numerals of any script. -/
def isNumeric (c : Char) : Bool :=
  if isAscii c then c.isDigit else holds decimals c || holds otherNumbers c

/-- Alphabetic or numeric. -/
def isAlphanumeric (c : Char) : Bool :=
  isAlphabetic c || isNumeric c

/-- Capital letters. -/
def isUppercase (c : Char) : Bool :=
  if isAscii c then c.isUpper else holds capitals c

/-- Connecting punctuation, such as the low line. -/
def isConnector (c : Char) : Bool :=
  [95, 8255, 8256, 8276, 65075, 65076, 65101, 65102, 65103, 65343].contains c.toNat

/-- Word characters of patterns: alphabetic characters, marks, decimal digits, connectors and the two joiners. -/
def isWordChar (c : Char) : Bool :=
  if isAscii c then c.isAlphanum || c == '_'
  else isAlphabetic c || holds marks c || holds decimals c || isConnector c || c.toNat == 8204 || c.toNat == 8205

/-- Characters that may start an identifier of a script. -/
def isIdStart (c : Char) : Bool :=
  if isAscii c then c.isAlpha || c == '_' || c == '$' else holds letters c

/-- Marks that enclose other characters; they do not continue an identifier. -/
def enclosingMarks : List Nat :=
  [1160, 1161, 6846, 8413, 8414, 8415, 8416, 8418, 8419, 8420, 42608, 42609, 42610]

/-- Characters that continue an identifier without being letters, marks, digits or connectors: middle dots, a few digits
without decimal value, and the two joiners. -/
def otherContinues : List Run :=
  [⟨183, 183, 1⟩, ⟨903, 903, 1⟩, ⟨4969, 4977, 1⟩, ⟨6618, 6618, 1⟩, ⟨8204, 8205, 1⟩, ⟨12539, 12539, 1⟩, ⟨65381, 65381, 1⟩]

/-- Characters that may continue an identifier of a script. -/
def isIdContinue (c : Char) : Bool :=
  if isAscii c then c.isAlphanum || c == '_' || c == '$'
  else holds letters c || (holds marks c && !enclosingMarks.contains c.toNat) || holds decimals c || isConnector c ||
    holds otherContinues c

/-- The full upper case of a character. -/
def toUpperCase (c : Char) : List Char :=
  if isAscii c then [c.toUpper]
  else match upperMany.find? (·.1 == c.toNat) with
    | some (_, codes) => codes.map Char.ofNat
    | none => [(image? upperRuns c).getD c]

/-- The full lower case of a character. -/
def toLowerCase (c : Char) : List Char :=
  if isAscii c then [c.toLower]
  else match lowerMany.find? (·.1 == c.toNat) with
    | some (_, codes) => codes.map Char.ofNat
    | none => [(image? lowerRuns c).getD c]

/-- The simple case folding of a character. -/
def fold (c : Char) : Char :=
  if isAscii c then c.toLower else (image? foldRuns c).getD c

/-- The characters that fold as `c` does, `c` among them. -/
def foldClass (c : Char) : List Char :=
  let target := fold c
  let ascii := if isAscii target then [target, target.toUpper] else [target]
  let others := foldRuns.filterMap fun run =>
    let distance := target.toNat - run.target
    let code := run.source.first + distance
    if run.target ≤ target.toNat && run.source.contains code then some (Char.ofNat code) else none
  c :: (ascii ++ others)

end ComponentLint.Text
