import ComponentLint.Json.Basic

/-!
# Reading JSON

A strict reader: no leading zeros, no bare control characters in strings, surrogate escapes only in pairs, nothing but
blanks after the value, and at most 127 nested arrays and objects. A number without fraction and exponent that fits 64
bits is whole; any other number is a double, and one too large for a double is refused.
-/

namespace ComponentLint.Json

/-- A reader takes a value off the front of a text. -/
abbrev Reader (α : Type) := List Char → Option (α × List Char)

/-- The blanks of JSON. -/
def isBlankChar (c : Char) : Bool :=
  c == ' ' || c == '\n' || c == '\t' || c == '\r'

/-- The text after its leading blanks. -/
def skipBlanks (text : List Char) : List Char :=
  text.dropWhile isBlankChar

/-- The value of a hexadecimal digit. -/
def hexDigit? (c : Char) : Option Nat :=
  if c.isDigit then some (c.toNat - '0'.toNat)
  else if 'a' ≤ c && c ≤ 'f' then some (c.toNat - 'a'.toNat + 10)
  else if 'A' ≤ c && c ≤ 'F' then some (c.toNat - 'A'.toNat + 10)
  else none

/-- The value of a decimal numeral. -/
def numeral (digits : List Char) : Nat :=
  digits.foldl (fun value c => value * 10 + (c.toNat - '0'.toNat)) 0

/-- Four hexadecimal digits. -/
def hexFour : Reader Nat
  | a :: b :: c :: d :: rest => do
    let a ← hexDigit? a
    let b ← hexDigit? b
    let c ← hexDigit? c
    let d ← hexDigit? d
    return (((a * 16 + b) * 16 + c) * 16 + d, rest)
  | _ => none

/-- The character of a `\u` escape, whose second half follows when the first is a high surrogate. -/
def unicodeEscape (text : List Char) : Option (Char × List Char) := do
  let (first, rest) ← hexFour text
  if 0xD800 ≤ first && first ≤ 0xDBFF then
    match rest with
    | '\\' :: 'u' :: rest =>
      let (second, rest) ← hexFour rest
      if 0xDC00 ≤ second && second ≤ 0xDFFF then
        return (Char.ofNat (0x10000 + (first - 0xD800) * 0x400 + (second - 0xDC00)), rest)
      else none
    | _ => none
  else if 0xDC00 ≤ first && first ≤ 0xDFFF then none
  else return (Char.ofNat first, rest)

/-- The character that stands for itself or for a control character after a backslash. -/
def simpleEscape? : Char → Option Char
  | '"' => some '"'
  | '\\' => some '\\'
  | '/' => some '/'
  | 'b' => some '\x08'
  | 'f' => some '\x0c'
  | 'n' => some '\n'
  | 'r' => some '\r'
  | 't' => some '\t'
  | _ => none

/-- The rest of a string after its opening quote; the fuel bounds the number of characters. -/
def stringRest : Nat → Reader (List Char)
  | 0, _ => none
  | _, [] => none
  | fuel + 1, c :: rest =>
    if c == '"' then some ([], rest)
    else if c.toNat < 0x20 then none
    else if c == '\\' then
      match rest with
      | 'u' :: rest => do
        let (d, rest) ← unicodeEscape rest
        let (ds, rest) ← stringRest fuel rest
        return (d :: ds, rest)
      | e :: rest => do
        let d ← simpleEscape? e
        let (ds, rest) ← stringRest fuel rest
        return (d :: ds, rest)
      | [] => none
    else do
      let (ds, rest) ← stringRest fuel rest
      return (c :: ds, rest)

/-- A string from its opening quote on. -/
def string : Reader String
  | '"' :: rest => (stringRest (rest.length + 1) rest).map fun (cs, rest) => (String.ofList cs, rest)
  | _ => none

/-- The digits at the front of a text. -/
def digits (text : List Char) : List Char × List Char :=
  text.span Char.isDigit

/-- The exponent part of a number, 0 when there is none. -/
def exponent (text : List Char) : Option (Option Int × List Char) :=
  match text with
  | c :: rest =>
    if c == 'e' || c == 'E' then
      let (negative, rest) := match rest with
        | '-' :: rest => (true, rest)
        | '+' :: rest => (false, rest)
        | _ => (false, rest)
      let (ds, rest) := digits rest
      if ds.isEmpty then none
      else
        let value : Int := numeral ds
        some (some (if negative then -value else value), rest)
    else some (none, text)
  | [] => some (none, [])

/-- Reads digits after a value while it stays within 64 bits: the value, and the number of digits left. -/
def takeDigits (value : Nat) : List Char → Nat × Nat
  | [] => (value, 0)
  | c :: rest =>
    let next := value * 10 + numeral [c]
    if next < UInt64.size then takeDigits next rest else (value, rest.length + 1)

/-- The double of a decimal: its digits within 64 bits, rounded, times a power of ten. -/
def realOf (whole fraction : List Char) (power : Int) : Option Binary64 := do
  let (value, dropped) := takeDigits 0 whole
  let (value, ignored) := takeDigits value fraction
  let rounded ← Binary64.ofDecimal? ⟨value, 0⟩
  Binary64.scale? (power + dropped - (fraction.length - ignored : Nat)) 3 rounded

/-- A whole number within 64 bits, or else a double. -/
def numberOf (negative : Bool) (whole fraction : List Char) (power : Option Int) : Option JsonNumber :=
  let value := numeral whole
  if fraction.isEmpty && power.isNone && (if negative then 0 < value && value ≤ UInt64.size / 2 else value < UInt64.size) then
    some (.whole (if negative then -(value : Int) else value))
  else (realOf whole fraction (power.getD 0)).map (.real negative)

/-- A number. -/
def number (text : List Char) : Option (JsonNumber × List Char) := do
  let (negative, text) := match text with
    | '-' :: rest => (true, rest)
    | _ => (false, text)
  let (whole, text) := digits text
  if whole.isEmpty || (whole.length > 1 && whole.head? == some '0') then none
  else
    let (fraction, text) ← match text with
      | '.' :: rest =>
        let (ds, rest) := digits rest
        if ds.isEmpty then none else some (ds, rest)
      | _ => some ([], text)
    let (power, text) ← exponent text
    let value ← numberOf negative whole fraction power
    return (value, text)

/-- The items of an array after the first one's place has been reached. -/
def items (item : Reader Json) : Nat → Reader (List Json)
  | 0, _ => none
  | fuel + 1, text => do
    let (value, text) ← item text
    match skipBlanks text with
    | ',' :: text => do
      let (values, text) ← items item fuel text
      return (value :: values, text)
    | ']' :: text => return ([value], text)
    | _ => none

/-- The members of an object after the first one's place has been reached. -/
def members (item : Reader Json) : Nat → Reader (List (String × Json))
  | 0, _ => none
  | fuel + 1, text => do
    let (key, text) ← string (skipBlanks text)
    match skipBlanks text with
    | ':' :: text => do
      let (value, text) ← item text
      match skipBlanks text with
      | ',' :: text => do
        let (rest, text) ← members item fuel text
        return ((key, value) :: rest, text)
      | '}' :: text => return ([(key, value)], text)
      | _ => none
    | _ => none

/-- A value, with at most `depth` levels of arrays and objects. -/
def value : Nat → Reader Json
  | 0, _ => none
  | depth + 1, text =>
    match skipBlanks text with
    | [] => none
    | 'n' :: 'u' :: 'l' :: 'l' :: rest => some (.null, rest)
    | 't' :: 'r' :: 'u' :: 'e' :: rest => some (.bool true, rest)
    | 'f' :: 'a' :: 'l' :: 's' :: 'e' :: rest => some (.bool false, rest)
    | '[' :: rest =>
      match depth, skipBlanks rest with
      | 0, _ => none
      | _, ']' :: rest => some (.arr [], rest)
      | _, rest => (items (value depth) (rest.length + 1) rest).map fun (values, rest) => (.arr values, rest)
    | '{' :: rest =>
      match depth, skipBlanks rest with
      | 0, _ => none
      | _, '}' :: rest => some (.obj [], rest)
      | _, rest => (members (value depth) (rest.length + 1) rest).map fun (pairs, rest) => (object pairs, rest)
    | c :: rest =>
      if c == '"' then (string (c :: rest)).map fun (text, rest) => (.str text, rest)
      else (number (c :: rest)).map fun (value, rest) => (.num value, rest)

/-- Reads a whole text as one value. -/
def parse? (text : String) : Option Json :=
  match value 128 text.toList with
  | some (value, rest) => if (skipBlanks rest).isEmpty then some value else none
  | none => none

end ComponentLint.Json
