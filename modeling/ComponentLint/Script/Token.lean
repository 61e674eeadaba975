import ComponentLint.Text.CharClass
import ComponentLint.Text.Stream
import ComponentLint.Number.Format

/-!
# Tokens of scripts

Reading one token off the front of a text. What a slash or a closing brace means depends on the grammar, so regular
expressions and the later parts of templates have readers of their own. Shift operators and comparisons that start
with `>` are put together by the grammar as well, because two closing angle brackets may end two lists of types.
-/

namespace ComponentLint.Script

/-- A token of a script. -/
inductive Token where
  | endOfText
  /-- A name or keyword; a keyword must not be escaped. -/
  | word (name : String) (escaped : Bool)
  | privateWord (name : String)
  | number (text : String)
  | bigint (text : String)
  | string (value : String)
  /-- A part of a template up to its next substitution or, if `last`, up to its end. The text is missing when an
  escape in it is malformed. -/
  | template (text : Option String) (last : Bool)
  | punct (text : String)
  /-- No token can be read here. -/
  | invalid
  deriving DecidableEq, Repr, Inhabited

/-- The characters that end a line. -/
def isLineEnd (c : Char) : Bool :=
  c == '\n' || c == '\r' || c == '\u2028' || c == '\u2029'

/-- The blanks between tokens other than line ends. -/
def isBlank (c : Char) : Bool :=
  let n := c.toNat
  c == ' ' || c == '\t' || n == 11 || n == 12 || n == 0x85 || n == 0xA0 || n == 0x1680 ||
    (0x2000 ≤ n && n ≤ 0x200B) || n == 0x202F || n == 0x205F || n == 0x3000 || n == 0xFEFF

/-- What lies before a token: whether a line ended there, and the comments, latest first. -/
structure Gap where
  newline : Bool
  comments : List Span
  deriving Repr, Inhabited

/-- Skips a block comment after its opening, telling whether it holds a line end; `none` if it does not close. -/
def blockComment : Nat → List Char → Bool → Option (Stream × Bool)
  | offset, '*' :: '/' :: rest, newline => some (⟨offset + 2, rest⟩, newline)
  | offset, c :: rest, newline => blockComment (offset + c.utf8Size) rest (newline || isLineEnd c)
  | _, [], _ => none

/-- Skips blanks, line ends and comments; `none` when a comment does not close. -/
def skipGap : Nat → Stream → Gap → Option (Stream × Gap)
  | 0, stream, gap => some (stream, gap)
  | fuel + 1, stream, gap =>
    match stream.chars with
    | '/' :: '/' :: _ =>
      let (_, after) := stream.span fun c => !isLineEnd c
      skipGap fuel after { gap with comments := ⟨stream.offset, after.offset⟩ :: gap.comments }
    | '/' :: '*' :: rest =>
      match blockComment (stream.offset + 2) rest false with
      | some (after, newline) =>
        skipGap fuel after ⟨gap.newline || newline, ⟨stream.offset, after.offset⟩ :: gap.comments⟩
      | none => none
    | c :: _ =>
      if isLineEnd c then skipGap fuel stream.next { gap with newline := true }
      else if isBlank c then skipGap fuel stream.next gap
      else some (stream, gap)
    | [] => some (stream, gap)

/-! ## Escapes -/

/-- The value of a digit in a base of at most 16. -/
def digitValue? (base : Nat) (c : Char) : Option Nat :=
  let value :=
    if c.isDigit then c.toNat - '0'.toNat
    else if 'a' ≤ c && c ≤ 'f' then c.toNat - 'a'.toNat + 10
    else if 'A' ≤ c && c ≤ 'F' then c.toNat - 'A'.toNat + 10
    else 16
  if value < base then some value else none

/-- The value of a numeral in a base. -/
def numeral (base : Nat) (digits : List Char) : Nat :=
  digits.foldl (fun value c => value * base + (digitValue? base c).getD 0) 0

/-- Exactly `count` hexadecimal digits. -/
def fixedHex : Nat → Nat → Stream → Option (Nat × Stream)
  | 0, value, stream => some (value, stream)
  | count + 1, value, stream =>
    match stream.chars with
    | c :: _ => (digitValue? 16 c).bind fun digit => fixedHex count (value * 16 + digit) stream.next
    | [] => none

/-- The code of a `\u` escape after its `u`: four digits, or any number of them in braces. -/
def unicodeCode (stream : Stream) : Option (Nat × Stream) :=
  match stream.chars with
  | '{' :: _ =>
    let (digits, after) := stream.next.span fun c => (digitValue? 16 c).isSome
    let code := numeral 16 digits
    match after.chars with
    | '}' :: _ => if digits.isEmpty || code > 0x10FFFF then none else some (code, after.next)
    | _ => none
  | _ => fixedHex 4 0 stream

/-- A surrogate without its other half is written as the replacement character and its four digits. -/
def loneSurrogate (code : Nat) : List Char :=
  '\ufffd' :: Nat.toDigits 16 code

/-- The characters of a code that may be one half of a surrogate pair. -/
def unicodeChars (stream : Stream) : Option (List Char × Stream) := do
  let (code, after) ← unicodeCode stream
  if 0xD800 ≤ code && code ≤ 0xDBFF then
    match after.chars with
    | '\\' :: 'u' :: _ =>
      match unicodeCode (after.skip 2) with
      | some (low, rest) =>
        if 0xDC00 ≤ low && low ≤ 0xDFFF then
          return ([Char.ofNat (0x10000 + (code - 0xD800) * 0x400 + (low - 0xDC00))], rest)
        else return (loneSurrogate code, after)
      | none => return (loneSurrogate code, after)
    | _ => return (loneSurrogate code, after)
  else if 0xDC00 ≤ code && code ≤ 0xDFFF then return (loneSurrogate code, after)
  else return ([Char.ofNat code], after)

/-- The characters of an escape after its backslash; octal escapes are for strings only. -/
def escapeChars (octal : Bool) (stream : Stream) : Option (List Char × Stream) :=
  match stream.chars with
  | [] => none
  | c :: rest =>
    let after := stream.next
    match c with
    | 'n' => some (['\n'], after)
    | 't' => some (['\t'], after)
    | 'r' => some (['\r'], after)
    | 'b' => some (['\x08'], after)
    | 'f' => some (['\x0c'], after)
    | 'v' => some (['\x0b'], after)
    | 'x' => (fixedHex 2 0 after).map fun (code, after) => ([Char.ofNat code], after)
    | 'u' => unicodeChars after
    | '\r' => some ([], if rest.head? == some '\n' then after.next else after)
    | _ =>
      if isLineEnd c then some ([], after)
      else if c == '0' && !((rest.head?.map Char.isDigit).getD false) then some (['\x00'], after)
      else if c.isDigit then
        if !octal then none
        else if c == '8' || c == '9' then some ([c], after)
        else
          let limit := if c ≤ '3' then 3 else 2
          let digits := ((c :: rest).take limit).takeWhile fun d => (digitValue? 8 d).isSome
          some ([Char.ofNat (numeral 8 digits)], stream.skip digits.length)
      else some ([c], after)

/-! ## Words, strings and templates -/

/-- The characters of a word, of which a backslash may start an escaped one. -/
def wordChars : Nat → Bool → Stream → Option (List Char × Bool × Stream)
  | 0, _, _ => none
  | fuel + 1, first, stream =>
    let fits (c : Char) : Bool := if first then Text.isIdStart c else Text.isIdContinue c
    match stream.chars with
    | '\\' :: 'u' :: _ => do
      let (code, after) ← unicodeCode (stream.skip 2)
      let c := Char.ofNat code
      if fits c then
        let (rest, _, after) ← wordChars fuel false after
        return (c :: rest, true, after)
      else none
    | '\\' :: _ => none
    | c :: _ =>
      if fits c then do
        let (rest, escaped, after) ← wordChars fuel false stream.next
        return (c :: rest, escaped, after)
      else if first then none else some ([], false, stream)
    | [] => if first then none else some ([], false, stream)

/-- A word, with whether an escape occurs in it. -/
def readWord (stream : Stream) : Option (String × Bool × Stream) :=
  (wordChars (stream.chars.length + 1) true stream).map fun (cs, escaped, after) => (String.ofList cs, escaped, after)

/-- The rest of a string up to its closing quote. -/
def stringChars (quote : Char) : Nat → Stream → Option (List Char × Stream)
  | 0, _ => none
  | fuel + 1, stream =>
    match stream.chars with
    | [] => none
    | '\\' :: _ => do
      let (cs, after) ← escapeChars true stream.next
      let (rest, after) ← stringChars quote fuel after
      return (cs ++ rest, after)
    | c :: _ =>
      if c == quote then some ([], stream.next)
      else if c == '\n' || c == '\r' then none
      else do
        let (rest, after) ← stringChars quote fuel stream.next
        return (c :: rest, after)

/-- A part of a template after its opening; a carriage return counts as a line feed. -/
def templateChars : Nat → Stream → Option (Option (List Char) × Bool × Stream)
  | 0, _ => none
  | fuel + 1, stream =>
    match stream.chars with
    | [] => none
    | '`' :: _ => some (some [], true, stream.next)
    | '$' :: '{' :: _ => some (some [], false, stream.skip 2)
    | '\\' :: rest =>
      match escapeChars false stream.next with
      | some (cs, after) => do
        let (text, last, after) ← templateChars fuel after
        return (text.map (cs ++ ·), last, after)
      | none =>
        if rest.isEmpty then none else do
        let (_, last, after) ← templateChars fuel (stream.skip 2)
        return (none, last, after)
    | '\r' :: rest => do
      let (text, last, after) ← templateChars fuel (if rest.head? == some '\n' then stream.skip 2 else stream.next)
      return (text.map ('\n' :: ·), last, after)
    | c :: _ => do
      let (text, last, after) ← templateChars fuel stream.next
      return (text.map (c :: ·), last, after)

/-- A part of a template after its opening. -/
def readTemplate (stream : Stream) : Token × Stream :=
  match templateChars (stream.chars.length + 1) stream with
  | some (text, last, after) => (.template (text.map String.ofList) last, after)
  | none => (.invalid, stream)

/-! ## Numbers -/

/-- The digits of a numeral, in which single low lines may stand between digits. -/
def separatedDigits (test : Char → Bool) (stream : Stream) : Option (List Char × Stream) :=
  let (taken, after) := stream.span fun c => test c || c == '_'
  let doubled := (taken.zip (taken.drop 1)).any fun (a, b) => a == '_' && b == '_'
  if taken.head? == some '_' || taken.getLast? == some '_' || doubled then none
  else some (taken.filter (· != '_'), after)

/-- The text of a number: that of the nearest double. -/
def numberText (number : Option Binary64) : String :=
  match number with
  | some number => NumberFormat.script.write number
  | none => "Infinity"

/-- A number must not run into a word or digit. -/
def endNumber (token : Token) (after : Stream) : Token × Stream :=
  match after.chars with
  | c :: _ => if Text.isIdStart c || c.isDigit || c == '\\' then (.invalid, after) else (token, after)
  | [] => (token, after)

/-- A whole number in a base other than ten, after its mark. -/
def basedNumber (base : Nat) (stream : Stream) : Token × Stream :=
  match separatedDigits (fun c => (digitValue? base c).isSome) stream with
  | some (digits, after) =>
    if digits.isEmpty then (.invalid, stream)
    else
      let value := numeral base digits
      match after.chars with
      | 'n' :: _ => endNumber (.bigint (toString value)) after.next
      | _ => endNumber (.number (numberText (Binary64.ofFraction? value 1))) after
  | none => (.invalid, stream)

/-- The exponent of a decimal, 0 when there is none. -/
def readExponent (stream : Stream) : Option (Int × Stream) :=
  match stream.chars with
  | c :: rest =>
    if c == 'e' || c == 'E' then
      let negative := rest.head? == some '-'
      let start := if negative || rest.head? == some '+' then stream.skip 2 else stream.next
      match separatedDigits Char.isDigit start with
      | some (digits, after) =>
        if digits.isEmpty then none
        else
          let value : Int := numeral 10 digits
          some (if negative then -value else value, after)
      | none => none
    else some (0, stream)
  | [] => some (0, stream)

/-- A decimal number after its whole part: a fraction and an exponent, if they follow. -/
def decimalRest (whole : List Char) (stream : Stream) : Token × Stream :=
  let fractionPart : Option (List Char × Stream) :=
    match stream.chars with
    | '.' :: _ => separatedDigits Char.isDigit stream.next
    | _ => some ([], stream)
  match fractionPart with
  | none => (.invalid, stream)
  | some (fraction, after) =>
    match readExponent after with
    | none => (.invalid, stream)
    | some (power, after) =>
      let decimal : Decimal := ⟨numeral 10 (whole ++ fraction), power - fraction.length⟩
      endNumber (.number (numberText (Binary64.ofDecimal? decimal))) after

/-- A decimal number. -/
def decimalNumber (stream : Stream) : Token × Stream :=
  match separatedDigits Char.isDigit stream with
  | none => (.invalid, stream)
  | some (whole, after) =>
    match after.chars with
    | 'n' :: _ =>
      if whole.isEmpty then (.invalid, stream) else endNumber (.bigint (toString (numeral 10 whole))) after.next
    | _ => decimalRest whole after

/-- A number that starts with a zero before another digit: octal if its digits are, and decimal otherwise. It has no
separators, and only a decimal has a fraction or an exponent. -/
def zeroNumber (stream : Stream) : Token × Stream :=
  let (digits, after) := stream.span Char.isDigit
  if digits.all fun d => (digitValue? 8 d).isSome then
    endNumber (.number (numberText (Binary64.ofFraction? (numeral 8 digits) 1))) after
  else decimalRest digits after

/-- A number; a single zero stands for itself. -/
def readNumber (stream : Stream) : Token × Stream :=
  match stream.chars with
  | '0' :: c :: _ =>
    if c == 'x' || c == 'X' then basedNumber 16 (stream.skip 2)
    else if c == 'o' || c == 'O' then basedNumber 8 (stream.skip 2)
    else if c == 'b' || c == 'B' then basedNumber 2 (stream.skip 2)
    else if c.isDigit then zeroNumber stream
    else if c == '_' then (.invalid, stream)
    else decimalNumber stream
  | _ => decimalNumber stream

/-! ## Punctuation and regular expressions -/

/-- The marks of the language, longer ones before their beginnings; those that go on after `>` are left out. -/
def marks : List String :=
  ["...", "===", "!==", "**=", "<<=", "&&=", "||=", "??=",
   "=>", "==", "!=", "<=", "<<", "++", "--", "+=", "-=", "**", "*=", "/=", "%=", "&&", "&=", "||", "|=", "^=", "??", "?.",
   "\x7b", "\x7d", "(", ")", "[", "]", ";", ",", "~", ":", "?", ".", "<", ">", "=", "!", "+", "-", "*", "/", "%", "&", "|",
   "^", "@"]

/-- A mark at the front of a stream; `?.` before a digit is a question mark. -/
def readMark (stream : Stream) : Token × Stream :=
  match marks.find? stream.startsWith with
  | some "?." =>
    if ((stream.chars[2]?).map Char.isDigit).getD false then (.punct "?", stream.next) else (.punct "?.", stream.skip 2)
  | some mark => (.punct mark, stream.skip mark.length)
  | none => (.invalid, stream)

/-- The body of a regular expression up to its closing slash. -/
def regexBody : Nat → Bool → Stream → Option Stream
  | 0, _, _ => none
  | fuel + 1, inClass, stream =>
    match stream.chars with
    | [] => none
    | '\\' :: c :: _ => if isLineEnd c then none else regexBody fuel inClass (stream.skip 2)
    | c :: _ =>
      if isLineEnd c then none
      else if c == '[' then regexBody fuel true stream.next
      else if c == ']' then regexBody fuel false stream.next
      else if c == '/' && !inClass then some stream.next
      else regexBody fuel inClass stream.next

/-- A regular expression from its opening slash on: the stream after its flags, which are known and distinct, and of
which two exclude each other. -/
def readRegex (stream : Stream) : Option Stream := do
  let after ← regexBody (stream.chars.length + 1) false stream.next
  let (flags, after) := after.span Text.isIdContinue
  let known := flags.all ("dgimsuvy".toList.contains ·)
  let distinct := flags.eraseDups.length == flags.length
  if known && distinct && !(flags.contains 'u' && flags.contains 'v') then some after else none

/-! ## The token at the front -/

/-- The token at the front of a stream, and the stream after it. -/
def readToken (stream : Stream) : Token × Stream :=
  match stream.chars with
  | [] => (.endOfText, stream)
  | c :: rest =>
    if Text.isIdStart c || c == '\\' then
      match readWord stream with
      | some (name, escaped, after) => (.word name escaped, after)
      | none => (.invalid, stream)
    else if c.isDigit then readNumber stream
    else if c == '.' && (rest.head?.map Char.isDigit).getD false then decimalNumber stream
    else if c == '"' || c == '\'' then
      match stringChars c (rest.length + 1) stream.next with
      | some (cs, after) => (.string (String.ofList cs), after)
      | none => (.invalid, stream)
    else if c == '`' then readTemplate stream.next
    else if c == '#' then
      match readWord stream.next with
      | some (name, _, after) => (.privateWord name, after)
      | none => (.invalid, stream)
    else readMark stream

end ComponentLint.Script
