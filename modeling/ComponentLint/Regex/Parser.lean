import ComponentLint.Regex.Basic
import ComponentLint.Text.Pattern
import ComponentLint.Text.Scan

/-!
# Reading patterns

The notation of patterns: alternatives, groups, repetitions, anchors, character classes and flags. A text that does
not follow it is no pattern.
-/

namespace ComponentLint.Regex

open Text

/-- The flags in effect at a place of a pattern. -/
structure Flags where
  ignoreCase : Bool
  multiLine : Bool
  dotAll : Bool
  deriving DecidableEq, Repr

/-- One escape sequence: a character, a class, or an anchor. -/
inductive Escape where
  | char (c : Char)
  | set (set : CharSet)
  | anchor (condition : Anchor)

/-- The value of a hexadecimal digit. -/
def hexValue? (c : Char) : Option Nat :=
  if '0' ≤ c && c ≤ '9' then some (c.toNat - 48)
  else if 'a' ≤ c && c ≤ 'f' then some (c.toNat - 87)
  else if 'A' ≤ c && c ≤ 'F' then some (c.toNat - 55)
  else none

/-- The number that hexadecimal digits write. -/
def hexNumber? (digits : List Char) : Option Nat :=
  if digits.isEmpty then none
  else digits.foldlM (fun value c => (hexValue? c).map (value * 16 + ·)) 0

/-- The character of a code point, if it is one. -/
def charOf? (code : Nat) : Option Char :=
  if code.isValidChar then some (Char.ofNat code) else none

/-- Reads the digits of a hexadecimal escape: in braces, or a fixed number of them. -/
def readHex (width : Nat) : List Char → Option (Char × List Char)
  | '\x7b' :: rest => do
    let (digits, after) ← cutAt? ['\x7d'] rest
    let code ← hexNumber? digits
    return (← charOf? code, after)
  | text =>
    if text.length < width then none
    else do
      let code ← hexNumber? (text.take width)
      return (← charOf? code, text.drop width)

/-- The characters that may always be written after a backslash to stand for themselves. -/
def isEscapable (c : Char) : Bool :=
  isAscii c && !c.isAlphanum && c != '<' && c != '>'

/-- Reads what follows a backslash. -/
def readEscape : List Char → Option (Escape × List Char)
  | [] => none
  | c :: rest =>
    match c with
    | 'd' => some (.set .digit, rest)
    | 'D' => some (.set (.complement .digit), rest)
    | 'w' => some (.set .word, rest)
    | 'W' => some (.set (.complement .word), rest)
    | 's' => some (.set .space, rest)
    | 'S' => some (.set (.complement .space), rest)
    | 'b' => some (.anchor .wordBoundary, rest)
    | 'B' => some (.anchor .noWordBoundary, rest)
    | '<' => some (.anchor .wordStart, rest)
    | '>' => some (.anchor .wordEnd, rest)
    | 'A' => some (.anchor .textStart, rest)
    | 'z' => some (.anchor .textEnd, rest)
    | 'a' => some (.char '\x07', rest)
    | 'f' => some (.char '\x0c', rest)
    | 't' => some (.char '\t', rest)
    | 'n' => some (.char '\n', rest)
    | 'r' => some (.char '\r', rest)
    | 'v' => some (.char '\x0b', rest)
    | 'x' => (readHex 2 rest).map fun (c, rest) => (.char c, rest)
    | 'u' => (readHex 4 rest).map fun (c, rest) => (.char c, rest)
    | 'U' => (readHex 8 rest).map fun (c, rest) => (.char c, rest)
    | _ => if isEscapable c then some (.char c, rest) else none

/-! ## Character classes -/

/-- Reads one item of a class in brackets: a character or an escape that is no anchor. -/
def readClassItem : List Char → Option (Escape × List Char)
  | [] => none
  | '\\' :: rest =>
    match readEscape rest with
    | some (.anchor _, _) => none
    | other => other
  | c :: rest => some (.char c, rest)

/-- Reads an item or a range of a class in brackets. -/
def readClassRange (text : List Char) : Option (CharSet × List Char) := do
  let (first, rest) ← readClassItem text
  match rest with
  | [] => none
  | '-' :: next :: after =>
    if next == ']' || next == '-' then return (single first, rest)
    else
      let (last, after) ← readClassItem (next :: after)
      match first, last with
      | .char low, .char high => if low.toNat ≤ high.toNat then return (.range low.toNat high.toNat, after) else none
      | _, _ => none
  | _ => return (single first, rest)
where
  /-- The set of one item. -/
  single : Escape → CharSet
    | .char c => .only c
    | .set set => set
    | .anchor _ => .empty

/-- An operation on classes that waits for its right side. -/
inductive ClassOperator where
  | intersection
  | difference
  | symmetricDifference

/-- The set on the left of an operation joined with the set on its right. -/
def ClassOperator.apply : Option (CharSet × ClassOperator) → CharSet → CharSet
  | none, right => right
  | some (left, .intersection), right => .intersection left right
  | some (left, .difference), right => .difference left right
  | some (left, .symmetricDifference), right => .symmetricDifference left right

/-- The name of an ASCII class that starts after `[:`, with its negation, and the text after it. -/
def readAsciiClass (text : List Char) : Option (CharSet × List Char) := do
  let (name, after) ← cutAt? [':', ']'] text
  let (negated, name) := match name with
    | '^' :: name => (true, name)
    | name => (false, name)
  let set ← CharSet.ofAsciiClass? (String.ofList name)
  return (set.complementIf negated, after)

/-- The hyphens at the start of a class stand for themselves, and so does a bracket in their place. -/
def readClassStart (text : List Char) : CharSet × List Char :=
  match text.takeWhile (· == '-'), text with
  | [], ']' :: rest => (.only ']', rest)
  | [], _ => (.empty, text)
  | _, _ => (.only '-', text.dropWhile (· == '-'))

/-- Reads a class up to its closing bracket. `pending` is an operation that waits for its right side, and `found` what
has been read of that side. -/
def readClass (ignoreCase : Bool) : Nat → Option (CharSet × ClassOperator) → CharSet → List Char →
    Option (CharSet × List Char)
  | 0, _, _, _ => none
  | fuel + 1, pending, found, text =>
    let side := found.foldIf ignoreCase
    match text with
    | [] => none
    | ']' :: rest => some (ClassOperator.apply pending side, rest)
    | '&' :: '&' :: rest => readClass ignoreCase fuel (some (ClassOperator.apply pending side, .intersection)) .empty rest
    | '-' :: '-' :: rest => readClass ignoreCase fuel (some (ClassOperator.apply pending side, .difference)) .empty rest
    | '~' :: '~' :: rest =>
      readClass ignoreCase fuel (some (ClassOperator.apply pending side, .symmetricDifference)) .empty rest
    | '[' :: rest =>
      let named := match rest with
        | ':' :: inner => readAsciiClass inner
        | _ => none
      match named with
      | some (set, after) => readClass ignoreCase fuel pending (.union found set) after
      | none =>
        let (negated, rest) := match rest with
          | '^' :: rest => (true, rest)
          | _ => (false, rest)
        let (start, rest) := readClassStart rest
        match readClass ignoreCase fuel none start rest with
        | some (set, after) => readClass ignoreCase fuel pending (.union found (set.complementIf negated)) after
        | none => none
    | _ =>
      match readClassRange text with
      | some (set, after) => readClass ignoreCase fuel pending (.union found set) after
      | none => none

/-- Reads a class after its opening bracket. -/
def readBracket (ignoreCase : Bool) (text : List Char) : Option (CharSet × List Char) :=
  let (negated, rest) := match text with
    | '^' :: rest => (true, rest)
    | _ => (false, text)
  let (start, rest) := readClassStart rest
  (readClass ignoreCase (text.length + 1) none start rest).map fun (set, after) => (set.complementIf negated, after)

/-! ## Repetitions -/

/-- Reads a decimal number between blanks. -/
def readDecimal (text : List Char) : Option (Nat × List Char) :=
  let text := text.dropWhile isSpace
  let digits := text.takeWhile Char.isDigit
  let value := digits.foldl (fun value c => value * 10 + (c.toNat - 48)) 0
  if digits.isEmpty || UInt32.size ≤ value then none
  else some (value, (text.dropWhile Char.isDigit).dropWhile isSpace)

/-- Reads the bounds of a counted repetition after its opening brace. -/
def readBounds (text : List Char) : Option (Nat × Option Nat × List Char) := do
  let (least, rest) ← readDecimal text
  match rest with
  | '\x7d' :: rest => return (least, some least, rest)
  | ',' :: '\x7d' :: rest => return (least, none, rest)
  | ',' :: rest =>
    match ← readDecimal rest with
    | (most, '\x7d' :: rest) => if least ≤ most then return (least, some most, rest) else none
    | _ => none
  | _ => none

/-- A mark that asks for short matches changes nothing about whether there is one. -/
def skipLazyMark : List Char → List Char
  | '?' :: rest => rest
  | text => text

/-! ## Flags and groups -/

/-- Sets one flag. -/
def Flags.set? (flags : Flags) (value : Bool) : Char → Option Flags
  | 'i' => some { flags with ignoreCase := value }
  | 'm' => some { flags with multiLine := value }
  | 's' => some { flags with dotAll := value }
  | 'U' => some flags
  | 'u' => if value then some flags else none
  | _ => none

/-- Reads flags up to a colon or a parenthesis. `seen` holds the flags read, `last` whether a hyphen was read last. -/
def readFlags (flags : Flags) (value : Bool) (seen : List Char) (last : Bool) : List Char →
    Option (Flags × List Char × List Char)
  | [] => none
  | c :: rest =>
    if c == ':' || c == ')' then if last then none else some (flags, seen, c :: rest)
    else if c == '-' then if value then readFlags flags false (c :: seen) true rest else none
    else if seen.contains c then none
    else
      match flags.set? value c with
      | some flags => readFlags flags value (c :: seen) false rest
      | none => none

/-- Reads the name of a group up to its closing angle bracket. -/
def readGroupName (text : List Char) : Option (List Char) := do
  let (name, after) ← cutAt? ['>'] text
  match name with
  | [] => none
  | first :: others =>
    if (first == '_' || isAlphabetic first) && others.all (fun c => "_.[]".toList.contains c || isAlphanumeric c) then
      return after
    else none

/-- What an opening parenthesis starts: a group with the flags inside it, or new flags for the rest. -/
inductive Opening where
  | group (flags : Flags) (rest : List Char)
  | setFlags (flags : Flags) (rest : List Char)

/-- Reads what follows an opening parenthesis. -/
def readOpening (flags : Flags) : List Char → Option Opening
  | '?' :: 'P' :: '<' :: rest => (readGroupName rest).map (.group flags)
  | '?' :: '<' :: rest => (readGroupName rest).map (.group flags)
  | '?' :: rest =>
    match readFlags flags true [] false rest with
    | some (flags, _, ':' :: rest) => some (.group flags rest)
    | some (flags, seen, ')' :: rest) => if seen.isEmpty then none else some (.setFlags flags rest)
    | _ => none
  | rest => some (.group flags rest)

/-! ## Patterns -/

/-- A part of a sequence; `none` is a setting of flags, which cannot be repeated. -/
abbrev Part := Option Regex

/-- The sequence of parts that were gathered in reverse. -/
def sequenceOf (parts : List Part) : Regex :=
  parts.foldl (fun after part => match part with
    | some part => .sequence part after
    | none => after) .empty

/-- The choice among branches that were gathered in reverse, the last of which is given apart. -/
def branchesOf (branches : List Regex) (last : Regex) : Regex :=
  branches.foldl (fun after branch => .either branch after) last

/-- The pattern of one character. -/
def literal (flags : Flags) (c : Char) : Regex :=
  .one (CharSet.foldIf flags.ignoreCase (.only c))

/-- The pattern of an escape. -/
def ofEscape (flags : Flags) : Escape → Regex
  | .char c => literal flags c
  | .set set => .one set
  | .anchor condition => .anchor condition

/-- Reads the branches of a group up to its end. -/
def readBranches : Nat → Flags → List Regex → List Part → List Char → Option (Regex × List Char)
  | 0, _, _, _, _ => none
  | fuel + 1, flags, branches, parts, text =>
    let again (least : Nat) (most : Option Nat) (rest : List Char) :=
      match parts with
      | some body :: before =>
        readBranches fuel flags branches (some (.repeated body least most) :: before) (skipLazyMark rest)
      | _ => none
    let add (part : Regex) (rest : List Char) := readBranches fuel flags branches (some part :: parts) rest
    match text with
    | [] => some (branchesOf branches (sequenceOf parts), [])
    | ')' :: _ => some (branchesOf branches (sequenceOf parts), text)
    | '|' :: rest => readBranches fuel flags (sequenceOf parts :: branches) [] rest
    | '*' :: rest => again 0 none rest
    | '+' :: rest => again 1 none rest
    | '?' :: rest => again 0 (some 1) rest
    | '\x7b' :: rest =>
      match readBounds rest with
      | some (least, most, rest) => again least most rest
      | none => none
    | '^' :: rest => add (.anchor (if flags.multiLine then .lineStart else .textStart)) rest
    | '$' :: rest => add (.anchor (if flags.multiLine then .lineEnd else .textEnd)) rest
    | '.' :: rest => add (.one (if flags.dotAll then .complement .empty else .complement (.only '\n'))) rest
    | '[' :: rest =>
      match readBracket flags.ignoreCase rest with
      | some (set, rest) => add (.one set) rest
      | none => none
    | '\\' :: rest =>
      match readEscape rest with
      | some (escape, rest) => add (ofEscape flags escape) rest
      | none => none
    | '(' :: rest =>
      match readOpening flags rest with
      | none => none
      | some (.setFlags flags rest) => readBranches fuel flags branches (none :: parts) rest
      | some (.group inner rest) =>
        match readBranches fuel inner [] [] rest with
        | some (body, ')' :: rest) => readBranches fuel flags branches (some body :: parts) rest
        | _ => none
    | c :: rest => add (literal flags c) rest

/-- The pattern that a text writes, if it writes one. -/
def parse? (text : List Char) : Option Regex :=
  match readBranches (text.length + 1) ⟨false, false, false⟩ [] [] text with
  | some (regex, []) => some regex
  | _ => none

/-- The engine for patterns in this notation. -/
def engine : PatternEngine :=
  ⟨fun pattern => (parse? pattern.toList).map fun regex text => regex.isMatch text.toList⟩

end ComponentLint.Regex
