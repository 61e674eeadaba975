import ComponentLint.Script.Node
import ComponentLint.Script.Token

/-!
# The place of a parser in a script

A cursor stands on a token. A parser is a function that moves the cursor and may fail; failing leaves the caller's
cursor where it was, so an alternative starts over by itself. A fault that does not hinder reading on is noted on the
cursor instead, and an alternative that starts over forgets the notes of the one before it.
-/

namespace ComponentLint.Script

/-- What a parser notes on its way. -/
structure Notes where
  /-- The comments passed so far, latest first. -/
  comments : List Span
  /-- Whether something was read that the language forbids. -/
  flawed : Bool
  /-- The names under which the module exports something, latest first. -/
  exported : List String
  deriving Inhabited

/-- A place in a script: the current token and what surrounds it. -/
structure Cursor where
  /-- The text from the current token on. -/
  here : Stream
  token : Token
  /-- The text after the current token. -/
  after : Stream
  /-- Whether a line ended before the current token. -/
  newline : Bool
  /-- The end of the token before. -/
  previous : Nat
  notes : Notes
  deriving Inhabited

/-- A parser moves a cursor and gives a value, or fails. -/
abbrev Parser := StateT Cursor Option

namespace Cursor

/-- The cursor on the first token of a stream, after the token that ended at `previous`. -/
def enter (stream : Stream) (previous : Nat) (notes : Notes) : Cursor :=
  match skipGap (stream.chars.length + 1) stream ⟨false, notes.comments⟩ with
  | some (here, gap) =>
    let (token, after) := readToken here
    ⟨here, token, after, gap.newline, previous, { notes with comments := gap.comments }⟩
  | none => ⟨stream, .invalid, stream, false, previous, notes⟩

/-- The cursor on the first token of a stream, with nothing noted. -/
def ofStream (stream : Stream) : Cursor :=
  enter stream stream.offset ⟨[], false, []⟩

/-- The cursor on the first token of a text. -/
def ofText (text : List Char) : Cursor :=
  ofStream ⟨0, text⟩

/-- The cursor on the token after the current one. -/
def advance (cursor : Cursor) : Cursor :=
  enter cursor.after cursor.after.offset cursor.notes

/-- The cursor with a fault noted. -/
def flag (cursor : Cursor) : Cursor :=
  { cursor with notes := { cursor.notes with flawed := true } }

end Cursor

/-! ## Faults -/

/-- Notes a fault and reads on. -/
def flag : Parser Unit :=
  modify Cursor.flag

/-- Notes a fault unless a condition holds. -/
def permit (condition : Bool) : Parser Unit := do
  unless condition do flag

/-! ## Looking at the current token -/

/-- The current token. -/
def token : Parser Token :=
  return (← get).token

/-- The offset at which the current token starts. -/
def tokenStart : Parser Nat :=
  return (← get).here.offset

/-- Whether a line ended before the current token. -/
def onNewLine : Parser Bool :=
  return (← get).newline

/-- Moves past the current token, in which an escape is not at fault: a name. -/
def bumpName : Parser Unit :=
  modify Cursor.advance

/-- Moves past the current token. A keyword must not be escaped. -/
def bump : Parser Unit := do
  match ← token with
  | .word _ escaped => permit !escaped
  | _ => pure ()
  modify Cursor.advance

/-- Whether the current token is a mark. -/
def at? (mark : String) : Parser Bool :=
  return (← token) == .punct mark

/-- Whether a token is a certain word. -/
def Token.isKeyword (name : String) : Token → Bool
  | .word text _ => text == name
  | _ => false

/-- Whether the current token is a keyword. -/
def atWord? (name : String) : Parser Bool :=
  return (← token).isKeyword name

/-- Moves past a mark if it is the current token. -/
def eat? (mark : String) : Parser Bool := do
  if ← at? mark then
    bump
    return true
  return false

/-- Moves past one of some marks if it is the current token. -/
def eatOneOf? (marks : List String) : Parser Bool := do
  match ← token with
  | .punct mark =>
    if marks.contains mark then
      bump
      return true
    return false
  | _ => return false

/-- Moves past a keyword if it is the current token. -/
def eatWord? (name : String) : Parser Bool := do
  if ← atWord? name then
    bump
    return true
  return false

/-- Moves past a mark, or fails. -/
def expect (mark : String) : Parser Unit := do
  guard (← eat? mark)

/-- Moves past a keyword, or fails. -/
def expectWord (name : String) : Parser Unit := do
  guard (← eatWord? name)

/-- Moves past one of some keywords, or fails. -/
def expectOneOf (names : List String) : Parser Unit := do
  match ← token with
  | .word name _ =>
    guard (names.contains name)
    bump
  | _ => failure

/-- The value of a parser without moving; failing counts as `false`. -/
def ahead (look : Parser Bool) : Parser Bool :=
  fun cursor => some (((look cursor).map (·.1)).getD false, cursor)

/-- The result of a parser, or `none` and no move. -/
def attempt {α : Type} (parser : Parser α) : Parser (Option α) :=
  fun cursor =>
    match parser cursor with
    | some (value, cursor) => some (some value, cursor)
    | none => some (none, cursor)

/-- The node from `start` to the end of the last token passed. -/
def finish (kind : Kind) (start : Nat) (children : List Node) : Parser Node :=
  return ⟨kind, ⟨start, (← get).previous⟩, children⟩

/-! ## Repetition

A repetition passes at least one token each time, so the length of the text bounds it. -/

/-- A bound on the number of tokens ahead. -/
def bound : Parser Nat :=
  return (← get).here.chars.length + 2

/-- Collects items until one is `none`, at most `fuel` of them. -/
def collect {α : Type} (item : Parser (Option α)) : Nat → Parser (List α)
  | 0 => failure
  | fuel + 1 => do
    match ← item with
    | some value => return value :: (← collect item fuel)
    | none => return []

/-- Collects items until one is `none`. -/
def many {α : Type} (item : Parser (Option α)) : Parser (List α) := do
  collect item (← bound)

/-- Changes a value until the step gives `none`, at most `fuel` times. -/
def growWith {α : Type} (step : α → Parser (Option α)) : Nat → α → Parser α
  | 0, _ => failure
  | fuel + 1, value => do
    match ← step value with
    | some value => growWith step fuel value
    | none => return value

/-- Changes a value until the step gives `none`. -/
def grow {α : Type} (step : α → Parser (Option α)) (value : α) : Parser α := do
  growWith step (← bound) value

/-- Items up to a closing mark; a comma stands between two and may follow the last. -/
def commaItems {α : Type} (close : String) (item : Parser α) : Parser (List α) :=
  many do
    if ← at? close then return none
    let value ← item
    unless ← at? close do expect ","
    return some value

/-- Items up to a closing mark, which is passed as well. -/
def commaList {α : Type} (close : String) (item : Parser α) : Parser (List α) := do
  let items ← commaItems close item
  expect close
  return items

/-- One item or more, with a mark between two. -/
def separated {α : Type} (mark : String) (item : Parser α) : Parser (List α) := do
  let first ← item
  let rest ← many do
    if ← eat? mark then return some (← item)
    return none
  return first :: rest

/-- The end of a statement: a semicolon, or a place where one may be left out. -/
def semicolon : Parser Unit := do
  if ← eat? ";" then return
  let cursor ← get
  guard (cursor.newline || cursor.token == .punct "\x7d" || cursor.token == .endOfText)

/-! ## Words -/

/-- The words that never name a variable. -/
def reservedWords : List String :=
  ["break", "case", "catch", "class", "const", "continue", "debugger", "default", "delete", "do", "else", "enum", "export",
   "extends", "false", "finally", "for", "function", "if", "import", "in", "instanceof", "new", "null", "return", "super",
   "switch", "this", "throw", "true", "try", "typeof", "var", "void", "while", "with"]

/-- Whether a word may name a variable. -/
def isVariableName (name : String) : Bool :=
  !reservedWords.contains name

/-- Any word as a property name. -/
def propertyWord : Parser Node := do
  let start ← tokenStart
  match ← token with
  | .word name _ =>
    bumpName
    finish (.propertyName name) start []
  | _ => failure

end ComponentLint.Script
