import ComponentLint.Markup.Node
import ComponentLint.Markup.Token
import ComponentLint.Text.Stream

/-!
# Pieces of markup

A file is a sequence of pieces: comments, tags, interpolations and text. A piece is read off the front of the file; it
tells the tokens it consists of and the problems in it, and what it does to the tree is decided later.
-/

namespace ComponentLint.Markup

open Text

/-- What reading a piece depends on. -/
structure Surroundings where
  /-- The language of script fragments. -/
  language : Script.Language
  /-- Whether tags here are top-level blocks, whose attributes are all plain. -/
  topLevel : Bool
  /-- Whether double braces hold expressions here. -/
  interpolates : Bool

/-- An attribute with what only the tokens and problems show: the offset of its equals sign, and whether its value
runs into the end of the file. -/
structure ReadAttribute where
  attr : Attribute
  equals : Option Nat
  unclosed : Bool

/-- How a start tag ends. -/
inductive TagEnd where
  | plain
  | selfClosing
  /-- The file ends inside the tag. -/
  | missing
  deriving DecidableEq, Repr

/-- A start tag as it was read. -/
structure ReadTag where
  rawName : List Char
  start : Nat
  attributes : List ReadAttribute
  ending : TagEnd
  /-- The offset after the tag. -/
  stop : Nat

/-- A piece of a file. -/
inductive Piece where
  | comment (span : Span) (closed : Bool)
  | text (start : Nat) (chars : List Char)
  | interpolation (content : Interpolation) (inner : List Char)
  /-- `close` is the offset of the closing mark, if the tag has one. -/
  | endTag (name : List Char) (span : Span) (close : Option Nat)
  | startTag (tag : ReadTag)
  /-- Content that is not read as markup. -/
  | raw (span : Span)

/-! ## Recognizing markup -/

/-- Whether a tag name can start here. -/
def startsName : List Char → Bool
  | c :: _ => isAsciiLetter c
  | [] => false

/-- Whether a comment, an end tag or a start tag begins here. -/
def isMarkup : List Char → Bool
  | '<' :: '!' :: '-' :: '-' :: _ => true
  | '<' :: '/' :: rest => startsName rest
  | '<' :: rest => startsName rest
  | _ => false

/-! ## Comments, text and interpolations -/

/-- A comment from its opening on. -/
def readComment (stream : Stream) : Piece × Stream :=
  match cutAt? ['-', '-', '>'] (stream.chars.drop 4) with
  | some (body, rest) =>
    let stop := stream.offset + 4 + byteLength body + 3
    (.comment ⟨stream.offset, stop⟩ true, ⟨stop, rest⟩)
  | none =>
    let stop := stream.offset + byteLength stream.chars
    (.comment ⟨stream.offset, stop⟩ false, ⟨stop, []⟩)

/-- The text up to the next piece, and what follows it. Double braces that open the text have no closing ones, so they
belong to it. -/
def textRun (interpolates : Bool) : Bool → List Char → List Char × List Char
  | _, [] => ([], [])
  | first, '{' :: '{' :: rest =>
    if interpolates then
      if first then
        let (taken, after) := textRun interpolates false rest
        ('{' :: '{' :: taken, after)
      else ([], '{' :: '{' :: rest)
    else
      let (taken, after) := textRun interpolates false ('{' :: rest)
      ('{' :: taken, after)
  | first, c :: rest =>
    if !first && isMarkup (c :: rest) then ([], c :: rest)
    else
      let (taken, after) := textRun interpolates false rest
      (c :: taken, after)

/-- Plain text. -/
def readText (interpolates : Bool) (stream : Stream) : Piece × Stream :=
  let (taken, rest) := textRun interpolates true stream.chars
  (.text stream.offset taken, stream.after taken rest)

/-- An interpolation from its opening braces on, if its closing braces exist. -/
def readInterpolation? (language : Script.Language) (stream : Stream) : Option (Piece × Stream) := do
  let (inner, rest) ← cutAt? ['}', '}'] (stream.chars.drop 2)
  let innerStart := stream.offset + 2
  let innerStop := innerStart + byteLength inner
  let content : Interpolation :=
    ⟨⟨stream.offset, innerStart⟩, ⟨innerStop, innerStop + 2⟩, Fragment.expression? language innerStart inner⟩
  return (.interpolation content inner, ⟨innerStop + 2, rest⟩)

/-- Text or an interpolation. -/
def readContent (around : Surroundings) (stream : Stream) : Piece × Stream :=
  if around.interpolates && stream.startsWith "\x7b\x7b" then
    (readInterpolation? around.language stream).getD (readText true stream)
  else readText around.interpolates stream

/-! ## Tags -/

/-- The stream after its leading blanks. -/
def skipBlanks (stream : Stream) : Stream :=
  (stream.span isAsciiSpace).2

/-- An end tag from its opening on. -/
def readEndTag (stream : Stream) : Piece × Stream :=
  let (name, afterName) := (stream.skip 2).span fun c => !isAsciiSpace c && c != '>'
  let close := skipBlanks afterName
  match close.chars with
  | '>' :: _ =>
    let after := close.next
    (.endTag name ⟨stream.offset, after.offset⟩ (some close.offset), after)
  | _ => (.endTag name ⟨stream.offset, close.offset⟩ none, close)

/-- The name of a start tag and what follows it. -/
def tagName : List Char → List Char × List Char
  | [] => ([], [])
  | '/' :: '>' :: rest => ([], '/' :: '>' :: rest)
  | c :: rest =>
    if isAsciiSpace c || c == '>' then ([], c :: rest)
    else
      let (taken, after) := tagName rest
      (c :: taken, after)

/-- The name of an attribute and what follows it. A bracket that closes again takes everything up to its end. -/
def attributeName : Bool → List Char → List Char × List Char
  | _, [] => ([], [])
  | true, c :: rest =>
    let (taken, after) := attributeName (c != ']') rest
    (c :: taken, after)
  | false, c :: rest =>
    if isAsciiSpace c || c == '=' || c == '>' || (c == '/' && rest.head? == some '>') then ([], c :: rest)
    else
      let (taken, after) := attributeName (c == '[' && rest.contains ']') rest
      (c :: taken, after)

/-- The value of an attribute, and whether its closing quote is missing. -/
def readValue (language : Script.Language) (key : Key) (stream : Stream) : AttributeValue × Bool × Stream :=
  match stream.chars with
  | c :: rest =>
    if c == '"' || c == '\'' then
      let inner := rest.takeWhile (· != c)
      let start := stream.offset + 1
      let stop := start + byteLength inner
      match rest.dropWhile (· != c) with
      | _ :: after => (value ⟨stream.offset, stop + 1⟩ ⟨start, stop⟩ inner (some c), false, ⟨stop + 1, after⟩)
      | [] => (value ⟨stream.offset, stop⟩ ⟨start, stop⟩ inner (some c), true, ⟨stop, []⟩)
    else
      let (inner, after) := stream.span fun d => !isAsciiSpace d && d != '>'
      let span : Span := ⟨stream.offset, after.offset⟩
      (value span span inner none, false, after)
  | [] =>
    let span : Span := ⟨stream.offset, stream.offset⟩
    (value span span [] none, false, stream)
where
  /-- The value of a span, with its meaning if the key is a directive. -/
  value (span valueSpan : Span) (inner : List Char) (quote : Option Char) : AttributeValue :=
    let meaning := match key with
      | .directive directive => Fragment.directiveValue language directive.name.text valueSpan.start inner
      | .plain _ => none
    ⟨span, valueSpan, String.ofList inner, quote, meaning⟩

/-- The name of an attribute and what follows it; a name takes at least one character. -/
def wholeName (chars : List Char) : List Char × List Char :=
  match attributeName false chars with
  | ([], c :: rest) => ([c], rest)
  | found => found

/-- An attribute. -/
def readAttribute (around : Surroundings) (stream : Stream) : ReadAttribute × Stream :=
  let (name, rest) := wholeName stream.chars
  let afterName := stream.after name rest
  let key := Key.parse name stream.offset around.topLevel
  let equals := skipBlanks afterName
  match equals.chars with
  | '=' :: _ =>
    let (value, unclosed, after) := readValue around.language key (skipBlanks equals.next)
    (⟨⟨⟨stream.offset, value.span.stop⟩, key, some value⟩, some equals.offset, unclosed⟩, after)
  | _ => (⟨⟨⟨stream.offset, afterName.offset⟩, key, none⟩, none, false⟩, afterName)

/-- The attributes of a start tag and how it ends; a slash that closes nothing is skipped. -/
def readAttributes (around : Surroundings) : Nat → Stream → List ReadAttribute × TagEnd × Stream
  | 0, stream => ([], .missing, stream)
  | fuel + 1, stream =>
    let stream := skipBlanks stream
    match stream.chars with
    | [] => ([], .missing, stream)
    | '>' :: _ => ([], .plain, stream.next)
    | '/' :: '>' :: _ => ([], .selfClosing, stream.skip 2)
    | '/' :: _ => readAttributes around fuel stream.next
    | _ =>
      let (attr, stream) := readAttribute around stream
      let (attrs, ending, stream) := readAttributes around fuel stream
      (attr :: attrs, ending, stream)

/-- A start tag from its opening on. -/
def readStartTag (around : Surroundings) (stream : Stream) : ReadTag × Stream :=
  let (name, rest) := tagName (stream.chars.drop 1)
  let afterName := stream.next.after name rest
  let (attrs, ending, after) := readAttributes around (rest.length + 1) afterName
  (⟨name, stream.offset, attrs, ending, after.offset⟩, after)

/-! ## Raw content -/

/-- Whether the end tag of a name begins here. -/
def closesRaw (name : List Char) : List Char → Bool
  | '<' :: '/' :: rest =>
    eqIgnoreAsciiCase (rest.take name.length) name &&
      (match rest.drop name.length with
      | c :: _ => isAsciiSpace c || c == '>'
      | [] => true)
  | _ => false

/-- The content up to the end tag of a name or the end of the file, and what follows it. -/
def rawRun (name : List Char) : List Char → List Char × List Char
  | [] => ([], [])
  | c :: rest =>
    if closesRaw name (c :: rest) then ([], c :: rest)
    else
      let (taken, after) := rawRun name rest
      (c :: taken, after)

/-- The raw content of an element of a name. -/
def readRaw (name : List Char) (stream : Stream) : Piece × Stream :=
  let (taken, rest) := rawRun name stream.chars
  let after := stream.after taken rest
  (.raw ⟨stream.offset, after.offset⟩, after)

/-! ## The piece at the front -/

/-- The piece at the front of a stream. -/
def readPiece (around : Surroundings) (stream : Stream) : Piece × Stream :=
  match stream.chars with
  | '<' :: '!' :: '-' :: '-' :: _ => readComment stream
  | '<' :: '/' :: rest => if startsName rest then readEndTag stream else readContent around stream
  | '<' :: rest =>
    if startsName rest then
      let (tag, after) := readStartTag around stream
      (.startTag tag, after)
    else readContent around stream
  | _ => readContent around stream

/-! ## Tokens and problems of a piece -/

/-- Text as runs of white space and of other characters; `run` holds the run at hand in reverse. -/
def textTokens (start : Nat) (run : List Char) : List Char → List Token
  | [] => ending
  | c :: rest =>
    match run with
    | [] => textTokens start [c] rest
    | d :: _ =>
      if isAsciiSpace c == isAsciiSpace d then textTokens start (c :: run) rest
      else ending ++ textTokens (start + byteLength run) [c] rest
where
  /-- The token of the run at hand. -/
  ending : List Token :=
    match run with
    | [] => []
    | d :: _ => Token.spanning (if isAsciiSpace d then .whitespace else .text) start (start + byteLength run)

/-- The tokens of an attribute. -/
def ReadAttribute.tokens (read : ReadAttribute) : List Token :=
  let key := read.attr.key.span
  Token.spanning .attributeName key.start key.stop ++
    (match read.equals with
    | some at' => [⟨.attributeEquals, ⟨at', at' + 1⟩⟩]
    | none => []) ++
    (match read.attr.value with
    | some value => Token.spanning .attributeValue value.span.start value.span.stop
    | none => [])

/-- The problems of an attribute in a file that ends at `fileStop`. -/
def ReadAttribute.problems (fileStop : Nat) (read : ReadAttribute) : List Problem :=
  match read.attr.value with
  | none => []
  | some value =>
    (if read.unclosed then [⟨.unterminatedValue, ⟨value.span.start, fileStop⟩⟩] else []) ++
      (match value.meaning, read.attr.key with
      | some .invalid, .directive key => [⟨.invalidDirective key.name.text, value.valueSpan⟩]
      | _, _ => [])

/-- The tokens of the end of a start tag that stops at an offset. -/
def TagEnd.tokens (stop : Nat) : TagEnd → List Token
  | .plain => [⟨.tagClose, ⟨stop - 1, stop⟩⟩]
  | .selfClosing => [⟨.tagSelfClose, ⟨stop - 2, stop⟩⟩]
  | .missing => []

/-- The tokens of a piece, in order. -/
def Piece.tokens : Piece → List Token
  | .comment span _ => Token.spanning .comment span.start span.stop
  | .text start chars => textTokens start [] chars
  | .interpolation content _ =>
    [⟨.mustacheOpen, content.opening⟩] ++ Token.spanning .rawText content.opening.stop content.closing.start ++
      [⟨.mustacheClose, content.closing⟩]
  | .endTag name span close =>
    Token.spanning .endTagOpen span.start (span.start + 2 + byteLength name) ++
      (match close with
      | some at' => [⟨.tagClose, ⟨at', at' + 1⟩⟩]
      | none => [])
  | .startTag tag =>
    Token.spanning .tagOpen tag.start (tag.start + 1 + byteLength tag.rawName) ++ tag.attributes.flatMap (·.tokens) ++
      tag.ending.tokens tag.stop
  | .raw span => Token.spanning .rawText span.start span.stop

/-- The problems of a piece that do not depend on the tree, in a file that ends at `fileStop`. -/
def Piece.problems (fileStop : Nat) : Piece → List Problem
  | .comment span closed => if closed then [] else [⟨.unterminatedComment, span⟩]
  | .interpolation content inner =>
    if content.expression.isNone && !isBlank inner then
      [⟨.invalidInterpolation, ⟨content.opening.stop, content.closing.start⟩⟩]
    else []
  | .endTag _ span close => if close.isNone then [⟨.unterminatedEndTag, span⟩] else []
  | .startTag tag =>
    tag.attributes.flatMap (·.problems fileStop) ++
      (if tag.ending == .missing then
        [⟨.unterminatedStartTag (String.ofList tag.rawName), ⟨tag.start, tag.stop⟩⟩]
      else [])
  | _ => []

end ComponentLint.Markup
