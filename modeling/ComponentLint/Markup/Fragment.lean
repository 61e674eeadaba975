import ComponentLint.Script.Language
import ComponentLint.Text.Scan

/-!
# Script fragments in templates

The values of directives and the insides of interpolations are fragments of a script. Each fragment is parsed on its
own, and its spans are then moved to where the fragment stands in the file.
-/

namespace ComponentLint.Markup

open Text

/-- The word between the two sides of a loop. -/
inductive LoopWord where
  | inWord
  | ofWord
  deriving DecidableEq, Repr

/-- What the value of a directive says. -/
inductive DirectiveValue where
  | expression (node : Script.Node)
  /-- The aliases, as a parameter list, and the source of a loop. -/
  | loop (aliases : Script.Node) (source : Script.Node) (word : LoopWord)
  /-- The statements of an event handler that is not one expression. -/
  | handler (statements : List Script.Node)
  /-- The parameters of a slot. -/
  | slotScope (params : Script.Node)
  | invalid
  deriving Repr

namespace Fragment

/-! ## Blanks and comments -/

mutual

/-- Whether a text holds only white space and complete comments. -/
def isTrivia : List Char → Bool
  | [] => true
  | '/' :: '/' :: rest => isTriviaAfterLine rest
  | '/' :: '*' :: rest => isTriviaAfterBlock rest
  | c :: rest => isSpace c && isTrivia rest

/-- Whether a text holds only white space and comments, from inside a line comment on. -/
def isTriviaAfterLine : List Char → Bool
  | [] => true
  | c :: rest => if c == '\n' then isTrivia rest else isTriviaAfterLine rest

/-- Whether a text holds only white space and comments, from inside a block comment on. -/
def isTriviaAfterBlock : List Char → Bool
  | [] => false
  | '*' :: '/' :: rest => isTrivia rest
  | _ :: rest => isTriviaAfterBlock rest

end

/-! ## Loops -/

/-- The word of a loop at the front of a text, before at least one blank, and the number of bytes up to what follows. -/
def loopWord? : List Char → Option (LoopWord × Nat)
  | 'i' :: 'n' :: rest => finish .inWord rest
  | 'o' :: 'f' :: rest => finish .ofWord rest
  | _ => none
where
  /-- The word counts only before a blank. -/
  finish (word : LoopWord) (rest : List Char) : Option (LoopWord × Nat) :=
    let blanks := rest.takeWhile isAsciiSpace
    if blanks.isEmpty then none else some (word, 2 + byteLength blanks)

/-- The change of the bracket depth at a character. -/
def depthChange (c : Char) : Int :=
  if c == '(' || c == '[' || c == '{' then 1
  else if c == ')' || c == ']' || c == '}' then -1
  else 0

/-- The first place from `offset` on where blanks outside all brackets stand before the word of a loop: the end of the
aliases, the word, and the start of the source. `afterBlank` tells that the character before was a blank. -/
def splitLoopFrom (offset : Nat) (depth : Int) (afterBlank : Bool) : List Char → Option (Nat × LoopWord × Nat)
  | [] => none
  | c :: rest =>
    let next := offset + c.utf8Size
    if isAsciiSpace c then
      if depth == 0 && !afterBlank && offset > 0 then
        let blanks := rest.takeWhile isAsciiSpace
        match loopWord? (rest.dropWhile isAsciiSpace) with
        | some (word, length) => some (offset, word, next + byteLength blanks + length)
        | none => splitLoopFrom next depth true rest
      else splitLoopFrom next depth true rest
    else splitLoopFrom next (depth + depthChange c) false rest

/-- Splits the text of a loop into the end of its aliases, its word, and the start of its source. -/
def splitLoop? (text : List Char) : Option (Nat × LoopWord × Nat) :=
  splitLoopFrom 0 0 false text

/-! ## Reading fragments -/

/-- A fragment that is one expression; only blanks and comments may follow it. -/
def expression? (language : Script.Language) (start : Nat) (text : List Char) : Option Script.Node :=
  if isBlank text then none
  else do
    let node ← language.expression? text
    let (_, rest) ← splitAt? node.span.stop text
    if isTrivia rest then some (node.shift start) else none

/-- A parameter list, with or without its parentheses. -/
def params? (language : Script.Language) (start : Nat) (text : List Char) : Option Script.Node :=
  let trimmed := trim text
  let start := start + (byteLength text - byteLength (trimStart text))
  if trimmed.isEmpty then none
  else if trimmed.head? == some '(' && trimmed.getLast? == some ')' then
    readArrow (trimmed ++ ['=', '>', '0']) start
  else if start = 0 then none
  else readArrow ('(' :: trimmed ++ [')', '=', '>', '0']) (start - 1)
where
  /-- The parameters of the arrow function that a whole text is. -/
  readArrow (whole : List Char) (offset : Nat) : Option Script.Node := do
    let node ← language.expression? whole
    if node.span.stop != byteLength whole then none
    else
      match node with
      | ⟨.arrow _, _, params :: _⟩ => some (params.shift offset)
      | _ => none

/-- The value of a loop directive. -/
def loop? (language : Script.Language) (start : Nat) (text : List Char) : Option DirectiveValue := do
  let (aliasStop, word, sourceStart) ← splitLoop? text
  let aliases ← params? language start (slice text ⟨0, aliasStop⟩)
  let (_, rest) ← splitAt? sourceStart text
  let source ← expression? language (start + sourceStart) rest
  return .loop aliases source word

/-- The value of an event handler: one expression, or else a list of statements. -/
def handler (language : Script.Language) (start : Nat) (text : List Char) : DirectiveValue :=
  match expression? language start text with
  | some node => .expression node
  | none =>
    match (language.program text).statements? with
    | some statements => .handler (statements.map (Script.Node.shift start))
    | none => .invalid

/-- What the value of a directive says; a blank value and the value of a directive that takes none say nothing. -/
def directiveValue (language : Script.Language) (name : String) (start : Nat) (text : List Char) : Option DirectiveValue :=
  if isBlank text then none
  else if ["else", "pre", "cloak", "once"].contains name then none
  else if name == "for" then some ((loop? language start text).getD .invalid)
  else if name == "slot" then some (((params? language start text).map .slotScope).getD .invalid)
  else if name == "on" then some (handler language start text)
  else some (((expression? language start text).map .expression).getD .invalid)

end Fragment

end ComponentLint.Markup
