import ComponentLint.Text.Span

/-!
# Attribute keys

The name of an attribute is a plain name or the key of a directive: a directive name, an argument and modifiers. The
marks `:`, `.`, `@` and `#` stand for `v-bind:`, a bound property, `v-on:` and `v-slot:`.
-/

namespace ComponentLint.Markup

open Text

/-- A name with the bytes it spans. -/
structure Name where
  text : String
  span : Span
  deriving DecidableEq, Repr

/-- The argument of a directive: a name, or an expression in brackets. -/
inductive Argument where
  | static (name : Name)
  /-- `raw` is the text between the brackets, which the span includes. -/
  | dynamic (span : Span) (raw : String)
  deriving DecidableEq, Repr

namespace Argument

/-- The bytes of an argument. -/
def span : Argument → Span
  | .static name => name.span
  | .dynamic span _ => span

/-- The name of a static argument. -/
def staticName? : Argument → Option String
  | .static name => some name.text
  | .dynamic .. => none

end Argument

/-- The key of a directive. -/
structure DirectiveKey where
  span : Span
  /-- The directive without its mark: `bind`, `on`, `if`, … -/
  name : Name
  /-- The mark that stands for the directive, if it is not written out. -/
  shorthand : Option Char
  argument : Option Argument
  modifiers : List Name
  deriving DecidableEq, Repr

/-- The key of an attribute. -/
inductive Key where
  | plain (name : Name)
  | directive (key : DirectiveKey)
  deriving DecidableEq, Repr

namespace Key

/-- The directive of a key. -/
def directive? : Key → Option DirectiveKey
  | .directive key => some key
  | .plain _ => none

/-- The bytes of a key. -/
def span : Key → Span
  | .plain name => name.span
  | .directive key => key.span

/-- A name made of characters that start at an offset. -/
def nameAt (offset : Nat) (chars : List Char) : Name :=
  ⟨String.ofList chars, ⟨offset, offset + byteLength chars⟩⟩

/-- The directive that a mark stands for. -/
def shorthandName? : Char → Option String
  | ':' => some "bind"
  | '.' => some "bind"
  | '@' => some "on"
  | '#' => some "slot"
  | _ => none

/-- Whether an attribute name has the form of a directive. -/
def isDirectiveText : List Char → Bool
  | ':' :: _ => true
  | '@' :: _ => true
  | '#' :: _ => true
  | '.' :: _ :: _ => true
  | 'v' :: '-' :: _ :: _ => true
  | _ => false

/-- The non-empty parts between dots, with the offsets at which they start. `part` holds the characters of the part at
hand in reverse. -/
def dotted (offset : Nat) (part : List Char) : List Char → List Name
  | [] => ending
  | c :: rest =>
    if c == '.' then ending ++ dotted (offset + byteLength part + 1) [] rest
    else dotted offset (c :: part) rest
where
  /-- The part at hand, unless it is empty. -/
  ending : List Name := if part.isEmpty then [] else [nameAt offset part.reverse]

/-- The argument at the front of a text, and the text after it with its offset. -/
def readArgument (offset : Nat) (text : List Char) : Option Argument × Nat × List Char :=
  match text with
  | '[' :: rest =>
    let inner := rest.takeWhile (· != ']')
    let after := rest.dropWhile (· != ']')
    let raw := String.ofList inner
    let innerStop := offset + 1 + byteLength inner
    match after with
    | _ :: after => (some (.dynamic ⟨offset, innerStop + 1⟩ raw), innerStop + 1, after)
    | [] => (some (.dynamic ⟨offset, innerStop⟩ raw), innerStop, [])
  | _ =>
    let name := text.takeWhile (· != '.')
    let after := text.dropWhile (· != '.')
    let stop := offset + byteLength name
    (if name.isEmpty then none else some (.static (nameAt offset name)), stop, after)

/-- The key of a directive from its name on; the argument, if there can be one, starts at `offset`. -/
def directiveFrom (whole : Span) (name : Name) (shorthand : Option Char) (hasArgument : Bool) (offset : Nat)
    (text : List Char) : DirectiveKey :=
  let (argument, offset, text) := if hasArgument then readArgument offset text else (none, offset, text)
  let implied : List Name := if shorthand == some '.' then [⟨"prop", ⟨whole.start, whole.start⟩⟩] else []
  ⟨whole, name, shorthand, argument, implied ++ dotted offset [] text⟩

/-- A directive written with one of the marks. -/
def markedDirective (whole : Span) (mark : Char) (name : String) (rest : List Char) : DirectiveKey :=
  directiveFrom whole ⟨name, ⟨whole.start, whole.start + 1⟩⟩ (some mark) true (whole.start + 1) rest

/-- A directive written out, after its `v-`. -/
def writtenDirective (whole : Span) (rest : List Char) : DirectiveKey :=
  let name := rest.takeWhile fun c => c != ':' && c != '.'
  let after := rest.dropWhile fun c => c != ':' && c != '.'
  let stop := whole.start + 2 + byteLength name
  let named : Name := ⟨String.ofList name, ⟨whole.start, stop⟩⟩
  match after with
  | ':' :: after => directiveFrom whole named none true (stop + 1) after
  | _ => directiveFrom whole named none false stop after

/-- Reads an attribute name that starts at an offset. Attributes of top-level blocks are never directives. -/
def parse (text : List Char) (start : Nat) (topLevel : Bool) : Key :=
  let whole : Span := ⟨start, start + byteLength text⟩
  if topLevel || !isDirectiveText text then .plain (nameAt start text)
  else
    match text with
    | 'v' :: '-' :: rest => .directive (writtenDirective whole rest)
    | mark :: rest =>
      match shorthandName? mark with
      | some name => .directive (markedDirective whole mark name rest)
      | none => .plain (nameAt start text)
    | [] => .plain (nameAt start text)

end Key

end ComponentLint.Markup
