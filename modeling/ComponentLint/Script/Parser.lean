import ComponentLint.Script.Grammar.Elements
import ComponentLint.Script.Grammar.Modules
import ComponentLint.Script.Language

/-!
# Parsing scripts

The knot of the grammar is tied by a bound on the nesting of goals that grows with the text, so the bound is never
what makes a parse fail.
-/

namespace ComponentLint.Script

namespace Grammar

/-- The production of each goal. -/
def step (sub : Sub) (env : Env) : Goal → Parser Node
  | .expression => expression sub env
  | .assignment => assignment sub env
  | .binary level => binary sub env level
  | .unary => unary sub env
  | .leftHandSide => leftHandSide sub env
  | .pattern => pattern sub env
  | .parameters => parameters sub env
  | .typeTerm => typeTerm sub env
  | .item => statementAt sub env false
  | .moduleItem => moduleItem sub env
  | .statement => statementAt sub env true
  | .element => element sub env

/-- The parser of a goal, for goals nested at most `fuel` deep. -/
def run : Nat → Sub
  | 0, _, _ => failure
  | fuel + 1, env, goal => step (run fuel) env goal

end Grammar

/-- A bound on the nesting of goals in a text. -/
def nesting (text : List Char) : Nat :=
  24 * (text.length + 4)

/-- Whether trees hold a shorthand property with a default that no assignment turned into a target. -/
def hasStrayDefault (nodes : List Node) : Bool :=
  Node.anyOf (·.kind == .shorthandDefault) nodes

/-- The longest expression at the front of a text, if it is without fault and a token can be read after it. -/
def parseExpression? (dialect : Dialect) (text : List Char) : Option Node := do
  let (node, cursor) ← (Grammar.run (nesting text) (Env.top dialect) .expression).run (Cursor.ofText text)
  if cursor.notes.flawed || cursor.token == .invalid || hasStrayDefault [node] then none else some node

/-- The statements of a module up to the end of the text. -/
def moduleItems (dialect : Dialect) (text : List Char) : Parser (List Node) := do
  let env := Env.top dialect
  let sub := Grammar.run (nesting text)
  let all ← many do
    if (← token) == .endOfText then return none
    return some (← sub env .moduleItem)
  return all.dropWhile Grammar.isDirective

/-- The cursor on the first token of a module, which may begin with a line for the system's loader. -/
def moduleStart (text : List Char) : Cursor :=
  match text with
  | '#' :: '!' :: _ =>
    let (_, after) := Stream.span (fun c => !isLineEnd c) ⟨0, text⟩
    Cursor.ofStream after
  | _ => Cursor.ofText text

/-- A text as a module. A text that cannot be read to its end has no program; faults in what is read leave the program. -/
def parseProgram (dialect : Dialect) (text : List Char) : ParsedProgram :=
  match (moduleItems dialect text).run (moduleStart text) with
  | none => ⟨⟨⟨0, 0⟩, [], []⟩, ["script syntax error"], true⟩
  | some (statements, cursor) =>
    let faulty := cursor.notes.flawed || hasStrayDefault statements
    ⟨⟨⟨0, Text.byteLength text⟩, statements, cursor.notes.comments.reverse⟩,
      if faulty then ["script syntax error"] else [], false⟩

/-- The parser of a dialect. -/
def Dialect.language (dialect : Dialect) : Language :=
  ⟨parseExpression? dialect, parseProgram dialect⟩

end ComponentLint.Script
