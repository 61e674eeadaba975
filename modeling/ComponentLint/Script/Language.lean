import ComponentLint.Script.Node

/-!
# Languages of scripts

A component is read by the help of a parser of scripts: for an expression, and for a script as a whole. What is needed of one is
a `Language`. The grammar of `ComponentLint.Script.Parser` is such a parser for each dialect, and nothing else depends on it.
-/

namespace ComponentLint.Script

/-- A script as a whole: its statements without directives, and its comments. -/
structure Program where
  span : Span
  statements : List Node
  comments : List Span
  deriving Inhabited

/-- The program moved to the right. -/
def Program.shift (distance : Nat) (program : Program) : Program :=
  ⟨program.span.shift distance, program.statements.map (·.shift distance), program.comments.map (·.shift distance)⟩

/-- What a parser makes of a script: the program as far as it was understood, and what is wrong with it. -/
structure ParsedProgram where
  program : Program
  errors : List String
  /-- The parser gave up; the program is partial. -/
  panicked : Bool

/-- The statements of a script without errors. -/
def ParsedProgram.statements? (parsed : ParsedProgram) : Option (List Node) :=
  if parsed.panicked || !parsed.errors.isEmpty then none else some parsed.program.statements

/-- A parser of scripts. The spans of what it reads count from the start of the text it is given. -/
structure Language where
  /-- The longest expression at the front of a text, if it is without errors. -/
  expression? : List Char → Option Node
  program : List Char → ParsedProgram

/-- A parser for each dialect. -/
abbrev Languages := Dialect → Language

end ComponentLint.Script
