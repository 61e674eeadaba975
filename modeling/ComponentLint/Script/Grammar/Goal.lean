import ComponentLint.Script.Cursor

/-!
# Goals of the grammar

The grammar is a set of mutually recursive productions. A production is a plain function that receives the parser for
all goals as an argument (`Sub`); tying the knot once, with a bound on the nesting, gives the parser.
-/

namespace ComponentLint.Script

/-- What the surroundings of a place allow. -/
structure Env where
  dialect : Dialect
  /-- Whether `in` is an operator here; the head of a loop excludes it. -/
  allowIn : Bool
  /-- Whether `await` is an operator here. -/
  inAsync : Bool
  /-- Whether `yield` is an operator here. -/
  inGenerator : Bool
  /-- Whether `return` may stand here. -/
  inFunction : Bool
  /-- Whether the place is between the question mark and the colon of a conditional. -/
  inConsequent : Bool
  /-- Whether the place is in the expression of a decorator, where a bracket starts no member. -/
  inDecorator : Bool
  /-- Whether declarations need no values here. -/
  ambient : Bool
  /-- Whether `extends` after a type starts a condition. -/
  allowCondition : Bool
  deriving DecidableEq, Repr

/-- The productions that others call recursively. -/
inductive Goal where
  | expression
  | assignment
  /-- Binary operators that bind at least as tightly as the level. -/
  | binary (level : Nat)
  | unary
  /-- Members and calls. -/
  | leftHandSide
  /-- A pattern that declares names. -/
  | pattern
  /-- A parameter list in parentheses. -/
  | parameters
  | typeTerm
  /-- A declaration or statement of a list. -/
  | item
  /-- A declaration or statement of a module, which may be an import or an export. -/
  | moduleItem
  /-- A statement that stands alone, as the body of a loop does. -/
  | statement
  /-- An element of embedded markup, up to but not past its last mark. -/
  | element
  deriving DecidableEq, Repr

/-- The parser for all goals that a production receives. -/
abbrev Sub := Env → Goal → Parser Node

namespace Env

/-- The top of a module. -/
def top (dialect : Dialect) : Env where
  dialect := dialect
  allowIn := true
  inAsync := true
  inGenerator := false
  inFunction := false
  inConsequent := false
  inDecorator := false
  ambient := false
  allowCondition := true

/-- Inside brackets `in` is an operator again. -/
def inBrackets (env : Env) : Env :=
  { env with allowIn := true, inConsequent := false, inDecorator := false }

/-- The inside of a function. -/
def within (env : Env) (isAsync isGenerator : Bool) : Env :=
  { env.inBrackets with inAsync := isAsync, inGenerator := isGenerator, inFunction := true }

/-- Whether a word that could name a variable is an operator here. -/
def operates (env : Env) (name : String) : Bool :=
  (env.inAsync && name == "await") || (env.inGenerator && name == "yield")

end Env

/-! ## The token after the current one -/

/-- Whether the token after the current one passes a test, on the same line or not. -/
def nextIs (test : Cursor → Bool) : Parser Bool :=
  return test (← get).advance

/-- Whether the token after the current one is a mark. -/
def nextAt? (mark : String) : Parser Bool :=
  nextIs (·.token == .punct mark)

/-- Whether a keyword follows the current token on the same line. -/
def nextWord? (name : String) : Parser Bool :=
  nextIs fun cursor => cursor.token.isKeyword name && !cursor.newline

/-! ## Kinds of tokens -/

/-- Whether a token is a word, of any kind. -/
def Token.isWord : Token → Bool
  | .word .. => true
  | _ => false

/-- Whether a token is a word that may name a variable somewhere. -/
def Token.isName : Token → Bool
  | .word name _ => isVariableName name
  | _ => false

/-- Whether a token is a word that may name a variable anywhere. -/
def Token.isPlainName : Token → Bool
  | .word name _ => isVariableName name && name != "await" && name != "yield"
  | _ => false

/-- Whether a token is a name that may refer to a variable here. -/
def Token.isReference (env : Env) : Token → Bool
  | .word name _ => isVariableName name && !env.operates name
  | _ => false

/-- Whether a token is a number, a big integer or a string. -/
def Token.isScalar : Token → Bool
  | .number _ => true
  | .bigint _ => true
  | .string _ => true
  | _ => false

/-- Whether a token is a template or its first part. -/
def Token.isTemplate : Token → Bool
  | .template .. => true
  | _ => false

/-! ## Names -/

/-- A name that declares a variable. -/
def bindingName (env : Env) : Parser Node := do
  let start ← tokenStart
  match ← token with
  | .word name _ =>
    guard (isVariableName name)
    permit !(env.operates name)
    bumpName
    finish (.binding name) start []
  | _ => failure

/-- A name that refers to a variable or a label. -/
def referenceName (env : Env) : Parser Node := do
  let start ← tokenStart
  match ← token with
  | .word name escaped =>
    guard ((Token.word name escaped).isReference env)
    bumpName
    finish (.identifier name) start []
  | _ => failure

end ComponentLint.Script
