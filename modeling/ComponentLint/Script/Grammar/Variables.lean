import ComponentLint.Script.Grammar.Assignments

/-!
# Variable declarations
-/

namespace ComponentLint.Script.Grammar

/-- Whether a variable may be left without a value: a plain name whose value may change. -/
def needsNoValue (kind : VariableKind) (pattern : Node) : Bool :=
  pattern.isBinding && (kind == .varKeyword || kind == .letKeyword)

/-- One declarator. A mark that the variable is surely set needs a type and excludes a value, and a resource is a plain
name. -/
def declarator (sub : Sub) (env : Env) (kind : VariableKind) : Parser Node := do
  let start ← tokenStart
  let name ← sub env .pattern
  permit (kind != .usingKeyword || name.isBinding)
  let isDefinite ← if env.dialect.typed && name.isBinding && !(← onNewLine) then eat? "!" else pure false
  if env.dialect.typed then let _ ← eat? "?"
  let isTyped ← typeAnnotated? sub env
  permit (isTyped || !isDefinite)
  if ← eat? "=" then
    permit !isDefinite
    let value ← sub env .assignment
    finish .declarator start [name, value]
  else finish .declarator start [name]

/-- The declarators of a variable declaration after its keyword. -/
def declarators (sub : Sub) (env : Env) (kind : VariableKind) : Parser (List Node) :=
  separated "," (declarator sub env kind)

/-- Notes a fault if a declarator that must have a value has none. -/
def permitMissingValues (env : Env) (kind : VariableKind) (parts : List Node) : Parser Unit :=
  permit (env.ambient || parts.all fun part =>
    match part.children with
    | [pattern] => needsNoValue kind pattern
    | _ => true)

/-- A variable declaration as a statement, whose keyword is at the cursor. -/
def variableStatement (sub : Sub) (env : Env) (start : Nat) (kind : VariableKind) : Parser Node := do
  bump
  let parts ← declarators sub env kind
  permitMissingValues env kind parts
  semicolon
  finish (.variables kind) start parts

/-! ## Keywords -/

/-- Whether `using` at the cursor declares a resource: a name follows on the same line. In the head of a loop the name is
not `of`. -/
def declaresResource (inHead : Bool) : Parser Bool := do
  return (← atWord? "using") && (← nextIs fun cursor =>
    !cursor.newline && cursor.token.isName && !(inHead && cursor.token.isKeyword "of"))

/-- Whether `await` at the cursor stands before a declaration of a resource. -/
def declaresAwaited (inHead : Bool) : Parser Bool := do
  if !(← atWord? "await") then return false
  ahead do
    bump
    guard !(← onNewLine)
    declaresResource inHead

/-- What `let` begins as a statement. -/
inductive LetRole where
  | declaration
  /-- An operand. -/
  | operand
  /-- The object of a member or the callee of a call. -/
  | base
  /-- A name on its own. -/
  | name
  deriving DecidableEq, Repr

/-- What `let` at the cursor begins, told by the token after it. -/
def letRole (alone : Bool) : Parser LetRole := do
  let next := (← get).advance
  let operates (mark : String) : Bool :=
    assignmentMarks.contains mark || ((precedence? mark).isSome && !(["&&", "||", "??", "as", "satisfies"].contains mark))
  if ((wholeMark next).map operates).getD false then return .operand
  match next.token with
  | .punct "." => return .base
  | .punct "(" => return .base
  | .punct ";" => return .name
  | .punct "[" => return .declaration
  | _ => return if alone then .name else .declaration

end ComponentLint.Script.Grammar
