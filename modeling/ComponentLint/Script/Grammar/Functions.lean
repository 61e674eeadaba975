import ComponentLint.Script.Grammar.Patterns

/-!
# Functions

The parts of a function are its name, its parameters and its body.
-/

namespace ComponentLint.Script.Grammar

/-- Whether a statement is a directive: a string on its own. -/
def isDirective : Node → Bool
  | ⟨.expressionStatement, _, [⟨.string _, _, _⟩]⟩ => true
  | _ => false

/-- The statements up to a closing brace or the end of the text, without the directives they begin with. -/
def statementList (sub : Sub) (env : Env) (close : Token) : Parser (List Node) := do
  let all ← many do
    if (← token) == close then return none
    return some (← sub env .item)
  return all.dropWhile isDirective

/-- The body of a function in braces; the surroundings are those of the inside. -/
def functionBody (sub : Sub) (env : Env) : Parser Node := do
  let start ← tokenStart
  expect "\x7b"
  let statements ← statementList sub env (.punct "\x7d")
  expect "\x7d"
  finish .body start statements

/-- The end of a function after its parameters: result type and body. In the typed dialect the body may be missing, and
then the function ends as a statement does. -/
def functionEnd (sub : Sub) (env : Env) (inside : Env) (start : Nat) (declaration : Bool) (parts : List Node) :
    Parser Node := do
  let _ ← resultType? sub env
  if ← at? "\x7b" then
    let body ← functionBody sub inside
    finish (.functionDef declaration) start (parts ++ [body])
  else
    guard env.dialect.typed
    semicolon
    finish (.functionDef declaration) start parts

/-- Parameters, result type and body of a function. -/
def functionRest (sub : Sub) (env : Env) (start : Nat) (isAsync isGenerator declaration : Bool) (name : List Node) :
    Parser Node := do
  let inside := env.within isAsync isGenerator
  let _ ← typeParameters? sub env
  let params ← parameters sub inside
  functionEnd sub env inside start declaration (name ++ [params])

/-- The name of a function, if it has one. -/
def functionName? (env : Env) : Parser (List Node) := do
  if (← token).isName then return [← bindingName env]
  return []

/-- A function from its `function` keyword on, with an optional `async` before it. A declaration has its name in the
scope around it and any other function in its own. -/
def functionAt (sub : Sub) (env : Env) (declaration : Bool) : Parser Node := do
  let start ← tokenStart
  let isAsync ← eatWord? "async"
  expectWord "function"
  let isGenerator ← eat? "*"
  let name ← functionName? (if declaration then env else { env with inAsync := isAsync, inGenerator := isGenerator })
  functionRest sub env start isAsync isGenerator declaration name

/-- A function declaration, which has a name. -/
def namedFunction (sub : Sub) (env : Env) : Parser Node := do
  let node ← functionAt sub env true
  guard (node.children.any (·.isBinding))
  return node

/-! ## Methods -/

/-- The function of a method, from its parameters on. -/
def methodFunction (sub : Sub) (env : Env) (isAsync isGenerator : Bool) : Parser Node := do
  functionRest sub env (← tokenStart) isAsync isGenerator false []

/-- Whether a parameter has a default. -/
def hasDefault (param : Node) : Bool :=
  (param.children.filter (·.kind != .decorator)).length == 2

/-- Whether a parameter list is that of an accessor: a getter takes no parameter and a setter one, without a default in
the typed dialect. -/
def fitsAccessor (typed isGetter : Bool) (params : Node) : Bool :=
  if isGetter then params.children.isEmpty
  else
    match params.children with
    | [param] => param.kind == .param && !(typed && hasDefault param)
    | _ => false

/-- The function of an accessor: it has no type parameters, and a setter has no result type. -/
def accessorFunction (sub : Sub) (env : Env) (isGetter : Bool) : Parser Node := do
  let start ← tokenStart
  let inside := env.within false false
  let generic ← typeParameters? sub env
  permit !generic
  let params ← parameters sub inside
  permit (fitsAccessor env.dialect.typed isGetter params)
  permit (isGetter || !(← at? ":"))
  functionEnd sub env inside start false [params]

end ComponentLint.Script.Grammar
