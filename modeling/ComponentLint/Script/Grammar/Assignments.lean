import ComponentLint.Script.Grammar.Operators

/-!
# Arrow functions and assignments

A few tokens after an opening parenthesis tell whether it can start the parameters of an arrow function. If so, the
parameters are tried first, and an expression in parentheses otherwise.
-/

namespace ComponentLint.Script.Grammar

/-! ## Arrow functions -/

/-- Whether an angle bracket can open the type parameters of an arrow function; it is passed. Where elements may be
embedded, only a bound, a default or a comma tells that it opens no element. -/
def opensGenericArrow (env : Env) : Parser Bool := do
  expect "<"
  guard ((← token).isPlainName || (← atWord? "const"))
  if !env.dialect.markup then return true
  let _ ← eatWord? "const"
  bumpName
  if ← eatWord? "extends" then return !((← at? "=") || (← at? ">") || (← at? "/"))
  return (← at? ",") || (← at? "=")

/-- Whether a parenthesis can open the parameters of an arrow function. -/
def opensParameters (env : Env) : Parser Bool := do
  expect "("
  let closes (marks : List String) : Parser Bool := do
    let token ← token
    return marks.any fun mark => token == .punct mark
  match ← token with
  | .punct ")" =>
    bump
    return (← closes ["=>", "\x7b"]) || (env.dialect.typed && (← at? ":"))
  | .punct mark => return ["[", "\x7b", "..."].contains mark
  | .word name _ =>
    let first ← token
    bumpName
    if modifierWords.contains name && name != "async" && (← token).isPlainName then return !(← atWord? "as")
    guard (first.isPlainName || name == "this")
    if ← eat? "?" then closes [":", ",", "=", ")"] else closes [":", ",", "=", ")"]
  | _ => return false

/-- Whether an arrow function with its parameters in parentheses can begin at the cursor. -/
def opensArrow (env : Env) : Parser Bool :=
  ahead do
    if ← eatWord? "async" then guard !(← onNewLine)
    if env.dialect.typed && (← at? "<") then opensGenericArrow env else opensParameters env

/-- The body of an arrow function: in braces, or one expression. -/
def arrowBody (sub : Sub) (env : Env) (isAsync : Bool) : Parser (Node × Bool) := do
  if ← at? "\x7b" then return (← functionBody sub (env.within isAsync false), false)
  else
    let value ← sub { env with inAsync := isAsync, inGenerator := false } .assignment
    return (⟨.body, value.span, [⟨.expressionStatement, value.span, [value]⟩]⟩, true)

/-- The arrow and the body after the parameters. -/
def arrowRest (sub : Sub) (env : Env) (start : Nat) (isAsync : Bool) (params : Node) : Parser Node := do
  guard !(← onNewLine)
  expect "=>"
  let (body, concise) ← arrowBody sub env isAsync
  finish (.arrow concise) start [params, body]

/-- Parameters in parentheses with an optional result type, up to an arrow. -/
def arrowHead (sub : Sub) (env : Env) : Parser (Node × Bool × Bool) := do
  let isAsync ← eatWord? "async"
  let _ ← typeParameters? sub env
  permit !(← nextIs (·.token.isKeyword "this"))
  let inside := env.within (env.inAsync || isAsync) env.inGenerator
  let params ← parameters sub { inside with inFunction := env.inFunction }
  let hasType ← resultType? sub env
  guard ((← at? "=>") && !(← onNewLine))
  return (params, isAsync, hasType)

/-- An arrow function whose parameters are in parentheses, if there is one here. Between the question mark and the colon
of a conditional, what looks like a result type is one only if the colon still follows. -/
def parenthesizedArrow? (sub : Sub) (env : Env) : Parser (Option Node) := do
  if !(← opensArrow env) then return none
  let cursor ← get
  match ← attempt (arrowHead sub env) with
  | none => return none
  | some (params, isAsync, hasType) =>
    let node ← arrowRest sub env cursor.here.offset isAsync params
    if hasType && env.inConsequent && !(← at? ":") then
      set cursor
      return none
    return some node

/-- A parameter list of one name. -/
def singleParameter (env : Env) : Parser Node := do
  guard ((← token).isReference env)
  let name ← bindingName env
  return ⟨.params, name.span, [⟨.param, name.span, [name]⟩]⟩

/-- An arrow function of one parameter without parentheses, if there is one here. -/
def simpleArrow? (sub : Sub) (env : Env) : Parser (Option Node) := do
  let start ← tokenStart
  if !(← token).isName then return none
  if ← nextIs fun cursor => cursor.token == .punct "=>" && !cursor.newline then
    let params ← singleParameter env
    return some (← arrowRest sub env start false params)
  else if ← atWord? "async" then
    let isArrow ← ahead do
      bump
      guard (!(← onNewLine) && (← token).isName)
      bumpName
      return (← at? "=>") && !(← onNewLine)
    if isArrow then
      bump
      let params ← singleParameter { env with inAsync := true }
      return some (← arrowRest sub env start true params)
    return none
  else return none

/-! ## Assignments -/

/-- The operators that assign. -/
def assignmentMarks : List String :=
  ["=", "+=", "-=", "*=", "/=", "%=", "**=", "<<=", ">>=", ">>>=", "&=", "|=", "^=", "&&=", "||=", "??="]

/-- Whether `yield` has no argument before the current token. -/
def endsYield : Parser Bool := do
  let cursor ← get
  match cursor.token with
  | .endOfText => return true
  | .punct mark => return cursor.newline || [")", "]", "\x7d", ",", ";", ":"].contains mark
  | .word "in" _ => return true
  | _ => return cursor.newline

/-- `yield` and its argument. -/
def yieldExpression (sub : Sub) (env : Env) : Parser Node := do
  let start ← tokenStart
  let inner := { env with inConsequent := false }
  permit env.inGenerator
  expectWord "yield"
  if (← at? "*") && !(← onNewLine) then
    bump
    let argument ← sub inner .assignment
    finish .yieldExpression start [argument]
  else if ← endsYield then finish .yieldExpression start []
  else
    let argument ← sub inner .assignment
    finish .yieldExpression start [argument]

/-- What may follow the operators: an assignment or a conditional. -/
def assignmentRest (sub : Sub) (env : Env) (left : Node) : Parser Node := do
  match wholeMark (← get) with
  | some mark =>
    if assignmentMarks.contains mark then
      let target ← targetOf (if mark == "=" then Node.toTarget? else Node.toSimpleTarget?) left
      bumpMark mark
      let value ← sub env .assignment
      finish (.assign mark) left.span.start [target, value]
    else if mark == "?" then
      bump
      let consequent ← sub { env with allowIn := true, inConsequent := true } .assignment
      expect ":"
      let alternate ← sub env .assignment
      finish .conditional left.span.start [left, consequent, alternate]
    else return left
  | none => return left

/-- An assignment, a conditional, an arrow function or anything that binds more tightly. -/
def assignment (sub : Sub) (env : Env) : Parser Node := do
  if (← atWord? "yield") && (env.inGenerator || (← operatesOnNext)) then yieldExpression sub env
  else
    match ← simpleArrow? sub env with
    | some node => return node
    | none =>
      match ← parenthesizedArrow? sub env with
      | some node => return node
      | none => assignmentRest sub env (← sub env (.binary 1))

end ComponentLint.Script.Grammar
