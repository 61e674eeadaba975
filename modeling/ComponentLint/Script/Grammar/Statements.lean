import ComponentLint.Script.Grammar.Declarations

/-!
# Statements

A statement ends at a semicolon, before a closing brace, at a line break or at the end of the text.
-/

namespace ComponentLint.Script.Grammar

/-! ## Blocks and loops -/

/-- A block. -/
def block (sub : Sub) (env : Env) : Parser Node := do
  let start ← tokenStart
  expect "\x7b"
  let statements ← many do
    if ← at? "\x7d" then return none
    return some (← sub env .item)
  expect "\x7d"
  finish .block start statements

/-- An expression in parentheses after a keyword. -/
def condition (sub : Sub) (env : Env) : Parser Node := do
  expect "("
  let test ← sub env.inBrackets .expression
  expect ")"
  return test

/-- An `if` statement. -/
def ifStatement (sub : Sub) (env : Env) : Parser Node := do
  let start ← tokenStart
  expectWord "if"
  let test ← condition sub env
  let consequent ← sub env .statement
  if ← eatWord? "else" then
    let alternate ← sub env .statement
    finish .ifStatement start [test, consequent, alternate]
  else finish .ifStatement start [test, consequent]

/-- The parts of a counting loop after its initializer, and its body. -/
def forLoopRest (sub : Sub) (env : Env) (start : Nat) (first : Node) : Parser Node := do
  let hole : Parser Node := do
    let here ← tokenStart
    return Node.leaf .absent ⟨here, here⟩
  expect ";"
  let test ← if ← at? ";" then hole else sub env.inBrackets .expression
  expect ";"
  let change ← if ← at? ")" then hole else sub env.inBrackets .expression
  expect ")"
  let body ← sub env .statement
  finish .forLoop start [first, test, change, body]

/-- The source and body of a loop over keys or items, after its left side. -/
def forEachRest (sub : Sub) (env : Env) (start : Nat) (left : Node) : Parser Node := do
  if ← eatWord? "of" then
    let right ← sub env.inBrackets .assignment
    expect ")"
    let body ← sub env .statement
    finish .forOf start [left, right, body]
  else
    expectWord "in"
    permit (left.kind != .variables .usingKeyword)
    let right ← sub env.inBrackets .expression
    expect ")"
    let body ← sub env .statement
    finish .forIn start [left, right, body]

/-- Whether a loop over keys or items goes on here. -/
def atForEach : Parser Bool := do
  return (← atWord? "of") || (← atWord? "in")

/-- The keyword that begins a declaration in the head of a loop, if there is one; an `await` before it is passed. -/
def headKeyword? : Parser (Option VariableKind) := do
  if ← declaresAwaited true then bump
  if ← declaresResource true then return some .usingKeyword
  match ← token with
  | .word "var" _ => return some .varKeyword
  | .word "const" _ => return some .constKeyword
  | .word "let" false =>
    let declares ← nextIs fun cursor =>
      (cursor.token.isWord && !cursor.token.isKeyword "in") || cursor.token == .punct "[" || cursor.token == .punct "\x7b"
    return if declares then some .letKeyword else none
  | _ => return none

/-- A `for` statement whose head begins with a declaration; its keyword is at the cursor. -/
def forDeclaration (sub : Sub) (env head : Env) (start here : Nat) (awaits : Bool) (kind : VariableKind) :
    Parser Node := do
  bump
  let parts ← declarators sub head kind
  let left ← finish (.variables kind) here parts
  if ← atForEach then
    permit (!awaits || (← atWord? "of"))
    forEachRest sub env start left
  else
    permit !awaits
    permitMissingValues env kind parts
    forLoopRest sub env start left

/-- A `for` statement whose head begins with an expression. -/
def forExpression (sub : Sub) (env head : Env) (start : Nat) (awaits : Bool) : Parser Node := do
  let isAsync := (← token) == .word "async" false
  let left ← sub head .expression
  if ← atForEach then
    permit (!awaits || (← atWord? "of"))
    permit !(isAsync && !awaits && left.kind == .identifier "async" && (← atWord? "of"))
    let target ← targetOf Node.toTarget? left
    forEachRest sub env start target
  else
    permit !awaits
    forLoopRest sub env start left

/-- A `for` statement. -/
def forStatement (sub : Sub) (env : Env) : Parser Node := do
  let start ← tokenStart
  expectWord "for"
  let awaits ← eatWord? "await"
  permit (env.inAsync || !awaits)
  expect "("
  let head := { env with allowIn := false, inConsequent := false }
  let here ← tokenStart
  if ← at? ";" then
    permit !awaits
    forLoopRest sub env start (Node.leaf .absent ⟨here, here⟩)
  else
    match ← headKeyword? with
    | some kind => forDeclaration sub env head start here awaits kind
    | none => forExpression sub env head start awaits

/-- A `while` statement. -/
def whileStatement (sub : Sub) (env : Env) : Parser Node := do
  let start ← tokenStart
  expectWord "while"
  let test ← condition sub env
  let body ← sub env .statement
  finish .whileLoop start [test, body]

/-- A `do` statement; its semicolon may always be left out. -/
def doStatement (sub : Sub) (env : Env) : Parser Node := do
  let start ← tokenStart
  expectWord "do"
  let body ← sub env .statement
  expectWord "while"
  let test ← condition sub env
  let _ ← eat? ";"
  finish .doWhile start [body, test]

/-! ## Jumps -/

/-- Whether the statement at the cursor has ended. -/
def statementEnds : Parser Bool := do
  let cursor ← get
  return cursor.newline || cursor.token == .punct ";" || cursor.token == .punct "\x7d" || cursor.token == .endOfText

/-- `break` or `continue` with an optional label. -/
def jumpStatement (env : Env) : Parser Node := do
  let start ← tokenStart
  bump
  unless ← statementEnds do let _ ← referenceName env
  semicolon
  finish .jump start []

/-- A `return` statement. -/
def returnStatement (sub : Sub) (env : Env) : Parser Node := do
  let start ← tokenStart
  permit env.inFunction
  expectWord "return"
  let value ← if ← statementEnds then pure [] else do
    let node ← sub env.inBrackets .expression
    pure [node]
  semicolon
  finish .returnStatement start value

/-- A `throw` statement. -/
def throwStatement (sub : Sub) (env : Env) : Parser Node := do
  let start ← tokenStart
  expectWord "throw"
  guard !(← onNewLine)
  let value ← sub env.inBrackets .expression
  semicolon
  finish .throwStatement start [value]

/-! ## Handlers and cases -/

/-- The handler of a `try` statement. -/
def catchClause (sub : Sub) (env : Env) : Parser Node := do
  let start ← tokenStart
  expectWord "catch"
  let param ← if ← eat? "(" then do
      let node ← sub env .pattern
      let _ ← typeAnnotated? sub env
      expect ")"
      pure [node]
    else pure []
  let body ← block sub env
  finish .catchClause start (param ++ [body])

/-- A `try` statement. -/
def tryStatement (sub : Sub) (env : Env) : Parser Node := do
  let start ← tokenStart
  expectWord "try"
  let body ← block sub env
  let handler ← if ← atWord? "catch" then do
      let node ← catchClause sub env
      pure [node]
    else pure []
  let finalizer ← if ← eatWord? "finally" then do
      let node ← block sub env
      pure [node]
    else pure []
  permit !(handler.isEmpty && finalizer.isEmpty)
  finish .tryStatement start (body :: (handler ++ finalizer))

/-- One case of a `switch` statement. -/
def switchCase (sub : Sub) (env : Env) : Parser Node := do
  let start ← tokenStart
  let test ← if ← eatWord? "default" then pure [] else do
    expectWord "case"
    let node ← sub env.inBrackets .expression
    pure [node]
  expect ":"
  let statements ← many do
    if (← at? "\x7d") || (← atWord? "case") || (← atWord? "default") then return none
    return some (← sub env .item)
  finish .switchCase start (test ++ statements)

/-- A `switch` statement. -/
def switchStatement (sub : Sub) (env : Env) : Parser Node := do
  let start ← tokenStart
  expectWord "switch"
  let subject ← condition sub env
  expect "\x7b"
  let cases ← many do
    if ← at? "\x7d" then return none
    return some (← switchCase sub env)
  expect "\x7d"
  finish .switchStatement start (subject :: cases)

/-- A `with` statement. -/
def withStatement (sub : Sub) (env : Env) : Parser Node := do
  let start ← tokenStart
  expectWord "with"
  let subject ← condition sub env
  let body ← sub env .statement
  finish .withStatement start [subject, body]

/-! ## The statement at the cursor -/

/-- The end of a statement that is an expression. -/
def expressionEnd (start : Nat) (value : Node) : Parser Node := do
  semicolon
  finish .expressionStatement start [value]

/-- An expression as a statement, or a label and its statement. -/
def expressionStatement (sub : Sub) (env : Env) : Parser Node := do
  let start ← tokenStart
  let value ← sub env.inBrackets .expression
  let isName := match value.kind with
    | .identifier _ => true
    | _ => false
  if isName && (← at? ":") then
    bump
    let body ← sub env .statement
    finish .labeled start [body]
  else expressionEnd start value

/-- A statement that begins with `let`. -/
def letStatement (sub : Sub) (env : Env) (alone : Bool) : Parser Node := do
  let start ← tokenStart
  match ← letRole alone with
  | .declaration =>
    permit !alone
    variableStatement sub env start .letKeyword
  | .operand => expressionEnd start (← sub env.inBrackets .assignment)
  | .base => expressionEnd start (← sub env.inBrackets .expression)
  | .name => expressionEnd start (← referenceName env)

/-- A function declaration; one that stands alone neither awaits nor yields. -/
def functionStatement (sub : Sub) (env : Env) (alone : Bool) : Parser Node := do
  let isSpecial ← ahead do
    if ← eatWord? "async" then return true
    bump
    at? "*"
  permit !(alone && isSpecial)
  namedFunction sub env

/-- A statement that begins with a keyword which begins nothing else. -/
def keywordStatement? (sub : Sub) (env : Env) (word : String) : Parser (Option Node) := do
  let start ← tokenStart
  match word with
  | "if" => return some (← ifStatement sub env)
  | "for" => return some (← forStatement sub env)
  | "while" => return some (← whileStatement sub env)
  | "do" => return some (← doStatement sub env)
  | "break" => return some (← jumpStatement env)
  | "continue" => return some (← jumpStatement env)
  | "debugger" =>
    bump
    semicolon
    return some (← finish .jump start [])
  | "return" => return some (← returnStatement sub env)
  | "throw" => return some (← throwStatement sub env)
  | "try" => return some (← tryStatement sub env)
  | "switch" => return some (← switchStatement sub env)
  | "with" => return some (← withStatement sub env)
  | _ => return none

/-- A declaration that every dialect has, or else an expression. What declares in its block only must not stand alone. -/
def wordStatement (sub : Sub) (env : Env) (alone : Bool) (word : String) (escaped : Bool) : Parser Node := do
  let start ← tokenStart
  match word with
  | "var" => variableStatement sub env start .varKeyword
  | "const" =>
    permit !alone
    variableStatement sub env start .constKeyword
  | "let" => if escaped then expressionStatement sub env else letStatement sub env alone
  | "class" =>
    permit !alone
    namedClass sub env start []
  | "function" => functionStatement sub env alone
  | "async" => if ← nextWord? "function" then functionStatement sub env alone else expressionStatement sub env
  | _ =>
    let awaited ← declaresAwaited false
    if awaited then bump
    if awaited || (← declaresResource false) then
      permit (!alone && (env.inAsync || !awaited))
      variableStatement sub env start .usingKeyword
    else expressionStatement sub env

/-- A declaration or statement, in a list or alone. -/
def statementAt (sub : Sub) (env : Env) (alone : Bool) : Parser Node := do
  let start ← tokenStart
  match ← token with
  | .punct "\x7b" => block sub env
  | .punct ";" =>
    bump
    finish .empty start []
  | .punct "@" =>
    permit !alone
    let before ← decorators sub env
    modifiedClass sub env start before true
  | .word name escaped =>
    if ← atTypedDeclaration env then typedDeclaration sub env
    else
      match ← keywordStatement? sub env name with
      | some node => return node
      | none => wordStatement sub env alone name escaped
  | _ => expressionStatement sub env

end ComponentLint.Script.Grammar
