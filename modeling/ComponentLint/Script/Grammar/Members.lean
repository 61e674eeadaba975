import ComponentLint.Script.Grammar.Literals

/-!
# Members and calls

Expressions that are complete by themselves, and the chains of members and calls that start with them.
-/

namespace ComponentLint.Script.Grammar

/-! ## Primary expressions -/

/-- Expressions joined by commas. -/
def expression (sub : Sub) (env : Env) : Parser Node := do
  let parts ← separated "," (sub env .assignment)
  match parts with
  | [part] => return part
  | first :: _ => finish .sequence first.span.start parts
  | [] => failure

/-- An expression in parentheses. -/
def parenthesized (sub : Sub) (env : Env) : Parser Node := do
  let start ← tokenStart
  expect "("
  let inner ← sub env.inBrackets .expression
  expect ")"
  finish .paren start [inner]

/-- `import(…)`, perhaps in a phase, and `import.meta`. -/
def importExpression (sub : Sub) (env : Env) : Parser Node := do
  let start ← tokenStart
  expectWord "import"
  if ← eat? "." then
    if ← eatWord? "meta" then finish .metaProperty start []
    else
      expectOneOf ["source", "defer"]
      importCall start
  else importCall start
where
  /-- The module and, perhaps, the options of the import in parentheses. -/
  importCall (start : Nat) : Parser Node := do
    expect "("
    let parts ← commaList ")" (sub env.inBrackets .assignment)
    guard (parts.length == 1 || parts.length == 2)
    finish .importCall start parts

/-- Arguments of a call in parentheses. -/
def arguments (sub : Sub) (env : Env) : Parser (List Node) := do
  expect "("
  commaList ")" (spreadable sub env)

/-- An expression that begins with a word. -/
def wordExpression (sub : Sub) (env : Env) (newInstance : Parser Node) (name : String) : Parser Node := do
  let start ← tokenStart
  let leaf (kind : Kind) : Parser Node := do
    bump
    finish kind start []
  match name with
  | "this" => leaf .thisValue
  | "null" => leaf .null
  | "true" => leaf (.boolean true)
  | "false" => leaf (.boolean false)
  | "super" =>
    let node ← leaf .superValue
    guard ((← at? ".") || (← at? "[") || (← at? "("))
    return node
  | "function" => functionAt sub env false
  | "class" => classAt sub env start []
  | "new" => newInstance
  | "import" => importExpression sub env
  | "async" => if ← nextWord? "function" then functionAt sub env false else referenceName env
  | _ => referenceName env

/-- An expression that is complete by itself. -/
def primary (sub : Sub) (env : Env) (newInstance : Parser Node) : Parser Node := do
  let start ← tokenStart
  let leaf (kind : Kind) : Parser Node := do
    bump
    finish kind start []
  match ← token with
  | .word name _ => wordExpression sub env newInstance name
  | .number text => leaf (.number text)
  | .bigint text => leaf (.bigint text)
  | .string value => leaf (.string value)
  | .template .. => template sub env false
  | .punct "(" => parenthesized sub env
  | .punct "[" => array sub env
  | .punct "\x7b" => object sub env
  | .punct "/" => regex
  | .punct "/=" => regex
  | .punct "@" =>
    let before ← decorators sub env
    classAt sub env start before
  | .punct "<" =>
    guard env.dialect.markup
    let node ← sub env .element
    bump
    return node
  | _ => failure

/-! ## Type arguments -/

/-- The words that begin an expression without naming a variable. -/
def expressionWords : List String :=
  ["this", "null", "true", "false", "super", "function", "class", "new", "import", "typeof", "void", "delete"]

/-- Whether the current token may follow type arguments in an expression: a list of types is favoured over comparisons
before a call, a line end, a binary operator, or anything that begins no expression. -/
def followsTypeArguments : Parser Bool := do
  match ← token with
  | .punct "(" => return true
  | .template .. => return true
  | .punct mark =>
    if ["<", "<<", "<=", "<<=", ">", "+", "-"].contains mark then return false
    return (← onNewLine) || !(["[", "\x7b", "!", "~", "++", "--", "/=", "@"].contains mark)
  | .word name _ =>
    return (← onNewLine) || ["in", "instanceof", "as", "satisfies"].contains name ||
      !(isVariableName name || expressionWords.contains name)
  | .endOfText => return true
  | _ => onNewLine

/-- Type arguments in an expression; a comparison may follow from what looks like their end. -/
def expressionTypeArguments (sub : Sub) (env : Env) : Parser Unit := do
  guard env.dialect.typed
  openAngle
  let items ← commaItems ">" (sub env .typeTerm)
  permit !items.isEmpty
  guard !((← get).here.startsWith ">=")
  expect ">"
  guard (← followsTypeArguments)

/-! ## Chains -/

/-- The name or private name after a dot. -/
def memberName (start : Nat) (object : Node) (optional : Bool) : Parser Node := do
  let nameStart ← tokenStart
  match ← token with
  | .word name _ =>
    bumpName
    let nameStop := (← get).previous
    finish (.member name ⟨nameStart, nameStop⟩ optional) start [object]
  | .privateWord name =>
    bump
    finish (.privateMember name optional) start [object]
  | _ => failure

/-- Growing a member chain: the expression so far and whether an optional step occurred. -/
structure Chain where
  node : Node
  isOptional : Bool

/-- A member access that is no call: a name, a key in brackets, a template, a non-null mark. -/
def memberStep (sub : Sub) (env : Env) (chain : Chain) : Parser (Option Chain) := do
  let start := chain.node.span.start
  match ← token with
  | .punct "." =>
    permit (chain.node.kind != .typeApplied)
    bump
    let node ← memberName start chain.node false
    return some { chain with node := node }
  | .punct "[" =>
    if env.inDecorator then return none
    bump
    let key ← sub env.inBrackets .expression
    expect "]"
    return some { chain with node := ← finish (.index false) start [chain.node, key] }
  | .template .. =>
    guard !chain.isOptional
    let quasi ← template sub env true
    return some { chain with node := ← finish .tagged start [chain.node, quasi] }
  | .punct "!" =>
    if env.dialect.typed && !(← onNewLine) then
      bump
      return some { chain with node := ← finish (.typed .nonNull) start [chain.node] }
    return none
  | _ => return none

/-- What follows an optional mark. -/
def optionalStep (sub : Sub) (env : Env) (chain : Chain) : Parser Chain := do
  let start := chain.node.span.start
  expect "?."
  match ← token with
  | .punct "(" =>
    let args ← arguments sub env
    return ⟨← finish (.call true false) start (chain.node :: args), true⟩
  | .punct "[" =>
    bump
    let key ← sub env.inBrackets .expression
    expect "]"
    return ⟨← finish (.index true) start [chain.node, key], true⟩
  | .punct mark =>
    guard (mark == "<" || mark == "<<")
    expressionTypeArguments sub env
    let args ← arguments sub env
    return ⟨← finish (.call true true) start (chain.node :: args), true⟩
  | _ =>
    permit (chain.node.kind != .typeApplied)
    return ⟨← memberName start chain.node true, true⟩

/-- Type arguments and what they are applied to: a call, a template, or the expression itself. -/
def typedStep (sub : Sub) (env : Env) (chain : Chain) : Parser Chain := do
  let start := chain.node.span.start
  expressionTypeArguments sub env
  if ← at? "(" then
    let args ← arguments sub env
    return { chain with node := ← finish (.call false true) start (chain.node :: args) }
  else
    match ← token with
    | .template .. =>
      guard !chain.isOptional
      let quasi ← template sub env true
      return { chain with node := ← finish .tagged start [chain.node, quasi] }
    | _ => return { chain with node := ← finish .typeApplied start [chain.node] }

/-- One more step of a chain of members and calls. -/
def chainStep (sub : Sub) (env : Env) (chain : Chain) : Parser (Option Chain) := do
  match ← token with
  | .punct "?." => return some (← optionalStep sub env chain)
  | .punct "(" =>
    let args ← arguments sub env
    return some { chain with node := ← finish (.call false false) chain.node.span.start (chain.node :: args) }
  | _ =>
    if env.dialect.typed && (← atAngle) then attempt (typedStep sub env chain) else memberStep sub env chain

/-- The callee of `new`: members only. -/
def newCallee (sub : Sub) (env : Env) (newInstance : Parser Node) : Parser Node := do
  let base ← primary sub env newInstance
  guard (base.kind != .importCall)
  let chain ← grow (memberStep sub env) ⟨base, false⟩
  return chain.node

/-- `new`, its callee and its arguments, nested at most `fuel` deep. -/
def newExpression (sub : Sub) (env : Env) : Nat → Parser Node
  | 0 => failure
  | fuel + 1 => do
    let start ← tokenStart
    expectWord "new"
    if ← eat? "." then
      expectWord "target"
      finish .metaProperty start []
    else
      let callee ← newCallee sub env (newExpression sub env fuel)
      guard !(← at? "?.")
      if env.dialect.typed && (← atAngle) then let _ ← attempt (expressionTypeArguments sub env)
      if ← at? "(" then
        let args ← arguments sub env
        finish .newInstance start (callee :: args)
      else finish .newInstance start [callee]

/-- Members and calls; a chain with an optional step is wrapped as a whole. -/
def leftHandSide (sub : Sub) (env : Env) : Parser Node := do
  let base ← primary sub env (newExpression sub env (← bound))
  let chain ← grow (chainStep sub env) ⟨base, false⟩
  if chain.isOptional then
    match chain.node with
    | ⟨.typeApplied, span, [inner]⟩ => return ⟨.typeApplied, span, [⟨.chain, inner.span, [inner]⟩]⟩
    | node => return ⟨.chain, node.span, [node]⟩
  else return chain.node

end ComponentLint.Script.Grammar
