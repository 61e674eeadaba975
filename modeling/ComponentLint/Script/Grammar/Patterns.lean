import ComponentLint.Script.Grammar.Types

/-!
# Patterns and parameters

The left sides of declarations: names, object and array patterns with defaults, and parameter lists.
-/

namespace ComponentLint.Script.Grammar

/-- A key of an object literal, pattern or class, and whether it is computed. -/
def propertyKey (sub : Sub) (env : Env) : Parser (Node × Bool) := do
  let start ← tokenStart
  match ← token with
  | .word name _ =>
    bumpName
    return (← finish (.propertyName name) start [], false)
  | .string value =>
    bump
    return (← finish (.string value) start [], false)
  | .number text =>
    bump
    return (← finish (.number text) start [], false)
  | .bigint text =>
    bump
    return (← finish (.bigint text) start [], false)
  | .privateWord name =>
    bump
    return (← finish (.privateName name) start [], false)
  | .punct "[" =>
    bump
    let key ← sub env.inBrackets .assignment
    expect "]"
    return (key, true)
  | _ => failure

/-- Whether a key is a private name. -/
def isPrivateKey (key : Node) : Bool :=
  match key.kind with
  | .privateName _ => true
  | _ => false

/-- A key outside a class, where private names are none, and whether it is computed. -/
def publicKey (sub : Sub) (env : Env) : Parser (Node × Bool) := do
  let (key, computed) ← propertyKey sub env
  guard !(isPrivateKey key)
  return (key, computed)

/-- A pattern with its default, if one follows. -/
def patternWithDefault (sub : Sub) (env : Env) : Parser Node := do
  let pattern ← sub env .pattern
  if ← eat? "=" then
    let value ← sub env.inBrackets .assignment
    finish .defaultPattern pattern.span.start [pattern, value]
  else return pattern

/-- One property of an object pattern. -/
def patternProperty (sub : Sub) (env : Env) : Parser Node := do
  let start ← tokenStart
  let isName := (← token).isName
  let (key, computed) ← publicKey sub env
  if ← eat? ":" then
    let value ← patternWithDefault sub env
    finish (.patternProperty computed) start [key, value]
  else
    guard isName
    match key.kind with
    | .propertyName name =>
      let pattern : Node := ⟨.binding name, key.span, []⟩
      if ← eat? "=" then
        let value ← sub env.inBrackets .assignment
        let whole ← finish .defaultPattern start [pattern, value]
        finish (.patternProperty false) start [key, whole]
      else finish (.patternProperty false) start [key, pattern]
    | _ => failure

/-- The rest of an object or array pattern, which must come last; that of an object is a plain name. -/
def restPattern (sub : Sub) (env : Env) (close : String) : Parser Node := do
  let start ← tokenStart
  expect "..."
  let pattern ← sub env .pattern
  guard (← at? close)
  permit (close == "]" || pattern.isBinding)
  finish .restPattern start [pattern]

/-- An object pattern. -/
def objectPattern (sub : Sub) (env : Env) : Parser Node := do
  let start ← tokenStart
  expect "\x7b"
  let parts ← commaList "\x7d" do
    if ← at? "..." then restPattern sub env "\x7d" else patternProperty sub env
  finish .objectPattern start parts

/-- An array pattern. -/
def arrayPattern (sub : Sub) (env : Env) : Parser Node := do
  let start ← tokenStart
  expect "["
  let parts ← many do
    let here ← tokenStart
    if ← at? "]" then return none
    if ← eat? "," then return some (Node.leaf .absent ⟨here, here⟩)
    let part ← if ← at? "..." then restPattern sub env "]" else patternWithDefault sub env
    unless ← at? "]" do expect ","
    return some part
  expect "]"
  finish .arrayPattern start parts

/-- A pattern. -/
def pattern (sub : Sub) (env : Env) : Parser Node := do
  match ← token with
  | .punct "\x7b" => objectPattern sub env
  | .punct "[" => arrayPattern sub env
  | _ => bindingName env

/-! ## Decorators -/

/-- A decorator, which is no optional chain. -/
def decorator (sub : Sub) (env : Env) : Parser Node := do
  let start ← tokenStart
  expect "@"
  let expression ← sub { env with inDecorator := true } .leftHandSide
  permit (expression.kind != .chain)
  finish .decorator start [expression]

/-- The decorators at this place. -/
def decorators (sub : Sub) (env : Env) : Parser (List Node) :=
  many do
    if ← at? "@" then return some (← decorator sub env)
    return none

/-! ## Parameters -/

/-- The modifiers that fit a parameter: in a constructor they make it a field. -/
def parameterModifiers (env : Env) (ofConstructor : Bool) : List String :=
  if !env.dialect.typed then []
  else if ofConstructor then accessWords ++ ["override", "readonly"]
  else ["readonly"]

/-- A parameter that takes the rest of the arguments. It comes last, and a comma may follow it in a declaration without
a body only. -/
def restParameter (sub : Sub) (env : Env) : Parser Node := do
  let start ← tokenStart
  expect "..."
  let pattern ← sub env .pattern
  let node ← finish .restParam start [pattern]
  let _ ← typeAnnotated? sub env
  if (← at? ",") && (← nextAt? ")") then
    permit env.ambient
    bump
  guard (← at? ")")
  return node

/-- One parameter: its decorators, pattern and default. An optional parameter has no default, and a field is a plain
name. -/
def parameter (sub : Sub) (env : Env) (ofConstructor : Bool) : Parser Node := do
  let start ← tokenStart
  let before ← decorators sub env
  let given ← modifiers .parameter
  permitModifiers (parameterModifiers env ofConstructor) given
  if ← at? "..." then
    permit given.isEmpty
    restParameter sub env
  else
    let pattern ← sub env .pattern
    permit (given.isEmpty || pattern.isBinding)
    let isOptional ← if env.dialect.typed then eat? "?" else pure false
    let _ ← typeAnnotated? sub env
    if ← eat? "=" then
      permit !isOptional
      let value ← sub env.inBrackets .assignment
      finish .param start (before ++ [pattern, value])
    else finish .param start (before ++ [pattern])

/-- A typed parameter for `this`, which declares nothing. -/
def thisParameter (sub : Sub) (env : Env) : Parser Unit := do
  if env.dialect.typed && (← atWord? "this") then
    bump
    let _ ← typeAnnotated? sub env
    unless ← at? ")" do expect ","

/-- A parameter list in parentheses. -/
def parameterList (sub : Sub) (env : Env) (ofConstructor : Bool) : Parser Node := do
  let start ← tokenStart
  expect "("
  thisParameter sub env
  let parts ← commaList ")" (parameter sub env ofConstructor)
  finish .params start parts

/-- The parameters of anything but a constructor. -/
def parameters (sub : Sub) (env : Env) : Parser Node :=
  parameterList sub env false

end ComponentLint.Script.Grammar
