import ComponentLint.Script.Grammar.Functions

/-!
# Classes

The parts of a class are its decorators, name, base, interfaces and members.
-/

namespace ComponentLint.Script.Grammar

/-! ## Members -/

/-- Whether a key is a certain name, written as a word or a string. -/
def isNamed (key : Node × Bool) (name : String) : Bool :=
  !key.2 && match key.1.kind with
    | .propertyName text => text == name
    | .string text => text == name
    | _ => false

/-- The key of a member. A private name is not that of the constructor and has no access modifier. -/
def memberKey (sub : Sub) (env : Env) (given : List String) : Parser (Node × Bool) := do
  let key ← propertyKey sub env
  permit (key.1.kind != .privateName "constructor")
  permit !(isPrivateKey key.1 && given.any accessWords.contains)
  permit !(isNamed key "prototype" && given.contains "static")
  return key

/-- The modifiers that fit a member of the typed dialect or of any dialect. -/
def fittingModifiers (env : Env) (typed untyped : List String) : List String :=
  if env.dialect.typed then typed ++ untyped else untyped

/-- A static block. -/
def staticBlock (sub : Sub) (env : Env) : Parser Node := do
  let start ← tokenStart
  expectWord "static"
  expect "\x7b"
  let statements ← many do
    if ← at? "\x7d" then return none
    return some (← sub { env.within true false with inFunction := false } .item)
  expect "\x7d"
  finish .staticBlock start statements

/-- Whether the constructor begins at the cursor. -/
def atConstructor : Parser Bool := do
  let token ← token
  let isKey := token.isKeyword "constructor" || token == .string "constructor"
  return isKey && ((← nextAt? "(") || (← nextAt? "<"))

/-- The constructor: it has neither type parameters nor a result type nor a parameter for `this`. -/
def constructorMember (sub : Sub) (env : Env) (start : Nat) (before : List Node) (given : List String) :
    Parser Node := do
  permitModifiers (fittingModifiers env accessWords []) given
  let (key, _) ← propertyKey sub env
  let functionStart ← tokenStart
  let inside := env.within false false
  let generic ← typeParameters? sub env
  permit !generic
  permit !(← nextIs (·.token.isKeyword "this"))
  let params ← parameterList sub inside true
  permit !(← at? ":")
  let function ← functionEnd sub env inside functionStart false [params]
  finish .classMember start (before ++ [key, function])

/-- A getter or setter. -/
def accessorMember (sub : Sub) (env : Env) (start : Nat) (before : List Node) (given : List String) : Parser Node := do
  permitModifiers (fittingModifiers env (accessWords ++ ["abstract", "override"]) ["static"]) given
  let isGetter ← atWord? "get"
  bump
  let key ← memberKey sub env given
  permit (given.contains "static" || !(isNamed key "constructor"))
  let function ← accessorFunction sub env isGetter
  finish .classMember start (before ++ [key.1, function])

/-- A method after its key; a decorated one has a body. -/
def methodMember (sub : Sub) (env : Env) (start : Nat) (before : List Node) (given : List String) (isGenerator : Bool)
    (key : Node × Bool) : Parser Node := do
  permitModifiers (fittingModifiers env (accessWords ++ ["abstract", "override"]) ["static", "async"]) given
  permit (given.contains "static" || !(isNamed key "constructor"))
  let function ← methodFunction sub env (given.contains "async") isGenerator
  permit (before.isEmpty || function.children.any (·.kind == .body))
  finish .classMember start (before ++ [key.1, function])

/-- A field after its key. A mark that it is surely set needs a type and excludes a value. -/
def fieldMember (sub : Sub) (env : Env) (start : Nat) (before : List Node) (given : List String) (key : Node × Bool)
    (isOptional : Bool) : Parser Node := do
  permitModifiers
    (fittingModifiers env (accessWords ++ ["abstract", "override", "readonly", "declare"]) ["static", "accessor", "async"])
    given
  permit !(isNamed key "constructor")
  let isDefinite ← if env.dialect.typed && !isOptional && !(← onNewLine) then eat? "!" else pure false
  let isTyped ← typeAnnotated? sub env
  permit (isTyped || !isDefinite)
  let value ← if ← eat? "=" then do
      permit !isDefinite
      let node ← sub { env.within false false with inFunction := false } .assignment
      pure [node]
    else pure []
  semicolon
  finish .classMember start (before ++ [key.1] ++ value)

/-- A member of a class after its decorators and modifiers. -/
def memberRest (sub : Sub) (env : Env) (start : Nat) (before : List Node) (given : List String) : Parser Node := do
  if ← atAccessor then
    accessorMember sub env start before given
  else if !given.contains "static" && (← atConstructor) then constructorMember sub env start before given
  else if env.dialect.typed && (← at? "[") && (← opensIndexSignature) then
    permitModifiers ["readonly", "static"] given
    indexSignature sub env
    semicolon
    finish .typeDeclaration start []
  else
    let isGenerator ← eat? "*"
    let key ← memberKey sub env given
    let isOptional ← if env.dialect.typed then eat? "?" else pure false
    if isGenerator || (← at? "(") || (← at? "<") then methodMember sub env start before given isGenerator key
    else fieldMember sub env start before given key isOptional

/-- A member of a class. -/
def classMember (sub : Sub) (env : Env) : Parser Node := do
  let start ← tokenStart
  let before ← decorators sub env
  let given ← modifiers .member
  if (← atWord? "static") && (← nextAt? "\x7b") then
    permit (before.isEmpty && given.isEmpty)
    staticBlock sub env
  else memberRest sub env start before given

/-- The members of a class in braces. -/
def classMembers (sub : Sub) (env : Env) : Parser (List Node) := do
  expect "\x7b"
  let members ← many do
    let _ ← many do
      if ← eat? ";" then return some ()
      return none
    if ← at? "\x7d" then return none
    return some (← classMember sub env)
  expect "\x7d"
  return members

/-! ## Heads -/

/-- The name of a type or namespace, perhaps with a path and type arguments; its first word refers to a variable. -/
def referredName (sub : Sub) (env : Env) : Parser Node := do
  let node ← referenceName env
  let _ ← many do
    if ← eat? "." then
      let _ ← propertyWord
      return some ()
    return none
  if ← atAngle then typeArguments sub env
  return node

/-- The interfaces a typed class implements. -/
def interfaces (sub : Sub) (env : Env) : Parser (List Node) := do
  if env.dialect.typed && (← atWord? "implements") then
    bump
    separated "," (referredName sub env)
  else return []

/-- A class from its `class` keyword on; decorators have been read. -/
def classAt (sub : Sub) (env : Env) (start : Nat) (before : List Node) : Parser Node := do
  expectWord "class"
  let name ← if (← token).isName && !(← atWord? "implements") then do
    let node ← bindingName env
    pure [node]
  else pure []
  let _ ← typeParameters? sub env
  let base ← if ← eatWord? "extends" then do
    let node ← sub env .leftHandSide
    if env.dialect.typed && (← atAngle) then typeArguments sub env
    pure [node]
  else pure []
  let implemented ← interfaces sub env
  let members ← classMembers sub env
  finish .classDef start (before ++ name ++ base ++ implemented ++ members)

/-- A class declaration, which has a name. -/
def namedClass (sub : Sub) (env : Env) (start : Nat) (before : List Node) : Parser Node := do
  permit (← nextIs fun cursor => cursor.token.isName && !cursor.token.isKeyword "implements")
  classAt sub env start before

/-- A class after its decorators, which may have modifiers in the typed dialect. -/
def modifiedClass (sub : Sub) (env : Env) (start : Nat) (before : List Node) (named : Bool) : Parser Node := do
  permitModifiers (fittingModifiers env ["abstract", "declare"] []) (← modifiers .declaration)
  if named then namedClass sub env start before else classAt sub env start before

end ComponentLint.Script.Grammar
