import ComponentLint.Script.Grammar.Modifiers

/-!
# Types

Types are read for their extent and for their faults only; what they say does not run.
-/

namespace ComponentLint.Script.Grammar

/-- A node that stands for a type. -/
def typeNode (start : Nat) : Parser Node :=
  finish .typeDeclaration start []

/-! ## Angle brackets -/

/-- Whether an angle bracket opens here, be it the first half of a shift operator. -/
def atAngle : Parser Bool := do
  return (← at? "<") || (← at? "<<")

/-- Moves past an opening angle bracket. -/
def openAngle : Parser Unit := do
  guard (← atAngle)
  modify fun cursor => { cursor with after := cursor.here.next }
  bump

/-- A list of type parameters in angle brackets, which must not be empty. -/
def typeParameters (sub : Sub) (env : Env) : Parser Unit := do
  openAngle
  let names ← commaList ">" do
    permitModifiers ["const", "in", "out"] (← modifiers .typeParameter)
    let name ← bindingName env
    if ← eatWord? "extends" then let _ ← sub env .typeTerm
    if ← eat? "=" then let _ ← sub env .typeTerm
    return name
  permit !names.isEmpty

/-- Type parameters, if there are any. -/
def typeParameters? (sub : Sub) (env : Env) : Parser Bool := do
  if env.dialect.typed && (← at? "<") then
    typeParameters sub env
    return true
  return false

/-- A list of type arguments in angle brackets, which must not be empty. -/
def typeArguments (sub : Sub) (env : Env) : Parser Unit := do
  openAngle
  let items ← commaList ">" (sub env .typeTerm)
  permit !items.isEmpty

/-- Type arguments, if there are any on the same line. -/
def typeArguments? (sub : Sub) (env : Env) : Parser Unit := do
  if (← atAngle) && !(← onNewLine) then typeArguments sub env

/-! ## Annotations -/

/-- A type after a colon, if there is one. -/
def typeAnnotated? (sub : Sub) (env : Env) : Parser Bool := do
  if env.dialect.typed then
    if ← eat? ":" then
      let _ ← sub env .typeTerm
      return true
  return false

/-- The type of a result: a type, or a claim about a parameter. -/
def resultType (sub : Sub) (env : Env) : Parser Unit := do
  let claim : Parser Unit := do
    let _ ← propertyWord
    guard ((← atWord? "is") && !(← onNewLine))
    bump
  let _ ← attempt claim
  let _ ← sub env .typeTerm

/-- The result type of a function, if it is written. -/
def resultType? (sub : Sub) (env : Env) : Parser Bool := do
  if env.dialect.typed then
    if ← eat? ":" then
      resultType sub env
      return true
  return false

/-! ## Function types -/

/-- Whether a parameter begins at the cursor; if so, its name or pattern is passed. -/
def skipParameterStart (sub : Sub) (env : Env) : Parser Bool := do
  let _ ← modifiers .parameter
  let token ← token
  if token.isPlainName || token.isKeyword "this" then
    bumpName
    return true
  else if token == .punct "[" || token == .punct "\x7b" then
    let _ ← sub env .pattern
    return !(← get).notes.flawed
  else return false

/-- Whether an opening parenthesis starts the parameters of a function type. -/
def opensFunctionType (sub : Sub) (env : Env) : Parser Bool :=
  ahead do
    expect "("
    if (← at? ")") || (← at? "...") then return true
    modify fun cursor => { cursor with notes := { cursor.notes with flawed := false } }
    guard (← skipParameterStart sub env)
    match ← token with
    | .punct ")" =>
      bump
      at? "=>"
    | .punct mark => return [":", ",", "?", "="].contains mark
    | _ => return false

/-- Whether a function type begins here. -/
def atFunctionType (sub : Sub) (env : Env) : Parser Bool := do
  if (← at? "<") || (← atWord? "new") then return true
  if ← at? "(" then opensFunctionType sub env
  else return (← atWord? "abstract") && (← nextIs (·.token.isKeyword "new"))

/-- A function type, with an optional `new` before it. -/
def functionType (sub : Sub) (env : Env) : Parser Unit := do
  let _ ← eatWord? "abstract"
  let _ ← eatWord? "new"
  let _ ← typeParameters? sub env
  let _ ← sub env .parameters
  expect "=>"
  resultType sub env

/-! ## Object types -/

/-- The end of a member of an object type. -/
def typeMemberEnd : Parser Unit := do
  if ← eatOneOf? [";", ","] then return
  guard ((← onNewLine) || (← at? "\x7d"))

/-- Parameters and result of a method in an object type. -/
def signature (sub : Sub) (env : Env) : Parser Unit := do
  let _ ← typeParameters? sub env
  let _ ← sub env .parameters
  let _ ← resultType? sub env

/-- Whether a bracket opens an index signature rather than a computed key. -/
def opensIndexSignature : Parser Bool :=
  ahead do
    expect "["
    if (← at? "...") || (← at? "]") then return true
    match ← token with
    | .word name _ =>
      bumpName
      if modifierWords.contains name && (← token).isPlainName then return true
      guard ((Token.word name false).isPlainName)
    | _ => failure
    if (← at? ":") || (← at? ",") then return true
    expect "?"
    return (← at? ":") || (← at? ",") || (← at? "]")

/-- An index signature up to its end: one parameter with a type, and the type of what it finds. -/
def indexSignature (sub : Sub) (env : Env) : Parser Unit := do
  expect "["
  let _ ← bindingName env
  guard (← typeAnnotated? sub env)
  expect "]"
  guard (← typeAnnotated? sub env)

/-- The key of a member of an object type; private names are none. -/
def typeMemberKey (sub : Sub) (env : Env) : Parser Unit := do
  if ← eat? "[" then
    let _ ← sub env.inBrackets .assignment
    expect "]"
  else
    let token ← token
    guard (token.isWord || token.isScalar)
    bumpName

/-- A member of an object type with a key: an accessor, a method or a property. -/
def keyedMember (sub : Sub) (env : Env) (given : List String) : Parser Unit := do
  if ← atAccessor then
    bump
    typeMemberKey sub env
    permitModifiers [] given
    signature sub env
  else
    typeMemberKey sub env
    let _ ← eat? "?"
    if (← at? "(") || (← at? "<") then
      permitModifiers [] given
      signature sub env
    else
      permitModifiers ["readonly"] given
      let _ ← typeAnnotated? sub env

/-- A member of an object type. -/
def typeMember (sub : Sub) (env : Env) : Parser Unit := do
  if (← at? "(") || (← at? "<") then signature sub env
  else if (← atWord? "new") && ((← nextAt? "(") || (← nextAt? "<")) then
    bump
    signature sub env
  else
    let given ← modifiers .member
    if (← at? "[") && (← opensIndexSignature) then
      permitModifiers ["readonly"] given
      indexSignature sub env
    else keyedMember sub env given
  typeMemberEnd

/-- An object type between braces. -/
def objectType (sub : Sub) (env : Env) : Parser Unit := do
  expect "\x7b"
  let _ ← many do
    if ← at? "\x7d" then return none
    typeMember sub env
    return some ()
  expect "\x7d"

/-- Whether a brace opens a mapped type. -/
def opensMappedType : Parser Bool :=
  ahead do
    expect "\x7b"
    if ← eatOneOf? ["+", "-"] then return ← atWord? "readonly"
    let _ ← eatWord? "readonly"
    expect "["
    guard (← token).isWord
    bumpName
    atWord? "in"

/-- A mapped type: one key that ranges over a type. -/
def mappedType (sub : Sub) (env : Env) : Parser Unit := do
  expect "\x7b"
  if ← eatOneOf? ["+", "-"] then expectWord "readonly"
  else let _ ← eatWord? "readonly"
  expect "["
  let _ ← propertyWord
  expectWord "in"
  let _ ← sub env .typeTerm
  if ← eatWord? "as" then let _ ← sub env .typeTerm
  expect "]"
  if ← eatOneOf? ["+", "-"] then expect "?"
  else let _ ← eat? "?"
  let _ ← typeAnnotated? sub env
  semicolon
  expect "\x7d"

/-! ## Other types without an operator -/

/-- One element of a tuple type. -/
def tupleElement (sub : Sub) (env : Env) : Parser Unit := do
  let _ ← eat? "..."
  let named : Parser Unit := do
    let _ ← propertyWord
    let _ ← eat? "?"
    expect ":"
  let _ ← attempt named
  let _ ← sub env .typeTerm

/-- A dotted name. -/
def dottedName : Parser Unit := do
  let _ ← separated "." propertyWord

/-- A dotted name with type arguments. -/
def typeName (sub : Sub) (env : Env) : Parser Unit := do
  dottedName
  typeArguments? sub env

/-- The types between the parts of a template. -/
def templateType (sub : Sub) (env : Env) : Parser Unit := do
  let done ← grow (fun last => do
    if last then return none
    let _ ← sub env .typeTerm
    let cursor ← get
    guard (cursor.token == .punct "\x7d")
    let (part, after) := readTemplate cursor.after
    match part with
    | .template text last =>
      permit text.isSome
      modify fun cursor => { cursor with token := part, after := after }
      bump
      return some last
    | _ => failure) (← startTemplate)
  guard done
where
  /-- Whether the first part of the template is also its last; it is passed. -/
  startTemplate : Parser Bool := do
    match ← token with
    | .template text last =>
      permit text.isSome
      bump
      return last
    | _ => failure

/-- The type of another module: its name, perhaps with attributes. -/
def importType (sub : Sub) (env : Env) : Parser Unit := do
  expectWord "import"
  expect "("
  match ← token with
  | .string _ => bump
  | _ => failure
  if ← eat? "," then
    if ← at? "\x7b" then
      let _ ← sub env.inBrackets .assignment
      let _ ← eat? ","
  expect ")"
  if ← eat? "." then dottedName
  typeArguments? sub env

/-- The words for types that take no arguments. -/
def basicTypes : List String :=
  ["any", "unknown", "string", "number", "bigint", "symbol", "boolean", "undefined", "never", "object"]

/-- A type that needs no operator; the value tells whether it is a tuple. -/
def primaryType (sub : Sub) (env : Env) : Parser Bool := do
  match ← token with
  | .punct "(" =>
    bump
    let _ ← sub env .typeTerm
    expect ")"
    return false
  | .punct "\x7b" =>
    if ← opensMappedType then mappedType sub env else objectType sub env
    return false
  | .punct "[" =>
    bump
    let _ ← commaList "]" (tupleElement sub env)
    return true
  | .punct "-" =>
    bump
    match ← token with
    | .number _ => bump
    | .bigint _ => bump
    | _ => failure
    return false
  | .punct mark =>
    guard (mark == "?" || mark == "!")
    bump
    let next ← token
    let isUnknown := mark == "?" && [",", "\x7d", ")", ">", "=", "|"].any fun mark => next == .punct mark
    unless isUnknown do let _ ← sub env .typeTerm
    return false
  | .template .. =>
    templateType sub env
    return false
  | .word name _ =>
    namedType name
    return false
  | other =>
    guard other.isScalar
    bump
    return false
where
  /-- A type that begins with a word. -/
  namedType (name : String) : Parser Unit := do
    if name == "typeof" then
      bump
      if ← atWord? "import" then importType sub env else typeName sub env
    else if name == "import" then importType sub env
    else if name == "asserts" && (← nextIs fun cursor =>
        !cursor.newline && (cursor.token.isPlainName || cursor.token.isKeyword "this")) then
      bump
      bumpName
      claim
    else if name == "this" then
      bump
      claim
    else if ["void", "null", "true", "false"].contains name then bump
    else if basicTypes.contains name && !(← nextAt? ".") then bump
    else typeName sub env
  /-- What is claimed about a value, if something is. -/
  claim : Parser Unit := do
    if (← atWord? "is") && !(← onNewLine) then
      bump
      let _ ← sub env .typeTerm

/-! ## Operators -/

/-- The words that begin a type although they name none. -/
def typeWords : List String := ["void", "null", "this", "typeof", "new", "true", "false", "import", "function"]

/-- Whether a type may begin at the cursor, under at most `fuel` parentheses. -/
def beginsType : Nat → Parser Bool
  | 0 => return false
  | fuel + 1 => do
    match ← token with
    | .punct "(" =>
      ahead do
        bump
        match ← token with
        | .punct mark =>
          if [")", "...", "[", "\x7b", "@"].contains mark then return true
          beginsType fuel
        | .word name _ => return isVariableName name || modifierWords.contains name || (← beginsType fuel)
        | _ => beginsType fuel
    | .punct "-" =>
      nextIs fun cursor => match cursor.token with
        | .number _ => true
        | .bigint _ => true
        | _ => false
    | .punct mark => return ["\x7b", "[", "<", "|", "&", "*", "?", "!", "..."].contains mark
    | .word name escaped =>
      return (Token.word name escaped).isPlainName || typeWords.contains name
    | other => return other.isScalar || other.isTemplate

/-- Whether a type may begin at the cursor. -/
def atType : Parser Bool := do
  beginsType (← bound)

/-- Brackets and marks after a type, which stand on the same line; the value tells whether the type is an array or a
tuple. -/
def postfixedType (sub : Sub) (env : Env) : Parser Bool := do
  let env := { env with allowCondition := true }
  grow (fun _ => do
    if ← onNewLine then return none
    match ← token with
    | .punct "!" =>
      bump
      return some false
    | .punct "?" =>
      let isOperator ← ahead do
        bump
        atType
      if isOperator then return none
      bump
      return some false
    | .punct "[" =>
      bump
      if ← eat? "]" then return some true
      let _ ← sub env .typeTerm
      expect "]"
      return some false
    | _ => return none) (← primaryType sub env)

/-- The words that stand before a type. -/
def typeOperators : List String := ["keyof", "unique", "readonly"]

/-- A name for a part of a type, which may have a bound. Before a question mark the bound is the test of a condition. -/
def inferredType (sub : Sub) (env : Env) : Parser Unit := do
  expectWord "infer"
  let _ ← bindingName env
  let _ ← attempt do
    expectWord "extends"
    let _ ← sub { env with allowCondition := false } .typeTerm
    guard (!env.allowCondition || !(← at? "?"))

/-- A type with the operators before it. Only an array or a tuple can be made read-only. -/
def operatorType (sub : Sub) (env : Env) : Parser Unit := do
  let operators ← many do
    match ← token with
    | .word name _ =>
      if typeOperators.contains name then
        bump
        return some name
      return none
    | _ => return none
  let isList ← if ← atWord? "infer" then do
      inferredType sub env
      pure false
    else postfixedType sub env
  permit !(operators.dropLast.contains "readonly")
  permit (isList || operators.getLast? != some "readonly")

/-- Types joined by `&`. -/
def intersectionType (sub : Sub) (env : Env) : Parser Unit := do
  let _ ← eat? "&"
  let _ ← separated "&" (operatorType sub env)

/-- Types joined by `|`. -/
def unionType (sub : Sub) (env : Env) : Parser Unit := do
  let _ ← eat? "|"
  let _ ← separated "|" (intersectionType sub env)

/-- A function type, or a union with a condition if there is one. -/
def typeTerm (sub : Sub) (env : Env) : Parser Node := do
  let start ← tokenStart
  if ← atFunctionType sub env then functionType sub env
  else
    unionType sub env
    if env.allowCondition && (← atWord? "extends") && !(← onNewLine) then
      bump
      let _ ← sub { env with allowCondition := false } .typeTerm
      expect "?"
      let _ ← sub env .typeTerm
      expect ":"
      let _ ← sub env .typeTerm
  typeNode start

end ComponentLint.Script.Grammar
