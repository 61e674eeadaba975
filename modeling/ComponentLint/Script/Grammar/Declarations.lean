import ComponentLint.Script.Grammar.Variables

/-!
# Declarations of the typed dialect

Interfaces, type aliases, enumerations, namespaces, and anything that modifiers stand before.
-/

namespace ComponentLint.Script.Grammar

/-- An interface. -/
def interfaceDeclaration (sub : Sub) (env : Env) (start : Nat) : Parser Node := do
  expectWord "interface"
  let _ ← bindingName env
  let _ ← typeParameters? sub env
  if ← eatWord? "extends" then
    let _ ← separated "," (typeName sub env)
  objectType sub env
  finish .typeDeclaration start []

/-- A type alias. -/
def aliasDeclaration (sub : Sub) (env : Env) (start : Nat) : Parser Node := do
  expectWord "type"
  let _ ← bindingName env
  let _ ← typeParameters? sub env
  expect "="
  let _ ← sub env .typeTerm
  semicolon
  finish .typeDeclaration start []

/-- Whether a key may name a member of an enumeration: a word or a text that is known beforehand. -/
def namesEnumMember (key : Node × Bool) : Bool :=
  match key.1.kind with
  | .propertyName _ => true
  | .string _ => true
  | .template (some _) => key.2
  | _ => false

/-- An enumeration; its initializers run. -/
def enumDeclaration (sub : Sub) (env : Env) (start : Nat) : Parser Node := do
  expectWord "enum"
  let _ ← bindingName env
  expect "\x7b"
  let values ← commaList "\x7d" do
    let key ← propertyKey sub env
    guard (namesEnumMember key)
    if ← eat? "=" then return [← sub env.inBrackets .assignment]
    return []
  finish .enumeration start values.flatten

/-- The statements of a namespace or module, between braces. -/
def moduleBody (sub : Sub) (env : Env) : Parser (List Node) := do
  expect "\x7b"
  let statements ← many do
    if ← at? "\x7d" then return none
    return some (← sub env .moduleItem)
  expect "\x7d"
  return statements

/-- A namespace or an ambient module. -/
def moduleDeclaration (sub : Sub) (env : Env) (start : Nat) : Parser Node := do
  expectOneOf ["namespace", "module"]
  match ← token with
  | .string _ =>
    bump
    if ← at? "\x7b" then finish .moduleBlock start (← moduleBody sub env)
    else
      semicolon
      finish .moduleBlock start []
  | _ =>
    let _ ← bindingName env
    let _ ← many do
      if ← eat? "." then
        let _ ← propertyWord
        return some ()
      return none
    finish .moduleBlock start (← moduleBody sub env)

/-! ## Modifiers before a declaration -/

/-- The words that may stand before a declaration. -/
def declarationWords : List String :=
  ["abstract", "accessor", "async", "declare", "private", "protected", "public", "readonly"]

/-- Whether a declaration follows the modifiers at the cursor, if there are any. -/
def atDeclaration : Parser Bool :=
  ahead do
    let _ ← many do
      match ← token with
      | .word name _ =>
        if name == "static" then
          bumpName
          return some ()
        else if declarationWords.contains name then
          bumpName
          guard !(← onNewLine)
          return some ()
        else return none
      | _ => return none
    match ← token with
    | .word name _ =>
      if ["var", "let", "const", "function", "class", "enum"].contains name then return true
      bumpName
      let next ← token
      let isNear := !(← onNewLine)
      match name with
      | "interface" => return isNear && next.isName
      | "type" => return isNear && next.isName
      | "module" => return isNear && (next.isName || next.isScalar)
      | "namespace" => return isNear && (next.isName || next.isScalar)
      | "global" => return next.isName || next == .punct "\x7b" || next.isKeyword "export"
      | _ => return false
    | _ => return false

/-- The words that may begin a declaration of the typed dialect. -/
def typedWords : List String :=
  declarationWords.filter (· != "async") ++ ["interface", "type", "module", "namespace", "enum", "static", "global"]

/-- Whether a declaration of the typed dialect begins at the cursor. -/
def atTypedDeclaration (env : Env) : Parser Bool := do
  match ← token with
  | .word "const" _ => return env.dialect.typed && (← nextIs (·.token.isKeyword "enum"))
  | .word name _ => return env.dialect.typed && typedWords.contains name && (← atDeclaration)
  | _ => return false

/-- A declaration after its modifiers, with the modifiers that fit it checked. -/
def modifiedDeclaration (sub : Sub) (env : Env) (start : Nat) (given : List String) : Parser Node := do
  match ← token with
  | .word "var" _ => declaredVariables .varKeyword
  | .word "let" _ => declaredVariables .letKeyword
  | .word "const" _ => declaredVariables .constKeyword
  | .word "class" _ =>
    permitModifiers ["declare", "abstract"] given
    namedClass sub env start []
  | .word "interface" _ =>
    permitModifiers ["declare"] given
    interfaceDeclaration sub env start
  | .word "type" _ =>
    permitModifiers ["declare"] given
    aliasDeclaration sub env start
  | .word "enum" _ =>
    permitModifiers ["declare", "const"] given
    enumDeclaration sub env start
  | .word "global" _ =>
    permitModifiers ["declare"] given
    bump
    finish .moduleBlock start (← moduleBody sub env)
  | .word "function" _ =>
    permitModifiers ["declare", "async"] given
    let node ← namedFunction sub env
    permit !(given.contains "declare" && node.children.any (·.kind == .body))
    return { node with span := ⟨start, node.span.stop⟩ }
  | _ =>
    permitModifiers ["declare"] given
    moduleDeclaration sub env start
where
  /-- A variable declaration. -/
  declaredVariables (kind : VariableKind) : Parser Node := do
    permitModifiers ["declare"] given
    variableStatement sub env start kind

/-- A declaration of the typed dialect. Nothing in it awaits. -/
def typedDeclaration (sub : Sub) (env : Env) : Parser Node := do
  let start ← tokenStart
  let given ← modifiers .declaration
  modifiedDeclaration sub { env with inAsync := false, ambient := env.ambient || given.contains "declare" } start given

end ComponentLint.Script.Grammar
