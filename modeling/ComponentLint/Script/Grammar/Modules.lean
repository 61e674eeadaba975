import ComponentLint.Script.Grammar.Statements
import ComponentLint.Script.Node

/-!
# Imports and exports

These stand at the top of a module or namespace only.
-/

namespace ComponentLint.Script.Grammar

/-- A name of a module's export: a word or a string. -/
def exportName : Parser (String × Span) := do
  let start ← tokenStart
  match ← token with
  | .word name _ =>
    bumpName
    return (name, ⟨start, (← get).previous⟩)
  | .string value =>
    bump
    return (value, ⟨start, (← get).previous⟩)
  | _ => failure

/-- The attributes of a module in braces: keys with strings, no key twice. -/
def importAttributes : Parser Unit := do
  expect "\x7b"
  let keys ← commaList "\x7d" do
    let (key, _) ← exportName
    expect ":"
    match ← token with
    | .string _ => bump
    | _ => failure
    return key
  permit (keys.eraseDups.length == keys.length)

/-- The name of a module in quotes, with its attributes. -/
def moduleSource : Parser String := do
  match ← token with
  | .string value =>
    bump
    if (← atWord? "with") || ((← atWord? "assert") && !(← onNewLine)) then
      bump
      importAttributes
    return value
  | _ => failure

/-- Whether the word `type` at the cursor marks the specifier that follows it. -/
def marksType (env : Env) : Parser Bool := do
  if !env.dialect.typed || !(← atWord? "type") then return false
  nextIs fun cursor =>
    match cursor.token with
    | .word "as" _ =>
      match cursor.advance.token with
      | .word "as" _ => cursor.advance.advance.token.isWord
      | .word .. => false
      | _ => true
    | .word .. => true
    | .string _ => true
    | _ => false

/-! ## Imports -/

/-- One specifier between braces of an import; all of them may be for types, and then none is marked so. -/
def importSpecifier (env : Env) (allTypes : Bool) : Parser Node := do
  let start ← tokenStart
  let typeOnly ← marksType env
  permit !(typeOnly && allTypes)
  if typeOnly then bump
  let isName := (← token).isPlainName
  let (name, span) ← exportName
  if ← eatWord? "as" then
    let binding ← bindingName env
    finish (.importSpecifier (.named name) typeOnly) start [binding]
  else
    guard isName
    finish (.importSpecifier (.named name) typeOnly) start [Node.leaf (.binding name) span]

/-- The specifiers of an import before its `from`. -/
def importSpecifiers (env : Env) (allTypes : Bool) : Parser (List Node) := do
  let rest : Parser (List Node) := do
    let start ← tokenStart
    if ← eat? "*" then
      expectWord "as"
      let name ← bindingName env
      return [← finish (.importSpecifier .wholeModule false) start [name]]
    else
      expect "\x7b"
      commaList "\x7d" (importSpecifier env allTypes)
  if (← token).isName then
    let name ← bindingName env
    let first : Node := ⟨.importSpecifier .defaultExport false, name.span, [name]⟩
    if ← eat? "," then return first :: (← rest)
    return [first]
  else rest

/-- `import x = …`, which declares nothing that is tracked. -/
def importAlias (sub : Sub) (env : Env) (start : Nat) : Parser Node := do
  guard env.dialect.typed
  let _ ← bindingName env
  expect "="
  if (← atWord? "require") && (← nextAt? "(") then
    bump
    bump
    match ← token with
    | .string _ => bump
    | _ => failure
    expect ")"
    semicolon
    finish .typeDeclaration start []
  else
    let name ← referredName sub env
    semicolon
    finish .typeDeclaration start [name]

/-- Whether the word at the cursor is followed by a name, which is `from` only if another `from` or an equals sign comes
after it. -/
def beforeImportedName : Parser Bool :=
  ahead do
    bumpName
    let isFrom ← atWord? "from"
    guard (← token).isName
    bumpName
    return !isFrom || (← atWord? "from") || (← at? "=")

/-- Whether `type` at the cursor makes an import one of types. -/
def importsTypes (env : Env) : Parser Bool := do
  if !(env.dialect.typed && (← atWord? "type")) then return false
  return (← nextAt? "\x7b") || (← nextAt? "*") || (← beforeImportedName)

/-- Moves past the word for the phase of an import, if there is one. -/
def importPhase : Parser Unit := do
  if (← atWord? "defer") && (← nextAt? "*") then bump
  else if (← atWord? "source") && (← beforeImportedName) then bump

/-- An import declaration. -/
def importDeclaration (sub : Sub) (env : Env) (start : Nat) : Parser Node := do
  expectWord "import"
  match ← token with
  | .string _ =>
    let source ← moduleSource
    semicolon
    finish (.importDeclaration source false) start []
  | _ =>
    let typeOnly ← importsTypes env
    if typeOnly then bump else importPhase
    if env.dialect.typed && (← token).isName && (← nextAt? "=") then importAlias sub env start
    else
      let specifiers ← importSpecifiers env typeOnly
      expectWord "from"
      let source ← moduleSource
      semicolon
      finish (.importDeclaration source typeOnly) start specifiers

/-! ## Exported names -/

/-- Notes names under which something is exported. Without types, no name is exported twice. -/
def noteExports (env : Env) (names : List String) : Parser Unit := do
  for name in names do
    permit (env.dialect.typed || !(← get).notes.exported.contains name)
    modify fun cursor => { cursor with notes := { cursor.notes with exported := name :: cursor.notes.exported } }

/-- The name that a node declares, if it is one. -/
def boundName : Node → List String
  | ⟨.binding name, _, _⟩ => [name]
  | _ => []

/-- Whether a node is part of the left side of a variable declaration. -/
def isPatternPart (node : Node) : Bool :=
  match node.kind with
  | .variables _ => true
  | .declarator => true
  | .objectPattern => true
  | .patternProperty _ => true
  | .arrayPattern => true
  | .defaultPattern => true
  | .restPattern => true
  | .binding _ => true
  | _ => false

/-- The names that a declaration declares. -/
def declaredNames (node : Node) : List String :=
  match node.kind with
  | .functionDef _ => node.children.flatMap boundName
  | .classDef => node.children.flatMap boundName
  | _ => node.gather isPatternPart boundName

/-- The words that name no variable of a module, besides those that never do. -/
def strictWords : List String :=
  ["await", "implements", "interface", "let", "package", "private", "protected", "public", "static", "yield"]

/-! ## Exports -/

/-- A specifier of an export: its node, the name it exports, and whether what it exports can be a variable. -/
structure ExportSpecifier where
  node : Node
  exported : String
  isVariable : Bool

/-- One specifier between braces of an export; all of them may be for types, and then none is marked so. -/
def exportSpecifier (env : Env) (allTypes : Bool) : Parser ExportSpecifier := do
  let start ← tokenStart
  let typeOnly ← marksType env
  permit !(typeOnly && allTypes)
  if typeOnly then bump
  let isName := (← token).isName
  let (name, span) ← exportName
  let (exported, _) ← if ← eatWord? "as" then exportName else pure (name, span)
  let node ← finish .exportSpecifier start [Node.leaf (.identifier name) span]
  return ⟨node, exported, isName && !strictWords.contains name⟩

/-- The names between braces of an export. Without a source they refer to variables. -/
def exportNames (env : Env) (start : Nat) (allTypes : Bool) : Parser Node := do
  expect "\x7b"
  let specifiers ← commaList "\x7d" (exportSpecifier env allTypes)
  noteExports env (specifiers.map (·.exported))
  if ← eatWord? "from" then
    let _ ← moduleSource
    semicolon
    finish .exportNamed start (specifiers.map fun specifier => { specifier.node with children := [] })
  else
    permit (specifiers.all (·.isVariable))
    semicolon
    finish .exportNamed start (specifiers.map (·.node))

/-- The export of all names of a module after its star. -/
def exportAll (env : Env) (start : Nat) : Parser Node := do
  expect "*"
  if ← eatWord? "as" then
    let (name, _) ← exportName
    noteExports env [name]
  expectWord "from"
  let _ ← moduleSource
  semicolon
  finish .exportAll start []

/-- What is exported as default. -/
def defaultExport (sub : Sub) (env : Env) : Parser Node := do
  let start ← tokenStart
  match ← token with
  | .word "function" _ => functionAt sub env true
  | .word "class" _ => classAt sub env start []
  | .punct "@" =>
    let before ← decorators sub env
    modifiedClass sub env start before false
  | .word "async" _ => if ← nextWord? "function" then functionAt sub env true else value
  | .word "abstract" _ =>
    if env.dialect.typed && (← nextWord? "class") then modifiedClass sub env start [] false else value
  | .word "interface" _ =>
    if env.dialect.typed && (← nextIs fun cursor => cursor.token.isName && !cursor.newline) then
      interfaceDeclaration sub env start
    else value
  | _ => value
where
  /-- An exported expression. -/
  value : Parser Node := do
    let node ← sub env .assignment
    semicolon
    return node

/-- What is exported, with the decorators in front of the export: only a class without decorators of its own takes
any. -/
def decorated (before : List Node) (node : Node) : Parser Node :=
  match before, node.kind with
  | [], _ => return node
  | _, .classDef => do
    permit !(node.children.any (·.kind == .decorator))
    return { node with children := before ++ node.children }
  | _, _ => failure

/-- Whether a statement may be exported. -/
def isExportable : Kind → Bool
  | .variables kind => kind != .usingKeyword
  | .functionDef _ => true
  | .classDef => true
  | .typeDeclaration => true
  | .enumeration => true
  | .moduleBlock => true
  | _ => false

/-- An exported declaration, under the decorators in front of the export. -/
def exportedDeclaration (sub : Sub) (env : Env) (start : Nat) (before : List Node) : Parser Node := do
  let node ← sub env .item
  guard (isExportable node.kind)
  noteExports env (declaredNames node)
  finish .exportNamed start [← decorated before node]

/-- An export declaration; decorators in front of it belong to what it exports and lie before its span. -/
def exportDeclaration (sub : Sub) (env : Env) (before : List Node) : Parser Node := do
  let start ← tokenStart
  let typed := env.dialect.typed
  expectWord "export"
  match ← token with
  | .word "default" _ =>
    bump
    noteExports env ["default"]
    let node ← defaultExport sub env
    finish .exportDefault start [← decorated before node]
  | .punct "*" => exportAll env start
  | .punct "\x7b" => exportNames env start false
  | .punct "=" =>
    guard typed
    bump
    let node ← sub env .expression
    semicolon
    finish .exportAssignment start [node]
  | .word "as" _ =>
    guard typed
    bump
    expectWord "namespace"
    let _ ← bindingName env
    semicolon
    finish .typeDeclaration start []
  | .word "import" _ =>
    bump
    if ← importsTypes env then bump
    importAlias sub env start
  | .word "type" _ =>
    if typed && (← nextAt? "\x7b") then
      bump
      exportNames env start true
    else if typed && (← nextAt? "*") then
      bump
      exportAll env start
    else exportedDeclaration sub env start before
  | _ => exportedDeclaration sub env start before

/-- A declaration or statement at the top of a module. -/
def moduleItem (sub : Sub) (env : Env) : Parser Node := do
  let start ← tokenStart
  match ← token with
  | .word "import" _ =>
    if (← nextAt? "(") || (← nextAt? ".") then sub env .item else importDeclaration sub env start
  | .word "export" _ => exportDeclaration sub env []
  | .punct "@" =>
    let before ← decorators sub env
    if ← atWord? "export" then exportDeclaration sub env before
    else modifiedClass sub env start before true
  | _ => sub env .item

end ComponentLint.Script.Grammar
