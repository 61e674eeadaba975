import ComponentLint.Script.Grammar.Classes

/-!
# Literals

Templates, regular expressions, arrays and objects.
-/

namespace ComponentLint.Script.Grammar

/-- The parts of a template after its first: the substitutions, and whether a text in it is malformed. -/
def templateParts (sub : Sub) (env : Env) (last malformed : Bool) : Parser (List Node × Bool) := do
  let (parts, malformed, _) ← grow (fun (parts, malformed, last) => do
    if last then return none
    let part ← sub env.inBrackets .expression
    let cursor ← get
    guard (cursor.token == .punct "\x7d")
    let (piece, after) := readTemplate cursor.after
    match piece with
    | .template text last =>
      set { cursor with token := piece, after := after }
      bump
      return some (parts ++ [part], malformed || text.isNone, last)
    | _ => failure) (([] : List Node), malformed, last)
  return (parts, malformed)

/-- A template; a malformed escape is allowed under a tag only. -/
def template (sub : Sub) (env : Env) (underTag : Bool) : Parser Node := do
  let start ← tokenStart
  match ← token with
  | .template text last =>
    bump
    let (parts, malformed) ← templateParts sub env last text.isNone
    permit (underTag || !malformed)
    finish (.template (if last then text else none)) start parts
  | _ => failure

/-- A regular expression, where a slash was read. -/
def regex : Parser Node := do
  let cursor ← get
  match readRegex cursor.here with
  | some after =>
    let text := Text.slice cursor.here.chars ⟨0, after.offset - cursor.here.offset⟩
    set { cursor with after := after, token := .invalid }
    bump
    finish (.regex (String.ofList text)) cursor.here.offset []
  | none => failure

/-- A spread argument or element, or an assignment expression. -/
def spreadable (sub : Sub) (env : Env) : Parser Node := do
  let start ← tokenStart
  if ← eat? "..." then
    let argument ← sub env.inBrackets .assignment
    finish .spread start [argument]
  else sub env.inBrackets .assignment

/-- The parts of a literal up to its closing mark, which is passed. A comma after a last spread leaves a hole, so that
the spread does not take the rest when the literal turns out to be a target. -/
def literalParts (close : String) (part : Parser Node) : Parser (List Node) := do
  let parts ← many do
    if ← at? close then return none
    let node ← part
    let comma ← tokenStart
    let hasComma ← eat? ","
    let isLast ← at? close
    guard (hasComma || isLast)
    return some (if node.kind == .spread && hasComma && isLast then [node, Node.leaf .absent ⟨comma, comma⟩] else [node])
  expect close
  return parts.flatten

/-- An array literal. -/
def array (sub : Sub) (env : Env) : Parser Node := do
  let start ← tokenStart
  expect "["
  let parts ← literalParts "]" do
    let here ← tokenStart
    if ← at? "," then return Node.leaf .absent ⟨here, here⟩
    spreadable sub env
  finish .array start parts

/-- A method of an object literal whose key comes next. -/
def methodProperty (sub : Sub) (env : Env) (start : Nat) (isAsync isGenerator : Bool) : Parser Node := do
  let (key, computed) ← publicKey sub env
  let function ← methodFunction sub env isAsync isGenerator
  finish (.property .method computed) start [key, function]

/-- A getter or setter of an object literal. -/
def accessorProperty (sub : Sub) (env : Env) (start : Nat) : Parser Node := do
  let isGetter ← atWord? "get"
  bump
  let (key, computed) ← publicKey sub env
  let function ← accessorFunction sub env isGetter
  finish (.property (if isGetter then .getter else .setter) computed) start [key, function]

/-- A property of an object literal from its key on. -/
def plainProperty (sub : Sub) (env : Env) (start : Nat) : Parser Node := do
  let isReference := (← token).isReference env
  let (key, computed) ← publicKey sub env
  if (← at? "(") || (env.dialect.typed && (← at? "<")) then
    let function ← methodFunction sub env false false
    finish (.property .method computed) start [key, function]
  else if ← eat? ":" then
    let value ← sub env.inBrackets .assignment
    finish (.property .value computed) start [key, value]
  else
    guard isReference
    match key.kind with
    | .propertyName name =>
      let reference : Node := ⟨.identifier name, key.span, []⟩
      if ← eat? "=" then
        let value ← sub env.inBrackets .assignment
        finish .shorthandDefault start [reference, value]
      else finish (.property .shorthand false) start [key, reference]
    | _ => failure

/-- One property of an object literal. -/
def property (sub : Sub) (env : Env) : Parser Node := do
  let start ← tokenStart
  if ← at? "..." then spreadable sub env
  else if (← atWord? "async") && (← modifies "async") then
    bump
    let isGenerator ← eat? "*"
    methodProperty sub env start true isGenerator
  else if ← eat? "*" then methodProperty sub env start false true
  else if ← atAccessor then
    accessorProperty sub env start
  else plainProperty sub env start

/-- An object literal. -/
def object (sub : Sub) (env : Env) : Parser Node := do
  let start ← tokenStart
  expect "\x7b"
  let parts ← literalParts "\x7d" (property sub env)
  finish .object start parts

end ComponentLint.Script.Grammar
