import ComponentLint.Script.Grammar.Assignments

/-!
# Embedded markup

Elements inside a script. Of an element the tree keeps what runs: component names, attribute values and children. The
text between tags is skipped character by character, so an element ends on its last mark instead of after it.
-/

namespace ComponentLint.Script.Grammar

/-- Characters of tag and attribute names after the first. -/
def isTagChar (c : Char) : Bool :=
  Text.isIdContinue c || c == '-'

/-- A tag or attribute name, in which hyphens may stand. -/
def tagWord : Parser (String × Span) := do
  let cursor ← get
  guard cursor.token.isWord
  let (chars, after) := cursor.here.span isTagChar
  set { cursor with after := after }
  bumpName
  return (String.ofList chars, ⟨cursor.here.offset, after.offset⟩)

/-- Whether a tag name without dots refers to a component. -/
def namesComponent (name : String) : Bool :=
  match name.toList with
  | c :: rest => !(c.isLower) && !((c :: rest).contains '-')
  | [] => false

/-- The name of an element: its parts, and the node of the variable it refers to, if it does. -/
def elementName : Parser (List String × List Node) := do
  let (name, span) ← tagWord
  if ← eat? ":" then
    let (inner, _) ← tagWord
    return ([name, ":", inner], [])
  else
    let parts ← many do
      if ← eat? "." then
        let (part, _) ← tagWord
        return some part
      return none
    if name == "this" then return (name :: parts, [Node.leaf .thisValue span])
    else if parts.isEmpty && !namesComponent name then return ([name], [])
    else return (name :: parts, [Node.leaf (.identifier name) span])

/-- A quoted attribute value, taken as it stands. -/
def attributeText : Parser Unit := do
  let cursor ← get
  match cursor.here.chars with
  | c :: _ =>
    guard (c == '"' || c == '\'')
    let (_, close) := cursor.here.next.span (· != c)
    guard !close.chars.isEmpty
    set { cursor with after := close.next, token := .invalid }
    bump
  | [] => failure

/-- The value after the equals sign of an attribute. -/
def attributeValue (sub : Sub) (env : Env) : Parser (List Node) := do
  if ← eat? "\x7b" then
    let value ← sub env.inBrackets .assignment
    expect "\x7d"
    return [value]
  else if ← at? "<" then
    let node ← sub env .element
    bump
    return [node]
  else
    attributeText
    return []

/-- The cursor on the first character of an attribute value, which is not read as a token. -/
def enterValue : Parser Unit := do
  let cursor ← get
  match skipGap (cursor.after.chars.length + 1) cursor.after ⟨false, cursor.notes.comments⟩ with
  | some (here, gap) =>
    match here.chars with
    | c :: _ =>
      if c == '"' || c == '\'' then
        set { cursor with
          here := here, token := .invalid, after := here, previous := cursor.after.offset,
          notes := { cursor.notes with comments := gap.comments } }
      else bump
    | [] => failure
  | none => failure

/-- The attributes of an opening tag. -/
def attributes (sub : Sub) (env : Env) : Parser (List Node) := do
  let parts ← many do
    match ← token with
    | .punct "\x7b" =>
      bump
      expect "..."
      let value ← sub env.inBrackets .assignment
      expect "\x7d"
      return some [value]
    | .word .. =>
      let _ ← tagWord
      if ← eat? ":" then let _ ← tagWord
      if ← at? "=" then
        enterValue
        return some (← attributeValue sub env)
      else return some []
    | _ => return none
  return parts.flatten

/-- Moves from the mark at the cursor over text to the next tag or brace. -/
def enterChild : Parser Unit := do
  let cursor ← get
  let (_, next) := cursor.after.span fun c => c != '<' && c != '{'
  guard !next.chars.isEmpty
  set (Cursor.enter next cursor.after.offset cursor.notes)

/-- The children of an element up to its closing tag, whose opening mark is at the cursor afterwards. -/
def children (sub : Sub) (env : Env) : Parser (List Node) := do
  let parts ← many do
    enterChild
    if ← eat? "\x7b" then
      if ← at? "\x7d" then return some []
      let _ ← eat? "..."
      let value ← sub env.inBrackets .expression
      guard (← at? "\x7d")
      return some [value]
    else if ← nextAt? "/" then return none
    else return some [← sub env .element]
  return parts.flatten

/-- An element or fragment from its opening mark up to its last mark, which stays at the cursor. -/
def element (sub : Sub) (env : Env) : Parser Node := do
  let start ← tokenStart
  expect "<"
  if ← at? ">" then
    let inner ← children sub env
    expect "<"
    expect "/"
    closing start inner
  else
    let (parts, name) ← elementName
    if env.dialect.typed && (← at? "<") then typeArguments sub env
    let attrs ← attributes sub env
    if ← eat? "/" then closing start (name ++ attrs)
    else
      guard (← at? ">")
      let inner ← children sub env
      expect "<"
      expect "/"
      let (closingParts, again) ← elementName
      permit (closingParts == parts)
      closing start (name ++ attrs ++ inner ++ again)
where
  /-- The node of an element whose last mark is at the cursor. -/
  closing (start : Nat) (parts : List Node) : Parser Node := do
    guard (← at? ">")
    return ⟨.markup, ⟨start, (← get).after.offset⟩, parts⟩

end ComponentLint.Script.Grammar
