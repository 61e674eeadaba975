import ComponentLint.Script.Grammar.Goal

/-!
# Modifiers

Words in front of a declaration, a member, a parameter or a type parameter that say more about it. Which of them fit is
for what they modify to say; that none is written twice and that they come in order is checked here.
-/

namespace ComponentLint.Script.Grammar

/-- The modifiers that say who may use a member. -/
def accessWords : List String := ["public", "private", "protected"]

/-- The words that may be modifiers. -/
def modifierWords : List String :=
  accessWords ++
    ["abstract", "accessor", "async", "const", "declare", "in", "out", "override", "readonly", "static"]

/-- The modifiers that must not stand before a modifier. -/
def misplacedBefore (word : String) : List String :=
  if accessWords.contains word then
    accessWords ++ ["override", "static", "accessor", "readonly", "async", "abstract"]
  else if word == "static" then ["static", "readonly", "async", "accessor", "override"]
  else if word == "override" then ["override", "readonly", "accessor", "async"]
  else if word == "abstract" then ["abstract", "override", "accessor"]
  else [word]

/-- Whether a token can begin the key of a member. -/
def beginsKey (token : Token) : Bool :=
  match token with
  | .privateWord _ => true
  | .punct mark => mark == "["
  | _ => token.isWord || token.isScalar

/-- Whether a token can begin what a modifier stands before. -/
def beginsModified (token : Token) : Bool :=
  beginsKey token || ["\x7b", "*", "..."].any fun mark => token == .punct mark

/-- Whether the word at the cursor stands before what it modifies rather than being a name itself. Only `static` may have
a line of its own. -/
def modifies (word : String) : Parser Bool :=
  nextIs fun cursor => beginsModified cursor.token && (!cursor.newline || word == "static")

/-- Whether `get` or `set` at the cursor begins an accessor. -/
def atAccessor : Parser Bool := do
  return ((← atWord? "get") || (← atWord? "set")) && (← nextIs (beginsKey ·.token))

/-- Where modifiers stand. -/
inductive Modified where
  | declaration
  | member
  | parameter
  | typeParameter
  deriving DecidableEq, Repr

/-- Whether the word at the cursor may be a modifier after those before it. Among declarations only an enumeration is
constant. A static block is no member that `static` modifies, and a member may have the name `static` itself. -/
def mayModify (modified : Modified) (before : List String) (word : String) : Parser Bool := do
  if !modifierWords.contains word then return false
  if word == "const" then
    return modified == .typeParameter || (modified == .declaration && (← nextIs (·.token.isKeyword "enum")))
  if word == "static" then
    return !before.contains "static" && !(modified == .member && (← nextAt? "\x7b"))
  return true

/-- One more modifier after those before it. -/
def modifierStep (modified : Modified) (before : List String) : Parser (Option (List String)) := do
  match ← token with
  | .word name _ =>
    if (← mayModify modified before name) && (← modifies name) then
      permit !((misplacedBefore name).any before.contains)
      bump
      return some (before ++ [name])
    return none
  | _ => return none

/-- The modifiers at this place, in order. -/
def modifiers (modified : Modified) : Parser (List String) :=
  grow (modifierStep modified) []

/-- Notes a fault unless all modifiers are among those that fit. -/
def permitModifiers (fitting given : List String) : Parser Unit :=
  permit (given.all fitting.contains)

end ComponentLint.Script.Grammar
