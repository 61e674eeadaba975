import ComponentLint.Text.Scan

/-!
# Naming styles

Names written as `camelCase`, `kebab-case` or `PascalCase`: which style a name follows, and its form in another style.
-/

namespace ComponentLint.Text

/-- The symbols that no naming style admits. -/
def nameSymbols : List Char :=
  "!\"#%&'()*+,./:;<=>?@[\\]^`\x7b|\x7d".toList

/-- Whether a name holds a symbol that no naming style admits. -/
def hasSymbols (name : List Char) : Bool :=
  name.any nameSymbols.contains

/-- Whether a name follows camel case: no capital at its start, no separators and no blanks. -/
def isCamelCase (name : List Char) : Bool :=
  !hasSymbols name && !(name.take 1).any isUppercase && !name.any (fun c => c == '-' || c == '_') && !name.any isSpace

/-- Whether a name follows kebab case: no capitals, single hyphens that do not stand at its start, and no blanks. -/
def isKebabCase (name : List Char) : Bool :=
  !hasSymbols name && !name.any isUppercase && !(['-'].isPrefixOf name) && !name.contains '_' &&
    !occurs ['-', '-'] name && !name.any isSpace

/-- The camel case of the rest of a name. `started` tells whether something has been written, and `raised` whether a
separator has just been passed. -/
def camelFrom (started raised : Bool) : List Char → List Char
  | [] => []
  | c :: rest =>
    if c == '-' || c == '_' then camelFrom started started rest
    else if raised then toUpperCase c ++ camelFrom true false rest
    else if started then c :: camelFrom true false rest
    else toLowerCase c ++ camelFrom true false rest

/-- The name in camel case. -/
def toCamelCase (name : List Char) : List Char :=
  camelFrom false false name

/-- The kebab case of the rest of a name; `joined` when no hyphen is needed before a capital. -/
def kebabFrom (joined : Bool) : List Char → List Char
  | [] => []
  | c :: rest =>
    if c == '_' then '-' :: kebabFrom true rest
    else if isUppercase c then (if joined then [] else ['-']) ++ toLowerCase c ++ kebabFrom false rest
    else c :: kebabFrom (c == '-') rest

/-- The name in kebab case. -/
def toKebabCase (name : List Char) : List Char :=
  kebabFrom true name

/-- The name in camel case with a capital at its start. -/
def toPascalCase (name : List Char) : List Char :=
  match toCamelCase name with
  | [] => []
  | c :: rest => toUpperCase c ++ rest

end ComponentLint.Text
