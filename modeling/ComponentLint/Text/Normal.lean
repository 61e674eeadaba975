import ComponentLint.Text.Scan

/-!
# Source text without insignificant white space

Two pieces of script that differ only in white space that separates no words have one normal form.
-/

namespace ComponentLint.Text

/-- The characters of words in scripts. -/
def isScriptWordChar (c : Char) : Bool :=
  isAlphanumeric c || c == '_' || c == '$'

/-- Whether a character would run together with the one written before it. -/
def joinsWord (last : Option Char) (c : Char) : Bool :=
  last.any isScriptWordChar && isScriptWordChar c

/-- The normal form of the rest of a text, after the character `last`; `gap` when white space has been passed since. -/
def squeeze (last : Option Char) (gap : Bool) : List Char → List Char
  | [] => []
  | c :: rest =>
    if isSpace c then squeeze last true rest
    else if gap && joinsWord last c then ' ' :: c :: squeeze (some c) false rest
    else c :: squeeze (some c) false rest

/-- The text with one blank between words and no other white space. -/
def normalize (text : List Char) : List Char :=
  squeeze none false text

end ComponentLint.Text
