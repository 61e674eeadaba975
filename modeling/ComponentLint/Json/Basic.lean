import ComponentLint.Number.Format

/-!
# JSON values

Whole numbers and doubles are kept apart: `1` and `1.0` are different values. The members of an object are kept in the
order of their keys, and a key occurs once.
-/

namespace ComponentLint

/-- A number of a JSON text: a whole number, or a double with its sign. -/
inductive JsonNumber where
  | whole (value : Int)
  | real (negative : Bool) (magnitude : Binary64)
  deriving DecidableEq, Repr

/-- A JSON value. -/
inductive Json where
  | null
  | bool (value : Bool)
  | num (value : JsonNumber)
  | str (value : String)
  | arr (items : List Json)
  | obj (members : List (String × Json))
  deriving Repr, Inhabited

namespace Json

/-- Puts a member among members in key order; a member of the same key is replaced. -/
def putMember (key : String) (value : Json) : List (String × Json) → List (String × Json)
  | [] => [(key, value)]
  | (other, old) :: rest =>
    if key < other then (key, value) :: (other, old) :: rest
    else if key == other then (key, value) :: rest
    else (other, old) :: putMember key value rest

/-- The object with the given members; of two members with one key the later stays. -/
def object (members : List (String × Json)) : Json :=
  .obj (members.foldl (fun done (key, value) => putMember key value done) [])

/-- A whole number. -/
def int (value : Int) : Json := .num (.whole value)

/-- A natural number. -/
def nat (value : Nat) : Json := int value

/-- `null` for nothing, and the given form otherwise. -/
def optional {α : Type} (form : α → Json) (value : Option α) : Json :=
  match value with
  | none => .null
  | some value => form value

/-- The array of the given forms. -/
def list {α : Type} (form : α → Json) (values : List α) : Json :=
  .arr (values.map form)

/-- The member of an object. -/
def get? (value : Json) (key : String) : Option Json :=
  match value with
  | .obj members => (members.find? (·.1 == key)).map (·.2)
  | _ => none

/-- The text of a string value. -/
def asString? : Json → Option String
  | .str value => some value
  | _ => none

/-- The truth value of a Boolean. -/
def asBool? : Json → Option Bool
  | .bool value => some value
  | _ => none

/-- The items of an array. -/
def asArray? : Json → Option (List Json)
  | .arr items => some items
  | _ => none

/-- The whole number of a value within the signed 64 bit range. -/
def asInt? : Json → Option Int
  | .num (.whole value) => if Int64.minValue.toInt ≤ value ∧ value ≤ Int64.maxValue.toInt then some value else none
  | _ => none

/-- The whole number of a value that is not negative. -/
def asNat? : Json → Option Nat
  | .num (.whole value) => if 0 ≤ value then some value.toNat else none
  | _ => none

/-- Whether a value is an object. -/
def isObject : Json → Bool
  | .obj _ => true
  | _ => false

end Json

end ComponentLint

/-!
## Writing JSON

Compact text: no blanks, members in key order, only quotes, backslashes and control characters escaped.
-/

namespace ComponentLint.Json

/-- A hexadecimal digit. -/
def hexChar (n : Nat) : Char :=
  (Nat.toDigits 16 n).headD '0'

/-- The written form of a character inside a string. -/
def escape (c : Char) : List Char :=
  match c with
  | '"' => ['\\', '"']
  | '\\' => ['\\', '\\']
  | '\n' => ['\\', 'n']
  | '\r' => ['\\', 'r']
  | '\t' => ['\\', 't']
  | '\x08' => ['\\', 'b']
  | '\x0c' => ['\\', 'f']
  | c => if c.toNat < 0x20 then ['\\', 'u', '0', '0', hexChar (c.toNat / 16), hexChar (c.toNat % 16)] else [c]

/-- A string in quotes. -/
def quote (text : String) : String :=
  String.ofList ('"' :: text.toList.flatMap escape ++ ['"'])

/-- The text of a number. -/
def numberText : JsonNumber → String
  | .whole value => toString value
  | .real negative magnitude => (if negative then "-" else "") ++ NumberFormat.json.write magnitude

mutual

/-- The compact text of a value. -/
def compact : Json → String
  | .null => "null"
  | .bool value => if value then "true" else "false"
  | .num value => numberText value
  | .str text => quote text
  | .arr items => "[" ++ String.intercalate "," (compactItems items) ++ "]"
  | .obj members => "\x7b" ++ String.intercalate "," (compactMembers members) ++ "\x7d"

/-- The compact texts of the items of an array. -/
def compactItems : List Json → List String
  | [] => []
  | item :: rest => compact item :: compactItems rest

/-- The compact texts of the members of an object. -/
def compactMembers : List (String × Json) → List String
  | [] => []
  | (key, value) :: rest => (quote key ++ ":" ++ compact value) :: compactMembers rest

end

end ComponentLint.Json
