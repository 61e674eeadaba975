import ComponentLint.Json.Basic

/-!
# Reading option values

An option is read into what it stands for, or refused. A choice is one of the names of a table, and a record gives its
fields by their names, or in order as a list. What is missing stands for its default.
-/

namespace ComponentLint

namespace Json

/-- What a name of a table stands for. The name is written as a text, or as the only key of an object with no value. -/
def variant? {α : Type} (table : List (String × α)) : Json → Option α
  | .str name => (table.find? (·.1 == name)).map (·.2)
  | .obj [(name, .null)] => (table.find? (·.1 == name)).map (·.2)
  | _ => none

/-- The texts of a list of texts. -/
def textList? : Json → Option (List String)
  | .arr items => items.mapM asString?
  | _ => none

/-- A value that may be `null`. -/
def nullable? {α : Type} (read : Json → Option α) : Json → Option (Option α)
  | .null => some none
  | value => (read value).map some

/-- Reads a value that may be missing. -/
def readOr {α : Type} (found : Option Json) (read : Json → Option α) (fallback : α) : Option α :=
  match found with
  | some value => read value
  | none => some fallback

/-- Reads the option of a position. -/
def option? {α : Type} (options : List Json) (position : Nat) (read : Json → Option α) (fallback : α) : Option α :=
  readOr options[position]? read fallback

end Json

/-- The fields of a record: by their names, or in order. -/
inductive Record where
  | named (members : List (String × Json))
  | listed (values : List Json)

namespace Record

/-- The record of a value; a list has no fewer and no more fields than the record may have in order. -/
def ofJson? (least most : Nat) : Json → Option Record
  | .obj members => some (.named members)
  | .arr values => if least ≤ values.length && values.length ≤ most then some (.listed values) else none
  | _ => none

/-- The value of the field of a position and a name. -/
def get? (record : Record) (position : Nat) (name : String) : Option Json :=
  match record with
  | .named members => Json.get? (.obj members) name
  | .listed values => values[position]?

/-- Reads the field of a position and a name. -/
def field? {α : Type} (record : Record) (position : Nat) (name : String) (read : Json → Option α) (fallback : α) :
    Option α :=
  Json.readOr (record.get? position name) read fallback

end Record

end ComponentLint
