import ComponentLint.Json.Basic

/-!
# Option schemas

A schema says which JSON values an option accepts. A value that is not accepted is answered by the first mismatch
found: where it lies and what was expected there.
-/

namespace ComponentLint

/-- The shape of an option. -/
inductive Schema where
  /-- One of the given texts. -/
  | choice (values : List String)
  | boolean
  | integer (minimum : Option Int)
  | text
  /-- A list of texts without repetition. -/
  | texts
  /-- An object with some of the given keys and no others. -/
  | object (properties : List (String × Schema))
  /-- A list whose entries have shapes of their own; entries at the end may be missing. -/
  | tuple (items : List Schema)
  | anyOf (alternatives : List Schema)
  | anything
  deriving Repr, Inhabited

/-- A step from a value to a part of it. -/
inductive PathStep where
  | key (name : String)
  | index (position : Nat)
  deriving DecidableEq, Repr

/-- The wording of a step. -/
def PathStep.text : PathStep → String
  | .key name => "." ++ name
  | .index position => "[" ++ toString position ++ "]"

/-- What was expected of a value. -/
inductive Expectation where
  | boolean
  | text
  | integer
  | atLeast (minimum : Int)
  | oneOf (values : List String)
  | listOfTexts
  | distinct
  | object
  | knownKey
  | list
  | atMost (limit count : Nat)
  | someAlternative
  deriving DecidableEq, Repr

/-- The wording of an expectation that is not met. -/
def Expectation.wording : Expectation → String
  | .boolean => "must be a boolean"
  | .text => "must be a string"
  | .integer => "must be an integer"
  | .atLeast minimum => "must be >= " ++ toString minimum
  | .oneOf values => "must be one of " ++ ", ".intercalate (values.map fun value => "\"" ++ value ++ "\"")
  | .listOfTexts => "must be an array of strings"
  | .distinct => "is a duplicate"
  | .object => "must be an object"
  | .knownKey => "is not an allowed property"
  | .list => "must be an array"
  | .atMost limit count => "accepts at most " ++ toString limit ++ " entries, got " ++ toString count
  | .someAlternative => "matches no alternative"

/-- A part of a value that is not as expected. -/
structure Mismatch where
  /-- The steps from the whole value to the part. -/
  path : List PathStep
  expected : Expectation
  deriving DecidableEq, Repr

namespace Mismatch

/-- The wording of the place. -/
def place (mismatch : Mismatch) : String :=
  "options" ++ String.join (mismatch.path.map (·.text))

/-- The wording of the mismatch. -/
def message (mismatch : Mismatch) : String :=
  "`" ++ mismatch.place ++ "` " ++ mismatch.expected.wording

/-- The mismatch as seen from one step further out. -/
def under (step : PathStep) (mismatch : Mismatch) : Mismatch :=
  { mismatch with path := step :: mismatch.path }

end Mismatch

namespace Schema

/-- The schema of rules without options. -/
def noOptions : Schema := .tuple []

/-- The mismatch of a whole value. -/
def unmet (expected : Expectation) : Option Mismatch :=
  some ⟨[], expected⟩

/-- The first entry that is no text or repeats an earlier one. -/
def textsMismatch? (position : Nat) (seen : List String) : List Json → Option Mismatch
  | [] => none
  | .str value :: rest =>
    if seen.contains value then some ⟨[.index position], .distinct⟩
    else textsMismatch? (position + 1) (value :: seen) rest
  | _ :: _ => some ⟨[.index position], .text⟩

mutual

/-- The first mismatch of a value, if there is one. -/
def mismatch? : Schema → Json → Option Mismatch
  | .anything, _ => none
  | .boolean, .bool _ => none
  | .boolean, _ => unmet .boolean
  | .text, .str _ => none
  | .text, _ => unmet .text
  | .integer minimum, value =>
    match value.asInt? with
    | none => unmet .integer
    | some number =>
      match minimum with
      | some least => if number < least then unmet (.atLeast least) else none
      | none => none
  | .choice values, value =>
    match value.asString? with
    | some found => if values.contains found then none else unmet (.oneOf values)
    | none => unmet (.oneOf values)
  | .texts, .arr items => textsMismatch? 0 [] items
  | .texts, _ => unmet .listOfTexts
  | .object properties, .obj members =>
    members.findSome? fun (key, value) => (memberMismatch? properties key value).map (.under (.key key))
  | .object _, _ => unmet .object
  | .tuple items, .arr values =>
    if items.length < values.length then unmet (.atMost items.length values.length)
    else entryMismatch? items 0 values
  | .tuple _, _ => unmet .list
  | .anyOf alternatives, value =>
    match alternativeMismatches alternatives value with
    | [] => unmet .someAlternative
    | first :: others => if (first :: others).any (·.isNone) then none else first

/-- The mismatch of a member of an object. -/
def memberMismatch? : List (String × Schema) → String → Json → Option Mismatch
  | [], _, _ => unmet .knownKey
  | (name, schema) :: rest, key, value =>
    if name == key then schema.mismatch? value else memberMismatch? rest key value

/-- The first mismatch among the entries of a list, from a position on. -/
def entryMismatch? : List Schema → Nat → List Json → Option Mismatch
  | schema :: schemas, position, value :: values =>
    match schema.mismatch? value with
    | some mismatch => some (mismatch.under (.index position))
    | none => entryMismatch? schemas (position + 1) values
  | _, _, _ => none

/-- The mismatch with each of the alternatives. -/
def alternativeMismatches : List Schema → Json → List (Option Mismatch)
  | [], _ => []
  | schema :: rest, value => schema.mismatch? value :: alternativeMismatches rest value

end

mutual

/-- The description of a schema in the vocabulary of JSON Schema. -/
def toJson : Schema → Json
  | .anything => .object []
  | .boolean => .object [("type", .str "boolean")]
  | .text => .object [("type", .str "string")]
  | .integer none => .object [("type", .str "integer")]
  | .integer (some minimum) => .object [("type", .str "integer"), ("minimum", .int minimum)]
  | .choice values => .object [("enum", .list Json.str values)]
  | .texts =>
    .object [("type", .str "array"), ("items", .object [("type", .str "string")]), ("uniqueItems", .bool true)]
  | .object properties =>
    .object
      [("type", .str "object"), ("properties", .object (membersToJson properties)), ("additionalProperties", .bool false)]
  | .tuple items => .object [("type", .str "array"), ("items", .arr (allToJson items)), ("maxItems", .nat items.length)]
  | .anyOf alternatives => .object [("anyOf", .arr (allToJson alternatives))]

/-- The descriptions of the properties of an object. -/
def membersToJson : List (String × Schema) → List (String × Json)
  | [] => []
  | (name, schema) :: rest => (name, schema.toJson) :: membersToJson rest

/-- The descriptions of a list of schemas. -/
def allToJson : List Schema → List Json
  | [] => []
  | schema :: rest => schema.toJson :: allToJson rest

end

end Schema

end ComponentLint
