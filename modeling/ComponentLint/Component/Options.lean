import ComponentLint.Component.Basic
import ComponentLint.Framework.Api
import ComponentLint.Script.Access

/-!
# Component options

A plain script may describe its component by an object of options, which it exports as it is or through
`defineComponent`.
-/

namespace ComponentLint

open Script

/-- A property of an object literal whose key is known. -/
structure OptionProperty where
  name : String
  key : Script.Node
  computed : Bool
  value : Script.Node
  span : Span
  deriving Repr

/-- The property of a part of an object literal. -/
def OptionProperty.of? : Script.Node → Option OptionProperty
  | ⟨.property _ computed, span, [key, value]⟩ => key.staticName?.map (⟨·, key, computed, value, span⟩)
  | _ => none

namespace Options

/-- The object of options that a statement exports. -/
def ofStatement? (table : ScopeTable) : Script.Node → Option Script.Node
  | ⟨.exportDefault, _, [⟨.object, span, members⟩]⟩ => some ⟨.object, span, members⟩
  | ⟨.exportDefault, _, [⟨.call optional applied, span, callee :: arguments⟩]⟩ =>
    match table.calledApi? ⟨.call optional applied, span, callee :: arguments⟩ ["defineComponent"], arguments with
    | some _, ⟨.object, span, members⟩ :: _ => some ⟨.object, span, members⟩
    | _, _ => none
  | _ => none

/-- The object of options of a script block. -/
def ofBlock? (table : ScopeTable) (block : ScriptBlock) : Option Script.Node :=
  block.statements.findSome? (ofStatement? table)

/-- The properties of an object literal whose keys are known. -/
def properties (object : Script.Node) : List OptionProperty :=
  object.children.filterMap OptionProperty.of?

/-- The first property of a name. -/
def property? (object : Script.Node) (name : String) : Option OptionProperty :=
  (properties object).find? (·.name == name)

/-- A function, inside any number of parentheses. -/
def asFunction? (node : Script.Node) : Option Script.Node :=
  let inner := node.unparenthesized
  if inner.isFunction then some inner else none

/-- The function that is the value of an option. -/
def function? (object : Script.Node) (name : String) : Option Script.Node :=
  (property? object name).bind (asFunction? ·.value)

/-- The keys of an object literal with the bytes they span. -/
def keys (object : Script.Node) : List Markup.Name :=
  (properties object).map fun property => ⟨property.name, property.key.span⟩

/-- The text literals among the elements of an array literal. -/
def literals (array : Script.Node) : List Markup.Name :=
  array.children.filterMap fun element => element.stringValue?.map (⟨·, element.span⟩)

/-- The names that a group of options declares. -/
def declaredBy (property : OptionProperty) : List Markup.Name :=
  let value := property.value.unparenthesized
  let keysOf (object : Option Script.Node) : List Markup.Name := (object.map keys).getD []
  if ["props", "inject", "emits"].contains property.name then
    if value.kind == .array then literals value else keysOf value.asObject?
  else if ["computed", "methods"].contains property.name then keysOf value.asObject?
  else if property.name == "data" then
    if value.kind == .object then keys value else keysOf ((asFunction? value).bind (·.returnedObject?))
  else if property.name == "setup" then keysOf ((asFunction? value).bind (·.returnedObject?))
  else []

/-- The names that the options declare, in source order. -/
def declared (object : Script.Node) : List Markup.Name :=
  (properties object).flatMap declaredBy

end Options

end ComponentLint
