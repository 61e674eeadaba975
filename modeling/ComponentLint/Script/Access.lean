import ComponentLint.Script.Node

/-!
# Questions about expressions

Names, literals, functions and returned objects, as far as they can be told without running the script.
-/

namespace ComponentLint.Script.Node

/-- The name of a member that is known without running the script. -/
def memberName? : Node → Option String
  | ⟨.member name _ _, _, _⟩ => some name
  | ⟨.index _, _, [_, ⟨.string value, _, _⟩]⟩ => some value
  | _ => none

/-- Whether an expression can be written to: a variable, or a member of something that can, without optional steps. -/
def isAssignable : Node → Bool
  | ⟨.identifier _, _, _⟩ => true
  | ⟨.paren, _, [inner]⟩ => inner.isAssignable
  | ⟨.member _ _ false, _, [object]⟩ => object.isAssignable
  | ⟨.index false, _, [object, _]⟩ => object.isAssignable
  | _ => false

/-- The name of a variable. -/
def identifier? : Node → Option String
  | ⟨.identifier name, _, _⟩ => some name
  | _ => none

/-- The value of a text literal. -/
def stringValue? : Node → Option String
  | ⟨.string value, _, _⟩ => some value
  | _ => none

/-- Whether an expression defines a function. -/
def isFunction : Node → Bool
  | ⟨.functionDef _, _, _⟩ => true
  | ⟨.arrow _, _, _⟩ => true
  | _ => false

/-- The parameters of a function, without its rest parameter. -/
def params (function : Node) : List Node :=
  match function.children.find? (·.kind == .params) with
  | some list => list.children.filter (·.kind == .param)
  | none => []

/-- The pattern of a parameter. -/
def pattern? (param : Node) : Option Node :=
  param.children.find? (·.kind != .decorator)

/-- The body of a function, if it has one. -/
def body? (function : Node) : Option Node :=
  function.children.find? (·.kind == .body)

/-- The object literal inside any number of parentheses. -/
def asObject? (node : Node) : Option Node :=
  let inner := node.unparenthesized
  if inner.kind == .object then some inner else none

/-- The object literal that a statement returns. -/
def returnedByStatement? : Node → Option Node
  | ⟨.returnStatement, _, [value]⟩ => value.asObject?
  | _ => none

/-- The object literal that a function gives: the body of a concise arrow, or what the last `return` at the top of its
body returns, among those that return one. -/
def returnedObject? (function : Node) : Option Node := do
  let body ← function.body?
  match function.kind, body.children with
  | .arrow true, ⟨_, _, [value]⟩ :: _ => value.asObject?
  | .arrow true, _ => none
  | _, statements => statements.reverse.findSome? returnedByStatement?

end ComponentLint.Script.Node
