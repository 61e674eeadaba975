import ComponentLint.Text.Span

/-!
# Syntax trees of scripts

A script is a tree of nodes: what the node is (`Kind`), the bytes it spans, and its parts in source order. Type
annotations are read and left out, so a tree holds what runs. Parentheses are kept as nodes of their own, and an
optional chain is one `chain` node around the whole chain.
-/

namespace ComponentLint.Script

/-- The languages a script may be written in: with or without types, with or without embedded markup. -/
structure Dialect where
  typed : Bool
  markup : Bool
  deriving DecidableEq, Repr

/-- The keyword of a variable declaration. -/
inductive VariableKind where
  | varKeyword
  | letKeyword
  | constKeyword
  | usingKeyword
  deriving DecidableEq, Repr

/-- What an import specifier takes from a module. -/
inductive Imported where
  | named (name : String)
  | defaultExport
  | wholeModule
  deriving DecidableEq, Repr

/-- The form of a property in an object literal. -/
inductive PropertyForm where
  | value
  | shorthand
  | method
  | getter
  | setter
  deriving DecidableEq, Repr

/-- How an expression says what its type is. -/
inductive TypeMark where
  | asType
  | satisfiesType
  | nonNull
  deriving DecidableEq, Repr

/-- The operators that look at their right operand only if the left one does not decide. -/
inductive LogicalOperator where
  /-- `&&` -/
  | conjunction
  /-- `||` -/
  | disjunction
  /-- `??` -/
  | fallback
  deriving DecidableEq, Repr

/-- What a node is. The comments give the parts a node has; a part in brackets may be missing. -/
inductive Kind where
  /-- A part left out: a hole of an array, an empty place in the head of a loop. -/
  | absent
  /-- A name that refers to a variable. -/
  | identifier (name : String)
  /-- A name that declares a variable. -/
  | binding (name : String)
  /-- A property key written as a name. -/
  | propertyName (name : String)
  /-- A private key, without its number sign. -/
  | privateName (name : String)
  | thisValue
  | superValue
  | null
  | boolean (value : Bool)
  /-- The canonical text of the number. -/
  | number (text : String)
  | bigint (text : String)
  | string (value : String)
  | regex (text : String)
  /-- The text of a template without substitutions; parts: the substitutions. -/
  | template (whole : Option String)
  /-- Parts: tag, template. -/
  | tagged
  /-- Parts: elements, holes as `absent`. -/
  | array
  /-- Parts: properties and spreads. -/
  | object
  /-- Parts: key, value. -/
  | property (form : PropertyForm) (computed : Bool)
  /-- A shorthand property with a default, which only a target may hold; parts: name, default. -/
  | shorthandDefault
  /-- Parts: argument. -/
  | spread
  /-- Parts: [name], parameters, [body]. -/
  | functionDef (declaration : Bool)
  /-- Parts: parameters, body; `concise` when the body is an expression. -/
  | arrow (concise : Bool)
  /-- Parts: parameters, then [rest parameter]. -/
  | params
  /-- Parts: decorators, pattern, [default]. -/
  | param
  /-- Parts: pattern. -/
  | restParam
  /-- Parts: statements; directives are left out. -/
  | body
  /-- Parts: decorators, [name], [superclass], interfaces, members. -/
  | classDef
  /-- Parts: decorators, key, [value]. -/
  | classMember
  /-- Parts: statements. -/
  | staticBlock
  /-- Parts: expression. -/
  | decorator
  /-- A member named after a dot; parts: object. -/
  | member (name : String) (nameSpan : Span) (optional : Bool)
  /-- A member in brackets; parts: object, key. -/
  | index (optional : Bool)
  /-- Parts: object. -/
  | privateMember (name : String) (optional : Bool)
  /-- `applied` when type arguments are written; parts: callee, arguments. -/
  | call (optional applied : Bool)
  /-- Parts: callee, arguments. -/
  | newInstance
  /-- Parts: the chain. -/
  | chain
  /-- Parts: module, [options]. -/
  | importCall
  /-- `import.meta` and `new.target`. -/
  | metaProperty
  /-- Parts: operand. -/
  | unary (operator : String)
  /-- Parts: target. -/
  | update (operator : String)
  /-- Parts: left, right. -/
  | binary (operator : String)
  /-- Parts: left, right. -/
  | logical (operator : LogicalOperator)
  /-- A private name tested with `in`; parts: object. -/
  | privateIn (name : String)
  /-- Parts: test, consequent, alternate. -/
  | conditional
  /-- Parts: target, value. -/
  | assign (operator : String)
  /-- Parts: expressions. -/
  | sequence
  /-- Parts: [argument]. -/
  | yieldExpression
  /-- Parts: argument. -/
  | awaitExpression
  /-- Parts: expression. -/
  | paren
  /-- `as`, `satisfies` or `!` after an expression; parts: expression. -/
  | typed (mark : TypeMark)
  /-- A type in angle brackets before an expression; parts: expression. -/
  | cast
  /-- Type arguments after an expression that is not called; parts: expression. -/
  | typeApplied
  /-- Embedded markup; parts: names that refer to components, attribute values and children. -/
  | markup
  /-- Parts: properties, then [rest]. -/
  | objectPattern
  /-- Parts: key, pattern. -/
  | patternProperty (computed : Bool)
  /-- Parts: elements, holes as `absent`, then [rest]. -/
  | arrayPattern
  /-- Parts: pattern, default. -/
  | defaultPattern
  /-- Parts: pattern. -/
  | restPattern
  /-- Parts: targets, holes as `absent`. -/
  | arrayTarget
  /-- Parts: properties, then [rest]. -/
  | objectTarget
  /-- Parts: name, [default]. -/
  | shorthandTarget
  /-- Parts: key, target. -/
  | targetProperty
  /-- Parts: target, default. -/
  | defaultTarget
  /-- Parts: target. -/
  | restTarget
  /-- Parts: expression. -/
  | expressionStatement
  /-- Parts: declarators. -/
  | variables (kind : VariableKind)
  /-- Parts: pattern, [initializer]. -/
  | declarator
  /-- Parts: statements. -/
  | block
  | empty
  /-- Parts: test, consequent, [alternate]. -/
  | ifStatement
  /-- Parts: initializer, test, update, body; missing ones as `absent`. -/
  | forLoop
  /-- Parts: left, right, body. -/
  | forIn
  /-- Parts: left, right, body. -/
  | forOf
  /-- Parts: test, body. -/
  | whileLoop
  /-- Parts: body, test. -/
  | doWhile
  /-- Parts: [argument]. -/
  | returnStatement
  /-- Parts: argument. -/
  | throwStatement
  /-- `break`, `continue` and `debugger`. -/
  | jump
  /-- Parts: body. -/
  | labeled
  /-- Parts: block, [catch clause], [finalizer]. -/
  | tryStatement
  /-- Parts: [pattern], block. -/
  | catchClause
  /-- Parts: discriminant, cases. -/
  | switchStatement
  /-- Parts: [test], statements. -/
  | switchCase
  /-- Parts: object, body. -/
  | withStatement
  /-- Parts: specifiers. -/
  | importDeclaration (source : String) (typeOnly : Bool)
  /-- Parts: local name. -/
  | importSpecifier (imported : Imported) (typeOnly : Bool)
  /-- Parts: declaration or specifiers. -/
  | exportNamed
  /-- Parts: [local name]. -/
  | exportSpecifier
  | exportAll
  /-- Parts: declaration or expression. -/
  | exportDefault
  /-- Parts: expression. -/
  | exportAssignment
  /-- A declaration of types only; parts: [the name it stands for]. -/
  | typeDeclaration
  /-- Parts: initializers. -/
  | enumeration
  /-- Parts: statements. -/
  | moduleBlock
  deriving DecidableEq, Repr

/-- A node of a syntax tree. -/
structure Node where
  kind : Kind
  span : Span
  children : List Node
  deriving Repr

instance : Inhabited Node := ⟨⟨.absent, ⟨0, 0⟩, []⟩⟩

mutual

/-- The node with every span moved to the right. -/
def Node.shift (distance : Nat) : Node → Node
  | ⟨kind, span, children⟩ => ⟨shiftKind kind, span.shift distance, Node.shiftAll distance children⟩
where
  /-- The span a kind carries moves too. -/
  shiftKind : Kind → Kind
    | .member name nameSpan optional => .member name (nameSpan.shift distance) optional
    | kind => kind

/-- The nodes with every span moved to the right. -/
def Node.shiftAll (distance : Nat) : List Node → List Node
  | [] => []
  | node :: rest => node.shift distance :: Node.shiftAll distance rest

end

mutual

/-- Whether some node of the tree has a property. -/
def Node.any (test : Node → Bool) : Node → Bool
  | ⟨kind, span, children⟩ => test ⟨kind, span, children⟩ || Node.anyOf test children

/-- Whether some node of the trees has a property. -/
def Node.anyOf (test : Node → Bool) : List Node → Bool
  | [] => false
  | node :: rest => node.any test || Node.anyOf test rest

end

namespace Node

/-- A node without parts. -/
def leaf (kind : Kind) (span : Span) : Node := ⟨kind, span, []⟩

/-- Whether a node is a name that declares a variable. -/
def isBinding (node : Node) : Bool :=
  match node.kind with
  | .binding _ => true
  | _ => false

/-- The expression inside any number of parentheses. -/
def unparenthesized : Node → Node
  | ⟨.paren, _, [⟨kind, span, children⟩]⟩ => unparenthesized ⟨kind, span, children⟩
  | node => node

/-- The name of a property key that is known without running the script. -/
def staticName? (key : Node) : Option String :=
  match key.kind with
  | .propertyName name => some name
  | .string value => some value
  | .number text => some text
  | .bigint text => some text
  | .regex text => some text
  | .null => some "null"
  | .template whole => whole
  | _ => none

end Node

/-!
## Walks over syntax trees

A walk visits a node before its parts and the parts in source order.
-/

mutual

/-- What is found in a tree, a node before its parts; nodes that are not entered are passed over with all their parts. -/
def Node.gather {α : Type} (enters : Node → Bool) (found : Node → List α) : Node → List α
  | ⟨kind, span, children⟩ =>
    if enters ⟨kind, span, children⟩ then found ⟨kind, span, children⟩ ++ Node.gatherAll enters found children else []

/-- What is found in a list of trees. -/
def Node.gatherAll {α : Type} (enters : Node → Bool) (found : Node → List α) : List Node → List α
  | [] => []
  | node :: rest => node.gather enters found ++ Node.gatherAll enters found rest

end

/-- What is found in every part of a list of trees. -/
def Node.gatherEverywhere {α : Type} (found : Node → List α) (nodes : List Node) : List α :=
  Node.gatherAll (fun _ => true) found nodes

end ComponentLint.Script
