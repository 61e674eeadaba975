import ComponentLint.Script.Grammar.Members

/-!
# Operators

Binary operators are read by precedence climbing. The left side of an assignment is read as an expression first. When an
assignment operator follows, the expression is turned into a target, if it has the form of one.
-/

namespace ComponentLint.Script

/-! ## Assignment targets -/

/-- Whether an expression may be written to: a variable or a member, perhaps under a type. -/
def Node.isSimpleTarget : Node → Bool
  | ⟨kind, _, children⟩ =>
    match kind, children with
    | .identifier _, _ => true
    | .member .., _ => true
    | .index _, _ => true
    | .privateMember .., _ => true
    | .typed _, [⟨innerKind, innerSpan, innerChildren⟩] => Node.isSimpleTarget ⟨innerKind, innerSpan, innerChildren⟩
    | .cast, [⟨innerKind, innerSpan, innerChildren⟩] => Node.isSimpleTarget ⟨innerKind, innerSpan, innerChildren⟩
    | .paren, [⟨innerKind, innerSpan, innerChildren⟩] => Node.isSimpleTarget ⟨innerKind, innerSpan, innerChildren⟩
    | _, _ => false

/-- The expression as the target of an update or of an assignment with an operator. -/
def Node.toSimpleTarget? (node : Node) : Option Node :=
  if node.isSimpleTarget then some node.unparenthesized else none

mutual

/-- The expression as the target of an assignment. -/
def Node.toTarget? : Node → Option Node
  | ⟨.array, span, children⟩ => (Node.elementTargets? children).map (⟨.arrayTarget, span, ·⟩)
  | ⟨.object, span, children⟩ => (Node.propertyTargets? children).map (⟨.objectTarget, span, ·⟩)
  | node => node.toSimpleTarget?

/-- The expression as a target that may have a default. -/
def Node.toTargetWithDefault? : Node → Option Node
  | ⟨.assign "=", span, [target, value]⟩ => some ⟨.defaultTarget, span, [target, value]⟩
  | ⟨.array, span, children⟩ => (Node.elementTargets? children).map (⟨.arrayTarget, span, ·⟩)
  | ⟨.object, span, children⟩ => (Node.propertyTargets? children).map (⟨.objectTarget, span, ·⟩)
  | node => node.toSimpleTarget?

/-- The elements of an array literal as targets; a spread must be the last. -/
def Node.elementTargets? : List Node → Option (List Node)
  | [] => some []
  | [⟨.spread, span, [argument]⟩] => do
    let target ← argument.toTarget?
    return [⟨.restTarget, span, [target]⟩]
  | ⟨.absent, span, _⟩ :: rest => do
    let rest ← Node.elementTargets? rest
    return ⟨.absent, span, []⟩ :: rest
  | node :: rest => do
    let target ← node.toTargetWithDefault?
    let rest ← Node.elementTargets? rest
    return target :: rest

/-- The properties of an object literal as targets; a spread must be the last, and what it takes is no pattern. -/
def Node.propertyTargets? : List Node → Option (List Node)
  | [] => some []
  | [⟨.spread, span, [argument]⟩] => do
    let target ← argument.toSimpleTarget?
    return [⟨.restTarget, span, [target]⟩]
  | ⟨.shorthandDefault, span, parts⟩ :: rest => do
    let rest ← Node.propertyTargets? rest
    return ⟨.shorthandTarget, span, parts⟩ :: rest
  | ⟨.property .shorthand _, span, [_, value]⟩ :: rest => do
    let rest ← Node.propertyTargets? rest
    return ⟨.shorthandTarget, span, [value]⟩ :: rest
  | ⟨.property .value _, span, [key, value]⟩ :: rest => do
    let target ← value.toTargetWithDefault?
    let rest ← Node.propertyTargets? rest
    return ⟨.targetProperty, span, [key, target]⟩ :: rest
  | _ => none

end

namespace Grammar

/-! ## Operators -/

/-- The expression as a target, or failure. -/
def targetOf (convert : Node → Option Node) (node : Node) : Parser Node :=
  match convert node with
  | some target => return target
  | none => failure

/-- The operators that stand before their operand. -/
def unaryMarks : List String := ["+", "-", "~", "!"]

/-- The words that stand before their operand. -/
def unaryWords : List String := ["delete", "void", "typeof"]

/-- Whether the word at the cursor is an operator although the surroundings do not make it one: it stands on one line
with a word or a literal. -/
def operatesOnNext : Parser Bool :=
  nextIs fun cursor => !cursor.newline && (cursor.token.isWord || cursor.token.isScalar)

/-- A type in angle brackets before an expression. -/
def typeAssertion (sub : Sub) (env : Env) : Parser Node := do
  let start ← tokenStart
  expect "<"
  let _ ← sub env .typeTerm
  expect ">"
  let operand ← sub env .unary
  finish .cast start [operand]

/-- An operand with the operators before and after it. -/
def unary (sub : Sub) (env : Env) : Parser Node := do
  let start ← tokenStart
  let operator (text : String) : Parser Node := do
    bump
    let operand ← sub env .unary
    finish (.unary text) start [operand]
  match ← token with
  | .punct "++" => update start "++"
  | .punct "--" => update start "--"
  | .punct "<" =>
    if env.dialect.typed && !env.dialect.markup then typeAssertion sub env else operand start
  | .punct mark => if unaryMarks.contains mark then operator mark else operand start
  | .word "await" _ =>
    if env.inAsync || (← operatesOnNext) then
      permit env.inAsync
      bump
      let argument ← sub { env with inAsync := true } .unary
      finish .awaitExpression start [argument]
    else operand start
  | .word name _ => if unaryWords.contains name then operator name else operand start
  | _ => operand start
where
  /-- An operator that changes the variable after it. -/
  update (start : Nat) (mark : String) : Parser Node := do
    bump
    let target ← targetOf Node.toSimpleTarget? (← sub env .unary)
    finish (.update mark) start [target]
  /-- A chain of members, with an operator after it that changes it. -/
  operand (start : Nat) : Parser Node := do
    let node ← sub env .leftHandSide
    let cursor ← get
    if cursor.newline then return node
    match cursor.token with
    | .punct "++" =>
      bump
      let target ← targetOf Node.toSimpleTarget? node
      finish (.update "++") start [target]
    | .punct "--" =>
      bump
      let target ← targetOf Node.toSimpleTarget? node
      finish (.update "--") start [target]
    | _ => return node

/-- How tightly a binary operator binds. -/
def precedence? : String → Option Nat
  | "??" => some 1
  | "||" => some 2
  | "&&" => some 3
  | "|" => some 4
  | "^" => some 5
  | "&" => some 6
  | "==" | "!=" | "===" | "!==" => some 7
  | "<" | ">" | "<=" | ">=" | "instanceof" | "in" | "as" | "satisfies" => some 8
  | "<<" | ">>" | ">>>" => some 9
  | "+" | "-" => some 10
  | "*" | "/" | "%" => some 11
  | "**" => some 12
  | _ => none

/-- The operators that are words. -/
def operatorWords : List String := ["in", "instanceof", "as", "satisfies"]

/-- The operator at the cursor, with the marks that follow a `>` put together. -/
def wholeMark (cursor : Cursor) : Option String :=
  match cursor.token with
  | .punct ">" => [">>>=", ">>=", ">>>", ">>", ">=", ">"].find? cursor.here.startsWith
  | .punct mark => some mark
  | .word name _ => if operatorWords.contains name then some name else none
  | _ => none

/-- Moves past the operator at the cursor, as it was put together. -/
def bumpMark (mark : String) : Parser Unit := do
  if ← at? ">" then modify fun cursor => { cursor with after := cursor.here.skip mark.length }
  bump

/-- The binary operator at the cursor, if there is one that may stand here. -/
def binaryOperator? (env : Env) : Parser (Option (String × Nat)) := do
  let cursor ← get
  match wholeMark cursor with
  | some mark =>
    if mark == "in" && !env.allowIn then return none
    if (mark == "as" || mark == "satisfies") && (!env.dialect.typed || cursor.newline) then return none
    return (precedence? mark).map (mark, ·)
  | none => return none

/-- The logical operator of a mark. -/
def logicalOperator? : String → Option LogicalOperator
  | "&&" => some .conjunction
  | "||" => some .disjunction
  | "??" => some .fallback
  | _ => none

/-- Whether an operand is a use of `&&` or `||` that is not in parentheses. -/
def isPlainLogic : Node → Bool
  | ⟨.logical operator, _, _⟩ => operator != .fallback
  | _ => false

/-- Whether an operand has an operator before it, which `**` does not allow on its left. -/
def isUnary : Node → Bool
  | ⟨.unary _, _, _⟩ => true
  | ⟨.awaitExpression, _, _⟩ => true
  | _ => false

/-- The node of a binary operation. -/
def binaryNode (operator : String) (left right : Node) : Parser Node := do
  let span : Span := ⟨left.span.start, right.span.stop⟩
  match logicalOperator? operator with
  | some logical =>
    permit !(logical == .fallback && (isPlainLogic left || isPlainLogic right))
    return ⟨.logical logical, span, [left, right]⟩
  | none =>
    permit !(operator == "**" && isUnary left)
    return ⟨.binary operator, span, [left, right]⟩

/-- One more operator and operand at a level or above. -/
def binaryStep (sub : Sub) (env : Env) (level : Nat) (left : Node) : Parser (Option Node) := do
  match ← binaryOperator? env with
  | some (operator, strength) =>
    if strength < level then return none
    bumpMark operator
    if operator == "as" || operator == "satisfies" then
      let _ ← sub env .typeTerm
      return some (← finish (.typed (if operator == "as" then .asType else .satisfiesType)) left.span.start [left])
    let right ← sub env (.binary (if operator == "**" then strength else strength + 1))
    return some (← binaryNode operator left right)
  | none => return none

/-- The operand a chain of operators starts with; a private name may stand before `in`. -/
def firstOperand (sub : Sub) (env : Env) (level : Nat) : Parser Node := do
  let start ← tokenStart
  match ← token with
  | .privateWord name =>
    bump
    guard (level ≤ 8 && env.allowIn)
    expectWord "in"
    let right ← sub env (.binary 9)
    finish (.privateIn name) start [right]
  | _ => sub env .unary

/-- Binary operators of a level or above. -/
def binary (sub : Sub) (env : Env) (level : Nat) : Parser Node := do
  let first ← firstOperand sub env level
  grow (binaryStep sub env level) first

end Grammar

end ComponentLint.Script
