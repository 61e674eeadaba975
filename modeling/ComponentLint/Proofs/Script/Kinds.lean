import ComponentLint.Proofs.Script.Running
import ComponentLint.Script.Parser

/-!
# Kinds of nodes

What kind of node a production gives, whatever stands at the cursor. `Parser.Gives` is a property of all values of a parser; it
is closed under the ways to put parsers together, and each production has one lemma, by its own structure. From these lemmas it
can be told back from a node which production read it.
-/

namespace ComponentLint.Script

open Script.Parser

/-- Whatever a parser gives, and wherever, has a property. -/
def Parser.Gives {α : Type} (parser : Parser α) (P : α → Prop) : Prop :=
  ∀ cursor, parser.Ensures cursor fun value _ => P value

namespace Parser.Gives

variable {α β : Type} {P Q : α → Prop}

/-- What is read first does not matter for what is given last. -/
theorem bind {parser : Parser β} {rest : β → Parser α} (h : ∀ value, (rest value).Gives P) : (parser >>= rest).Gives P :=
  fun cursor => (bind_ensures parser rest cursor _).2 fun value next _ => h value next

/-- What is read first has a property that is kept. -/
theorem keep {parser : Parser β} {rest : β → Parser α} {R : β → Prop} (h : parser.Gives R)
    (hrest : ∀ value, R value → (rest value).Gives P) : (parser >>= rest).Gives P :=
  fun cursor => (bind_ensures parser rest cursor _).2 fun value next hvalue => hrest value (h cursor value next hvalue) next

theorem finish {P : Node → Prop} {kind : Kind} {start : Nat} {children : List Node}
    (h : ∀ stop, P ⟨kind, ⟨start, stop⟩, children⟩) : (finish kind start children).Gives P :=
  fun cursor => (finish_ensures kind start children cursor _).2 (h cursor.previous)

theorem pure {value : α} (h : P value) : (Pure.pure value : Parser α).Gives P :=
  fun cursor => (pure_ensures value cursor _).2 h

theorem failure : (failure : Parser α).Gives P :=
  fun cursor => failure_ensures cursor _

theorem ite {condition : Prop} [Decidable condition] {parser other : Parser α} (h : parser.Gives P) (hother : other.Gives P) :
    (if condition then parser else other).Gives P :=
  fun cursor => (ite_ensures condition parser other cursor _).2 ⟨fun _ => h cursor, fun _ => hother cursor⟩

theorem mono {parser : Parser α} (h : parser.Gives P) (hPQ : ∀ value, P value → Q value) : parser.Gives Q :=
  fun cursor => (h cursor).mono fun value _ => hPQ value

end Parser.Gives

/-- The kinds of names, of texts, and of expressions in parentheses. -/
def Kind.isLeaf : Kind → Bool
  | .identifier _ => true
  | .string _ => true
  | .paren => true
  | _ => false

/-- The kinds of leaves, and of the members and calls that are not optional. -/
def Kind.isPlain : Kind → Bool
  | .member _ _ false => true
  | .call false false => true
  | kind => kind.isLeaf

/-- The kinds of statements that are one expression or nothing. -/
def Kind.isSimple : Kind → Bool
  | .expressionStatement => true
  | .empty => true
  | _ => false

/-- A parser of expressions that are not plain. -/
abbrev Parser.GivesCompound (parser : Parser Node) : Prop :=
  parser.Gives (·.kind.isPlain = false)

/-- A parser of statements that are not simple. -/
abbrev Parser.GivesComplex (parser : Parser Node) : Prop :=
  parser.Gives (·.kind.isSimple = false)

namespace Grammar

variable {sub : Sub} {env : Env}

/-! ## Expressions -/

theorem functionAt_gives (declaration : Bool) :
    (functionAt sub env declaration).Gives (·.kind = .functionDef declaration) := by
  unfold functionAt functionRest functionEnd
  repeat' first | exact .finish fun _ => rfl | refine .bind fun _ => ?_ | refine .ite ?_ ?_

theorem classAt_gives (start : Nat) (before : List Node) : (classAt sub env start before).Gives (·.kind = .classDef) := by
  unfold classAt
  repeat' first | exact .finish fun _ => rfl | refine .bind fun _ => ?_ | refine .ite ?_ ?_

theorem template_gives (underTag : Bool) : (template sub env underTag).GivesCompound := by
  unfold template
  refine .bind fun _ => .bind fun token => ?_
  split
  · exact .bind fun _ => .bind fun _ => .bind fun _ => .finish fun _ => rfl
  · exact .failure

theorem regex_gives : regex.GivesCompound := by
  unfold regex
  refine .bind fun cursor => ?_
  split
  · exact .bind fun _ => .bind fun _ => .finish fun _ => rfl
  · exact .failure

theorem array_gives : (array sub env).GivesCompound := by
  unfold array
  exact .bind fun _ => .bind fun _ => .bind fun _ => .finish fun _ => rfl

theorem object_gives : (object sub env).GivesCompound := by
  unfold object
  exact .bind fun _ => .bind fun _ => .bind fun _ => .finish fun _ => rfl

theorem importExpression_gives : (importExpression sub env).GivesCompound := by
  unfold importExpression importExpression.importCall
  repeat' first | exact .finish fun _ => rfl | refine .bind fun _ => ?_ | refine .ite ?_ ?_

theorem newExpression_gives (fuel : Nat) : (newExpression sub env fuel).GivesCompound := by
  cases fuel with
  | zero => exact .failure
  | succ fuel =>
    unfold newExpression
    repeat' first | exact .finish fun _ => rfl | refine .bind fun _ => ?_ | refine .ite ?_ ?_

theorem element_gives : (element sub env).GivesCompound := by
  unfold element element.closing
  repeat' first | exact .pure rfl | refine .bind fun _ => ?_ | refine .ite ?_ ?_

theorem yieldExpression_gives : (yieldExpression sub env).GivesCompound := by
  unfold yieldExpression
  repeat' first | exact .finish fun _ => rfl | refine .bind fun _ => ?_ | refine .ite ?_ ?_

theorem arrowRest_gives (start : Nat) (isAsync : Bool) (params : Node) :
    (arrowRest sub env start isAsync params).GivesCompound := by
  unfold arrowRest
  exact .bind fun _ => .bind fun _ => .bind fun _ => .bind fun _ => .finish fun _ => rfl

theorem binaryNode_gives (operator : String) (left right : Node) : (binaryNode operator left right).GivesCompound := by
  unfold binaryNode
  dsimp only
  split
  · exact .bind fun _ => .pure rfl
  · exact .bind fun _ => .pure rfl

theorem update_gives (start : Nat) (mark : String) : (unary.update sub env start mark).GivesCompound := by
  unfold unary.update
  exact .bind fun _ => .bind fun _ => .bind fun _ => .finish fun _ => rfl

theorem typeAssertion_gives : (typeAssertion sub env).GivesCompound := by
  unfold typeAssertion
  exact .bind fun _ => .bind fun _ => .bind fun _ => .bind fun _ => .bind fun _ => .finish fun _ => rfl

/-! ## Statements -/

theorem block_gives : (block sub env).GivesComplex := by
  unfold block
  exact .bind fun _ => .bind fun _ => .bind fun _ => .bind fun _ => .finish fun _ => rfl

theorem variableStatement_gives (start : Nat) (kind : VariableKind) : (variableStatement sub env start kind).GivesComplex := by
  unfold variableStatement
  exact .bind fun _ => .bind fun _ => .bind fun _ => .bind fun _ => .finish fun _ => rfl

theorem namedClass_gives (start : Nat) (before : List Node) : (namedClass sub env start before).GivesComplex := by
  unfold namedClass
  exact .bind fun _ => .bind fun _ => (classAt_gives start before).mono fun node hkind => hkind ▸ rfl

theorem modifiedClass_gives (start : Nat) (before : List Node) (named : Bool) :
    (modifiedClass sub env start before named).GivesComplex := by
  unfold modifiedClass
  refine .bind fun _ => .bind fun _ => .ite (namedClass_gives start before) ?_
  exact (classAt_gives start before).mono fun node hkind => hkind ▸ rfl

theorem namedFunction_gives : (namedFunction sub env).GivesComplex := by
  unfold namedFunction
  exact .keep (functionAt_gives true) fun node hkind => .bind fun _ => .pure (hkind ▸ rfl)

theorem interfaceDeclaration_gives (start : Nat) : (interfaceDeclaration sub env start).GivesComplex := by
  unfold interfaceDeclaration
  repeat' first | exact .finish fun _ => rfl | refine .bind fun _ => ?_ | refine .ite ?_ ?_

theorem aliasDeclaration_gives (start : Nat) : (aliasDeclaration sub env start).GivesComplex := by
  unfold aliasDeclaration
  repeat' first | exact .finish fun _ => rfl | refine .bind fun _ => ?_

theorem enumDeclaration_gives (start : Nat) : (enumDeclaration sub env start).GivesComplex := by
  unfold enumDeclaration
  repeat' first | exact .finish fun _ => rfl | refine .bind fun _ => ?_

theorem moduleDeclaration_gives (start : Nat) : (moduleDeclaration sub env start).GivesComplex := by
  unfold moduleDeclaration
  refine .bind fun _ => .bind fun token => ?_
  split
  all_goals repeat' first | exact .finish fun _ => rfl | refine .bind fun _ => ?_ | refine .ite ?_ ?_

theorem modifiedDeclaration_gives (start : Nat) (given : List String) :
    (modifiedDeclaration sub env start given).GivesComplex := by
  unfold modifiedDeclaration modifiedDeclaration.declaredVariables
  refine .bind fun token => ?_
  split
  · exact .bind fun _ => variableStatement_gives _ _
  · exact .bind fun _ => variableStatement_gives _ _
  · exact .bind fun _ => variableStatement_gives _ _
  · exact .bind fun _ => namedClass_gives _ _
  · exact .bind fun _ => interfaceDeclaration_gives _
  · exact .bind fun _ => aliasDeclaration_gives _
  · exact .bind fun _ => enumDeclaration_gives _
  · exact .bind fun _ => .bind fun _ => .bind fun _ => .finish fun _ => rfl
  · exact .bind fun _ => .keep namedFunction_gives fun node hkind => .bind fun _ => .pure hkind
  · exact .bind fun _ => moduleDeclaration_gives _

theorem typedDeclaration_gives : (typedDeclaration sub env).GivesComplex := by
  unfold typedDeclaration
  exact .bind fun _ => .bind fun _ => modifiedDeclaration_gives _ _

theorem forLoopRest_gives (start : Nat) (first : Node) : (forLoopRest sub env start first).GivesComplex := by
  unfold forLoopRest
  repeat' first | exact .finish fun _ => rfl | refine .bind fun _ => ?_ | refine .ite ?_ ?_

theorem forEachRest_gives (start : Nat) (left : Node) : (forEachRest sub env start left).GivesComplex := by
  unfold forEachRest
  repeat' first | exact .finish fun _ => rfl | refine .bind fun _ => ?_ | refine .ite ?_ ?_

theorem forDeclaration_gives (head : Env) (start here : Nat) (awaits : Bool) (kind : VariableKind) :
    (forDeclaration sub env head start here awaits kind).GivesComplex := by
  unfold forDeclaration
  repeat' first
    | exact forEachRest_gives _ _ | exact forLoopRest_gives _ _ | refine .bind fun _ => ?_ | refine .ite ?_ ?_

theorem forExpression_gives (head : Env) (start : Nat) (awaits : Bool) :
    (forExpression sub env head start awaits).GivesComplex := by
  unfold forExpression
  repeat' first
    | exact forEachRest_gives _ _ | exact forLoopRest_gives _ _ | refine .bind fun _ => ?_ | refine .ite ?_ ?_

theorem forStatement_gives : (forStatement sub env).GivesComplex := by
  unfold forStatement
  refine .bind fun _ => .bind fun _ => .bind fun _ => .bind fun _ => .bind fun _ => .bind fun _ => .bind fun _ => .ite ?_ ?_
  · exact .bind fun _ => forLoopRest_gives _ _
  · refine .bind fun kind? => ?_
    split
    · exact forDeclaration_gives _ _ _ _ _
    · exact forExpression_gives _ _ _

theorem ifStatement_gives : (ifStatement sub env).GivesComplex := by
  unfold ifStatement
  repeat' first | exact .finish fun _ => rfl | refine .bind fun _ => ?_ | refine .ite ?_ ?_

theorem jumpStatement_gives : (jumpStatement env).GivesComplex := by
  unfold jumpStatement
  repeat' first | exact .finish fun _ => rfl | refine .bind fun _ => ?_ | refine .ite ?_ ?_

theorem returnStatement_gives : (returnStatement sub env).GivesComplex := by
  unfold returnStatement
  repeat' first | exact .finish fun _ => rfl | refine .bind fun _ => ?_ | refine .ite ?_ ?_

theorem tryStatement_gives : (tryStatement sub env).GivesComplex := by
  unfold tryStatement
  repeat' first | exact .finish fun _ => rfl | refine .bind fun _ => ?_ | refine .ite ?_ ?_

/-- What begins with a keyword that begins nothing else. -/
theorem keywordStatement?_gives (word : String) :
    (keywordStatement? sub env word).Gives fun node? => ∀ node ∈ node?, node.kind.isSimple = false := by
  have hsome : ∀ parser : Parser Node, parser.GivesComplex →
      (parser >>= fun node => pure (some node)).Gives fun node? => ∀ node ∈ node?, node.kind.isSimple = false := by
    intro parser hparser
    exact .keep hparser fun node hkind => .pure fun _ hnode => Option.some.inj hnode ▸ hkind
  unfold keywordStatement?
  refine .bind fun start => ?_
  split
  · exact hsome _ ifStatement_gives
  · exact hsome _ forStatement_gives
  · exact hsome _ (.bind fun _ => .bind fun _ => .bind fun _ => .bind fun _ => .finish fun _ => rfl)
  · refine hsome _ (.bind fun _ => .bind fun _ => .bind fun _ => .bind fun _ => .bind fun _ => .bind fun _ => ?_)
    exact .finish fun _ => rfl
  · exact hsome _ jumpStatement_gives
  · exact hsome _ jumpStatement_gives
  · exact .bind fun _ => .bind fun _ => hsome _ (.finish fun _ => rfl)
  · exact hsome _ returnStatement_gives
  · exact hsome _ (.bind fun _ => .bind fun _ => .bind fun _ => .bind fun _ => .bind fun _ => .bind fun _ => .finish fun _ => rfl)
  · exact hsome _ tryStatement_gives
  · refine hsome _ (.bind fun _ => .bind fun _ => .bind fun _ => .bind fun _ => .bind fun _ => .bind fun _ => ?_)
    exact .finish fun _ => rfl
  · exact hsome _ (.bind fun _ => .bind fun _ => .bind fun _ => .bind fun _ => .finish fun _ => rfl)
  · exact .pure nofun

theorem functionStatement_gives (alone : Bool) : (functionStatement sub env alone).GivesComplex := by
  unfold functionStatement
  exact .bind fun _ => .bind fun _ => namedFunction_gives

/-! ## Imports and exports -/

theorem importAlias_gives (start : Nat) : (importAlias sub env start).GivesComplex := by
  unfold importAlias
  refine .bind fun _ => .bind fun _ => .bind fun _ => .bind fun _ => .bind fun _ => .ite ?_ ?_
  · refine .bind fun _ => .bind fun _ => .bind fun token => ?_
    dsimp only
    split <;> exact .bind fun _ => .bind fun _ => .bind fun _ => .finish fun _ => rfl
  · exact .bind fun _ => .bind fun _ => .finish fun _ => rfl

theorem importDeclaration_gives (start : Nat) : (importDeclaration sub env start).GivesComplex := by
  unfold importDeclaration
  refine .bind fun _ => .bind fun token => ?_
  split
  all_goals repeat' first
    | exact .finish fun _ => rfl | exact importAlias_gives _ | refine .bind fun _ => ?_ | refine .ite ?_ ?_

theorem exportNames_gives (start : Nat) (allTypes : Bool) : (exportNames env start allTypes).GivesComplex := by
  unfold exportNames
  repeat' first | exact .finish fun _ => rfl | refine .bind fun _ => ?_ | refine .ite ?_ ?_

theorem exportAll_gives (start : Nat) : (exportAll env start).GivesComplex := by
  unfold exportAll
  repeat' first | exact .finish fun _ => rfl | refine .bind fun _ => ?_ | refine .ite ?_ ?_

theorem exportedDeclaration_gives (start : Nat) (before : List Node) :
    (exportedDeclaration sub env start before).GivesComplex := by
  unfold exportedDeclaration
  exact .bind fun _ => .bind fun _ => .bind fun _ => .bind fun _ => .finish fun _ => rfl

theorem exportDeclaration_gives (before : List Node) : (exportDeclaration sub env before).GivesComplex := by
  unfold exportDeclaration
  refine .bind fun _ => .bind fun _ => .bind fun token => ?_
  split
  all_goals repeat' first
    | exact .finish fun _ => rfl | exact importAlias_gives _ | exact exportNames_gives _ _ | exact exportAll_gives _
    | exact exportedDeclaration_gives _ _ | refine .bind fun _ => ?_ | refine .ite ?_ ?_

end Grammar

end ComponentLint.Script
