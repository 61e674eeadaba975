import ComponentLint.Lint.Rule
import ComponentLint.Markup.Sibling
import ComponentLint.Text.Normal

/-!
# Branches that are never taken

A branch of a conditional chain is dead when the branches before it cover its condition. Conditions are compared as
disjunctions of conjunctions; two operands are the same when they agree up to parentheses, white space and the order of
`&&` and `||`.
-/

namespace ComponentLint.Rules.DeadBranch

open Text Markup

/-- The description of the rule. -/
def info : RuleInfo where
  name := "no-dupe-v-else-if"
  category := .essential
  description := "disallow duplicate conditions in `v-if` / `v-else-if` chains"
  messages :=
    [("unexpected",
      "This branch can never execute. Its condition is a duplicate or covered by previous conditions " ++
        "in the `v-if` / `v-else-if` chain.")]

/-- The operands of a chain of one operator, parentheses taken away. -/
def operands (operator : Script.LogicalOperator) : Script.Node → List Script.Node
  | ⟨.paren, _, [inner]⟩ => operands operator inner
  | ⟨.logical found, span, [left, right]⟩ =>
    if found == operator then operands operator left ++ operands operator right
    else [⟨.logical found, span, [left, right]⟩]
  | node => [node]

/-- A condition as a disjunction of conjunctions. -/
def disjunction (condition : Script.Node) : List (List Script.Node) :=
  (operands .disjunction condition).map (operands .conjunction)

/-- Whether two expressions are of one kind and one text, apart from white space. -/
def sameText (document : Document) (a b : Script.Node) : Bool :=
  a.kind.ctorIdx == b.kind.ctorIdx && normalize (document.text a.span) == normalize (document.text b.span)

/-- Whether two expressions are the same up to parentheses and the order of `&&` and `||`. -/
def equivalent (document : Document) : Script.Node → Script.Node → Bool
  | ⟨.paren, _, [inner]⟩, other => equivalent document inner other
  | ⟨.logical operator, span, [left, right]⟩, other =>
    match other.unparenthesized with
    | ⟨.logical operator', span', [left', right']⟩ =>
      if operator == operator' && operator != .fallback then
        (equivalent document left left' && equivalent document right right') ||
          (equivalent document left right' && equivalent document right left')
      else sameText document ⟨.logical operator, span, [left, right]⟩ ⟨.logical operator', span', [left', right']⟩
    | plain => sameText document ⟨.logical operator, span, [left, right]⟩ plain
  | node, other => sameText document node other.unparenthesized

/-- Whether every operand of one conjunction is an operand of the other. -/
def covers (document : Document) (earlier later : List Script.Node) : Bool :=
  earlier.all fun a => later.any (equivalent document a)

/-- The conjunctions that an earlier condition does not cover. -/
def uncovered (document : Document) (earlier : List (List Script.Node)) (conjunctions : List (List Script.Node)) :
    List (List Script.Node) :=
  conjunctions.filter fun conjunction => !earlier.any (covers document · conjunction)

/-- Whether earlier conditions leave nothing of some part of a condition, or less of the whole than it has disjuncts. The
last of the parts is the condition as a whole. -/
def isDead (document : Document) (disjuncts : Nat) (parts : List (List (List Script.Node))) : List Script.Node → Bool
  | [] => false
  | earlier :: rest =>
    let left := parts.map (uncovered document (disjunction earlier))
    left.any (·.isEmpty) || left.getLast?.any (·.length < disjuncts) || isDead document disjuncts left rest

/-- The parts of a condition each of which narrows the branch: the operands of `&&`, and the condition as a whole. -/
def parts (condition : Script.Node) : List Script.Node :=
  match condition.unparenthesized.kind with
  | .logical .conjunction => operands .conjunction condition ++ [condition]
  | _ => [condition]

/-- The condition of a branch. -/
def condition? (element : Element) : Option Script.Node :=
  match element.directive? "if" with
  | some attr => attr.expression?
  | none => (element.directive? "else-if").bind (·.expression?)

/-- Reports a branch that is never taken. -/
def check (file : File) (id : NodeId) (element : Element) : List Report :=
  match (element.directive? "else-if").bind (·.expression?) with
  | none => []
  | some condition =>
    let earlier := (file.document.chainBefore id).filterMap fun branch =>
      (file.document.element? branch).bind condition?
    if isDead file.document (disjunction condition).length ((parts condition).map disjunction) earlier then
      [info.report "unexpected" condition.span]
    else []

/-- The rule. -/
def rule : Rule where
  info := info
  checks? _ _ := some { watches := [.elementsWith "else-if" check] }

end ComponentLint.Rules.DeadBranch
