import ComponentLint.Proofs.Script.Running
import ComponentLint.Script.Parser

/-!
# Names that refer to variables

A name with nothing behind it that makes it a keyword (`Refers`) is read as a reference on every level of the grammar that looks
at the name itself: it starts neither an arrow function, nor a `yield`, nor a function. Where an expression ends (`Ends`), nothing
goes on with it on any level.
-/

namespace ComponentLint.Script

open Script.Parser

/-- Whether a word refers to a variable at the top of a module, where `await` is an operator. -/
def isReferenceName (name : String) : Bool :=
  isVariableName name && name != "await"

theorem of_isReferenceName {name : String} (h : isReferenceName name = true) :
    isVariableName name = true ∧ name ≠ "await" := by
  simpa [isReferenceName] using h

/-- Faults that are noted do not change what is read. -/
theorem Cursor.advance_flag (cursor : Cursor) : cursor.flag.advance = cursor.advance.flag := by
  unfold Cursor.advance Cursor.enter
  dsimp only [Cursor.flag]
  split <;> rfl

@[simp] theorem Cursor.flag_token (cursor : Cursor) : cursor.flag.token = cursor.token :=
  rfl

@[simp] theorem Cursor.flag_newline (cursor : Cursor) : cursor.flag.newline = cursor.newline :=
  rfl

/-- Past a word, whether it is escaped or not, the next token is the same. -/
theorem Parser.bump_word_run {cursor : Cursor} {name : String} {escaped : Bool} (h : cursor.token = .word name escaped) :
    bump cursor = some ((), if escaped then cursor.advance.flag else cursor.advance) := by
  cases escaped with
  | false => exact bump_run (by simp [h])
  | true => simp [bump, h, permit, flag, Cursor.advance_flag]

namespace Grammar

/-! ## Ends of expressions -/

/-- Whether a chain of members and calls goes on at the cursor. -/
def goesOn (typed : Bool) (cursor : Cursor) : Bool :=
  match cursor.token with
  | .punct mark => ["?.", "(", ".", "["].contains mark || (mark == "!" && typed && !cursor.newline)
  | token => token.isTemplate

/-- Where an expression at the top of a module ends: nothing goes on with it on any level of the grammar. -/
structure Ends (dialect : Dialect) (cursor : Cursor) : Prop where
  chain : goesOn dialect.typed cursor = false
  update : cursor.newline = false → cursor.token ≠ .punct "++" ∧ cursor.token ≠ .punct "--"
  operator : binaryOperator? (.top dialect) cursor = some (none, cursor)
  assign : ∀ mark, wholeMark cursor = some mark → mark ∉ assignmentMarks ∧ mark ≠ "?"
  comma : cursor.token ≠ .punct ","

/-- A semicolon ends an expression, and so does the end of the text. -/
theorem Ends.of_stop {dialect : Dialect} {cursor : Cursor} (h : cursor.token = .punct ";" ∨ cursor.token = .endOfText) :
    Ends dialect cursor := by
  rcases h with htoken | htoken
  · refine ⟨?_, ?_, ?_, ?_, ?_⟩ <;> simp [goesOn, binaryOperator?, wholeMark, precedence?, assignmentMarks, htoken]
  · refine ⟨?_, ?_, ?_, ?_, ?_⟩ <;> simp [goesOn, binaryOperator?, wholeMark, Token.isTemplate, htoken]

namespace Ends

variable {dialect : Dialect} {cursor : Cursor} {sub : Sub} (h : Ends dialect cursor)
include h

theorem not_angle : cursor.token ≠ .punct "<" ∧ cursor.token ≠ .punct "<<" := by
  have hoperator := h.operator
  constructor
  · intro htoken
    simp [binaryOperator?, wholeMark, htoken, precedence?] at hoperator
  · intro htoken
    simp [binaryOperator?, wholeMark, htoken, precedence?] at hoperator

/-- No member and no call follows. -/
theorem chainStep_run (chain : Chain) : chainStep sub (.top dialect) chain cursor = some (none, cursor) := by
  have hgoesOn := h.chain
  have hangle := h.not_angle
  cases htoken : cursor.token with
  | punct mark =>
    obtain ⟨⟨hoptional, hcall, hdot, hbracket⟩, hmark⟩ : (mark ≠ "?." ∧ mark ≠ "(" ∧ mark ≠ "." ∧ mark ≠ "[") ∧
        (mark = "!" → dialect.typed = true → cursor.newline = true) := by
      simpa [goesOn, htoken] using hgoesOn
    by_cases hexclamation : mark = "!"
    · subst hexclamation
      have hline : ¬(dialect.typed = true ∧ cursor.newline = false) := by
        rintro ⟨htyped, hline⟩
        cases hline.symm.trans (hmark rfl htyped)
      simp [chainStep, memberStep, htoken, atAngle, Env.top, hline]
    · have hless : mark ≠ "<" ∧ mark ≠ "<<" := by simpa [htoken] using hangle
      simp [chainStep, memberStep, htoken, atAngle, hless, hoptional, hcall, hdot, hbracket, hexclamation]
  | template text last => simp [goesOn, htoken, Token.isTemplate] at hgoesOn
  | _ => simp [chainStep, memberStep, htoken, atAngle]

theorem binaryStep_run (level : Nat) (left : Node) : binaryStep sub (.top dialect) level left cursor = some (none, cursor) := by
  simp [binaryStep, h.operator]

theorem assignmentRest_run (left : Node) : assignmentRest sub (.top dialect) left cursor = some (left, cursor) := by
  cases hmark : wholeMark cursor with
  | none => simp [assignmentRest, hmark]
  | some mark =>
    obtain ⟨hassign, hquestion⟩ := h.assign mark hmark
    simp [assignmentRest, hmark, hassign, hquestion]

end Ends

/-! ## Names -/

/-- What makes no keyword of a name on the line before it: neither a word nor a literal, and no arrow, parenthesis or angle
bracket. -/
def Apart (cursor : Cursor) : Prop :=
  cursor.newline = true ∨ cursor.token.isWord = false ∧ cursor.token.isScalar = false ∧ cursor.token ≠ .punct "=>" ∧
    cursor.token ≠ .punct "(" ∧ cursor.token ≠ .punct "<"

theorem apart_of_endOfText {cursor : Cursor} (h : cursor.token = .endOfText) : Apart cursor :=
  .inr (by simp [h, Token.isWord, Token.isScalar])

/-- A name at the cursor that refers to a variable: nothing makes a keyword of it. -/
structure Refers (name : String) (escaped : Bool) (cursor : Cursor) : Prop where
  word : cursor.token = .word name escaped
  reference : isReferenceName name = true
  apart : Apart cursor.advance

namespace Refers

variable {name : String} {escaped : Bool} {cursor : Cursor} {sub : Sub} {dialect : Dialect}

/-- The node of a name at the cursor. -/
def node (name : String) (cursor : Cursor) : Node :=
  ⟨.identifier name, ⟨cursor.here.offset, cursor.advance.previous⟩, []⟩

variable (h : Refers name escaped cursor)
include h

theorem referenceName_run : referenceName (.top dialect) cursor = some (node name cursor, cursor.advance) := by
  obtain ⟨hvariable, hawait⟩ := of_isReferenceName h.reference
  simp [referenceName, h.word, Token.isReference, hvariable, Env.operates, Env.top, hawait, node]

theorem nextWord?_run (word : String) : nextWord? word cursor = some (false, cursor) := by
  rcases h.apart with hline | ⟨hword, -⟩
  · simp [nextWord?, hline]
  · have hkeyword : cursor.advance.token.isKeyword word = false := by
      cases htoken : cursor.advance.token <;> simp_all [Token.isKeyword, Token.isWord]
    simp [nextWord?, hkeyword]

theorem primary_run (newInstance : Parser Node) :
    primary sub (.top dialect) newInstance cursor = some (node name cursor, cursor.advance) := by
  obtain ⟨hvariable, -⟩ := of_isReferenceName h.reference
  have hword : wordExpression sub (.top dialect) newInstance name cursor = some (node name cursor, cursor.advance) := by
    have hne := ne_of_isVariableName hvariable
    unfold wordExpression
    simp only [bind_run, tokenStart_run, Option.bind_some]
    split
    all_goals first
      | exact absurd rfl (hne _ (by decide))
      | simp [h.nextWord?_run, h.referenceName_run]
  simp [primary, h.word, hword]

theorem operatesOnNext_run : operatesOnNext cursor = some (false, cursor) := by
  rcases h.apart with hline | ⟨hword, hscalar, -⟩
  · simp [operatesOnNext, hline]
  · simp [operatesOnNext, hword, hscalar]

/-- No arrow function starts at the name, not even where that is `async`. -/
theorem simpleArrow?_run : simpleArrow? sub (.top dialect) cursor = some (none, cursor) := by
  obtain ⟨hvariable, -⟩ := of_isReferenceName h.reference
  have hisName : (Token.word name escaped).isName = true := hvariable
  have harrow : (cursor.advance.token == .punct "=>" && !cursor.advance.newline) = false := by
    rcases h.apart with hline | ⟨-, -, hmark, -⟩
    · simp [hline]
    · simp [hmark]
  have hahead : ahead (do
      bump
      guard (!(← onNewLine) && (← token).isName)
      bumpName
      return (← at? "=>") && !(← onNewLine)) cursor = some (false, cursor) := by
    have hname : cursor.advance.newline = false → cursor.advance.token.isName = false := by
      intro hline
      rcases h.apart with hnewline | ⟨hword, -⟩
      · cases hline.symm.trans hnewline
      · cases htoken : cursor.advance.token <;> simp_all [Token.isName, Token.isWord]
    refine ahead_run_false ?_
    rw [bind_ensures, ensures_of_run (bump_word_run h.word)]
    cases escaped <;> simp +contextual [hname]
  simp only [simpleArrow?, bind_run, tokenStart_run, token_run, Option.bind_some, h.word, hisName, ite_run, nextIs_run, harrow,
    atWord?_run, hahead]
  simp

theorem parenthesizedArrow?_run : parenthesizedArrow? sub (.top dialect) cursor = some (none, cursor) := by
  have hopens : opensArrow (.top dialect) cursor = some (false, cursor) := by
    refine ahead_run_false ?_
    have hparameters : ∀ next : Cursor, next.token ≠ .punct "(" →
        (opensParameters (.top dialect)).Ensures next fun found _ => found = false := by
      intro next hnext
      simp [opensParameters, hnext]
    rw [bind_ensures, eatWord?, bind_ensures, atWord?_ensures, ite_ensures]
    refine ⟨fun _ => ?_, fun _ => ?_⟩
    · rw [bind_ensures, ensures_of_run (bump_word_run h.word), pure_ensures]
      rcases h.apart with hline | ⟨-, -, -, hopen, hangle⟩
      · cases escaped <;> simp [hline]
      · have hflagged := hparameters cursor.advance.flag hopen
        cases escaped <;> simp [hangle, hparameters _ hopen, hflagged]
    · simp [h.word, hparameters]
  simp [parenthesizedArrow?, hopens]

variable {node : Node} {next : Cursor} {fuel : Nat}

/-- The name is no operator, and what starts with it is an operand. -/
theorem unary_run (hnode : run fuel (.top dialect) .leftHandSide cursor = some (node, next))
    (hupdate : next.newline = false → next.token ≠ .punct "++" ∧ next.token ≠ .punct "--") :
    run (fuel + 1) (.top dialect) .unary cursor = some (node, next) := by
  obtain ⟨hvariable, hawait⟩ := of_isReferenceName h.reference
  have hwords : name ∉ unaryWords := by
    have hreserved : ∀ word ∈ unaryWords, word ∈ reservedWords := by decide
    exact fun hmem => ne_of_isVariableName hvariable name (hreserved name hmem) rfl
  have hoperand : unary.operand (run fuel) (.top dialect) cursor.here.offset cursor = some (node, next) := by
    by_cases hline : next.newline = true
    · simp [unary.operand, hnode, hline]
    · obtain ⟨hplus, hminus⟩ := hupdate (Bool.eq_false_iff.2 hline)
      simp [unary.operand, hnode, hline]
  rw [run, step, unary]
  simp [h.word, hwords, hoperand]

theorem assignment_run (hnode : run fuel (.top dialect) (.binary 1) cursor = some (node, next)) (hends : Ends dialect next) :
    run (fuel + 1) (.top dialect) .assignment cursor = some (node, next) := by
  have hgenerator : (Env.top dialect).inGenerator = false := rfl
  simp [run, step, assignment, h.operatesOnNext_run, hgenerator, h.simpleArrow?_run, h.parenthesizedArrow?_run, hnode,
    hends.assignmentRest_run]

/-- What binary operators make of what starts with the name is all of an expression if nothing goes on with it. -/
theorem expression_of_binary (hnode : run fuel (.top dialect) (.binary 1) cursor = some (node, next))
    (hends : Ends dialect next) : run (fuel + 2) (.top dialect) .expression cursor = some (node, next) := by
  have hparts := separated_run (h.assignment_run hnode hends) hends.comma
  simp [run.eq_def (fuel + 2), step, expression, hparts]

/-- What starts with the name is all of an expression if nothing goes on with it. -/
theorem expression_run (hnode : run fuel (.top dialect) .leftHandSide cursor = some (node, next)) (hends : Ends dialect next) :
    run (fuel + 4) (.top dialect) .expression cursor = some (node, next) := by
  have hunary := h.unary_run hnode hends.update
  have hgrow := grow_run (@Ends.binaryStep_run dialect next (run (fuel + 1)) hends 1 node)
  have hbinary : run (fuel + 2) (.top dialect) (.binary 1) cursor = some (node, next) := by
    simp [run.eq_def (fuel + 2), step, binary, firstOperand, h.word, hunary, hgrow]
  exact h.expression_of_binary hbinary hends

end Refers

end Grammar

end ComponentLint.Script
