import ComponentLint.Proofs.Script.References
import ComponentLint.Proofs.Script.Tokens
import ComponentLint.Script.Parser

/-!
# Comparisons of a variable with a text

A cursor on a name, an operator and a text, in this order and with nothing behind them, is read as one comparison
(`Comparison.expression_run`).
-/

namespace ComponentLint.Script

open Script.Parser

namespace Grammar

/-- The tokens of a comparison of a variable with a text, from the name on. -/
structure Comparison (name value : String) (cursor : Cursor) : Prop where
  reference : isReferenceName name = true
  name : cursor.token = .word name false
  operator : cursor.advance.token = .punct "==="
  text : cursor.advance.advance.token = .string value
  stop : cursor.advance.advance.advance.token = .endOfText

namespace Comparison

variable {name value : String} {cursor : Cursor} {sub : Sub} {dialect : Dialect} {fuel : Nat}

/-- The name that is compared. -/
def left (name : String) (cursor : Cursor) : Node :=
  ⟨.identifier name, ⟨cursor.here.offset, cursor.advance.previous⟩, []⟩

/-- The text it is compared with. -/
def right (value : String) (cursor : Cursor) : Node :=
  ⟨.string value, ⟨cursor.advance.advance.here.offset, cursor.advance.advance.advance.previous⟩, []⟩

/-- The comparison. -/
def node (name value : String) (cursor : Cursor) : Node :=
  ⟨.binary "===", ⟨cursor.here.offset, cursor.advance.advance.advance.previous⟩, [left name cursor, right value cursor]⟩

section Productions

variable (h : Comparison name value cursor)
include h

theorem refers : Refers name false cursor :=
  ⟨h.name, h.reference, .inr (by simp [h.operator, Token.isWord, Token.isScalar])⟩

theorem ends : Ends dialect cursor.advance.advance.advance :=
  .of_stop (.inr h.stop)

theorem primary_text (newInstance : Parser Node) :
    primary sub (.top dialect) newInstance cursor.advance.advance =
      some (right value cursor, cursor.advance.advance.advance) := by
  have hbump := @bump_run cursor.advance.advance (by simp [h.text])
  simp [primary, h.text, hbump, right]

omit h in
/-- The name and the text are operands: what stands behind each goes on with no member or call. -/
theorem leftHandSide_run {start next : Cursor} {operand : Node} (hnext : next.token = .punct "===" ∨ next.token = .endOfText)
    (hprimary : ∀ newInstance, primary (run fuel) (.top dialect) newInstance start = some (operand, next)) :
    run (fuel + 1) (.top dialect) .leftHandSide start = some (operand, next) := by
  have hchain : chainStep (run fuel) (.top dialect) ⟨operand, false⟩ next = some (none, next) := by
    rcases hnext with hnext | hnext
    · simp [chainStep, memberStep, atAngle, hnext]
    · simp [chainStep, memberStep, atAngle, hnext]
  have hgrow := grow_run hchain
  simp [run, step, leftHandSide, hprimary, hgrow]

theorem unary_name :
    run (fuel + 2) (.top dialect) .unary cursor = some (left name cursor, cursor.advance) :=
  h.refers.unary_run (leftHandSide_run (.inl h.operator) h.refers.primary_run) (by simp [h.operator])

theorem unary_text :
    run (fuel + 2) (.top dialect) .unary cursor.advance.advance = some (right value cursor, cursor.advance.advance.advance) := by
  have hleft := @leftHandSide_run dialect fuel _ _ _ (.inr h.stop) h.primary_text
  simp [run.eq_def (fuel + 2), step, unary, unary.operand, h.text, hleft, h.stop]

theorem binary_text (level : Nat) :
    run (fuel + 3) (.top dialect) (.binary level) cursor.advance.advance =
      some (right value cursor, cursor.advance.advance.advance) := by
  have hgrow := grow_run (@Ends.binaryStep_run dialect _ (run (fuel + 2)) h.ends level (right value cursor))
  simp [run.eq_def (fuel + 3), step, binary, firstOperand, h.text, h.unary_text, hgrow]

/-- The name, the operator and the text make one comparison. -/
theorem binary_run :
    run (fuel + 4) (.top dialect) (.binary 1) cursor = some (node name value cursor, cursor.advance.advance.advance) := by
  have hoperator : binaryStep (run (fuel + 3)) (.top dialect) 1 (left name cursor) cursor.advance =
      some (some (node name value cursor), cursor.advance.advance.advance) := by
    have hbump := @bump_run cursor.advance (by simp [h.operator])
    simp [binaryStep, binaryOperator?, wholeMark, h.operator, precedence?, bumpMark, hbump, h.binary_text, binaryNode,
      logicalOperator?, node, left, right]
  have hgrow := grow_run_once hoperator (h.ends.binaryStep_run 1 (node name value cursor))
  simp [run.eq_def (fuel + 4), step, binary, firstOperand, h.name, h.unary_name, hgrow]

theorem expression_run :
    run (fuel + 6) (.top dialect) .expression cursor = some (node name value cursor, cursor.advance.advance.advance) :=
  h.refers.expression_of_binary h.binary_run h.ends

end Productions

end Comparison

end Grammar

/-! ## Reading a comparison -/

open Text

/-- A comparison of a variable with a text as it is written. -/
def comparison (name text : List Char) : List Char :=
  name ++ ' ' :: '=' :: '=' :: '=' :: ' ' :: '\'' :: (text ++ ['\''])

/-- Whether a name and a text can be compared: the name refers to a variable, and the text needs no escapes. -/
structure Comparable (name text : List Char) : Prop where
  word : isPlainWord name = true
  reference : isReferenceName (String.ofList name) = true
  plain : ∀ c ∈ text, isPlainIn '\'' c = true

theorem byteLength_comparison (name text : List Char) :
    byteLength (comparison name text) = byteLength name + 7 + byteLength text := by
  have hsizes : ' '.utf8Size = 1 ∧ '='.utf8Size = 1 ∧ '\''.utf8Size = 1 := by decide
  simp only [comparison, byteLength_append, byteLength_cons, byteLength_nil, hsizes]
  omega

/-- The cursors from a comparison on: on its name, its operator, its text, and behind it. -/
theorem Comparable.cursors {name text : List Char} (h : Comparable name text) :
    Cursor.ofText (comparison name text) = .facing 0 (comparison name text) 0 ⟨[], false, []⟩ ∧
      (Cursor.ofText (comparison name text)).advance = .facing (byteLength name + 1)
        ('=' :: '=' :: '=' :: ' ' :: '\'' :: (text ++ ['\''])) (byteLength name) ⟨[], false, []⟩ ∧
      (Cursor.ofText (comparison name text)).advance.advance = .facing (byteLength name + 5) ('\'' :: (text ++ ['\'']))
        (byteLength name + 4) ⟨[], false, []⟩ ∧
      (Cursor.ofText (comparison name text)).advance.advance.advance = .facing (byteLength (comparison name text)) []
        (byteLength (comparison name text)) ⟨[], false, []⟩ := by
  have hsolid : ∀ c ∈ ['=', '\''], isLineEnd c = false ∧ isBlank c = false ∧ c ≠ '/' := by simp [isLineEnd, isBlank]
  have hword := @readToken_word name (' ' :: '=' :: '=' :: '=' :: ' ' :: '\'' :: (text ++ ['\''])) h.word
    (by rintro _ ⟨⟩; decide) 0
  rw [Nat.zero_add] at hword
  have htext := readToken_text (.inl rfl) h.plain [] (byteLength name + 5)
  have hfirst : Cursor.ofText (comparison name text) = .facing 0 (comparison name text) 0 ⟨[], false, []⟩ := by
    cases name with
    | nil => cases h.word
    | cons c name => exact enter_solid (solid_of_isIdStart (Bool.and_eq_true_iff.1 h.word).1) 0 _ 0 _
  have hoperator := (facing_token hword 0 ⟨[], false, []⟩).2
  rw [enter_blank (hsolid '=' (by simp)), ← comparison, ← hfirst] at hoperator
  have hliteral := (facing_token (readToken_equals (byteLength name + 1) (' ' :: '\'' :: (text ++ ['\''])))
    (byteLength name) ⟨[], false, []⟩).2
  rw [enter_blank (hsolid '\'' (by simp)), ← hoperator] at hliteral
  have hlast := (facing_token htext (byteLength name + 4) ⟨[], false, []⟩).2
  rw [enter_nil, ← hliteral] at hlast
  have hlength : byteLength name + 5 + 2 + byteLength text = byteLength (comparison name text) := by
    rw [byteLength_comparison]
  rw [hlength] at hlast
  exact ⟨hfirst, hoperator, hliteral, hlast⟩

theorem Comparable.tokens {name text : List Char} (h : Comparable name text) :
    Grammar.Comparison (String.ofList name) (String.ofList text) (Cursor.ofText (comparison name text)) := by
  obtain ⟨hfirst, hoperator, hliteral, hlast⟩ := h.cursors
  have hword := @readToken_word name (' ' :: '=' :: '=' :: '=' :: ' ' :: '\'' :: (text ++ ['\''])) h.word
    (by rintro _ ⟨⟩; decide) 0
  refine ⟨h.reference, ?_, ?_, ?_, ?_⟩
  · rw [hfirst]
    exact (facing_token hword _ _).1
  · rw [hoperator]
    exact (facing_token (readToken_equals _ _) _ _).1
  · rw [hliteral]
    exact (facing_token (readToken_text (.inl rfl) h.plain [] _) _ _).1
  · rw [hlast]
    rfl

/-- The tree of a comparison. -/
def comparisonNode (name text : List Char) : Node :=
  ⟨.binary "===", ⟨0, byteLength (comparison name text)⟩,
    [⟨.identifier (String.ofList name), ⟨0, byteLength name⟩, []⟩,
     ⟨.string (String.ofList text), ⟨byteLength name + 5, byteLength (comparison name text)⟩, []⟩]⟩

/-- A comparison is read as one, in whatever language the script is written. -/
theorem Comparable.parseExpression? {name text : List Char} (h : Comparable name text) (dialect : Dialect) :
    parseExpression? dialect (comparison name text) = some (comparisonNode name text) := by
  obtain ⟨hfirst, hoperator, hliteral, hlast⟩ := h.cursors
  have hfuel : nesting (comparison name text) = nesting (comparison name text) - 6 + 6 := by
    unfold nesting
    omega
  have hrun := @Grammar.Comparison.expression_run _ _ _ dialect (nesting (comparison name text) - 6) h.tokens
  rw [← hfuel, Grammar.Comparison.node, Grammar.Comparison.left, Grammar.Comparison.right,
    hlast, hliteral, hoperator, hfirst] at hrun
  simp only [Script.parseExpression?, StateT.run, hfirst, hrun, Option.bind_eq_bind, Option.bind_some]
  rfl

end ComponentLint.Script
