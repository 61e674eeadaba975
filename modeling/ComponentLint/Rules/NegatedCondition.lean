import ComponentLint.Lint.Rule
import ComponentLint.Markup.Sibling

/-!
# Negated conditions

A conditional with an alternative reads better when its condition is positive: the suggestion turns the condition
around and swaps the two bodies.
-/

namespace ComponentLint.Rules.NegatedCondition

open Text Markup

/-- The description of the rule. -/
def info : RuleInfo where
  name := "no-negated-v-if-condition"
  category := .uncategorized
  description := "disallow negated conditions in `v-if` with `v-else`"
  hasSuggestions := true
  messages :=
    [("negatedCondition", "Unexpected negated condition in v-if with v-else."),
     ("fixNegatedCondition", "Convert to positive condition and swap if/else blocks.")]

/-- Whether a condition is a negation or an inequality. -/
def isNegated (condition : Script.Node) : Bool :=
  match condition.kind with
  | .unary operator => operator == "!"
  | .binary operator => operator == "!=" || operator == "!=="
  | _ => false

/-- The bytes between the tags of an element. -/
def body? (element : Element) : Option Span :=
  element.endTag.map fun tag => ⟨element.startTag.span.stop, tag.start⟩

/-- Where a word occurs first in a span. -/
def find? (file : File) (span : Span) (word : String) : Option Span :=
  (cutAt? word.toList (file.text span)).map fun (before, _) =>
    let start := span.start + byteLength before
    ⟨start, start + byteLength word.toList⟩

/-- The edit that turns a condition around. -/
def invert (file : File) (condition : Script.Node) (draft : FixDraft) : Option FixDraft :=
  match condition with
  | ⟨.unary _, span, [operand]⟩ => some (draft.replace span (file.string operand.unparenthesized.span))
  | ⟨.binary operator, _, [left, right]⟩ =>
    let (negated, positive) := if operator == "!==" then ("!==", "===") else ("!=", "==")
    (find? file ⟨left.span.stop, right.span.start⟩ negated).map fun span => draft.replace span positive
  | _ => none

/-- The fix that turns a condition around and swaps the bodies of the two branches. -/
def swapFix? (file : File) (condition : Script.Node) (branch alternative : Element) : Option Fix := do
  let first ← body? branch
  let second ← body? alternative
  let draft ← invert file condition file.draft
  ((draft.replace first (file.string second)).replace second (file.string first)).build?

/-- The alternative that follows an element at once. -/
def alternative? (file : File) (id : NodeId) : Option Element := do
  let next ← file.document.nextElement? id
  let element ← file.document.element? next
  if element.branch? == some .elseBranch then some element else none

/-- Reports a negated condition of an element with an alternative. -/
def check (file : File) (id : NodeId) (element : Element) : List Report :=
  match (element.directive? "if").bind (·.expression?) with
  | none => []
  | some test =>
    let condition := test.unparenthesized
    if isNegated condition then
      match alternative? file id with
      | some alternative =>
        [(info.report "negatedCondition" condition.span).withSuggestion
          "Convert to positive condition and swap if/else blocks." (swapFix? file condition element alternative)]
      | none => []
    else []

/-- The rule. -/
def rule : Rule where
  info := info
  checks? _ _ := some { watches := [.elementsWith "if" check] }

end ComponentLint.Rules.NegatedCondition
