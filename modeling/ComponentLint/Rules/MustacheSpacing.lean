import ComponentLint.Config.Value
import ComponentLint.Lint.Rule

/-!
# Spacing in interpolations

The expression of an interpolation is set off from its braces by white space, or it is not.
-/

namespace ComponentLint.Rules.MustacheSpacing

open Text Markup

/-- Whether white space stands inside the braces. -/
inductive Spacing where
  | always
  | never
  deriving DecidableEq, Repr

/-- The spacing of the options. -/
def Spacing.ofOptions? (options : List Json) : Option Spacing :=
  Json.option? options 0 (Json.variant? [("always", .always), ("never", .never)]) .always

/-- The description of the rule. -/
def info : RuleInfo where
  name := "mustache-interpolation-spacing"
  category := .stronglyRecommended
  description := "enforce unified spacing in mustache interpolations"
  fixable := true
  messages :=
    [("expectedSpaceAfter", "Expected 1 space after '\x7b\x7b', but not found."),
     ("expectedSpaceBefore", "Expected 1 space before '\x7d\x7d', but not found."),
     ("unexpectedSpaceAfter", "Expected no space after '\x7b\x7b', but found."),
     ("unexpectedSpaceBefore", "Expected no space before '\x7d\x7d', but found.")]
  schema := .tuple [.choice ["always", "never"]]

/-- The bytes of the white space at the start of a text. -/
def leadingBlank (text : List Char) : Nat :=
  byteLength text - byteLength (trimStart text)

/-- The bytes of the white space at the end of a text. -/
def trailingBlank (text : List Char) : Nat :=
  byteLength text - byteLength (trimEnd text)

/-- Checks the two ends of an interpolation that holds an expression. -/
def check (spacing : Spacing) (file : File) (_ : NodeId) (content : Interpolation) : List Report :=
  let inner := file.text ⟨content.opening.stop, content.closing.start⟩
  let first := content.opening.stop + leadingBlank inner
  let last := content.closing.start - trailingBlank inner
  let opening : Span := ⟨content.opening.start, first⟩
  let closing : Span := ⟨last, content.closing.stop⟩
  if content.expression.isNone then []
  else
    match spacing with
    | .always =>
      (if first == content.opening.stop then
        [(info.report "expectedSpaceAfter" opening).withFix (file.draft.insertAfter content.opening " ").build?]
      else []) ++
      (if last == content.closing.start then
        [(info.report "expectedSpaceBefore" closing).withFix (file.draft.insertBefore content.closing " ").build?]
      else [])
    | .never =>
      (if first != content.opening.stop then
        [(info.report "unexpectedSpaceAfter" opening).withFix
          (file.draft.removeBetween content.opening.stop first).build?]
      else []) ++
      (if last != content.closing.start then
        [(info.report "unexpectedSpaceBefore" closing).withFix
          (file.draft.removeBetween last content.closing.start).build?]
      else [])

/-- The rule. -/
def rule : Rule where
  info := info
  checks? _ options := (Spacing.ofOptions? options).map fun spacing => { watches := [.interpolations (check spacing)] }

end ComponentLint.Rules.MustacheSpacing
