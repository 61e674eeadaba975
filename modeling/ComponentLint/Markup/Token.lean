import ComponentLint.Text.Span

/-!
# Tokens and problems of markup

The kinds of tokens a file consists of. A token is a kind and a span; white space inside tags belongs to no token.
-/

namespace ComponentLint.Markup

/-- What a token of markup is. -/
inductive TokenKind where
  /-- The start of a start tag with its name. -/
  | tagOpen
  /-- The start of an end tag with its name. -/
  | endTagOpen
  | tagClose
  | tagSelfClose
  | attributeName
  | attributeEquals
  | attributeValue
  | text
  | whitespace
  | mustacheOpen
  | mustacheClose
  | comment
  /-- Content that is not read as markup. -/
  | rawText
  deriving DecidableEq, Repr

/-- A token with the bytes it spans. -/
structure Token where
  kind : TokenKind
  span : Span
  deriving DecidableEq, Repr

/-- The tokens that a span gives: one, or none if the span is empty. -/
def Token.spanning (kind : TokenKind) (start stop : Nat) : List Token :=
  if start < stop then [⟨kind, ⟨start, stop⟩⟩] else []

end ComponentLint.Markup

/-!
## Problems of a file

What a parser can find wrong with a file. Reading goes on after a problem.
-/

namespace ComponentLint

/-- The cause of a problem. -/
inductive Cause where
  | unterminatedComment
  | invalidInterpolation
  | unterminatedEndTag
  | unexpectedEndTag (name : String)
  | unterminatedStartTag (name : String)
  | unterminatedValue
  | invalidDirective (name : String)
  /-- An error in a script, in the words of its parser. -/
  | script (message : String)
  deriving DecidableEq, Repr

/-- The wording of a cause. -/
def Cause.message : Cause → String
  | .unterminatedComment => "unterminated comment"
  | .invalidInterpolation => "invalid interpolation expression"
  | .unterminatedEndTag => "unterminated end tag"
  | .unexpectedEndTag name => "unexpected end tag `</" ++ name ++ ">`"
  | .unterminatedStartTag name => "unterminated start tag `<" ++ name ++ "`"
  | .unterminatedValue => "unterminated attribute value"
  | .invalidDirective name => "invalid expression in `v-" ++ name ++ "`"
  | .script message => message

/-- A problem and where it lies. -/
structure Problem where
  cause : Cause
  span : Span
  deriving DecidableEq, Repr

namespace Problem

/-- The wording of a problem. -/
def message (problem : Problem) : String :=
  problem.cause.message

/-- The wording of a problem with its place. -/
def located (problem : Problem) : String :=
  problem.message ++ " at " ++ toString problem.span.start ++ ".." ++ toString problem.span.stop

end Problem

end ComponentLint
