import ComponentLint.Config.Value
import ComponentLint.Lint.Rule

/-!
# Styles of directives

The directives `v-bind` and `v-on` with an argument are written out or with their marks.
-/

namespace ComponentLint.Rules

open Markup

/-- How a directive is written. -/
inductive DirectiveStyle where
  | shorthand
  | longform
  deriving DecidableEq, Repr

/-- The style of the options. -/
def DirectiveStyle.ofOptions? (options : List Json) : Option DirectiveStyle :=
  Json.option? options 0 (Json.variant? [("shorthand", .shorthand), ("longform", .longform)]) .shorthand

/-- The schema of a style. -/
def DirectiveStyle.schema : Schema := .tuple [.choice ["shorthand", "longform"]]

namespace BindStyle

/-- The description of the rule. -/
def info : RuleInfo where
  name := "v-bind-style"
  category := .stronglyRecommended
  description := "enforce `v-bind` directive style"
  fixable := true
  messages :=
    [("expectedLonghand", "Expected 'v-bind' before ':'."), ("unexpectedLonghand", "Unexpected 'v-bind' before ':'."),
     ("expectedLonghandForProp", "Expected 'v-bind:' instead of '.'.")]
  schema := DirectiveStyle.schema

/-- The `prop` modifier that is written in a key. -/
def writtenProp? (key : DirectiveKey) : Option Name :=
  key.modifiers.find? fun modifier => modifier.text == "prop" && modifier.span.start != modifier.span.stop

/-- The edits that write a binding with its mark; a `prop` modifier gives way to the mark of bound properties. -/
def shorten (key : DirectiveKey) (argument : Argument) (draft : FixDraft) : FixDraft :=
  match writtenProp? key with
  | some prop =>
    (draft.replaceBetween key.span.start argument.span.start ".").removeBetween (prop.span.start - 1) prop.span.stop
  | none => draft.replaceBetween key.span.start argument.span.start ":"

/-- The message about a binding in the other style and the edits that restyle it; none if the style is as asked. -/
def restyle? (style : DirectiveStyle) (key : DirectiveKey) (draft : FixDraft) : Option (String × FixDraft) := do
  let argument ← key.argument
  let marked := key.shorthand == some '.' || key.shorthand == some ':'
  match style with
  | .shorthand => if marked then none else some ("unexpectedLonghand", shorten key argument draft)
  | .longform =>
    if !marked then none
    else if key.shorthand == some '.' then
      some ("expectedLonghandForProp",
        (draft.replaceBetween key.span.start argument.span.start "v-bind:").insertAfter argument.span ".prop")
    else some ("expectedLonghand", draft.insertBefore key.span "v-bind")

/-- Reports a binding in the other style. -/
def check (style : DirectiveStyle) (file : File) (_ : NodeId) (attr : Attribute) (key : DirectiveKey) : List Report :=
  match restyle? style key file.draft with
  | some (id, draft) => [(info.report id attr.span).withFix draft.build?]
  | none => []

/-- The rule. -/
def rule : Rule where
  info := info
  checks? _ options := (DirectiveStyle.ofOptions? options).map fun style =>
    { watches := [.directives { name := "bind" } (check style)] }

end BindStyle

namespace OnStyle

/-- The description of the rule. -/
def info : RuleInfo where
  name := "v-on-style"
  category := .stronglyRecommended
  description := "enforce `v-on` directive style"
  fixable := true
  messages :=
    [("expectedShorthand", "Expected '@' instead of 'v-on:'."), ("expectedLonghand", "Expected 'v-on:' instead of '@'.")]
  schema := DirectiveStyle.schema

/-- The message about a handler in the other style and the edit that restyles it; none if the style is as asked. -/
def restyle? (style : DirectiveStyle) (key : DirectiveKey) (draft : FixDraft) : Option (String × FixDraft) := do
  let argument ← key.argument
  let before : Span := ⟨key.span.start, argument.span.start⟩
  match style, key.shorthand == some '@' with
  | .shorthand, false => some ("expectedShorthand", draft.replace before "@")
  | .longform, true => some ("expectedLonghand", draft.replace before "v-on:")
  | _, _ => none

/-- Reports a handler in the other style. -/
def check (style : DirectiveStyle) (file : File) (_ : NodeId) (attr : Attribute) (key : DirectiveKey) : List Report :=
  match restyle? style key file.draft with
  | some (id, draft) => [(info.report id attr.span).withFix draft.build?]
  | none => []

/-- The rule. -/
def rule : Rule where
  info := info
  checks? _ options := (DirectiveStyle.ofOptions? options).map fun style =>
    { watches := [.directives { name := "on" } (check style)] }

end OnStyle

end ComponentLint.Rules
