import ComponentLint.Lint.Rule

/-!
# Keys of loops

The elements that a loop repeats carry a bound `key`. For a loop on a `template` or a `slot`, that is asked of its
children, unless it has a key itself.
-/

namespace ComponentLint.Rules.LoopKey

open Markup

/-- The description of the rule. -/
def info : RuleInfo where
  name := "require-v-for-key"
  category := .essential
  description := "require `v-bind:key` with `v-for` directives"
  messages := [("requireKey", "Elements in iteration expect to have 'v-bind:key' directives.")]

/-- Whether an element renders nothing but its children. -/
def isTransparent (element : Element) : Bool :=
  element.name == "template" || element.name == "slot"

/-- The elements without a key among those that a repeated node renders, at most `fuel` levels deep. -/
def keyless (document : Document) : Nat → NodeId → List Element
  | 0, _ => []
  | fuel + 1, id =>
    match document.element? id with
    | none => []
    | some element =>
      if (element.directiveFor? "bind" "key").isSome then []
      else if isTransparent element then (document.children id).flatMap (keyless document fuel)
      else if element.isComponent then []
      else [element]

/-- Reports the elements of a loop without a key. -/
def check (file : File) (id : NodeId) (_ : Element) : List Report :=
  (keyless file.document file.document.size id).map fun element => info.report "requireKey" element.startTag.span

/-- The rule. -/
def rule : Rule where
  info := info
  checks? _ _ := some { watches := [.elementsWith "for" check] }

end ComponentLint.Rules.LoopKey
