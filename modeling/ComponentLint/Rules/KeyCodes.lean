import ComponentLint.Lint.Rule

/-!
# Key codes as modifiers

A handler names the key it waits for; a key code as a modifier is no longer understood.
-/

namespace ComponentLint.Rules.KeyCodes

open Markup

/-- The names of the keys by their codes. -/
def keyNames : List (Nat × String) :=
  [(8, "backspace"), (9, "tab"), (13, "enter"), (16, "shift"), (17, "ctrl"), (18, "alt"), (19, "pause"),
   (20, "caps-lock"), (27, "escape"), (32, "space"), (33, "page-up"), (34, "page-down"), (35, "end"), (36, "home"),
   (37, "arrow-left"), (38, "arrow-up"), (39, "arrow-right"), (40, "arrow-down"), (45, "insert"), (46, "delete"),
   (65, "a"), (66, "b"), (67, "c"), (68, "d"), (69, "e"), (70, "f"), (71, "g"), (72, "h"), (73, "i"), (74, "j"),
   (75, "k"), (76, "l"), (77, "m"), (78, "n"), (79, "o"), (80, "p"), (81, "q"), (82, "r"), (83, "s"), (84, "t"),
   (85, "u"), (86, "v"), (87, "w"), (88, "x"), (89, "y"), (90, "z"), (91, "meta"), (93, "context-menu"),
   (106, "multiply"), (107, "add"), (109, "subtract"), (110, "decimal"), (111, "divide"), (112, "f1"), (113, "f2"),
   (114, "f3"), (115, "f4"), (116, "f5"), (117, "f6"), (118, "f7"), (119, "f8"), (120, "f9"), (121, "f10"),
   (122, "f11"), (123, "f12"), (144, "num-lock"), (145, "scroll-lock")]

/-- The description of the rule. -/
def info : RuleInfo where
  name := "no-deprecated-v-on-number-modifiers"
  category := .essential
  description := "disallow using deprecated number (keycode) modifiers (in Vue.js 3.0.0+)"
  fixable := true
  messages :=
    [("numeralModifierDeprecated",
      "'KeyboardEvent.keyCode' modifier on 'v-on' directive is deprecated. Using 'KeyboardEvent.key' instead.")]

/-- The key code that a modifier writes: a number of 32 bits above 9, since single digits are names of keys. -/
def keyCode? (modifier : String) : Option Nat :=
  let digits := modifier.toList
  if digits.isEmpty || !digits.all Char.isDigit then none
  else
    let code := digits.foldl (fun value digit => value * 10 + (digit.toNat - 48)) 0
    if 9 < code && code < UInt32.size then some code else none

/-- Reports a modifier that is a key code; the fix writes the name of the key, if it has one. -/
def checkModifier (file : File) (modifier : Name) : List Report :=
  match keyCode? modifier.text with
  | none => []
  | some code =>
    let fix := match keyNames.find? (·.1 == code) with
      | some (_, name) => (file.draft.replace modifier.span name).build?
      | none => none
    [(info.report "numeralModifierDeprecated" modifier.span).withFix fix]

/-- Checks the modifiers of a handler. -/
def check (file : File) (_ : NodeId) (_ : Attribute) (key : DirectiveKey) : List Report :=
  key.modifiers.flatMap (checkModifier file)

/-- The rule. -/
def rule : Rule where
  info := info
  checks? _ _ := some { watches := [.directives { name := "on" } check] }

end ComponentLint.Rules.KeyCodes
