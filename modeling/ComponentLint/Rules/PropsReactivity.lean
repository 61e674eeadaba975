import ComponentLint.Lint.Rule
import ComponentLint.Script.Node

/-!
# Reactivity of props

The props of a component are a reactive object. Taking it apart, or copying one of its members into a variable while
setup runs, keeps a value that does not follow later changes. Functions run later, so what they read is up to date.
-/

namespace ComponentLint.Rules.PropsReactivity

/-- The description of the rule. -/
def info : RuleInfo where
  name := "no-setup-props-reactivity-loss"
  category := .uncategorized
  description := "disallow usages that lose the reactivity of `props` passed to `setup`"
  messages :=
    [("destructuring", "Destructuring the `props` will cause the value to lose reactivity."),
     ("getProperty",
      "Getting a value from the `props` in root scope of `\x7b\x7bscopeName\x7d\x7d` will cause the value to lose reactivity.")]

/-- A read of a variable that loses reactivity if the variable holds the props. -/
inductive RootRead where
  /-- The variable at `source` is taken apart by a pattern. -/
  | destructure (pattern source : Span)
  /-- A member of the variable at `source` is copied. -/
  | property (member source : Span)
  deriving DecidableEq, Repr

/-- The object of a member of any form. -/
def memberObject? : Script.Node → Option Script.Node
  | ⟨.member .., _, object :: _⟩ => some object
  | ⟨.index _, _, object :: _⟩ => some object
  | ⟨.privateMember .., _, object :: _⟩ => some object
  | _ => none

/-- The read that gives a value to a target. -/
def readOf (target : Span) (destructures : Bool) (value : Script.Node) : List RootRead :=
  let value := value.unparenthesized
  if destructures then
    match value with
    | ⟨.identifier _, source, _⟩ => [.destructure target source]
    | _ => []
  else
    match (memberObject? value).map Script.Node.unparenthesized with
    | some ⟨.identifier _, source, _⟩ => [.property value.span source]
    | _ => []

/-- The read that a declaration or an assignment makes. -/
def readsOf : Script.Node → List RootRead
  | ⟨.declarator, _, [⟨.binding _, span, _⟩, value]⟩ => readOf span false value
  | ⟨.declarator, _, [pattern, value]⟩ => readOf pattern.span true value
  | ⟨.assign _, _, [⟨.arrayTarget, span, _⟩, value]⟩ => readOf span true value
  | ⟨.assign _, _, [⟨.objectTarget, span, _⟩, value]⟩ => readOf span true value
  | ⟨.assign _, _, [⟨.identifier _, span, _⟩, value]⟩ => readOf span false value
  | _ => []

/-- Whether a node runs where it stands: the bodies of functions and classes run later. -/
def runsInPlace (node : Script.Node) : Bool :=
  match node.kind with
  | .functionDef _ => false
  | .arrow _ => false
  | .classDef => false
  | _ => true

/-- The reads that statements make while they run. -/
def rootReads (statements : List Script.Node) : List RootRead :=
  Script.Node.gatherAll runsInPlace readsOf statements

/-- Reports a read of the props. -/
def checkRead (scopes : ScopeTable) (props : Nat) (scopeName : String) : RootRead → List Report
  | .destructure pattern source =>
    if scopes.resolvedAt? source == some props then [info.report "destructuring" pattern] else []
  | .property member source =>
    if scopes.resolvedAt? source == some props then [info.report "getProperty" member [("scopeName", scopeName)]] else []

/-- Reports the reads of the props that statements make while they run. -/
def checkRoot (scopes : ScopeTable) (props : Option Nat) (statements : List Script.Node) (scopeName : String) :
    List Report :=
  match props with
  | some props => (rootReads statements).flatMap (checkRead scopes props scopeName)
  | none => []

/-- Checks the `setup` function of the options, whose first parameter holds the props. -/
def checkOption (file : File) : List Report :=
  match (file.options?.bind (Options.function? · "setup")).bind fun setup => setup.params.head?.map (setup, ·) with
  | none => []
  | some (setup, param) =>
    let statements := (setup.body?.map (·.children)).getD []
    match param.pattern? with
    | some ⟨.binding _, span, _⟩ => checkRoot file.scopes (file.scopes.bindingAt? span) statements "setup"
    | some pattern => [info.report "destructuring" pattern.span]
    | none => []

/-- The declarators of the variable declarations among statements. -/
def declarators (statements : List Script.Node) : List Script.Node :=
  statements.flatMap fun statement =>
    match statement.kind with
    | .variables _ => statement.children
    | _ => []

/-- The patterns that take what the props macros give. -/
def propsPatterns (scopes : ScopeTable) (statements : List Script.Node) : List Script.Node :=
  (declarators statements).filterMap fun declarator =>
    match declarator.children with
    | [pattern, value] => if scopes.isApiCall ["defineProps", "withDefaults"] value then some pattern else none
    | _ => none

/-- Whether a pattern is a plain name. -/
def isName (pattern : Script.Node) : Bool :=
  match pattern.kind with
  | .binding _ => true
  | _ => false

/-- Checks the setup script, where a macro gives the props. -/
def checkScript (file : File) : List Report :=
  match file.component.setupScript? with
  | none => []
  | some script =>
    let patterns := propsPatterns file.scopes script.statements
    let props := (patterns.filter isName).getLast?.bind fun pattern => file.scopes.bindingAt? pattern.span
    (patterns.filter (!isName ·)).map (fun pattern => info.report "destructuring" pattern.span) ++
      checkRoot file.scopes props script.statements "<script setup>"

/-- The rule. -/
def rule : Rule where
  info := info
  checks? _ _ := some { scripts := fun file => .reporting (checkOption file ++ checkScript file) }

end ComponentLint.Rules.PropsReactivity
