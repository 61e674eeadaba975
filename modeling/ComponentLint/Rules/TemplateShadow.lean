import ComponentLint.Lint.Rule

/-!
# Shadowing in the template

A loop or a slot does not reuse a name that the template can already see.
-/

namespace ComponentLint.Rules.TemplateShadow

/-- The description of the rule. -/
def info : RuleInfo where
  name := "no-template-shadow"
  category := .stronglyRecommended
  description := "disallow variable declarations from shadowing variables declared in the outer scope"
  messages :=
    [("alreadyDeclaredInUpperScope", "Variable '\x7b\x7bname\x7d\x7d' is already declared in the upper scope.")]

/-- Whether a name can be seen around the scope of a binding. -/
def isDeclaredAround (scopes : ScopeTable) (binding : Binding) : Bool :=
  match (scopes.scopes[binding.scope]?).bind (·.parent) with
  | some parent => (scopes.resolve? parent binding.name).isSome
  | none => false

/-- Reports the names of the template that are declared around it, in a script or in the options. -/
def check (file : File) : List Report :=
  let members := (file.options?.map Options.declared).getD []
  (file.templateLocals.map (·.1)).filterMap fun binding =>
    if isDeclaredAround file.scopes binding || members.any (·.text == binding.name) then
      some (info.report "alreadyDeclaredInUpperScope" binding.span [("name", binding.name)])
    else none

/-- The rule. -/
def rule : Rule where
  info := info
  checks? _ _ := some { closing := fun file => .reporting (check file) }

end ComponentLint.Rules.TemplateShadow
