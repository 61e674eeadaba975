import ComponentLint.Scope.Basic

/-!
# The framework's own functions

Which exported function of the framework a callee stands for: one imported by name, a member of the module as a whole,
or a macro that needs no import.
-/

namespace ComponentLint

/-- The modules that export the framework's functions. -/
def frameworkModules : List String :=
  ["vue", "@vue/composition-api", "@vue/runtime-core", "@vue/runtime-dom", "@vue/reactivity"]

/-- Whether a module exports the framework's functions. -/
def isFrameworkModule (source : String) : Bool :=
  frameworkModules.contains source

/-- The macros of setup scripts, which are there without an import. -/
def compilerMacros : List String :=
  ["defineProps", "defineEmits", "defineExpose", "withDefaults", "defineModel", "defineSlots", "defineOptions"]

namespace ScopeTable

/-- What the reference at a span imports from the framework, if it does. -/
def frameworkImport? (table : ScopeTable) (span : Span) : Option Script.Imported := do
  let id ← table.resolvedAt? span
  match (← table.binding? id).kind with
  | .imported source what => if isFrameworkModule source then some what else none
  | _ => none

/-- The framework's function that a callee stands for. -/
def apiName? (table : ScopeTable) (callee : Script.Node) : Option String :=
  match callee.unparenthesized with
  | ⟨.identifier name, span, _⟩ =>
    match table.resolvedAt? span with
    | none => if compilerMacros.contains name then some name else none
    | some _ =>
      match table.frameworkImport? span with
      | some (.named imported) => some imported
      | _ => none
  | ⟨.member name _ _, _, [object]⟩ =>
    match object.unparenthesized with
    | ⟨.identifier _, span, _⟩ =>
      match table.frameworkImport? span with
      | some .wholeModule => some name
      | some .defaultExport => some name
      | _ => none
    | _ => none
  | _ => none

/-- The framework's function that a call calls, if it is one of the given. -/
def calledApi? (table : ScopeTable) (call : Script.Node) (names : List String) : Option String :=
  match call with
  | ⟨.call .., _, callee :: _⟩ =>
    match table.apiName? callee with
    | some name => names.find? (· == name)
    | none => none
  | _ => none

/-- Whether an expression calls one of the framework's functions, inside parentheses and type annotations. -/
def isApiCall (table : ScopeTable) (names : List String) : Script.Node → Bool
  | ⟨.paren, _, [inner]⟩ => table.isApiCall names inner
  | ⟨.typed _, _, [inner]⟩ => table.isApiCall names inner
  | node => (table.calledApi? node names).isSome

end ScopeTable

end ComponentLint
