import ComponentLint.Scope.Collect

/-!
# What collecting from a tree does

Collecting from a tree, whatever its shape, is a sequence of a few kinds of steps: uses and declarations are recorded at
nodes of the tree, and scopes of scripts are opened. `Collected` lists them, and `collected_collect` goes through all forms of
nodes once. What the walk keeps is proved from the steps alone.
-/

namespace ComponentLint.ScopeTable

/-- Whether a scope belongs to a part of a script that is no file: a function, a block or a catch clause. -/
def InnerScript (kind : ScopeKind) : Prop :=
  kind = .function ∨ kind = .block ∨ kind = .catchBlock

/-- What collecting at a place may do to a table; the nodes that stand for names are of a given sort, and what is recorded is
the name and the span of one. -/
inductive Collected (Q : Script.Node → Prop) : Place → ScopeTable → ScopeTable → Prop where
  | none (place : Place) (table : ScopeTable) : Collected Q place table table
  | andThen {place : Place} {first second third : ScopeTable} (h : Collected Q place first second)
      (h' : Collected Q place second third) : Collected Q place first third
  | refer {place : Place} {table : ScopeTable} {node : Script.Node} {name : String} (hnode : Q node)
      (hkind : node.kind = .identifier name) (use : Use) : Collected Q place table (table.refer place name node.span use)
  /-- A name is declared as the place says. -/
  | declare {place : Place} {table : ScopeTable} {node : Script.Node} {name : String} {kind : BindingKind} {scope : Nat}
      (hnode : Q node) (hname : node.kind = .binding name) (hdeclaring : place.declaring = some (kind, scope)) :
      Collected Q place table (table.declare place name node.span kind scope)
  /-- A name of the script is declared in an open scope, however names are declared at the place. -/
  | declares {place : Place} {table new : ScopeTable} {kind : BindingKind} {scope : Nat}
      (hkind : kind.isTemplateLocal = false) (hscope : scope ∈ place.stack)
      (h : Collected Q (place.declares kind scope) table new) : Collected Q place table new
  | plain {place : Place} {table new : ScopeTable} (h : Collected Q place.plain table new) : Collected Q place table new
  | inside {place : Place} {table opened new : ScopeTable} {kind : ScopeKind} {span : Span} {scope : Nat}
      (hkind : InnerScript kind) (hopen : table.openAt place kind span = (scope, opened))
      (h : Collected Q (place.inside scope) opened new) : Collected Q place table new

variable {Q : Script.Node → Prop} {place : Place} {table : ScopeTable}

/-! ## Single steps -/

/-- A declaration of a name of the script in an open scope. -/
theorem Collected.declareIn {node : Script.Node} (hnode : Q node) {name : String} (hname : node.kind = .binding name)
    {kind : BindingKind} {scope : Nat} (hkind : kind.isTemplateLocal = false) (hscope : scope ∈ place.stack) :
    Collected Q place table (table.declare place name node.span kind scope) := by
  refine .declares hkind hscope ?_
  exact (Collected.declare hnode hname rfl : Collected Q (place.declares kind scope) table _)

theorem mem_stack_of_scope? {scope : Nat} (h : place.scope? = some scope) : scope ∈ place.stack :=
  List.mem_of_mem_head? h

theorem collected_declareHere {node : Script.Node} (hnode : Q node) {kind : BindingKind}
    (hkind : kind.isTemplateLocal = false) : Collected Q place table (table.declareHere place node kind) := by
  unfold declareHere
  split
  · next name scope hname hscope => exact .declareIn hnode hname hkind (mem_stack_of_scope? hscope)
  · exact .none place table

theorem collected_declareName {kind : BindingKind} (hkind : kind.isTemplateLocal = false) {parts : List Script.Node}
    (hparts : ∀ part ∈ parts, Q part) : Collected Q place table (declareName place kind table parts) := by
  fun_induction declareName place kind table parts with
  | case1 => exact .none place table
  | case2 part => exact collected_declareHere (hparts part List.mem_cons_self) hkind
  | case3 _ _ _ ih => exact ih (List.forall_mem_cons.1 hparts).2

/-- Variables are declared in an open scope, and not as names of the template. -/
theorem variableTarget_open (table : ScopeTable) (place : Place) (keyword : Script.VariableKind) :
    (table.variableTarget place keyword).1.isTemplateLocal = false ∧
      ∀ scope ∈ (table.variableTarget place keyword).2, scope ∈ place.stack := by
  cases keyword with
  | varKeyword => exact ⟨rfl, fun scope hscope => List.mem_of_find?_eq_some hscope⟩
  | _ => exact ⟨rfl, fun scope hscope => mem_stack_of_scope? hscope⟩

section Trees

variable (hQ : ∀ node, Q node → ∀ part ∈ node.children, Q part)
include hQ

theorem collected_declareImports (source : String) {parts : List Script.Node} (hparts : ∀ part ∈ parts, Q part) :
    Collected Q place table (declareImports place source table parts) := by
  fun_induction declareImports place source table parts with
  | case1 table => exact .none place table
  | case2 table what span local' _ rest ih =>
    obtain ⟨hfirst, hrest⟩ := List.forall_mem_cons.1 hparts
    exact (collected_declareHere (hQ _ hfirst local' List.mem_cons_self) rfl).andThen (ih hrest)
  | case3 table _ rest _ ih => exact ih (List.forall_mem_cons.1 hparts).2

/-- The name that a pattern declares stands at a node of it. -/
theorem bound?_part {node : Script.Node} (hnode : Q node) {name : String} {span : Span}
    (hbound : node.bound? = some (name, span)) : ∃ part, Q part ∧ part.kind = .binding name ∧ part.span = span := by
  unfold Script.Node.bound? at hbound
  split at hbound
  · cases hbound
    exact ⟨_, hnode, rfl, rfl⟩
  · cases hbound
    exact ⟨_, hQ _ hnode _ List.mem_cons_self, rfl, rfl⟩
  · nomatch hbound

/-! ## Trees -/

/-- Collecting from a node, and from each kind of list of parts, takes only such steps. -/
theorem collected_all :
    (∀ place use table node, Q node → Collected Q place table (collect place use table node)) ∧
    (∀ place scope table parts, scope ∈ place.stack → (∀ part ∈ parts, Q part) →
      Collected Q place table (collectCatch place scope table parts)) ∧
    (∀ place node index table parts, (∀ part ∈ parts, Q part) →
      Collected Q place table (collectParts place node index table parts)) ∧
    (∀ place scope table parts, scope ∈ place.stack → (∀ part ∈ parts, Q part) →
      Collected Q place table (collectFunction place scope table parts)) ∧
    (∀ place kind scope table parts, kind.isTemplateLocal = false → (∀ target ∈ scope, target ∈ place.stack) →
      (∀ part ∈ parts, Q part) → Collected Q place table (collectDeclarators place kind scope table parts)) ∧
    (∀ place kind scope source table pattern, kind.isTemplateLocal = false → scope ∈ place.stack → Q pattern →
      Collected Q place table (collectRequired place kind scope source table pattern)) ∧
    (∀ place scope source table parts, scope ∈ place.stack → (∀ part ∈ parts, Q part) →
      Collected Q place table (collectRequiredParts place scope source table parts)) := by
  have hinside : ∀ (place : Place) (scope : Nat), scope ∈ (place.inside scope).stack := fun _ _ => List.mem_cons_self
  apply collect.mutual_induct
  -- The nodes that stand for names.
  case case1 =>
    intro place use table span children name hnode
    simp only [collect]
    exact .refer hnode rfl use
  case case2 =>
    intro place use table span children name kind scope hdeclaring hnode
    simp only [collect, hdeclaring]
    exact .declare hnode rfl hdeclaring
  case case3 =>
    intro place use table span children name hdeclaring hnode
    simp only [collect, hdeclaring]
    exact .none place table
  case case4 =>
    intro place use table span children source hnode
    simp only [collect, if_true]
    exact .none place table
  case case5 =>
    intro place use table span children source typeOnly htype hnode
    simp only [collect, if_neg htype]
    exact collected_declareImports hQ source (hQ _ hnode)
  case case6 =>
    intro place use table span children keyword kind scope htarget ih hnode
    simp only [collect, htarget]
    obtain ⟨hkind, hscope⟩ := variableTarget_open table place keyword
    rw [htarget] at hkind hscope
    exact ih hkind hscope (hQ _ hnode)
  -- The nodes that open scopes.
  case case7 =>
    intro place use table span children declaration declared scope opened hopen inner named ih hnode
    simp only [collect]
    rw [hopen]
    have hparts := hQ _ hnode
    have hdeclared : Collected Q place table declared := by
      unfold declared
      split
      · exact collected_declareName rfl hparts
      · exact .none place table
    have hnamed : Collected Q inner opened named := by
      unfold named
      split
      · exact .none inner opened
      · exact collected_declareName rfl hparts
    exact hdeclared.andThen (.inside (.inl rfl) hopen (hnamed.andThen (ih (hinside place scope) hparts)))
  case case8 =>
    intro place use table span children concise scope opened hopen ih hnode
    simp only [collect, hopen]
    exact .inside (.inl rfl) hopen (ih (hinside place scope) (hQ _ hnode))
  case case9 =>
    intro place use table span children declared ih hnode
    simp only [collect]
    exact (collected_declareName rfl (hQ _ hnode)).andThen (.plain (ih (hQ _ hnode)))
  case case10 =>
    intro place use table span subject cases after scope opened hopen ihSubject ihCases hnode
    simp only [collect]
    rw [hopen]
    obtain ⟨hsubject, hcases⟩ := List.forall_mem_cons.1 (hQ _ hnode)
    exact (ihSubject hsubject).andThen (.inside (.inr (.inl rfl)) hopen (ihCases hcases))
  case case11 =>
    intro place use table span hnode
    simp only [collect]
    exact .none place table
  case case12 =>
    intro place use table span children scope opened hopen ih hnode
    simp only [collect, hopen]
    exact .inside (.inr (.inr rfl)) hopen (ih (hinside place scope) (hQ _ hnode))
  case case13 =>
    intro place use table kind span children hblock scope opened hopen _ _ _ _ _ _ _ _ _ ih hnode
    simp only [collect, hblock, if_true, hopen]
    exact .inside (.inr (.inl rfl)) hopen (ih (hQ _ hnode))
  case case14 =>
    intro place use table kind span children hblock _ _ _ _ _ _ _ _ _ ih hnode
    simp only [collect, hblock]
    exact ih (hQ _ hnode)
  -- The patterns that take what `require` gave.
  case case15 =>
    intro place kind scope source table name span children hkind hscope hnode
    simp only [collectRequired]
    exact .declareIn hnode rfl rfl hscope
  case case16 =>
    intro place kind scope source table span parts ih hkind hscope hnode
    simp only [collectRequired]
    exact ih hscope (hQ _ hnode)
  case case17 =>
    intro place kind scope source table other span parts hbinding hobject ih hkind hscope hnode
    rw [collectRequired]
    · exact .declares hkind hscope (ih (hQ _ hnode))
    · exact hbinding
    · exact hobject
  -- The parts of a catch clause.
  case case18 =>
    intro place scope table hscope hparts
    simp only [collectCatch]
    exact .none place table
  case case19 =>
    intro place scope table body ih hscope hparts
    simp only [collectCatch]
    exact ih (List.forall_mem_cons.1 hparts).1
  case case20 =>
    intro place scope table param rest hrest ihParam ihRest hscope hparts
    obtain ⟨hparam, hlater⟩ := List.forall_mem_cons.1 hparts
    rw [collectCatch]
    · exact (Collected.declares rfl hscope (ihParam hparam)).andThen (ihRest hscope hlater)
    · exact hrest
  -- The parts of other nodes.
  case case21 =>
    intro place node index table hparts
    simp only [collectParts]
    exact .none place table
  case case22 =>
    intro place node index table part rest ihPart ihRest hparts
    simp only [collectParts]
    obtain ⟨hpart, hrest⟩ := List.forall_mem_cons.1 hparts
    exact (ihPart hpart).andThen (ihRest hrest)
  -- The parts of a function.
  case case23 =>
    intro place scope table hscope hparts
    simp only [collectFunction]
    exact .none place table
  case case24 =>
    intro place scope table part rest hkind ihPart ihRest hscope hparts
    simp only [collectFunction, hkind]
    obtain ⟨hpart, hrest⟩ := List.forall_mem_cons.1 hparts
    exact (Collected.declares rfl hscope (ihPart hpart)).andThen (ihRest hscope hrest)
  case case25 =>
    intro place scope table part rest hkind ihPart ihRest hscope hparts
    simp only [collectFunction, hkind]
    obtain ⟨hpart, hrest⟩ := List.forall_mem_cons.1 hparts
    exact (Collected.plain (ihPart hpart)).andThen (ihRest hscope hrest)
  case case26 =>
    intro place scope table part rest hparams hbody ih hscope hparts
    simp only [collectFunction]
    exact ih hscope (List.forall_mem_cons.1 hparts).2
  -- The declarators of variables.
  case case27 =>
    intro place kind scope table hkind hscope hparts
    simp only [collectDeclarators]
    exact .none place table
  case case28 =>
    intro place kind target table form span pattern values rest declared valued ihRequired ihPattern ihValues ihRest hkind
      htarget hparts
    simp only [collectDeclarators]
    obtain ⟨hfirst, hrest⟩ := List.forall_mem_cons.1 hparts
    obtain ⟨hpattern, hvalues⟩ := List.forall_mem_cons.1 (hQ _ hfirst)
    have hdeclared : Collected Q place table declared := by
      unfold declared
      split
      · next scope =>
        have hscope := htarget scope rfl
        split
        · exact ihRequired scope _ hkind hscope hpattern
        · exact .declares hkind hscope (ihPattern scope hpattern)
      · exact .none place table
    exact hdeclared.andThen ((Collected.plain (ihValues hvalues)).andThen (ihRest hkind htarget hrest))
  case case29 =>
    intro place kind target table head rest hhead ih hkind htarget hparts
    rw [collectDeclarators]
    · exact ih hkind htarget (List.forall_mem_cons.1 hparts).2
    · exact hhead
  -- The properties of a pattern.
  case case30 =>
    intro place scope source table hscope hparts
    simp only [collectRequiredParts]
    exact .none place table
  case case31 =>
    intro place scope source table computed span key value rest declared ihValue ihRest hscope hparts
    simp only [collectRequiredParts]
    obtain ⟨hfirst, hrest⟩ := List.forall_mem_cons.1 hparts
    have hvalue : Q value := hQ _ hfirst value (by simp)
    have hdeclared : Collected Q place table declared := by
      unfold declared
      split
      · next hbound =>
        obtain ⟨part, hpart, hname, rfl⟩ := bound?_part hQ hvalue hbound
        exact .declareIn hpart hname rfl hscope
      · exact .declares rfl hscope (ihValue hvalue)
    exact hdeclared.andThen (ihRest hscope hrest)
  case case32 =>
    intro place scope source table part rest hpart ihPart ihRest hscope hparts
    obtain ⟨hfirst, hrest⟩ := List.forall_mem_cons.1 hparts
    rw [collectRequiredParts]
    · exact (Collected.declares rfl hscope (ihPart hfirst)).andThen (ihRest hscope hrest)
    · exact hpart

/-- Collecting from a tree takes only steps at nodes of it. -/
theorem collected_collect (place : Place) (use : Use) (table : ScopeTable) {node : Script.Node} (hnode : Q node) :
    Collected Q place table (collect place use table node) :=
  (collected_all hQ).1 place use table node hnode

theorem collected_foldl (place : Place) (use : Use) (table : ScopeTable) {nodes : List Script.Node}
    (hnodes : ∀ node ∈ nodes, Q node) : Collected Q place table (nodes.foldl (collect place use) table) := by
  induction nodes generalizing table with
  | nil => exact .none place table
  | cons node rest ih =>
    obtain ⟨hfirst, hrest⟩ := List.forall_mem_cons.1 hnodes
    exact (collected_collect hQ place use table hfirst).andThen (ih _ hrest)

/-- Of a list of parameters only the parts are collected. -/
theorem collected_params (place : Place) (use : Use) (table : ScopeTable) {params : Script.Node}
    (hkind : params.kind = .params) (hparts : ∀ part ∈ params.children, Q part) :
    Collected Q place table (collect place use table params) := by
  obtain ⟨kind, span, children⟩ := params
  obtain rfl : kind = .params := hkind
  simp only [collect]
  exact (collected_all hQ).2.2.1 place _ 0 table children hparts

end Trees

end ComponentLint.ScopeTable
