import ComponentLint.Proofs.Script.Kinds
import ComponentLint.Proofs.Script.References

/-!
# Calls without arguments

A member that is not optional, a call, a name, a text or an expression in parentheses is read in one way only.
Each level of the grammar hands it on to the next one, and behind it nothing goes on with an expression
(`chained_of_expression`); so the tokens that a path of members or its call was read from can be told from the
tree (`Chained.path`, `Chained.call`).
-/

namespace ComponentLint.Script

open Script.Parser

namespace Grammar

variable {sub : Sub} {env : Env} {dialect : Dialect} {cursor next : Cursor} {node : Node}

/-! ## Chains -/

/-- A step of a chain that gives a member that is not optional, or a call of the chain. -/
inductive PlainStep (sub : Sub) (env : Env) (chain : Chain) (cursor : Cursor) : Chain → Cursor → Prop where
  | member {name : String} {escaped : Bool} (hdot : cursor.token = .punct ".")
      (hname : cursor.advance.token = .word name escaped) :
      PlainStep sub env chain cursor
        ⟨⟨.member name ⟨cursor.advance.here.offset, cursor.advance.advance.previous⟩ false,
          ⟨chain.node.span.start, cursor.advance.advance.previous⟩, [chain.node]⟩, chain.isOptional⟩ cursor.advance.advance
  | call {args : List Node} {next : Cursor} (hargs : arguments sub env cursor = some (args, next)) :
      PlainStep sub env chain cursor
        ⟨⟨.call false false, ⟨chain.node.span.start, next.previous⟩, chain.node :: args⟩, chain.isOptional⟩ next

/-- Where no member follows a chain ends. -/
theorem memberStep_ensures_none (chain : Chain) : (memberStep sub (.top dialect) chain).Ensures cursor fun chain? next =>
    cursor.token ≠ .punct "?." → cursor.token ≠ .punct "(" → chain? = none →
      next = cursor ∧ goesOn dialect.typed cursor = false := by
  have henv : (Env.top dialect).inDecorator = false ∧ (Env.top dialect).dialect = dialect := ⟨rfl, rfl⟩
  unfold memberStep
  simp only [bind_ensures, token_ensures, goesOn]
  split
  · simp
  · simp [henv]
  · simp
  · next htoken =>
    simp [htoken, henv]
  · next hdot hbracket htemplate hmark =>
    simp only [pure_ensures, true_and, forall_const]
    intro hoptional hcall
    split
    · next mark htoken =>
      simp_all
    · cases htoken : cursor.token <;> simp_all [Token.isTemplate]

theorem chainStep_ensures_none (chain : Chain) : (chainStep sub (.top dialect) chain).Ensures cursor fun chain? next =>
    chain? = none → next = cursor ∧ goesOn dialect.typed cursor = false := by
  unfold chainStep
  simp only [bind_ensures, token_ensures]
  split
  · simp
  · simp
  · next hoptional hcall =>
    simp only [ite_ensures, atAngle, bind_ensures, at?_ensures, pure_ensures, attempt_ensures]
    refine ⟨fun hangle => ?_, fun _ => ?_⟩
    · obtain ⟨-, hmark⟩ := Bool.and_eq_true_iff.1 hangle
      have hstops : goesOn dialect.typed cursor = false := by
        rcases Bool.or_eq_true_iff.1 hmark with hless | hshift
        · simp [goesOn, eq_of_beq hless]
        · simp [goesOn, eq_of_beq hshift]
      simp [hstops]
    · exact (memberStep_ensures_none chain).mono fun chain? next h => h (fun hmark => hoptional hmark) (fun hmark => hcall hmark)

theorem memberName_ensures (start : Nat) (object : Node) (optional : Bool) :
    (memberName start object optional).Ensures cursor fun found next => found.kind.isPlain = true →
      ∃ name escaped, optional = false ∧ cursor.token = .word name escaped ∧
        next = cursor.advance ∧
        found = ⟨.member name ⟨cursor.here.offset, cursor.advance.previous⟩ false, ⟨start, cursor.advance.previous⟩,
          [object]⟩ := by
  unfold memberName
  simp only [bind_ensures, tokenStart_ensures, token_ensures]
  split
  · next name escaped htoken =>
    cases optional with
    | true => simp [Kind.isPlain, Kind.isLeaf]
    | false => simp [htoken]
  · simp [Kind.isPlain, Kind.isLeaf]
  · simp

theorem memberName_gives (start : Nat) (object : Node) : (memberName start object true).GivesCompound := by
  unfold memberName
  refine .bind fun _ => .bind fun token => ?_
  split
  · exact .bind fun _ => .bind fun _ => .finish fun _ => rfl
  · exact .bind fun _ => .finish fun _ => rfl
  · exact .failure

theorem optionalStep_gives (chain : Chain) : (optionalStep sub env chain).Gives (·.node.kind.isPlain = false) := by
  have hnode : ∀ parser : Parser Node, parser.GivesCompound →
      (parser >>= fun node => pure ⟨node, true⟩ : Parser Chain).Gives (·.node.kind.isPlain = false) :=
    fun parser hparser => .keep hparser fun node hkind => .pure hkind
  unfold optionalStep
  refine .bind fun _ => .bind fun token => ?_
  split
  · exact .bind fun _ => hnode _ (.finish fun _ => rfl)
  · exact .bind fun _ => .bind fun _ => .bind fun _ => hnode _ (.finish fun _ => rfl)
  · exact .bind fun _ => .bind fun _ => .bind fun _ => hnode _ (.finish fun _ => rfl)
  · exact .bind fun _ => hnode _ (memberName_gives _ _)

theorem typedStep_gives (chain : Chain) : (typedStep sub env chain).Gives (·.node.kind.isPlain = false) := by
  have hnode : ∀ parser : Parser Node, parser.GivesCompound →
      (parser >>= fun node => pure { chain with node := node } : Parser Chain).Gives (·.node.kind.isPlain = false) :=
    fun parser hparser => .keep hparser fun node hkind => .pure hkind
  unfold typedStep
  refine .bind fun _ => .bind fun _ => .ite (.bind fun _ => hnode _ (.finish fun _ => rfl)) (.bind fun token => ?_)
  split
  · exact .bind fun _ => .bind fun _ => hnode _ (.finish fun _ => rfl)
  · exact hnode _ (.finish fun _ => rfl)

theorem memberStep_ensures (chain : Chain) : (memberStep sub env chain).Ensures cursor fun chain? next =>
    ∀ changed ∈ chain?, changed.node.kind.isPlain = true → (∃ rest, changed.node.children = chain.node :: rest) ∧
      changed.node.kind.isLeaf = false ∧ (chain.node.kind ≠ .typeApplied → PlainStep sub env chain cursor changed next) := by
  unfold memberStep
  simp only [bind_ensures, token_ensures]
  split
  · next hdot =>
    simp only [bind_ensures, permit_ensures, pure_ensures]
    split
    · rw [bump_ensures (by simp [hdot])]
      refine (memberName_ensures _ _ _).mono fun found next h changed hchanged hplain => ?_
      cases hchanged
      obtain ⟨name, escaped, -, hname, rfl, rfl⟩ := h hplain
      exact ⟨⟨[], rfl⟩, rfl, fun _ => .member hdot hname⟩
    · next happlied =>
      have htyped : ¬chain.node.kind ≠ .typeApplied := by simpa using happlied
      intro value between hbump
      refine (memberName_ensures _ _ _).mono fun found next h changed hchanged hplain => ?_
      cases hchanged
      obtain ⟨name, escaped, -, -, -, rfl⟩ := h hplain
      exact ⟨⟨[], rfl⟩, rfl, fun hne => absurd hne htyped⟩
  · refine (ite_ensures _ _ _ _ _).2 ⟨fun _ => by simp, fun _ => ?_⟩
    simp [Kind.isPlain, Kind.isLeaf]
  · simp [Kind.isPlain, Kind.isLeaf]
  · simp [Kind.isPlain, Kind.isLeaf]
  · simp

/-- A step to a member or a call that is not optional. The object of a member must not be one with type arguments. -/
theorem chainStep_ensures (chain : Chain) : (chainStep sub env chain).Ensures cursor fun chain? next =>
    ∀ changed ∈ chain?, changed.node.kind.isPlain = true → (∃ rest, changed.node.children = chain.node :: rest) ∧
      changed.node.kind.isLeaf = false ∧ (chain.node.kind ≠ .typeApplied → PlainStep sub env chain cursor changed next) := by
  unfold chainStep
  simp only [bind_ensures, token_ensures]
  split
  · simp only [bind_ensures, pure_ensures]
    refine (optionalStep_gives chain cursor).mono fun found _ hfound changed hchanged hplain => ?_
    cases hchanged
    cases hfound.symm.trans hplain
  · simp only [bind_ensures, finish_ensures, pure_ensures]
    rintro args next hargs _ ⟨⟩ -
    exact ⟨⟨args, rfl⟩, rfl, fun _ => .call hargs⟩
  · next hoptional hcall =>
    simp only [ite_ensures, atAngle, bind_ensures, at?_ensures, pure_ensures, attempt_ensures]
    refine ⟨fun _ => ⟨?_, fun _ => by simp⟩, fun _ => ?_⟩
    · refine (typedStep_gives chain cursor).mono fun found _ hfound changed hchanged hplain => ?_
      cases hchanged
      cases hfound.symm.trans hplain
    · exact memberStep_ensures chain

theorem arguments_ensures : (arguments sub env).Ensures cursor fun args next => args = [] →
    cursor.token = .punct "(" ∧ cursor.advance.token = .punct ")" ∧ next = cursor.advance.advance := by
  unfold arguments commaList commaItems
  simp only [bind_ensures, expect_ensures, pure_ensures]
  refine fun hopen => (many_ensures _ _).mono fun args next hargs => ?_
  rintro hclose rfl
  cases hargs with
  | nil hnone =>
    have hends : ∀ item : Parser Node, (do
        if ← at? ")" then return none
        let value ← item
        unless ← at? ")" do expect ","
        return some value : Parser (Option Node)).Ensures cursor.advance fun item? next =>
          item? = none → next = cursor.advance := by
      intro item
      simp
    obtain rfl := hends _ _ _ hnone rfl
    exact ⟨hopen, hclose, rfl⟩

/-! ## Leaves -/

/-- A leaf of a plain expression: a name, a text, or an expression in parentheses. -/
inductive PlainLeaf (sub : Sub) (env : Env) (cursor : Cursor) : Node → Cursor → Prop where
  | name {name : String} {escaped : Bool} (htoken : cursor.token = .word name escaped)
      (hname : (Token.word name escaped).isReference env = true) :
      PlainLeaf sub env cursor ⟨.identifier name, ⟨cursor.here.offset, cursor.advance.previous⟩, []⟩ cursor.advance
  | text {value : String} (htoken : cursor.token = .string value) :
      PlainLeaf sub env cursor ⟨.string value, ⟨cursor.here.offset, cursor.advance.previous⟩, []⟩ cursor.advance
  | paren {inner : Node} {between : Cursor} (hopen : cursor.token = .punct "(")
      (hinner : sub env.inBrackets .expression cursor.advance = some (inner, between)) (hclose : between.token = .punct ")") :
      PlainLeaf sub env cursor ⟨.paren, ⟨cursor.here.offset, between.advance.previous⟩, [inner]⟩ between.advance

theorem referenceName_ensures : (referenceName env).Ensures cursor (PlainLeaf sub env cursor) := by
  unfold referenceName
  simp only [bind_ensures, tokenStart_ensures, token_ensures]
  split
  · next name escaped htoken =>
    simp only [bind_ensures, guard_ensures, bumpName_ensures, finish_ensures]
    exact fun hname => .name htoken hname
  · exact failure_ensures _ _

theorem wordExpression_ensures {newInstance : Parser Node} (hnew : newInstance.GivesCompound) (name : String) :
    (wordExpression sub env newInstance name).Ensures cursor fun node next =>
      node.kind.isPlain = true → PlainLeaf sub env cursor node next := by
  have hcompound : ∀ parser : Parser Node, parser.GivesCompound → parser.Ensures cursor fun node next =>
      node.kind.isPlain = true → PlainLeaf sub env cursor node next :=
    fun parser hparser => (hparser cursor).mono fun node next hfalse htrue => by cases hfalse.symm.trans htrue
  have hname : (referenceName env).Ensures cursor fun node next =>
      node.kind.isPlain = true → PlainLeaf sub env cursor node next :=
    referenceName_ensures.mono fun node next hleaf _ => hleaf
  have hfunction : (functionAt sub env false).GivesCompound := (functionAt_gives false).mono fun node hkind => hkind ▸ rfl
  have hclass : ∀ start, (classAt sub env start []).GivesCompound :=
    fun start => (classAt_gives start []).mono fun node hkind => hkind ▸ rfl
  unfold wordExpression
  simp only [bind_ensures, tokenStart_ensures]
  split
  · exact hcompound _ (.bind fun _ => .finish fun _ => rfl)
  · exact hcompound _ (.bind fun _ => .finish fun _ => rfl)
  · exact hcompound _ (.bind fun _ => .finish fun _ => rfl)
  · exact hcompound _ (.bind fun _ => .finish fun _ => rfl)
  · refine hcompound _ (.keep (R := (·.kind.isPlain = false)) (.bind fun _ => .finish fun _ => rfl) fun node hkind => ?_)
    exact .bind fun _ => .bind fun _ => .bind fun _ => .bind fun _ => .pure hkind
  · exact hcompound _ hfunction
  · exact hcompound _ (hclass _)
  · exact hcompound _ hnew
  · exact hcompound _ importExpression_gives
  · simp only [bind_ensures, nextWord?, nextIs_ensures, ite_ensures]
    exact ⟨fun _ => hcompound _ hfunction, fun _ => hname⟩
  · exact hname

theorem run_element_gives (fuel : Nat) : (run fuel env .element).GivesCompound := by
  cases fuel with
  | zero => exact .failure
  | succ fuel => exact element_gives

/-- What is complete by itself and plain is a leaf. -/
theorem primary_ensures {fuel : Nat} {newInstance : Parser Node} (hnew : newInstance.GivesCompound) :
    (primary (run fuel) env newInstance).Ensures cursor fun node next =>
      node.kind.isPlain = true → PlainLeaf (run fuel) env cursor node next := by
  have hcompound : ∀ parser : Parser Node, parser.GivesCompound → parser.Ensures cursor fun node next =>
      node.kind.isPlain = true → PlainLeaf (run fuel) env cursor node next :=
    fun parser hparser => (hparser cursor).mono fun node next hfalse htrue => by cases hfalse.symm.trans htrue
  unfold primary
  simp only [bind_ensures, tokenStart_ensures, token_ensures]
  split
  · exact wordExpression_ensures hnew _
  · exact hcompound _ (.bind fun _ => .finish fun _ => rfl)
  · exact hcompound _ (.bind fun _ => .finish fun _ => rfl)
  · next value htext =>
    rw [bind_ensures, bump_ensures (by simp [htext]), finish_ensures]
    exact fun _ => .text htext
  · exact hcompound _ (template_gives false)
  · next hopen =>
    unfold parenthesized
    simp only [bind_ensures, tokenStart_ensures, expect_ensures, finish_ensures]
    exact fun _ inner between hinner hclose _ => .paren hopen hinner hclose
  · exact hcompound _ array_gives
  · exact hcompound _ object_gives
  · exact hcompound _ regex_gives
  · exact hcompound _ regex_gives
  · exact hcompound _ (.bind fun before => (classAt_gives _ before).mono fun node hkind => hkind ▸ rfl)
  · exact hcompound _ (.bind fun _ => .keep (run_element_gives fuel) fun node hkind => .bind fun _ => .pure hkind)
  · exact failure_ensures _ _

theorem leftHandSide_ensures {fuel : Nat} : (leftHandSide (run fuel) (.top dialect)).Ensures cursor fun node next =>
    node.kind.isPlain = true → ∃ base between chain,
      (base.kind.isPlain = true → PlainLeaf (run fuel) (.top dialect) cursor base between) ∧
      Grows (chainStep (run fuel) (.top dialect)) ⟨base, false⟩ between chain next ∧ chain.node = node ∧
      goesOn dialect.typed next = false := by
  unfold leftHandSide
  rw [bind_ensures]
  intro start place hbound
  rw [bind_ensures]
  intro base between hbase
  rw [bind_ensures]
  refine (grow_ensures _ _ _).mono fun chain next => ?_
  rintro ⟨last, hgrows, hnone⟩
  obtain ⟨rfl, hstops⟩ := chainStep_ensures_none _ _ _ hnone rfl
  cases hbound
  have hleaf := primary_ensures (newExpression_gives _) base between hbase
  split
  · split
    · simp [Kind.isPlain, Kind.isLeaf]
    · simp [Kind.isPlain, Kind.isLeaf]
  · exact (pure_ensures _ _ _).2 fun _ => ⟨base, between, chain, hleaf, hgrows, rfl, hstops⟩

/-! ## Levels of the grammar

On each level a plain expression is one of the next level, and behind it nothing goes on with it. -/

theorem unary_ensures : (unary sub env).Ensures cursor fun node next => node.kind.isPlain = true →
    sub env .leftHandSide cursor = some (node, next) ∧
      (next.newline = false → next.token ≠ .punct "++" ∧ next.token ≠ .punct "--") := by
  have hcompound : ∀ parser : Parser Node, parser.GivesCompound → parser.Ensures cursor fun node next =>
      node.kind.isPlain = true → sub env .leftHandSide cursor = some (node, next) ∧
        (next.newline = false → next.token ≠ .punct "++" ∧ next.token ≠ .punct "--") :=
    fun parser hparser => (hparser cursor).mono fun node next hfalse htrue => by cases hfalse.symm.trans htrue
  have hoperand : ∀ start, (unary.operand sub env start).Ensures cursor fun node next => node.kind.isPlain = true →
      sub env .leftHandSide cursor = some (node, next) ∧
        (next.newline = false → next.token ≠ .punct "++" ∧ next.token ≠ .punct "--") := by
    intro start
    unfold unary.operand
    rw [bind_ensures]
    intro node next hnode
    rw [bind_ensures, get_ensures, ite_ensures]
    refine ⟨fun hnewline => (pure_ensures _ _ _).2 fun _ => ⟨hnode, by simp [hnewline]⟩, fun hline => ?_⟩
    split
    · simp [Kind.isPlain, Kind.isLeaf]
    · simp [Kind.isPlain, Kind.isLeaf]
    · next hplus hminus => exact (pure_ensures _ _ _).2 fun _ => ⟨hnode, fun _ => ⟨hplus, hminus⟩⟩
  unfold unary
  simp only [bind_ensures, tokenStart_ensures, token_ensures]
  split
  · exact hcompound _ (update_gives _ _)
  · exact hcompound _ (update_gives _ _)
  · exact (ite_ensures _ _ _ _ _).2 ⟨fun _ => hcompound _ typeAssertion_gives, fun _ => hoperand _⟩
  · exact (ite_ensures _ _ _ _ _).2
      ⟨fun _ => hcompound _ (.bind fun _ => .bind fun _ => .finish fun _ => rfl), fun _ => hoperand _⟩
  · rw [bind_ensures, operatesOnNext, nextIs_ensures, ite_ensures]
    exact ⟨fun _ => hcompound _ (.bind fun _ => .bind fun _ => .bind fun _ => .finish fun _ => rfl), fun _ => hoperand _⟩
  · exact (ite_ensures _ _ _ _ _).2
      ⟨fun _ => hcompound _ (.bind fun _ => .bind fun _ => .finish fun _ => rfl), fun _ => hoperand _⟩
  · exact hoperand _

theorem binaryStep_gives (level : Nat) (left : Node) :
    (binaryStep sub env level left).Gives fun node? => ∀ node ∈ node?, node.kind.isPlain = false := by
  have hsome : ∀ parser : Parser Node, parser.GivesCompound →
      (parser >>= fun node => pure (some node)).Gives fun node? => ∀ node ∈ node?, node.kind.isPlain = false := by
    intro parser hparser
    exact .keep hparser fun node hkind => .pure fun _ hnode => Option.some.inj hnode ▸ hkind
  unfold binaryStep
  refine .bind fun operator? => ?_
  split
  · refine .ite (.pure nofun) (.bind fun _ => .ite (.bind fun _ => ?_) (.bind fun _ => hsome _ (binaryNode_gives _ _ _)))
    refine hsome _ (.finish fun _ => ?_)
    split <;> rfl
  · exact .pure nofun

theorem one_le_of_precedence? {mark : String} {strength : Nat} (h : precedence? mark = some strength) : 1 ≤ strength := by
  unfold precedence? at h
  split at h <;> cases h <;> decide

theorem binaryOperator?_ensures : (binaryOperator? env).Ensures cursor fun operator? next => next = cursor ∧
    ∀ operator ∈ operator?, 1 ≤ operator.2 := by
  unfold binaryOperator?
  rw [bind_ensures, get_ensures]
  split
  · next mark _ =>
    have hstrength : ∀ operator ∈ (precedence? mark).map (mark, ·), 1 ≤ operator.2 := by
      intro operator hoperator
      obtain ⟨strength, hstrength, rfl⟩ := Option.map_eq_some_iff.1 hoperator
      exact one_le_of_precedence? hstrength
    simpa [-Option.mem_def, -Option.map_eq_some_iff] using fun _ _ => hstrength
  · simp

/-- No operator of any strength stands where none is read. -/
theorem binaryStep_ensures (left : Node) : (binaryStep sub env 1 left).Ensures cursor fun node? next => node? = none →
    next = cursor ∧ binaryOperator? env cursor = some (none, cursor) := by
  unfold binaryStep
  rw [bind_ensures]
  intro operator? between hoperator
  obtain ⟨rfl, hstrength⟩ := binaryOperator?_ensures _ _ hoperator
  split
  · next operator strength =>
    have hweak : ¬strength < 1 := Nat.not_lt.2 (hstrength (operator, strength) rfl)
    simp [hweak]
  · exact (pure_ensures _ _ _).2 fun _ => ⟨rfl, hoperator⟩

/-- An operand that is plain is one of the level of unary operators. -/
theorem firstOperand_ensures : (firstOperand sub env 1).Ensures cursor fun node next => node.kind.isPlain = true →
    sub env .unary cursor = some (node, next) := by
  unfold firstOperand
  simp only [bind_ensures, tokenStart_ensures, token_ensures]
  split
  · simp [Kind.isPlain, Kind.isLeaf]
  · exact fun node next hnode _ => hnode

/-- Nothing but the first operand is plain. -/
theorem binary_ensures : (binary sub env 1).Ensures cursor fun node next => node.kind.isPlain = true →
    sub env .unary cursor = some (node, next) ∧ binaryOperator? env next = some (none, next) := by
  unfold binary
  rw [bind_ensures]
  intro first between hfirst
  refine (grow_ensures _ _ _).mono fun node next => ?_
  rintro ⟨last, hgrows, hnone⟩ hplain
  obtain ⟨rfl, hoperator⟩ := binaryStep_ensures _ _ _ hnone rfl
  cases hgrows with
  | refl =>
    exact ⟨firstOperand_ensures _ _ hfirst hplain, hoperator⟩
  | tail _ hstep => cases (binaryStep_gives 1 _ _ _ _ hstep node rfl).symm.trans hplain

/-- What is tried before an expression: there is none, and the cursor stays where it is, or there is one that is not plain. -/
def Tried (cursor : Cursor) (node? : Option Node) (next : Cursor) : Prop :=
  (node? = none → next = cursor) ∧ ∀ node ∈ node?, node.kind.isPlain = false

theorem arrowRest_tried (cursor : Cursor) (start : Nat) (isAsync : Bool) (params : Node) (place : Cursor) :
    (arrowRest sub env start isAsync params).Ensures place fun node next => Tried cursor (some node) next :=
  (arrowRest_gives start isAsync params place).mono fun _ _ hkind => ⟨nofun, fun _ hmem => Option.some.inj hmem ▸ hkind⟩

theorem simpleArrow?_ensures : (simpleArrow? sub env).Ensures cursor (Tried cursor) := by
  have hnone : Tried cursor none cursor := ⟨fun _ => rfl, nofun⟩
  unfold simpleArrow?
  simp only [bind_ensures, tokenStart_ensures, token_ensures, ite_ensures, nextIs_ensures, atWord?_ensures, ahead_ensures,
    pure_ensures]
  refine ⟨fun _ => hnone, fun _ => ⟨fun _ params between _ => arrowRest_tried cursor _ _ _ _, fun _ => ?_⟩⟩
  refine ⟨fun _ => ⟨fun _ => ?_, fun _ => hnone⟩, fun _ => hnone⟩
  exact fun _ _ _ params between _ => arrowRest_tried cursor _ _ _ _

theorem parenthesizedArrow?_ensures : (parenthesizedArrow? sub env).Ensures cursor (Tried cursor) := by
  have hnone : Tried cursor none cursor := ⟨fun _ => rfl, nofun⟩
  unfold parenthesizedArrow?
  simp only [bind_ensures, opensArrow, ahead_ensures, ite_ensures, get_ensures, pure_ensures, attempt_ensures]
  refine ⟨fun _ => hnone, fun _ => ⟨fun head place _ => ?_, fun _ => hnone⟩⟩
  refine (arrowRest_tried cursor _ _ _ _).mono fun node next hnode => ?_
  exact (at?_ensures _ _ _).2 ⟨fun _ => (set_ensures _ _ _).2 hnone, fun _ => hnode⟩

/-- Nothing is assigned where what stands to the left is all. -/
theorem assignmentRest_ensures (left : Node) : (assignmentRest sub env left).Ensures cursor fun node next =>
    node.kind.isPlain = true → node = left ∧ next = cursor ∧
      ∀ mark, wholeMark cursor = some mark → mark ∉ assignmentMarks ∧ mark ≠ "?" := by
  unfold assignmentRest
  rw [bind_ensures, get_ensures]
  split
  · next mark hmark =>
    rw [ite_ensures, ite_ensures]
    refine ⟨fun _ => ?_, fun hassign => ⟨fun _ => ?_, fun hquestion => ?_⟩⟩
    · simp [Kind.isPlain, Kind.isLeaf]
    · simp [Kind.isPlain, Kind.isLeaf]
    · refine (pure_ensures _ _ _).2 fun _ => ⟨rfl, rfl, fun found hfound => ?_⟩
      obtain rfl := Option.some.inj (hmark.symm.trans hfound)
      exact ⟨by simpa using hassign, by simpa using hquestion⟩
  · next hmark => exact (pure_ensures _ _ _).2 fun _ => ⟨rfl, rfl, fun found hfound => by cases hmark.symm.trans hfound⟩

/-- A plain expression is neither a `yield` nor an arrow function. -/
theorem assignment_ensures : (assignment sub env).Ensures cursor fun node next => node.kind.isPlain = true →
    sub env (.binary 1) cursor = some (node, next) ∧
      ∀ mark, wholeMark next = some mark → mark ∉ assignmentMarks ∧ mark ≠ "?" := by
  unfold assignment
  simp only [bind_ensures, atWord?_ensures, operatesOnNext, nextIs_ensures, ite_ensures]
  refine ⟨fun _ => ?_, fun _ => ?_⟩
  · exact (yieldExpression_gives cursor).mono fun node next hfalse htrue => by cases hfalse.symm.trans htrue
  refine simpleArrow?_ensures.mono fun simple? between hsimple => ?_
  split
  · next simple => exact (pure_ensures _ _ _).2 fun hplain => by cases (hsimple.2 simple rfl).symm.trans hplain
  obtain rfl := hsimple.1 rfl
  rw [bind_ensures]
  refine parenthesizedArrow?_ensures.mono fun arrow? place harrow => ?_
  split
  · next arrow => exact (pure_ensures _ _ _).2 fun hplain => by cases (harrow.2 arrow rfl).symm.trans hplain
  obtain rfl := harrow.1 rfl
  rw [bind_ensures]
  intro left last hleft
  refine (assignmentRest_ensures left).mono fun node next hrest hplain => ?_
  obtain ⟨rfl, rfl, hmarks⟩ := hrest hplain
  exact ⟨hleft, hmarks⟩

theorem expression_ensures : (expression sub env).Ensures cursor fun node next => node.kind.isPlain = true →
    sub env .assignment cursor = some (node, next) ∧ next.token ≠ .punct "," := by
  unfold expression
  rw [bind_ensures]
  refine (separated_ensures _ _ _).mono fun parts next hparts => ?_
  split
  · next part => exact (pure_ensures _ _ _).2 fun _ => hparts part rfl
  · simp [Kind.isPlain, Kind.isLeaf]
  · exact failure_ensures _ _

/-! ## Paths and calls -/

/-- A path is read from one cursor to another: a name, and the names of members behind dots. -/
inductive Path (cursor : Cursor) : Node → Cursor → Prop where
  | name {name : String} {escaped : Bool} (htoken : cursor.token = .word name escaped) (hname : isReferenceName name = true) :
      Path cursor ⟨.identifier name, ⟨cursor.here.offset, cursor.advance.previous⟩, []⟩ cursor.advance
  | member {object : Node} {between : Cursor} {name : String} {escaped : Bool} (hobject : Path cursor object between)
      (hdot : between.token = .punct ".") (hname : between.advance.token = .word name escaped) :
      Path cursor ⟨.member name ⟨between.advance.here.offset, between.advance.advance.previous⟩ false,
        ⟨object.span.start, between.advance.advance.previous⟩, [object]⟩ between.advance.advance

/-- A variable, or a path of members from one. -/
inductive IsPath : Node → Prop where
  | name {name : String} {span : Span} {children : List Node} : IsPath ⟨.identifier name, span, children⟩
  | member {name : String} {nameSpan span : Span} {object : Node} : IsPath object →
      IsPath ⟨.member name nameSpan false, span, [object]⟩

theorem IsPath.isPlain (h : IsPath node) : node.kind.isPlain = true := by
  cases h <;> rfl

theorem IsPath.not_applied (h : IsPath node) : node.kind ≠ .typeApplied := by
  cases h <;> exact nofun

/-- What a chain is read from at the top of a module: what it starts with, if that is plain, and its steps. -/
def Chained (dialect : Dialect) (cursor : Cursor) (node : Node) (next : Cursor) : Prop :=
  ∃ fuel base between chain, (base.kind.isPlain = true → PlainLeaf (run fuel) (.top dialect) cursor base between) ∧
    Grows (chainStep (run fuel) (.top dialect)) ⟨base, false⟩ between chain next ∧ chain.node = node

theorem of_run {fuel : Nat} {env : Env} {goal : Goal} {result : Node × Cursor} (h : run fuel env goal cursor = some result) :
    ∃ rest, step (run rest) env goal cursor = some result := by
  cases fuel with
  | zero => cases h
  | succ fuel => exact ⟨fuel, h⟩

/-- A plain expression is a chain, and behind it nothing but a comma goes on with what is assigned. -/
theorem chained_of_assignment {fuel : Nat} (h : run fuel (.top dialect) .assignment cursor = some (node, next))
    (hplain : node.kind.isPlain = true) :
    Chained dialect cursor node next ∧ (next.token ≠ .punct "," → Ends dialect next) := by
  obtain ⟨fuel, hassignment⟩ := of_run h
  obtain ⟨hrun, hassign⟩ := assignment_ensures _ _ hassignment hplain
  obtain ⟨fuel, hbinary⟩ := of_run hrun
  obtain ⟨hrun, hoperator⟩ := binary_ensures _ _ hbinary hplain
  obtain ⟨fuel, hunary⟩ := of_run hrun
  obtain ⟨hrun, hupdate⟩ := unary_ensures _ _ hunary hplain
  obtain ⟨fuel, hchain⟩ := of_run hrun
  obtain ⟨base, between, chain, hleaf, hgrows, hnode, hstops⟩ := leftHandSide_ensures _ _ hchain hplain
  exact ⟨⟨fuel, base, between, chain, hleaf, hgrows, hnode⟩, fun hcomma => ⟨hstops, hupdate, hoperator, hassign, hcomma⟩⟩

theorem chained_of_expression {fuel : Nat} (h : run fuel (.top dialect) .expression cursor = some (node, next))
    (hplain : node.kind.isPlain = true) : Chained dialect cursor node next ∧ Ends dialect next := by
  obtain ⟨fuel, hexpression⟩ := of_run h
  obtain ⟨hrun, hcomma⟩ := expression_ensures _ _ hexpression hplain
  obtain ⟨hchained, hends⟩ := chained_of_assignment hrun hplain
  exact ⟨hchained, hends hcomma⟩

namespace Chained

/-- What a chain has grown to was given by its last step, or is what it starts with. -/
theorem cases_last (h : Chained dialect cursor node next) (hplain : node.kind.isPlain = true) :
    (∃ fuel, PlainLeaf (run fuel) (.top dialect) cursor node next) ∨
      ∃ object between, Chained dialect cursor object between ∧ (∃ rest, node.children = object :: rest) ∧
        node.kind.isLeaf = false ∧ (object.kind ≠ .typeApplied → ∃ fuel chain changed, chain.node = object ∧
          changed.node = node ∧ PlainStep (run fuel) (.top dialect) chain between changed next) := by
  obtain ⟨fuel, base, start, chain, hleaf, hgrows, rfl⟩ := h
  cases hgrows with
  | refl => exact .inl ⟨fuel, hleaf hplain⟩
  | @tail changed _ between _ hgrows hstep =>
    obtain ⟨hparts, hname, hplainly⟩ := chainStep_ensures changed _ _ hstep chain rfl hplain
    exact .inr ⟨changed.node, between, ⟨fuel, base, start, changed, hleaf, hgrows, rfl⟩, hparts, hname,
      fun happlied => ⟨fuel, changed, chain, rfl, rfl, hplainly happlied⟩⟩

/-- A chain that looks like a path is read as one. -/
theorem path (h : Chained dialect cursor node next) (hpath : IsPath node) : Path cursor node next := by
  induction hpath generalizing next with
  | name =>
    rcases h.cases_last rfl with ⟨fuel, hleaf⟩ | ⟨_, _, _, _, hkind, _⟩
    · cases hleaf with
      | name htoken hname =>
        refine .name htoken ?_
        simpa [isReferenceName, Token.isReference, Env.operates, Env.top] using hname
    · cases hkind
  | member hobject ih =>
    rcases h.cases_last rfl with ⟨fuel, hleaf⟩ | ⟨object, between, hchained, ⟨rest, hrest⟩, _, hplain⟩
    · cases hleaf
    · obtain rfl := (List.cons.inj hrest).1
      obtain ⟨fuel, chain, changed, hchain, hchanged, hstep⟩ := hplain hobject.not_applied
      cases hstep with
      | member hdot hname =>
        subst hchain
        cases hchanged
        exact .member (ih hchained) hdot hname
      | call => cases hchanged

/-- A call without arguments is read from its callee on, with its parentheses behind that. -/
theorem call {span : Span} {callee : Node} (h : Chained dialect cursor ⟨.call false false, span, [callee]⟩ next)
    (hcallee : IsPath callee) : ∃ between, Path cursor callee between ∧ between.token = .punct "(" ∧
      between.advance.token = .punct ")" ∧ next = between.advance.advance ∧ span.stop = next.previous := by
  rcases h.cases_last rfl with ⟨fuel, hleaf⟩ | ⟨object, between, hchained, ⟨rest, hrest⟩, _, hplain⟩
  · cases hleaf
  · obtain ⟨rfl, rfl⟩ := List.cons.inj hrest
    obtain ⟨fuel, chain, changed, hchain, hchanged, hstep⟩ := hplain hcallee.not_applied
    cases hstep with
    | member => cases hchanged
    | call hargs =>
      cases hchanged
      obtain ⟨hopen, hclose, rfl⟩ := arguments_ensures _ _ hargs rfl
      exact ⟨between, hchained.path hcallee, hopen, hclose, rfl, rfl⟩

/-- What stands in parentheses is an expression. -/
theorem paren {span : Span} {parts : List Node} (h : Chained dialect cursor ⟨.paren, span, parts⟩ next) :
    cursor.token = .punct "(" ∧ ∃ fuel inner between, parts = [inner] ∧
      run fuel (.top dialect) .expression cursor.advance = some (inner, between) ∧ between.token = .punct ")" ∧
        next = between.advance ∧ span.stop = next.previous := by
  rcases h.cases_last rfl with ⟨fuel, hleaf⟩ | ⟨_, _, _, _, hkind, _⟩
  · cases hleaf with
    | paren hopen hinner hclose => exact ⟨hopen, fuel, _, _, rfl, hinner, hclose, rfl, rfl⟩
  · cases hkind

theorem text {value : String} {span : Span} {parts : List Node} (h : Chained dialect cursor ⟨.string value, span, parts⟩ next) :
    cursor.token = .string value ∧ next = cursor.advance := by
  rcases h.cases_last rfl with ⟨fuel, hleaf⟩ | ⟨_, _, _, _, hkind, _⟩
  · cases hleaf with
    | text htoken => exact ⟨htoken, rfl⟩
  · cases hkind

end Chained

end Grammar

end ComponentLint.Script
