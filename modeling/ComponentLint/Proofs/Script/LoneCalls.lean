import ComponentLint.Proofs.Script.Paths
import ComponentLint.Proofs.Script.Places

/-!
# Scripts that are one call

A call of a path without arguments may be all of an expression or of a module, with parentheses around it and, in a module, with
directives and empty statements beside it. If the script starts with a word, it starts with the path itself, and what calls it can
be cut off (`LoneCall.exists_cut`). A statement of a module is empty or one expression only if it was read as such
(`SimpleStatement`).
-/

namespace ComponentLint.Script

open Text Script.Parser Cursor

namespace Grammar

variable {dialect : Dialect} {cursor between next last : Cursor} {node value callee : Node} {span : Span} {fuel : Nat}

/-! ## Simple statements -/

/-- What a statement that is one expression is read from: an expression, or what `let` begins where it declares nothing. -/
inductive Operand (dialect : Dialect) (cursor : Cursor) (node : Node) (next : Cursor) : Prop where
  | expression {fuel : Nat} (h : run fuel (.top dialect) .expression cursor = some (node, next))
  | assignment {fuel : Nat} (hword : cursor.token.isWord = true)
      (h : run fuel (.top dialect) .assignment cursor = some (node, next))
  | name (h : ∃ name, node.kind = .identifier name)

/-- A statement that is empty or one expression, and the cursor behind its semicolon or where that may be left out. -/
inductive SimpleStatement (dialect : Dialect) (cursor : Cursor) : Node → Cursor → Prop where
  | empty (htoken : cursor.token = .punct ";") :
      SimpleStatement dialect cursor ⟨.empty, ⟨cursor.here.offset, cursor.advance.previous⟩, []⟩ cursor.advance
  | expression {value : Node} {between next : Cursor} (hvalue : Operand dialect cursor value between)
      (hend : between.token = .punct ";" ∧ next = between.advance ∨ next = between) :
      SimpleStatement dialect cursor ⟨.expressionStatement, ⟨cursor.here.offset, next.previous⟩, [value]⟩ next

theorem semicolon_ensures : semicolon.Ensures cursor fun _ next =>
    cursor.token = .punct ";" ∧ next = cursor.advance ∨ next = cursor := by
  unfold semicolon
  simp +contextual

theorem expressionEnd_ensures (hvalue : Operand dialect cursor value between) :
    (expressionEnd cursor.here.offset value).Ensures between (SimpleStatement dialect cursor) := by
  unfold expressionEnd
  rw [bind_ensures]
  refine semicolon_ensures.mono fun _ next hend => ?_
  exact (finish_ensures _ _ _ _ _).2 (.expression hvalue hend)

/-- Of what gives no simple statement all is said. -/
theorem ensures_of_complex {parser : Parser Node} (h : parser.GivesComplex) (place : Cursor) (post : Node → Cursor → Prop) :
    parser.Ensures place fun node next => node.kind.isSimple = true → post node next :=
  (h place).mono fun _ _ hfalse htrue => by cases hfalse.symm.trans htrue

theorem expressionStatement_ensures : (expressionStatement (run fuel) (.top dialect)).Ensures cursor fun node next =>
    node.kind.isSimple = true → SimpleStatement dialect cursor node next := by
  unfold expressionStatement
  rw [bind_ensures, tokenStart_ensures, bind_ensures]
  intro value between hvalue
  rw [bind_ensures, at?_ensures, ite_ensures]
  refine ⟨fun _ => ?_, fun _ => ?_⟩
  · exact ensures_of_complex (.bind fun _ => .bind fun _ => .finish fun _ => rfl) _ _
  · exact (expressionEnd_ensures (.expression hvalue)).mono fun _ _ h _ => h

theorem letRole_ensures (alone : Bool) : (letRole alone).Ensures cursor fun _ next => next = cursor := by
  unfold letRole
  rw [bind_ensures, get_ensures, ite_ensures]
  refine ⟨fun _ => (pure_ensures _ _ _).2 rfl, fun _ => ?_⟩
  split <;> exact (pure_ensures _ _ _).2 rfl

theorem referenceName_gives {env : Env} : (referenceName env).Gives fun node => ∃ name, node.kind = .identifier name := by
  unfold referenceName
  refine .bind fun _ => .bind fun token => ?_
  split
  · exact .bind fun _ => .bind fun _ => .finish fun _ => ⟨_, rfl⟩
  · exact .failure

theorem letStatement_ensures (hword : cursor.token.isWord = true) :
    (letStatement (run fuel) (.top dialect) false).Ensures cursor fun node next =>
      node.kind.isSimple = true → SimpleStatement dialect cursor node next := by
  unfold letStatement
  rw [bind_ensures, tokenStart_ensures, bind_ensures]
  refine (letRole_ensures false).mono fun role place hplace => ?_
  rw [hplace]
  split
  · exact ensures_of_complex (.bind fun _ => variableStatement_gives _ _) _ _
  · rw [bind_ensures]
    exact fun value between hvalue => (expressionEnd_ensures (.assignment hword hvalue)).mono fun _ _ h _ => h
  · rw [bind_ensures]
    exact fun value between hvalue => (expressionEnd_ensures (.expression hvalue)).mono fun _ _ h _ => h
  · rw [bind_ensures]
    refine (referenceName_gives _).mono fun value between hname => ?_
    exact (expressionEnd_ensures (.name hname)).mono fun _ _ h _ => h

theorem wordStatement_ensures (hword : cursor.token.isWord = true) (word : String) (escaped : Bool) :
    (wordStatement (run fuel) (.top dialect) false word escaped).Ensures cursor fun node next =>
      node.kind.isSimple = true → SimpleStatement dialect cursor node next := by
  unfold wordStatement
  rw [bind_ensures, tokenStart_ensures]
  split
  · exact ensures_of_complex (variableStatement_gives _ _) _ _
  · exact ensures_of_complex (.bind fun _ => variableStatement_gives _ _) _ _
  · exact (ite_ensures _ _ _ _ _).2 ⟨fun _ => expressionStatement_ensures, fun _ => letStatement_ensures hword⟩
  · exact ensures_of_complex (.bind fun _ => namedClass_gives _ _) _ _
  · exact ensures_of_complex (functionStatement_gives _) _ _
  · rw [bind_ensures, nextWord?, nextIs_ensures, ite_ensures]
    exact ⟨fun _ => ensures_of_complex (functionStatement_gives _) _ _, fun _ => expressionStatement_ensures⟩
  · have hawaited : (declaresAwaited false).Ensures cursor fun _ next => next = cursor := by
      unfold declaresAwaited
      simp
    rw [bind_ensures]
    refine hawaited.mono fun awaited place hplace => ?_
    rw [hplace]
    cases awaited with
    | true =>
      simp only [Bool.true_or, if_true]
      exact ensures_of_complex (.bind fun _ => .bind fun _ => .bind fun _ => variableStatement_gives _ _) _ _
    | false =>
      simp only [Bool.false_or, Bool.false_eq_true, if_false]
      rw [bind_ensures, declaresResource]
      rw [bind_ensures, atWord?_ensures, bind_ensures, nextIs_ensures, pure_ensures, ite_ensures]
      refine ⟨fun _ => ?_, fun _ => expressionStatement_ensures⟩
      exact ensures_of_complex (.bind fun _ => variableStatement_gives _ _) _ _

theorem atTypedDeclaration_ensures {env : Env} : (atTypedDeclaration env).Ensures cursor fun _ next => next = cursor := by
  unfold atTypedDeclaration atDeclaration
  rw [bind_ensures, token_ensures]
  split <;> simp

/-- Where no keyword begins a statement the cursor has not moved. -/
theorem keywordStatement?_ensures {sub : Sub} {env : Env} (word : String) :
    (keywordStatement? sub env word).Ensures cursor fun node? next => node? = none → next = cursor := by
  unfold keywordStatement?
  rw [bind_ensures, tokenStart_ensures]
  split
  all_goals simp

theorem statementAt_ensures : (statementAt (run fuel) (.top dialect) false).Ensures cursor fun node next =>
    node.kind.isSimple = true → SimpleStatement dialect cursor node next := by
  unfold statementAt
  rw [bind_ensures, tokenStart_ensures, bind_ensures, token_ensures]
  split
  · exact ensures_of_complex block_gives _ _
  · next hempty =>
    rw [bind_ensures, bump_ensures (by simp [hempty]), finish_ensures]
    exact fun _ => .empty hempty
  · exact ensures_of_complex (.bind fun _ => .bind fun _ => modifiedClass_gives _ _ _) _ _
  · next name escaped hword =>
    have hisWord : cursor.token.isWord = true := hword ▸ rfl
    rw [bind_ensures]
    refine atTypedDeclaration_ensures.mono fun typed place hplace => ?_
    rw [hplace, ite_ensures]
    refine ⟨fun _ => ensures_of_complex typedDeclaration_gives _ _, fun _ => ?_⟩
    rw [bind_ensures]
    intro node? between hkeyword
    cases node? with
    | some node =>
      have hcomplex := keywordStatement?_gives name cursor _ _ hkeyword node rfl
      exact (pure_ensures _ _ _).2 fun hsimple => by cases hcomplex.symm.trans hsimple
    | none =>
      rw [keywordStatement?_ensures name _ _ hkeyword rfl]
      exact wordStatement_ensures hisWord name escaped
  · exact expressionStatement_ensures

theorem moduleItem_ensures : (moduleItem (run fuel) (.top dialect)).Ensures cursor fun node next =>
    node.kind.isSimple = true → SimpleStatement dialect cursor node next := by
  have hitem : (run fuel (.top dialect) .item).Ensures cursor fun node next =>
      node.kind.isSimple = true → SimpleStatement dialect cursor node next := by
    cases fuel with
    | zero => exact failure_ensures _ _
    | succ fuel => exact statementAt_ensures
  unfold moduleItem
  rw [bind_ensures, tokenStart_ensures, bind_ensures, token_ensures]
  split
  · simp only [bind_ensures, nextAt?, nextIs_ensures, ite_ensures]
    exact ⟨fun _ => hitem, fun _ => ensures_of_complex (importDeclaration_gives _) _ _⟩
  · exact ensures_of_complex (exportDeclaration_gives _) _ _
  · exact ensures_of_complex (.bind fun _ => .bind fun _ => .ite (exportDeclaration_gives _) (modifiedClass_gives _ _ _)) _ _
  · exact hitem

/-! ## The statements of a module -/

/-- An item of a module, unless the text ends here. -/
def item? (fuel : Nat) (dialect : Dialect) : Parser (Option Node) := do
  if (← token) == .endOfText then return none
  return some (← run fuel (.top dialect) .moduleItem)

theorem item?_ensures : (item? fuel dialect).Ensures cursor fun node? next =>
    (node? = none → cursor.token = .endOfText) ∧
      ∀ node ∈ node?, node.kind.isSimple = true → SimpleStatement dialect cursor node next := by
  unfold item?
  rw [bind_ensures, token_ensures, ite_ensures]
  refine ⟨fun hend => (pure_ensures _ _ _).2 ⟨fun _ => eq_of_beq hend, nofun⟩, fun _ => ?_⟩
  have hitem : (run fuel (.top dialect) .moduleItem).Ensures cursor fun node next =>
      node.kind.isSimple = true → SimpleStatement dialect cursor node next := by
    cases fuel with
    | zero => exact failure_ensures _ _
    | succ fuel => exact moduleItem_ensures
  rw [bind_ensures]
  refine hitem.mono fun node next h => (pure_ensures _ _ _).2 ⟨nofun, ?_⟩
  rintro _ ⟨⟩
  exact h

/-! ## Calls -/

/-- Somewhere from one cursor to another a path is called without arguments; it is at the first cursor if that is on a word. -/
inductive CallsPath (cursor : Cursor) (callee : Node) (next : Cursor) : Prop where
  | intro {start between : Cursor} (hlead : cursor.Leads start) (hpath : Path start callee between) (hrest : between.Leads next)
      (hfirst : cursor.token.isWord = true → start = cursor)

/-! ## Expressions -/

/-- A call without arguments is read from the path that it calls. -/
theorem Chained.callsPath (h : Chained dialect cursor ⟨.call false false, span, [callee]⟩ next) (hcallee : IsPath callee) :
    CallsPath cursor callee next ∧ span.stop = next.previous := by
  obtain ⟨between, hpath, hopen, hclose, rfl, hstop⟩ := h.call hcallee
  exact ⟨⟨.refl cursor, hpath, (Leads.advance (hopen ▸ rfl)).trans (.advance (hclose ▸ rfl)), fun _ => rfl⟩, hstop⟩

theorem isPlain_of_unparenthesized (hcall : node.unparenthesized = ⟨.call false false, span, [callee]⟩) :
    node.kind.isPlain = true := by
  unfold Node.unparenthesized at hcall
  split at hcall
  · rfl
  · rw [hcall]
    rfl

/-- A call in any number of parentheses. -/
theorem callsPath_of_expression (h : run fuel (.top dialect) .expression cursor = some (node, next))
    (hcall : node.unparenthesized = ⟨.call false false, span, [callee]⟩) (hcallee : IsPath callee) :
    CallsPath cursor callee next ∧ node.span.stop = next.previous := by
  fun_induction Node.unparenthesized node generalizing fuel cursor next with
  | case1 outer kind inner children ih =>
    obtain ⟨hopen, fuel, _, between, hparts, hinner, hclose, rfl, hstop⟩ := (chained_of_expression h rfl).1.paren
    obtain rfl := List.singleton_inj.1 hparts
    obtain ⟨⟨hlead, hpath, hrest, -⟩, -⟩ := ih hinner hcall
    refine ⟨⟨(Leads.advance (hopen ▸ rfl)).trans hlead, hpath, hrest.trans (.advance (hclose ▸ rfl)), fun hword => ?_⟩, hstop⟩
    rw [hopen] at hword
    cases hword
  | case2 node hother =>
    subst hcall
    exact (chained_of_expression h rfl).1.callsPath hcallee

/-! ## Statements -/

theorem Operand.callsPath (h : Operand dialect cursor node next)
    (hcall : node.unparenthesized = ⟨.call false false, span, [callee]⟩) (hcallee : IsPath callee) :
    CallsPath cursor callee next := by
  cases h with
  | expression h => exact (callsPath_of_expression h hcall hcallee).1
  | assignment hword h =>
    have hchained := (chained_of_assignment h (isPlain_of_unparenthesized hcall)).1
    unfold Node.unparenthesized at hcall
    split at hcall
    · rw [hchained.paren.1] at hword
      cases hword
    · subst hcall
      exact (hchained.callsPath hcallee).1
  | name h =>
    obtain ⟨name, hname⟩ := h
    obtain ⟨kind, span, children⟩ := node
    subst hname
    cases hcall

/-- A text as an operand is a token. -/
theorem Operand.text {text : String} {parts : List Node} (h : Operand dialect cursor ⟨.string text, span, parts⟩ next) :
    cursor.token = .string text ∧ next = cursor.advance := by
  cases h with
  | expression h => exact (chained_of_expression h rfl).1.text
  | assignment _ h => exact (chained_of_assignment h rfl).1.text
  | name h =>
    obtain ⟨name, hname⟩ := h
    cases hname

theorem leads_of_end {between : Cursor} (hend : between.token = .punct ";" ∧ next = between.advance ∨ next = between) :
    between.Leads next := by
  rcases hend with ⟨htoken, rfl⟩ | rfl
  · exact .advance (htoken ▸ rfl)
  · exact .refl _

/-- A directive is a text that stands alone. -/
theorem SimpleStatement.of_isDirective (h : SimpleStatement dialect cursor node next) (hdirective : isDirective node = true) :
    cursor.token.isWord = false ∧ cursor.Leads next := by
  cases h with
  | empty => cases hdirective
  | @expression value between _ hvalue hend =>
    unfold isDirective at hdirective
    split at hdirective
    · next heq =>
      cases heq
      obtain ⟨htoken, rfl⟩ := hvalue.text
      exact ⟨htoken ▸ rfl, (Leads.advance (htoken ▸ rfl)).trans (leads_of_end hend)⟩
    · cases hdirective

theorem SimpleStatement.of_empty (h : SimpleStatement dialect cursor node next) (hempty : node.kind = .empty) :
    cursor.token = .punct ";" ∧ next = cursor.advance := by
  cases h with
  | empty htoken => exact ⟨htoken, rfl⟩
  | expression => cases hempty

theorem SimpleStatement.callsPath (h : SimpleStatement dialect cursor ⟨.expressionStatement, span, [value]⟩ next) {inner : Span}
    (hcall : value.unparenthesized = ⟨.call false false, inner, [callee]⟩) (hcallee : IsPath callee) :
    CallsPath cursor callee next ∧ next.previous = span.stop := by
  cases h with
  | expression hvalue hend =>
    obtain ⟨hlead, hpath, hrest, hfirst⟩ := hvalue.callsPath hcall hcallee
    exact ⟨⟨hlead, hpath, hrest.trans (leads_of_end hend), hfirst⟩, rfl⟩

/-! ## Modules -/

/-- A simple statement stands somewhere behind a cursor; if the cursor is on a word, it is there and nothing but empty statements
follow it. -/
inductive Alone (dialect : Dialect) (cursor : Cursor) (node : Node) : Prop where
  | intro {start next : Cursor} (hlead : cursor.Leads start) (hnode : SimpleStatement dialect start node next)
      (hfirst : cursor.token.isWord = true → start = cursor ∧ (next.token = .punct ";" ∨ next.token = .endOfText))

/-- The one statement of a module that is not empty. -/
theorem alone_of_filter {statements : List Node} (h : Collects (item? fuel dialect) cursor statements last)
    (hone : statements.filter (·.kind != .empty) = [node]) (hsimple : node.kind.isSimple = true) : Alone dialect cursor node := by
  induction h with
  | nil => cases hone
  | @cons cursor between last first rest hitem hrest ih =>
    obtain ⟨-, hfirst⟩ := item?_ensures _ _ hitem
    by_cases hempty : first.kind = .empty
    · obtain ⟨htoken, rfl⟩ := (hfirst first rfl (hempty ▸ rfl)).of_empty hempty
      rw [List.filter_cons_of_neg (by simp [hempty])] at hone
      obtain ⟨hlead, hnode, -⟩ := ih hone
      refine ⟨(Leads.advance (htoken ▸ rfl)).trans hlead, hnode, fun hword => ?_⟩
      rw [htoken] at hword
      cases hword
    · rw [List.filter_cons_of_pos (by simp [hempty])] at hone
      obtain ⟨rfl, hnone⟩ := List.cons.inj hone
      refine ⟨.refl cursor, hfirst first rfl hsimple, fun _ => ⟨rfl, ?_⟩⟩
      cases hrest with
      | nil hend => exact .inr ((item?_ensures _ _ hend).1 rfl)
      | @cons _ _ _ second _ hitem _ =>
        have hempty : second.kind = .empty := by
          have hall := List.filter_eq_nil_iff.1 hnone second List.mem_cons_self
          simpa using hall
        exact .inl (((item?_ensures _ _ hitem).2 second rfl (hempty ▸ rfl)).of_empty hempty).1

/-- The one statement of a module that is neither a directive nor empty. -/
theorem alone_of_dropWhile {statements : List Node} (h : Collects (item? fuel dialect) cursor statements last)
    (hone : (statements.dropWhile isDirective).filter (·.kind != .empty) = [node]) (hsimple : node.kind.isSimple = true) :
    Alone dialect cursor node := by
  induction h with
  | nil => cases hone
  | @cons cursor between last first rest hitem hrest ih =>
    by_cases hdirective : isDirective first = true
    · rw [List.dropWhile_cons_of_pos hdirective] at hone
      have hkind : first.kind.isSimple = true := by
        unfold isDirective at hdirective
        split at hdirective
        · rfl
        · cases hdirective
      obtain ⟨hnot, hleads⟩ := ((item?_ensures _ _ hitem).2 first rfl hkind).of_isDirective hdirective
      obtain ⟨hlead, hnode, -⟩ := ih hone
      exact ⟨hleads.trans hlead, hnode, fun hword => by cases hnot.symm.trans hword⟩
    · rw [List.dropWhile_cons_of_neg hdirective] at hone
      exact alone_of_filter (.cons hitem hrest) hone hsimple

/-! ## Texts -/

/-- The script calls a path without arguments, and where what calls it ends. If it starts with a word, it starts with the path,
and behind its end nothing would go on with an expression. -/
inductive LoneCall (dialect : Dialect) (text : List Char) (callee : Node) (stop : Nat) : Prop where
  | intro {start between last : Cursor} (hstart : Follows ⟨0, text⟩ start) (hpath : Path start callee between)
      (hrest : between.Leads last) (hstop : last.previous = stop)
      (hfirst : (ofText text).token.isWord = true → start = ofText text ∧ Ends dialect last ∧ last.token ≠ .invalid)

variable {text : List Char}

theorem loneCall_of_parseExpression? (h : parseExpression? dialect text = some node)
    (hcall : node.unparenthesized = ⟨.call false false, span, [callee]⟩) (hcallee : IsPath callee) :
    LoneCall dialect text callee node.span.stop := by
  obtain ⟨⟨found, next⟩, hrun, hfound⟩ := Option.bind_eq_some_iff.1 h
  obtain ⟨hfaults, hnode⟩ := Option.ite_none_left_eq_some.1 hfound
  obtain rfl := Option.some.inj hnode
  obtain ⟨⟨hlead, hpath, hrest, hfirst⟩, hstop⟩ := callsPath_of_expression hrun hcall hcallee
  have hends := (chained_of_expression hrun (isPlain_of_unparenthesized hcall)).2
  have hvalid : next.token ≠ .invalid := by
    rintro hinvalid
    exact hfaults (by simp [hinvalid])
  exact ⟨hlead _ (follows_enter _ _), hpath, hrest, hstop.symm, fun hword => ⟨hfirst hword, hends, hvalid⟩⟩

/-- A line for the loader, in front of a module, does not start with a word. -/
theorem moduleStart_cases (text : List Char) : moduleStart text = ofText text ∨
    (ofText text).token.isWord = false ∧ Follows ⟨0, text⟩ (moduleStart text) := by
  unfold moduleStart
  split
  · next rest =>
    refine .inr ⟨?_, _, ⟨[], false, []⟩, (Stream.reads_span (fun c => !isLineEnd c) _).before, rfl⟩
    have hsolid : isLineEnd '#' = false ∧ isBlank '#' = false ∧ '#' ≠ '/' := by decide
    have hstart : isIdStart '#' = false ∧ isIdStart '!' = false := by decide +kernel
    have hnext : readWord (Stream.next ⟨0, '#' :: '!' :: rest⟩) = none := by
      rw [readWord, Stream.next, wordChars_cons (by decide), if_pos rfl, hstart.2]
      rfl
    have htoken : (readToken ⟨0, '#' :: '!' :: rest⟩).1 = .invalid := by
      simp [readToken, hstart.1, hnext]
    rw [ofText, ofStream, enter_solid hsolid, facing, htoken]
    rfl
  · exact .inl rfl

/-- The statements of a program without errors are the items of a module. -/
theorem moduleItems_of_statements? {statements : List Node} (h : (parseProgram dialect text).statements? = some statements) :
    ∃ next, (moduleItems dialect text).run (moduleStart text) = some (statements, next) := by
  unfold parseProgram ParsedProgram.statements? at h
  split at h
  · simp at h
  · next found next hrun =>
    obtain ⟨-, heq⟩ := Option.ite_none_left_eq_some.1 h
    cases heq
    exact ⟨next, hrun⟩

theorem loneCall_of_parseProgram {statements : List Node} (h : (parseProgram dialect text).statements? = some statements)
    (hone : statements.filter (·.kind != .empty) = [⟨.expressionStatement, span, [value]⟩]) {inner : Span}
    (hcall : value.unparenthesized = ⟨.call false false, inner, [callee]⟩) (hcallee : IsPath callee) :
    LoneCall dialect text callee span.stop := by
  obtain ⟨next, hrun⟩ := moduleItems_of_statements? h
  obtain ⟨⟨all, last⟩, hall, hdrop⟩ := Option.bind_eq_some_iff.1 hrun
  cases hdrop
  obtain ⟨hstatement, hnode, halone⟩ := alone_of_dropWhile (many_ensures (item? (nesting text) dialect) _ _ _ hall) hone rfl
  obtain ⟨⟨hlead, hpath, hrest, hfirst⟩, hstop⟩ := hnode.callsPath hcall hcallee
  rcases moduleStart_cases text with hstart | ⟨hnot, hstart⟩
  · rw [hstart] at hstatement halone
    refine ⟨hlead _ (hstatement _ (follows_enter _ _)), hpath, hrest, hstop, fun hword => ?_⟩
    obtain ⟨rfl, hend⟩ := halone hword
    refine ⟨hfirst hword, .of_stop hend, ?_⟩
    rcases hend with htoken | htoken
    · simp [htoken]
    · simp [htoken]
  · exact ⟨hlead _ (hstatement _ hstart), hpath, hrest, hstop, fun hword => by cases hnot.symm.trans hword⟩

/-! ## Cutting what follows the callee -/

/-- A text behind which no name goes on, and at whose front no token is read on the line. -/
structure Rests (text : List Char) : Prop where
  breaks : Breaks text
  rests : ∀ offset previous notes, (enter ⟨offset, text⟩ previous notes).newline = true ∨
    (enter ⟨offset, text⟩ previous notes).token = .endOfText ∨ (enter ⟨offset, text⟩ previous notes).token = .invalid

theorem Path.isWord (h : Path cursor node next) : cursor.token.isWord = true := by
  induction h with
  | name htoken => rw [htoken]; rfl
  | member _ _ _ ih => exact ih

theorem Path.hasStrayDefault_eq (h : Path cursor node next) : hasStrayDefault [node] = false := by
  induction h with
  | name => rfl
  | member _ _ _ ih => simpa [hasStrayDefault, Node.anyOf, Node.any] using ih

/-- A path is all that is read of a text if no token follows it on its line, and nothing goes on with it. -/
theorem Path.parseExpression? (h : Path (ofText text) node next) (hends : Ends dialect next) (hapart : Apart next)
    (hvalid : next.token ≠ .invalid) : parseExpression? dialect text = some node := by
  have hrun : run (nesting text) (.top dialect) .expression (ofText text) = some (node, next) := by
    have hfuel : nesting text = nesting text - 5 + 5 := by
      unfold nesting
      omega
    rw [hfuel]
    exact h.expression_run hends hapart _
  have hflawed : next.notes.flawed = false := by
    rw [h.flawed_eq, ofText, ofStream, enter_flawed]
  simp [Script.parseExpression?, StateT.run, hrun, hflawed, h.hasStrayDefault_eq, hvalid]

/-- A path that is read of a text stands at its start. -/
theorem path_of_parseExpression? (h : parseExpression? dialect text = some node) (hpath : IsPath node) :
    ∃ next, Path (ofText text) node next := by
  obtain ⟨⟨found, next⟩, hrun, hfound⟩ := Option.bind_eq_some_iff.1 h
  obtain ⟨-, hnode⟩ := Option.ite_none_left_eq_some.1 hfound
  obtain rfl := Option.some.inj hnode
  exact ⟨next, (chained_of_expression hrun hpath.isPlain).1.path hpath⟩

/-- A path in parentheses is followed by a closing one. -/
theorem closes_of_expression (h : run fuel (.top dialect) .expression cursor = some (node, next))
    (hpath : IsPath node.unparenthesized) : node.unparenthesized = node ∨
      ∃ start between, cursor.Leads start ∧ Path start node.unparenthesized between ∧ between.token = .punct ")" := by
  fun_induction Node.unparenthesized node generalizing fuel cursor next with
  | case1 outer kind inner children ih =>
    obtain ⟨hopen, fuel, _, between, hparts, hinner, hclose, -, -⟩ := (chained_of_expression h rfl).1.paren
    obtain rfl := List.singleton_inj.1 hparts
    have hlead : cursor.Leads cursor.advance := .advance (hopen ▸ rfl)
    rcases ih hinner hpath with hself | ⟨start, last, hleads, hlast, hclosed⟩
    · rw [hself] at hpath ⊢
      exact .inr ⟨cursor.advance, between, hlead, (chained_of_expression hinner hpath.isPlain).1.path hpath, hclose⟩
    · exact .inr ⟨start, last, hlead.trans hleads, hlast, hclosed⟩
  | case2 node hother => exact .inl rfl

theorem closes_of_parseExpression? {front behind : List Char} (h : parseExpression? dialect (front ++ behind) = some node)
    (hpath : IsPath node.unparenthesized) (hstop : node.unparenthesized.span.stop = byteLength front) :
    node.unparenthesized = node ∨ (ofText behind).token = .punct ")" := by
  obtain ⟨⟨found, next⟩, hrun, hfound⟩ := Option.bind_eq_some_iff.1 h
  obtain ⟨-, hnode⟩ := Option.ite_none_left_eq_some.1 hfound
  obtain rfl := Option.some.inj hnode
  refine (closes_of_expression hrun hpath).imp_right ?_
  rintro ⟨start, between, hleads, hstart, hclose⟩
  obtain ⟨entered, notes, ⟨lead, hlead⟩, rfl⟩ := hleads _ (follows_enter ⟨0, front ++ behind⟩ _)
  obtain ⟨taken, ended, after, -, htaken, -, hspan, rfl, -⟩ := hstart.exchange rfl
  have hreads := hlead.trans htaken
  have hoffset : ended.offset = byteLength (lead ++ taken) := hreads.offset.trans (Nat.zero_add _)
  obtain ⟨-, rfl⟩ := append_inj_of_byteLength hreads.chars (hstop.symm.trans (hspan.trans hoffset))
  have hplace : ended = Stream.shift ⟨0, ended.chars⟩ ended.offset := by
    rw [Stream.shift, Nat.zero_add]
  have hsame := enter_shift ⟨0, ended.chars⟩ ended.offset 0 ended.offset ⟨[], false, []⟩ after
  rw [← hplace] at hsame
  exact hsame.token.symm.trans hclose

/-- A path at the start of a text stays there when what stands behind it is exchanged. -/
theorem Path.exchange_start {front back : List Char} (h : Path (ofText (front ++ back)) node next)
    (hstop : node.span.stop = byteLength front) : ∃ notes, next = enter ⟨byteLength front, back⟩ (byteLength front) notes ∧
      ∀ rest, Breaks rest →
        Path (ofText (front ++ rest)) node (enter ⟨byteLength front, rest⟩ (byteLength front) notes) := by
  obtain ⟨taken, ⟨offset, ended⟩, after, -, htaken, -, hspan, rfl, hagain⟩ := h.exchange rfl
  have hoffset : offset = byteLength taken := htaken.offset.trans (Nat.zero_add _)
  obtain ⟨rfl, rfl⟩ := append_inj_of_byteLength htaken.chars (hstop.symm.trans (hspan.trans hoffset))
  subst hoffset
  exact ⟨after, rfl, hagain⟩

/-- What follows the callee is cut off up to where what calls it ends. The callee is then read of what is left if the script
started with a word and nothing follows on the line. If a path that ends where the callee does is read of what is left, the script
started with a word. -/
theorem LoneCall.exists_cut {stop : Nat} (h : LoneCall dialect text callee stop) :
    ∃ front cut behind, text = front ++ (cut ++ behind) ∧ byteLength front = callee.span.stop ∧ byteLength (front ++ cut) = stop ∧
      ((ofText text).token.isWord = true → Rests behind → parseExpression? dialect (front ++ behind) = some callee) ∧
      ∀ found, parseExpression? dialect (front ++ behind) = some found → IsPath found → found.span.stop = byteLength front →
        (ofText text).token.isWord = true := by
  obtain ⟨hstart, hpath, hrest, hstop, hfirst⟩ := h
  obtain ⟨entered, notes, ⟨lead, hlead⟩, rfl⟩ := hstart
  obtain ⟨taken, ended, after, -, htaken, hbreaks, hspan, rfl, -⟩ := hpath.exchange rfl
  obtain ⟨behind, notes', ⟨cut, hcut⟩, rfl⟩ := hrest _ (follows_enter ended after)
  rw [enter_previous] at hstop
  have hfront := hlead.trans htaken
  have htext : text = lead ++ taken ++ (cut ++ behind.chars) := by
    rw [← hcut.chars]
    exact hfront.chars
  have hlength : byteLength (lead ++ taken) = ended.offset := by
    rw [hfront.offset, Nat.zero_add]
  refine ⟨lead ++ taken, cut, behind.chars, htext, hlength.trans hspan.symm, ?_, fun hword hrests => ?_,
    fun found hfound hpath hstop => ?_⟩
  · rw [byteLength_append, hlength, ← hstop, hcut.offset]
  · obtain ⟨hsame, hends, hvalid⟩ := hfirst hword
    rw [hsame, htext] at hpath
    obtain ⟨notes'', -, hagain⟩ := hpath.exchange_start (hspan.trans hlength.symm)
    -- The same token stands behind the callee as behind what calls it.
    have hplace : behind = Stream.shift ⟨byteLength (lead ++ taken), behind.chars⟩ (byteLength cut) := by
      rw [Stream.shift, hlength, ← hcut.offset]
    have hsame := enter_shift ⟨byteLength (lead ++ taken), behind.chars⟩ (byteLength cut) (byteLength (lead ++ taken))
      behind.offset notes'' notes'
    rw [← hplace] at hsame
    have hinvalid := hsame.token ▸ hvalid
    refine (hagain behind.chars hrests.breaks).parseExpression? (hends.sameAs hsame.symm) ?_ hinvalid
    rcases hrests.rests (byteLength (lead ++ taken)) (byteLength (lead ++ taken)) notes'' with hline | hend | hnone
    · exact .inl hline
    · exact apart_of_endOfText hend
    · exact absurd hnone hinvalid
  · obtain ⟨next, hfoundPath⟩ := path_of_parseExpression? hfound hpath
    obtain ⟨notes'', -, hagain⟩ := hfoundPath.exchange_start hstop
    rw [htext]
    exact (hagain _ (hcut.chars ▸ hbreaks)).isWord

end Grammar

end ComponentLint.Script
