import ComponentLint.Proofs.Lint.Walk
import ComponentLint.Proofs.Script.Places
import Mathlib.Data.List.Nodup

/-!
# Dead branches

The rule on dead branches compares conditions by their operands. Here they get truth values (`Valuation`): parentheses do not
matter, `&&` and `||` are what they are in logic, and expressions of one kind and one text are true together. Only the
expressions of a chain need values, since only for these does the text decide what they are.

What the rule computes comes to one of two things: the conditions before a branch cover all of a part of its condition, or some
of the condition as a whole (`isDead_iff`). From this follows that what is reported is dead (`dead_of_isDead`), and that a
condition which mirrors an earlier one is reported (`isDead_of_mirrors`).
-/

namespace ComponentLint.Rules.DeadBranch

open Text Markup Script

variable {languages : Script.Languages} {patterns : PatternEngine}

/-! ## Truth values of expressions -/

/-- A node of the tree of an expression. -/
inductive Inside (root : Script.Node) : Script.Node → Prop where
  | whole : Inside root root
  | part {node part : Script.Node} (h : Inside root node) (hpart : part ∈ node.children) : Inside root part

/-- Whether two expressions are of one kind and of one text, apart from white space. -/
def Alike (document : Document) (a b : Script.Node) : Prop :=
  a.kind.ctorIdx = b.kind.ctorIdx ∧ normalize (document.text a.span) = normalize (document.text b.span)

/-- Truth values for the expressions of a set: parentheses do not matter, `&&` and `||` are what they are in logic, and
expressions of one kind and one text are true together. -/
structure Valuation (document : Document) (known : Script.Node → Prop) (holds : Script.Node → Prop) : Prop where
  paren : ∀ span inner, known ⟨.paren, span, [inner]⟩ → (holds ⟨.paren, span, [inner]⟩ ↔ holds inner)
  conjunction : ∀ span left right, known ⟨.logical .conjunction, span, [left, right]⟩ →
    (holds ⟨.logical .conjunction, span, [left, right]⟩ ↔ holds left ∧ holds right)
  disjunction : ∀ span left right, known ⟨.logical .disjunction, span, [left, right]⟩ →
    (holds ⟨.logical .disjunction, span, [left, right]⟩ ↔ holds left ∨ holds right)
  alike : ∀ a b, known a → known b → Alike document a b → (holds a ↔ holds b)

/-- A set of expressions that has the parts of its members. -/
def Closed (known : Script.Node → Prop) : Prop :=
  ∀ node part, known node → part ∈ node.children → known part

theorem sameText_iff {document : Document} {a b : Script.Node} : sameText document a b = true ↔ Alike document a b := by
  simp [sameText, Alike]

variable {document : Document} {known holds : Script.Node → Prop}

/-! ## Operands -/

theorem known_operands (hclosed : Closed known) {operator : LogicalOperator} {node operand : Script.Node} (hnode : known node)
    (h : operand ∈ operands operator node) : known operand := by
  fun_induction operands operator node with
  | case1 span inner ih => exact ih (hclosed _ _ hnode (by simp)) h
  | case2 found span left right hfound ihl ihr =>
    rcases List.mem_append.1 h with h | h
    · exact ihl (hclosed _ _ hnode (by simp)) h
    · exact ihr (hclosed _ _ hnode (by simp)) h
  | case3 found span left right hfound => exact List.mem_singleton.1 h ▸ hnode
  | case4 => exact List.mem_singleton.1 h ▸ hnode

/-- A conjunction holds if all its operands do. -/
theorem holds_iff_forall (hclosed : Closed known) (hv : Valuation document known holds)
    {node : Script.Node} (hnode : known node) :
    holds node ↔ ∀ operand ∈ operands .conjunction node, holds operand := by
  fun_induction operands .conjunction node with
  | case1 span inner ih => rw [hv.paren span inner hnode, ih (hclosed _ _ hnode (by simp))]
  | case2 found span left right hfound ihl ihr =>
    obtain rfl := beq_iff_eq.1 hfound
    rw [hv.conjunction span left right hnode, ihl (hclosed _ _ hnode (by simp)), ihr (hclosed _ _ hnode (by simp)),
      List.forall_mem_append]
  | case3 => simp
  | case4 => simp

/-- A disjunction holds if one of its operands does. -/
theorem holds_iff_exists (hclosed : Closed known) (hv : Valuation document known holds)
    {node : Script.Node} (hnode : known node) :
    holds node ↔ ∃ operand ∈ operands .disjunction node, holds operand := by
  fun_induction operands .disjunction node with
  | case1 span inner ih => rw [hv.paren span inner hnode, ih (hclosed _ _ hnode (by simp))]
  | case2 found span left right hfound ihl ihr =>
    obtain rfl := beq_iff_eq.1 hfound
    rw [hv.disjunction span left right hnode, ihl (hclosed _ _ hnode (by simp)), ihr (hclosed _ _ hnode (by simp))]
    simp [or_and_right, exists_or]
  | case3 => simp
  | case4 => simp

/-! ## Expressions that are the same -/

theorem known_unparenthesized (hclosed : Closed known) {node : Script.Node} (hnode : known node) :
    known node.unparenthesized := by
  fun_induction Node.unparenthesized node with
  | case1 span kind inner children ih => exact ih (hclosed _ _ hnode (by simp))
  | case2 => exact hnode

theorem holds_unparenthesized (hclosed : Closed known) (hv : Valuation document known holds) {node : Script.Node}
    (hnode : known node) : holds node.unparenthesized ↔ holds node := by
  fun_induction Node.unparenthesized node with
  | case1 span kind inner children ih => rw [hv.paren _ _ hnode, ih (hclosed _ _ hnode (by simp))]
  | case2 => rfl

/-- Expressions that are found to be the same are true together. -/
theorem holds_congr_of_equivalent (hclosed : Closed known) (hv : Valuation document known holds) {a b : Script.Node}
    (ha : known a) (hb : known b) (h : equivalent document a b = true) : holds a ↔ holds b := by
  have hplain {node other : Script.Node} (hnode : known node) (hother : known other)
      (hsame : sameText document node other.unparenthesized = true) : holds node ↔ holds other := by
    rw [← holds_unparenthesized hclosed hv hother]
    exact hv.alike _ _ hnode (known_unparenthesized hclosed hother) (sameText_iff.1 hsame)
  fun_induction equivalent document a b with
  | case1 other span inner ih =>
    rw [hv.paren _ _ ha]
    exact ih (hclosed _ _ ha (by simp)) hb h
  | case2 operator span left right other operator' span' left' right' hother hoperator ihl ihr ihl' ihr' =>
    obtain ⟨rfl, hlogic⟩ : operator = operator' ∧ operator ≠ .fallback := by simpa using hoperator
    have hb' := known_unparenthesized hclosed hb
    rw [hother] at hb'
    rw [← holds_unparenthesized hclosed hv hb, hother]
    -- the four operands, each as far as it is compared
    have hleft : known left := hclosed _ _ ha (by simp)
    have hright : known right := hclosed _ _ ha (by simp)
    have hleft' : known left' := hclosed _ _ hb' (by simp)
    have hright' : known right' := hclosed _ _ hb' (by simp)
    have hpairs : ((holds left ↔ holds left') ∧ (holds right ↔ holds right')) ∨
        ((holds left ↔ holds right') ∧ (holds right ↔ holds left')) := by
      simp only [Bool.or_eq_true, Bool.and_eq_true] at h
      rcases h with ⟨hl, hr⟩ | ⟨hl, hr⟩
      · exact .inl ⟨ihl hleft hleft' hl, ihr hright hright' hr⟩
      · exact .inr ⟨ihl' hleft hright' hl, ihr' hright hleft' hr⟩
    cases operator with
    | conjunction =>
      rw [hv.conjunction _ _ _ ha, hv.conjunction _ _ _ hb']
      rcases hpairs with ⟨hl, hr⟩ | ⟨hl, hr⟩
      · rw [hl, hr]
      · rw [hl, hr, and_comm]
    | disjunction =>
      rw [hv.disjunction _ _ _ ha, hv.disjunction _ _ _ hb']
      rcases hpairs with ⟨hl, hr⟩ | ⟨hl, hr⟩
      · rw [hl, hr]
      · rw [hl, hr, or_comm]
    | fallback => exact absurd rfl hlogic
  | case3 operator span left right other operator' span' left' right' hother => exact hplain ha hb (hother ▸ h)
  | case4 => exact hplain ha hb h
  | case5 => exact hplain ha hb h

/-! ## Conditions that are covered -/

/-- Some disjunct of an earlier condition has no operand that a conjunction lacks. -/
def Covered (document : Document) (earlier : List Script.Node) (conjuncts : List Script.Node) : Prop :=
  ∃ condition ∈ earlier, ∃ disjunct ∈ disjunction condition, covers document disjunct conjuncts = true

/-- Where a conjunction that is covered holds, one of the earlier conditions does. -/
theorem holds_of_covered (hclosed : Closed known) (hv : Valuation document known holds) {earlier conjuncts : List Script.Node}
    (h : Covered document earlier conjuncts) (hearlier : ∀ condition ∈ earlier, known condition)
    (hconjuncts : ∀ operand ∈ conjuncts, known operand) (hall : ∀ operand ∈ conjuncts, holds operand) :
    ∃ condition ∈ earlier, holds condition := by
  obtain ⟨condition, hcondition, disjunct, hdisjunct, hcovers⟩ := h
  obtain ⟨part, hpart, rfl⟩ := List.mem_map.1 hdisjunct
  have hknown := hearlier condition hcondition
  have hknownPart := known_operands hclosed hknown hpart
  refine ⟨condition, hcondition, (holds_iff_exists hclosed hv hknown).2 ⟨part, hpart, ?_⟩⟩
  refine (holds_iff_forall hclosed hv hknownPart).2 fun operand hoperand => ?_
  obtain ⟨other, hother, hsame⟩ := List.any_eq_true.1 (List.all_eq_true.1 hcovers operand hoperand)
  have hcongr := holds_congr_of_equivalent hclosed hv (known_operands hclosed hknownPart hoperand) (hconjuncts other hother) hsame
  exact hcongr.2 (hall other hother)

theorem covered_cons {condition : Script.Node} {earlier conjuncts : List Script.Node} :
    Covered document (condition :: earlier) conjuncts ↔
      (disjunction condition).any (covers document · conjuncts) = true ∨ Covered document earlier conjuncts := by
  simp [Covered]

theorem mem_uncovered {condition : Script.Node} {part : List (List Script.Node)} {conjuncts : List Script.Node} :
    conjuncts ∈ uncovered document (disjunction condition) part ↔
      conjuncts ∈ part ∧ ¬ (disjunction condition).any (covers document · conjuncts) = true := by
  simp [uncovered, List.mem_filter]

/-- All of a part is covered if all that one condition leaves of it is covered by the others. -/
theorem forall_covered_uncovered {condition : Script.Node} {earlier : List Script.Node} {part : List (List Script.Node)} :
    (∀ conjuncts ∈ uncovered document (disjunction condition) part, Covered document earlier conjuncts) ↔
      ∀ conjuncts ∈ part, Covered document (condition :: earlier) conjuncts := by
  simp only [mem_uncovered, covered_cons]
  constructor
  · intro h conjuncts hconjuncts
    by_cases hhere : (disjunction condition).any (covers document · conjuncts) = true
    · exact .inl hhere
    · exact .inr (h conjuncts ⟨hconjuncts, hhere⟩)
  · rintro h conjuncts ⟨hconjuncts, hhere⟩
    exact (h conjuncts hconjuncts).resolve_left hhere

/-- A condition leaves less of a part than there is if it covers some of it. -/
theorem length_uncovered_lt {condition : Script.Node} {part : List (List Script.Node)} :
    (uncovered document (disjunction condition) part).length < part.length ↔
      ∃ conjuncts ∈ part, (disjunction condition).any (covers document · conjuncts) = true := by
  rw [uncovered, List.length_filter_lt_length_iff_exists]
  simp

/-- A branch is dead if the conditions before it cover all of one of its parts, or some of the condition as a whole. -/
theorem isDead_iff {parts : List (List (List Script.Node))} {whole : List (List Script.Node)} {earlier : List Script.Node}
    (hlast : parts.getLast? = some whole) (hparts : ∀ part ∈ parts, part ≠ []) :
    isDead document whole.length parts earlier = true ↔
      (∃ part ∈ parts, ∀ conjuncts ∈ part, Covered document earlier conjuncts) ∨
        ∃ conjuncts ∈ whole, Covered document earlier conjuncts := by
  induction earlier generalizing parts with
  | nil =>
    refine iff_of_false nofun ?_
    rintro (⟨part, hpart, hall⟩ | ⟨conjuncts, _, _, hnone, _⟩)
    · obtain ⟨conjuncts, hconjuncts⟩ := List.exists_mem_of_ne_nil _ (hparts part hpart)
      obtain ⟨_, hnone, _⟩ := hall conjuncts hconjuncts
      cases hnone
    · cases hnone
  | cons condition earlier ih =>
    have hleft : (parts.map (uncovered document (disjunction condition))).getLast? =
        some (uncovered document (disjunction condition) whole) := by
      rw [List.getLast?_map, hlast, Option.map_some]
    simp only [isDead, hleft, Option.any_some, Bool.or_eq_true, List.any_map, List.any_eq_true, Function.comp_apply,
      List.isEmpty_iff, decide_eq_true_eq, length_uncovered_lt]
    by_cases hempty : ∃ part ∈ parts, uncovered document (disjunction condition) part = []
    · refine iff_of_true (.inl (.inl hempty)) (.inl ?_)
      obtain ⟨part, hpart, hnone⟩ := hempty
      exact ⟨part, hpart, forall_covered_uncovered.1 (by simp [hnone])⟩
    · by_cases hsome : ∃ conjuncts ∈ whole, (disjunction condition).any (covers document · conjuncts) = true
      · refine iff_of_true (.inl (.inr (by simpa using hsome))) (.inr ?_)
        obtain ⟨conjuncts, hconjuncts, hhere⟩ := hsome
        exact ⟨conjuncts, hconjuncts, covered_cons.2 (.inl hhere)⟩
      · -- nothing of the whole is covered here, so it is left as it is
        have hwhole : uncovered document (disjunction condition) whole = whole := by
          refine List.filter_eq_self.2 fun conjuncts hconjuncts => ?_
          rw [Bool.not_eq_true', Bool.eq_false_iff]
          exact fun hhere => hsome ⟨conjuncts, hconjuncts, hhere⟩
        have hrest := ih (hwhole ▸ hleft) (by simpa using fun part hpart hnone => hempty ⟨part, hpart, hnone⟩)
        rw [hrest]
        constructor
        · rintro ((hnow | hnow) | ⟨_, hpart, hall⟩ | ⟨conjuncts, hconjuncts, hcovered⟩)
          · exact absurd hnow hempty
          · exact absurd (by simpa using hnow) hsome
          · obtain ⟨part, hmem, rfl⟩ := List.mem_map.1 hpart
            exact .inl ⟨part, hmem, forall_covered_uncovered.1 hall⟩
          · exact .inr ⟨conjuncts, hconjuncts, covered_cons.2 (.inr hcovered)⟩
        · rintro (⟨part, hpart, hall⟩ | ⟨conjuncts, hconjuncts, hcovered⟩)
          · exact .inr (.inl ⟨_, List.mem_map_of_mem hpart, forall_covered_uncovered.2 hall⟩)
          · refine .inr (.inr ⟨conjuncts, hconjuncts, (covered_cons.1 hcovered).resolve_left fun hhere => ?_⟩)
            exact hsome ⟨conjuncts, hconjuncts, hhere⟩

/-! ## Soundness -/

/-- The expressions of a chain: those inside a condition and those inside the conditions before it. -/
def Known (condition : Script.Node) (earlier : List Script.Node) (node : Script.Node) : Prop :=
  ∃ root ∈ condition :: earlier, Inside root node

theorem closed_known (condition : Script.Node) (earlier : List Script.Node) : Closed (Known condition earlier) :=
  fun _ _ ⟨root, hroot, hnode⟩ hpart => ⟨root, hroot, hnode.part hpart⟩

/-- Whatever the truth values of the expressions of a chain are: where a node holds, so does one of the conditions before. -/
def Preempted (document : Document) (condition : Script.Node) (earlier : List Script.Node) (node : Script.Node) : Prop :=
  ∀ holds, Valuation document (Known condition earlier) holds → holds node → ∃ other ∈ earlier, holds other

/-- A top-level operand: what is left of an expression when parentheses and uses of the operator are taken apart. -/
inductive Operand (operator : LogicalOperator) (operand : Script.Node) : Script.Node → Prop where
  | paren {span : Span} {inner : Script.Node} (h : Operand operator operand inner) :
      Operand operator operand ⟨.paren, span, [inner]⟩
  | left {span : Span} {left right : Script.Node} (h : Operand operator operand left) :
      Operand operator operand ⟨.logical operator, span, [left, right]⟩
  | right {span : Span} {left right : Script.Node} (h : Operand operator operand right) :
      Operand operator operand ⟨.logical operator, span, [left, right]⟩
  | self (hparen : ∀ span inner, operand ≠ ⟨.paren, span, [inner]⟩)
      (hoperator : ∀ span left right, operand ≠ ⟨.logical operator, span, [left, right]⟩) : Operand operator operand operand

theorem operand_of_mem {operator : LogicalOperator} {operand node : Script.Node} (h : operand ∈ operands operator node) :
    Operand operator operand node := by
  fun_induction operands operator node with
  | case1 span inner ih => exact .paren (ih h)
  | case2 found span left right hfound ihl ihr =>
    obtain rfl := beq_iff_eq.1 hfound
    rcases List.mem_append.1 h with h | h
    · exact .left (ihl h)
    · exact .right (ihr h)
  | case3 found span left right hfound =>
    obtain rfl := List.mem_singleton.1 h
    exact .self (by simp) fun _ _ _ heq => hfound (by simp_all)
  | case4 node hparen hlogical =>
    obtain rfl := List.mem_singleton.1 h
    exact .self (fun span inner heq => hparen span inner heq) fun span left right heq => hlogical _ span left right heq

/-- A branch that is never taken, or an alternative of it that is never the reason to take it. -/
def Dead (document : Document) (condition : Script.Node) (earlier : List Script.Node) : Prop :=
  Preempted document condition earlier condition ∨
    ∃ operand, Operand .disjunction operand condition ∧ Preempted document condition earlier operand

theorem parts_getLast? (condition : Script.Node) :
    ((parts condition).map disjunction).getLast? = some (disjunction condition) := by
  unfold parts
  split
  · simp
  · simp

theorem operands_ne_nil (operator : LogicalOperator) (node : Script.Node) : operands operator node ≠ [] := by
  fun_induction operands operator node with
  | case1 span inner ih => exact ih
  | case2 found span left right hfound ihl ihr => simp [ihl]
  | case3 => simp
  | case4 => simp

theorem isDead_parts_iff {condition : Script.Node} {earlier : List Script.Node} :
    isDead document (disjunction condition).length ((parts condition).map disjunction) earlier = true ↔
      (∃ part ∈ parts condition, ∀ conjuncts ∈ disjunction part, Covered document earlier conjuncts) ∨
        ∃ conjuncts ∈ disjunction condition, Covered document earlier conjuncts := by
  rw [isDead_iff (parts_getLast? condition) (by simp [disjunction, operands_ne_nil])]
  simp

/-- A condition that holds makes each of its parts hold. -/
theorem holds_part (hclosed : Closed known) (hv : Valuation document known holds) {condition part : Script.Node}
    (hcondition : known condition) (hpart : part ∈ parts condition) (hholds : holds condition) : known part ∧ holds part := by
  unfold parts at hpart
  split at hpart
  · rcases List.mem_append.1 hpart with hpart | hpart
    · exact ⟨known_operands hclosed hcondition hpart, (holds_iff_forall hclosed hv hcondition).1 hholds part hpart⟩
    · exact List.mem_singleton.1 hpart ▸ ⟨hcondition, hholds⟩
  · exact List.mem_singleton.1 hpart ▸ ⟨hcondition, hholds⟩

/-- What is found to be dead is dead. -/
theorem dead_of_isDead {condition : Script.Node} {earlier : List Script.Node}
    (h : isDead document (disjunction condition).length ((parts condition).map disjunction) earlier = true) :
    Dead document condition earlier := by
  have hclosed := closed_known condition earlier
  have hcondition : Known condition earlier condition := ⟨condition, List.mem_cons_self, .whole⟩
  have hearlier : ∀ other ∈ earlier, Known condition earlier other :=
    fun other hother => ⟨other, List.mem_cons_of_mem _ hother, .whole⟩
  rcases isDead_parts_iff.1 h with ⟨part, hpart, hall⟩ | ⟨conjuncts, hconjuncts, hcovered⟩
  · refine .inl fun holds hv hholds => ?_
    obtain ⟨hknown, hpartHolds⟩ := holds_part hclosed hv hcondition hpart hholds
    obtain ⟨operand, hoperand, hoperandHolds⟩ := (holds_iff_exists hclosed hv hknown).1 hpartHolds
    have hoperandKnown := known_operands hclosed hknown hoperand
    exact holds_of_covered hclosed hv (hall _ (List.mem_map_of_mem hoperand)) hearlier
      (fun _ hmem => known_operands hclosed hoperandKnown hmem) ((holds_iff_forall hclosed hv hoperandKnown).1 hoperandHolds)
  · obtain ⟨operand, hoperand, rfl⟩ := List.mem_map.1 hconjuncts
    have hoperandKnown := known_operands hclosed hcondition hoperand
    refine .inr ⟨operand, operand_of_mem hoperand, fun holds hv hholds => ?_⟩
    exact holds_of_covered hclosed hv hcovered hearlier (fun _ hmem => known_operands hclosed hoperandKnown hmem)
      ((holds_iff_forall hclosed hv hoperandKnown).1 hholds)

/-- The text of the condition `a`, and then of the condition `a||b`. -/
def eitherDocument : Document := ⟨"a a||b".toList, #[], #[]⟩

/-- The second of the two conditions. -/
def eitherCondition : Script.Node :=
  ⟨.logical .disjunction, ⟨2, 6⟩, [⟨.identifier "a", ⟨2, 3⟩, []⟩, ⟨.identifier "b", ⟨5, 6⟩, []⟩]⟩

/-- Besides the second condition only names are known. -/
theorem known_either {node : Script.Node} (h : Known eitherCondition [⟨.identifier "a", ⟨0, 1⟩, []⟩] node) :
    node = eitherCondition ∨ node.children = [] := by
  obtain ⟨root, hroot, hinside⟩ := h
  induction hinside with
  | whole =>
    simp only [List.mem_cons, List.not_mem_nil, or_false] at hroot
    exact hroot.imp id fun hroot => by rw [hroot]
  | part _ hpart ih =>
    rcases ih with rfl | hnone
    · simp only [eitherCondition, List.mem_cons, List.not_mem_nil, or_false] at hpart
      rcases hpart with rfl | rfl
      · exact .inr rfl
      · exact .inr rfl
    · simp [hnone] at hpart

/-- Of `a||b` after `a` an alternative is dead, and still the branch can be taken: let all that has `b` in its text be true. -/
example : Dead eitherDocument eitherCondition [⟨.identifier "a", ⟨0, 1⟩, []⟩] ∧
    ¬ Preempted eitherDocument eitherCondition [⟨.identifier "a", ⟨0, 1⟩, []⟩] eitherCondition := by
  refine ⟨dead_of_isDead (by decide), fun hpreempted => ?_⟩
  have hv : Valuation eitherDocument (Known eitherCondition [⟨.identifier "a", ⟨0, 1⟩, []⟩])
      fun node => 'b' ∈ normalize (eitherDocument.text node.span) := by
    refine ⟨fun span inner h => ?_, fun span left right h => ?_, fun span left right h => ?_, fun x y _ _ h => by rw [h.2]⟩
    · rcases known_either h with h | h <;> cases h
    · rcases known_either h with h | h <;> cases h
    · rcases known_either h with h | h <;> cases h
      decide
  obtain ⟨other, hother, hholds⟩ := hpreempted _ hv (by decide)
  obtain rfl := List.mem_singleton.1 hother
  revert hholds
  decide

/-! ## Completeness for repeated conditions -/

/-- An expression that is neither in parentheses nor a use of `&&` or `||`. -/
structure Atomic (node : Script.Node) : Prop where
  paren : ∀ span inner, node ≠ ⟨.paren, span, [inner]⟩
  logical : ∀ operator span left right, node = ⟨.logical operator, span, [left, right]⟩ → operator = .fallback

/-- Expressions of one structure of `&&` and `||`, up to parentheses and the order of operands, over atoms that are alike. -/
inductive Mirrors (document : Document) : Script.Node → Script.Node → Prop where
  | atom {a b : Script.Node} (ha : Atomic a) (hb : Atomic b) (h : Alike document a b) : Mirrors document a b
  | parenLeft {span : Span} {inner b : Script.Node} (h : Mirrors document inner b) :
      Mirrors document ⟨.paren, span, [inner]⟩ b
  | parenRight {span : Span} {a inner : Script.Node} (h : Mirrors document a inner) :
      Mirrors document a ⟨.paren, span, [inner]⟩
  | straight {operator : LogicalOperator} {span span' : Span} {left right left' right' : Script.Node}
      (hoperator : operator ≠ .fallback) (hleft : Mirrors document left left') (hright : Mirrors document right right') :
      Mirrors document ⟨.logical operator, span, [left, right]⟩ ⟨.logical operator, span', [left', right']⟩
  | swapped {operator : LogicalOperator} {span span' : Span} {left right left' right' : Script.Node}
      (hoperator : operator ≠ .fallback) (hleft : Mirrors document left right') (hright : Mirrors document right left') :
      Mirrors document ⟨.logical operator, span, [left, right]⟩ ⟨.logical operator, span', [left', right']⟩

theorem Mirrors.symm {a b : Script.Node} (h : Mirrors document a b) : Mirrors document b a := by
  induction h with
  | atom ha hb h => exact .atom hb ha ⟨h.1.symm, h.2.symm⟩
  | parenLeft _ ih => exact .parenRight ih
  | parenRight _ ih => exact .parenLeft ih
  | straight hoperator _ _ ihl ihr => exact .straight hoperator ihl ihr
  | swapped hoperator _ _ ihl ihr => exact .swapped hoperator ihr ihl

theorem operands_atomic {operator : LogicalOperator} (hoperator : operator ≠ .fallback) {node : Script.Node} (h : Atomic node) :
    operands operator node = [node] := by
  fun_cases operands operator node with
  | case1 span inner => exact absurd rfl (h.paren span inner)
  | case2 found span left right hfound =>
    exact absurd ((beq_iff_eq.1 hfound).symm.trans (h.logical found span left right rfl)) hoperator
  | case3 => rfl
  | case4 => rfl

/-- Every operand of an expression has its counterpart among those of an expression that mirrors it. -/
theorem Mirrors.operands {operator : LogicalOperator} (hoperator : operator ≠ .fallback) {a b : Script.Node}
    (h : Mirrors document a b) : ∀ x ∈ operands operator a, ∃ y ∈ DeadBranch.operands operator b, Mirrors document x y := by
  induction h with
  | @atom a b ha hb h =>
    rw [operands_atomic hoperator ha, operands_atomic hoperator hb]
    simpa using Mirrors.atom ha hb h
  | parenLeft _ ih => rwa [DeadBranch.operands]
  | parenRight _ ih => rwa [DeadBranch.operands]
  | @straight found span span' left right left' right' hfound hleft hright ihl ihr =>
    by_cases heq : found = operator
    · subst heq
      simp only [DeadBranch.operands, BEq.rfl, if_true, List.mem_append]
      rintro x (hx | hx)
      · obtain ⟨y, hy, hxy⟩ := ihl x hx
        exact ⟨y, .inl hy, hxy⟩
      · obtain ⟨y, hy, hxy⟩ := ihr x hx
        exact ⟨y, .inr hy, hxy⟩
    · simpa [DeadBranch.operands, heq] using Mirrors.straight hfound hleft hright
  | @swapped found span span' left right left' right' hfound hleft hright ihl ihr =>
    by_cases heq : found = operator
    · subst heq
      simp only [DeadBranch.operands, BEq.rfl, if_true, List.mem_append]
      rintro x (hx | hx)
      · obtain ⟨y, hy, hxy⟩ := ihl x hx
        exact ⟨y, .inr hy, hxy⟩
      · obtain ⟨y, hy, hxy⟩ := ihr x hx
        exact ⟨y, .inl hy, hxy⟩
    · simpa [DeadBranch.operands, heq] using Mirrors.swapped hfound hleft hright

/-- The second expression is compared without its parentheses. -/
theorem equivalent_congr {a b c : Script.Node} (h : b.unparenthesized = c.unparenthesized) :
    equivalent document a b = equivalent document a c := by
  fun_induction equivalent document a b with
  | case1 other span inner ih => rw [equivalent, ih h]
  | case2 operator span left right other operator' span' left' right' hother hoperator =>
    simp only [equivalent, ← h, hother, hoperator, if_true]
  | case3 operator span left right other operator' span' left' right' hother hoperator =>
    simp only [equivalent, ← h, hother, hoperator]
    rfl
  | case4 operator span left right other hother => simp only [equivalent, ← h]
  | case5 node other hparen hlogical => simp only [equivalent, ← h]

theorem unparenthesized_atomic {node : Script.Node} (h : Atomic node) : node.unparenthesized = node := by
  fun_cases Node.unparenthesized node with
  | case1 span kind inner children => exact absurd rfl (h.paren span ⟨kind, inner, children⟩)
  | case2 => rfl

theorem equivalent_atomic {a b : Script.Node} (ha : Atomic a) (hb : Atomic b) :
    equivalent document a b = sameText document a b := by
  fun_cases equivalent document a b with
  | case1 span inner => exact absurd rfl (ha.paren span inner)
  | case2 operator span left right _ operator' span' left' right' hother hoperator =>
    have hlogic : operator ≠ .fallback := by simpa using (Bool.and_eq_true_iff.1 hoperator).2
    exact absurd (ha.logical operator span left right rfl) hlogic
  | case3 operator span left right _ operator' span' left' right' hother => rw [← hother, unparenthesized_atomic hb]
  | case4 => rw [unparenthesized_atomic hb]
  | case5 => rw [unparenthesized_atomic hb]

/-- Expressions that mirror each other are found to be the same. -/
theorem Mirrors.equivalent {a b : Script.Node} (h : Mirrors document a b) : equivalent document a b = true := by
  induction h with
  | @atom a b ha hb h =>
    rw [equivalent_atomic ha hb]
    exact sameText_iff.2 h
  | parenLeft _ ih => rwa [DeadBranch.equivalent]
  | @parenRight span a inner _ ih =>
    have hinner : Node.unparenthesized ⟨.paren, span, [inner]⟩ = inner.unparenthesized := by
      cases inner
      rw [Node.unparenthesized]
    rwa [equivalent_congr hinner]
  | straight hoperator _ _ ihl ihr => simp [DeadBranch.equivalent, Node.unparenthesized, hoperator, ihl, ihr]
  | swapped hoperator _ _ ihl ihr => simp [DeadBranch.equivalent, Node.unparenthesized, hoperator, ihl, ihr]

/-- A condition that mirrors an earlier one is found to be dead. -/
theorem isDead_of_mirrors {condition other : Script.Node} {earlier : List Script.Node} (hother : other ∈ earlier)
    (h : Mirrors document condition other) :
    isDead document (disjunction condition).length ((parts condition).map disjunction) earlier = true := by
  have hall : ∀ conjuncts ∈ disjunction condition, Covered document earlier conjuncts := by
    intro conjuncts hconjuncts
    obtain ⟨operand, hoperand, rfl⟩ := List.mem_map.1 hconjuncts
    obtain ⟨counterpart, hcounterpart, hmirrors⟩ := h.operands (by decide) operand hoperand
    refine ⟨other, hother, _, List.mem_map_of_mem hcounterpart, List.all_eq_true.2 fun x hx => List.any_eq_true.2 ?_⟩
    obtain ⟨y, hy, hxy⟩ := hmirrors.symm.operands (by decide) x hx
    exact ⟨y, hy, hxy.equivalent⟩
  refine isDead_parts_iff.2 (.inl ⟨condition, ?_, hall⟩)
  unfold parts
  split
  · simp
  · simp

/-! ## Branches that are reported -/

/-- The condition of an `else-if` branch. -/
def branchCondition? (file : File) (id : NodeId) : Option Script.Node :=
  (file.document.element? id).bind fun element => (element.directive? "else-if").bind (·.expression?)

/-- The conditions of the branches before a branch in its chain, nearest first. -/
def earlierConditions (file : File) (id : NodeId) : List Script.Node :=
  (file.document.chainBefore id).filterMap fun branch => (file.document.element? branch).bind condition?

/-- A branch that is found to be dead, with its condition. -/
def deadBranch? (file : File) (id : NodeId) : Option (NodeId × Script.Node) :=
  (branchCondition? file id).bind fun condition =>
    if isDead file.document (disjunction condition).length ((parts condition).map disjunction) (earlierConditions file id) then
      some (id, condition)
    else none

/-- The report of a branch. -/
def branchReport (branch : NodeId × Script.Node) : Report :=
  info.report "unexpected" branch.2.span

theorem deadBranch?_eq_some_iff {file : File} {id : NodeId} {branch : NodeId × Script.Node} :
    deadBranch? file id = some branch ↔ branch.1 = id ∧ branchCondition? file id = some branch.2 ∧
      isDead file.document (disjunction branch.2).length ((parts branch.2).map disjunction)
      (earlierConditions file id) = true := by
  obtain ⟨number, condition⟩ := branch
  simp only [deadBranch?, Option.bind_eq_some_iff, Option.ite_none_right_eq_some, Option.some.injEq, Prod.mk.injEq]
  constructor
  · rintro ⟨_, hcondition, hdead, rfl, rfl⟩
    exact ⟨rfl, hcondition, hdead⟩
  · rintro ⟨rfl, hcondition, hdead⟩
    exact ⟨condition, hcondition, hdead, rfl, rfl⟩

theorem check_eq {file : File} {id : NodeId} {element : Element} (h : file.document.element? id = some element) :
    check file id element = ((deadBranch? file id).map branchReport).toList := by
  have hcondition : branchCondition? file id = (element.directive? "else-if").bind (·.expression?) := by
    rw [branchCondition?, h, Option.bind_some]
  rw [deadBranch?, hcondition]
  unfold check
  cases (element.directive? "else-if").bind (·.expression?) with
  | none => rfl
  | some condition =>
    rw [Option.bind_some]
    change (if isDead file.document _ _ (earlierConditions file id) then [branchReport (id, condition)] else []) = _
    split
    · rfl
    · rfl

/-- At a node the rule reports the branch that is dead, if there is one. -/
theorem flatten_checkedAt (file : File) (id : NodeId) :
    (checkedAt "else-if" check file id).flatten = ((deadBranch? file id).map branchReport).toList := by
  unfold checkedAt
  cases helement : file.document.element? id with
  | none => simp [deadBranch?, branchCondition?, helement]
  | some element =>
    by_cases hhas : element.hasDirective "else-if" = true
    · simp [hhas, check_eq helement]
    · have hnone : element.directive? "else-if" = none := by simpa [Element.hasDirective] using hhas
      simp [hhas, deadBranch?, branchCondition?, helement, hnone]

theorem flatten_flatMap_checkedAt (file : File) (ids : List NodeId) :
    (ids.flatMap (checkedAt "else-if" check file)).flatten = (ids.filterMap (deadBranch? file)).map branchReport := by
  induction ids with
  | nil => rfl
  | cons id ids ih =>
    rw [List.flatMap_cons, List.flatten_append, ih, flatten_checkedAt, List.filterMap_cons]
    cases deadBranch? file id with
    | none => rfl
    | some branch => rfl

/-- The rule is sound, and finds every condition that repeats an earlier one. Each of its reports is about a branch of its own.
A branch that is reported cannot be taken, or one of its alternatives cannot be the reason to take it, whatever the truth
values of the expressions in its chain are. A branch of the template whose condition mirrors an earlier one of its chain is
reported. -/
theorem lintFile_deadBranches {options : List Json}
    {checks : Checks} (h : rule.checks? patterns options = some checks) (level : Level)
    (source : List Char) :
    ∃ reported : List (NodeId × Script.Node),
      ((lintFile [⟨info, level, checks⟩] (.ofSource languages source)).diagnostics.Perm
        (reported.map fun branch => ⟨info.name, level, info.report "unexpected" branch.2.span⟩)) ∧
      (reported.map (·.1)).Nodup ∧
      (∀ branch ∈ reported, branchCondition? (.ofSource languages source) branch.1 = some branch.2 ∧
        Dead (File.ofSource languages source).document branch.2 (earlierConditions (.ofSource languages source) branch.1)) ∧
      ∀ id condition, (File.ofSource languages source).InTemplate id →
        branchCondition? (.ofSource languages source) id = some condition →
        (∃ other ∈ earlierConditions (.ofSource languages source) id,
          Mirrors (File.ofSource languages source).document condition other) →
        (id, condition) ∈ reported := by
  obtain ⟨hnodup, hmem⟩ := File.entered_spec languages source
  have hchecks : (⟨info, level, checks⟩ : ActiveRule).checks = { watches := [.elementsWith "else-if" check] } :=
    (Option.some.inj h).symm
  have hfound (branch : NodeId × Script.Node) : branch ∈ (File.ofSource languages source).entered.filterMap
    (deadBranch? (.ofSource languages source)) ↔
      branch.1 ∈ (File.ofSource languages source).entered ∧ deadBranch? (.ofSource languages source) branch.1 = some branch := by
    rw [List.mem_filterMap]
    constructor
    · rintro ⟨id, hid, hbranch⟩
      obtain rfl := (deadBranch?_eq_some_iff.1 hbranch).1
      exact ⟨hid, hbranch⟩
    · rintro ⟨hid, hbranch⟩
      exact ⟨branch.1, hid, hbranch⟩
  refine ⟨(File.ofSource languages source).entered.filterMap (deadBranch? (.ofSource languages source)), ?_,
    ?_, fun branch hbranch => ?_, ?_⟩
  · have hdiagnostics := diagnostics_elementsWith hchecks (.ofSource languages source)
    rw [flatten_flatMap_checkedAt, List.map_map] at hdiagnostics
    rw [lintFile, hdiagnostics]
    exact List.mergeSort_perm _ _
  · rw [List.map_filterMap]
    refine hnodup.filterMap fun first second number hfirst hsecond => ?_
    obtain ⟨branch, hbranch, rfl⟩ := Option.map_eq_some_iff.1 hfirst
    obtain ⟨other, hother, heq⟩ := Option.map_eq_some_iff.1 hsecond
    rw [← (deadBranch?_eq_some_iff.1 hbranch).1, ← (deadBranch?_eq_some_iff.1 hother).1, heq]
  · obtain ⟨-, hcondition, hdead⟩ := deadBranch?_eq_some_iff.1 ((hfound branch).1 hbranch).2
    exact ⟨hcondition, dead_of_isDead hdead⟩
  · rintro id condition htemplate hcondition ⟨other, hother, hmirrors⟩
    refine (hfound _).2 ⟨(hmem id).2 ⟨htemplate, ?_⟩, ?_⟩
    · obtain ⟨element, helement, -⟩ := Option.bind_eq_some_iff.1 hcondition
      obtain ⟨node, hnode, -⟩ := Document.element?_eq_some_iff.1 helement
      exact (Array.getElem?_eq_some_iff.1 hnode).1
    · exact deadBranch?_eq_some_iff.2 ⟨rfl, hcondition, isDead_of_mirrors hother hmirrors⟩

/-- A chain with a branch that repeats the first one, and one of which an alternative does. -/
def repeatedSource : List Char :=
  "<template><p v-if=\"a && b\"/><p v-else-if=\"(b)&&a\"/><p v-else-if=\"c || a && b\"/></template>".toList

theorem lintFile_deadBranches_repeated : ∃ reported : List (NodeId × Script.Node), reported.length = 2 ∧
    (reported.map (·.1)).Nodup ∧ ∀ branch ∈ reported,
      branchCondition? (.ofSource Script.Dialect.language repeatedSource) branch.1 = some branch.2 ∧
      Dead (File.ofSource Script.Dialect.language repeatedSource).document branch.2
        (earlierConditions (.ofSource Script.Dialect.language repeatedSource) branch.1) := by
  have hchecks : rule.checks? Regex.engine [] = some { watches := [.elementsWith "else-if" check] } := rfl
  obtain ⟨reported, hperm, hnodup, hdead, -⟩ := lintFile_deadBranches hchecks .error repeatedSource
  refine ⟨reported, ?_, hnodup, hdead⟩
  have hlength := hperm.length_eq
  rw [lintFile, List.length_mergeSort, List.length_map] at hlength
  rw [← hlength]
  decide +kernel

end ComponentLint.Rules.DeadBranch
