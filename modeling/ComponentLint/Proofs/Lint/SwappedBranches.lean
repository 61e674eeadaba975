import ComponentLint.Proofs.Fix.Splice
import ComponentLint.Proofs.Lint.ScriptRules
import ComponentLint.Proofs.Lint.Walk
import ComponentLint.Proofs.Markup.Fragments
import ComponentLint.Proofs.Markup.Nesting
import ComponentLint.Proofs.Markup.Siblings
import ComponentLint.Proofs.Script.Tokens

/-!
# Swapped branches

A negated condition stands in the start tag of its branch, before the body, and the body of the alternative comes behind the whole
branch. So the three edits of a suggestion are apart, and there is one whenever both bodies end and the negation is found. Made
alone, it lets the two bodies change places, and puts the positive form into the value (`lintFile_swaps`), unless the operator is
found too early: a comment in front of it may hold the same word (`not_inverts_operatorInComment`).
-/

namespace ComponentLint

open Text Markup

variable {languages : Script.Languages} {patterns : PatternEngine}

/-! ## Texts that change places -/

/-- A text in which a span makes way for another text, and the texts of two spans behind it change places. All else is kept, in
its order. -/
def Exchanged (source : List Char) (place : Span) (written : List Char) (first second : Span) (output : List Char) : Prop :=
  ∃ front old gap body between other rest,
    source = front ++ (old ++ (gap ++ (body ++ (between ++ (other ++ rest))))) ∧
    output = front ++ (written ++ (gap ++ (other ++ (between ++ (body ++ rest))))) ∧
    place = ⟨byteLength front, byteLength (front ++ old)⟩ ∧
    first = ⟨byteLength (front ++ (old ++ gap)), byteLength (front ++ (old ++ (gap ++ body)))⟩ ∧
    second = ⟨byteLength (front ++ (old ++ (gap ++ (body ++ between)))),
      byteLength (front ++ (old ++ (gap ++ (body ++ (between ++ other)))))⟩

/-- Three edits of which two write the texts of each other's spans let these texts change places. -/
theorem exists_exchanged {source : List Char} {place first second : Span} (hplace : place.InText source)
    (hfirst : first.InText source) (hsecond : second.InText source) (hbefore : place.stop ≤ first.start)
    (hapart : first.stop ≤ second.start) (written : List Char) (message : Option String) :
    ∃ output, Exchanged source place written first second output ∧
      Fix.applyAll source [⟨[⟨place, String.ofList written⟩, ⟨first, String.ofList (slice source second)⟩,
        ⟨second, String.ofList (slice source first)⟩], message⟩] = ⟨output, 1, 0⟩ := by
  have hsound : Fix.Sound source ⟨[⟨place, String.ofList written⟩, ⟨first, String.ofList (slice source second)⟩,
      ⟨second, String.ofList (slice source first)⟩], message⟩ := by
    have hordered := hfirst.ordered
    refine ⟨fun edit hedit => ?_, by simp; omega⟩
    simp only [List.mem_cons, List.not_mem_nil, or_false] at hedit
    rcases hedit with rfl | rfl | rfl
    · exact ⟨hplace.ordered, hplace.start, hplace.stop⟩
    · exact ⟨hfirst.ordered, hfirst.start, hfirst.stop⟩
    · exact ⟨hsecond.ordered, hsecond.start, hsecond.stop⟩
  obtain ⟨output, happlied, hspliced⟩ := Fix.exists_applyAll_alone hsound
  refine ⟨output, ?_, happlied⟩
  cases hspliced with
  | edit front old hspan hrest =>
  cases hrest with
  | edit gap body hspan' hrest =>
  cases hrest with
  | @edit _ between other rest _ _ _ hspan'' hrest =>
  cases hrest with
  | done =>
  dsimp only at hspan hspan' hspan''
  have hfirst' : first = ⟨byteLength (front ++ (old ++ gap)), byteLength (front ++ (old ++ gap)) + byteLength body⟩ := by
    simp [hspan', hspan, Nat.add_assoc]
  have hsecond' : second = ⟨byteLength (front ++ (old ++ (gap ++ (body ++ between)))),
      byteLength (front ++ (old ++ (gap ++ (body ++ between)))) + byteLength other⟩ := by
    simp [hspan'', hfirst', Nat.add_assoc]
  have hbody : slice (front ++ (old ++ (gap ++ (body ++ (between ++ (other ++ rest)))))) first = body := by
    have hslice := slice_append (front ++ (old ++ gap)) body (between ++ (other ++ rest))
    rw [hfirst']
    simpa only [List.append_assoc] using hslice
  have hother : slice (front ++ (old ++ (gap ++ (body ++ (between ++ (other ++ rest)))))) second = other := by
    have hslice := slice_append (front ++ (old ++ (gap ++ (body ++ between)))) other rest
    rw [hsecond']
    simpa only [List.append_assoc] using hslice
  refine ⟨front, old, gap, body, between, other, rest, rfl, ?_, by simp [hspan], by simp [hfirst', Nat.add_assoc],
    by simp [hsecond', Nat.add_assoc]⟩
  rw [hbody, hother]
  simp

namespace Rules.NegatedCondition

/-! ## Negations -/

/-- An operator between the operands of an inequality, with what fills the text around it. -/
structure Parted (text operator before after : List Char) : Prop where
  parts : text = before ++ (operator ++ after)
  before : Script.Filler before
  after : Script.Filler after

/-- The operators of inequality, each with the one that says the opposite. -/
def opposites : List (String × String) :=
  [("!=", "=="), ("!==", "===")]

/-- Where the negation of a condition stands, and the positive form that belongs there. -/
inductive Negation (file : File) : Script.Node → Span → List Char → Prop where
  /-- What is denied is written alone, without the parentheses around it. -/
  | denied {span : Span} {operand : Script.Node} :
      Negation file ⟨.unary "!", span, [operand]⟩ span (file.text operand.unparenthesized.span)
  /-- Of an inequality, its operator. -/
  | unequal {operator positive : String} {span : Span} {left right : Script.Node} {before after : List Char}
      (hopposite : (operator, positive) ∈ opposites)
      (hparted : Parted (file.text ⟨left.span.stop, right.span.start⟩) operator.toList before after) :
      Negation file ⟨.binary operator, span, [left, right]⟩
        ⟨left.span.stop + byteLength before, left.span.stop + byteLength before + byteLength operator.toList⟩ positive.toList

/-- A comment in front of the operator of an inequality holds the same word. -/
inductive Hidden (file : File) : Script.Node → Prop where
  | comment {operator : String} {span : Span} {left right : Script.Node} {before after : List Char}
      (hparted : Parted (file.text ⟨left.span.stop, right.span.start⟩) operator.toList before after)
      (hoccurs : occurs operator.toList before = true) : Hidden file ⟨.binary operator, span, [left, right]⟩

/-- The operator of a condition with two operands stands between them, with nothing but fillers around it. -/
def OperatorStands (file : File) (condition : Script.Node) : Prop :=
  ∀ operator span left right, condition = ⟨.binary operator, span, [left, right]⟩ →
    ∃ before after, Parted (file.text ⟨left.span.stop, right.span.start⟩) operator.toList before after

/-- The negation of a condition is found in its text: a denial always, an inequality if its word occurs between the operands. -/
inductive Found (file : File) : Script.Node → Prop where
  | denied {operator : String} {span : Span} {operand : Script.Node} : Found file ⟨.unary operator, span, [operand]⟩
  | unequal {operator positive : String} {span : Span} {left right : Script.Node} (hopposite : (operator, positive) ∈ opposites)
      (hoccurs : occurs operator.toList (file.text ⟨left.span.stop, right.span.start⟩) = true) :
      Found file ⟨.binary operator, span, [left, right]⟩

/-! ## What is turned around -/

/-- The word of an inequality, and that of the equality that it denies. -/
def inequality (operator : String) : List Char × List Char :=
  if operator == "!==" then ("!==".toList, "===".toList) else ("!=".toList, "==".toList)

/-- The span that is edited to turn a condition around, and what is written there: the word of an inequality where it occurs
first between the operands. -/
inductive Inverts (file : File) : Script.Node → Span → List Char → Prop where
  | denied {operator : String} {span : Span} {operand : Script.Node} :
      Inverts file ⟨.unary operator, span, [operand]⟩ span (file.text operand.unparenthesized.span)
  | unequal {operator : String} {span : Span} {left right : Script.Node} {before after : List Char}
      (hcut : cutAt? (inequality operator).1 (file.text ⟨left.span.stop, right.span.start⟩) = some (before, after)) :
      Inverts file ⟨.binary operator, span, [left, right]⟩
        ⟨left.span.stop + byteLength before, left.span.stop + byteLength before + byteLength (inequality operator).1⟩
        (inequality operator).2

theorem inequality_ne (operator : String) : (inequality operator).1 ≠ [] := by
  rw [inequality]
  split <;> decide

variable {file : File}

section Negations

variable {condition : Script.Node} {place : Span} {written : List Char}

theorem invert_inequality (file : File) (operator : String) (span : Span) (left right : Script.Node) (draft : FixDraft) :
    invert file ⟨.binary operator, span, [left, right]⟩ draft =
      (cutAt? (inequality operator).1 (file.text ⟨left.span.stop, right.span.start⟩)).map fun cut =>
        draft.replace ⟨left.span.stop + byteLength cut.1,
          left.span.stop + byteLength cut.1 + byteLength (inequality operator).1⟩ (String.ofList (inequality operator).2) := by
  by_cases hstrict : operator = "!=="
  · simp [invert, find?, inequality, hstrict, Option.map_map, Function.comp_def]
  · simp [invert, find?, inequality, hstrict, Option.map_map, Function.comp_def]

/-- A condition is turned around where it is inverted. -/
theorem invert_eq_some_iff {draft drafted : FixDraft} : invert file condition draft = some drafted ↔
    ∃ place written, Inverts file condition place written ∧ drafted = draft.replace place (String.ofList written) := by
  constructor
  · intro h
    have hturned := h
    unfold invert at hturned
    split at hturned
    · exact ⟨_, _, .denied, (Option.some.inj h).symm⟩
    · rw [invert_inequality] at h
      obtain ⟨⟨before, after⟩, hcut, rfl⟩ := Option.map_eq_some_iff.1 h
      exact ⟨_, _, .unequal hcut, rfl⟩
    · cases hturned
  · rintro ⟨place, written, hinverts, rfl⟩
    cases hinverts with
    | denied => rfl
    | unequal hcut => rw [invert_inequality, hcut, Option.map_some]

/-- The edit of a condition stands where the condition does. -/
theorem Inverts.inside {first last : Nat} (h : Inverts file condition place written)
    (hcondition : condition.Between first last) (htext : condition.span.InText file.document.source) :
    place.InText file.document.source ∧ first ≤ place.start ∧ place.stop ≤ last := by
  cases h with
  | denied =>
    obtain ⟨hfirst, -, hlast⟩ := hcondition.span
    exact ⟨htext, hfirst, hlast⟩
  | @unequal operator span left right before after hcut =>
    have hfound : find? file ⟨left.span.stop, right.span.start⟩ (String.ofList (inequality operator).1) =
        some ⟨left.span.stop + byteLength before,
          left.span.stop + byteLength before + byteLength (inequality operator).1⟩ := by
      rw [find?, String.toList_ofList, hcut, Option.map_some]
    have hslice : slice file.document.source ⟨left.span.stop, right.span.start⟩ =
        before ++ ((inequality operator).1 ++ after) := eq_of_cutAt? hcut
    have hsome : slice file.document.source ⟨left.span.stop, right.span.start⟩ ≠ [] := by
      simp [hslice, inequality_ne]
    have hlength := (inText_of_slice hsome).byteLength_slice
    rw [hslice, byteLength_append, byteLength_append] at hlength
    dsimp only at hlength
    obtain ⟨hleft, hleft', -⟩ := (hcondition.parts left (by simp)).span
    obtain ⟨-, hright, hright'⟩ := (hcondition.parts right (by simp)).span
    refine ⟨of_find? (by rw [String.toList_ofList]; exact inequality_ne operator) hfound, ?_, ?_⟩
    · dsimp only
      omega
    · dsimp only
      omega

/-! ## Where the negation stands -/

theorem inequality_eq {operator positive : String} (h : (operator, positive) ∈ opposites) :
    inequality operator = (operator.toList, positive.toList) := by
  simp only [opposites, List.mem_cons, Prod.mk.injEq, List.not_mem_nil, or_false] at h
  rcases h with ⟨rfl, rfl⟩ | ⟨rfl, rfl⟩ <;> rfl

/-- An operator of inequality starts with a character that comes once in it and that no filler starts with. -/
theorem exists_cons_of_opposites {operator positive : String} (h : (operator, positive) ∈ opposites) :
    ∃ rest, operator.toList = '!' :: rest ∧ '!' ∉ rest := by
  simp only [opposites, List.mem_cons, Prod.mk.injEq, List.not_mem_nil, or_false] at h
  rcases h with ⟨rfl, rfl⟩ | ⟨rfl, rfl⟩
  · exact ⟨['='], rfl, by decide⟩
  · exact ⟨['=', '='], rfl, by decide⟩

theorem exists_opposite {operator : String} {span : Span} {operands : List Script.Node}
    (h : isNegated ⟨.binary operator, span, operands⟩ = true) : ∃ positive, (operator, positive) ∈ opposites := by
  have hoperator : operator = "!=" ∨ operator = "!==" := by simpa [isNegated] using h
  rcases hoperator with rfl | rfl
  · exact ⟨"==", by decide⟩
  · exact ⟨"===", by decide⟩

/-- The negation of a condition is found exactly if there is something to edit. -/
theorem found_iff (hnegated : isNegated condition = true) :
    Found file condition ↔ ∃ place written, Inverts file condition place written := by
  constructor
  · intro hfound
    cases hfound with
    | denied => exact ⟨_, _, .denied⟩
    | unequal hopposite hoccurs =>
      obtain ⟨⟨before, after⟩, hcut⟩ := Option.isSome_iff_exists.1 hoccurs
      exact ⟨_, _, .unequal (by rw [inequality_eq hopposite]; exact hcut)⟩
  · rintro ⟨place, written, hinverts⟩
    cases hinverts with
    | denied => exact .denied
    | unequal hcut =>
      obtain ⟨positive, hopposite⟩ := exists_opposite hnegated
      rw [inequality_eq hopposite] at hcut
      exact .unequal hopposite (Option.isSome_iff_exists.2 ⟨_, hcut⟩)

/-- A text is parted around an operator of inequality in one way. -/
theorem Parted.unique {text before after before' after' : List Char} {operator positive : String}
    (hopposite : (operator, positive) ∈ opposites) (h : Parted text operator.toList before after)
    (h' : Parted text operator.toList before' after') : before = before' ∧ after = after' := by
  obtain ⟨rest, hword, -⟩ := exists_cons_of_opposites hopposite
  have heq := h.parts.symm.trans h'.parts
  rw [hword] at heq
  obtain rfl := h.before.unique h'.before (by decide) heq
  exact ⟨rfl, List.append_cancel_left (List.append_cancel_left heq)⟩

/-- The operator is what occurs first between the operands, unless the same word occurs in front of it. -/
theorem Parted.cutAt? {text before after : List Char} {operator positive : String} (hopposite : (operator, positive) ∈ opposites)
    (h : Parted text operator.toList before after) :
    cutAt? operator.toList text = some (before, after) ↔ occurs operator.toList before = false := by
  obtain ⟨rest, hword, hrest⟩ := exists_cons_of_opposites hopposite
  rw [h.parts, hword]
  exact cutAt?_mark hrest before after

section Operators

variable {operator positive : String} {span : Span} {left right : Script.Node} {before after : List Char}
  (hopposite : (operator, positive) ∈ opposites)
  (hparted : Parted (file.text ⟨left.span.stop, right.span.start⟩) operator.toList before after)
include hopposite hparted

/-- The negation of an inequality stands where its operator does. -/
theorem Negation.unique (h : Negation file ⟨.binary operator, span, [left, right]⟩ place written) :
    place = ⟨left.span.stop + byteLength before, left.span.stop + byteLength before + byteLength operator.toList⟩ ∧
      written = positive.toList := by
  cases h with
  | unequal hopposite' hparted' =>
    obtain ⟨rfl, rfl⟩ := hparted.unique hopposite hparted'
    exact ⟨rfl, (Prod.mk.inj ((inequality_eq hopposite').symm.trans (inequality_eq hopposite))).2⟩

theorem hidden_iff : Hidden file ⟨.binary operator, span, [left, right]⟩ ↔ occurs operator.toList before = true := by
  refine ⟨fun h => ?_, fun hoccurs => .comment hparted hoccurs⟩
  cases h with
  | comment hparted' hoccurs => rwa [(hparted.unique hopposite hparted').1]

end Operators

/-- What is edited is the negation itself, unless a comment in front of the operator holds the same word. -/
theorem Inverts.negation_iff (h : Inverts file condition place written) (hnegated : isNegated condition = true)
    (hstands : OperatorStands file condition) : Negation file condition place written ↔ ¬ Hidden file condition := by
  cases h with
  | denied =>
    obtain rfl := eq_of_beq hnegated
    exact ⟨fun _ => nofun, fun _ => .denied⟩
  | @unequal operator span left right before after hcut =>
    obtain ⟨positive, hopposite⟩ := exists_opposite hnegated
    obtain ⟨before', after', hparted⟩ := hstands operator span left right rfl
    rw [inequality_eq hopposite] at hcut ⊢
    rw [hidden_iff hopposite hparted, Bool.not_eq_true, ← hparted.cutAt? hopposite]
    constructor
    · intro hnegation
      have hlength : byteLength before = byteLength before' :=
        Nat.add_left_cancel (Span.mk.inj (hnegation.unique hopposite hparted).1).1
      obtain ⟨rfl, hrest⟩ := append_inj_of_byteLength ((eq_of_cutAt? hcut).symm.trans hparted.parts) hlength
      rw [hcut, List.append_cancel_left hrest]
    · intro hcut'
      obtain ⟨rfl, rfl⟩ := Prod.mk.inj (Option.some.inj (hcut.symm.trans hcut'))
      exact .unequal hopposite hparted

end Negations

/-! ## Branches with an alternative -/

/-- What is assumed of the script parser: the conditions of a file lie in the values that they are read from, and start and end
with characters of the text. -/
def ConditionsLie (file : File) : Prop :=
  ∀ id < file.document.size, ∀ element ∈ file.document.element? id, ∀ attr ∈ element.directive? "if", ∀ value ∈ attr.value,
    ∀ expression ∈ attr.expression?, expression.Between value.valueSpan.start value.valueSpan.stop ∧
      expression.unparenthesized.span.InText file.document.source

instance (file : File) : Decidable (ConditionsLie file) :=
  inferInstanceAs (Decidable (∀ id < file.document.size, ∀ element ∈ file.document.element? id, ∀ attr ∈ element.directive? "if",
    ∀ value ∈ attr.value, ∀ expression ∈ attr.expression?, _ ∧ _))

/-- An element of the template with a condition, the value that the condition is read from, and the alternative that follows the
element at once. -/
structure Conditional (file : File) where
  id : NodeId
  branch : Element
  attr : Attribute
  value : AttributeValue
  expression : Script.Node
  other : NodeId
  alternative : Element
  inTemplate : file.InTemplate id
  stands : file.document.element? id = some branch
  directive : branch.directive? "if" = some attr
  hasValue : attr.value = some value
  means : attr.expression? = some expression
  neighbours : file.document.Neighbours id other
  follows : file.document.element? other = some alternative
  isElse : alternative.branch? = some .elseBranch

/-- The condition, without the parentheses around it. -/
def Conditional.condition (found : Conditional file) : Script.Node :=
  found.expression.unparenthesized

theorem body?_eq_some_iff {element : Element} {span : Span} :
    body? element = some span ↔ ∃ tag, element.endTag = some tag ∧ span = ⟨element.startTag.span.stop, tag.start⟩ := by
  simp [body?, eq_comm]

/-- What is reported of an element, if anything: its condition, with what swaps the branches. -/
theorem exists_conditional {source : List Char} {id : NodeId} {element : Element}
    (htemplate : (File.ofSource languages source).InTemplate id)
    (helement : (File.ofSource languages source).document.element? id = some element)
    {report : Report} (hreport : report ∈ check (.ofSource languages source) id element) :
    ∃ found : Conditional (.ofSource languages source), isNegated found.condition = true ∧ report.span = found.condition.span ∧
      report.suggestions.map Suggestion.fix =
        (swapFix? (.ofSource languages source) found.condition found.branch found.alternative).toList := by
  unfold check at hreport
  split at hreport
  · cases hreport
  · next expression hexpression =>
    dsimp only at hreport
    split at hreport
    · next hnegated =>
      split at hreport
      · next alternative halternative =>
        obtain ⟨attr, hdirective, hmeans⟩ := Option.bind_eq_some_iff.1 hexpression
        obtain ⟨value, hvalue⟩ : ∃ value, attr.value = some value := by
          cases hvalue : attr.value with
          | none => simp [Attribute.expression?, Attribute.meaning?, hvalue] at hmeans
          | some value => exact ⟨value, rfl⟩
        obtain ⟨other, hnext, halternative⟩ := Option.bind_eq_some_iff.1 halternative
        obtain ⟨found, hfound, halternative⟩ := Option.bind_eq_some_iff.1 halternative
        obtain ⟨helse, hsame⟩ := Option.ite_none_right_eq_some.1 halternative
        obtain rfl := Option.some.inj hsame
        have hneighbours := ((Document.nextElement?_eq_some_iff (File.shaped_ofSource languages source)).1 hnext).2
        refine ⟨⟨id, element, attr, value, expression, other, found, htemplate, helement, hdirective, hvalue, hmeans,
          hneighbours, hfound, eq_of_beq helse⟩, hnegated, ?_⟩
        rw [List.mem_singleton.1 hreport]
        dsimp only [Conditional.condition]
        cases swapFix? (File.ofSource languages source) expression.unparenthesized element found with
        | none => exact ⟨rfl, rfl⟩
        | some fix => exact ⟨rfl, rfl⟩
      · cases hreport
    · cases hreport

namespace Conditional

variable {source : List Char} (found : Conditional (.ofSource languages source))

theorem lt_size : found.id < (File.ofSource languages source).document.size ∧
    found.other < (File.ofSource languages source).document.size := by
  obtain ⟨node, hnode, -⟩ := Document.element?_eq_some_iff.1 found.stands
  obtain ⟨node', hnode', -⟩ := Document.element?_eq_some_iff.1 found.follows
  exact ⟨(Array.getElem?_eq_some_iff.1 hnode).1, (Array.getElem?_eq_some_iff.1 hnode').1⟩

/-- The value of the condition ends in the start tag of the branch. -/
theorem value_le : found.value.valueSpan.stop ≤ found.branch.startTag.span.stop := by
  obtain ⟨node, hnode, hkind, hfits, -⟩ := exists_fits found.stands
  have hmem : found.attr ∈ found.branch.attributes := List.mem_of_find?_eq_some found.directive
  have hsits := (parse_heads (languages ⟨Component.usesTypes source, false⟩) source).sits found.id node hnode
  simp only [Node.Sits, hkind] at hsits
  have hvalue := hsits.value found.attr hmem found.value found.hasValue
  obtain ⟨-, -, hstop⟩ := hvalue.ordered
  obtain ⟨-, -, hattr⟩ := hfits.attributes.1 found.attr.span (List.mem_map_of_mem hmem)
  have hend := hvalue.stop
  omega

/-- The branch ends before the alternative starts. -/
theorem apart {first second : Span} (hfirst : body? found.branch = some first) (hsecond : body? found.alternative = some second) :
    first.stop ≤ second.start := by
  obtain ⟨tag, htag, rfl⟩ := body?_eq_some_iff.1 hfirst
  obtain ⟨tag', htag', rfl⟩ := body?_eq_some_iff.1 hsecond
  obtain ⟨node, hnode, hkind, hfits, -⟩ := exists_fits found.stands
  obtain ⟨node', hnode', hkind', hfits', -⟩ := exists_fits found.follows
  obtain ⟨parent, hparent, hparent'⟩ := found.neighbours.parent
  have hstanding := parse_standing (languages ⟨Component.usesTypes source, false⟩) source
  have hsame : node.parent = node'.parent := by
    have hfirst := congrArg (fun found => found.bind Node.parent) hnode
    have hsecond := congrArg (fun found => found.bind Node.parent) hnode'
    exact (hfirst.symm.trans hparent).trans (hparent'.symm.trans hsecond)
  have hnext := (hstanding.placed.siblings found.id found.other node node' found.neighbours.precedes hnode hnode' hsame).2
  obtain ⟨-, hlt, hstop⟩ := hfits.endTag tag htag
  obtain ⟨hstart, hlt', -⟩ := hfits'.startTag
  dsimp only
  omega

variable {place first second : Span} {written : List Char}

/-- The edit of the condition stands in its value. -/
theorem inverts_inside (hlie : ConditionsLie (.ofSource languages source))
    (h : Inverts (.ofSource languages source) found.condition place written) :
    place.InText source ∧ found.value.valueSpan.start ≤ place.start ∧ place.stop ≤ found.value.valueSpan.stop := by
  obtain ⟨hbetween, htext⟩ := hlie found.id found.lt_size.1 found.branch found.stands found.attr found.directive found.value
    found.hasValue found.expression found.means
  exact h.inside hbetween.unparenthesized htext

/-- The edits that turn the condition around and swap the bodies are apart from each other, in this order. -/
theorem swapFix?_eq (hlie : ConditionsLie (.ofSource languages source))
    (hinverts : Inverts (.ofSource languages source) found.condition place written) (hfirst : body? found.branch = some first)
    (hsecond : body? found.alternative = some second) :
    place.InText source ∧ first.InText source ∧ second.InText source ∧ place.stop ≤ first.start ∧ first.stop ≤ second.start ∧
      swapFix? (.ofSource languages source) found.condition found.branch found.alternative =
        some ⟨[⟨place, String.ofList written⟩, ⟨first, String.ofList (slice source second)⟩,
          ⟨second, String.ofList (slice source first)⟩], none⟩ := by
  obtain ⟨hplace, -, hvalue⟩ := found.inverts_inside hlie hinverts
  have hbody : first.InText source := of_body? (File.ofSource_written source) found.stands hfirst
  have hother : second.InText source := of_body? (File.ofSource_written source) found.follows hsecond
  have hbefore : place.stop ≤ first.start := by
    have hend := found.value_le
    obtain ⟨tag, -, rfl⟩ := body?_eq_some_iff.1 hfirst
    dsimp only
    omega
  have hapart := found.apart hfirst hsecond
  refine ⟨hplace, hbody, hother, hbefore, hapart, ?_⟩
  have hlast : second.stop ≤ byteLength source := isBoundary_le hother.stop
  have hordered := hplace.ordered
  have hordered' := hbody.ordered
  have hordered'' := hother.ordered
  have hbuild := @FixDraft.build?_foldl_add (File.ofSource languages source).draft rfl rfl [⟨place, String.ofList written⟩,
    ⟨first, String.ofList (slice source second)⟩, ⟨second, String.ofList (slice source first)⟩] (List.cons_ne_nil _ _)
  rw [swapFix?, hfirst, hsecond, Option.bind_eq_bind, Option.bind_some, Option.bind_eq_bind, Option.bind_some,
    invert_eq_some_iff.2 ⟨place, written, hinverts, rfl⟩]
  refine hbuild ?_ ?_
  · simp only [List.mem_cons, List.not_mem_nil, or_false, forall_eq_or_imp, forall_eq]
    have hlength : (File.ofSource languages source).draft.length = byteLength source := rfl
    omega
  · have hfar : place.stop ≤ second.start := by omega
    simp [hbefore, hapart, hfar]

end Conditional

/-! ## Suggestions -/

/-- There is a fix only where both bodies end and there is something to edit. -/
theorem of_swapFix? {condition : Script.Node} {branch alternative : Element} {fix : Fix}
    (h : swapFix? file condition branch alternative = some fix) : ∃ first second place written,
      body? branch = some first ∧ body? alternative = some second ∧ Inverts file condition place written := by
  obtain ⟨first, hfirst, h⟩ := Option.bind_eq_some_iff.1 h
  obtain ⟨second, hsecond, h⟩ := Option.bind_eq_some_iff.1 h
  obtain ⟨drafted, hdrafted, -⟩ := Option.bind_eq_some_iff.1 h
  obtain ⟨place, written, hinverts, -⟩ := invert_eq_some_iff.1 hdrafted
  exact ⟨first, second, place, written, hfirst, hsecond, hinverts⟩

/-- What is reported in a file is reported of an element of the template with an alternative. -/
theorem exists_conditional_of_issued {options : List Json} {checks : Checks} (h : rule.checks? patterns options = some checks)
    {level : Level} {source : List Char} {diagnostic : Diagnostic}
    (hdiagnostic : diagnostic ∈ (lintFile [⟨info, level, checks⟩] (.ofSource languages source)).diagnostics) :
    ∃ found : Conditional (.ofSource languages source), isNegated found.condition = true ∧
      diagnostic.report.span = found.condition.span ∧ diagnostic.report.suggestions.map Suggestion.fix =
        (swapFix? (.ofSource languages source) found.condition found.branch found.alternative).toList := by
  have hissued := List.mem_mergeSort.1 hdiagnostic
  have hchecks : (⟨info, level, checks⟩ : ActiveRule).checks = { watches := [.elementsWith "if" check] } :=
    (Option.some.inj h).symm
  rw [diagnostics_elementsWith hchecks] at hissued
  obtain ⟨report, hreport, rfl⟩ := List.mem_map.1 hissued
  obtain ⟨reports, hreports, hreport⟩ := List.mem_flatten.1 hreport
  obtain ⟨id, hid, hchecked⟩ := List.mem_flatMap.1 hreports
  have htemplate := (((File.entered_spec languages source).2 id).1 hid).1
  unfold checkedAt at hchecked
  split at hchecked
  · next element helement =>
    split at hchecked
    · rw [List.mem_singleton.1 hchecked] at hreport
      exact exists_conditional htemplate helement hreport
    · cases hchecked
  · cases hchecked

/-- Whatever the rule reports is a negated condition of an element with an alternative. It suggests something exactly if both
bodies end and the negation is found. The suggestion, made alone, writes something into the value of the condition, lets the two
bodies change places, and keeps all else. What is written is the positive form in the place of the negation, unless a comment in
front of the operator holds the same word. -/
theorem lintFile_swaps {options : List Json} {checks : Checks} (h : rule.checks? patterns options = some checks) (level : Level)
    {source : List Char} (hlie : ConditionsLie (.ofSource languages source)) {diagnostic : Diagnostic}
    (hdiagnostic : diagnostic ∈ (lintFile [⟨info, level, checks⟩] (.ofSource languages source)).diagnostics) :
    ∃ found : Conditional (.ofSource languages source), isNegated found.condition = true ∧
      diagnostic.report.span = found.condition.span ∧
      (diagnostic.report.suggestions ≠ [] ↔ found.branch.endTag ≠ none ∧ found.alternative.endTag ≠ none ∧
        Found (.ofSource languages source) found.condition) ∧
      ∀ suggestion ∈ diagnostic.report.suggestions, ∃ place written first second output,
        found.value.valueSpan.start ≤ place.start ∧ place.stop ≤ found.value.valueSpan.stop ∧
        body? found.branch = some first ∧ body? found.alternative = some second ∧
        Exchanged source place written first second output ∧ Fix.applyAll source [suggestion.fix] = ⟨output, 1, 0⟩ ∧
        (OperatorStands (.ofSource languages source) found.condition →
          (Negation (.ofSource languages source) found.condition place written ↔
            ¬ Hidden (.ofSource languages source) found.condition)) := by
  obtain ⟨found, hnegated, hspan, hfixes⟩ := exists_conditional_of_issued h hdiagnostic
  have hfixed : ∀ suggestion ∈ diagnostic.report.suggestions,
      swapFix? (.ofSource languages source) found.condition found.branch found.alternative = some suggestion.fix :=
    fun suggestion hmem => Option.mem_toList.1 (hfixes ▸ List.mem_map_of_mem hmem)
  refine ⟨found, hnegated, hspan, ⟨fun hsome => ?_, ?_⟩, fun suggestion hsuggestion => ?_⟩
  · obtain ⟨suggestion, hsuggestion⟩ := List.exists_mem_of_ne_nil _ hsome
    obtain ⟨first, second, place, written, hfirst, hsecond, hinverts⟩ := of_swapFix? (hfixed suggestion hsuggestion)
    obtain ⟨tag, htag, -⟩ := body?_eq_some_iff.1 hfirst
    obtain ⟨tag', htag', -⟩ := body?_eq_some_iff.1 hsecond
    exact ⟨by simp [htag], by simp [htag'], (found_iff hnegated).2 ⟨place, written, hinverts⟩⟩
  · rintro ⟨hbranch, halternative, hfound⟩ hnil
    obtain ⟨tag, htag⟩ := Option.ne_none_iff_exists'.1 hbranch
    obtain ⟨tag', htag'⟩ := Option.ne_none_iff_exists'.1 halternative
    obtain ⟨place, written, hinverts⟩ := (found_iff hnegated).1 hfound
    obtain ⟨-, -, -, -, -, hfix⟩ := found.swapFix?_eq hlie hinverts (body?_eq_some_iff.2 ⟨tag, htag, rfl⟩)
      (body?_eq_some_iff.2 ⟨tag', htag', rfl⟩)
    rw [hfix, hnil] at hfixes
    cases hfixes
  · have hfix := hfixed suggestion hsuggestion
    obtain ⟨first, second, place, written, hfirst, hsecond, hinverts⟩ := of_swapFix? hfix
    obtain ⟨hplace, hbody, hother, hbefore, hapart, hswaps⟩ := found.swapFix?_eq hlie hinverts hfirst hsecond
    obtain ⟨-, hstart, hstop⟩ := found.inverts_inside hlie hinverts
    obtain ⟨output, hexchanged, happlied⟩ := exists_exchanged hplace hbody hother hbefore hapart written none
    rw [Option.some.inj (hfix.symm.trans hswaps)]
    exact ⟨place, written, first, second, output, hstart, hstop, hfirst, hsecond, hexchanged, happlied,
      hinverts.negation_iff hnegated⟩

/-- An inequality with a comment in it, and an alternative whose body is empty. -/
def commentedInequality : List Char :=
  "<template><p v-if=\"a /* = */ !== b\">one</p>\n<p v-else></p></template>".toList

/-- The operator of the inequality stands behind the comment. -/
theorem commentedInequality_parted : Parted (slice commentedInequality ⟨20, 33⟩) "!==".toList " /* = */ ".toList " ".toList where
  parts := by decide +kernel
  before := .blank (.inl (by decide)) (@Script.Filler.block " = ".toList _ (by decide) (.blank (.inl (by decide)) .nil))
  after := .blank (.inl (by decide)) .nil

/-- The operator of a condition with two operands, and the text between them. -/
def between? : Script.Node → Option (String × Span)
  | ⟨.binary operator, _, [left, right]⟩ => some (operator, ⟨left.span.stop, right.span.start⟩)
  | _ => none

theorem exists_of_between? {condition : Script.Node} {operator : String} {gap : Span}
    (h : between? condition = some (operator, gap)) : ∃ span left right,
      condition = ⟨.binary operator, span, [left, right]⟩ ∧ left.span.stop = gap.start ∧ right.span.start = gap.stop := by
  unfold between? at h
  split at h
  · next operator span left right =>
    obtain ⟨rfl, rfl⟩ := Prod.mk.inj (Option.some.inj h)
    exact ⟨span, left, right, rfl, rfl, rfl⟩
  · cases h

/-- The body moves into the empty alternative, and the inequality becomes an equality. -/
theorem lintFile_swaps_commentedInequality : ∃ checks diagnostic suggestion output,
    rule.checks? Regex.engine [] = some checks ∧ ConditionsLie (.ofSource Script.Dialect.language commentedInequality) ∧
    diagnostic ∈ (lintFile [⟨info, .error, checks⟩] (.ofSource Script.Dialect.language commentedInequality)).diagnostics ∧
    suggestion ∈ diagnostic.report.suggestions ∧
    Exchanged commentedInequality ⟨29, 32⟩ "===".toList ⟨36, 39⟩ ⟨54, 54⟩ output ∧
    Fix.applyAll commentedInequality [suggestion.fix] = ⟨output, 1, 0⟩ := by
  have hchecks : rule.checks? Regex.engine [] = some { watches := [.elementsWith "if" check] } := rfl
  have hlie : ConditionsLie (.ofSource Script.Dialect.language commentedInequality) := by decide +kernel
  have hsome : (lintFile [⟨info, .error, { watches := [.elementsWith "if" check] }⟩]
      (.ofSource Script.Dialect.language commentedInequality)).diagnostics.isEmpty = false := by
    decide +kernel
  have hbranches : ∀ id < (File.ofSource Script.Dialect.language commentedInequality).document.size,
      ∀ element ∈ (File.ofSource Script.Dialect.language commentedInequality).document.element? id,
        ∀ expression ∈ (element.directive? "if").bind (·.expression?), body? element = some ⟨36, 39⟩ ∧
          between? expression.unparenthesized = some ("!==", ⟨20, 33⟩) := by
    decide +kernel
  have halternatives : ∀ id < (File.ofSource Script.Dialect.language commentedInequality).document.size,
      ∀ element ∈ (File.ofSource Script.Dialect.language commentedInequality).document.element? id,
        element.branch? = some .elseBranch → body? element = some ⟨54, 54⟩ := by
    decide +kernel
  obtain ⟨diagnostic, hdiagnostic⟩ := List.exists_mem_of_ne_nil _ (List.isEmpty_eq_false_iff.1 hsome)
  obtain ⟨found, -, -, hiff, hsuggestions⟩ := lintFile_swaps hchecks .error hlie hdiagnostic
  obtain ⟨hfirst, hbetween⟩ := hbranches found.id found.lt_size.1 found.branch found.stands found.expression
    (Option.bind_eq_some_iff.2 ⟨found.attr, found.directive, found.means⟩)
  have hsecond := halternatives found.other found.lt_size.2 found.alternative found.follows found.isElse
  obtain ⟨span, left, right, hcondition, hleft, hright⟩ := @exists_of_between? found.condition _ _ hbetween
  have hparted : Parted ((File.ofSource Script.Dialect.language commentedInequality).text ⟨left.span.stop, right.span.start⟩)
      "!==".toList " /* = */ ".toList " ".toList := by
    rw [hleft, hright]
    exact commentedInequality_parted
  have hopposite : ("!==", "===") ∈ opposites := by decide
  obtain ⟨tag, htag, -⟩ := body?_eq_some_iff.1 hfirst
  obtain ⟨tag', htag', -⟩ := body?_eq_some_iff.1 hsecond
  obtain ⟨suggestion, hsuggestion⟩ := List.exists_mem_of_ne_nil _ (hiff.2 ⟨by simp [htag], by simp [htag'], by
    rw [hcondition]
    exact .unequal hopposite ((occurs_iff (by decide)).2 ⟨_, _, hparted.parts⟩)⟩)
  obtain ⟨place, written, first, second, output, -, -, hfirst', hsecond', hexchanged, happlied, hnegation⟩ :=
    hsuggestions suggestion hsuggestion
  obtain rfl := Option.some.inj (hfirst'.symm.trans hfirst)
  obtain rfl := Option.some.inj (hsecond'.symm.trans hsecond)
  rw [hcondition, hidden_iff hopposite hparted] at hnegation
  have hstands : OperatorStands (File.ofSource Script.Dialect.language commentedInequality)
      ⟨.binary "!==", span, [left, right]⟩ := by
    rintro operator span' left' right' heq
    cases heq
    exact ⟨_, _, hparted⟩
  obtain ⟨rfl, rfl⟩ := Negation.unique hopposite hparted ((hnegation hstands).2 (by decide))
  rw [hleft] at hexchanged
  exact ⟨_, diagnostic, suggestion, output, hchecks, hlie, hdiagnostic, hsuggestion, hexchanged, happlied⟩

/-- An inequality behind a comment that holds the same operator. -/
def operatorInComment : List Char :=
  "<template><p v-if=\"a /* !== */ !== b\">one</p><p v-else>two</p></template>".toList

/-- The bodies change places, but it is the comment that is edited: the condition is as negative as before, and reported again. -/
theorem not_inverts_operatorInComment : ∃ checks diagnostic suggestion, rule.checks? Regex.engine [] = some checks ∧
    diagnostic ∈ (lintFile [⟨info, .error, checks⟩] (.ofSource Script.Dialect.language operatorInComment)).diagnostics ∧
    suggestion ∈ diagnostic.report.suggestions ∧
    (Fix.applyAll operatorInComment [suggestion.fix]).output =
      "<template><p v-if=\"a /* === */ !== b\">two</p><p v-else>one</p></template>".toList ∧
    (lintFile [⟨info, .error, checks⟩] (.ofSource Script.Dialect.language
      "<template><p v-if=\"a /* === */ !== b\">two</p><p v-else>one</p></template>".toList)).diagnostics ≠ [] := by
  have hchecks : rule.checks? Regex.engine [] = some { watches := [.elementsWith "if" check] } := rfl
  have hlie : ConditionsLie (.ofSource Script.Dialect.language operatorInComment) := by decide +kernel
  have hsome : (lintFile [⟨info, .error, { watches := [.elementsWith "if" check] }⟩]
      (.ofSource Script.Dialect.language operatorInComment)).diagnostics.isEmpty = false := by
    decide +kernel
  have hagain : (lintFile [⟨info, .error, { watches := [.elementsWith "if" check] }⟩] (.ofSource Script.Dialect.language
      "<template><p v-if=\"a /* === */ !== b\">two</p><p v-else>one</p></template>".toList)).diagnostics.isEmpty = false := by
    decide +kernel
  have hbranches : ∀ id < (File.ofSource Script.Dialect.language operatorInComment).document.size,
      ∀ element ∈ (File.ofSource Script.Dialect.language operatorInComment).document.element? id,
        ∀ expression ∈ (element.directive? "if").bind (·.expression?), body? element = some ⟨38, 41⟩ ∧
          between? expression.unparenthesized = some ("!==", ⟨20, 35⟩) := by
    decide +kernel
  have halternatives : ∀ id < (File.ofSource Script.Dialect.language operatorInComment).document.size,
      ∀ element ∈ (File.ofSource Script.Dialect.language operatorInComment).document.element? id,
        element.branch? = some .elseBranch → body? element = some ⟨55, 58⟩ := by
    decide +kernel
  obtain ⟨diagnostic, hdiagnostic⟩ := List.exists_mem_of_ne_nil _ (List.isEmpty_eq_false_iff.1 hsome)
  obtain ⟨found, -, -, hfixes⟩ := exists_conditional_of_issued hchecks hdiagnostic
  obtain ⟨hfirst, hbetween⟩ := hbranches found.id found.lt_size.1 found.branch found.stands found.expression
    (Option.bind_eq_some_iff.2 ⟨found.attr, found.directive, found.means⟩)
  have hsecond := halternatives found.other found.lt_size.2 found.alternative found.follows found.isElse
  obtain ⟨span, left, right, hcondition, hleft, hright⟩ := @exists_of_between? found.condition _ _ hbetween
  have hcut : cutAt? (inequality "!==").1 ((File.ofSource Script.Dialect.language operatorInComment).text
      ⟨left.span.stop, right.span.start⟩) = some (" /* ".toList, " */ !== ".toList) := by
    rw [hleft, hright]
    show cutAt? (inequality "!==").1 (slice operatorInComment ⟨20, 35⟩) = _
    decide +kernel
  have hinverts := @Inverts.unequal _ "!==" span left right _ _ hcut
  rw [← hcondition] at hinverts
  obtain ⟨-, -, -, -, -, hfix⟩ := found.swapFix?_eq hlie hinverts hfirst hsecond
  obtain ⟨suggestion, hsuggestion, hmade⟩ := List.mem_map.1 (hfixes.symm ▸ Option.mem_toList.2 hfix)
  refine ⟨_, diagnostic, suggestion, hchecks, hdiagnostic, hsuggestion, ?_, List.isEmpty_eq_false_iff.1 hagain⟩
  rw [hmade, hleft]
  decide +kernel

end Rules.NegatedCondition

end ComponentLint
