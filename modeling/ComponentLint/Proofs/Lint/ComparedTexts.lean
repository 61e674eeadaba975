import ComponentLint.Proofs.Lint.DeadBranches
import ComponentLint.Proofs.Markup.Positions
import ComponentLint.Proofs.Script.Comparisons
import ComponentLint.Proofs.Text.Blanks

/-!
# Branches that compare a variable with texts

Conditions are compared by their normal forms, in which white space inside a quoted text is squeezed as it is
outside. So of branches that compare one variable with texts, one is reported exactly if its text has the normal
form of an earlier one (`lintFile_comparedTexts`): texts that differ in more than blanks are told apart, and
texts that differ in blanks may not be.
-/

namespace ComponentLint

open Text Markup

variable {languages : Script.Languages} {patterns : PatternEngine}

/-! ## Comparisons in the values of directives -/

namespace Markup

open Script (Comparable comparison comparisonNode)

variable {name text : List Char}

theorem isBlank_comparison (name text : List Char) : isBlank (comparison name text) = false := by
  have hmark : isSpace '=' = false := by decide
  rw [isBlank, List.all_eq_false]
  exact ⟨'=', by simp [comparison], by simp [hmark]⟩

/-- A comparison is the expression of its fragment. -/
theorem Fragment.expression?_comparison (h : Comparable name text) (dialect : Script.Dialect) (start : Nat) :
    Fragment.expression? dialect.language start (comparison name text) = some ((comparisonNode name text).shift start) := by
  have hsplit := splitAt?_byteLength (comparison name text) []
  rw [List.append_nil] at hsplit
  have hread : dialect.language.expression? (comparison name text) = some (comparisonNode name text) := h.parseExpression? dialect
  rw [Fragment.expression?, isBlank_comparison, hread]
  simp only [Bool.false_eq_true, if_false, Option.bind_eq_bind, Option.bind_some]
  rw [comparisonNode, hsplit]
  rfl

/-- Whether an attribute has a comparison as its value. -/
def Attribute.Compares (attr : Attribute) (name text : List Char) : Prop :=
  ∃ value, attr.value = some value ∧ value.raw.toList = comparison name text

/-- The expression of a condition that is a comparison, which has the text of the comparison. -/
theorem Attribute.Compares.expression? {dialect : Script.Dialect} {source : List Char} {attr : Attribute}
    (h : attr.Compares name text) (hcomparable : Comparable name text)
    (hattr : attr.WrittenIn dialect.language source) {word : String} (hword : word = "if" ∨ word = "else-if")
    (hdirective : attr.isDirective word = true) :
    ∃ start, attr.expression? = some ((comparisonNode name text).shift start) ∧
      slice source ((comparisonNode name text).shift start).span = comparison name text := by
  obtain ⟨value, hvalue, hraw⟩ := h
  obtain ⟨hstands, hsaid⟩ := hattr.value value hvalue
  rw [Attribute.Says, hraw] at hsaid
  rw [hraw] at hstands
  obtain ⟨key, hkey, hname⟩ : ∃ key, attr.directive? = some key ∧ key.name.text = word := by
    unfold Attribute.isDirective at hdirective
    split at hdirective
    · next key hkey => exact ⟨key, hkey, beq_iff_eq.1 hdirective⟩
    · cases hdirective
  refine ⟨value.valueSpan.start, ?_, ?_⟩
  · have hmeaning : value.meaning = some (.expression ((comparisonNode name text).shift value.valueSpan.start)) := by
      rw [hsaid, hkey, Option.bind_some, hname]
      rcases hword with rfl | rfl
      · simp [Fragment.directiveValue, isBlank_comparison, Fragment.expression?_comparison hcomparable]
      · simp [Fragment.directiveValue, isBlank_comparison, Fragment.expression?_comparison hcomparable]
    simp [Attribute.expression?, Attribute.meaning?, hvalue, hmeaning]
  · obtain ⟨before, after, hsource, hstart⟩ := hstands
    have hspan : ((comparisonNode name text).shift value.valueSpan.start).span =
        ⟨value.valueSpan.start, value.valueSpan.start + byteLength (comparison name text)⟩ := by
      simp [comparisonNode, Script.Node.shift, Span.shift, Nat.add_comm]
    rw [hspan, hsource, ← hstart, slice_append]

end Markup

namespace Rules.DeadBranch

open Script (Comparable comparison comparisonNode)

variable {name text : List Char} {document : Document}

/-! ## Comparing comparisons -/

theorem normalize_comparison (name text : List Char) :
    normalize (comparison name text) = normalize (name ++ [' ', '=', '=', '=', ' ']) ++ '\'' :: (normalize text ++ ['\'']) := by
  have hparts : comparison name text = (name ++ [' ', '=', '=', '=', ' ']) ++ '\'' :: (text ++ ['\'']) := by
    simp [comparison]
  rw [hparts, normalize_between (by decide) (by decide)]

/-- Comparisons of one variable have one normal form if their texts do. -/
theorem normalize_comparison_eq_iff (name text other : List Char) :
    normalize (comparison name text) = normalize (comparison name other) ↔ normalize text = normalize other := by
  rw [normalize_comparison, normalize_comparison, List.append_cancel_left_eq, List.cons_inj_right, List.append_cancel_right_eq]

theorem atomic_comparison (name text : List Char) (start : Nat) : Atomic ((comparisonNode name text).shift start) :=
  ⟨nofun, nofun⟩

/-- An atomic condition is dead if an earlier one is alike, where all earlier ones are atomic. -/
theorem isDead_atomic_iff {condition : Script.Node} {earlier : List Script.Node} (hcondition : Atomic condition)
    (hearlier : ∀ other ∈ earlier, Atomic other) :
    isDead document (disjunction condition).length ((parts condition).map disjunction) earlier = true ↔
      ∃ other ∈ earlier, Alike document other condition := by
  have hdisjunction : ∀ {node : Script.Node}, Atomic node → disjunction node = [[node]] := by
    intro node hnode
    rw [disjunction, operands_atomic (by decide) hnode, List.map_singleton, operands_atomic (by decide) hnode]
  have hparts : ∀ part ∈ parts condition, part = condition := by
    unfold parts
    split
    · have hoperands := @operands_atomic .conjunction (by decide) condition hcondition
      simp [hoperands]
    · simp
  have hcovered : Covered document earlier [condition] ↔ ∃ other ∈ earlier, Alike document other condition := by
    refine exists_congr fun other => and_congr_right fun hother => ?_
    rw [hdisjunction (hearlier other hother)]
    simp [covers, equivalent_atomic (hearlier other hother) hcondition, sameText_iff]
  rw [isDead_parts_iff, hdisjunction hcondition]
  constructor
  · rintro (⟨part, hpart, hall⟩ | ⟨conjuncts, hconjuncts, hcover⟩)
    · have hpart_eq := hparts part hpart
      subst hpart_eq
      exact hcovered.1 (hall [part] (by simp [hdisjunction hcondition]))
    · rw [List.mem_singleton.1 hconjuncts] at hcover
      exact hcovered.1 hcover
  · intro hcover
    exact .inr ⟨[condition], List.mem_singleton_self _, hcovered.2 hcover⟩

/-! ## Chains of comparisons -/

/-- The tree of a comparison that stands in a file. -/
def IsComparison (document : Document) (name text : List Char) (node : Script.Node) : Prop :=
  ∃ start, node = (comparisonNode name text).shift start ∧ document.text node.span = comparison name text

theorem IsComparison.atomic {node : Script.Node} (h : IsComparison document name text node) : Atomic node := by
  obtain ⟨start, rfl, -⟩ := h
  exact atomic_comparison name text start

/-- Comparisons of one variable are alike if the texts have one normal form. -/
theorem IsComparison.alike_iff {other : List Char} {a b : Script.Node} (ha : IsComparison document name text a)
    (hb : IsComparison document name other b) : Alike document a b ↔ normalize text = normalize other := by
  obtain ⟨start, hnode, htext⟩ := ha
  obtain ⟨start', hnode', htext'⟩ := hb
  have hkind : a.kind.ctorIdx = b.kind.ctorIdx := by rw [hnode, hnode']; rfl
  rw [Alike, htext, htext', normalize_comparison_eq_iff]
  exact and_iff_right hkind

/-- Of comparisons of one variable one is alike to another one if a text has the normal form of the other one's. -/
theorem exists_alike_iff {conditions : List Script.Node} {texts : List (List Char)} {condition : Script.Node}
    (h : List.Forall₂ (fun node text => IsComparison document name text node) conditions texts)
    (hcondition : IsComparison document name text condition) :
    (∀ other ∈ conditions, Atomic other) ∧
      ((∃ other ∈ conditions, Alike document other condition) ↔ ∃ other ∈ texts, normalize other = normalize text) := by
  induction h with
  | nil => simp
  | cons hfirst _ ih =>
    obtain ⟨hatomic, hiff⟩ := ih
    refine ⟨List.forall_mem_cons.2 ⟨hfirst.atomic, hatomic⟩, ?_⟩
    rw [List.exists_mem_cons_iff, List.exists_mem_cons_iff, hfirst.alike_iff hcondition, hiff]

/-- A branch that compares a variable with a text, in its `if` or else in its `else-if`. -/
def BranchCompares (file : File) (name : List Char) (branch : NodeId) (text : List Char) : Prop :=
  Comparable name text ∧ ∃ element attr, file.document.element? branch = some element ∧
    (element.directive? "if").or (element.directive? "else-if") = some attr ∧ attr.Compares name text

/-- A branch of the template that compares a variable with a text, behind branches that compare it with texts, nearest first. -/
structure ComparedChain (file : File) (id : NodeId) (name text : List Char) (earlier : List (List Char)) : Prop where
  inTemplate : file.InTemplate id
  comparable : Comparable name text
  branch : ∃ element attr, file.document.element? id = some element ∧ element.directive? "else-if" = some attr ∧
    attr.Compares name text
  chain : List.Forall₂ (BranchCompares file name) (file.document.chainBefore id) earlier

section Files

variable {source : List Char} {id : NodeId} {element : Element} {attr : Attribute}

theorem attribute_isComparison
    (helement : (File.ofSource Script.Dialect.language source).document.element? id = some element) {word : String}
    (hword : word = "if" ∨ word = "else-if") (hdirective : element.directive? word = some attr)
    (hcompares : attr.Compares name text)
    (hcomparable : Comparable name text) :
    ∃ node, attr.expression? = some node ∧
      IsComparison (File.ofSource Script.Dialect.language source).document name text node := by
  obtain ⟨node, hnode, hkind⟩ := Document.element?_eq_some_iff.1 helement
  have hwritten := (parse_written (Script.Dialect.language ⟨Component.usesTypes source, false⟩) source).kind id node hnode
  rw [hkind] at hwritten
  have hattr := hwritten.attributes attr (List.mem_of_find?_eq_some hdirective)
  have hfound : element.attributes.find? (·.isDirective word) = some attr := hdirective
  have hnamed : attr.isDirective word = true := by simpa using List.find?_some hfound
  obtain ⟨start, hexpression, htext⟩ := hcompares.expression? hcomparable hattr hword hnamed
  exact ⟨_, hexpression, start, rfl, htext⟩

/-- The condition of a branch that compares a variable with a text. -/
theorem BranchCompares.exists_condition (h : BranchCompares (.ofSource Script.Dialect.language source) name id text) :
    ∃ node, ((File.ofSource Script.Dialect.language source).document.element? id).bind condition? = some node ∧
      IsComparison (File.ofSource Script.Dialect.language source).document name text node := by
  obtain ⟨hcomparable, element, attr, helement, hdirective, hcompares⟩ := h
  rw [helement, Option.bind_some]
  unfold condition?
  cases hif : element.directive? "if" with
  | some found =>
    obtain rfl : found = attr := by simpa [hif] using hdirective
    exact attribute_isComparison helement (.inl rfl) hif hcompares hcomparable
  | none =>
    have helse : element.directive? "else-if" = some attr := by simpa [hif] using hdirective
    obtain ⟨node, hnode, hcomparison⟩ := attribute_isComparison helement (.inr rfl) helse hcompares hcomparable
    exact ⟨node, by rw [helse, Option.bind_some, hnode], hcomparison⟩

/-- The conditions of branches that compare a variable with texts. -/
theorem exists_conditions {branches : List NodeId} {texts : List (List Char)}
    (h : List.Forall₂ (BranchCompares (.ofSource Script.Dialect.language source) name) branches texts) :
    List.Forall₂ (fun node text => IsComparison (File.ofSource Script.Dialect.language source).document name text node)
      (branches.filterMap fun branch =>
        ((File.ofSource Script.Dialect.language source).document.element? branch).bind condition?) texts := by
  induction h with
  | nil => exact .nil
  | cons hbranch _ ih =>
    obtain ⟨node, hnode, hcomparison⟩ := hbranch.exists_condition
    simp only [List.filterMap_cons, hnode]
    exact .cons hcomparison ih

/-- A branch is dead exactly if its text has the normal form of an earlier one. -/
theorem ComparedChain.deadBranch?_isSome_iff {earlier : List (List Char)}
    (h : ComparedChain (.ofSource Script.Dialect.language source) id name text earlier) :
    (deadBranch? (.ofSource Script.Dialect.language source) id).isSome = true ↔ ∃ other ∈ earlier,
      normalize other = normalize text := by
  obtain ⟨element, attr, helement, hdirective, hcompares⟩ := h.branch
  obtain ⟨condition, hcondition, hcomparison⟩ := attribute_isComparison helement (.inr rfl) hdirective hcompares h.comparable
  have hbranch : branchCondition? (.ofSource Script.Dialect.language source) id = some condition := by
    rw [branchCondition?, helement, Option.bind_some, hdirective, Option.bind_some, hcondition]
  have hearlier := exists_conditions h.chain
  rw [← earlierConditions] at hearlier
  obtain ⟨hatomic, hiff⟩ := exists_alike_iff hearlier hcomparison
  rw [← hiff, ← isDead_atomic_iff hcomparison.atomic hatomic, deadBranch?, hbranch, Option.bind_some, Option.isSome_ite]

/-- A dead branch goes by its own number. -/
theorem map_fst_deadBranches (file : File) (ids : List NodeId) :
    (ids.filterMap (deadBranch? file)).map (·.1) = ids.filter fun id => (deadBranch? file id).isSome := by
  have hown : ∀ id, (deadBranch? file id).map (·.1) = Option.guard (fun id => (deadBranch? file id).isSome) id := by
    intro id
    cases hbranch : deadBranch? file id with
    | none => simp [Option.guard, hbranch]
    | some branch => simp [Option.guard, hbranch, (deadBranch?_eq_some_iff.1 hbranch).1]
  rw [List.map_filterMap, ← List.filterMap_eq_filter]
  exact congrArg (List.filterMap · ids) (funext hown)

/-- What is reported are the branches of the template that are dead. -/
theorem lintFile_perm {options : List Json} {checks : Checks} (h : rule.checks? patterns options = some checks) (level : Level)
    (source : List Char) :
    (lintFile [⟨info, level, checks⟩] (.ofSource Script.Dialect.language source)).diagnostics.Perm
      (((File.ofSource Script.Dialect.language source).entered.filterMap
        (deadBranch? (.ofSource Script.Dialect.language source))).map fun branch =>
        ⟨info.name, level, branchReport branch⟩) := by
  have hchecks : (⟨info, level, checks⟩ : ActiveRule).checks = { watches := [.elementsWith "else-if" check] } :=
    (Option.some.inj h).symm
  have hdiagnostics := diagnostics_elementsWith hchecks (.ofSource Script.Dialect.language source)
  rw [flatten_flatMap_checkedAt, List.map_map] at hdiagnostics
  rw [lintFile, hdiagnostics]
  exact List.mergeSort_perm _ _

end Files

/-! ## The whole run -/

/-- Of branches that compare one variable with texts, a branch is reported exactly if its text has the normal form of an earlier
one. Then the two texts have the same characters that are not blank, and where no text has blanks, they are the same. -/
theorem lintFile_comparedTexts {options : List Json}
    {checks : Checks} (h : rule.checks? patterns options = some checks) (level : Level)
    {source : List Char} {id : NodeId} {earlier : List (List Char)}
    (hchain : ComparedChain (.ofSource Script.Dialect.language source) id name text earlier) :
    ∃ reported : List (NodeId × Script.Node),
      ((lintFile [⟨info, level, checks⟩] (.ofSource Script.Dialect.language source)).diagnostics.Perm
        (reported.map fun branch => ⟨info.name, level, branchReport branch⟩)) ∧
      (reported.map (·.1)).Nodup ∧
      (id ∈ reported.map (·.1) ↔ ∃ other ∈ earlier, normalize other = normalize text) ∧
      (id ∈ reported.map (·.1) → ∃ other ∈ earlier, other.filter (!isSpace ·) = text.filter (!isSpace ·)) ∧
      ((∀ part ∈ text :: earlier, ∀ c ∈ part, isSpace c = false) → (id ∈ reported.map (·.1) ↔ text ∈ earlier)) := by
  obtain ⟨hnodup, hmem⟩ := File.entered_spec Script.Dialect.language source
  let reported := (File.ofSource Script.Dialect.language source).entered.filterMap
    (deadBranch? (.ofSource Script.Dialect.language source))
  have hids : reported.map (·.1) = (File.ofSource Script.Dialect.language source).entered.filter fun id =>
      (deadBranch? (.ofSource Script.Dialect.language source) id).isSome :=
    map_fst_deadBranches (.ofSource Script.Dialect.language source) _
  have hreported : id ∈ reported.map (·.1) ↔ ∃ other ∈ earlier, normalize other = normalize text := by
    obtain ⟨element, attr, helement, -⟩ := hchain.branch
    obtain ⟨node, hnode, -⟩ := Document.element?_eq_some_iff.1 helement
    have hentered := (hmem id).2 ⟨hchain.inTemplate, (Array.getElem?_eq_some_iff.1 hnode).1⟩
    rw [hids, List.mem_filter, hchain.deadBranch?_isSome_iff]
    exact and_iff_right hentered
  refine ⟨reported, lintFile_perm h level source, ?_, hreported, fun hid => ?_, fun hnone => ?_⟩
  · rw [hids]
    exact hnodup.filter _
  · obtain ⟨other, hother, hsame⟩ := hreported.1 hid
    refine ⟨other, hother, ?_⟩
    rw [← filter_normalize other, hsame, filter_normalize]
  · obtain ⟨htext, hearlier⟩ := List.forall_mem_cons.1 hnone
    rw [hreported]
    constructor
    · rintro ⟨other, hother, hsame⟩
      rw [normalize_eq_self (hearlier other hother), normalize_eq_self htext] at hsame
      exact hsame ▸ hother
    · intro hmem
      exact ⟨text, hmem, rfl⟩

/-- A chain of two branches that compare a variable with texts. -/
def twoBranches (name text other : List Char) : List Char :=
  "<template><p v-if=\"".toList ++ comparison name text ++ "\"></p><p v-else-if=\"".toList ++ comparison name other ++
    "\"></p></template>".toList

theorem exists_compares {file : File} {id : NodeId} {found : Element → Option Attribute}
    (h : ((file.document.element? id).bind found).any (fun attr =>
      attr.value.any (·.raw.toList == comparison name text)) = true) :
    ∃ element attr, file.document.element? id = some element ∧ found element = some attr ∧ attr.Compares name text := by
  obtain ⟨attr, hattr, hvalue⟩ := (Option.any_eq_true _ _).1 h
  obtain ⟨element, helement, hfound⟩ := Option.bind_eq_some_iff.1 hattr
  obtain ⟨value, hsome, hraw⟩ := (Option.any_eq_true _ _).1 hvalue
  exact ⟨element, attr, helement, hfound, value, hsome, beq_iff_eq.1 hraw⟩

/-- A variable that is compared with two texts which differ in a blank. -/
def spacedTexts : List Char :=
  twoBranches ['s'] "a b".toList "a  b".toList

theorem comparable_spaced : ∀ text ∈ ["a b".toList, "a  b".toList], Comparable ['s'] text := by
  intro text htext
  have hplain : ∀ text ∈ ["a b".toList, "a  b".toList], text.all (Script.isPlainIn '\'') = true := by decide
  exact ⟨by decide, by decide, List.all_eq_true.1 (hplain text htext)⟩

/-- The second branch is reported although its text is another one. -/
theorem lintFile_comparedTexts_spacedTexts : ∃ reported : List (NodeId × Script.Node),
    (lintFile [⟨info, .error, { watches := [.elementsWith "else-if" check] }⟩]
      (.ofSource Script.Dialect.language spacedTexts)).diagnostics.Perm
      (reported.map fun branch => ⟨info.name, .error, branchReport branch⟩) ∧
    3 ∈ reported.map (·.1) := by
  have htemplate : (File.ofSource Script.Dialect.language spacedTexts).component.template = some 1 := by decide +kernel
  have hparent : parentOf (File.ofSource Script.Dialect.language spacedTexts).document.nodes 3 = some 1 := by decide +kernel
  have hbefore : (File.ofSource Script.Dialect.language spacedTexts).document.chainBefore 3 = [2] := by decide +kernel
  have hchain : ComparedChain (.ofSource Script.Dialect.language spacedTexts) 3 ['s'] "a  b".toList ["a b".toList] := by
    refine ⟨⟨1, htemplate, .step hparent .refl⟩, comparable_spaced _ (by simp), exists_compares (by decide +kernel), ?_⟩
    rw [hbefore]
    exact .cons ⟨comparable_spaced _ (by simp), exists_compares (by decide +kernel)⟩ .nil
  have hchecks : rule.checks? Regex.engine [] = some { watches := [.elementsWith "else-if" check] } := rfl
  obtain ⟨reported, hperm, -, hreported, -⟩ := lintFile_comparedTexts hchecks .error hchain
  exact ⟨reported, hperm, hreported.2 ⟨_, List.mem_singleton_self _, by decide⟩⟩

/-- Not every chain that compares a variable with two different texts is without reports. -/
theorem not_silent_spacedTexts : ¬∀ name text other, Comparable name text → Comparable name other → text ≠ other →
    (lintFile [⟨info, .error, { watches := [.elementsWith "else-if" check] }⟩]
      (.ofSource Script.Dialect.language (twoBranches name text other))).diagnostics = [] := by
  intro h
  have hnone := h ['s'] "a b".toList "a  b".toList (comparable_spaced _ (by simp)) (comparable_spaced _ (by simp)) (by decide)
  have hlength := congrArg List.length hnone
  rw [lintFile, List.length_mergeSort] at hlength
  revert hlength
  decide +kernel

end Rules.DeadBranch

end ComponentLint
