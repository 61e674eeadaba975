import ComponentLint.Proofs.Lint.Walk
import ComponentLint.Rules.DuplicateAttributes

/-!
# Attributes that are repeated

An attribute clashes with an earlier one that sets its name, unless a plain and a bound attribute of the name may stand side by
side and these do. The rule reports exactly the attributes that clash with an earlier one, each once
(`lintFile_repetitions`). Its label names the first bound attribute that is clashed with, and only if all of them are plain the
first of all: a plain attribute in front of a bound one is passed over (`not_first_plainBefore`).
-/

namespace ComponentLint.Rules.DuplicateAttributes

open Markup

variable {languages : Script.Languages} {patterns : PatternEngine}

/-- Whether an attribute binds the name that it sets. -/
def isBound (attr : Attribute) : Bool :=
  attr.directive?.isSome

/-- Whether an attribute of a name and a kind cannot stand beside another attribute. -/
def Clashes (settings : Settings) (name : String) (bound : Bool) (other : Attribute) : Prop :=
  nameSet? other = some name ∧ (settings.mayCoexist name = true → isBound other = bound)

/-- The attribute that a clash with some of these is put down to: the first bound one that is clashed with, or the first of all
if there is no bound one. -/
structure BlamedAt (settings : Settings) (earlier : List Attribute) (name : String) (bound : Bool) (first : Attribute)
    (index : Nat) : Prop where
  stands : earlier[index]? = some first
  clashes : Clashes settings name bound first
  /-- A bound attribute that is clashed with is blamed rather than a plain one. -/
  prefers : ∀ other ∈ earlier, Clashes settings name bound other → isBound other = true → isBound first = true
  first : ∀ place < index, ∀ other, earlier[place]? = some other → Clashes settings name bound other →
    isBound other ≠ isBound first

/-- An attribute that repeats an earlier one, on an element. -/
structure Repetition where
  node : NodeId
  index : Nat
  attr : Attribute
  name : String
  /-- The earlier attribute that it is said to repeat. -/
  first : Attribute

/-- What the rule says of a repetition. -/
def Repetition.report (repetition : Repetition) : Report :=
  (info.report "duplicateAttribute" repetition.attr.span [("name", repetition.name)]).withLabel repetition.first.span
    "first occurrence"

/-- The attribute that is repeated, and the one that is said to be, are attributes of the element. -/
structure Repetition.In (settings : Settings) (attributes : List Attribute) (repetition : Repetition) : Prop where
  stands : attributes[repetition.index]? = some repetition.attr
  named : nameSet? repetition.attr = some repetition.name
  blamed : ∃ index, BlamedAt settings (attributes.take repetition.index) repetition.name (isBound repetition.attr)
    repetition.first index

/-! ## The earlier attribute -/

section Earlier

variable {settings : Settings} {earlier : List Attribute} {name : String} {bound kind : Bool} {first : Attribute}

theorem firstSetting?_eq_some_iff : firstSetting? earlier name kind = some first ↔
    (nameSet? first = some name ∧ isBound first = kind) ∧ ∃ index : Nat, earlier[index]? = some first ∧
      ∀ place < index, ∀ other, earlier[place]? = some other → nameSet? other = some name → isBound other ≠ kind := by
  rw [firstSetting?, List.find?_eq_some_iff_getElem]
  refine and_congr (by simp [isBound]) ⟨?_, ?_⟩
  · rintro ⟨index, hindex, rfl, hbefore⟩
    refine ⟨index, List.getElem?_eq_getElem hindex, fun place hplace other hother hname hkind => ?_⟩
    obtain ⟨hsize, rfl⟩ := List.getElem?_eq_some_iff.1 hother
    have hnot := hbefore place hplace
    rw [hname, ← hkind] at hnot
    simp [isBound] at hnot
  · rintro ⟨index, hindex, hbefore⟩
    obtain ⟨hsize, heq⟩ := List.getElem?_eq_some_iff.1 hindex
    refine ⟨index, hsize, heq, fun place hplace => ?_⟩
    have hnot := hbefore place hplace _ (List.getElem?_eq_getElem (hplace.trans hsize))
    by_cases hname : nameSet? earlier[place] = some name
    · simpa [hname, isBound] using hnot hname
    · simp [hname]

theorem firstSetting?_eq_none_iff : firstSetting? earlier name kind = none ↔
    ∀ other ∈ earlier, nameSet? other = some name → isBound other ≠ kind := by
  rw [firstSetting?, List.find?_eq_none]
  refine forall₂_congr fun other _ => ?_
  simp [isBound]

/-- Where the two kinds may coexist, the first of the same kind is blamed. -/
theorem blamedAt_coexisting (hcoexist : settings.mayCoexist name = true) (index : Nat) :
    BlamedAt settings earlier name bound first index ↔ (nameSet? first = some name ∧ isBound first = bound) ∧
      earlier[index]? = some first ∧
        ∀ place < index, ∀ other, earlier[place]? = some other → nameSet? other = some name → isBound other ≠ bound := by
  constructor
  · intro h
    obtain ⟨hname, hkind⟩ := h.clashes
    refine ⟨⟨hname, hkind hcoexist⟩, h.stands, fun place hplace other hother hsets hbound => ?_⟩
    exact h.first place hplace other hother ⟨hsets, fun _ => hbound⟩ (hbound.trans (hkind hcoexist).symm)
  · rintro ⟨⟨hname, hkind⟩, hindex, hbefore⟩
    refine ⟨hindex, ⟨hname, fun _ => hkind⟩, fun other _ hclash hbound => ?_, fun place hplace other hother hclash => ?_⟩
    · rwa [hkind, ← hclash.2 hcoexist]
    · rw [hkind]
      exact hbefore place hplace other hother hclash.1

/-- Elsewhere the first bound one is blamed, or the first plain one if there is none. -/
theorem blamedAt_exclusive (hcoexist : settings.mayCoexist name = false) (index : Nat) :
    BlamedAt settings earlier name bound first index ↔ nameSet? first = some name ∧ earlier[index]? = some first ∧
      (isBound first = false → firstSetting? earlier name true = none) ∧
        ∀ place < index, ∀ other, earlier[place]? = some other → nameSet? other = some name →
          isBound other ≠ isBound first := by
  have hclash : ∀ other, Clashes settings name bound other ↔ nameSet? other = some name := by
    intro other
    rw [Clashes, hcoexist]
    exact and_iff_left nofun
  rw [firstSetting?_eq_none_iff]
  constructor
  · intro h
    refine ⟨h.clashes.1, h.stands, fun hplain other hother hname hbound => ?_, fun place hplace other hother hname => ?_⟩
    · have hfirst := h.prefers other hother ((hclash other).2 hname) hbound
      rw [hplain] at hfirst
      cases hfirst
    · exact h.first place hplace other hother ((hclash other).2 hname)
  · rintro ⟨hname, hindex, hplain, hbefore⟩
    refine ⟨hindex, (hclash first).2 hname, fun other hother hother' hbound => ?_, fun place hplace other hother hother' => ?_⟩
    · by_contra hnot
      exact hplain (Bool.eq_false_of_not_eq_true hnot) other hother hother'.1 hbound
    · exact hbefore place hplace other hother hother'.1

/-- What the rule takes for the earlier attribute is the one that is blamed. -/
theorem repeated?_eq_some_iff :
    repeated? settings earlier name bound = some first ↔ ∃ index, BlamedAt settings earlier name bound first index := by
  unfold repeated?
  cases hcoexist : settings.mayCoexist name with
  | true =>
    simp only [if_true, firstSetting?_eq_some_iff, blamedAt_coexisting hcoexist, exists_and_left]
  | false =>
    simp only [Bool.false_eq_true, if_false, blamedAt_exclusive hcoexist, exists_and_left, Option.or_eq_some_iff,
      firstSetting?_eq_some_iff]
    constructor
    · rintro (⟨⟨hname, hkind⟩, index, hindex, hbefore⟩ | ⟨hnone, ⟨hname, hkind⟩, index, hindex, hbefore⟩)
      · refine ⟨hname, index, hindex, fun hplain => ?_, hkind ▸ hbefore⟩
        rw [hkind] at hplain
        cases hplain
      · exact ⟨hname, index, hindex, fun _ => hnone, hkind ▸ hbefore⟩
    · rintro ⟨hname, index, hindex, hplain, hbefore⟩
      cases hkind : isBound first with
      | true => exact .inl ⟨⟨hname, rfl⟩, index, hindex, hkind ▸ hbefore⟩
      | false => exact .inr ⟨hplain hkind, ⟨hname, rfl⟩, index, hindex, hkind ▸ hbefore⟩

/-- Something is blamed if and only if there is a clash. -/
theorem exists_blamed_iff : (∃ first index, BlamedAt settings earlier name bound first index) ↔
    ∃ other ∈ earlier, Clashes settings name bound other := by
  constructor
  · rintro ⟨first, index, h⟩
    exact ⟨first, List.mem_of_getElem? h.stands, h.clashes⟩
  · rintro ⟨other, hother, hname, hkind⟩
    suffices (repeated? settings earlier name bound).isSome by
      obtain ⟨first, hfirst⟩ := Option.isSome_iff_exists.1 this
      exact ⟨first, repeated?_eq_some_iff.1 hfirst⟩
    -- A search for an attribute of the other's kind finds one.
    have hfound : firstSetting? earlier name (isBound other) ≠ none :=
      fun hnone => firstSetting?_eq_none_iff.1 hnone other hother hname rfl
    unfold repeated?
    split
    · next hcoexist =>
      rw [← hkind hcoexist]
      exact Option.isSome_iff_ne_none.2 hfound
    · rw [Option.isSome_or, Bool.or_eq_true, Option.isSome_iff_ne_none, Option.isSome_iff_ne_none]
      cases hbound : isBound other with
      | true => exact .inl (hbound ▸ hfound)
      | false => exact .inr (hbound ▸ hfound)

end Earlier

/-! ## The repetitions of an element -/

/-- The repetition that an attribute is behind earlier ones, if it is one. -/
def repetitionAt? (settings : Settings) (node : NodeId) (earlier : List Attribute) (attr : Attribute) : Option Repetition := do
  let name ← nameSet? attr
  let first ← repeated? settings earlier name (isBound attr)
  return ⟨node, earlier.length, attr, name, first⟩

/-- The repetitions among attributes, in order. -/
def repetitions (settings : Settings) (node : NodeId) (attributes : List Attribute) : List Repetition :=
  (List.range attributes.length).filterMap fun index =>
    attributes[index]?.bind (repetitionAt? settings node (attributes.take index))

section Elements

variable {settings : Settings} {node : NodeId} {attributes : List Attribute}

theorem checkFrom_eq (settings : Settings) (node : NodeId) (earlier rest : List Attribute) :
    checkFrom settings earlier rest = ((List.range' earlier.length rest.length).filterMap fun index =>
      (earlier ++ rest)[index]?.bind (repetitionAt? settings node ((earlier ++ rest).take index))).map Repetition.report := by
  induction rest generalizing earlier with
  | nil => rfl
  | cons attr rest ih =>
    have hhere : (earlier ++ attr :: rest)[earlier.length]? = some attr := by simp
    have hbehind := ih (earlier ++ [attr])
    rw [← List.append_cons, List.length_append, List.length_singleton] at hbehind
    rw [checkFrom, hbehind, List.length_cons, List.range'_succ, List.filterMap_cons, hhere, List.take_left, Option.bind_some,
      repetitionAt?]
    cases hname : nameSet? attr with
    | none => rfl
    | some name =>
      simp only [Option.bind_eq_bind, Option.bind_some, isBound]
      cases repeated? settings earlier name attr.directive?.isSome <;> rfl

/-- The check of an element reports its repetitions. -/
theorem check_eq (file : File) (element : Element) :
    check settings file node element = (repetitions settings node element.attributes).map Repetition.report := by
  rw [check, checkFrom_eq settings node, repetitions, List.range_eq_range']
  rfl

theorem repetitionAt?_eq_some_iff {earlier : List Attribute} {attr : Attribute} {repetition : Repetition} :
    repetitionAt? settings node earlier attr = some repetition ↔
      repetition.node = node ∧ repetition.index = earlier.length ∧ repetition.attr = attr ∧
        nameSet? attr = some repetition.name ∧
          ∃ index, BlamedAt settings earlier repetition.name (isBound attr) repetition.first index := by
  simp only [← repeated?_eq_some_iff]
  constructor
  · intro h
    obtain ⟨name, hname, h⟩ := Option.bind_eq_some_iff.1 h
    obtain ⟨first, hfirst, h⟩ := Option.bind_eq_some_iff.1 h
    obtain rfl := Option.some.inj h
    exact ⟨rfl, rfl, rfl, hname, hfirst⟩
  · obtain ⟨node, index, attr, name, first⟩ := repetition
    rintro ⟨rfl, rfl, rfl, hname, hfirst⟩
    simp only at hname hfirst
    simp [repetitionAt?, hname, hfirst]

theorem mem_repetitions {repetition : Repetition} :
    repetition ∈ repetitions settings node attributes ↔ repetition.node = node ∧ repetition.In settings attributes := by
  simp only [repetitions, List.mem_filterMap, List.mem_range, Option.bind_eq_some_iff, repetitionAt?_eq_some_iff]
  constructor
  · rintro ⟨index, hindex, attr, hattr, hnode, hplace, rfl, hname, hblamed⟩
    rw [List.length_take, min_eq_left hindex.le] at hplace
    subst hplace
    exact ⟨hnode, hattr, hname, hblamed⟩
  · rintro ⟨hnode, hattr, hname, hblamed⟩
    have hindex := (List.getElem?_eq_some_iff.1 hattr).1
    refine ⟨repetition.index, hindex, repetition.attr, hattr, hnode, ?_, rfl, hname, hblamed⟩
    rw [List.length_take, min_eq_left hindex.le]

/-- An attribute is one repetition at most. -/
theorem pairwise_repetitions (settings : Settings) (node : NodeId) (attributes : List Attribute) :
    (repetitions settings node attributes).Pairwise fun first second => first.index ≠ second.index := by
  refine List.pairwise_lt_range.filterMap _ fun first second hlt repetition hfirst other hsecond => ?_
  have hindex : ∀ {place : Nat} {repetition : Repetition}, attributes[place]?.bind
      (repetitionAt? settings node (attributes.take place)) = some repetition → repetition.index = place := by
    intro place repetition h
    obtain ⟨attr, hattr, h⟩ := Option.bind_eq_some_iff.1 h
    rw [(repetitionAt?_eq_some_iff.1 h).2.1, List.length_take, min_eq_left (List.getElem?_eq_some_iff.1 hattr).1.le]
  rw [hindex hfirst, hindex hsecond]
  exact hlt.ne

end Elements

/-! ## The whole run -/

/-- The repetitions on a node. -/
def repetitionsAt (settings : Settings) (file : File) (id : NodeId) : List Repetition :=
  match file.document.element? id with
  | some element => repetitions settings id element.attributes
  | none => []

section Files

variable {settings : Settings} {file : File} {id : NodeId} {repetition : Repetition}

theorem reportedAt_eq (settings : Settings) (file : File) (id : NodeId) :
    reportedAt (check settings) file id = (repetitionsAt settings file id).map Repetition.report := by
  unfold reportedAt repetitionsAt
  cases file.document.element? id with
  | none => rfl
  | some element => exact check_eq file element

theorem mem_repetitionsAt : repetition ∈ repetitionsAt settings file id ↔ repetition.node = id ∧
    ∃ element, file.document.element? id = some element ∧ repetition.In settings element.attributes := by
  unfold repetitionsAt
  cases file.document.element? id with
  | none => simp
  | some element => simp [mem_repetitions]

theorem pairwise_repetitionsAt (settings : Settings) (file : File) (id : NodeId) :
    (repetitionsAt settings file id).Pairwise fun first second => first.index ≠ second.index := by
  unfold repetitionsAt
  cases file.document.element? id with
  | none => exact .nil
  | some element => exact pairwise_repetitions settings id element.attributes

/-- An attribute is a repetition if and only if it clashes with an earlier one. -/
theorem exists_in_iff {attributes : List Attribute} {index : Nat} {attr : Attribute} {name : String}
    (hattr : attributes[index]? = some attr) (hname : nameSet? attr = some name) :
    (∃ first, (⟨id, index, attr, name, first⟩ : Repetition).In settings attributes) ↔
      ∃ place < index, ∃ other, attributes[place]? = some other ∧ Clashes settings name (isBound attr) other := by
  have hearlier : (∃ other ∈ attributes.take index, Clashes settings name (isBound attr) other) ↔
      ∃ place < index, ∃ other, attributes[place]? = some other ∧ Clashes settings name (isBound attr) other := by
    simp only [List.mem_iff_getElem?, List.getElem?_take, Option.ite_none_right_eq_some]
    constructor
    · rintro ⟨other, ⟨place, hplace, hother⟩, hclash⟩
      exact ⟨place, hplace, other, hother, hclash⟩
    · rintro ⟨place, hplace, other, hother, hclash⟩
      exact ⟨other, ⟨place, hplace, hother⟩, hclash⟩
  rw [← hearlier, ← exists_blamed_iff]
  exact exists_congr fun first => ⟨fun h => h.blamed, fun h => ⟨hattr, hname, h⟩⟩

end Files

/-- The rule issues one diagnostic for each attribute of the template that clashes with an earlier one of its element, and none
for another. The diagnostic is at the attribute, and labels the earlier one that is blamed. -/
theorem lintFile_repetitions {options : List Json}
    {checks : Checks} (h : rule.checks? patterns options = some checks) (level : Level)
    (source : List Char) :
    let file := File.ofSource languages source
    ∃ settings, Settings.ofOptions? options = some settings ∧ ∃ found : List Repetition,
      (lintFile [⟨info, level, checks⟩] file).diagnostics.Perm
        (found.map fun repetition => ⟨info.name, level, repetition.report⟩) ∧
      (found.Pairwise fun first second => first.node = second.node → first.index ≠ second.index) ∧
      (∀ repetition, repetition ∈ found ↔ file.InTemplate repetition.node ∧
        ∃ element, file.document.element? repetition.node = some element ∧ repetition.In settings element.attributes) ∧
      ∀ id element, file.InTemplate id → file.document.element? id = some element → ∀ (index : Nat) attr name,
        element.attributes[index]? = some attr → nameSet? attr = some name →
          ((∃ repetition ∈ found, repetition.node = id ∧ repetition.index = index) ↔ ∃ place < index, ∃ other,
            element.attributes[place]? = some other ∧ Clashes settings name (isBound attr) other) := by
  intro file
  obtain ⟨settings, hsettings, hmade⟩ := Option.map_eq_some_iff.1 h
  obtain ⟨hnodup, hentered⟩ := File.entered_spec languages source
  have hmem : ∀ repetition, repetition ∈ file.entered.flatMap (repetitionsAt settings file) ↔
      file.InTemplate repetition.node ∧
        ∃ element, file.document.element? repetition.node = some element ∧ repetition.In settings element.attributes := by
    intro repetition
    simp only [List.mem_flatMap, mem_repetitionsAt]
    constructor
    · rintro ⟨id, hid, rfl, hrepetition⟩
      exact ⟨((hentered _).1 hid).1, hrepetition⟩
    · rintro ⟨htemplate, element, helement, hrepetition⟩
      obtain ⟨node, hnode, -⟩ := Document.element?_eq_some_iff.1 helement
      have hsize := (Array.getElem?_eq_some_iff.1 hnode).1
      exact ⟨repetition.node, (hentered _).2 ⟨htemplate, hsize⟩, rfl, element, helement, hrepetition⟩
  refine ⟨settings, hsettings, file.entered.flatMap (repetitionsAt settings file), ?_, ?_, hmem, ?_⟩
  · have hchecks : (⟨info, level, checks⟩ : ActiveRule).checks = { watches := [.elements (check settings)] } := hmade.symm
    have hdiagnostics := diagnostics_elements hchecks file
    rw [funext (reportedAt_eq settings file), ← List.map_flatMap, List.map_map] at hdiagnostics
    rw [lintFile, hdiagnostics]
    exact List.mergeSort_perm _ _
  · refine List.pairwise_flatMap.2 ⟨fun id _ => ?_, ?_⟩
    · exact (pairwise_repetitionsAt settings file id).imp fun {first second} hne (_ : first.node = second.node) => hne
    · refine hnodup.imp fun hne first hfirst second hsecond heq => absurd ?_ hne
      rw [← (mem_repetitionsAt.1 hfirst).1, ← (mem_repetitionsAt.1 hsecond).1, heq]
  · intro id element htemplate helement index attr name hattr hname
    rw [← @exists_in_iff _ id _ _ _ _ hattr hname]
    constructor
    · rintro ⟨⟨node, place, other, name', first⟩, hfound, rfl, rfl⟩
      obtain ⟨-, element', helement', hin⟩ := (hmem _).1 hfound
      obtain rfl : element = element' := Option.some.inj (helement.symm.trans helement')
      obtain rfl : attr = other := Option.some.inj (hattr.symm.trans hin.stands)
      obtain rfl : name = name' := Option.some.inj (hname.symm.trans hin.named)
      exact ⟨first, hin⟩
    · rintro ⟨first, hin⟩
      exact ⟨_, (hmem _).2 ⟨htemplate, element, helement, hin⟩, rfl, rfl⟩

/-- Options that keep a plain and a bound class apart. -/
def separateClasses : List Json :=
  [.obj [("allowCoexistClass", .bool false)]]

/-- A plain and a bound class, and three styles of which one is plain. -/
def mixedKinds : List Char :=
  "<template><p class=\"a\" :class=\"b\" style=\"c\" :style=\"d\" :style=\"e\"/></template>".toList

/-- The bound class repeats the plain one, and the last style repeats the other that is bound. -/
theorem lintFile_repetitions_mixedKinds : ∃ (checks : Checks) (found : List Repetition),
    rule.checks? Regex.engine separateClasses = some checks ∧
    (lintFile [⟨info, .error, checks⟩] (.ofSource Script.Dialect.language mixedKinds)).diagnostics.Perm
      (found.map fun repetition => ⟨info.name, .error, repetition.report⟩) ∧
    (found.map fun repetition => (repetition.attr.span, [repetition.first.span])).Perm
      [(⟨23, 33⟩, [⟨13, 22⟩]), (⟨55, 65⟩, [⟨44, 54⟩])] := by
  have hchecks : rule.checks? Regex.engine separateClasses = some { watches := [.elements (check ⟨false, true⟩)] } := rfl
  obtain ⟨-, -, found, hperm, -, -, -⟩ := lintFile_repetitions hchecks .error mixedKinds
  have hspans : (runOver (.ofSource Script.Dialect.language mixedKinds)
      [⟨info, .error, { watches := [.elements (check ⟨false, true⟩)] }⟩]).diagnostics.toList.map
      (fun diagnostic => (diagnostic.report.span, diagnostic.report.labels.map Label.span)) =
        [(⟨23, 33⟩, [⟨13, 22⟩]), (⟨55, 65⟩, [⟨44, 54⟩])] := by
    decide +kernel
  refine ⟨_, found, hchecks, hperm, ?_⟩
  rw [← hspans]
  refine .trans (.of_eq ?_) ((hperm.symm.trans (List.mergeSort_perm _ _)).map _)
  rw [List.map_map]
  rfl

/-- A plain attribute in front of a bound one and another plain one of the same name. -/
def plainBefore : List Char :=
  "<template><p foo=\"a\" :foo=\"b\" foo=\"c\"></p></template>".toList

/-- The last attribute is said to repeat the second one, although the first one sets the name too. -/
theorem not_first_plainBefore : ∃ checks element first second third, rule.checks? Regex.engine [] = some checks ∧
    (File.ofSource Script.Dialect.language plainBefore).document.element? 2 = some element ∧
      element.attributes = [first, second, third] ∧
    element.attributes.map nameSet? = [some "foo", some "foo", some "foo"] ∧ first.span ≠ second.span ∧
    ((lintFile [⟨info, .error, checks⟩] (.ofSource Script.Dialect.language plainBefore)).diagnostics.filter
      (·.report.span = third.span)).map
      (fun diagnostic => diagnostic.report.labels.map Label.span) = [[second.span]] := by
  have hholds : (((File.ofSource Script.Dialect.language plainBefore).document.element? 2).any fun element =>
      element.attributes.map nameSet? == [some "foo", some "foo", some "foo"] &&
        element.attributes.map Attribute.span == [⟨13, 20⟩, ⟨21, 29⟩, ⟨30, 37⟩]) = true := by
    decide +kernel
  have hreports : ((runOver (.ofSource Script.Dialect.language plainBefore)
      [⟨info, .error, { watches := [.elements (check ⟨true, true⟩)] }⟩]).diagnostics.toList.filter
        (·.report.span = ⟨30, 37⟩)).map (fun diagnostic => diagnostic.report.labels.map Label.span) = [[⟨21, 29⟩]] := by
    decide +kernel
  obtain ⟨element, helement, hattributes⟩ := (Option.any_eq_true _ _).1 hholds
  rw [Bool.and_eq_true, beq_iff_eq, beq_iff_eq] at hattributes
  obtain ⟨hnames, hspans⟩ := hattributes
  obtain ⟨first, second, third, heq⟩ := List.length_eq_three.1 (by simpa using congrArg List.length hnames)
  rw [heq, List.map_cons, List.map_cons, List.map_cons, List.map_nil] at hspans
  injection hspans with hfirst hspans
  injection hspans with hsecond hspans
  injection hspans with hthird
  refine ⟨_, element, first, second, third, rfl, helement, heq, hnames, by rw [hfirst, hsecond]; decide, ?_⟩
  rw [hsecond, hthird]
  refine List.perm_singleton.1 (.trans (((List.mergeSort_perm _ _).filter _).map _) (.of_eq ?_))
  exact hreports

end ComponentLint.Rules.DuplicateAttributes
