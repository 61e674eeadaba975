import ComponentLint.Proofs.Lint.Walk
import ComponentLint.Proofs.Markup.Nesting
import ComponentLint.Rules.LoopKey
import Mathlib.Data.List.Flatten
import Mathlib.Data.Set.Card

/-!
# Keys that are missing

A loop repeats its element and, if that renders nothing but its children and has no key, what its children repeat
(`Repeats`). The rule reports the elements of the platform that a loop repeats without a key, once for each loop that repeats
them (`lintFile_missingKeys`). So an element is reported exactly if a loop repeats it, but more than once if it carries a loop
that another one repeats (`not_once_nestedLoops`).
-/

namespace ComponentLint.Rules.LoopKey

open Text Markup

variable {languages : Script.Languages} {patterns : PatternEngine}

/-- Whether an element has a bound key. -/
def hasKey (element : Element) : Bool :=
  (element.directiveFor? "bind" "key").isSome

/-- Whether a node is an element that renders nothing but its children and has no key, so that these need keys if it does. -/
def opens (document : Document) (id : NodeId) : Bool :=
  (document.element? id).any fun element => !hasKey element && isTransparent element

/-- Whether a node is an element of the platform that has no key. -/
def lacksKey (document : Document) (id : NodeId) : Bool :=
  (document.element? id).any fun element => !hasKey element && !isTransparent element && !element.isComponent

/-- Whether a node carries a loop. -/
def carriesLoop (document : Document) (id : NodeId) : Bool :=
  (document.element? id).any (·.hasDirective "for")

/-- What is repeated along with a node. -/
inductive Repeats (document : Document) : NodeId → NodeId → Prop where
  | self (id : NodeId) : Repeats document id id
  | child {id child under : NodeId} (hopens : opens document id = true) (hchild : parentOf document.nodes child = some id)
      (h : Repeats document child under) : Repeats document id under

/-- The loops of the template that repeat an element of the platform that has no key. -/
def loopsOver (file : File) (id : NodeId) : Set NodeId :=
  {loop | file.InTemplate loop ∧ carriesLoop file.document loop = true ∧ Repeats file.document loop id ∧
    lacksKey file.document id = true}

/-- The report of an element without a key. -/
def keyReport (element : Element) : Report :=
  info.report "requireKey" element.startTag.span

/-! ## What a loop repeats -/

/-- The nodes of the elements without a key among those that a repeated node renders, at most `fuel` levels deep. -/
def keylessNodes (document : Document) : Nat → NodeId → List NodeId
  | 0, _ => []
  | fuel + 1, id =>
    if opens document id then (document.children id).flatMap (keylessNodes document fuel)
    else if lacksKey document id then [id]
    else []

theorem keyless_eq (document : Document) (fuel : Nat) (id : NodeId) :
    keyless document fuel id = (keylessNodes document fuel id).filterMap document.element? := by
  induction fuel generalizing id with
  | zero => rfl
  | succ fuel ih =>
    rw [keyless, keylessNodes, opens, lacksKey]
    cases helement : document.element? id with
    | none => rfl
    | some element =>
      change (if hasKey element = true then [] else _) = _
      cases hkey : hasKey element with
      | true => simp [hkey]
      | false =>
        cases htransparent : isTransparent element with
        | true => simp [hkey, htransparent, List.filterMap_flatMap, ← ih]
        | false => cases hcomponent : element.isComponent <;> simp [hkey, htransparent, hcomponent, helement]

/-- A walk down from a node meets the nodes that it repeats, in order. -/
theorem keylessNodes_sublist (document : Document) (fuel : Nat) (id : NodeId) :
    (keylessNodes document fuel id).Sublist (id :: document.descendantsWithin fuel id) := by
  induction fuel generalizing id with
  | zero => exact List.nil_sublist _
  | succ fuel ih =>
    rw [keylessNodes, Document.descendantsWithin]
    split
    · exact (List.Sublist.flatMap_right _ fun child _ => ih child).cons _
    · split
      · exact (List.nil_sublist _).cons_cons _
      · exact List.nil_sublist _

section Shape

variable {document : Document} {stack : List Nat}

theorem nodup_keylessNodes (h : Shaped document.nodes stack) {id : NodeId} (hid : id < document.nodes.size) :
    (keylessNodes document document.size id).Nodup := by
  obtain ⟨hsorted, hmem⟩ := h.descendantsWithin_spec hid (Nat.le_add_right document.size id)
  have hbelow : ∀ under ∈ document.descendantsWithin document.size id, id ≠ under :=
    fun under hunder => Ne.symm ((hmem under).1 hunder).1
  exact (List.nodup_cons.2 ⟨fun hself => hbelow id hself rfl, hsorted.imp Nat.ne_of_lt⟩).sublist
    (keylessNodes_sublist document document.size id)

theorem mem_keylessNodes (h : Shaped document.nodes stack) {fuel id : Nat} (hid : id < document.nodes.size)
    (hfuel : document.nodes.size ≤ fuel + id) (under : NodeId) :
    under ∈ keylessNodes document fuel id ↔ Repeats document id under ∧ lacksKey document under = true := by
  induction fuel generalizing id with
  | zero => omega
  | succ fuel ih =>
    have hchild : ∀ child ∈ document.children id, (under ∈ keylessNodes document fuel child ↔
        Repeats document child under ∧ lacksKey document under = true) := by
      intro child hmem
      obtain ⟨hlt, hsize⟩ := h.parentOf_lt (h.mem_children.1 hmem)
      exact ih hsize (by omega)
    -- An element that renders nothing but its children is not reported itself.
    have hself : opens document id = true → lacksKey document id = false := by
      unfold opens lacksKey
      cases document.element? id with
      | none => simp
      | some element => simp +contextual
    rw [keylessNodes]
    cases hopens : opens document id with
    | true =>
      rw [if_pos rfl, List.mem_flatMap]
      constructor
      · rintro ⟨child, hmem, hunder⟩
        obtain ⟨hrepeats, hlacks⟩ := (hchild child hmem).1 hunder
        exact ⟨.child hopens (h.mem_children.1 hmem) hrepeats, hlacks⟩
      · rintro ⟨hrepeats, hlacks⟩
        cases hrepeats with
        | self =>
          rw [hself hopens] at hlacks
          cases hlacks
        | child _ hparent hrepeats =>
          have hmem := h.mem_children.2 hparent
          exact ⟨_, hmem, (hchild _ hmem).2 ⟨hrepeats, hlacks⟩⟩
    | false =>
      have honly : Repeats document id under ↔ under = id := by
        constructor
        · rintro (_ | ⟨hopen, -, -⟩)
          · rfl
          · rw [hopens] at hopen
            cases hopen
        · rintro rfl
          exact .self _
      rw [if_neg Bool.false_ne_true, honly]
      cases hlacks : lacksKey document id with
      | true =>
        rw [if_pos rfl, List.mem_singleton]
        exact ⟨fun heq => ⟨heq, heq ▸ hlacks⟩, And.left⟩
      | false =>
        refine iff_of_false nofun ?_
        rintro ⟨rfl, hunder⟩
        rw [hlacks] at hunder
        cases hunder

end Shape

/-! ## What is reported -/

/-- What a loop asks a key of, with the loop. -/
def missingAt (file : File) (loop : NodeId) : List (NodeId × NodeId) :=
  if carriesLoop file.document loop then (keylessNodes file.document file.document.size loop).map (loop, ·) else []

/-- The keys that are missing in a file: the loops that ask for them, and the nodes that lack them. -/
def missing (file : File) : List (NodeId × NodeId) :=
  file.entered.flatMap (missingAt file)

theorem flatten_checkedAt (file : File) (id : NodeId) :
    (checkedAt "for" check file id).flatten =
      (missingAt file id).filterMap fun pair => (file.document.element? pair.2).map keyReport := by
  have hcheck : ∀ element, check file id element =
      (keylessNodes file.document file.document.size id).filterMap fun under => (file.document.element? under).map keyReport := by
    intro element
    rw [check, keyless_eq, List.map_filterMap]
    rfl
  rw [checkedAt, missingAt, carriesLoop]
  cases file.document.element? id with
  | none => rfl
  | some element => cases helement : element.hasDirective "for" <;> simp [helement, hcheck, List.filterMap_map]

section Files

variable {source : List Char} {id loop : NodeId} {element other : Element}

theorem mem_missing : (loop, id) ∈ missing (.ofSource languages source) ↔ loop ∈ loopsOver (.ofSource languages source) id := by
  have hshape := File.shaped_ofSource languages source
  have hentered := (File.entered_spec languages source).2
  have hmem : ∀ loop, loop < (File.ofSource languages source).document.nodes.size →
    (id ∈ keylessNodes (File.ofSource languages source).document
      (File.ofSource languages source).document.size loop ↔ Repeats (File.ofSource languages source).document loop id ∧
        lacksKey (File.ofSource languages source).document id = true) :=
    fun loop hsize => mem_keylessNodes hshape hsize (Nat.le_add_right _ _) id
  simp only [missing, missingAt, List.mem_flatMap, hentered]
  constructor
  · rintro ⟨other, ⟨htemplate, hsize⟩, hpair⟩
    split at hpair
    · next hloop =>
      obtain ⟨under, hunder, heq⟩ := List.mem_map.1 hpair
      obtain ⟨rfl, rfl⟩ := Prod.mk.inj heq
      obtain ⟨hrepeats, hlacks⟩ := (hmem other hsize).1 hunder
      exact ⟨htemplate, hloop, hrepeats, hlacks⟩
    · cases hpair
  · rintro ⟨htemplate, hloop, hrepeats, hlacks⟩
    have hsize : loop < (File.ofSource languages source).document.nodes.size := by
      obtain ⟨element, helement, -⟩ := (Option.any_eq_true _ _).1 hloop
      obtain ⟨node, hnode, -⟩ := Document.element?_eq_some_iff.1 helement
      exact (Array.getElem?_eq_some_iff.1 hnode).1
    refine ⟨loop, ⟨htemplate, hsize⟩, ?_⟩
    rw [if_pos hloop]
    exact List.mem_map_of_mem ((hmem loop hsize).2 ⟨hrepeats, hlacks⟩)

theorem nodup_missing (source : List Char) : (missing (.ofSource languages source)).Nodup := by
  obtain ⟨hnodup, hmem⟩ := File.entered_spec languages source
  refine List.pairwise_flatMap.2 ⟨fun loop hloop => ?_, hnodup.imp ?_⟩
  · unfold missingAt
    split
    · exact (nodup_keylessNodes (File.shaped_ofSource languages source) ((hmem loop).1 hloop).2).map
        (Prod.mk_right_injective loop)
    · exact List.nodup_nil
  · intro first second hne pair hpair pair' hpair' heq
    have hfirst : ∀ {loop : NodeId} {pair}, pair ∈ missingAt (.ofSource languages source) loop → pair.1 = loop := by
      intro loop pair hpair
      unfold missingAt at hpair
      split at hpair
      · obtain ⟨under, -, rfl⟩ := List.mem_map.1 hpair
        rfl
      · cases hpair
    exact hne ((hfirst hpair).symm.trans (heq ▸ hfirst hpair'))

/-- Two elements have different start tags. -/
theorem keyReport_injective (helement : (File.ofSource languages source).document.element? id = some element)
    (hother : (File.ofSource languages source).document.element? loop = some other)
    (h : keyReport element = keyReport other) : id = loop := by
  by_contra hne
  have hspan : element.startTag.span = other.startTag.span := congrArg Report.span h
  have hnested := @parse_nested (languages ⟨Component.usesTypes source, false⟩) source _ _ _ _ helement hother hne
  obtain ⟨node, -, -, hfits, -⟩ := @exists_fits (languages ⟨Component.usesTypes source, false⟩) source _ _ helement
  obtain ⟨-, hlt, -⟩ := hfits.startTag
  rcases hnested.start_outside with hbefore | hbehind
  · rw [hspan] at hbefore
    omega
  · rw [← hspan] at hbehind
    omega

/-- The rule issues one diagnostic for each key that is missing. -/
theorem lintFile_perm (languages : Script.Languages) {options : List Json}
    {checks : Checks} (h : rule.checks? patterns options = some checks) (level : Level)
    (source : List Char) :
    (lintFile [⟨info, level, checks⟩] (.ofSource languages source)).diagnostics.Perm
      ((missing (.ofSource languages source)).filterMap fun pair =>
      ((File.ofSource languages source).document.element? pair.2).map fun element => ⟨info.name, level, keyReport element⟩) := by
  have hchecks : (⟨info, level, checks⟩ : ActiveRule).checks = { watches := [.elementsWith "for" check] } :=
    (Option.some.inj h).symm
  have hdiagnostics := diagnostics_elementsWith hchecks (.ofSource languages source)
  rw [List.flatten_eq_flatMap, List.flatMap_assoc] at hdiagnostics
  simp only [List.flatMap_id, flatten_checkedAt] at hdiagnostics
  rw [← List.filterMap_flatMap, List.map_filterMap] at hdiagnostics
  rw [lintFile, hdiagnostics]
  refine (List.mergeSort_perm _ _).trans (.of_eq (congrArg (List.filterMap · _) (funext fun pair => ?_)))
  rw [Option.map_map]
  rfl

/-- The loops that repeat an element without a key, each once. -/
theorem exists_loops (source : List Char) (id : NodeId) :
    ∃ loops : List NodeId, loops.Nodup ∧ (∀ loop, loop ∈ loops ↔ loop ∈ loopsOver (.ofSource languages source) id) ∧
      (missing (.ofSource languages source)).countP (·.2 == id) = loops.length := by
  refine ⟨((missing (.ofSource languages source)).filter (·.2 == id)).map (·.1), ?_, fun loop => ?_, ?_⟩
  · refine (List.Nodup.filter _ (nodup_missing source)).map_on fun pair hpair other hother heq => ?_
    have hpair_eq := eq_of_beq (List.mem_filter.1 hpair).2
    have hother_eq := eq_of_beq (List.mem_filter.1 hother).2
    exact Prod.ext heq (hpair_eq.trans hother_eq.symm)
  · rw [← mem_missing]
    simp
  · rw [List.length_map, List.countP_eq_length_filter]

end Files

/-! ## The whole run -/

/-- The rule reports the elements of the platform without a key that are repeated, each as often as there are loops that repeat
it. So an element is reported exactly if a loop repeats it: its own, or one that is carried above it by an element from which
only elements lead down to it that render nothing but their children and have no key. -/
theorem lintFile_missingKeys {options : List Json}
    {checks : Checks} (h : rule.checks? patterns options = some checks) (level : Level)
    (source : List Char) :
    let file := File.ofSource languages source
    let result := lintFile [⟨info, level, checks⟩] file
    (∀ diagnostic ∈ result.diagnostics, ∃ id element, file.document.element? id = some element ∧
      diagnostic = ⟨info.name, level, keyReport element⟩) ∧
    ∀ id element, file.document.element? id = some element →
      result.diagnostics.count ⟨info.name, level, keyReport element⟩ = (loopsOver file id).ncard ∧
        (⟨info.name, level, keyReport element⟩ ∈ result.diagnostics ↔ (loopsOver file id).Nonempty) := by
  intro file result
  have hperm := lintFile_perm languages h level source
  refine ⟨fun diagnostic hdiagnostic => ?_, fun id element helement => ?_⟩
  · obtain ⟨pair, -, hpair⟩ := List.mem_filterMap.1 (hperm.mem_iff.1 hdiagnostic)
    obtain ⟨element, helement, rfl⟩ := Option.map_eq_some_iff.1 hpair
    exact ⟨pair.2, element, helement, rfl⟩
  · obtain ⟨loops, hnodup, hmem, hcount⟩ := exists_loops source id
    have hloops : loopsOver file id = loops.toFinset := by
      ext loop
      rw [List.coe_toFinset, Set.mem_ofPred_eq, hmem]
    have hone : ∀ pair : NodeId × NodeId, ((file.document.element? pair.2).map fun found =>
        (⟨info.name, level, keyReport found⟩ : Diagnostic)) == some ⟨info.name, level, keyReport element⟩ ↔ pair.2 == id := by
      intro pair
      rw [beq_iff_eq, beq_iff_eq, Option.map_eq_some_iff]
      constructor
      · rintro ⟨found, hfound, heq⟩
        exact keyReport_injective hfound helement (congrArg Diagnostic.report heq)
      · rintro rfl
        exact ⟨element, helement, rfl⟩
    have hlength : result.diagnostics.count ⟨info.name, level, keyReport element⟩ = loops.length := by
      rw [hperm.count_eq, List.count_filterMap, ← hcount]
      exact List.countP_congr fun pair _ => hone pair
    refine ⟨?_, ?_⟩
    · rw [hlength, hloops, Set.ncard_coe_finset, List.toFinset_card_of_nodup hnodup]
    · rw [← List.count_pos_iff, hlength, List.length_pos_iff_exists_mem]
      exact exists_congr hmem

/-- A loop on elements that render nothing but their children, with a component, an element with a key and one without. -/
def listedRows : List Char :=
  "<template><template v-for=\"row in rows\"><slot><row-view/><p :key=\"row\"/><p/></slot></template></template>".toList

/-- Only the element of the platform that has no key is reported, and one loop repeats it. -/
theorem lintFile_missingKeys_listedRows : ∃ checks element, rule.checks? Regex.engine [] = some checks ∧
    (File.ofSource Script.Dialect.language listedRows).document.element? 6 = some element ∧
    (lintFile [⟨info, .error, checks⟩] (.ofSource Script.Dialect.language listedRows)).diagnostics =
      [⟨info.name, .error, keyReport element⟩] ∧
    (loopsOver (.ofSource Script.Dialect.language listedRows) 6).ncard = 1 := by
  have hchecks : rule.checks? Regex.engine [] = some { watches := [.elementsWith "for" check] } := rfl
  have hholds : ((File.ofSource Script.Dialect.language listedRows).document.element? 6).any fun element =>
      (lintFile [⟨info, .error, { watches := [.elementsWith "for" check] }⟩]
        (.ofSource Script.Dialect.language listedRows)).diagnostics ==
        [⟨info.name, .error, keyReport element⟩] := by
    decide +kernel
  obtain ⟨element, helement, hdiagnostics⟩ := (Option.any_eq_true _ _).1 hholds
  obtain ⟨hcount, -⟩ := (lintFile_missingKeys hchecks .error listedRows).2 6 element helement
  refine ⟨_, element, hchecks, helement, eq_of_beq hdiagnostics, hcount.symm.trans ?_⟩
  rw [eq_of_beq hdiagnostics]
  exact List.count_singleton_self

/-- A loop on an element that carries a loop itself. -/
def nestedLoops : List Char :=
  "<template><template v-for=\"row in rows\"><p v-for=\"cell in row\"></p></template></template>".toList

/-- Both loops repeat the inner element, so its start tag is reported twice. -/
theorem not_once_nestedLoops : ∃ checks element, rule.checks? Regex.engine [] = some checks ∧
    (File.ofSource Script.Dialect.language nestedLoops).document.element? 3 = some element ∧
    (lintFile [⟨info, .error, checks⟩] (.ofSource Script.Dialect.language nestedLoops)).diagnostics.count
      ⟨info.name, .error, keyReport element⟩ = 2 := by
  have hholds : ((File.ofSource Script.Dialect.language nestedLoops).document.element? 3).any fun element =>
      (runOver (.ofSource Script.Dialect.language nestedLoops)
        [⟨info, .error, { watches := [.elementsWith "for" check] }⟩]).diagnostics.toList.count
        ⟨info.name, .error, keyReport element⟩ == 2 := by
    decide +kernel
  obtain ⟨element, helement, hcount⟩ := (Option.any_eq_true _ _).1 hholds
  exact ⟨_, element, rfl, helement, ((List.mergeSort_perm _ _).count_eq _).trans (eq_of_beq hcount)⟩

end ComponentLint.Rules.LoopKey
