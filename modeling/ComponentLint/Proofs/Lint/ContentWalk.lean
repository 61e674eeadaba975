import ComponentLint.Proofs.Lint.Walk
import ComponentLint.Rules.ContentBreaks
import Mathlib.Data.List.Flatten

/-!
# Walking past elements that are left alone

The rule on line breaks around content is shown every element twice, and keeps in mind the element that it
leaves alone. What it keeps in mind after the visits under a node is what it kept in mind before them
(`runAll_visits`), so a walk through a whole template ends as it started, and the elements that are checked are
those of the template that are neither left alone nor under one that is (`mem_lookedAt`).
-/

namespace ComponentLint

open Text Markup

variable {languages : Script.Languages}

/-- Calls that each leave in mind what was there report one after the other. -/
theorem Callback.runAll_flatMap {ids : List NodeId} {calls : NodeId → List Callback} {reports : NodeId → List Report}
    {memory : Memory} (h : ∀ id ∈ ids, runAll (calls id) memory = (memory, reports id)) :
    runAll (ids.flatMap calls) memory = (memory, ids.flatMap reports) := by
  induction ids with
  | nil => rfl
  | cons id ids ih =>
    obtain ⟨hfirst, hrest⟩ := List.forall_mem_cons.1 h
    rw [List.flatMap_cons, runAll_append, hfirst, ih hrest, List.flatMap_cons]

namespace Rules.ContentBreaks

/-- The rule with settings, at a level. -/
def ruleWith (settings : Settings) (level : Level) : ActiveRule :=
  ⟨info, level,
    { watches :=
        [{ selector := .element {}, react := fun file selection => ⟨enter settings file selection.node⟩ },
         { phase := .leave, selector := .element {}, react := fun _ selection => ⟨leave selection.node⟩ }] }⟩

/-- Whether a node is an element that is to be left alone. -/
def leavesAlone (settings : Settings) (file : File) (id : NodeId) : Bool :=
  (file.document.element? id).any settings.ignoresElement

/-- What is reported of a node that is looked at. -/
def reportsAt (settings : Settings) (file : File) (id : NodeId) : List Report :=
  match file.document.element? id with
  | some element => check settings file element
  | none => []

/-- The nodes that are looked at on the way down from a node: an element that is left alone hides all that is in it. -/
def lookedAt (settings : Settings) (file : File) : Nat → NodeId → List NodeId
  | 0, _ => []
  | fuel + 1, id =>
    if leavesAlone settings file id then [] else id :: (file.document.children id).flatMap (lookedAt settings file fuel)

/-! ## One visit -/

section Visits

variable (settings : Settings) (level : Level) (source : List Char)

/-- The call that a visit of an element asks for. -/
def callAt (file : File) (id : NodeId) : Phase → Callback
  | .enter => ⟨enter settings file id⟩
  | .leave => ⟨leave id⟩

/-- The rule is called at elements only: as they are entered, and as they are left. -/
theorem callsAt_ruleWith (file : File) (id : NodeId) (phase : Phase) :
    (ruleWith settings level).callsAt file (id, phase) =
      match file.document.element? id with
      | some _ => [callAt settings file id phase]
      | none => [] := by
  simp only [ActiveRule.callsAt, ruleWith, List.flatMap_cons, List.flatMap_nil, Selector.select, Document.element?]
  cases hnode : file.document.node? id with
  | none => cases phase <;> simp
  | some node =>
    obtain ⟨number, parent, children, span, kind⟩ := node
    cases kind with
    | element element => cases phase <;> simp [ElementPattern.accepts, callAt]
    | root | text | comment | interpolation _ => cases phase <;> simp

/-! ## All visits under a node -/

/-- The calls of the visits under a node. -/
def callsWithin (file : File) (fuel : Nat) (id : NodeId) : List Callback :=
  (file.document.visitsWithin fuel id).flatMap ((ruleWith settings level).callsAt file)

theorem callsWithin_succ (file : File) (fuel : Nat) (id : NodeId) :
    callsWithin settings level file (fuel + 1) id =
      (ruleWith settings level).callsAt file (id, .enter) ++
        ((file.document.children id).flatMap (callsWithin settings level file fuel) ++
          (ruleWith settings level).callsAt file (id, .leave)) := by
  simp only [callsWithin, Document.visitsWithin, List.flatMap_append, List.flatMap_cons, List.flatMap_nil, List.append_nil,
    List.flatMap_assoc, List.cons_append]
  rfl

/-- The visits under a node leave in mind what was there, and report of the nodes that are looked at unless an
element above is left alone. -/
theorem runAll_visits (fuel : Nat) {id : NodeId} {memory : Memory} (habove : ∀ other ∈ memory.ignored, other < id) :
    Callback.runAll (callsWithin settings level (.ofSource languages source) fuel id) memory =
      (memory, if memory.ignored.isSome then [] else
        (lookedAt settings (.ofSource languages source) fuel id).flatMap (reportsAt settings (.ofSource languages source))) := by
  induction fuel generalizing id memory with
  | zero => simp [callsWithin, Document.visitsWithin, Callback.runAll, lookedAt]
  | succ fuel ih =>
    have hshape := File.shaped_ofSource languages source
    -- The children are numbered above the node, so the node may be kept in mind while they are visited.
    have hbelow : ∀ memory : Memory, (∀ other ∈ memory.ignored, other ≤ id) →
        Callback.runAll (((File.ofSource languages source).document.children id).flatMap
          (callsWithin settings level (.ofSource languages source) fuel)) memory =
        (memory, ((File.ofSource languages source).document.children id).flatMap fun child =>
          if memory.ignored.isSome then [] else
            (lookedAt settings (.ofSource languages source) fuel child).flatMap
              (reportsAt settings (.ofSource languages source))) := by
      intro memory hle
      refine Callback.runAll_flatMap fun child hchild => ih fun other hother => ?_
      have hlt := (hshape.parentOf_lt (hshape.mem_children.1 hchild)).1
      exact Nat.lt_of_le_of_lt (hle other hother) hlt
    have hkept := hbelow memory fun other hother => Nat.le_of_lt (habove other hother)
    rw [callsWithin_succ, Callback.runAll_append, Callback.runAll_append, callsAt_ruleWith, callsAt_ruleWith]
    cases helement : (File.ofSource languages source).document.element? id with
    | none =>
      have hlooked : leavesAlone settings (.ofSource languages source) id = false := by simp [leavesAlone, helement]
      simp only [Callback.runAll, hkept, List.nil_append, List.append_nil]
      by_cases hinside : memory.ignored.isSome = true
      · simp [hinside]
      · simp [hinside, lookedAt, hlooked, reportsAt, helement, List.flatMap_assoc]
    | some element =>
      simp only [Callback.runAll, callAt, List.append_nil]
      by_cases hinside : memory.ignored.isSome = true
      · obtain ⟨other, hother⟩ := Option.isSome_iff_exists.1 hinside
        have hne : other ≠ id := Nat.ne_of_lt (habove other hother)
        simp [enter, leave, hkept, hother, hne]
      · have hnone : memory.ignored = none := by simpa using hinside
        by_cases halone : settings.ignoresElement element = true
        · have hlooked : leavesAlone settings (.ofSource languages source) id = true := by simp [leavesAlone, helement, halone]
          have hhidden := hbelow { memory with ignored := some id } (by simp)
          simp [enter, leave, helement, hinside, halone, hhidden, lookedAt, hlooked, ← hnone]
        · have hlooked : leavesAlone settings (.ofSource languages source) id = false := by
            simpa [leavesAlone, helement] using halone
          simp [enter, leave, helement, halone, hkept, hnone, lookedAt, hlooked, reportsAt, List.flatMap_assoc]

end Visits

/-! ## The nodes that are looked at -/

/-- Whether a node of the template is left alone, itself or with an element of the template that it is in. -/
def LeftAlone (settings : Settings) (file : File) (id : NodeId) : Prop :=
  ∃ other element, file.InTemplate other ∧ Above file.document.nodes other id ∧ file.document.element? other = some element ∧
    settings.ignoresElement element = true

section Nodes

variable {settings : Settings} {source : List Char}

/-- The nodes under one of two children of a node are not under the other one. -/
theorem child_unique {id first second under : NodeId} (hsize : under < (File.ofSource languages source).document.nodes.size)
    (hfirst : parentOf (File.ofSource languages source).document.nodes first = some id)
    (hsecond : parentOf (File.ofSource languages source).document.nodes second = some id)
    (hunder : Above (File.ofSource languages source).document.nodes first under)
    (hunder' : Above (File.ofSource languages source).document.nodes second under) : first = second := by
  have hshape := File.shaped_ofSource languages source
  have hle := hshape.above_le hunder
  have hle' := hshape.above_le hunder'
  rcases Nat.lt_trichotomy first second with hlt | heq | hlt
  · have hbefore := hshape.lt_of_children hfirst hsecond hlt hunder hsize
    omega
  · exact heq
  · have hbefore := hshape.lt_of_children hsecond hfirst hlt hunder' hsize
    omega

/-- Whether no node on the way from a node down to another one is left alone. -/
def Unhidden (settings : Settings) (file : File) (id under : NodeId) : Prop :=
  ∀ other, Above file.document.nodes id other → Above file.document.nodes other under → leavesAlone settings file other = false

theorem unhidden_self {id : NodeId} :
    Unhidden settings (.ofSource languages source) id id ↔ leavesAlone settings (.ofSource languages source) id = false := by
  have hshape := File.shaped_ofSource languages source
  constructor
  · intro h
    exact h id .refl .refl
  · intro halone other hother hother'
    obtain rfl := Nat.le_antisymm (hshape.above_le hother) (hshape.above_le hother')
    exact halone

/-- The way down from a node goes through one of its children. -/
theorem unhidden_child {id child under : NodeId} (hsize : under < (File.ofSource languages source).document.nodes.size)
    (hparent : parentOf (File.ofSource languages source).document.nodes child = some id)
    (hunder : Above (File.ofSource languages source).document.nodes child under) :
    Unhidden settings (.ofSource languages source) id under ↔
      leavesAlone settings (.ofSource languages source) id = false ∧
        Unhidden settings (.ofSource languages source) child under := by
  have hstep : Above (File.ofSource languages source).document.nodes id child := .step hparent .refl
  constructor
  · intro h
    exact ⟨h id .refl (hstep.trans hunder), fun other hother hother' => h other (hstep.trans hother) hother'⟩
  · rintro ⟨halone, h⟩ other hother hother'
    by_cases hsame : other = id
    · rw [hsame]
      exact halone
    · obtain ⟨sibling, hsibling, hbetween⟩ := hother.exists_child hsame
      obtain rfl := child_unique hsize hsibling hparent (hbetween.trans hother') hunder
      exact h other hbetween hother'

theorem mem_lookedAt {fuel id : Nat} (hid : id < (File.ofSource languages source).document.nodes.size)
    (hfuel : (File.ofSource languages source).document.nodes.size ≤ fuel + id) (under : NodeId) :
    under ∈ lookedAt settings (.ofSource languages source) fuel id ↔
      under < (File.ofSource languages source).document.nodes.size ∧
        Above (File.ofSource languages source).document.nodes id under ∧
        Unhidden settings (.ofSource languages source) id under := by
  have hshape := File.shaped_ofSource languages source
  induction fuel generalizing id with
  | zero => omega
  | succ fuel ih =>
    have hchild : ∀ child ∈ (File.ofSource languages source).document.children id,
      (under ∈ lookedAt settings (.ofSource languages source) fuel child ↔
        under < (File.ofSource languages source).document.nodes.size ∧
          Above (File.ofSource languages source).document.nodes child under ∧
          Unhidden settings (.ofSource languages source) child under) := by
      intro child hmem
      obtain ⟨hlt, hsize⟩ := hshape.parentOf_lt (hshape.mem_children.1 hmem)
      exact ih hsize (by omega)
    rw [lookedAt]
    cases halone : leavesAlone settings (.ofSource languages source) id with
    | true =>
      refine iff_of_false nofun ?_
      rintro ⟨-, hunder, hnone⟩
      rw [hnone id .refl hunder] at halone
      cases halone
    | false =>
      rw [if_neg Bool.false_ne_true, List.mem_cons, List.mem_flatMap]
      constructor
      · rintro (rfl | ⟨child, hmem, hunder⟩)
        · exact ⟨hid, .refl, unhidden_self.2 halone⟩
        · obtain ⟨hsize, hunder, hnone⟩ := (hchild child hmem).1 hunder
          have hparent := hshape.mem_children.1 hmem
          exact ⟨hsize, .trans (.step hparent .refl) hunder, (unhidden_child hsize hparent hunder).2 ⟨halone, hnone⟩⟩
      · rintro ⟨hsize, hunder, hnone⟩
        by_cases hsame : under = id
        · exact .inl hsame
        · obtain ⟨child, hparent, hbetween⟩ := hunder.exists_child hsame
          have hmem := hshape.mem_children.2 hparent
          have hbelow := ((unhidden_child hsize hparent hbetween).1 hnone).2
          exact .inr ⟨child, hmem, (hchild child hmem).2 ⟨hsize, hbetween, hbelow⟩⟩

/-- The nodes that are looked at are entered. -/
theorem lookedAt_sublist (settings : Settings) (file : File) (fuel : Nat) (id : NodeId) :
    (lookedAt settings file fuel id).Sublist (enteredIn (file.document.visitsWithin fuel id)) := by
  induction fuel generalizing id with
  | zero => exact List.nil_sublist _
  | succ fuel ih =>
    rw [lookedAt, enteredIn_visitsWithin_succ]
    split
    · exact List.nil_sublist _
    · exact (List.Sublist.flatMap_right _ fun child _ => ih child).cons_cons id

end Nodes

/-! ## The whole run -/

/-- The nodes of the template that are looked at. -/
def looked (settings : Settings) (file : File) : List NodeId :=
  match file.component.template with
  | some template => lookedAt settings file file.document.size template
  | none => []

variable (settings : Settings) (level : Level) (source : List Char)

theorem nodup_looked : (looked settings (.ofSource languages source)).Nodup := by
  have hentered := (File.entered_spec languages source).1
  unfold looked
  cases htemplate : (File.ofSource languages source).component.template with
  | none => exact List.nodup_nil
  | some template =>
    simp only [File.entered, File.visits, htemplate] at hentered
    exact hentered.sublist (lookedAt_sublist settings _ _ template)

theorem mem_looked {id : NodeId} {element : Element}
    (helement : (File.ofSource languages source).document.element? id = some element) :
    id ∈ looked settings (.ofSource languages source) ↔
      (File.ofSource languages source).InTemplate id ∧ ¬LeftAlone settings (.ofSource languages source) id := by
  have hshape := File.shaped_ofSource languages source
  obtain ⟨node, hnode, -⟩ := Document.element?_eq_some_iff.1 helement
  have hsize : id < (File.ofSource languages source).document.nodes.size := (Array.getElem?_eq_some_iff.1 hnode).1
  unfold looked File.InTemplate LeftAlone
  cases htemplate : (File.ofSource languages source).component.template with
  | none => simp
  | some template =>
    have hlt := (hshape.parentOf_lt (File.parent_template htemplate)).2
    have hunique : ∀ other, (File.ofSource languages source).InTemplate other ↔
        Above (File.ofSource languages source).document.nodes template other := by
      intro other
      simp [File.InTemplate, htemplate]
    have hmem := @mem_lookedAt languages settings source (File.ofSource languages source).document.size template hlt
      (Nat.le_add_right _ _) id
    rw [hmem]
    unfold Unhidden
    simp only [hunique, Option.some.injEq, exists_eq_left', hsize, true_and, not_exists, not_and]
    refine and_congr_right fun _ => forall_congr' fun other => ?_
    simp only [leavesAlone, Bool.eq_false_iff, ne_eq, Option.any_eq_true, not_exists, not_and]
    constructor
    · intro hnone element' hother hunder helement'
      exact hnone hother hunder element' helement'
    · intro hnone hother hunder element' helement'
      exact hnone element' hother hunder helement'

/-- The rule has nothing in mind when the walk has ended, and has reported of the nodes that are looked at. -/
theorem runOver_ruleWith :
    (runOver (.ofSource languages source) [ruleWith settings level]).rules = [⟨ruleWith settings level, {}⟩] ∧
      (runOver (.ofSource languages source) [ruleWith settings level]).diagnostics.toList =
        ((looked settings (.ofSource languages source)).flatMap (reportsAt settings (.ofSource languages source))).map
          (ruleWith settings level).issue := by
  have hlast : (ruleWith settings level).lastCalls (.ofSource languages source) = [[], []].map .reporting := rfl
  have hwalk : Callback.runAll ((File.ofSource languages source).visits.flatMap
    ((ruleWith settings level).callsAt (.ofSource languages source))) {} =
      ({}, (looked settings (.ofSource languages source)).flatMap (reportsAt settings (.ofSource languages source))) := by
    unfold File.visits looked
    cases htemplate : (File.ofSource languages source).component.template with
    | none => rfl
    | some template => exact runAll_visits settings level source _ nofun
  rw [runOver_alone, LintRun.alone, Callback.runAll_append, hwalk, hlast, Callback.runAll_reporting]
  simp

end Rules.ContentBreaks

end ComponentLint
