import ComponentLint.Proofs.Lint.Independence
import ComponentLint.Proofs.Markup.Construction

/-!
# The walk of one rule

A rule that runs alone is called at the visits of the walk and then twice more, and what it reports is issued in that order
(`runOver_alone`). The walk enters the template and the nodes under it, each once (`File.entered_spec`). So a rule that only
reports what it finds at nodes, and behind the walk, issues exactly that (`diagnostics_reporting`): at elements or at those with a
directive (`diagnostics_elements`, `diagnostics_elementsWith`), in pieces of script (`diagnostics_fragments`), or in the scripts
alone (`diagnostics_scripts`).
-/

namespace ComponentLint

open Text Markup

variable {languages : Script.Languages}

/-! ## Calls -/

namespace Callback

/-- Calls after others start from what the others leave in mind. -/
theorem runAll_append (first second : List Callback) (memory : Memory) :
    runAll (first ++ second) memory =
      ((runAll second (runAll first memory).1).1, (runAll first memory).2 ++ (runAll second (runAll first memory).1).2) := by
  induction first generalizing memory with
  | nil => rfl
  | cons callback rest ih => simp [runAll, ih]

/-- Calls that only report keep nothing in mind. -/
theorem runAll_reporting (reports : List (List Report)) (memory : Memory) :
    runAll (reports.map reporting) memory = (memory, reports.flatten) := by
  induction reports with
  | nil => rfl
  | cons first rest ih => simp [runAll, reporting, ih]

end Callback

namespace LintRun

/-- A run of one rule after calls. -/
def alone (rule : ActiveRule) (calls : List Callback) : LintRun :=
  ⟨[⟨rule, (Callback.runAll calls {}).1⟩], ((Callback.runAll calls {}).2.map rule.issue).toArray⟩

theorem call_alone (rule : ActiveRule) (done : List Callback) (calls : ActiveRule → List Callback) :
    (alone rule done).call calls = alone rule (done ++ calls rule) := by
  simp [call, alone, RunningRule.callEach_cons, RunningRule.callEach, RunningRule.after, RunningRule.issued,
    Callback.runAll_append]

theorem foldl_call_alone {α : Type} (rule : ActiveRule) (calls : α → ActiveRule → List Callback) (visits : List α)
    (done : List Callback) :
    visits.foldl (fun run visit => run.call (calls visit)) (alone rule done) =
      alone rule (done ++ visits.flatMap fun visit => calls visit rule) := by
  induction visits generalizing done with
  | nil => simp
  | cons visit visits ih => rw [List.foldl_cons, call_alone, ih, List.flatMap_cons, List.append_assoc]

end LintRun

/-- A rule that runs alone is called at the visits of the walk, and then for what follows it. -/
theorem runOver_alone (file : File) (rule : ActiveRule) :
    runOver file [rule] = .alone rule (file.visits.flatMap (rule.callsAt file) ++ rule.lastCalls file) := by
  have hstart : LintRun.start [rule] = .alone rule [] := rfl
  rw [runOver, hstart, LintRun.foldl_call_alone rule (fun visit rule => rule.callsAt file visit), LintRun.call_alone,
    List.nil_append]

/-! ## Nodes that are entered -/

/-- The nodes that visits enter, in order. -/
def enteredIn (visits : List (NodeId × Phase)) : List NodeId :=
  (visits.filter (·.2 = .enter)).map (·.1)

/-- The nodes that the walk of a file enters. -/
def File.entered (file : File) : List NodeId :=
  enteredIn file.visits

theorem enteredIn_flatMap (ids : List NodeId) (visits : NodeId → List (NodeId × Phase)) :
    enteredIn (ids.flatMap visits) = ids.flatMap fun id => enteredIn (visits id) := by
  simp only [enteredIn, List.filter_flatMap, List.map_flatMap]

/-- A walk enters its start, and then what the walks of its children enter. -/
theorem enteredIn_visitsWithin_succ (document : Document) (fuel : Nat) (id : NodeId) :
    enteredIn (document.visitsWithin (fuel + 1) id) =
      id :: (document.children id).flatMap fun child => enteredIn (document.visitsWithin fuel child) := by
  rw [← enteredIn_flatMap]
  simp [Document.visitsWithin, enteredIn]

/-- A walk enters its start and the nodes under it. -/
theorem enteredIn_visitsWithin (document : Document) (fuel : Nat) (id : NodeId) :
    enteredIn (document.visitsWithin (fuel + 1) id) = id :: document.descendantsWithin fuel id := by
  induction fuel generalizing id with
  | zero => simp [Document.visitsWithin, Document.descendantsWithin, enteredIn]
  | succ fuel ih => simp only [enteredIn_visitsWithin_succ document (fuel + 1), ih, Document.descendantsWithin]

namespace File

/-- The template of a file, or a node under it. -/
def InTemplate (file : File) (id : NodeId) : Prop :=
  ∃ template, file.component.template = some template ∧ Above file.document.nodes template id

theorem shaped_ofSource (languages : Script.Languages) (source : List Char) :
    Shaped (ofSource languages source).document.nodes [0] :=
  parse_shaped (languages ⟨Component.usesTypes source, false⟩) source

/-- The template stands under the root. -/
theorem parent_template {source : List Char}
    {template : NodeId} (h : (ofSource languages source).component.template = some template) :
    parentOf (ofSource languages source).document.nodes template = some 0 := by
  refine (shaped_ofSource languages source).mem_children.1 ?_
  obtain ⟨block, hblock, rfl⟩ := Option.map_eq_some_iff.1 h
  obtain ⟨id, hid, hmap⟩ := List.mem_filterMap.1 (List.mem_of_find?_eq_some hblock)
  obtain ⟨element, -, rfl⟩ := Option.map_eq_some_iff.1 hmap
  exact hid

/-- A block in the template is the template itself. -/
theorem InTemplate.name_eq {source : List Char} {id : NodeId} (h : (ofSource languages source).InTemplate id)
    (htop : (ofSource languages source).document.parent? id = some 0) {element : Element}
    (helement : (ofSource languages source).document.element? id = some element) : element.name = "template" := by
  obtain ⟨template, htemplate, habove⟩ := h
  have hpos := ((shaped_ofSource languages source).parentOf_lt (parent_template htemplate)).1
  have hid : id = template := by
    cases habove with
    | refl => rfl
    | step hparent habove =>
      obtain rfl := Option.some.inj (htop.symm.trans hparent)
      have hle := (shaped_ofSource languages source).above_le habove
      omega
  subst hid
  obtain ⟨block, hblock, rfl⟩ := Option.map_eq_some_iff.1 htemplate
  obtain ⟨child, -, hchild⟩ := List.mem_filterMap.1 (List.mem_of_find?_eq_some hblock)
  obtain ⟨found, hfound, rfl⟩ := Option.map_eq_some_iff.1 hchild
  obtain rfl : found = element := Option.some.inj (hfound.symm.trans helement)
  have hname := List.find?_some hblock
  exact beq_iff_eq.1 hname

/-- The walk enters the nodes of the template, each once. -/
theorem entered_spec (languages : Script.Languages) (source : List Char) : (ofSource languages source).entered.Nodup ∧
    ∀ id, id ∈ (ofSource languages source).entered ↔ (ofSource languages source).InTemplate id ∧
      id < (ofSource languages source).document.nodes.size := by
  have hshape := shaped_ofSource languages source
  cases htemplate : (ofSource languages source).component.template with
  | none => simp [entered, visits, htemplate, enteredIn, InTemplate]
  | some template =>
    obtain ⟨hpos, hlt⟩ := hshape.parentOf_lt (parent_template htemplate)
    obtain ⟨fuel, hfuel⟩ := Nat.exists_eq_add_one.2 hshape.size_pos
    obtain ⟨hsorted, hmem⟩ := hshape.descendantsWithin_spec hlt (by omega : _ ≤ fuel + template)
    have hentered : (ofSource languages source).entered =
        template :: (ofSource languages source).document.descendantsWithin fuel template := by
      rw [← enteredIn_visitsWithin, ← hfuel, entered, visits, htemplate]
      rfl
    have hbelow : ∀ under ∈ (ofSource languages source).document.descendantsWithin fuel template, template < under := by
      intro under hunder
      obtain ⟨hne, -, habove⟩ := (hmem under).1 hunder
      exact Nat.lt_of_le_of_ne (hshape.above_le habove) (Ne.symm hne)
    rw [hentered]
    refine ⟨(List.pairwise_cons.2 ⟨hbelow, hsorted⟩).imp Nat.ne_of_lt, fun id => ?_⟩
    rw [List.mem_cons, hmem id]
    constructor
    · rintro (rfl | ⟨-, hid, habove⟩)
      · exact ⟨⟨_, htemplate, .refl⟩, hlt⟩
      · exact ⟨⟨_, htemplate, habove⟩, hid⟩
    · rintro ⟨⟨other, hother, habove⟩, hid⟩
      obtain rfl : template = other := Option.some.inj (htemplate.symm.trans hother)
      by_cases heq : id = template
      · exact .inl heq
      · exact .inr ⟨heq, hid, habove⟩

end File

/-! ## Rules that watch nodes or look at the scripts -/

/-- What is done at the visits that enter a node is done at the nodes that are entered. -/
theorem flatMap_enter {α : Type} (visits : List (NodeId × Phase)) (atNode : NodeId → List α) :
    (visits.flatMap fun visit => if visit.2 = .enter then atNode visit.1 else []) = (enteredIn visits).flatMap atNode := by
  induction visits with
  | nil => rfl
  | cons visit visits ih =>
    rw [List.flatMap_cons, ih]
    by_cases henter : visit.2 = .enter
    · simp [enteredIn, henter]
    · simp [enteredIn, henter]

/-- The calls of watches that are called as nodes are entered, if these only report. -/
theorem callsAt_reporting {rule : ActiveRule} {file : File} {found : NodeId → List (List Report)}
    (hphase : ∀ watch ∈ rule.checks.watches, watch.phase = .enter)
    (hfound : ∀ id, (rule.checks.watches.flatMap fun watch => (watch.selector.select file.document id).map (watch.react file)) =
      (found id).map .reporting) (visit : NodeId × Phase) :
    rule.callsAt file visit = (if visit.2 = .enter then found visit.1 else []).map .reporting := by
  rw [ActiveRule.callsAt]
  by_cases henter : visit.2 = .enter
  · rw [if_pos henter, ← hfound]
    exact List.flatMap_congr fun watch hwatch => if_pos ((hphase watch hwatch).trans henter.symm)
  · rw [if_neg henter, List.map_nil]
    exact List.flatMap_eq_nil_iff.2 fun watch hwatch => if_neg fun heq => henter (heq.symm.trans (hphase watch hwatch))

/-- A rule that only reports issues what it finds at the nodes that are entered, and then what it finds behind the walk. -/
theorem diagnostics_reporting {rule : ActiveRule} {watches : List Watch} {scripts closing : File → List Report}
    (h : rule.checks = ⟨watches, fun file => .reporting (scripts file), fun file => .reporting (closing file)⟩) {file : File}
    {found : NodeId → List (List Report)} (hphase : ∀ watch ∈ watches, watch.phase = .enter)
    (hfound : ∀ id, (watches.flatMap fun watch => (watch.selector.select file.document id).map (watch.react file)) =
      (found id).map .reporting) :
    (runOver file [rule]).diagnostics.toList =
      ((file.entered.flatMap found).flatten ++ (scripts file ++ closing file)).map rule.issue := by
  have hlast : rule.lastCalls file = [scripts file, closing file].map .reporting := by
    rw [ActiveRule.lastCalls, h]
    rfl
  have hcalls : file.visits.flatMap (rule.callsAt file) = (file.entered.flatMap found).map .reporting := by
    rw [File.entered, ← flatMap_enter, List.map_flatMap]
    have hwatches : rule.checks.watches = watches := by rw [h]
    rw [← hwatches] at hphase hfound
    exact congrArg file.visits.flatMap (funext (callsAt_reporting hphase hfound))
  rw [runOver_alone, LintRun.alone, hcalls, hlast, ← List.map_append, Callback.runAll_reporting]
  simp

/-- A rule with one watch that only reports issues what it finds at the nodes that are entered. -/
theorem diagnostics_watching {watch : Watch} {rule : ActiveRule} {file : File} {found : NodeId → List (List Report)}
    (h : rule.checks = { watches := [watch] }) (hphase : watch.phase = .enter)
    (hfound : ∀ id, (watch.selector.select file.document id).map (watch.react file) = (found id).map .reporting) :
    (runOver file [rule]).diagnostics.toList = (file.entered.flatMap found).flatten.map rule.issue := by
  have hdiagnostics := @diagnostics_reporting rule [watch] (fun _ => []) (fun _ => []) h file found (by simpa using hphase)
    (by simpa using hfound)
  rwa [List.append_nil, List.append_nil] at hdiagnostics

/-- A rule that only looks at the scripts issues what it finds there. -/
theorem diagnostics_scripts {check : File → List Report} {rule : ActiveRule}
    (h : rule.checks = { scripts := fun file => .reporting (check file) }) (file : File) :
    (runOver file [rule]).diagnostics.toList = (check file).map rule.issue := by
  have hdiagnostics := @diagnostics_reporting rule [] check (fun _ => []) h file (fun _ => []) nofun fun _ => rfl
  rwa [List.flatMap_eq_nil_iff.2 fun _ _ => rfl, List.flatten_nil, List.nil_append, List.append_nil] at hdiagnostics

/-! ## Pieces of script -/

/-- What a check of pieces of script reports of a node. -/
def reportedIn (check : File → NodeId → List Script.Node → List Report) (file : File) (id : NodeId) : List Report :=
  match file.document.node? id with
  | some node => check file id node.fragments
  | none => []

/-- The calls of a check of pieces of script that a node asks for: what each reports. Elements and interpolations are the nodes
that may have such pieces. -/
def checkedIn (check : File → NodeId → List Script.Node → List Report) (file : File) (id : NodeId) : List (List Report) :=
  match file.document.node? id with
  | some node =>
    match node.kind with
    | .element _ | .interpolation _ => [check file id node.fragments]
    | _ => []
  | none => []

/-- Elements and interpolations are selected, each once. -/
theorem flatMap_select_fragments (check : File → NodeId → List Script.Node → List Report) (file : File) (id : NodeId) :
    ((Watch.fragments check).flatMap fun watch => (watch.selector.select file.document id).map (watch.react file)) =
      (checkedIn check file id).map .reporting := by
  simp only [Watch.fragments, List.flatMap_cons, List.flatMap_nil, List.append_nil, Selector.select, checkedIn]
  cases hnode : file.document.node? id with
  | none => rfl
  | some node =>
    obtain ⟨number, parent, children, span, kind⟩ := node
    cases kind with
    | element element => simp [ElementPattern.accepts, hnode]
    | interpolation content => simp [hnode]
    | root | text | comment => rfl

/-- Nothing is reported of a node without pieces of script if nothing is reported where there are none. -/
theorem flatten_checkedIn {check : File → NodeId → List Script.Node → List Report} {file : File} {id : NodeId}
    (hnone : check file id [] = []) : (checkedIn check file id).flatten = reportedIn check file id := by
  unfold checkedIn reportedIn
  cases file.document.node? id with
  | none => rfl
  | some node =>
    obtain ⟨number, parent, children, span, kind⟩ := node
    cases kind with
    | element element => simp
    | interpolation content => simp
    | root | text | comment => simpa [Node.fragments] using hnone.symm

/-- A rule that looks at the pieces of script of a file reports what it finds in those of the nodes that are entered, and then
in the scripts. -/
theorem diagnostics_fragments {check : File → NodeId → List Script.Node → List Report} {last : File → List Report}
    {rule : ActiveRule} (h : rule.checks = { watches := Watch.fragments check, scripts := fun file => .reporting (last file) })
    {file : File} (hnone : ∀ id, check file id [] = []) :
    (runOver file [rule]).diagnostics.toList = (file.entered.flatMap (reportedIn check file) ++ last file).map rule.issue := by
  have hphase : ∀ watch ∈ Watch.fragments check, watch.phase = .enter := by simp [Watch.fragments]
  have hdiagnostics := @diagnostics_reporting rule _ last (fun _ => []) h file _ hphase (flatMap_select_fragments check file)
  rw [List.flatten_eq_flatMap, List.flatMap_assoc] at hdiagnostics
  simpa only [List.flatMap_id, flatten_checkedIn (hnone _), List.append_nil] using hdiagnostics

/-! ## Elements -/

/-- What a check of elements reports of a node. -/
def reportedAt (check : File → NodeId → Element → List Report) (file : File) (id : NodeId) : List Report :=
  match file.document.element? id with
  | some element => check file id element
  | none => []

/-- A rule that looks at all elements reports what it finds at the elements that are entered. -/
theorem diagnostics_elements {check : File → NodeId → Element → List Report} {rule : ActiveRule}
    (h : rule.checks = { watches := [.elements check] }) (file : File) :
    (runOver file [rule]).diagnostics.toList = (file.entered.flatMap (reportedAt check file)).map rule.issue := by
  have hfound : ∀ id, ((Watch.elements check).selector.select file.document id).map ((Watch.elements check).react file) =
      ((file.document.element? id).toList.map (check file id)).map .reporting := by
    intro id
    simp only [Watch.elements, Selector.select, Document.element?]
    cases hnode : file.document.node? id with
    | none => rfl
    | some node =>
      obtain ⟨number, parent, children, span, kind⟩ := node
      cases kind with
      | element element => simp [ElementPattern.accepts, hnode]
      | root | text | comment | interpolation _ => rfl
  have hreported : ∀ id, ((file.document.element? id).toList.map (check file id)).flatten = reportedAt check file id := by
    intro id
    unfold reportedAt
    cases file.document.element? id with
    | none => rfl
    | some element => simp
  rw [diagnostics_watching h rfl hfound, List.flatten_eq_flatMap, List.flatMap_assoc]
  simp only [List.flatMap_id, hreported]

/-- The calls of a check of elements with a directive that a node asks for: what each reports. -/
def checkedAt (directive : String) (check : File → NodeId → Element → List Report) (file : File) (id : NodeId) :
    List (List Report) :=
  match file.document.element? id with
  | some element => if element.hasDirective directive then [check file id element] else []
  | none => []

/-- An element with the directive is selected, and nothing else is. -/
theorem map_select_elementsWith (directive : String) (check : File → NodeId → Element → List Report) (file : File)
    (id : NodeId) :
    ((Watch.elementsWith directive check).selector.select file.document id).map
        ((Watch.elementsWith directive check).react file) = (checkedAt directive check file id).map .reporting := by
  simp only [Watch.elementsWith, Watch.elements, Selector.select, Document.element?, checkedAt]
  cases hnode : file.document.node? id with
  | none => rfl
  | some node =>
    obtain ⟨number, parent, children, span, kind⟩ := node
    cases kind with
    | element element =>
      by_cases hdirective : element.hasDirective directive = true
      · simp [ElementPattern.accepts, hdirective, hnode]
      · simp [ElementPattern.accepts, hdirective]
    | root | text | comment | interpolation _ => rfl

/-- A rule that looks at the elements with a directive reports what it finds at the elements that are entered. -/
theorem diagnostics_elementsWith {directive : String} {check : File → NodeId → Element → List Report} {rule : ActiveRule}
    (h : rule.checks = { watches := [.elementsWith directive check] }) (file : File) :
    (runOver file [rule]).diagnostics.toList =
      (file.entered.flatMap (checkedAt directive check file)).flatten.map rule.issue :=
  diagnostics_watching h rfl (map_select_elementsWith directive check file)

end ComponentLint
