import ComponentLint.Lint.Run
import ComponentLint.Proofs.Sorting

/-!
# Rules do not interfere

The rules of a run are called in turn and report into one list. `restrict` cuts a run down to the rules whose names pass a
test, and what they have reported. Cutting a run down before a call or after it comes to the same (`call_restrict`), so a
run of some of the rules is what is left of the run of all.
-/

namespace ComponentLint

open Markup

namespace ActiveRule

variable {languages : Script.Languages}

/-- A report as it is found in the end: under the name of the rule and at its level. -/
def issue (rule : ActiveRule) (report : Report) : Diagnostic :=
  ⟨rule.info.name, rule.level, report⟩

/-- Stamping changes the diagnostics of a range of indices. -/
theorem getElem?_foldl_stamp (rule : ActiveRule) (first count : Nat) (diagnostics : Array Diagnostic) (index : Nat) :
    ((List.range' first count).foldl (fun noted i => noted.modify i rule.stamp) diagnostics)[index]? =
      diagnostics[index]?.map fun diagnostic =>
        if first ≤ index ∧ index < first + count then rule.stamp diagnostic else diagnostic := by
  induction count generalizing first diagnostics with
  | zero =>
    have hnone : ¬ (first ≤ index ∧ index < first) := by omega
    simp [hnone]
  | succ count ih =>
    rw [List.range'_succ, List.foldl_cons, ih, Array.getElem?_modify]
    cases diagnostics[index]? with
    | none => simp
    | some diagnostic =>
      by_cases heq : first = index
      · subst heq
        rw [if_pos rfl, Option.map_some, Option.map_some, Option.map_some, if_neg (by omega), if_pos (by omega)]
      · have hiff : (first + 1 ≤ index ∧ index < first + 1 + count) ↔ (first ≤ index ∧ index < first + (count + 1)) := by omega
        rw [if_neg heq, Option.map_some, Option.map_some]
        simp only [hiff]

/-- Stamping from the end of a list on leaves the list as it is, and stamps what was added to it. -/
theorem stampFrom_append (rule : ActiveRule) (diagnostics new : Array Diagnostic) :
    rule.stampFrom diagnostics.size (diagnostics ++ new) = diagnostics ++ new.map rule.stamp := by
  apply Array.ext_getElem?
  intro index
  rw [stampFrom, getElem?_foldl_stamp, Array.size_append, Nat.add_sub_cancel_left, Array.getElem?_append,
    Array.getElem?_append]
  by_cases hlt : index < diagnostics.size
  · have hnot : ¬ (diagnostics.size ≤ index ∧ index < diagnostics.size + new.size) := by omega
    simp [hlt, hnot]
  · rw [if_neg hlt, if_neg hlt, Array.getElem?_map]
    cases hnew : new[index - diagnostics.size]? with
    | none => rfl
    | some diagnostic =>
      obtain ⟨hsize, _⟩ := Array.getElem?_eq_some_iff.1 hnew
      have hin : diagnostics.size ≤ index ∧ index < diagnostics.size + new.size := by omega
      simp [hin]

end ActiveRule

/-- What a rule keeps in mind and has reported after calls, by itself. -/
def Callback.runAll : List Callback → Memory → Memory × List Report
  | [], memory => (memory, [])
  | callback :: rest, memory =>
    let (next, reports) := callback.run memory
    let (last, others) := runAll rest next
    (last, reports ++ others)

/-- Each report comes from one of the calls. -/
theorem Callback.mem_runAll {calls : List Callback} {memory : Memory} {report : Report}
    (h : report ∈ (runAll calls memory).2) : ∃ callback ∈ calls, ∃ before, report ∈ (callback.run before).2 := by
  induction calls generalizing memory with
  | nil => cases h
  | cons callback rest ih =>
    rcases List.mem_append.1 h with hfirst | hrest
    · exact ⟨callback, List.mem_cons_self, memory, hfirst⟩
    · obtain ⟨other, hother, before, hreport⟩ := ih hrest
      exact ⟨other, List.mem_cons_of_mem _ hother, before, hreport⟩

namespace RunningRule

/-- A call depends on the memory of the rule only, and adds what the rule reports. -/
theorem dispatch_eq (running : RunningRule) (diagnostics : Array Diagnostic) (callback : Callback) :
    dispatch (running, diagnostics) callback =
      (⟨running.rule, (callback.run running.memory).1⟩,
       diagnostics ++ ((callback.run running.memory).2.map running.rule.issue).toArray) := by
  have hstamped := running.rule.stampFrom_append diagnostics ((callback.run running.memory).2.map running.rule.note).toArray
  rw [List.map_toArray, List.map_map] at hstamped
  exact Prod.ext rfl hstamped

/-- The calls of one rule after another one's do not depend on it. -/
theorem foldl_dispatch_eq (calls : List Callback) (running : RunningRule) (diagnostics : Array Diagnostic) :
    calls.foldl dispatch (running, diagnostics) =
      (⟨running.rule, (Callback.runAll calls running.memory).1⟩,
       diagnostics ++ ((Callback.runAll calls running.memory).2.map running.rule.issue).toArray) := by
  induction calls generalizing running diagnostics with
  | nil => simp [Callback.runAll]
  | cons callback rest ih =>
    rw [List.foldl_cons, dispatch_eq, ih]
    simp [Callback.runAll]

/-- A rule after calls. -/
def after (calls : ActiveRule → List Callback) (running : RunningRule) : RunningRule :=
  ⟨running.rule, (Callback.runAll (calls running.rule) running.memory).1⟩

/-- What a rule issues in calls. -/
def issued (calls : ActiveRule → List Callback) (running : RunningRule) : Array Diagnostic :=
  ((Callback.runAll (calls running.rule) running.memory).2.map running.rule.issue).toArray

theorem callEach_cons (calls : ActiveRule → List Callback) (running : RunningRule) (rest : List RunningRule)
    (diagnostics : Array Diagnostic) :
    callEach calls (running :: rest) diagnostics =
      (running.after calls :: (callEach calls rest (diagnostics ++ running.issued calls)).1,
       (callEach calls rest (diagnostics ++ running.issued calls)).2) := by
  rw [callEach, foldl_dispatch_eq]
  rfl

/-- What a rule issues is under its name, so a test of the name keeps all of it or nothing. -/
theorem filter_issued (keep : String → Bool) (calls : ActiveRule → List Callback) (running : RunningRule) :
    (running.issued calls).filter (keep ·.rule) = if keep running.rule.info.name then running.issued calls else #[] := by
  apply Array.toList_inj.1
  rw [Array.toList_filter, issued]
  generalize (Callback.runAll (calls running.rule) running.memory).2 = reports
  split
  · rename_i hkeep
    exact List.filter_eq_self.2 fun diagnostic hd => by
      obtain ⟨report, _, rfl⟩ := List.mem_map.1 hd
      exact hkeep
  · rename_i hkeep
    exact List.filter_eq_nil_iff.2 fun diagnostic hd => by
      obtain ⟨report, _, rfl⟩ := List.mem_map.1 hd
      exact hkeep

/-- Calling each rule leaves the rules what they are. -/
theorem callEach_rules (calls : ActiveRule → List Callback) (rules : List RunningRule) (diagnostics : Array Diagnostic) :
    (callEach calls rules diagnostics).1.map (·.rule) = rules.map (·.rule) := by
  induction rules generalizing diagnostics with
  | nil => rfl
  | cons running rest ih =>
    rw [callEach_cons, List.map_cons, List.map_cons, ih]
    rfl

/-- A diagnostic that was not there before is issued by one of the rules, from a report of one of its calls. -/
theorem mem_callEach {calls : ActiveRule → List Callback} {rules : List RunningRule} {diagnostics : Array Diagnostic}
    {diagnostic : Diagnostic} (h : diagnostic ∈ (callEach calls rules diagnostics).2) :
    diagnostic ∈ diagnostics ∨ ∃ running ∈ rules, ∃ callback ∈ calls running.rule, ∃ memory,
      ∃ report ∈ (callback.run memory).2, diagnostic = running.rule.issue report := by
  induction rules generalizing diagnostics with
  | nil => exact Or.inl h
  | cons running rest ih =>
    rw [callEach_cons] at h
    rcases ih h with hmem | ⟨other, hother, hrest⟩
    · rcases Array.mem_append.1 hmem with hold | hnew
      · exact Or.inl hold
      · obtain ⟨report, hreport, rfl⟩ := List.mem_map.1 (List.mem_toArray.1 hnew)
        obtain ⟨callback, hcallback, memory, hrun⟩ := Callback.mem_runAll hreport
        exact Or.inr ⟨running, List.mem_cons_self, callback, hcallback, memory, report, hrun, rfl⟩
    · exact Or.inr ⟨other, List.mem_cons_of_mem _ hother, hrest⟩

/-- Calling some of the rules gives what calling all of them gives, cut down to these rules. -/
theorem callEach_filter (keep : String → Bool) (calls : ActiveRule → List Callback) (rules : List RunningRule)
    (diagnostics : Array Diagnostic) :
    callEach calls (rules.filter fun running => keep running.rule.info.name) (diagnostics.filter (keep ·.rule)) =
      ((callEach calls rules diagnostics).1.filter fun running => keep running.rule.info.name,
       (callEach calls rules diagnostics).2.filter (keep ·.rule)) := by
  induction rules generalizing diagnostics with
  | nil => rfl
  | cons running rest ih =>
    have hnext := ih (diagnostics ++ running.issued calls)
    rw [Array.filter_append Array.size_append, filter_issued] at hnext
    rw [callEach_cons, List.filter_cons, List.filter_cons]
    have hname : (running.after calls).rule.info.name = running.rule.info.name := rfl
    rw [hname]
    split
    · rename_i hkeep
      rw [if_pos hkeep] at hnext
      rw [callEach_cons, hnext]
    · rename_i hkeep
      rw [if_neg hkeep, Array.append_empty] at hnext
      exact hnext

end RunningRule

/-! ## Runs -/

namespace LintRun

/-- The part of a run that belongs to the rules whose names pass a test. -/
def restrict (keep : String → Bool) (run : LintRun) : LintRun :=
  ⟨run.rules.filter fun running => keep running.rule.info.name, run.diagnostics.filter (keep ·.rule)⟩

theorem start_restrict (keep : String → Bool) (rules : List ActiveRule) :
    (start rules).restrict keep = start (rules.filter fun rule => keep rule.info.name) := by
  simp only [restrict, start, List.filter_map]
  rfl

/-- A run can be cut down before a call or after it. -/
theorem call_restrict (keep : String → Bool) (calls : ActiveRule → List Callback) (run : LintRun) :
    (run.call calls).restrict keep = (run.restrict keep).call calls := by
  have hcalls := RunningRule.callEach_filter keep calls run.rules run.diagnostics
  simp only [call, restrict] at hcalls ⊢
  rw [hcalls]

/-- A walk can be cut down before it starts or when it has ended. -/
theorem foldl_call_restrict {α : Type} (keep : String → Bool) (calls : α → ActiveRule → List Callback) (visits : List α)
    (run : LintRun) :
    (visits.foldl (fun run visit => run.call (calls visit)) run).restrict keep =
      visits.foldl (fun run visit => run.call (calls visit)) (run.restrict keep) := by
  induction visits generalizing run with
  | nil => rfl
  | cons visit visits ih => rw [List.foldl_cons, List.foldl_cons, ih, call_restrict]

end LintRun

/-- The run of some rules is what is left of the run of all when it is cut down to them. -/
theorem runOver_restrict (keep : String → Bool) (file : File) (rules : List ActiveRule) :
    (runOver file rules).restrict keep = runOver file (rules.filter fun rule => keep rule.info.name) := by
  rw [runOver, LintRun.call_restrict, LintRun.foldl_call_restrict, LintRun.start_restrict]
  rfl

/-- The diagnostics of a run of some rules are those of the run of all that are under the names of these rules. -/
theorem lintFile_filter (keep : String → Bool) (file : File) (rules : List ActiveRule) :
    (lintFile (rules.filter fun rule => keep rule.info.name) file).diagnostics =
      (lintFile rules file).diagnostics.filter (keep ·.rule) := by
  have hrun := congrArg LintRun.diagnostics (runOver_restrict keep file rules)
  rw [lintFile, lintFile, ← hrun, LintRun.restrict, Array.toList_filter]
  have trans : ∀ a b c : Diagnostic, a.le b → b.le c → a.le c := fun a b c => Span.le_trans _ _ _
  have total : ∀ a b : Diagnostic, a.le b || b.le a := fun a b => Span.le_total _ _
  exact (filter_mergeSort trans total _ _).symm

/-! ## Where diagnostics come from -/

/-- Whether a rule reports something in one of the calls of a run: at a visit of the walk, or after it. -/
def ActiveRule.Reports (file : File) (rule : ActiveRule) (report : Report) : Prop :=
  ∃ callback memory, ((∃ visit ∈ file.visits, callback ∈ rule.callsAt file visit) ∨ callback ∈ rule.lastCalls file) ∧
    report ∈ (callback.run memory).2

namespace LintRun

/-- The rules of a run are those it was started with, and every diagnostic is issued by one of them. -/
structure Issued (file : File) (rules : List ActiveRule) (run : LintRun) : Prop where
  started : run.rules.map (·.rule) = rules
  issued : ∀ diagnostic ∈ run.diagnostics, ∃ rule ∈ rules, rule.Reports file diagnostic.report ∧
    diagnostic = rule.issue diagnostic.report

theorem start_issued (file : File) (rules : List ActiveRule) : (start rules).Issued file rules :=
  ⟨by simp [start, Function.comp_def], fun diagnostic hd => by simp [start] at hd⟩

/-- A call of the rules issues what they report. -/
theorem call_issued {file : File} {rules : List ActiveRule} {run : LintRun} (h : run.Issued file rules)
    {calls : ActiveRule → List Callback}
    (hcalls : ∀ rule callback memory report, callback ∈ calls rule → report ∈ (callback.run memory).2 →
      rule.Reports file report) : (run.call calls).Issued file rules := by
  refine ⟨?_, fun diagnostic hd => ?_⟩
  · exact (RunningRule.callEach_rules calls run.rules run.diagnostics).trans h.started
  · rcases RunningRule.mem_callEach hd with hold | ⟨running, hrunning, callback, hcallback, memory, report, hreport, rfl⟩
    · exact h.issued diagnostic hold
    · exact ⟨running.rule, h.started ▸ List.mem_map_of_mem hrunning,
        hcalls running.rule callback memory report hcallback hreport, rfl⟩

/-- So does a walk. -/
theorem foldl_call_issued {file : File} {rules : List ActiveRule} (visits : List (NodeId × Phase))
    (hvisits : ∀ visit ∈ visits, visit ∈ file.visits) {run : LintRun} (h : run.Issued file rules) :
    (visits.foldl (fun run visit => run.call (·.callsAt file visit)) run).Issued file rules := by
  induction visits generalizing run with
  | nil => exact h
  | cons visit visits ih =>
    refine ih (fun other ho => hvisits other (List.mem_cons_of_mem _ ho)) (call_issued h ?_)
    intro rule callback memory report hcallback hreport
    exact ⟨callback, memory, Or.inl ⟨visit, hvisits visit List.mem_cons_self, hcallback⟩, hreport⟩

end LintRun

theorem runOver_issued (file : File) (rules : List ActiveRule) : (runOver file rules).Issued file rules := by
  refine LintRun.call_issued (LintRun.foldl_call_issued file.visits (fun _ hv => hv) (LintRun.start_issued file rules)) ?_
  intro rule callback memory report hcallback hreport
  exact ⟨callback, memory, Or.inr hcallback, hreport⟩

/-! ## Independence -/

/-- Of rules with different names, only one has the name of a rule. -/
theorem filter_name_eq_singleton {rules : List ActiveRule} (hnames : (rules.map (·.info.name)).Nodup) {rule : ActiveRule}
    (h : rule ∈ rules) : (rules.filter fun other => decide (other.info.name = rule.info.name)) = [rule] := by
  induction rules with
  | nil => cases h
  | cons first rest ih =>
    obtain ⟨hfirst, hrest⟩ := List.nodup_cons.1 hnames
    rcases List.mem_cons.1 h with rfl | hmem
    · have hnone : (rest.filter fun other => decide (other.info.name = rule.info.name)) = [] := by
        refine List.filter_eq_nil_iff.2 fun other ho heq => hfirst ?_
        exact List.mem_map.2 ⟨other, ho, of_decide_eq_true heq⟩
      rw [List.filter_cons_of_pos (by simp), hnone]
    · have hne : ¬ first.info.name = rule.info.name :=
        fun heq => hfirst (List.mem_map.2 ⟨rule, hmem, heq.symm⟩)
      rw [List.filter_cons_of_neg (by simpa using hne)]
      exact ih hrest hmem

/-- Rules of different names do not interfere. What a run finds under the name of a rule is what the rule finds alone; every
diagnostic is under the name and at the level of a rule that reported it; the diagnostics are in the order of their spans;
and a run without a rule finds what is left when the diagnostics of that rule are taken out. -/
theorem lintFile_independent {rules : List ActiveRule} (hnames : (rules.map (·.info.name)).Nodup) (file : File) :
    (∀ rule ∈ rules, ((lintFile rules file).diagnostics.filter fun d => d.rule = rule.info.name) =
      (lintFile [rule] file).diagnostics) ∧
    (∀ diagnostic ∈ (lintFile rules file).diagnostics, ∃ rule ∈ rules, rule.Reports file diagnostic.report ∧
      diagnostic.rule = rule.info.name ∧ diagnostic.level = rule.level) ∧
    ((lintFile rules file).diagnostics.Pairwise fun a b => a.report.span.le b.report.span = true) ∧
    ∀ rule ∈ rules, (lintFile (rules.filter fun other => other.info.name ≠ rule.info.name) file).diagnostics =
      (lintFile rules file).diagnostics.filter fun d => d.rule ≠ rule.info.name := by
  refine ⟨fun rule hrule => ?_, fun diagnostic hd => ?_, ?_, fun rule hrule => ?_⟩
  · rw [← filter_name_eq_singleton hnames hrule]
    exact (lintFile_filter (fun name => decide (name = rule.info.name)) file rules).symm
  · obtain ⟨rule, hrule, hreports, hissue⟩ := (runOver_issued file rules).issued diagnostic
      (Array.mem_toList_iff.1 (List.mem_mergeSort.1 hd))
    rw [hissue]
    exact ⟨rule, hrule, hreports, rfl, rfl⟩
  · exact (stablyOrdered_mergeSort (fun d : Diagnostic => d.report.span) _).sorted
  · exact lintFile_filter (fun name => decide (name ≠ rule.info.name)) file rules

/-- Two rules that are called at the same elements, of which the first keeps something in mind. -/
def elementRules : List ActiveRule :=
  [⟨Rules.ContentBreaks.info, .error, (Rules.ContentBreaks.rule.checks? Regex.engine []).getD {}⟩,
   ⟨Rules.DuplicateAttributes.info, .warning, (Rules.DuplicateAttributes.rule.checks? Regex.engine []).getD {}⟩]

/-- A template with something for each of them. -/
def elementFile : File :=
  .ofSource Script.Dialect.language "<template><div a=\"1\" a=\"2\">x</div><pre b b><p c>y</p></pre></template>".toList

theorem lintFile_elementRules : (elementRules.map (·.info.name)).Nodup ∧
    (∀ rule ∈ elementRules, ((lintFile elementRules elementFile).diagnostics.filter fun d => d.rule = rule.info.name) =
      (lintFile [rule] elementFile).diagnostics) ∧
    (∀ diagnostic ∈ (lintFile elementRules elementFile).diagnostics, ∃ rule ∈ elementRules,
      rule.Reports elementFile diagnostic.report ∧ diagnostic.rule = rule.info.name ∧ diagnostic.level = rule.level) ∧
    ((lintFile elementRules elementFile).diagnostics.Pairwise fun a b => a.report.span.le b.report.span = true) ∧
    ∀ rule ∈ elementRules,
      (lintFile (elementRules.filter fun other => other.info.name ≠ rule.info.name) elementFile).diagnostics =
        (lintFile elementRules elementFile).diagnostics.filter fun d => d.rule ≠ rule.info.name :=
  ⟨by decide, lintFile_independent (by decide) elementFile⟩

end ComponentLint
