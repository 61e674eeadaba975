import ComponentLint.Lint.FixLoop
import ComponentLint.Proofs.Fix.Splice
import ComponentLint.Proofs.Lint.ScriptRules

/-!
# Fixing ends where nothing is left to fix

A pass that makes no fix had none to make: of fixes in order the first is always made, since a fix of a sound report ends in
the text. So fixing stops before its last pass only at a text with problems, or at one in which no fix is found; there it
stops at once when it is started again.
-/

namespace ComponentLint

open Text

variable {languages : Script.Languages} {patterns : PatternEngine}

/-! ## A pass makes a fix if there is one -/

namespace FixPass

/-- Considering a fix never lowers the number of fixes made. -/
theorem applied_le_take (source : List Char) (pass : FixPass) (fix : Fix) :
    pass.applied ≤ (pass.take source fix).applied := by
  unfold take
  split
  · exact Nat.le_succ _
  · exact Nat.le_refl _

theorem applied_le_foldl (source : List Char) (fixes : List Fix) (pass : FixPass) :
    pass.applied ≤ (fixes.foldl (take source) pass).applied := by
  induction fixes generalizing pass with
  | nil => exact Nat.le_refl _
  | cons fix fixes ih => exact Nat.le_trans (applied_le_take source pass fix) (ih _)

/-- The first fix is made if it ends in the text. -/
theorem take_start_applied {source : List Char} {fix : Fix} (h : fix.span.stop ≤ byteLength source) :
    (start.take source fix).applied = 1 := by
  have hadmits : start.admits (byteLength source) fix = true := by simp [admits, start, h]
  rw [take, if_pos hadmits]
  rfl

end FixPass

theorem Fix.Drafted.span_stop_le {text : List Char} {trusted : Prop} {fix : Fix} (h : fix.Drafted text trusted) :
    fix.span.stop ≤ byteLength text := by
  rcases fix.span_stop_cases with ⟨hnil, _⟩ | ⟨edit, hedit, hstop⟩
  · exact absurd hnil h.nonempty
  · exact hstop ▸ h.bounded edit hedit

/-- A pass that changes nothing had nothing to make. -/
theorem Fix.eq_nil_of_not_changed {source : List Char} {fixes : List Fix}
    (hfixes : ∀ fix ∈ fixes, fix.span.stop ≤ byteLength source) (h : (applyAll source fixes).changed = false) :
    fixes = [] := by
  have hperm : (sorted fixes).Perm fixes := List.mergeSort_perm _ _
  cases hsorted : sorted fixes with
  | nil => exact (hsorted ▸ hperm).symm.eq_nil
  | cons first rest =>
    have hfirst : first ∈ fixes := hperm.subset (hsorted ▸ List.mem_cons_self)
    have hmade := FixPass.applied_le_foldl source rest (FixPass.start.take source first)
    rw [FixPass.take_start_applied (hfixes first hfirst)] at hmade
    simp only [FixedText.changed, applyAll, hsorted, List.foldl_cons, FixPass.finish, decide_eq_false_iff_not,
      Nat.not_lt] at h
    omega

/-- A pass without fixes changes nothing. -/
theorem Fix.not_changed_nil (source : List Char) : (applyAll source []).changed = false := by
  simp [applyAll, sorted, FixedText.changed, FixPass.finish, FixPass.start]

/-! ## The loop -/

namespace FixOutcome

/-- What fixing a text with some rules and a number of passes comes to. -/
structure Reached (languages : Script.Languages) (rules : List ActiveRule) (limit : Nat) (source : List Char)
    (outcome : FixOutcome) : Prop where
  result : outcome.result = lintWith languages rules outcome.output
  passes_le : outcome.passes ≤ limit
  malformed : (lintWith languages rules source).problems ≠ [] → outcome.output = source ∧ outcome.passes = 0 ∧ outcome.fixed = 0
  passes_le_fixed : outcome.passes ≤ outcome.fixed
  stable : outcome.passes < limit → outcome.result.problems = [] → outcome.result.fixes = []

end FixOutcome

/-- One pass, or none where a text has problems or nothing to fix; then the rest of the passes. -/
theorem fixWithin_reached {rules : List ActiveRule}
    (hrules : ∀ source, ∀ fix ∈ (lintWith languages rules source).fixes, fix.span.stop ≤ byteLength source) (limit : Nat)
    (source : List Char) : (fixWithin languages rules limit source).Reached languages rules limit source := by
  induction limit generalizing source with
  | zero => exact ⟨rfl, Nat.le_refl _, fun _ => ⟨rfl, rfl, rfl⟩, Nat.le_refl _, fun hlt => absurd hlt (Nat.lt_irrefl 0)⟩
  | succ limit ih =>
    unfold fixWithin
    dsimp only
    split
    · next hproblems =>
      refine ⟨rfl, Nat.zero_le _, fun _ => ⟨rfl, rfl, rfl⟩, Nat.le_refl _, fun _ hnone => ?_⟩
      rw [show (lintWith languages rules source).problems = [] from hnone] at hproblems
      cases hproblems
    · next hproblems =>
      have hnone : (lintWith languages rules source).problems = [] := by simpa using hproblems
      split
      · next hchanged =>
        have hrest := ih (Fix.applyAll source (lintWith languages rules source).fixes).output
        have hmade : 0 < (Fix.applyAll source (lintWith languages rules source).fixes).applied := of_decide_eq_true hchanged
        refine ⟨hrest.result, Nat.succ_le_succ hrest.passes_le, fun hsome => absurd hnone hsome, ?_,
          fun hlt => hrest.stable (Nat.lt_of_succ_lt_succ hlt)⟩
        have hfixed := hrest.passes_le_fixed
        dsimp only
        omega
      · next hchanged =>
        refine ⟨rfl, Nat.zero_le _, fun _ => ⟨rfl, rfl, rfl⟩, Nat.le_refl _, fun _ _ => ?_⟩
        exact Fix.eq_nil_of_not_changed (hrules source) (by simpa using hchanged)

/-- A text without problems and fixes is left as it is. -/
theorem fixWithin_stable {rules : List ActiveRule} {source : List Char}
    (hproblems : (lintWith languages rules source).problems = [])
    (hfixes : (lintWith languages rules source).fixes = []) (limit : Nat) :
    fixWithin languages rules limit source = ⟨source, 0, 0, lintWith languages rules source⟩ := by
  cases limit with
  | zero => rfl
  | succ limit => simp [fixWithin, hproblems, hfixes, Fix.not_changed_nil]

/-- The fixes that the rules of a configuration find in a text end in it. -/
theorem Config.span_stop_le (languages : Script.Languages) {config : Config} {rules : List ActiveRule}
    (h : config.activeRules patterns = .ok rules)
    (source : List Char) : ∀ fix ∈ (lintWith languages rules source).fixes, fix.span.stop ≤ byteLength source := by
  intro fix hfix
  obtain ⟨diagnostic, hdiagnostic, hfound⟩ := List.mem_filterMap.1 hfix
  exact ((Config.lintWith_sound h source diagnostic hdiagnostic).fix fix hfound).span_stop_le

/-! ## Configurations -/

/-- What fixing a text under a configuration comes to: the result is what is found in the output, there are at most ten
passes and no more passes than fixes, a text with problems is left as it is, and if a pass was left over then nothing is
left to fix, so that fixing the output changes nothing. -/
structure FixOutcome.Settled (libraries : Libraries) (config : Config) (source : List Char) (outcome : FixOutcome) : Prop where
  result : config.lint libraries outcome.output = .ok outcome.result
  passes_le : outcome.passes ≤ 10
  malformed : ∀ found, config.lint libraries source = .ok found → found.problems ≠ [] →
    outcome.output = source ∧ outcome.passes = 0 ∧ outcome.fixed = 0
  passes_le_fixed : outcome.passes ≤ outcome.fixed
  stable : outcome.passes < 10 → outcome.result.problems = [] →
    (∀ diagnostic ∈ outcome.result.diagnostics, diagnostic.report.fix = none) ∧
      ∃ again, config.fix libraries outcome.output = .ok again ∧ again.output = outcome.output ∧ again.passes = 0

/-- Fixing fails only where the rules of the configuration cannot be turned on, whatever the text is; otherwise it
settles. -/
theorem Config.fix_settled (libraries : Libraries) (config : Config) (source : List Char) :
    (∀ error, config.fix libraries source = .error error ↔ config.activeRules libraries.patterns = .error error) ∧
      ∀ outcome, config.fix libraries source = .ok outcome → outcome.Settled libraries config source := by
  cases hrules : config.activeRules libraries.patterns with
  | error error =>
    have hfix : config.fix libraries source = .error error := by rw [Config.fix, hrules]; rfl
    rw [hfix]
    exact ⟨fun _ => by simp only [Except.error.injEq], nofun⟩
  | ok rules =>
    have hlint : ∀ text, config.lint libraries text = .ok (lintWith libraries.languages rules text) :=
      fun text => by rw [Config.lint, hrules]; rfl
    have hfix : ∀ text, config.fix libraries text = .ok (fixWithin libraries.languages rules passLimit text) := fun text => by
      rw [Config.fix, hrules]; rfl
    refine ⟨fun error => by simp [hfix source], fun outcome houtcome => ?_⟩
    rw [hfix source] at houtcome
    obtain rfl := Except.ok.inj houtcome
    have hreached := fixWithin_reached (config.span_stop_le libraries.languages hrules) passLimit source
    refine ⟨by rw [hlint, hreached.result], hreached.passes_le, fun found hfound hsome => ?_, hreached.passes_le_fixed,
      fun hlt hnone => ?_⟩
    · rw [hlint] at hfound
      exact hreached.malformed (Except.ok.inj hfound ▸ hsome)
    · have hfixes := hreached.stable hlt hnone
      refine ⟨List.filterMap_eq_nil_iff.1 hfixes, _, hfix _, ?_⟩
      rw [hreached.result] at hnone hfixes
      rw [fixWithin_stable hnone hfixes]
      exact ⟨rfl, rfl⟩

end ComponentLint
