import ComponentLint.Config.Basic
import ComponentLint.Proofs.Config.Options
import ComponentLint.Regex.Parser
import Mathlib.Data.List.Forall2

/-!
# Configurations can be run

However a configuration is built, each of its settings has the bare name of a rule and options that fit the rule's schema,
and no rule has two settings (`Config.Valid`). Such a configuration turns on the rules it does not turn off, in order,
unless the pattern of names that stay unused is no regular expression.
-/

namespace ComponentLint

variable {patterns : PatternEngine}

/-! ## Names of rules -/

namespace Rule

theorem bareName_name {rule : Rule} (h : rule ∈ all) : bareName rule.info.name = rule.info.name := by
  have hall : ∀ name ∈ all.map (·.info.name), bareName name = name := by decide
  exact hall _ (List.mem_map_of_mem h)

/-- A rule is found by its name: no two rules have the same. -/
theorem find?_name {rule : Rule} (h : rule ∈ all) : find? rule.info.name = some rule := by
  have hnames : all.Pairwise fun a b => a.info.name ≠ b.info.name := by
    have hnodup : (all.map (·.info.name)).Nodup := by decide
    exact List.pairwise_map.1 hnodup
  obtain ⟨before, after, hall⟩ := List.append_of_mem h
  rw [find?, bareName_name h, List.find?_eq_some_iff_append]
  refine ⟨by simp, before, after, hall, fun other hother => ?_⟩
  rw [hall] at hnames
  have hne := (List.pairwise_append.1 hnames).2.2 other hother rule List.mem_cons_self
  simpa using hne

theorem of_find? {name : String} {rule : Rule} (h : find? name = some rule) : rule ∈ all :=
  List.mem_of_find?_eq_some h

/-- What stands before a name is left out of it. -/
theorem afterMark?_append (mark rest : List Char) : Text.afterMark? mark (mark ++ rest) = some rest := by
  induction mark with
  | nil => simp [Text.afterMark?]
  | cons first mark ih => simp [Text.afterMark?, ih]

theorem bareName_qualifiedName (info : RuleInfo) : bareName info.qualifiedName = info.name := by
  rw [bareName, RuleInfo.qualifiedName, String.toList_append, afterMark?_append]
  exact String.ofList_toList

/-- No rule needs options. -/
theorem mismatch?_nil {rule : Rule} (h : rule ∈ all) : rule.info.schema.mismatch? (.arr []) = none := by
  have hall : ∀ schema ∈ all.map (·.info.schema), schema.mismatch? (.arr []) = none := by decide
  exact hall _ (List.mem_map_of_mem h)

end Rule

/-! ## Settings -/

/-- A setting under the name of a rule, with options that fit the rule's schema. -/
def RuleSettings.Fits (entry : String × Setting) : Prop :=
  ∃ rule ∈ Rule.all, rule.info.name = entry.1 ∧ rule.info.schema.mismatch? (.arr entry.2.options) = none

namespace RuleSettings

variable {name : String} {setting : Setting} {settings : RuleSettings}

/-- Settings with one more have that one and, of the others, only those they had. -/
theorem mem_put {entry : String × Setting} (h : entry ∈ put name setting settings) :
    entry = (name, setting) ∨ entry ∈ settings := by
  induction settings with
  | nil => simpa [put] using h
  | cons first settings ih =>
    obtain ⟨other, old⟩ := first
    by_cases hname : other = name
    · simp only [put, hname, BEq.rfl, if_true, List.mem_cons] at h
      rcases h with h | h
      · exact .inl h
      · exact .inr (List.mem_cons_of_mem _ h)
    · simp only [put, beq_iff_eq, hname, if_false, List.mem_cons] at h
      rcases h with h | h
      · exact .inr (h ▸ List.mem_cons_self)
      · rcases ih h with h | h
        · exact .inl h
        · exact .inr (List.mem_cons_of_mem _ h)

/-- A rule that has a setting keeps its place, and one that has none goes to the end. -/
theorem map_put : (put name setting settings).map (·.1) =
    if name ∈ settings.map (·.1) then settings.map (·.1) else settings.map (·.1) ++ [name] := by
  induction settings with
  | nil => rfl
  | cons first settings ih =>
    obtain ⟨other, old⟩ := first
    by_cases hname : other = name
    · simp [put, hname]
    · have hname' : name ≠ other := Ne.symm hname
      simp only [put, beq_iff_eq, hname, if_false, List.map_cons, ih, List.mem_cons, hname', false_or]
      split
      · rfl
      · rfl

theorem nodup_put (h : (settings.map (·.1)).Nodup) : ((put name setting settings).map (·.1)).Nodup := by
  rw [map_put]
  split
  · exact h
  · next hname =>
    refine List.nodup_append.2 ⟨h, by simp, fun a ha b hb => ?_⟩
    obtain rfl := List.mem_singleton.1 hb
    intro heq
    exact hname (heq ▸ ha)

end RuleSettings

namespace Config

/-- A configuration that gives one setting to each of the rules it names, with options that fit. -/
structure Valid (config : Config) : Prop where
  names : (config.rules.map (·.1)).Nodup
  fits : ∀ entry ∈ config.rules, RuleSettings.Fits entry

variable {config next : Config}

theorem valid_empty : empty.Valid :=
  ⟨List.nodup_nil, by simp [empty]⟩

theorem Valid.put (h : config.Valid) {name : String} {setting : Setting} (hfits : RuleSettings.Fits (name, setting)) :
    Valid ⟨RuleSettings.put name setting config.rules⟩ := by
  refine ⟨RuleSettings.nodup_put h.names, fun entry hentry => ?_⟩
  rcases RuleSettings.mem_put hentry with rfl | hentry
  · exact hfits
  · exact h.fits entry hentry

/-! ## What each way of changing a configuration keeps -/

theorem Valid.setRule (h : config.Valid) {name : String} {setting : Setting} (hset : config.setRule name setting = .ok next) :
    next.Valid := by
  unfold Config.setRule at hset
  split at hset
  · cases hset
  · next rule hrule =>
    split at hset
    · cases hset
    · next hfits =>
      cases hset
      exact h.put ⟨rule, Rule.of_find? hrule, rfl, hfits⟩

/-- What every step keeps, a run of steps keeps. -/
theorem foldlM_kept {α β ε : Type} {step : β → α → Except ε β} {Kept : β → Prop}
    (hstep : ∀ before item after, Kept before → step before item = .ok after → Kept after) {items : List α}
    {start stop : β} (hstart : Kept start) (h : items.foldlM step start = .ok stop) : Kept stop := by
  induction items generalizing start with
  | nil =>
    obtain rfl := Except.ok.inj h
    exact hstart
  | cons item items ih =>
    rw [List.foldlM_cons] at h
    cases hitem : step start item with
    | error cause => simp [hitem, bind, Except.bind] at h
    | ok middle =>
      simp only [hitem, bind, Except.bind] at h
      exact ih (hstep start item middle hstart hitem) h

theorem Valid.extend (h : config.Valid) {name : String} (hextend : config.extend name = .ok next) : next.Valid := by
  unfold Config.extend at hextend
  split at hextend
  · cases hextend
  · exact foldlM_kept (fun _ _ _ hbefore hset => hbefore.setRule hset) h hextend

theorem Valid.setValue (h : config.Valid) {name : String} {value : Json} (hset : config.setValue name value = .ok next) :
    next.Valid := by
  unfold Config.setValue at hset
  split at hset
  · cases hset
  · exact h.setRule hset

theorem Valid.applyObject (h : config.Valid) {members : List (String × Json)}
    (happly : config.applyObject members = .ok next) : next.Valid := by
  unfold Config.applyObject at happly
  split at happly
  · cases happly
  · next layer _ =>
    cases hextend : layer.extend.foldlM Config.extend config with
    | error cause => simp [hextend, bind, Except.bind] at happly
    | ok extended =>
      simp only [hextend, bind, Except.bind] at happly
      have hextended : extended.Valid := foldlM_kept (fun _ _ _ hbefore hset => hbefore.extend hset) h hextend
      exact foldlM_kept (fun _ _ _ hbefore hset => hbefore.setValue hset) hextended happly

theorem Valid.applyEntry (h : config.Valid) {entry : Json} (happly : config.applyEntry entry = .ok next) : next.Valid := by
  cases entry with
  | str name => exact h.extend happly
  | obj members => exact h.applyObject happly
  | null | bool _ | num _ | arr _ => cases happly

theorem valid_ofJson {value : Json} (h : ofJson value = .ok config) : config.Valid := by
  cases value with
  | arr entries => exact foldlM_kept (fun _ _ _ hbefore happly => hbefore.applyEntry happly) valid_empty h
  | obj members => exact valid_empty.applyObject h
  | null | bool _ | num _ | str _ => cases h

/-- Presets name rules of the catalog and give them no options. -/
theorem of_mem_presetRules {preset : Preset} {entry : String × Setting} (h : entry ∈ preset.rules) :
    ∃ rule ∈ Rule.all, entry.1 = rule.info.qualifiedName ∧ entry.2.options = [] := by
  obtain ⟨step, -, hstep⟩ := List.mem_flatMap.1 h
  unfold Preset.ownRules at hstep
  split at hstep
  · obtain ⟨rule, hrule, rfl⟩ := List.mem_map.1 hstep
    exact ⟨rule, (List.mem_filter.1 hrule).1, rfl, rfl⟩
  · cases hstep

theorem valid_standard : standard.Valid := by
  have hrun : ∀ (entries settings : RuleSettings), (∀ entry ∈ entries, entry ∈ Preset.recommended.rules) →
      Valid ⟨settings⟩ →
      Valid ⟨entries.foldl (fun rules entry => RuleSettings.put (Rule.bareName entry.1) entry.2 rules) settings⟩ := by
    intro entries
    induction entries with
    | nil => exact fun settings _ hvalid => hvalid
    | cons entry entries ih =>
      intro settings hentries hvalid
      refine ih _ (fun other hother => hentries other (List.mem_cons_of_mem _ hother)) (hvalid.put ?_)
      obtain ⟨rule, hrule, hname, hoptions⟩ := of_mem_presetRules (hentries entry List.mem_cons_self)
      refine ⟨rule, hrule, ?_, ?_⟩
      · rw [hname, Rule.bareName_qualifiedName]
      · rw [hoptions]
        exact Rule.mismatch?_nil hrule
  exact hrun _ _ (fun _ hentry => hentry) valid_empty

theorem valid_ofText {text : String} (h : ofText text = .ok config) : config.Valid := by
  unfold ofText at h
  split at h
  · cases h
    exact valid_standard
  · split at h
    · exact valid_ofJson h
    · cases h

/-- Gives a setting to a rule, or leaves the configuration as it is where that fails. -/
def trySetRule (config : Config) (name : String) (setting : Setting) : Config :=
  match config.setRule name setting with
  | .ok next => next
  | .error _ => config

/-- The configurations that can be built: a start and then settings one by one. -/
inductive Built : Config → Prop where
  | empty : Built empty
  | standard : Built standard
  | ofPreset {name : String} {config : Config} (h : ofPreset name = .ok config) : Built config
  | ofJson {value : Json} {config : Config} (h : ofJson value = .ok config) : Built config
  | ofText {text : String} {config : Config} (h : ofText text = .ok config) : Built config
  | setRule {config : Config} (name : String) (setting : Setting) (h : Built config) : Built (config.trySetRule name setting)

theorem Built.valid (h : config.Built) : config.Valid := by
  induction h with
  | empty => exact valid_empty
  | standard => exact valid_standard
  | ofPreset h => exact valid_empty.extend h
  | ofJson h => exact valid_ofJson h
  | ofText h => exact valid_ofText h
  | setRule name setting h ih =>
    unfold trySetRule
    split
    · next hset => exact ih.setRule hset
    · exact ih

end Config

/-! ## Turning rules on -/

/-- A setting that turns on the rule with a pattern, where the engine does not accept the pattern. -/
def RuleSettings.Rejected (patterns : PatternEngine) (entry : String × Setting) : Prop :=
  entry.1 = "no-unused-vars" ∧ entry.2.severity ≠ .off ∧ Rules.UnusedVariables.RejectedPattern patterns entry.2.options

/-- A rule that is turned on by a setting: it reports at the level of the setting what its options ask for. -/
def ActiveRule.Runs (patterns : PatternEngine) (entry : String × Setting) (active : ActiveRule) : Prop :=
  ∃ rule ∈ Rule.all, rule.info.name = entry.1 ∧ active.info = rule.info ∧
    entry.2.severity.level? = some active.level ∧ rule.checks? patterns entry.2.options = some active.checks

namespace Config

open RuleSettings

theorem level?_eq_none_iff {severity : Severity} : severity.level? = none ↔ severity = .off := by
  cases severity with
  | off | warn | error => simp [Severity.level?]

/-- What becomes of a setting that fits: its pattern is refused, its rule is off, or its rule runs. -/
theorem activate_cases {entry : String × Setting} (h : Fits entry) :
    (Rejected patterns entry ∧ activate patterns entry = .error (.unusableOptions "no-unused-vars")) ∨
      (¬ Rejected patterns entry ∧ entry.2.severity = .off ∧ activate patterns entry = .ok none) ∨
      (¬ Rejected patterns entry ∧ entry.2.severity ≠ .off ∧
        ∃ active, activate patterns entry = .ok (some active) ∧ ActiveRule.Runs patterns entry active) := by
  obtain ⟨rule, hrule, hname, hfits⟩ := h
  have hfind : Rule.find? entry.1 = some rule := hname ▸ Rule.find?_name hrule
  have hchecks := Rule.checks?_eq_none_iff patterns hrule hfits
  cases hlevel : entry.2.severity.level? with
  | none =>
    have hoff := level?_eq_none_iff.1 hlevel
    exact .inr (.inl ⟨fun hrejected => hrejected.2.1 hoff, hoff, by simp only [activate, hlevel]⟩)
  | some level =>
    have hon : entry.2.severity ≠ .off := fun hoff => by simp [hoff, Severity.level?] at hlevel
    cases hread : rule.checks? patterns entry.2.options with
    | none =>
      obtain ⟨hunused, hpattern⟩ := hchecks.1 hread
      have hentry : entry.1 = "no-unused-vars" := hname.symm.trans hunused
      refine .inl ⟨⟨hentry, hon, hpattern⟩, ?_⟩
      rw [← hentry]
      simp only [activate, hlevel, hfind, hread]
    | some checks =>
      have hrejected : ¬ Rejected patterns entry := by
        intro hrejected
        have hnone := hchecks.2 ⟨hname.trans hrejected.1, hrejected.2.2⟩
        rw [hread] at hnone
        cases hnone
      refine .inr (.inr ⟨hrejected, hon, ⟨rule.info, level, checks⟩, ?_, rule, hrule, hname, rfl, hlevel, hread⟩)
      simp only [activate, hlevel, hfind, hread]

/-- Settings that fit are turned on one by one, in order, unless the pattern of one is refused. -/
theorem mapM_activate {entries : RuleSettings} (h : ∀ entry ∈ entries, Fits entry) :
    ((∃ entry ∈ entries, Rejected patterns entry) →
      entries.mapM (activate patterns) = .error (.unusableOptions "no-unused-vars")) ∧
      ((¬ ∃ entry ∈ entries, Rejected patterns entry) → ∃ found, entries.mapM (activate patterns) = .ok found ∧
        List.Forall₂ (ActiveRule.Runs patterns) (entries.filter (·.2.severity ≠ .off)) (found.filterMap id)) := by
  induction entries with
  | nil => exact ⟨by simp, fun _ => ⟨[], rfl, .nil⟩⟩
  | cons entry entries ih =>
    obtain ⟨hfail, hrun⟩ := ih fun other hother => h other (List.mem_cons_of_mem _ hother)
    rw [List.mapM_cons]
    rcases activate_cases (h entry List.mem_cons_self) with ⟨hrejected, hactivate⟩ | ⟨hrejected, hoff, hactivate⟩ |
      ⟨hrejected, hon, active, hactivate, hruns⟩
    · refine ⟨fun _ => ?_, fun hnone => absurd ⟨entry, List.mem_cons_self, hrejected⟩ hnone⟩
      rw [hactivate]
      rfl
    · constructor
      · rintro ⟨other, hother, hbad⟩
        rcases List.mem_cons.1 hother with rfl | hother
        · exact absurd hbad hrejected
        · rw [hactivate, hfail ⟨other, hother, hbad⟩]
          rfl
      · intro hnone
        obtain ⟨found, hfound, hall⟩ := hrun fun ⟨other, hother, hbad⟩ =>
          hnone ⟨other, List.mem_cons_of_mem _ hother, hbad⟩
        refine ⟨none :: found, by rw [hactivate, hfound]; rfl, ?_⟩
        simpa [hoff] using hall
    · constructor
      · rintro ⟨other, hother, hbad⟩
        rcases List.mem_cons.1 hother with rfl | hother
        · exact absurd hbad hrejected
        · rw [hactivate, hfail ⟨other, hother, hbad⟩]
          rfl
      · intro hnone
        obtain ⟨found, hfound, hall⟩ := hrun fun ⟨other, hother, hbad⟩ =>
          hnone ⟨other, List.mem_cons_of_mem _ hother, hbad⟩
        refine ⟨some active :: found, by rw [hactivate, hfound]; rfl, ?_⟩
        simpa [hon] using And.intro hruns hall

/-- A configuration can always be run. However it is built, its keys are bare names of rules, each once, with options that
fit the rule's schema. It turns on one rule for each setting that is not off, in order and at the level of the setting, and
fails only where the engine does not accept the pattern of names that stay unused: that is the only case in which a rule
refuses options that fit its schema. -/
theorem built_runnable (patterns : PatternEngine) {config : Config} (h : config.Built) :
    (config.rules.map (·.1)).Nodup ∧
      (∀ entry ∈ config.rules, ∃ rule, Rule.find? entry.1 = some rule ∧ rule.info.name = entry.1 ∧
        Rule.bareName entry.1 = entry.1 ∧ rule.info.schema.mismatch? (.arr entry.2.options) = none) ∧
      ((∃ entry ∈ config.rules, Rejected patterns entry) →
        config.activeRules patterns = .error (.unusableOptions "no-unused-vars")) ∧
      ((¬ ∃ entry ∈ config.rules, Rejected patterns entry) → ∃ active, config.activeRules patterns = .ok active ∧
        List.Forall₂ (ActiveRule.Runs patterns) (config.rules.filter (·.2.severity ≠ .off)) active) ∧
      ∀ rule ∈ Rule.all, ∀ options, rule.info.schema.mismatch? (.arr options) = none →
        (rule.checks? patterns options = none ↔
          rule.info.name = "no-unused-vars" ∧ Rules.UnusedVariables.RejectedPattern patterns options) := by
  have hvalid := h.valid
  obtain ⟨hfail, hrun⟩ := mapM_activate hvalid.fits
  refine ⟨hvalid.names, ?_, ?_, ?_, fun rule hrule options hoptions => Rule.checks?_eq_none_iff patterns hrule hoptions⟩
  · intro entry hentry
    obtain ⟨rule, hrule, hname, hfits⟩ := hvalid.fits entry hentry
    rw [← hname]
    exact ⟨rule, Rule.find?_name hrule, rfl, Rule.bareName_name hrule, hfits⟩
  · intro hrejected
    rw [activeRules, hfail hrejected]
    rfl
  · intro hnone
    obtain ⟨found, hfound, hall⟩ := hrun hnone
    exact ⟨found.filterMap id, by rw [activeRules, hfound]; rfl, hall⟩

/-- Settings with options, of a rule that is off and of the rule with a pattern. -/
def underscoreSettings : RuleSettings :=
  [("html-self-closing", ⟨.off, [.obj [("html", .obj [("void", .str "any")])]]⟩),
   ("no-unused-vars", ⟨.warn, [.obj [("ignorePattern", .str "^_")]]⟩)]

/-- The settings as an object that names one of the rules with the namespace. -/
def underscoreValue : Json :=
  .obj [("rules", .obj
    [("html-self-closing", .arr [.str "off", .obj [("html", .obj [("void", .str "any")])]]),
     ("vue/no-unused-vars", .arr [.int 1, .obj [("ignorePattern", .str "^_")]])])]

theorem built_runnable_underscore : ofJson underscoreValue = .ok ⟨underscoreSettings⟩ ∧
    (underscoreSettings.map (·.1)).Nodup ∧ ∃ active, activeRules Regex.engine ⟨underscoreSettings⟩ = .ok active ∧
      List.Forall₂ (ActiveRule.Runs Regex.engine) (underscoreSettings.filter (·.2.severity ≠ .off)) active := by
  have hread : ofJson underscoreValue = .ok ⟨underscoreSettings⟩ := rfl
  obtain ⟨hnames, -, -, hrun, -⟩ := built_runnable Regex.engine (.ofJson hread)
  refine ⟨hread, hnames, hrun ?_⟩
  rintro ⟨entry, hentry, hname, -, pattern, hpattern, hparse⟩
  simp only [underscoreSettings, List.mem_cons, List.not_mem_nil, or_false] at hentry
  rcases hentry with rfl | rfl
  · simp at hname
  · obtain rfl : "^_" = pattern := by simpa [Json.get?] using hpattern
    revert hparse
    decide

end Config

end ComponentLint
