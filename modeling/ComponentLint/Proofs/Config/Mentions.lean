import ComponentLint.Proofs.Config.Runnable

/-!
# Mentions of rules

A configuration is written as one object or as a list of names and objects. Either way it comes to a list of mentions, each
of which gives a setting to a rule (`mentions`), and reading it sets them one after the other (`setRules_mentions`). So a rule
has the setting of its last mention, and stands where it was mentioned first.
-/

namespace ComponentLint

namespace RuleSettings

/-- The setting of the last mention of a rule. -/
def last? (mentions : RuleSettings) (rule : String) : Option Setting :=
  ((mentions.filter fun mention => Rule.bareName mention.1 == rule).getLast?).map (·.2)

/-- The rules that are mentioned, in the order of their first mentions. -/
def firsts (mentions : RuleSettings) : List String :=
  (mentions.map fun mention => Rule.bareName mention.1).eraseDups

/-- Settings that follow from mentions: each rule has that of its last mention, and the place of its first. -/
structure Follows (mentions settings : RuleSettings) : Prop where
  latest : ∀ rule, (settings.find? (·.1 == rule)).map (·.2) = mentions.last? rule
  order : settings.map (·.1) = mentions.firsts

variable {mentions settings : RuleSettings} {name rule : String} {setting : Setting}

theorem last?_concat : last? (mentions ++ [(name, setting)]) rule =
    if Rule.bareName name = rule then some setting else mentions.last? rule := by
  by_cases hname : Rule.bareName name = rule
  · simp [last?, List.filter_append, hname]
  · simp [last?, List.filter_append, hname]

theorem firsts_concat : firsts (mentions ++ [(name, setting)]) =
    if Rule.bareName name ∈ mentions.firsts then mentions.firsts else mentions.firsts ++ [Rule.bareName name] := by
  simp only [firsts, List.map_append, List.map_cons, List.map_nil, List.eraseDups_append, List.mem_eraseDups]
  by_cases hname : Rule.bareName name ∈ mentions.map fun mention => Rule.bareName mention.1
  · simp [hname, List.removeAll]
  · simp [hname, List.removeAll, List.eraseDups_cons]

/-- The setting that is put is found, and the others are found as before. -/
theorem find?_put : (put name setting settings).find? (·.1 == rule) =
    if name = rule then some (name, setting) else settings.find? (·.1 == rule) := by
  induction settings with
  | nil => by_cases hname : name = rule <;> simp [put, hname]
  | cons first settings ih =>
    obtain ⟨other, old⟩ := first
    by_cases hother : other = name
    · subst hother
      by_cases hname : other = rule <;> simp [put, hname]
    · by_cases hrule : other = rule
      · subst hrule
        simp [put, hother, Ne.symm hother]
      · simp [put, hother, hrule, ih]

/-- One more mention is followed by putting its setting. -/
theorem Follows.put (h : Follows mentions settings) (name : String) (setting : Setting) :
    Follows (mentions ++ [(name, setting)]) (RuleSettings.put (Rule.bareName name) setting settings) where
  latest rule := by
    rw [find?_put, last?_concat, ← h.latest rule]
    split <;> rfl
  order := by
    rw [map_put, firsts_concat, h.order]

end RuleSettings

/-! ## Mentions of a configuration -/

namespace Config

/-- The mentions of a preset. -/
def presetMentions (name : String) : RuleSettings :=
  ((Preset.resolve? name).map (·.rules)).getD []

/-- The names of the presets that an object starts from. -/
def extendedNames (members : List (String × Json)) : List String :=
  match Json.get? (.obj members) "extends" with
  | some (.str name) => [name]
  | some (.arr items) => items.filterMap (·.asString?)
  | _ => []

/-- The mention in an entry of an object's settings. -/
def settingMentions (entry : String × Json) : RuleSettings :=
  match Setting.ofJson entry.2 with
  | .ok setting => [(entry.1, setting)]
  | .error _ => []

/-- The settings that an object gives, in the order of its keys. -/
def givenSettings (members : List (String × Json)) : RuleSettings :=
  match Json.get? (.obj members) "rules" with
  | some (.obj entries) => entries.flatMap settingMentions
  | _ => []

/-- The mentions of an object: those of its presets in order, and then its settings. -/
def objectMentions (members : List (String × Json)) : RuleSettings :=
  (extendedNames members).flatMap presetMentions ++ givenSettings members

/-- The mentions of an entry of a list. -/
def entryMentions : Json → RuleSettings
  | .str name => presetMentions name
  | .obj members => objectMentions members
  | _ => []

/-- The mentions of a configuration, in the order in which they are applied. -/
def mentions : Json → RuleSettings
  | .arr entries => entries.flatMap entryMentions
  | .obj members => objectMentions members
  | _ => []

/-! ## Presets in both dialects -/

/-- A preset sets what the one below it does, and then what it adds. -/
theorem rules_eq (preset : Preset) : preset.rules = ((preset.below?).map (·.rules)).getD [] ++ preset.ownRules := by
  cases preset with
  | base | essential | stronglyRecommended | recommended => simp [Preset.rules, Preset.below?, Preset.upTo]

theorem presetMentions_linkedMark (preset : Preset) :
    presetMentions (Preset.linkedMark ++ preset.name) = preset.rules := by
  cases preset with
  | base | essential | stronglyRecommended | recommended => rfl

/-- A preset that is published as an object mentions what the one it points to does, and then its own settings. -/
theorem presetMentions_linked {name : String} {linked : LinkedPreset} (h : LinkedPreset.ofName? name = some linked) :
    presetMentions name = (linked.extend.map presetMentions).getD [] ++ linked.rules := by
  obtain ⟨preset, hpreset, rfl⟩ := Option.map_eq_some_iff.1 h
  have hmark : (Text.afterMark? Preset.linkedMark.toList name.toList).isSome := by
    obtain ⟨rest, hrest, -⟩ := Option.bind_eq_some_iff.1 hpreset
    simp [hrest]
  have hbelow : (preset.below?.map (Preset.linkedMark ++ ·.name)).map presetMentions = preset.below?.map (·.rules) := by
    cases preset.below? with
    | none => rfl
    | some below => exact congrArg some (presetMentions_linkedMark below)
  rw [presetMentions, Preset.resolve?, if_pos hmark, hpreset, hbelow]
  exact rules_eq preset

/-- A preset that is published as a list mentions the settings of its entries in order. -/
theorem presetMentions_flat {name : String} {entries : List FlatEntry} (h : FlatEntry.listOfName? name = some entries) :
    presetMentions name = entries.flatMap (·.rules) := by
  obtain ⟨preset, hpreset, rfl⟩ := Option.map_eq_some_iff.1 h
  have hmark : Text.afterMark? Preset.linkedMark.toList name.toList = none := by
    obtain ⟨rest, hrest, -⟩ := Option.bind_eq_some_iff.1 hpreset
    have hflat : Preset.flatMark.toList = 'f' :: ['l', 'a', 't', '/'] := rfl
    have hlinked : Preset.linkedMark.toList = 'p' :: "lugin:vue/".toList := rfl
    -- the two marks differ in their first characters
    cases hname : name.toList with
    | nil => rw [hlinked, Text.afterMark?]
    | cons first text =>
      rw [hname, hflat, Text.afterMark?] at hrest
      split at hrest
      · next hfirst =>
        obtain rfl := beq_iff_eq.1 hfirst
        rw [hlinked, Text.afterMark?]
        rfl
      · cases hrest
  rw [presetMentions, Preset.resolve?, hmark, hpreset]
  simp [Preset.rules, List.flatMap_map]

/-! ## Reading is setting one mention after the other -/

variable {config next : Config}

/-- A step that comes to setting the mentions of an item gives a run that comes to setting those of all items. -/
theorem setRules_flatMap {α : Type} {step : Config → α → Except ConfigError Config} (mentioned : α → RuleSettings)
    (hstep : ∀ before item after, step before item = .ok after → before.setRules (mentioned item) = .ok after)
    {items : List α} {start stop : Config} (h : items.foldlM step start = .ok stop) :
    start.setRules (items.flatMap mentioned) = .ok stop := by
  induction items generalizing start with
  | nil => exact h
  | cons item items ih =>
    rw [List.foldlM_cons] at h
    cases hitem : step start item with
    | error cause => simp [hitem, bind, Except.bind] at h
    | ok middle =>
      simp only [hitem, bind, Except.bind] at h
      have hfirst := hstep start item middle hitem
      rw [setRules] at hfirst
      rw [List.flatMap_cons, setRules, List.foldlM_append, hfirst]
      exact ih h

theorem setRules_presetMentions {name : String} (h : config.extend name = .ok next) :
    config.setRules (presetMentions name) = .ok next := by
  unfold extend at h
  split at h
  · cases h
  · next hresolve => simpa [presetMentions, hresolve] using h

theorem setRules_settingMentions {entry : String × Json} (h : config.setValue entry.1 entry.2 = .ok next) :
    config.setRules (settingMentions entry) = .ok next := by
  unfold setValue at h
  split at h
  · cases h
  · next setting hread => simp [settingMentions, hread, setRules, h]

theorem texts?_eq_some {items : List Json} {names : List String} (h : texts? items = some names) :
    items.filterMap Json.asString? = names := by
  fun_induction texts? items generalizing names with
  | case1 => simpa using h
  | case2 text rest ih =>
    obtain ⟨others, hothers, rfl⟩ := Option.map_eq_some_iff.1 h
    rw [List.filterMap_cons, Json.asString?, ih hothers]
  | case3 => cases h

theorem extend?_eq_some {members : List (String × Json)} {names : List String}
    (h : extend? (Json.get? (.obj members) "extends") = some names) : extendedNames members = names := by
  unfold extendedNames
  split
  · next name hget => simpa [hget, extend?] using h
  · next items hget =>
    rw [hget] at h
    exact texts?_eq_some h
  · next hname hitems =>
    unfold extend? at h
    split at h
    · exact Option.some.inj h
    · exact Option.some.inj h
    · next name hget => exact absurd hget (hname name)
    · next items hget => exact absurd hget (hitems items)
    · cases h

theorem rules?_eq_some {members entries : List (String × Json)}
    (h : rules? (Json.get? (.obj members) "rules") = some entries) :
    givenSettings members = entries.flatMap settingMentions := by
  unfold rules? at h
  split at h
  · next hget => simp [givenSettings, hget, ← Option.some.inj h]
  · next given hget => simp [givenSettings, hget, Option.some.inj h]
  · cases h

/-- What the members of an object are read as. -/
theorem Layer.of_ofMembers? {members : List (String × Json)} {layer : Layer} (h : ofMembers? members = some layer) :
    extendedNames members = layer.extend ∧ givenSettings members = layer.rules.flatMap settingMentions := by
  obtain ⟨_, _, h⟩ := Option.bind_eq_some_iff.1 h
  obtain ⟨names, hnames, h⟩ := Option.bind_eq_some_iff.1 h
  obtain ⟨entries, hentries, h⟩ := Option.bind_eq_some_iff.1 h
  obtain rfl := Option.some.inj h
  exact ⟨extend?_eq_some hnames, rules?_eq_some hentries⟩

/-- The layer of an object whose members are all known. -/
theorem Layer.ofMembers?_eq {members : List (String × Json)}
    (h : (members.all fun member => ["extends", "rules"].contains member.1) = true) :
    ofMembers? members = (extend? (Json.get? (.obj members) "extends")).bind fun names =>
      (rules? (Json.get? (.obj members) "rules")).map (⟨names, ·⟩) := by
  unfold ofMembers? guard
  rw [if_pos h]
  simp only [Option.map_eq_bind]
  rfl

theorem setRules_objectMentions {members : List (String × Json)} (h : config.applyObject members = .ok next) :
    config.setRules (objectMentions members) = .ok next := by
  unfold applyObject at h
  split at h
  · cases h
  · next layer hlayer =>
    obtain ⟨hnames, hsettings⟩ := Layer.of_ofMembers? hlayer
    cases hextend : layer.extend.foldlM extend config with
    | error cause => simp [hextend, bind, Except.bind] at h
    | ok extended =>
      simp only [hextend, bind, Except.bind] at h
      have hpresets := setRules_flatMap presetMentions (fun _ _ _ => setRules_presetMentions) hextend
      have hgiven := setRules_flatMap settingMentions (fun _ _ _ => setRules_settingMentions) h
      rw [setRules] at hpresets hgiven
      rw [objectMentions, hnames, hsettings, setRules, List.foldlM_append, hpresets]
      exact hgiven

theorem setRules_entryMentions {entry : Json} (h : config.applyEntry entry = .ok next) :
    config.setRules (entryMentions entry) = .ok next := by
  cases entry with
  | str name => exact setRules_presetMentions h
  | obj members => exact setRules_objectMentions h
  | null | bool _ | num _ | arr _ => cases h

/-- The configuration of a value comes from setting its mentions. -/
theorem setRules_mentions {value : Json} (h : ofJson value = .ok config) : empty.setRules (mentions value) = .ok config := by
  cases value with
  | arr entries =>
    rw [ofJson] at h
    exact setRules_flatMap entryMentions (fun _ _ _ => setRules_entryMentions) h
  | obj members => exact setRules_objectMentions h
  | null | bool _ | num _ | str _ => cases h

/-! ## Settings follow from mentions -/

open RuleSettings

/-- One more setting is put under the bare name of its rule. -/
theorem rules_setRule {name : String} {setting : Setting} (h : config.setRule name setting = .ok next) :
    next.rules = put (Rule.bareName name) setting config.rules := by
  unfold setRule at h
  split at h
  · cases h
  · next rule hrule =>
    have hname : rule.info.name = Rule.bareName name := by simpa [Rule.find?] using List.find?_some hrule
    split at h
    · cases h
    · cases h
      rw [hname]

theorem follows_empty : Follows [] empty.rules :=
  ⟨fun _ => rfl, rfl⟩

/-- Settings that follow from what was mentioned before follow from that and what is mentioned now. -/
theorem follows_setRules {seen now : RuleSettings} (hseen : Follows seen config.rules)
    (h : config.setRules now = .ok next) : Follows (seen ++ now) next.rules := by
  induction now generalizing seen config with
  | nil =>
    cases h
    rwa [List.append_nil]
  | cons mention now ih =>
    rw [setRules, List.foldlM_cons] at h
    cases hset : config.setRule mention.1 mention.2 with
    | error cause => simp [hset, bind, Except.bind] at h
    | ok middle =>
      simp only [hset, bind, Except.bind] at h
      have hmiddle : Follows (seen ++ [mention]) middle.rules := by
        rw [rules_setRule hset]
        exact hseen.put mention.1 mention.2
      simpa using ih hmiddle h

theorem follows_ofJson {value : Json} (h : ofJson value = .ok config) : Follows (mentions value) config.rules :=
  follows_setRules follows_empty (setRules_mentions h)

/-! ## The two forms -/

/-- An object that starts from the given presets. -/
def extendingForm (names : List String) (rules : Json) : Json :=
  .obj [("extends", .arr (names.map .str)), ("rules", rules)]

/-- A list of the given presets that ends in an object without presets. -/
def listForm (names : List String) (rules : Json) : Json :=
  .arr (names.map .str ++ [.obj [("rules", rules)]])

theorem texts?_map (names : List String) : texts? (names.map .str) = some names := by
  induction names with
  | nil => rfl
  | cons name names ih => simp [texts?, ih]

/-- The settings of an object, applied one by one; a value that is no object has none. -/
def setValues (config : Config) (rules : Json) : Except ConfigError Config :=
  match rules? (some rules) with
  | none => .error .malformed
  | some entries => entries.foldlM (fun config entry => config.setValue entry.1 entry.2) config

/-- The object with presets looks at the settings first, and applies them last. -/
theorem ofJson_extendingForm (names : List String) (rules : Json) : ofJson (extendingForm names rules) =
    match rules? (some rules) with
    | none => .error .malformed
    | some _ => names.foldlM extend empty >>= fun config => config.setValues rules := by
  have hlayer : Layer.ofMembers? [("extends", .arr (names.map .str)), ("rules", rules)] =
      (rules? (some rules)).map (⟨names, ·⟩) := by
    rw [Layer.ofMembers?_eq (by simp)]
    simp [Json.get?, extend?, texts?_map]
  rw [extendingForm, ofJson, applyObject, hlayer]
  cases hrules : rules? (some rules) with
  | none => rfl
  | some entries => simp [setValues, hrules]

/-- The list comes to its object after the presets. -/
theorem ofJson_listForm (names : List String) (rules : Json) :
    ofJson (listForm names rules) = names.foldlM extend empty >>= fun config => config.setValues rules := by
  have hlayer : Layer.ofMembers? [("rules", rules)] = (rules? (some rules)).map (⟨[], ·⟩) := by
    rw [Layer.ofMembers?_eq (by simp)]
    simp [Json.get?, extend?]
  have hnames : (names.map Json.str).foldlM applyEntry empty = names.foldlM extend empty := List.foldlM_map
  have hobject (config : Config) : config.applyEntry (.obj [("rules", rules)]) = config.setValues rules := by
    rw [applyEntry, applyObject, hlayer, setValues]
    cases rules? (some rules) with
    | none | some _ => rfl
  rw [listForm, ofJson, List.foldlM_append, hnames]
  simp [hobject]

/-- Both forms fail, or both give the same configuration. The errors may differ, where a preset is unknown and the settings
are no object. -/
theorem toOption_forms (names : List String) (rules : Json) :
    (ofJson (extendingForm names rules)).toOption = (ofJson (listForm names rules)).toOption := by
  rw [ofJson_extendingForm, ofJson_listForm]
  cases hrules : rules? (some rules) with
  | some entries => rfl
  | none =>
    have hfail (config : Config) : config.setValues rules = .error .malformed := by rw [setValues, hrules]
    cases names.foldlM extend empty with
    | error cause => rfl
    | ok config => simp [bind, Except.bind, hfail, Except.toOption]

/-- The dialects compose the same way. A list of presets with settings is read as an object that extends them, or both
fail. In every configuration that is read, a rule has the setting of its last mention, in the order of application, and the
place of its first. A preset mentions what the preset below it does before its own settings, in either dialect and under its
bare name. -/
theorem ofJson_mentions :
    (∀ names rules, (ofJson (extendingForm names rules)).toOption = (ofJson (listForm names rules)).toOption) ∧
      (∀ value config, ofJson value = .ok config →
        (∀ name, config.setting? name = (mentions value).last? (Rule.bareName name)) ∧
          config.rules.map (·.1) = (mentions value).firsts) ∧
      (∀ name linked, LinkedPreset.ofName? name = some linked →
        presetMentions name = (linked.extend.map presetMentions).getD [] ++ linked.rules) ∧
      (∀ name entries, FlatEntry.listOfName? name = some entries → presetMentions name = entries.flatMap (·.rules)) ∧
      ∀ preset : Preset, presetMentions preset.name = presetMentions (Preset.linkedMark ++ preset.name) := by
  refine ⟨toOption_forms, fun value config h => ?_, fun _ _ => presetMentions_linked, fun _ _ => presetMentions_flat, ?_⟩
  · have hfollows := follows_ofJson h
    exact ⟨fun name => hfollows.latest (Rule.bareName name), hfollows.order⟩
  · intro preset
    cases preset with
    | base | essential | stronglyRecommended | recommended => rfl

/-- A list that mentions a rule of its preset twice more, by its bare name and by its full name. -/
def layeredValue : Json :=
  .arr [.str "flat/essential", .obj [("extends", .str "base"),
    ("rules", .obj [("no-dupe-v-else-if", .str "off"), ("vue/no-dupe-v-else-if", .str "warn")])]]

theorem ofJson_mentions_layered : ∃ config, ofJson layeredValue = .ok config ∧
    config.setting? "no-dupe-v-else-if" = some ⟨.warn, []⟩ ∧
    config.rules.map (·.1) = (Rule.ofCategory .essential).map (·.info.name) := by
  obtain ⟨config, hread⟩ : ∃ config, ofJson layeredValue = .ok config := ⟨_, rfl⟩
  obtain ⟨hlast, hfirst⟩ := ofJson_mentions.2.1 layeredValue config hread
  exact ⟨config, hread, hlast "no-dupe-v-else-if", hfirst.trans (by decide +kernel)⟩

end Config

end ComponentLint
