import ComponentLint.Rules.Catalog

/-!
# Options that fit are read

The options of a rule are described twice: by its schema, which says what fits, and by the reader that turns them into
settings. Every reader reads what fits its schema (`Schema.ReadBy`), so a rule refuses options that fit only where its
settings ask for more than a shape: the pattern of names that stay unused has to be a regular expression
(`Rule.checks?_eq_none_iff`).
-/

namespace ComponentLint

namespace Schema

variable {patterns : PatternEngine}

variable {α : Type} {schema : Schema} {read : Json → Option α}

/-- Every value that fits a schema can be read. -/
def ReadBy (schema : Schema) (read : Json → Option α) : Prop :=
  ∀ value, schema.mismatch? value = none → (read value).isSome = true

/-- Reading one part after another succeeds where each part is read. -/
theorem isSome_bind {β : Type} {part : Option β} {rest : β → Option α} (hpart : part.isSome = true)
    (hrest : ∀ found, (rest found).isSome = true) : (part.bind rest).isSome = true := by
  obtain ⟨found, rfl⟩ := Option.isSome_iff_exists.1 hpart
  exact hrest found

/-! ## What fits -/

/-- The mismatch of a member is that with the schema of its name. -/
theorem memberMismatch?_eq (properties : List (String × Schema)) (key : String) (value : Json) :
    memberMismatch? properties key value =
      match properties.find? (·.1 == key) with
      | some property => property.2.mismatch? value
      | none => unmet .knownKey := by
  induction properties with
  | nil => simp [memberMismatch?]
  | cons property rest ih =>
    obtain ⟨name, schema⟩ := property
    by_cases hname : name = key
    · simp [memberMismatch?, hname]
    · simp [memberMismatch?, hname, ih]

/-- An entry of a list without a mismatch fits the schema of its position. -/
theorem of_entryMismatch? {items : List Schema} {values : List Json} {start : Nat}
    (h : entryMismatch? items start values = none) {position : Nat} {value : Json} (hvalue : values[position]? = some value)
    (hitem : items[position]? = some schema) : schema.mismatch? value = none := by
  induction items generalizing start values position with
  | nil => simp at hitem
  | cons item items ih =>
    cases values with
    | nil => simp at hvalue
    | cons first values =>
      simp only [entryMismatch?] at h
      split at h
      · simp at h
      · next hfirst =>
        cases position with
        | zero =>
          obtain rfl : item = schema := by simpa using hitem
          obtain rfl : first = value := by simpa using hvalue
          exact hfirst
        | succ position => exact ih h (by simpa using hvalue) (by simpa using hitem)

/-- What a value that fits is like, by the kind of its schema. -/
inductive Fits : Schema → Json → Prop where
  | anything (value : Json) : Fits .anything value
  | boolean (value : Bool) : Fits .boolean (.bool value)
  | text (value : String) : Fits .text (.str value)
  | integer {minimum : Option Int} {value : Json} {number : Int} (hnumber : value.asInt? = some number)
      (hleast : ∀ least, minimum = some least → least ≤ number) : Fits (.integer minimum) value
  | choice {values : List String} {name : String} (hname : name ∈ values) : Fits (.choice values) (.str name)
  | texts {items : List Json} (hitems : textsMismatch? 0 [] items = none) : Fits .texts (.arr items)
  /-- Every member has what its name asks for. -/
  | object {properties : List (String × Schema)} {members : List (String × Json)}
      (hmembers : ∀ member ∈ members, ∃ property, properties.find? (·.1 == member.1) = some property ∧
        property.2.mismatch? member.2 = none) : Fits (.object properties) (.obj members)
  /-- Every entry has what its position asks for. -/
  | tuple {items : List Schema} {values : List Json} (hlength : values.length ≤ items.length)
      (hentries : ∀ (position : Nat) (item : Schema) (value : Json), items[position]? = some item →
        values[position]? = some value → item.mismatch? value = none) : Fits (.tuple items) (.arr values)
  | anyOf {alternatives : List Schema} {value : Json} (hany : none ∈ alternativeMismatches alternatives value) :
      Fits (.anyOf alternatives) value

/-- A value without a mismatch fits. -/
theorem fits_of_mismatch? {value : Json} (h : schema.mismatch? value = none) : schema.Fits value := by
  cases schema with
  | anything => exact .anything value
  | boolean =>
    cases value with
    | bool value => exact .boolean value
    | null | num _ | str _ | arr _ | obj _ => simp [mismatch?, unmet] at h
  | text =>
    cases value with
    | str value => exact .text value
    | null | num _ | bool _ | arr _ | obj _ => simp [mismatch?, unmet] at h
  | integer minimum =>
    simp only [mismatch?] at h
    split at h
    · simp [unmet] at h
    · next number hnumber =>
      refine .integer hnumber fun least hleast => ?_
      subst hleast
      refine Int.not_lt.1 fun hless => ?_
      simp [unmet, hless] at h
  | choice values =>
    simp only [mismatch?] at h
    cases value with
    | str name =>
      by_cases hname : name ∈ values
      · exact .choice hname
      · simp [Json.asString?, hname, unmet] at h
    | null | num _ | bool _ | arr _ | obj _ => simp [Json.asString?, unmet] at h
  | texts =>
    cases value with
    | arr items => exact .texts (by simpa [mismatch?] using h)
    | null | num _ | bool _ | str _ | obj _ => simp [mismatch?, unmet] at h
  | object properties =>
    cases value with
    | obj members =>
      simp only [mismatch?, List.findSome?_eq_none_iff] at h
      refine .object fun member hmember => ?_
      have hfits := h member hmember
      rw [Option.map_eq_none_iff, memberMismatch?_eq] at hfits
      split at hfits
      · next property hproperty => exact ⟨property, hproperty, hfits⟩
      · simp [unmet] at hfits
    | null | num _ | bool _ | str _ | arr _ => simp [mismatch?, unmet] at h
  | tuple items =>
    cases value with
    | arr values =>
      simp only [mismatch?] at h
      split at h
      · simp [unmet] at h
      · next hlength =>
        exact .tuple (Nat.not_lt.1 hlength) fun position item value hitem hvalue => of_entryMismatch? h hvalue hitem
    | null | num _ | bool _ | str _ | obj _ => simp [mismatch?, unmet] at h
  | anyOf alternatives =>
    simp only [mismatch?] at h
    split at h
    · simp [unmet] at h
    · next first others halternatives =>
      refine .anyOf ?_
      rw [halternatives]
      split at h
      · next hany =>
        obtain ⟨found, hfound, hnone⟩ := List.any_eq_true.1 hany
        rwa [Option.isNone_iff_eq_none.1 hnone] at hfound
      · exact List.mem_cons.2 (.inl h.symm)

/-- Entries that fit the schemas of their positions have no mismatch. -/
theorem entryMismatch?_eq_none {items : List Schema} {values : List Json} {start : Nat}
    (h : ∀ (position : Nat) (item : Schema) (value : Json), items[position]? = some item →
      values[position]? = some value → item.mismatch? value = none) : entryMismatch? items start values = none := by
  induction items generalizing start values with
  | nil => simp [entryMismatch?]
  | cons item items ih =>
    cases values with
    | nil => simp [entryMismatch?]
    | cons value values =>
      have hfirst : item.mismatch? value = none := h 0 item value (by simp) (by simp)
      simp only [entryMismatch?, hfirst]
      exact ih fun position other entry hother hentry => h (position + 1) other entry
        (by simpa using hother) (by simpa using hentry)

/-- A value that fits has no mismatch. -/
theorem Fits.mismatch? {value : Json} (h : schema.Fits value) : schema.mismatch? value = none := by
  cases h with
  | anything | boolean | text => simp [Schema.mismatch?]
  | @integer minimum _ number hnumber hleast =>
    cases minimum with
    | none => simp [Schema.mismatch?, hnumber]
    | some least => simp [Schema.mismatch?, hnumber, Int.not_lt.2 (hleast least rfl)]
  | choice hname => simp [Schema.mismatch?, Json.asString?, hname]
  | texts hitems => simpa [Schema.mismatch?] using hitems
  | object hmembers =>
    simp only [Schema.mismatch?, List.findSome?_eq_none_iff]
    intro member hmember
    obtain ⟨property, hproperty, hfits⟩ := hmembers member hmember
    rw [memberMismatch?_eq, hproperty]
    simp [hfits]
  | tuple hlength hentries =>
    simp only [Schema.mismatch?, if_neg (Nat.not_lt.2 hlength)]
    exact entryMismatch?_eq_none hentries
  | anyOf hany =>
    simp only [Schema.mismatch?]
    split
    · next hnone => simp [hnone] at hany
    · next first others halternatives =>
      rw [halternatives] at hany
      rw [if_pos (List.any_eq_true.2 ⟨none, hany, rfl⟩)]

theorem mismatch?_eq_none_iff {value : Json} : schema.mismatch? value = none ↔ schema.Fits value :=
  ⟨fits_of_mismatch?, Fits.mismatch?⟩

/-! ## Single values -/

theorem readBy_asBool? : boolean.ReadBy Json.asBool? := by
  intro value h
  cases fits_of_mismatch? h
  rfl

/-- A choice among the names of a table is read by the table. -/
theorem readBy_variant? {values : List String} {table : List (String × α)}
    (h : ∀ name ∈ values, ∃ entry ∈ table, entry.1 = name) : (choice values).ReadBy (Json.variant? table) := by
  intro value hvalue
  cases fits_of_mismatch? hvalue with
  | choice hname =>
    obtain ⟨entry, hentry, rfl⟩ := h _ hname
    simp only [Json.variant?, Option.isSome_map, List.find?_isSome]
    exact ⟨entry, hentry, by simp⟩

/-- A list without a mismatch holds texts only. -/
theorem mapM_of_textsMismatch? {items : List Json} {position : Nat} {seen : List String}
    (h : textsMismatch? position seen items = none) : (items.mapM Json.asString?).isSome = true := by
  fun_induction textsMismatch? position seen items with
  | case1 => rfl
  | case2 => simp at h
  | case3 position seen value rest _ ih =>
    obtain ⟨values, hvalues⟩ := Option.isSome_iff_exists.1 (ih h)
    simp [List.mapM_cons, Json.asString?, hvalues]
  | case4 => simp at h

theorem readBy_textList? : texts.ReadBy Json.textList? := by
  intro value h
  cases fits_of_mismatch? h with
  | texts hitems => exact mapM_of_textsMismatch? hitems

/-- A reader may let `null` through as well. -/
theorem ReadBy.nullable (h : schema.ReadBy read) : schema.ReadBy (Json.nullable? read) := by
  intro value hvalue
  cases value with
  | null => rfl
  | num _ | bool _ | str _ | arr _ | obj _ => simpa [Json.nullable?] using h _ hvalue

/-! ## Records and lists of options -/

variable {properties : List (String × Schema)} {members : List (String × Json)} {name : String}

/-- A member of an object that fits has what its name asks for. -/
theorem of_object {value : Json} (h : (object properties).mismatch? (.obj members) = none)
    (hvalue : Json.get? (.obj members) name = some value) (hname : properties.find? (·.1 == name) = some (name, schema)) :
    schema.mismatch? value = none := by
  obtain ⟨⟨key, found⟩, hfind, rfl⟩ := Option.map_eq_some_iff.1 hvalue
  have hkey : key = name := by simpa using List.find?_some hfind
  subst hkey
  cases fits_of_mismatch? h with
  | object hmembers =>
    obtain ⟨property, hproperty, hfits⟩ := hmembers _ (List.mem_of_find?_eq_some hfind)
    obtain rfl := Option.some.inj (hproperty.symm.trans hname)
    exact hfits

/-- A field of an object that fits is read. -/
theorem field?_isSome (h : (object properties).mismatch? (.obj members) = none)
    (hname : properties.find? (·.1 == name) = some (name, schema)) (hread : schema.ReadBy read) (position : Nat)
    (fallback : α) : ((Record.named members).field? position name read fallback).isSome = true := by
  simp only [Record.field?, Record.get?, Json.readOr]
  split
  · next value hvalue => exact hread value (of_object h hvalue hname)
  · rfl

/-- A record is read where its fields are. -/
theorem readBy_record {fields : Record → Option α} (least most : Nat)
    (h : ∀ members, (object properties).mismatch? (.obj members) = none → (fields (.named members)).isSome = true) :
    (object properties).ReadBy fun value => (Record.ofJson? least most value).bind fields := by
  intro value hvalue
  cases fits_of_mismatch? hvalue with
  | object _ => exact h _ hvalue

/-- An option among options that fit has what its position asks for. -/
theorem of_tuple {items : List Schema} {options : List Json} (h : (tuple items).mismatch? (.arr options) = none)
    {position : Nat} {value : Json} (hitem : items[position]? = some schema) (hvalue : options[position]? = some value) :
    schema.mismatch? value = none := by
  cases fits_of_mismatch? h with
  | tuple _ hentries => exact hentries position schema value hitem hvalue

/-- An option among options that fit is read. -/
theorem option?_isSome {items : List Schema} {options : List Json} (h : (tuple items).mismatch? (.arr options) = none)
    {position : Nat} (hitem : items[position]? = some schema) (hread : schema.ReadBy read) (fallback : α) :
    (Json.option? options position read fallback).isSome = true := by
  simp only [Json.option?, Json.readOr]
  split
  · next value hvalue => exact hread value (of_tuple h hitem hvalue)
  · rfl

end Schema

/-! ## The rules -/

/-- A rule can be turned on with all options that fit its schema. -/
def Rule.Reads (rule : Rule) : Prop :=
  ∀ (patterns : PatternEngine) options, rule.info.schema.mismatch? (.arr options) = none →
    (rule.checks? patterns options).isSome = true

namespace Rules

open Schema

theorem ClosingBracket.readBy_lineBreaks : lineBreakSchema.ReadBy (Json.variant? lineBreaks) :=
  readBy_variant? (by decide)

theorem ClosingBracket.readBy_readSelfClosing? :
    (object [("singleline", lineBreakSchema), ("multiline", lineBreakSchema)]).ReadBy readSelfClosing? := by
  refine readBy_record 2 2 fun members h => ?_
  refine isSome_bind (field?_isSome h rfl readBy_lineBreaks.nullable _ _) fun singleline => ?_
  exact isSome_bind (field?_isSome h rfl readBy_lineBreaks.nullable _ _) fun multiline => rfl

theorem ClosingBracket.rule_reads : rule.Reads := by
  intro patterns options hoptions
  rw [rule, Option.isSome_map]
  refine option?_isSome hoptions rfl (readBy_record 0 3 fun members h => ?_) _
  refine isSome_bind (field?_isSome h rfl readBy_lineBreaks _ _) fun singleline => ?_
  refine isSome_bind (field?_isSome h rfl readBy_lineBreaks _ _) fun multiline => ?_
  exact isSome_bind (field?_isSome h rfl readBy_readSelfClosing? _ _) fun selfClosing => rfl

theorem ContentBreaks.rule_reads : rule.Reads := by
  intro patterns options hoptions
  rw [rule, Option.isSome_map]
  refine option?_isSome hoptions rfl (readBy_record 0 4 fun members h => ?_) _
  refine isSome_bind (field?_isSome h rfl readBy_asBool? _ _) fun ignoreWhenNoAttributes => ?_
  refine isSome_bind (field?_isSome h rfl readBy_asBool? _ _) fun ignoreWhenEmpty => ?_
  refine isSome_bind (field?_isSome h rfl readBy_textList? _ _) fun ignores => ?_
  exact isSome_bind (field?_isSome h rfl readBy_textList? _ _) fun externalIgnores => rfl

theorem SelfClosing.readBy_modes : modeSchema.ReadBy (Json.variant? modes) :=
  readBy_variant? (by decide)

theorem SelfClosing.readBy_htmlModes :
    (object [("normal", modeSchema), ("void", modeSchema), ("component", modeSchema)]).ReadBy HtmlModes.ofJson? := by
  refine readBy_record 0 3 fun members h => ?_
  refine isSome_bind (field?_isSome h rfl readBy_modes _ _) fun void => ?_
  refine isSome_bind (field?_isSome h rfl readBy_modes _ _) fun normal => ?_
  exact isSome_bind (field?_isSome h rfl readBy_modes _ _) fun component => rfl

theorem SelfClosing.rule_reads : rule.Reads := by
  intro patterns options hoptions
  rw [rule, Option.isSome_map]
  refine option?_isSome hoptions rfl (readBy_record 0 3 fun members h => ?_) _
  refine isSome_bind (field?_isSome h rfl readBy_htmlModes _ _) fun html => ?_
  refine isSome_bind (field?_isSome h rfl readBy_modes _ _) fun svg => ?_
  exact isSome_bind (field?_isSome h rfl readBy_modes _ _) fun math => rfl

theorem DuplicateAttributes.rule_reads : rule.Reads := by
  intro patterns options hoptions
  rw [rule, Option.isSome_map]
  refine option?_isSome hoptions rfl (readBy_record 0 2 fun members h => ?_) _
  refine isSome_bind (field?_isSome h rfl readBy_asBool? _ _) fun allowClass => ?_
  exact isSome_bind (field?_isSome h rfl readBy_asBool? _ _) fun allowStyle => rfl

theorem EventCasing.readBy_readIgnores? : (object [("ignores", texts)]).ReadBy readIgnores? :=
  readBy_record 0 1 fun _ h => field?_isSome h rfl readBy_textList? _ _

theorem EventCasing.rule_reads : rule.Reads := by
  intro patterns options hoptions
  rw [rule, Option.isSome_map]
  refine isSome_bind (option?_isSome hoptions rfl (readBy_variant? (by decide)) _) fun case => ?_
  exact isSome_bind (option?_isSome hoptions rfl readBy_readIgnores? _) fun ignores => rfl

theorem HandlerCall.readBy_readIgnoreComment? :
    (object [("ignoreIncludesComment", boolean)]).ReadBy readIgnoreComment? :=
  readBy_record 0 1 fun _ h => field?_isSome h rfl readBy_asBool? _ _

theorem HandlerCall.rule_reads : rule.Reads := by
  intro patterns options hoptions
  rw [rule, Option.isSome_map]
  refine isSome_bind (option?_isSome hoptions rfl (readBy_variant? (by decide)) _) fun style => ?_
  exact isSome_bind (option?_isSome hoptions rfl readBy_readIgnoreComment? _) fun ignoreIncludesComment => rfl

theorem LoopCondition.rule_reads : rule.Reads := by
  intro patterns options hoptions
  rw [rule, Option.isSome_map]
  refine option?_isSome hoptions rfl (readBy_record 0 1 fun members h => ?_) _
  exact field?_isSome h rfl readBy_asBool? _ _

theorem MustacheSpacing.rule_reads : rule.Reads := by
  intro patterns options hoptions
  rw [rule, Option.isSome_map]
  exact option?_isSome hoptions rfl (readBy_variant? (by decide)) _

theorem ThisUsage.rule_reads : rule.Reads := by
  intro patterns options hoptions
  rw [rule, Option.isSome_map]
  exact option?_isSome hoptions rfl (readBy_variant? (by decide)) _

/-- Both styles of directives are read alike. -/
theorem DirectiveStyle.ofOptions?_isSome {options : List Json}
    (h : DirectiveStyle.schema.mismatch? (.arr options) = none) : (DirectiveStyle.ofOptions? options).isSome = true :=
  option?_isSome h rfl (readBy_variant? (by decide)) _

theorem BindStyle.rule_reads : rule.Reads := by
  intro patterns options hoptions
  rw [rule, Option.isSome_map]
  exact DirectiveStyle.ofOptions?_isSome hoptions

theorem OnStyle.rule_reads : rule.Reads := by
  intro patterns options hoptions
  rw [rule, Option.isSome_map]
  exact DirectiveStyle.ofOptions?_isSome hoptions

namespace UnusedVariables

/-- Options with a pattern that the engine does not accept. -/
def RejectedPattern (patterns : PatternEngine) (options : List Json) : Prop :=
  ∃ pattern, (options[0]?).bind (·.get? "ignorePattern") = some (.str pattern) ∧ patterns.compile? pattern = none

/-- Of options that fit, the reader finds the pattern of the first, if that has one. -/
theorem option?_readPattern? {options : List Json} (h : info.schema.mismatch? (.arr options) = none) :
    ∃ pattern, Json.option? options 0 readPattern? none = some pattern ∧
      (options[0]?).bind (·.get? "ignorePattern") = pattern.map Json.str := by
  cases hfirst : options[0]? with
  | none => exact ⟨none, by simp [Json.option?, Json.readOr, hfirst], rfl⟩
  | some first =>
    have hfits : (object [("ignorePattern", text)]).mismatch? first = none := of_tuple h rfl hfirst
    cases fits_of_mismatch? hfits with
    | @object _ members _ =>
      simp only [Json.option?, Json.readOr, hfirst, readPattern?, Record.ofJson?, Record.field?, Record.get?, Option.bind_eq_bind,
        Option.bind_some]
      cases hvalue : Json.get? (.obj members) "ignorePattern" with
      | none => exact ⟨none, rfl, rfl⟩
      | some value =>
        cases fits_of_mismatch? (of_object hfits hvalue rfl) with
        | text pattern => exact ⟨some pattern, rfl, rfl⟩

/-- Options that fit are refused exactly where the engine does not accept their pattern. -/
theorem checks?_eq_none_iff {options : List Json} (h : info.schema.mismatch? (.arr options) = none) :
    rule.checks? patterns options = none ↔ RejectedPattern patterns options := by
  obtain ⟨pattern, hread, hpattern⟩ := option?_readPattern? h
  rw [rule, Option.map_eq_none_iff, Settings.ofOptions?, hread, RejectedPattern, hpattern]
  cases pattern with
  | none => simp
  | some pattern => simp

end UnusedVariables

end Rules

namespace Rule

/-- A rule other than the one with a pattern refuses no options that fit. -/
theorem Reads.checks?_eq_none_iff {rule : Rule} (h : rule.Reads) (patterns : PatternEngine)
    (hname : rule.info.name ≠ Rules.UnusedVariables.info.name) {options : List Json}
    (hoptions : rule.info.schema.mismatch? (.arr options) = none) :
    rule.checks? patterns options = none ↔
      rule.info.name = Rules.UnusedVariables.info.name ∧ Rules.UnusedVariables.RejectedPattern patterns options := by
  have hsome := h patterns options hoptions
  constructor
  · intro hnone
    rw [hnone] at hsome
    cases hsome
  · intro hrejected
    exact absurd hrejected.1 hname

/-- The options that fit the schema of a rule are refused only where they have a pattern that the engine does not accept. -/
theorem checks?_eq_none_iff (patterns : PatternEngine) {rule : Rule} (h : rule ∈ all) {options : List Json}
    (hoptions : rule.info.schema.mismatch? (.arr options) = none) :
    rule.checks? patterns options = none ↔
      rule.info.name = Rules.UnusedVariables.info.name ∧ Rules.UnusedVariables.RejectedPattern patterns options := by
  have hreads : rule.Reads → rule.info.name ≠ Rules.UnusedVariables.info.name → _ :=
    fun hreads hname => hreads.checks?_eq_none_iff patterns hname hoptions
  simp only [all, List.mem_cons, List.not_mem_nil, or_false] at h
  rcases h with rfl | rfl | rfl | rfl | rfl | rfl | rfl | rfl | rfl | rfl | rfl | rfl | rfl | rfl | rfl | rfl | rfl | rfl |
    rfl | rfl | rfl | rfl
  · exact hreads Rules.EventCasing.rule_reads (by decide)
  · exact hreads Rules.ClosingBracket.rule_reads (by decide)
  · exact hreads Rules.SelfClosing.rule_reads (by decide)
  · exact hreads Rules.MustacheSpacing.rule_reads (by decide)
  · exact hreads (fun _ _ _ => rfl) (by decide)
  · exact hreads (fun _ _ _ => rfl) (by decide)
  · exact hreads (fun _ _ _ => rfl) (by decide)
  · exact hreads (fun _ _ _ => rfl) (by decide)
  · exact hreads Rules.DuplicateAttributes.rule_reads (by decide)
  · exact hreads (fun _ _ _ => rfl) (by decide)
  · exact hreads (fun _ _ _ => rfl) (by decide)
  · exact hreads (fun _ _ _ => rfl) (by decide)
  · exact hreads (fun _ _ _ => rfl) (by decide)
  · rw [Rules.UnusedVariables.checks?_eq_none_iff hoptions]
    simp [Rules.UnusedVariables.rule]
  · exact hreads Rules.LoopCondition.rule_reads (by decide)
  · exact hreads (fun _ _ _ => rfl) (by decide)
  · exact hreads Rules.ContentBreaks.rule_reads (by decide)
  · exact hreads Rules.ThisUsage.rule_reads (by decide)
  · exact hreads Rules.BindStyle.rule_reads (by decide)
  · exact hreads Rules.HandlerCall.rule_reads (by decide)
  · exact hreads Rules.OnStyle.rule_reads (by decide)
  · exact hreads (fun _ _ _ => rfl) (by decide)

end Rule

end ComponentLint
