import ComponentLint.Proofs.Config.Options
import Mathlib.Logic.Basic

/-!
# The published schema is the enforced one

A schema is enforced by looking for a mismatch and published as JSON, in the vocabulary of JSON Schema. What the published form
means is said here without the schema it comes from (`Json.satisfies`), one keyword at a time. Provided that no object has two
properties of one name, a value satisfies the published form just where it has no mismatch.
-/

namespace ComponentLint

/-! ## Equal values -/

namespace JsonNumber

/-- The exact value as a fraction. -/
def toFraction : JsonNumber → Int × Nat
  | .whole value => (value, 1)
  | .real negative magnitude =>
    let (num, den) := magnitude.toFraction
    (if negative then -num else num, den)

/-- The order of the exact values. -/
def le (a b : JsonNumber) : Bool :=
  decide (a.toFraction.1 * b.toFraction.2 ≤ b.toFraction.1 * a.toFraction.2)

theorem le_whole {a b : Int} : le (.whole a) (.whole b) = true ↔ a ≤ b := by
  simp [le, toFraction]

end JsonNumber

namespace Json

mutual

/-- Whether two values are equal; numbers are compared by what they are, not by how they are kept. -/
def same : Json → Json → Bool
  | .null, .null => true
  | .bool a, .bool b => a == b
  | .num a, .num b => a.le b && b.le a
  | .str a, .str b => a == b
  | .arr a, .arr b => sameItems a b
  | .obj a, .obj b => sameMembers a b
  | _, _ => false

/-- Whether two lists have equal entries. -/
def sameItems : List Json → List Json → Bool
  | [], [] => true
  | a :: as, b :: bs => same a b && sameItems as bs
  | _, _ => false

/-- Whether two objects have equal members; both are in key order. -/
def sameMembers : List (String × Json) → List (String × Json) → Bool
  | [], [] => true
  | (key, a) :: as, (other, b) :: bs => key == other && same a b && sameMembers as bs
  | _, _ => false

end

/-! ## The meaning of a schema -/

/-- The entries of a list; other values have none. -/
def entryList : Json → List Json
  | .arr items => items
  | _ => []

/-- The members of an object; other values have none. -/
def memberList : Json → List (String × Json)
  | .obj members => members
  | _ => []

/-- Whether a value is of the type of the given name. A whole number is one within the signed 64 bit range. -/
def hasType (type : String) (value : Json) : Bool :=
  match type, value with
  | "null", .null => true
  | "boolean", .bool _ => true
  | "number", .num _ => true
  | "integer", .num _ => value.asInt?.isSome
  | "string", .str _ => true
  | "array", .arr _ => true
  | "object", .obj _ => true
  | _, _ => false

/-- Keywords that say something of a value without other schemas. What they do not speak of is allowed. -/
def meetsPlain (keyword : String) (argument value : Json) : Bool :=
  match keyword, argument with
  | "type", .str type => value.hasType type
  | "type", .arr types => types.any fun type => type.asString?.any value.hasType
  | "enum", .arr choices => choices.any (value.same ·)
  | "minimum", .num least =>
    match value with
    | .num number => least.le number
    | _ => true
  | "maxItems", .num limit => JsonNumber.le (.whole value.entryList.length) limit
  | "uniqueItems", .bool true => decide (value.entryList.Pairwise fun a b => a.same b = false)
  | _, _ => true

/-- The names of the properties that a schema describes. -/
def described (keywords : List (String × Json)) : List String :=
  (((Json.obj keywords).get? "properties").getD .null).memberList.map (·.1)

mutual

/-- Whether a value is as a schema says. -/
def satisfies (schema value : Json) : Bool :=
  match schema with
  | .bool accepts => accepts
  | .obj keywords => meetsAll (described keywords) value keywords
  | _ => false
termination_by structural schema

/-- Whether a value is as each of some keywords says, beside which properties of the given names are described. -/
def meetsAll (names : List String) (value : Json) (keywords : List (String × Json)) : Bool :=
  match keywords with
  | [] => true
  | keyword :: rest => meets names value keyword && meetsAll names value rest
termination_by structural keywords

/-- Whether a value is as a keyword says that has the given argument. -/
def meets (names : List String) (value : Json) (keyword : String × Json) : Bool :=
  match keyword with
  | ("items", .arr schemas) => satisfyInOrder schemas value.entryList
  | ("items", schema) => value.entryList.all fun entry => satisfies schema entry
  | ("properties", .obj properties) => satisfyByName properties value.memberList
  | ("additionalProperties", schema) =>
    value.memberList.all fun member => names.contains member.1 || satisfies schema member.2
  | ("anyOf", .arr schemas) => satisfiesSome schemas value
  | (name, argument) => meetsPlain name argument value
termination_by structural keyword

/-- Whether entries are as the schemas of their positions say. -/
def satisfyInOrder (schemas : List Json) (entries : List Json) : Bool :=
  match schemas, entries with
  | schema :: schemas, entry :: entries => satisfies schema entry && satisfyInOrder schemas entries
  | _, _ => true
termination_by structural schemas

/-- Whether members are as the schemas of their names say. -/
def satisfyByName (properties : List (String × Json)) (members : List (String × Json)) : Bool :=
  match properties with
  | [] => true
  | (name, schema) :: rest =>
    (members.all fun member => member.1 != name || satisfies schema member.2) && satisfyByName rest members
termination_by structural properties

/-- Whether a value is as one of some schemas says. -/
def satisfiesSome (schemas : List Json) (value : Json) : Bool :=
  match schemas with
  | [] => false
  | schema :: rest => satisfies schema value || satisfiesSome rest value
termination_by structural schemas

end

/-! ## What each keyword asks for -/

variable {value : Json} {names : List String}

@[simp] theorem meets_type (type : String) : meets names value ("type", .str type) = value.hasType type := rfl

@[simp] theorem meets_enum (choices : List Json) :
    meets names value ("enum", .arr choices) = choices.any (value.same ·) := rfl

@[simp] theorem meets_maxItems (limit : JsonNumber) :
    meets names value ("maxItems", .num limit) = JsonNumber.le (.whole value.entryList.length) limit := rfl

@[simp] theorem meets_uniqueItems : meets names value ("uniqueItems", .bool true) =
    decide (value.entryList.Pairwise fun a b => a.same b = false) := rfl

@[simp] theorem meets_items (keywords : List (String × Json)) : meets names value ("items", object keywords) =
    value.entryList.all fun entry => (object keywords).satisfies entry := rfl

@[simp] theorem meets_itemList (schemas : List Json) :
    meets names value ("items", .arr schemas) = satisfyInOrder schemas value.entryList := rfl

@[simp] theorem meets_properties (properties : List (String × Json)) : meets names value ("properties", object properties) =
    satisfyByName (object properties).memberList value.memberList := rfl

@[simp] theorem meets_additionalProperties : meets names value ("additionalProperties", .bool false) =
    value.memberList.all fun member => names.contains member.1 || satisfies (.bool false) member.2 := rfl

@[simp] theorem meets_anyOf (schemas : List Json) :
    meets names value ("anyOf", .arr schemas) = satisfiesSome schemas value := rfl

theorem meets_minimum {least number : Int} :
    meets names (.int number) ("minimum", .int least) = true ↔ least ≤ number :=
  JsonNumber.le_whole

theorem same_str {text : String} : value.same (.str text) = true ↔ value = .str text := by
  cases value with
  | str other => simp [same]
  | null | bool _ | num _ | arr _ | obj _ => exact iff_of_false nofun nofun

theorem exists_texts {items : List Json} (h : ∀ item ∈ items, ∃ text, item = .str text) :
    ∃ texts : List String, items = texts.map .str := by
  induction items with
  | nil => exact ⟨[], rfl⟩
  | cons item rest ih =>
    obtain ⟨⟨text, rfl⟩, hrest⟩ := List.forall_mem_cons.1 h
    obtain ⟨texts, rfl⟩ := ih hrest
    exact ⟨text :: texts, rfl⟩

theorem pairwise_same_str {texts : List String} :
    ((texts.map Json.str).Pairwise fun a b => a.same b = false) ↔ texts.Nodup := by
  simp [List.pairwise_map, same, List.Nodup]

theorem hasType_boolean : value.hasType "boolean" = true ↔ ∃ truth, value = .bool truth := by
  cases value with
  | bool truth => exact ⟨fun _ => ⟨truth, rfl⟩, fun _ => rfl⟩
  | null | num _ | str _ | arr _ | obj _ => exact iff_of_false nofun nofun

theorem hasType_string : value.hasType "string" = true ↔ ∃ text, value = .str text := by
  cases value with
  | str text => exact ⟨fun _ => ⟨text, rfl⟩, fun _ => rfl⟩
  | null | bool _ | num _ | arr _ | obj _ => exact iff_of_false nofun nofun

theorem hasType_integer : value.hasType "integer" = value.asInt?.isSome := by
  cases value with
  | num number => rfl
  | null | bool _ | str _ | arr _ | obj _ => rfl

theorem hasType_array : value.hasType "array" = true ↔ ∃ items, value = .arr items := by
  cases value with
  | arr items => exact ⟨fun _ => ⟨items, rfl⟩, fun _ => rfl⟩
  | null | bool _ | num _ | str _ | obj _ => exact iff_of_false nofun nofun

theorem hasType_object : value.hasType "object" = true ↔ ∃ members, value = .obj members := by
  cases value with
  | obj members => exact ⟨fun _ => ⟨members, rfl⟩, fun _ => rfl⟩
  | null | bool _ | num _ | str _ | arr _ => exact iff_of_false nofun nofun

theorem eq_int_of_asInt? {number : Int} (h : value.asInt? = some number) : value = .int number := by
  unfold asInt? at h
  split at h
  · split at h
    · rw [← Option.some.inj h]
      rfl
    · cases h
  · cases h

theorem meetsAll_iff {keywords : List (String × Json)} :
    meetsAll names value keywords = true ↔ ∀ keyword ∈ keywords, meets names value keyword = true := by
  induction keywords with
  | nil => simp [meetsAll]
  | cons keyword rest ih => simp [meetsAll, ih]

theorem satisfyInOrder_iff {schemas entries : List Json} : satisfyInOrder schemas entries = true ↔
    ∀ (position : Nat) (schema entry : Json), schemas[position]? = some schema → entries[position]? = some entry →
      schema.satisfies entry = true := by
  induction schemas generalizing entries with
  | nil => simp [satisfyInOrder]
  | cons schema schemas ih =>
    cases entries with
    | nil => simp [satisfyInOrder]
    | cons entry entries =>
      rw [satisfyInOrder, Bool.and_eq_true, ih]
      constructor
      · rintro ⟨hfirst, hrest⟩ position other value hother hvalue
        cases position with
        | zero =>
          obtain rfl : schema = other := by simpa using hother
          obtain rfl : entry = value := by simpa using hvalue
          exact hfirst
        | succ position => exact hrest position other value (by simpa using hother) (by simpa using hvalue)
      · intro h
        exact ⟨h 0 schema entry (by simp) (by simp), fun position other value hother hvalue =>
          h (position + 1) other value (by simpa using hother) (by simpa using hvalue)⟩

theorem satisfyByName_iff {properties members : List (String × Json)} : satisfyByName properties members = true ↔
    ∀ property ∈ properties, ∀ member ∈ members, member.1 = property.1 → property.2.satisfies member.2 = true := by
  induction properties with
  | nil => simp [satisfyByName]
  | cons property rest ih =>
    simp only [satisfyByName, Bool.and_eq_true, ih, List.forall_mem_cons, List.all_eq_true, Bool.or_eq_true, bne_iff_ne, ne_eq,
      ← Decidable.imp_iff_not_or]

theorem satisfiesSome_iff {schemas : List Json} :
    satisfiesSome schemas value = true ↔ ∃ schema ∈ schemas, schema.satisfies value = true := by
  induction schemas with
  | nil => simp [satisfiesSome]
  | cons schema rest ih => simp [satisfiesSome, ih]

/-! ## Objects keep their members -/

theorem perm_putMember {key : String} {members : List (String × Json)} (h : key ∉ members.map (·.1)) (value : Json) :
    (putMember key value members).Perm ((key, value) :: members) := by
  induction members with
  | nil => exact .refl _
  | cons member rest ih =>
    obtain ⟨other, old⟩ := member
    simp only [List.map_cons, List.mem_cons, not_or] at h
    have hother : (key == other) = false := by simpa using h.1
    simp only [putMember, hother]
    split
    · exact .refl _
    · exact ((ih h.2).cons _).trans (.swap _ _ _)

theorem perm_foldl_putMember {members : List (String × Json)} (done : List (String × Json))
    (h : ((done ++ members).map (·.1)).Nodup) :
    (members.foldl (fun done (key, value) => putMember key value done) done).Perm (done ++ members) := by
  induction members generalizing done with
  | nil => simp
  | cons member rest ih =>
    obtain ⟨key, value⟩ := member
    have hperm : (done ++ (key, value) :: rest).Perm ((key, value) :: done ++ rest) := List.perm_middle
    have hnodup := (hperm.map (·.1)).nodup_iff.1 h
    have hkey : key ∉ done.map (·.1) := by
      rw [List.map_append, List.map_cons, List.nodup_append] at h
      exact fun hmem => h.2.2 key hmem key List.mem_cons_self rfl
    have hput := (perm_putMember hkey value).append_right rest
    exact (ih _ ((hput.map (·.1)).nodup_iff.2 hnodup)).trans (hput.trans hperm.symm)

/-- An object has the members that it is built from, if no two have one key. -/
theorem perm_object {members : List (String × Json)} (h : (members.map (·.1)).Nodup) :
    (object members).memberList.Perm members :=
  perm_foldl_putMember [] h

/-- Where no two entries have one key, an entry is found by its key. -/
theorem find?_key {α : Type} {entries : List (String × α)} (h : (entries.map (·.1)).Nodup) {entry : String × α}
    (hentry : entry ∈ entries) : entries.find? (·.1 == entry.1) = some entry := by
  obtain ⟨before, after, rfl⟩ := List.append_of_mem hentry
  refine List.find?_eq_some_iff_append.2 ⟨by simp, before, after, rfl, fun other hother => ?_⟩
  rw [List.map_append, List.map_cons, List.nodup_append] at h
  simpa using h.2.2 other.1 (List.mem_map_of_mem hother) entry.1 List.mem_cons_self

/-- A value satisfies an object of keywords that differ if it is as each of them says. -/
theorem satisfies_object {keywords : List (String × Json)} (h : (keywords.map (·.1)).Nodup) :
    (object keywords).satisfies value = true ↔
      ∀ keyword ∈ keywords, meets (described (object keywords).memberList) value keyword = true := by
  have hperm := perm_object h
  have hobject : object keywords = .obj (object keywords).memberList := rfl
  rw [hobject, satisfies, meetsAll_iff]
  exact ⟨fun hall keyword hkeyword => hall keyword (hperm.mem_iff.2 hkeyword),
    fun hall keyword hkeyword => hall keyword (hperm.mem_iff.1 hkeyword)⟩

theorem described_object {keywords : List (String × Json)} (h : (keywords.map (·.1)).Nodup) {properties : Json}
    (hproperties : ("properties", properties) ∈ keywords) :
    described (object keywords).memberList = properties.memberList.map (·.1) := by
  have hperm := perm_object h
  have hfind := find?_key ((hperm.map (·.1)).nodup_iff.2 h) (hperm.mem_iff.2 hproperties)
  rw [described, get?, hfind]
  rfl

end Json

/-! ## Schemas and their published forms -/

namespace Schema

/-- No object of a schema has two properties of one name. -/
inductive Distinct : Schema → Prop where
  | choice (values : List String) : Distinct (.choice values)
  | boolean : Distinct .boolean
  | integer (minimum : Option Int) : Distinct (.integer minimum)
  | text : Distinct .text
  | texts : Distinct .texts
  | object {properties : List (String × Schema)} (hnames : (properties.map (·.1)).Nodup)
      (hproperties : ∀ property ∈ properties, Distinct property.2) : Distinct (.object properties)
  | tuple {items : List Schema} (hitems : ∀ item ∈ items, Distinct item) : Distinct (.tuple items)
  | anyOf {alternatives : List Schema} (halternatives : ∀ alternative ∈ alternatives, Distinct alternative) :
      Distinct (.anyOf alternatives)
  | anything : Distinct .anything

theorem membersToJson_eq (properties : List (String × Schema)) :
    membersToJson properties = properties.map fun property => (property.1, property.2.toJson) := by
  induction properties with
  | nil => rfl
  | cons property rest ih => simp [membersToJson, ih]

theorem allToJson_eq (schemas : List Schema) : allToJson schemas = schemas.map toJson := by
  induction schemas with
  | nil => rfl
  | cons schema rest ih => simp [allToJson, ih]

theorem alternativeMismatches_eq (schemas : List Schema) (value : Json) :
    alternativeMismatches schemas value = schemas.map (·.mismatch? value) := by
  induction schemas with
  | nil => rfl
  | cons schema rest ih => simp [alternativeMismatches, ih]

/-- A list of texts has no mismatch if the texts differ from each other and from those seen before. -/
theorem textsMismatch?_eq_none_iff {position : Nat} {seen : List String} {items : List Json} :
    textsMismatch? position seen items = none ↔
      ∃ texts : List String, items = texts.map .str ∧ texts.Nodup ∧ ∀ text ∈ texts, text ∉ seen := by
  fun_induction textsMismatch? position seen items with
  | case1 => exact ⟨fun _ => ⟨[], rfl, .nil, by simp⟩, fun _ => rfl⟩
  | case2 position seen value rest hseen =>
    refine iff_of_false (Option.some_ne_none _) ?_
    rintro ⟨texts, hitems, -, hnew⟩
    cases texts with
    | nil => cases hitems
    | cons text texts =>
      obtain ⟨rfl, -⟩ : value = text ∧ rest = texts.map .str := by simpa using hitems
      exact absurd (by simpa using hseen) (hnew value List.mem_cons_self)
  | case3 position seen value rest hseen ih =>
    rw [ih]
    constructor
    · rintro ⟨texts, rfl, hnodup, hnew⟩
      simp only [List.mem_cons, not_or] at hnew
      refine ⟨value :: texts, rfl, List.nodup_cons.2 ⟨fun hvalue => (hnew value hvalue).1 rfl, hnodup⟩, ?_⟩
      exact List.forall_mem_cons.2 ⟨by simpa using hseen, fun text htext => (hnew text htext).2⟩
    · rintro ⟨texts, hitems, hnodup, hnew⟩
      cases texts with
      | nil => cases hitems
      | cons text texts =>
        obtain ⟨rfl, rfl⟩ : value = text ∧ rest = texts.map .str := by simpa using hitems
        obtain ⟨hvalue, hnodup⟩ := List.nodup_cons.1 hnodup
        refine ⟨texts, rfl, hnodup, fun text htext => ?_⟩
        simp only [List.mem_cons, not_or]
        exact ⟨fun heq => hvalue (heq ▸ htext), hnew text (List.mem_cons_of_mem _ htext)⟩
  | case4 position seen item rest hitem =>
    refine iff_of_false (Option.some_ne_none _) ?_
    rintro ⟨texts, hitems, -, -⟩
    cases texts with
    | nil => cases hitems
    | cons text texts =>
      obtain ⟨rfl, -⟩ : item = .str text ∧ rest = texts.map .str := by simpa using hitems
      exact absurd rfl (hitem text)

/-! ### What the published form of each constructor asks for -/

variable {value : Json}

theorem satisfies_choice {values : List String} :
    (choice values).toJson.satisfies value = true ↔ ∃ name ∈ values, value = .str name := by
  refine (Json.satisfies_object (by simp)).trans ?_
  simp only [List.mem_singleton, forall_eq, Json.list, Json.meets_enum, List.any_map, List.any_eq_true, Function.comp_apply,
    Json.same_str]

theorem satisfies_boolean : boolean.toJson.satisfies value = true ↔ ∃ truth, value = .bool truth := by
  refine (Json.satisfies_object (by simp)).trans ?_
  simp only [List.mem_singleton, forall_eq, Json.meets_type, Json.hasType_boolean]

theorem satisfies_text : text.toJson.satisfies value = true ↔ ∃ text, value = .str text := by
  refine (Json.satisfies_object (by simp)).trans ?_
  simp only [List.mem_singleton, forall_eq, Json.meets_type, Json.hasType_string]

theorem satisfies_integer {minimum : Option Int} : (integer minimum).toJson.satisfies value = true ↔
    ∃ number, value.asInt? = some number ∧ ∀ least, minimum = some least → least ≤ number := by
  cases minimum with
  | none =>
    refine (Json.satisfies_object (by simp)).trans ?_
    simp [Json.hasType_integer, Option.isSome_iff_exists]
  | some least =>
    refine (Json.satisfies_object (by simp)).trans ?_
    simp only [List.forall_mem_cons, List.not_mem_nil, false_imp_iff, implies_true, and_true, Json.meets_type,
      Json.hasType_integer, Option.some.injEq, forall_eq', Option.isSome_iff_exists, ← exists_and_right]
    refine exists_congr fun number => and_congr_right fun hnumber => ?_
    obtain rfl := Json.eq_int_of_asInt? hnumber
    exact Json.meets_minimum

theorem satisfies_texts :
    texts.toJson.satisfies value = true ↔ ∃ names : List String, value = .arr (names.map .str) ∧ names.Nodup := by
  have htext (entry : Json) :
      (Json.object [("type", .str "string")]).satisfies entry = true ↔ ∃ text, entry = .str text := by
    rw [← satisfies_text, toJson]
  refine (Json.satisfies_object (by simp)).trans ?_
  simp only [List.forall_mem_cons, List.not_mem_nil, false_imp_iff, implies_true, and_true, Json.meets_type,
    Json.hasType_array, Json.meets_items, Json.meets_uniqueItems, List.all_eq_true, decide_eq_true_eq, htext]
  constructor
  · rintro ⟨⟨items, rfl⟩, htexts, hdistinct⟩
    obtain ⟨names, rfl⟩ := Json.exists_texts htexts
    exact ⟨names, rfl, Json.pairwise_same_str.1 hdistinct⟩
  · rintro ⟨names, rfl, hnodup⟩
    refine ⟨⟨_, rfl⟩, fun entry hentry => ?_, Json.pairwise_same_str.2 hnodup⟩
    obtain ⟨name, -, rfl⟩ := List.mem_map.1 hentry
    exact ⟨name, rfl⟩

/-- The published properties of an object are the published forms of its properties. -/
theorem mem_publishedProperties {properties : List (String × Schema)} (h : (properties.map (·.1)).Nodup)
    {member : String × Json} : member ∈ (Json.object (membersToJson properties)).memberList ↔
      ∃ property ∈ properties, (property.1, property.2.toJson) = member := by
  have hkeys : ((membersToJson properties).map (·.1)).Nodup := by
    simpa [membersToJson_eq, Function.comp_def] using h
  rw [(Json.perm_object hkeys).mem_iff, membersToJson_eq, List.mem_map]

/-- The published form of an object asks each member to be described, and to be as its description says. -/
theorem satisfies_properties {properties : List (String × Schema)} (h : (properties.map (·.1)).Nodup) :
    (object properties).toJson.satisfies value = true ↔ ∃ members, value = .obj members ∧
      ∀ member ∈ members, ∃ property, properties.find? (·.1 == member.1) = some property ∧
        property.2.toJson.satisfies member.2 = true := by
  have hdescribed : ("properties", Json.object (membersToJson properties)) ∈ [("type", .str "object"),
      ("properties", Json.object (membersToJson properties)), ("additionalProperties", .bool false)] := by
    simp
  rw [toJson, Json.satisfies_object (by simp), Json.described_object (by simp) hdescribed]
  simp only [List.forall_mem_cons, List.not_mem_nil, false_imp_iff, implies_true, and_true, Json.meets_type,
    Json.hasType_object, Json.meets_properties, Json.satisfyByName_iff, Json.meets_additionalProperties, List.all_eq_true,
    Bool.or_eq_true, List.contains_iff_mem, List.mem_map, mem_publishedProperties h]
  constructor
  · rintro ⟨⟨members, rfl⟩, hfits, hknown⟩
    refine ⟨members, rfl, fun member hmember => ?_⟩
    obtain ⟨_, ⟨property, hproperty, rfl⟩, hname⟩ := (hknown member hmember).resolve_right Bool.false_ne_true
    rw [← hname]
    exact ⟨property, Json.find?_key h hproperty, hfits _ ⟨property, hproperty, rfl⟩ member hmember hname.symm⟩
  · rintro ⟨members, rfl, hmembers⟩
    refine ⟨⟨members, rfl⟩, ?_, fun member hmember => .inl ?_⟩
    · rintro _ ⟨property, hproperty, rfl⟩ member hmember hname
      obtain ⟨found, hfound, hfits⟩ := hmembers member hmember
      rw [hname, Json.find?_key h hproperty] at hfound
      obtain rfl := Option.some.inj hfound
      exact hfits
    · obtain ⟨found, hfound, -⟩ := hmembers member hmember
      exact ⟨_, ⟨found, List.mem_of_find?_eq_some hfound, rfl⟩, by simpa using List.find?_some hfound⟩

theorem satisfies_tuple {items : List Schema} : (tuple items).toJson.satisfies value = true ↔
    ∃ values, value = .arr values ∧ values.length ≤ items.length ∧
      ∀ (position : Nat) (item : Schema) (value : Json), items[position]? = some item →
        values[position]? = some value → item.toJson.satisfies value = true := by
  refine (Json.satisfies_object (by simp)).trans ?_
  simp only [List.forall_mem_cons, List.not_mem_nil, false_imp_iff, implies_true, and_true, Json.meets_type,
    Json.hasType_array, Json.meets_itemList, Json.satisfyInOrder_iff, allToJson_eq, Json.nat, Json.int, Json.meets_maxItems,
    JsonNumber.le_whole, Int.ofNat_le, List.getElem?_map, Option.map_eq_some_iff]
  constructor
  · rintro ⟨⟨values, rfl⟩, hentries, hlength⟩
    exact ⟨values, rfl, hlength, fun position item value hitem => hentries position item.toJson value ⟨item, hitem, rfl⟩⟩
  · rintro ⟨values, rfl, hlength, hentries⟩
    refine ⟨⟨values, rfl⟩, ?_, hlength⟩
    rintro position schema value ⟨item, hitem, rfl⟩
    exact hentries position item value hitem

theorem satisfies_anyOf {alternatives : List Schema} : (anyOf alternatives).toJson.satisfies value = true ↔
    ∃ alternative ∈ alternatives, alternative.toJson.satisfies value = true := by
  rw [toJson, Json.satisfies_object (by simp), allToJson_eq]
  simp only [List.mem_singleton, forall_eq, Json.meets_anyOf, Json.satisfiesSome_iff, List.mem_map, exists_exists_and_eq_and]

theorem satisfies_anything : anything.toJson.satisfies value = true := by
  rw [toJson, Json.satisfies_object (by simp)]
  simp

/-! ### What fits each constructor -/

theorem fits_boolean : boolean.Fits value ↔ ∃ truth, value = .bool truth := by
  constructor
  · rintro ⟨⟩
    exact ⟨_, rfl⟩
  · rintro ⟨truth, rfl⟩
    exact .boolean truth

theorem fits_text : text.Fits value ↔ ∃ text, value = .str text := by
  constructor
  · rintro ⟨⟩
    exact ⟨_, rfl⟩
  · rintro ⟨text, rfl⟩
    exact .text text

theorem fits_integer {minimum : Option Int} : (integer minimum).Fits value ↔
    ∃ number, value.asInt? = some number ∧ ∀ least, minimum = some least → least ≤ number := by
  constructor
  · intro h
    cases h with
    | integer hnumber hleast => exact ⟨_, hnumber, hleast⟩
  · rintro ⟨number, hnumber, hleast⟩
    exact .integer hnumber hleast

theorem fits_choice {values : List String} : (choice values).Fits value ↔ ∃ name ∈ values, value = .str name := by
  constructor
  · intro h
    cases h with
    | choice hname => exact ⟨_, hname, rfl⟩
  · rintro ⟨name, hname, rfl⟩
    exact .choice hname

theorem fits_texts : texts.Fits value ↔ ∃ names : List String, value = .arr (names.map .str) ∧ names.Nodup := by
  constructor
  · intro h
    cases h with
    | texts hitems =>
      obtain ⟨names, rfl, hnodup, -⟩ := textsMismatch?_eq_none_iff.1 hitems
      exact ⟨names, rfl, hnodup⟩
  · rintro ⟨names, rfl, hnodup⟩
    exact .texts (textsMismatch?_eq_none_iff.2 ⟨names, rfl, hnodup, by simp⟩)

theorem fits_object {properties : List (String × Schema)} : (object properties).Fits value ↔
    ∃ members, value = .obj members ∧ ∀ member ∈ members, ∃ property,
      properties.find? (·.1 == member.1) = some property ∧ property.2.mismatch? member.2 = none := by
  constructor
  · intro h
    cases h with
    | object hmembers => exact ⟨_, rfl, hmembers⟩
  · rintro ⟨members, rfl, hmembers⟩
    exact .object hmembers

theorem fits_tuple {items : List Schema} : (tuple items).Fits value ↔
    ∃ values, value = .arr values ∧ values.length ≤ items.length ∧
      ∀ (position : Nat) (item : Schema) (value : Json), items[position]? = some item →
        values[position]? = some value → item.mismatch? value = none := by
  constructor
  · intro h
    cases h with
    | tuple hlength hentries => exact ⟨_, rfl, hlength, hentries⟩
  · rintro ⟨values, rfl, hlength, hentries⟩
    exact .tuple hlength hentries

theorem fits_anyOf {alternatives : List Schema} : (anyOf alternatives).Fits value ↔
    ∃ alternative ∈ alternatives, alternative.mismatch? value = none := by
  rw [← List.mem_map, ← alternativeMismatches_eq]
  constructor
  · intro h
    cases h with
    | anyOf hany => exact hany
  · exact .anyOf

/-- The published schema is the enforced one: where no object has two properties of one name, a value has no mismatch just
where it is as the published form says. -/
theorem mismatch?_eq_none_iff_satisfies {schema : Schema} (h : schema.Distinct) (value : Json) :
    schema.mismatch? value = none ↔ schema.toJson.satisfies value = true := by
  induction h generalizing value with
  | anything => exact iff_of_true (mismatch?_eq_none_iff.2 (.anything value)) satisfies_anything
  | boolean => rw [mismatch?_eq_none_iff, fits_boolean, satisfies_boolean]
  | text => rw [mismatch?_eq_none_iff, fits_text, satisfies_text]
  | integer minimum => rw [mismatch?_eq_none_iff, fits_integer, satisfies_integer]
  | choice values => rw [mismatch?_eq_none_iff, fits_choice, satisfies_choice]
  | texts => rw [mismatch?_eq_none_iff, fits_texts, satisfies_texts]
  -- Where a schema has parts, a part has no mismatch just where its published form is met.
  | object hnames hproperties ih =>
    rw [mismatch?_eq_none_iff, fits_object, satisfies_properties hnames]
    refine exists_congr fun members => and_congr_right fun _ => forall₂_congr fun member _ => ?_
    refine exists_congr fun property => and_congr_right fun hfound => ?_
    exact ih property (List.mem_of_find?_eq_some hfound) member.2
  | tuple hitems ih =>
    rw [mismatch?_eq_none_iff, fits_tuple, satisfies_tuple]
    refine exists_congr fun values => and_congr_right fun _ => and_congr_right fun _ => ?_
    refine forall₃_congr fun position item value => forall₂_congr fun hitem _ => ?_
    exact ih item (List.mem_of_getElem? hitem) value
  | anyOf halternatives ih =>
    rw [mismatch?_eq_none_iff, fits_anyOf, satisfies_anyOf]
    exact exists_congr fun alternative => and_congr_right fun halternative => ih alternative halternative value

/-- Options of the rule on the casing of events, with the given names to ignore. -/
def eventOptions (ignored : List String) : Json :=
  .arr [.str "kebab-case", .obj [("ignores", .arr (ignored.map .str))]]

theorem mismatch?_eq_none_iff_satisfies_events : Rules.EventCasing.info.schema.Distinct ∧
    Rules.EventCasing.info.schema.toJson.satisfies (eventOptions ["a", "b"]) = true ∧
    ¬ Rules.EventCasing.info.schema.toJson.satisfies (eventOptions ["a", "a"]) = true := by
  have hignores : (object [("ignores", texts)]).Distinct := .object (by simp) (by simp [Distinct.texts])
  have hdistinct : Rules.EventCasing.info.schema.Distinct := .tuple (by simp [Distinct.choice, hignores])
  refine ⟨hdistinct, (mismatch?_eq_none_iff_satisfies hdistinct _).1 rfl, fun hmeets => ?_⟩
  exact nomatch (mismatch?_eq_none_iff_satisfies hdistinct _).2 hmeets

end Schema

end ComponentLint
