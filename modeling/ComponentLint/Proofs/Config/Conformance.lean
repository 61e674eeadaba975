import ComponentLint.Proofs.Config.PublishedSchema
import Mathlib.Algebra.Group.Int.Defs

/-!
# What a schema accepts

`Schema.Conforms` says what a schema means by how it is built, without looking for a mismatch. A value has no mismatch just where
it conforms, and the place of a mismatch is written as steps that lead from the whole value to a part of it that is there
(`Schema.mismatch?_exact`).
-/

namespace ComponentLint

/-- A value has a part at a place. The place of the whole is `options`; from a value on, the place of a member is written with a
dot and the key, and that of an entry with the position in brackets. -/
inductive Json.HasAt (whole : Json) : String → Json → Prop where
  | whole : HasAt whole "options" whole
  | member {place key : String} {members : List (String × Json)} {part : Json} (hobject : HasAt whole place (.obj members))
      (hmember : (key, part) ∈ members) : HasAt whole (place ++ ("." ++ key)) part
  | entry {place : String} {items : List Json} {position : Nat} {part : Json} (hlist : HasAt whole place (.arr items))
      (hentry : items[position]? = some part) : HasAt whole (place ++ ("[" ++ toString position ++ "]")) part

theorem Json.asInt?_eq_some_iff {value : Json} {number : Int} :
    value.asInt? = some number ↔ value = .int number ∧ -2 ^ 63 ≤ number ∧ number < 2 ^ 63 := by
  have hrange : Int64.minValue.toInt ≤ number ∧ number ≤ Int64.maxValue.toInt ↔ -2 ^ 63 ≤ number ∧ number < 2 ^ 63 := by
    rw [Int64.toInt_minValue, Int64.toInt_maxValue, Int.le_sub_one_iff]
  constructor
  · intro h
    obtain rfl := eq_int_of_asInt? h
    exact ⟨rfl, hrange.1 (Option.ite_none_right_eq_some.1 h).1⟩
  · rintro ⟨rfl, hnumber⟩
    exact if_pos (hrange.2 hnumber)

namespace Schema

/-- What a schema accepts. Of several properties of one name the first counts. -/
inductive Conforms : Schema → Json → Prop where
  | choice {values : List String} {name : String} (hname : name ∈ values) : Conforms (.choice values) (.str name)
  | boolean (truth : Bool) : Conforms .boolean (.bool truth)
  | integer {minimum : Option Int} {number : Int} (hrange : -2 ^ 63 ≤ number ∧ number < 2 ^ 63)
      (hleast : ∀ least, minimum = some least → least ≤ number) : Conforms (.integer minimum) (.int number)
  | text (text : String) : Conforms .text (.str text)
  | texts {names : List String} (hnodup : names.Nodup) : Conforms .texts (.arr (names.map .str))
  | object {properties : List (String × Schema)} {members : List (String × Json)}
      (hdeclared : ∀ member ∈ members, member.1 ∈ properties.map (·.1))
      (hmembers : ∀ member ∈ members, ∀ property, properties.find? (·.1 == member.1) = some property →
        Conforms property.2 member.2) : Conforms (.object properties) (.obj members)
  | tuple {items : List Schema} {values : List Json} (hlength : values.length ≤ items.length)
      (hentries : ∀ (position : Nat) (item : Schema) (value : Json), items[position]? = some item →
        values[position]? = some value → Conforms item value) : Conforms (.tuple items) (.arr values)
  | anyOf {alternatives : List Schema} {alternative : Schema} {value : Json} (halternative : alternative ∈ alternatives)
      (h : Conforms alternative value) : Conforms (.anyOf alternatives) value
  | anything (value : Json) : Conforms .anything value

/-- What holds of a schema if it holds of its parts holds of all schemas. -/
theorem induction_parts {motive : Schema → Prop} (choice : ∀ values, motive (.choice values)) (boolean : motive .boolean)
    (integer : ∀ minimum, motive (.integer minimum)) (text : motive .text) (texts : motive .texts)
    (object : ∀ properties, (∀ property ∈ properties, motive property.2) → motive (.object properties))
    (tuple : ∀ items, (∀ item ∈ items, motive item) → motive (.tuple items))
    (anyOf : ∀ alternatives, (∀ alternative ∈ alternatives, motive alternative) → motive (.anyOf alternatives))
    (anything : motive .anything) (schema : Schema) : motive schema :=
  @Schema.rec motive (fun properties => ∀ property ∈ properties, motive property.2) (fun items => ∀ item ∈ items, motive item)
    (fun property => motive property.2) choice boolean integer text texts object tuple anyOf anything
    nofun (fun _ _ hfirst hrest => List.forall_mem_cons.2 ⟨hfirst, hrest⟩)
    nofun (fun _ _ hfirst hrest => List.forall_mem_cons.2 ⟨hfirst, hrest⟩) (fun _ _ h => h) schema

variable {schema : Schema} {value : Json} {mismatch : Mismatch}

/-! ## Conforming values -/

theorem mismatch?_eq_none_iff_conforms : schema.mismatch? value = none ↔ schema.Conforms value := by
  induction schema using induction_parts generalizing value with
  | choice values =>
    rw [mismatch?_eq_none_iff, fits_choice]
    constructor
    · rintro ⟨name, hname, rfl⟩
      exact .choice hname
    · rintro ⟨hname⟩
      exact ⟨_, hname, rfl⟩
  | boolean =>
    rw [mismatch?_eq_none_iff, fits_boolean]
    constructor
    · rintro ⟨truth, rfl⟩
      exact .boolean truth
    · rintro ⟨⟩
      exact ⟨_, rfl⟩
  | integer minimum =>
    rw [mismatch?_eq_none_iff, fits_integer]
    constructor
    · rintro ⟨number, hnumber, hleast⟩
      obtain ⟨rfl, hrange⟩ := Json.asInt?_eq_some_iff.1 hnumber
      exact .integer hrange hleast
    · rintro ⟨⟩
      next hrange hleast => exact ⟨_, Json.asInt?_eq_some_iff.2 ⟨rfl, hrange⟩, hleast⟩
  | text =>
    rw [mismatch?_eq_none_iff, fits_text]
    constructor
    · rintro ⟨text, rfl⟩
      exact .text text
    · rintro ⟨⟩
      exact ⟨_, rfl⟩
  | texts =>
    rw [mismatch?_eq_none_iff, fits_texts]
    constructor
    · rintro ⟨names, rfl, hnodup⟩
      exact .texts hnodup
    · rintro ⟨⟩
      next hnodup => exact ⟨_, rfl, hnodup⟩
  | object properties ih =>
    rw [mismatch?_eq_none_iff, fits_object]
    constructor
    · rintro ⟨members, rfl, hmembers⟩
      refine .object (fun member hmember => ?_) (fun member hmember property hproperty => ?_)
      · obtain ⟨property, hproperty, -⟩ := hmembers member hmember
        exact List.mem_map.2 ⟨property, List.mem_of_find?_eq_some hproperty, by simpa using List.find?_some hproperty⟩
      · obtain ⟨found, hfound, hnone⟩ := hmembers member hmember
        obtain rfl := Option.some.inj (hfound.symm.trans hproperty)
        exact (ih found (List.mem_of_find?_eq_some hfound)).1 hnone
    · rintro ⟨⟩
      next members hdeclared hmembers =>
      refine ⟨members, rfl, fun member hmember => ?_⟩
      obtain ⟨property, hproperty, hname⟩ := List.mem_map.1 (hdeclared member hmember)
      obtain ⟨found, hfound⟩ := Option.isSome_iff_exists.1
        (List.find?_isSome (p := (·.1 == member.1)).2 ⟨property, hproperty, by simpa using hname⟩)
      exact ⟨found, hfound, (ih found (List.mem_of_find?_eq_some hfound)).2 (hmembers member hmember found hfound)⟩
  | tuple items ih =>
    rw [mismatch?_eq_none_iff, fits_tuple]
    constructor
    · rintro ⟨values, rfl, hlength, hentries⟩
      exact .tuple hlength fun position item value hitem hvalue =>
        (ih item (List.mem_of_getElem? hitem)).1 (hentries position item value hitem hvalue)
    · rintro ⟨⟩
      next values hlength hentries =>
      exact ⟨values, rfl, hlength, fun position item value hitem hvalue =>
        (ih item (List.mem_of_getElem? hitem)).2 (hentries position item value hitem hvalue)⟩
  | anyOf alternatives ih =>
    rw [mismatch?_eq_none_iff, fits_anyOf]
    constructor
    · rintro ⟨alternative, halternative, hnone⟩
      exact .anyOf halternative ((ih alternative halternative).1 hnone)
    · rintro ⟨⟩
      next alternative halternative h => exact ⟨alternative, halternative, (ih alternative halternative).2 h⟩
  | anything => exact iff_of_true (mismatch?_eq_none_iff.2 (.anything value)) (.anything value)

/-! ## The place of a mismatch -/

/-- A mismatch among texts lies at one of the entries. -/
theorem path_of_textsMismatch? {position : Nat} {seen : List String} {items : List Json}
    (h : textsMismatch? position seen items = some mismatch) :
    ∃ offset item, mismatch.path = [.index (position + offset)] ∧ items[offset]? = some item := by
  fun_induction textsMismatch? position seen items with
  | case1 => simp at h
  | case2 position seen text rest hseen => exact ⟨0, .str text, by simp [← Option.some.inj h], rfl⟩
  | case3 position seen text rest hseen ih =>
    obtain ⟨offset, item, hpath, hitem⟩ := ih h
    exact ⟨offset + 1, item, by rw [hpath, Nat.add_assoc, Nat.add_comm 1], hitem⟩
  | case4 position seen item rest => exact ⟨0, item, by simp [← Option.some.inj h], rfl⟩

/-- A mismatch among entries is that of one of them with the schema of its position. -/
theorem of_entryMismatch?_eq_some {items : List Schema} {start : Nat} {values : List Json}
    (h : entryMismatch? items start values = some mismatch) :
    ∃ (offset : Nat) (item : Schema) (value : Json) (inner : Mismatch), items[offset]? = some item ∧
      values[offset]? = some value ∧ item.mismatch? value = some inner ∧ mismatch = inner.under (.index (start + offset)) := by
  induction items generalizing start values with
  | nil => simp [entryMismatch?] at h
  | cons item items ih =>
    cases values with
    | nil => simp [entryMismatch?] at h
    | cons value values =>
      simp only [entryMismatch?] at h
      split at h
      · next inner hinner => exact ⟨0, item, value, inner, rfl, rfl, hinner, (Option.some.inj h).symm⟩
      · obtain ⟨offset, found, entry, inner, hfound, hentry, hinner, rfl⟩ := ih h
        exact ⟨offset + 1, found, entry, inner, hfound, hentry, hinner, by rw [Nat.add_assoc, Nat.add_comm 1]⟩

/-- One step further out, the steps are written behind the one taken. -/
theorem join_under (step : PathStep) (inner : Mismatch) :
    String.join ((inner.under step).path.map (·.text)) = step.text ++ String.join (inner.path.map (·.text)) := by
  simp [Mismatch.under]

variable {whole : Json} {place : String}

/-- What is wrong with a whole value is wrong at its own place. -/
theorem exists_part_of_unmet {expected : Expectation} (h : unmet expected = some mismatch) (hplace : whole.HasAt place value) :
    ∃ part, whole.HasAt (place ++ String.join (mismatch.path.map (·.text))) part := by
  obtain rfl := Option.some.inj h
  exact ⟨value, by simpa using hplace⟩

/-- The steps of a mismatch lead on from the place of the value to a part that is there. -/
theorem exists_part (h : schema.mismatch? value = some mismatch) (hplace : whole.HasAt place value) :
    ∃ part, whole.HasAt (place ++ String.join (mismatch.path.map (·.text))) part := by
  induction schema using induction_parts generalizing value place mismatch with
  | choice values =>
    simp only [mismatch?] at h
    split at h
    · split at h
      · simp at h
      · exact exists_part_of_unmet h hplace
    · exact exists_part_of_unmet h hplace
  | boolean =>
    cases value with
    | bool => simp [mismatch?] at h
    | null | num _ | str _ | arr _ | obj _ => exact exists_part_of_unmet h hplace
  | integer minimum =>
    simp only [mismatch?] at h
    split at h
    · exact exists_part_of_unmet h hplace
    · split at h
      · split at h
        · exact exists_part_of_unmet h hplace
        · simp at h
      · simp at h
  | text =>
    cases value with
    | str => simp [mismatch?] at h
    | null | num _ | bool _ | arr _ | obj _ => exact exists_part_of_unmet h hplace
  | texts =>
    cases value with
    | arr items =>
      obtain ⟨offset, item, hpath, hitem⟩ := path_of_textsMismatch? h
      refine ⟨item, ?_⟩
      simpa [hpath, PathStep.text] using hplace.entry hitem
    | null | num _ | bool _ | str _ | obj _ => exact exists_part_of_unmet h hplace
  | object properties ih =>
    cases value with
    | obj members =>
      simp only [mismatch?] at h
      obtain ⟨⟨key, value⟩, hmember, hsome⟩ := List.exists_of_findSome?_eq_some h
      obtain ⟨inner, hinner, rfl⟩ := Option.map_eq_some_iff.1 hsome
      have hmemberPlace : whole.HasAt (place ++ (PathStep.key key).text) value := hplace.member hmember
      rw [join_under, ← String.append_assoc]
      rw [memberMismatch?_eq] at hinner
      split at hinner
      · next property hproperty => exact ih property (List.mem_of_find?_eq_some hproperty) hinner hmemberPlace
      · exact exists_part_of_unmet hinner hmemberPlace
    | null | num _ | bool _ | str _ | arr _ => exact exists_part_of_unmet h hplace
  | tuple items ih =>
    cases value with
    | arr values =>
      simp only [mismatch?] at h
      split at h
      · exact exists_part_of_unmet h hplace
      · obtain ⟨position, item, value, inner, hitem, hvalue, hinner, rfl⟩ := of_entryMismatch?_eq_some h
        rw [join_under, ← String.append_assoc, Nat.zero_add]
        exact ih item (List.mem_of_getElem? hitem) hinner (hplace.entry hvalue)
    | null | num _ | bool _ | str _ | obj _ => exact exists_part_of_unmet h hplace
  | anyOf alternatives ih =>
    simp only [mismatch?] at h
    split at h
    · exact exists_part_of_unmet h hplace
    · next first others halternatives =>
      split at h
      · simp at h
      · have hfirst : some mismatch ∈ alternativeMismatches alternatives value := by simp [halternatives, h]
        rw [alternativeMismatches_eq] at hfirst
        obtain ⟨alternative, halternative, hsome⟩ := List.mem_map.1 hfirst
        exact ih alternative halternative hsome hplace
  | anything => simp [mismatch?] at h

/-- A value has no mismatch with a schema just where it conforms to it, and the place of a mismatch is that of a part of the
value. -/
theorem mismatch?_exact (schema : Schema) (value : Json) :
    (schema.mismatch? value = none ↔ schema.Conforms value) ∧
      ∀ mismatch, schema.mismatch? value = some mismatch → ∃ part, value.HasAt mismatch.place part :=
  ⟨mismatch?_eq_none_iff_conforms, fun _ h => exists_part h .whole⟩

/-- Two equal entries of a list of texts: the second one is a duplicate, and it is there. -/
theorem mismatch?_exact_duplicate :
    Rules.EventCasing.info.schema.Conforms (.arr [.str "kebab-case", .obj [("ignores", .arr [.str "a", .str "b"])]]) ∧
      ¬ Rules.EventCasing.info.schema.Conforms (.arr [.str "kebab-case", .obj [("ignores", .arr [.str "a", .str "a"])]]) ∧
      ∃ part, (Json.arr [.str "kebab-case", .obj [("ignores", .arr [.str "a", .str "a"])]]).HasAt
        "options[1].ignores[1]" part := by
  have hnone : Rules.EventCasing.info.schema.mismatch?
      (.arr [.str "kebab-case", .obj [("ignores", .arr [.str "a", .str "b"])]]) = none := by decide +kernel
  have hsome : Rules.EventCasing.info.schema.mismatch?
      (.arr [.str "kebab-case", .obj [("ignores", .arr [.str "a", .str "a"])]]) =
        some ⟨[.index 1, .key "ignores", .index 1], .distinct⟩ := by decide +kernel
  refine ⟨(mismatch?_exact _ _).1.1 hnone, fun h => ?_, ?_⟩
  · simp [(mismatch?_exact _ _).1.2 h] at hsome
  · exact (mismatch?_exact _ _).2 _ hsome

end Schema

end ComponentLint
