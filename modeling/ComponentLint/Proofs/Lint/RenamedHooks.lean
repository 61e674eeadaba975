import ComponentLint.Proofs.Component.Edits
import ComponentLint.Proofs.Fix.Drafting
import ComponentLint.Proofs.Fix.Splice
import ComponentLint.Proofs.Lint.ScriptRules
import ComponentLint.Proofs.Lint.Walk
import ComponentLint.Rules.DestroyedHooks

/-!
# New names for hooks

A fix exchanges a plain key of the options object that names a renamed hook for the new name, which no plain key has. When the
output is parsed again, the object has the same properties with the same values, that one under its new name, and every reference
stands for what it stood for (`lintFile_fix_renames`), as long as the parser reads the new name where it read the key. A shorthand
property has its value where its key is, so the fix exchanges the value as well (`not_keepsValue_shorthand`).
-/

namespace ComponentLint.Rules.DestroyedHooks

open Text Markup

variable {languages : Script.Languages} {patterns : PatternEngine}

/-- The new name of a key: that of the hook that it names, unless a plain key has that name already. -/
def newName? (keys : List Name) (key : Name) : Option String :=
  (renamedHooks.find? (·.oldName == key.text)).bind fun hook =>
    if keys.any (·.text == hook.newName) then none else some hook.newName

/-! ## Names -/

section Names

variable {keys : List Name} {key : Name} {name : String}

theorem newName?_eq_some_iff : newName? keys key = some name ↔
    (∃ hook ∈ renamedHooks, key.text = hook.oldName ∧ name = hook.newName) ∧ ∀ other ∈ keys, other.text ≠ name := by
  have hfind : ∀ hook ∈ renamedHooks, renamedHooks.find? (·.oldName == hook.oldName) = some hook := by decide +kernel
  rw [newName?, Option.bind_eq_some_iff]
  constructor
  · rintro ⟨hook, hhook, hfree⟩
    rw [Option.ite_none_left_eq_some, List.any_eq_true] at hfree
    obtain ⟨htaken, hname⟩ := hfree
    obtain rfl := Option.some.inj hname
    have hold : (hook.oldName == key.text) = true :=
      List.find?_some (p := fun hook : RenamedHook => hook.oldName == key.text) hhook
    refine ⟨⟨hook, List.mem_of_find?_eq_some hhook, (eq_of_beq hold).symm, rfl⟩, fun other hother heq => ?_⟩
    exact htaken ⟨other, hother, beq_iff_eq.2 heq⟩
  · rintro ⟨⟨hook, hhook, hkey, rfl⟩, hfree⟩
    refine ⟨hook, by rw [hkey, hfind hook hhook], if_neg ?_⟩
    rw [List.any_eq_true]
    rintro ⟨other, hother, heq⟩
    exact hfree other hother (eq_of_beq heq)

/-- A new name is a word that is longer than the name of any block. -/
theorem word_of_newName? (h : newName? keys key = some name) : (∀ c ∈ name.toList, Neutral c) ∧ 6 < name.toList.length := by
  have hwords : ∀ hook ∈ renamedHooks, hook.newName.toList.all (fun c => decide (Neutral c)) = true ∧
      6 < hook.newName.toList.length := by
    decide +kernel
  obtain ⟨⟨hook, hhook, -, rfl⟩, -⟩ := newName?_eq_some_iff.1 h
  obtain ⟨hneutral, hlong⟩ := hwords hook hhook
  exact ⟨fun c hc => of_decide_eq_true (List.all_eq_true.1 hneutral c hc), hlong⟩

end Names

/-! ## Properties -/

/-- Properties that stand one behind another, each with its value behind its key or in the same place; a plain
key is one token. -/
structure Ordered (object : Script.Node) : Prop where
  keys : ∀ property ∈ Options.properties object, property.computed = false →
    property.key.children = [] ∧ property.key.span.start < property.key.span.stop
  values : ∀ property ∈ Options.properties object,
    property.value.span = property.key.span ∨ property.key.span.stop ≤ property.value.span.start
  apart : (Options.properties object).Pairwise fun first second => first.value.span.stop ≤ second.key.span.start

instance (object : Script.Node) : Decidable (Ordered object) :=
  decidable_of_iff (_ ∧ _ ∧ _) ⟨fun h => ⟨h.1, h.2.1, h.2.2⟩, fun h => ⟨h.keys, h.values, h.apart⟩⟩

/-- A property of a file and the same one of the output, under a name. -/
structure Kept (source output : List Char) (name : String) (old new : OptionProperty) : Prop where
  computed : new.computed = old.computed
  name : new.name = name
  value : slice output new.value.span = slice source old.value.span

/-- The edit that exchanges a plain key for a name. -/
def keyEdit (source output : List Char) (key : Span) (name : String) : Script.Likeness where
  place := (Revision.cut source output key.start key.stop (key.start + byteLength name.toList)).SamePlace
  exchange? around node :=
    match around with
    | .property _ false =>
      if node.span = key ∧ node.children = [] ∧ node.staticName?.isSome then
        some (.propertyName name, ⟨key.start, key.start + byteLength name.toList⟩)
      else none
    | _ => none

/-- The script of the options is read with a name in place of a key as it is read with the key, but for that key. -/
def Rereads (languages : Script.Languages) (source output : List Char) (key : Span) (name : String) : Prop :=
  ∀ block ∈ (Component.parse languages source).plainScript?, (keyEdit source output key name).AllAlike .absent block.statements
    (((languages (ScriptBlock.dialectOf block.lang)).program (slice source ⟨block.content.start, key.start⟩ ++
      (name.toList ++ slice source ⟨key.stop, block.content.stop⟩))).program.shift block.content.start).statements

instance (source output : List Char) (key : Span) (name : String) : DecidableRel (keyEdit source output key name).place :=
  inferInstanceAs (DecidableRel (Revision.cut source output key.start key.stop (key.start + byteLength name.toList)).SamePlace)

instance (languages : Script.Languages) (source output : List Char) (key : Span) (name : String) :
    Decidable (Rereads languages source output key name) :=
  inferInstanceAs (Decidable (∀ block ∈ (Component.parse languages source).plainScript?, _))

/-- What becomes of an object where the key of a property is exchanged for a name. -/
structure Renames (languages : Script.Languages) (source output : List Char) (object : Script.Node) (property : OptionProperty)
    (name : String) (object' : Script.Node) : Prop where
  /-- The properties are the same in the same order, that one under its new name. -/
  properties : ∃ before after before' property' after', Options.properties object = before ++ property :: after ∧
    Options.properties object' = before' ++ property' :: after' ∧ Kept source output name property property' ∧
    List.Forall₂ (fun old new => Kept source output old.name old new) before before' ∧
    List.Forall₂ (fun old new => Kept source output old.name old new) after after'
  /-- Every reference stands for the binding that it stood for. -/
  bindings : (File.ofSource languages source).scopes.Alike
    (Revision.cut source output property.key.span.start property.key.span.stop
      (property.key.span.start + byteLength name.toList)).SamePlace (fun _ => False) (File.ofSource languages output).scopes
  /-- Names that were different still are, unless a computed key has the new name. -/
  distinct : (∀ first ∈ (Options.properties object).zip (Options.properties object'),
      ∀ second ∈ (Options.properties object).zip (Options.properties object'),
        first.1.name ≠ second.1.name → first.2.name ≠ second.2.name) ↔
    ∀ other ∈ Options.properties object, other.computed = true → other.name ≠ name

section Renaming

variable {source output : List Char} {key : Span} {name : String} {object object' : Script.Node} {property : OptionProperty}

theorem exchange?_keyEdit {around : Script.Kind} {node : Script.Node} {leaf : Script.Kind × Span} :
    (keyEdit source output key name).exchange? around node = some leaf ↔ (∃ form, around = .property form false) ∧
      (node.span = key ∧ node.children = [] ∧ node.staticName?.isSome = true) ∧
      leaf = (.propertyName name, ⟨key.start, key.start + byteLength name.toList⟩) := by
  unfold keyEdit
  dsimp only
  split
  · rw [Option.ite_none_right_eq_some, Option.some.injEq]
    exact ⟨fun ⟨hkey, heq⟩ => ⟨⟨_, rfl⟩, hkey, heq.symm⟩, fun ⟨_, hkey, heq⟩ => ⟨hkey, heq.symm⟩⟩
  · next hother => exact iff_of_false nofun fun ⟨⟨form, heq⟩, _⟩ => hother form heq

/-- Nothing is collected from a key that is known without running the script. -/
theorem collect_static {node : Script.Node} (hname : node.staticName?.isSome = true) (hnone : node.children = [])
    (here : Place) (use : Use)
    (table : ScopeTable) : ScopeTable.collect here use table node = table := by
  obtain ⟨kind, span, children⟩ := node
  obtain rfl : children = [] := hnone
  cases kind <;> first | rfl | cases hname

theorem harmless_keyEdit (hsome : key.start < key.stop) (hname : 0 < byteLength name.toList) :
    ScopeTable.Harmless (keyEdit source output key name) (fun _ => False) where
  quiet around node leaf h := by
    obtain ⟨⟨form, rfl⟩, -⟩ := exchange?_keyEdit.1 h
    exact .inl rfl
  calls around node leaf h := by
    obtain ⟨⟨form, rfl⟩, ⟨-, -, hstatic⟩, rfl⟩ := exchange?_keyEdit.1 h
    obtain ⟨kind, span, children⟩ := node
    cases kind <;> first | exact ⟨rfl, rfl, fun hcall => by cases hcall⟩ | cases hstatic
  declarators keyword node := rfl
  unique := Revision.cut_unique hsome (Nat.lt_add_of_pos_right hname)
  collects around node leaf h here use old new halike := by
    obtain ⟨-, ⟨-, hnone, hstatic⟩, rfl⟩ := exchange?_keyEdit.1 h
    rw [collect_static hstatic hnone, collect_static rfl rfl]
    exact halike
  requires around node leaf h here kind scope module old new halike := by
    obtain ⟨-, ⟨-, hnone, hstatic⟩, rfl⟩ := exchange?_keyEdit.1 h
    obtain ⟨form, span, children⟩ := node
    obtain rfl : children = [] := hnone
    cases form <;> first | exact halike | cases hstatic

theorem inProperties_keyEdit : (keyEdit source output key name).InProperties := by
  intro around node leaf h
  obtain ⟨⟨form, rfl⟩, -⟩ := exchange?_keyEdit.1 h
  rfl

theorem edits_keyEdit (hsome : key.start < key.stop) : (keyEdit source output key name).Edits source output key.start key.stop
    (key.start + byteLength name.toList) where
  place := rfl
  ordered := hsome
  inside around node leaf h := by
    obtain ⟨-, ⟨hspan, -, -⟩, -⟩ := exchange?_keyEdit.1 h
    rw [hspan]
    exact ⟨Nat.le_refl _, hsome, Nat.le_refl _⟩

/-- Properties that are the same, but for a key that is exchanged. -/
structure Alike (source output : List Char) (key : Span) (name : String) (old new : OptionProperty) : Prop where
  computed : new.computed = old.computed
  exchanged : old.computed = false → old.key.span = key → old.key.children = [] → new.name = name
  kept : (old.computed = false → old.key.span ≠ key) → new.name = old.name
  value : old.value.span ≠ key →
    (Revision.cut source output key.start key.stop (key.start + byteLength name.toList)).SamePlace old.value.span new.value.span

theorem property_alike {form : Script.PropertyForm} {computed : Bool} {span span' : Span}
    {keyNode keyNode' value value' : Script.Node}
    (hkey : (keyEdit source output key name).Alike (.property form computed) keyNode keyNode')
    (hvalue : (keyEdit source output key name).Alike (.property form computed) value value') :
    Option.Rel (Alike source output key name) (OptionProperty.of? ⟨.property form computed, span, [keyNode, value]⟩)
      (OptionProperty.of? ⟨.property form computed, span', [keyNode', value']⟩) := by
  have hplace : value.span ≠ key → (Revision.cut source output key.start key.stop
      (key.start + byteLength name.toList)).SamePlace value.span value'.span := by
    intro hne
    rcases hvalue.cases with ⟨leaf, hleaf, -⟩ | ⟨-, hsame⟩
    · exact absurd (exchange?_keyEdit.1 hleaf).2.1.1 hne
    · exact hsame.place
  unfold OptionProperty.of?
  dsimp only
  rcases hkey.cases with ⟨leaf, hleaf, rfl⟩ | ⟨hkept, hsame⟩
  · obtain ⟨-, ⟨hspan, hnone, hstatic⟩, rfl⟩ := exchange?_keyEdit.1 hleaf
    obtain ⟨old, hold⟩ := Option.isSome_iff_exists.1 hstatic
    have hcomputed : computed = false := by
      obtain ⟨⟨other, hform⟩, -⟩ := exchange?_keyEdit.1 hleaf
      exact (Script.Kind.property.inj hform).2
    rw [hold]
    exact .some ⟨rfl, fun _ _ _ => rfl, fun hne => absurd hspan (hne hcomputed), hplace⟩
  · rw [hsame.staticName?_eq]
    cases hold : keyNode.staticName? with
    | none => exact .none
    | some old =>
      refine .some ⟨rfl, fun hcomputed hspan hnone => ?_, fun _ => rfl, hplace⟩
      obtain rfl : computed = false := hcomputed
      cases hkept.symm.trans (exchange?_keyEdit.2 ⟨⟨form, rfl⟩, ⟨hspan, hnone, by rw [hold]; rfl⟩, rfl⟩)

theorem properties_alike (hobject : object.kind = .object) (h : (keyEdit source output key name).Same object object') :
    List.Forall₂ (Alike source output key name) (Options.properties object) (Options.properties object') := by
  have hparts := h.parts
  rw [hobject] at hparts
  refine List.rel_filterMap (fun member member' hmember => ?_) hparts.forall₂
  have hsame := hmember.same_of_kept inProperties_keyEdit rfl
  obtain ⟨kind, span, children⟩ := member
  cases kind with
  | property form computed =>
    obtain ⟨span', children', rfl, -, hparts⟩ := hsame.inv rfl
    cases hparts with
    | nil => exact .none
    | @cons _ keyNode keyNode' _ _ hkey hrest =>
      cases hrest with
      | nil => exact .none
      | @cons _ value value' _ _ hvalue hrest =>
        cases hrest with
        | cons => exact .none
        | nil => exact property_alike hkey hvalue
  | member memberName nameSpan optional =>
    obtain ⟨nameSpan', span', children', rfl, -⟩ := hsame.member
    exact .none
  | _ =>
    obtain ⟨span', children', rfl, -, -⟩ := hsame.inv rfl
    exact .none

theorem forall₂_append_left {α β : Type} {R : α → β → Prop} {xs xs' : List α} {ys : List β} (h : List.Forall₂ R (xs ++ xs') ys) :
    ∃ zs zs', ys = zs ++ zs' ∧ List.Forall₂ R xs zs ∧ List.Forall₂ R xs' zs' := by
  induction xs generalizing ys with
  | nil => exact ⟨[], ys, rfl, .nil, h⟩
  | cons x xs ih =>
    cases h with
    | @cons _ y _ rest hxy hrest =>
      obtain ⟨zs, zs', rfl, hfirst, hlast⟩ := ih hrest
      exact ⟨y :: zs, zs', rfl, .cons hxy hfirst, hlast⟩

/-- A value neither starts nor ends in front of its key. -/
theorem Ordered.key_le {text : List Char} {first last : Nat} (h : Ordered object) (hlies : object.Lies text first last)
    (hproperty : property ∈ Options.properties object) : property.key.span.start ≤ property.value.span.start ∧
      property.key.span.stop ≤ property.value.span.stop := by
  obtain ⟨hkey, hvalue⟩ := hlies.property hproperty
  have hkeyLe := hkey.span.ordered
  have hvalueLe := hvalue.span.ordered
  rcases h.values property hproperty with heq | hle
  · rw [heq]
    exact ⟨Nat.le_refl _, Nat.le_refl _⟩
  · omega

/-- A plain key is apart from the other keys and from their values. -/
theorem Ordered.split {text : List Char} {first last : Nat} (h : Ordered object) (hlies : object.Lies text first last)
    (hproperty : property ∈ Options.properties object) (hplain : property.computed = false) : ∃ before after,
      Options.properties object = before ++ property :: after ∧ ∀ other, other ∈ before ∨ other ∈ after →
        other.key.span ≠ property.key.span ∧ (other.value.span.stop ≤ property.key.span.start ∨
          property.key.span.stop ≤ other.value.span.start) := by
  obtain ⟨before, after, hsplit⟩ := List.append_of_mem hproperty
  have happart := h.apart
  rw [hsplit, List.pairwise_append, List.pairwise_cons] at happart
  obtain ⟨-, ⟨hafter, -⟩, hbefore⟩ := happart
  have hsome := (h.keys property hproperty hplain).2
  have hkey := h.key_le hlies hproperty
  refine ⟨before, after, hsplit, fun other hother => ?_⟩
  have hmem : other ∈ Options.properties object := by
    rw [hsplit]
    rcases hother with hmem | hmem
    · exact List.mem_append_left _ hmem
    · exact List.mem_append_right _ (List.mem_cons_of_mem _ hmem)
  have hle := h.key_le hlies hmem
  rcases hother with hmem | hmem
  · have hstop := hbefore other hmem property List.mem_cons_self
    exact ⟨fun heq => by rw [heq] at hle; omega, .inl hstop⟩
  · have hstart := hafter other hmem
    exact ⟨fun heq => by rw [heq] at hstart; omega, .inr (by omega)⟩

/-- A property whose value is apart from the key that is exchanged keeps the text of its value. -/
theorem Alike.value_text {old new : OptionProperty} (h : Alike source output key name old new) {front word back : List Char}
    (hsource : source = front ++ (word ++ back)) (houtput : output = front ++ (name.toList ++ back)) (hsome : word ≠ [])
    (hkey : key = ⟨byteLength front, byteLength front + byteLength word⟩) (hvalue : old.value.span.InText source)
    (hapart : old.value.span.stop ≤ key.start ∨ key.stop ≤ old.value.span.start) :
    slice output new.value.span = slice source old.value.span := by
  have hpos := (byteLength_pos_iff word).2 hsome
  have hplace := h.value fun heq => by
    rw [heq, hkey] at hapart
    dsimp only at hapart
    omega
  rw [hkey] at hplace hapart
  exact Revision.slice_cut hsource houtput hsome hvalue hplace hapart

/-- Names that were different still are, unless a computed key has the new name. -/
theorem distinct_of_alike (hproperty : property ∈ Options.properties object) (hplain : property.computed = false)
    (hnone : property.key.children = []) (hnew : newName? (plainKeys object) ⟨property.name, property.key.span⟩ = some name)
    (honly : ∀ other ∈ Options.properties object, other ≠ property → other.key.span ≠ property.key.span)
    (h : List.Forall₂ (Alike source output property.key.span name) (Options.properties object) (Options.properties object')) :
    (∀ first ∈ (Options.properties object).zip (Options.properties object'),
      ∀ second ∈ (Options.properties object).zip (Options.properties object'),
        first.1.name ≠ second.1.name → first.2.name ≠ second.2.name) ↔
      ∀ other ∈ Options.properties object, other.computed = true → other.name ≠ name := by
  obtain ⟨-, hfree⟩ := newName?_eq_some_iff.1 hnew
  obtain ⟨hlength, hpairs⟩ := List.forall₂_iff_zip.1 h
  have hplainFree : ∀ other ∈ Options.properties object, other.computed = false → other.name ≠ name :=
    fun other hother hcomputed =>
    hfree ⟨other.name, other.key.span⟩ (List.mem_map.2 ⟨other, List.mem_filter.2 ⟨hother, by rw [hcomputed]; rfl⟩, rfl⟩)
  have hnames : ∀ pair ∈ (Options.properties object).zip (Options.properties object'),
      (pair.1 = property ∧ pair.2.name = name) ∨ (pair.1 ∈ Options.properties object ∧ pair.2.name = pair.1.name) := by
    rintro ⟨old, new⟩ hpair
    have hold := (List.of_mem_zip hpair).1
    by_cases heq : old = property
    · subst heq
      exact .inl ⟨rfl, (hpairs hpair).exchanged hplain rfl hnone⟩
    · exact .inr ⟨hold, (hpairs hpair).kept fun _ => honly old hold heq⟩
  have hexists : ∀ old ∈ Options.properties object, ∃ new, (old, new) ∈ (Options.properties object).zip
      (Options.properties object') := by
    intro old hold
    rw [← List.map_fst_zip (Nat.le_of_eq hlength)] at hold
    obtain ⟨⟨old, new⟩, hpair, rfl⟩ := List.mem_map.1 hold
    exact ⟨new, hpair⟩
  constructor
  · intro hdistinct other hother hcomputed heq
    obtain ⟨new, hpair⟩ := hexists property hproperty
    obtain ⟨new', hpair'⟩ := hexists other hother
    have hne : other ≠ property := by
      rintro rfl
      rw [hplain] at hcomputed
      cases hcomputed
    refine hdistinct _ hpair _ hpair' (heq ▸ hplainFree property hproperty hplain) ?_
    rw [(hpairs hpair).exchanged hplain rfl hnone, (hpairs hpair').kept fun _ => honly other hother hne]
    exact heq.symm
  · intro hcomputedFree first hfirst second hsecond hne heq
    have hallFree : ∀ other ∈ Options.properties object, other.name ≠ name := by
      intro other hother
      cases hcomputed : other.computed with
      | false => exact hplainFree other hother hcomputed
      | true => exact hcomputedFree other hother hcomputed
    rcases hnames first hfirst with ⟨hfirst, hname⟩ | ⟨hfirst, hname⟩
    · rcases hnames second hsecond with ⟨hsecond, -⟩ | ⟨hsecond, hname'⟩
      · exact hne (by rw [hfirst, hsecond])
      · exact hallFree _ hsecond (hname'.symm.trans (heq.symm.trans hname))
    · rcases hnames second hsecond with ⟨-, hname'⟩ | ⟨-, hname'⟩
      · exact hallFree _ hfirst (hname.symm.trans (heq.trans hname'))
      · exact hne (hname.symm.trans (heq.trans hname'))

/-- The options object of the output, if its script is read alike. -/
theorem exists_renames (hobject : (File.ofSource languages source).options? = some object)
    (hfragments : (Component.parse languages source).document.FragmentsLie)
    (hblocks : (Component.parse languages source).BlocksLie)
    (hordered : Ordered object) (hproperty : property ∈ Options.properties object) (hplain : property.computed = false)
    (hnew : newName? (plainKeys object) ⟨property.name, property.key.span⟩ = some name) {front word back : List Char}
    (hsource : source = front ++ (word ++ back)) (houtput : output = front ++ (name.toList ++ back))
    (hspan : property.key.span = ⟨byteLength front, byteLength front + byteLength word⟩)
    (htypes : Component.usesTypes output = Component.usesTypes source)
    (hreads : Rereads languages source output property.key.span name) (hvalue : property.value.span ≠ property.key.span) :
    ∃ object', (File.ofSource languages output).options? = some object' ∧
      Renames languages source output object property name object' := by
  obtain ⟨block, hblock, hoptions⟩ := Option.bind_eq_some_iff.1 hobject
  have hmem : block ∈ (Component.parse languages source).scripts := List.mem_of_find?_eq_some hblock
  have hlies : object.Lies source block.content.start block.content.stop := Options.ofBlock?_lies (hblocks block hmem) hoptions
  have hkey := (hlies.property hproperty).1
  obtain ⟨hnone, hlt⟩ := hordered.keys property hproperty hplain
  obtain ⟨hword, hlong⟩ := word_of_newName? hnew
  have hname : 0 < byteLength name.toList := (byteLength_pos_iff _).2 (List.ne_nil_of_length_pos (Nat.zero_lt_of_lt hlong))
  have hsome : word ≠ [] := by
    rintro rfl
    rw [hspan] at hlt
    simp at hlt
  have hedits : (keyEdit source output _ name).Edits source output _ _ _ := edits_keyEdit hlt
  have hfirst := hkey.first_le
  have hlast := hkey.stop_le
  have hread := hreads block hblock
  rw [hspan] at hedits hfirst hlast hread
  have halike := Component.alike_of_exchange hsource houtput hword hsome hlong hedits hfragments hblocks
    htypes hmem hfirst hlast hread
  rw [← hspan] at halike
  have htable := halike.ofComponent (harmless_keyEdit hlt hname)
  have hextra : (fun reference : Reference => ∃ added, False ∧ reference = (ScopeTable.ofComponent
      (Component.parse languages source)).settle added) = fun _ => False := by
    funext reference
    simp
  rw [hextra] at htable
  rcases related_cases (halike.options? inProperties_keyEdit htable) with ⟨hold, -⟩ | ⟨found, object', hold, hnew', hkind, hsame⟩
  · cases hobject.symm.trans hold
  · obtain rfl : object = found := Option.some.inj (hobject.symm.trans hold)
    have hproperties := properties_alike hkind hsame
    obtain ⟨before, after, hsplit, happart⟩ := hordered.split hlies hproperty hplain
    refine ⟨object', hnew', ?_, htable, ?_⟩
    · have hparts := hproperties
      rw [hsplit] at hparts
      obtain ⟨before', rest', hsplit', hbefore, hrest⟩ := forall₂_append_left hparts
      cases hrest with
      | @cons _ property' _ after' hexchanged hafter =>
        have hkept : ∀ {other new}, other ∈ before ∨ other ∈ after → Alike source output property.key.span name other new →
            Kept source output other.name other new := by
          intro other new hother halike
          obtain ⟨hne, hapart⟩ := happart other hother
          have hmem : other ∈ Options.properties object := by
            rw [hsplit, List.mem_append, List.mem_cons]
            exact hother.imp id .inr
          exact ⟨halike.computed, halike.kept fun _ => hne,
            halike.value_text hsource houtput hsome hspan (hlies.property hmem).2.span hapart⟩
        refine ⟨before, after, before', property', after', hsplit, hsplit',
          ⟨hexchanged.computed, hexchanged.exchanged hplain rfl hnone,
          hexchanged.value_text hsource houtput hsome hspan (hlies.property hproperty).2.span
            (.inr ((hordered.values property hproperty).resolve_left hvalue))⟩, ?_, ?_⟩
        · exact ((List.forall₂_and_left _ _).2 ⟨fun other hother => hother, hbefore⟩).imp fun _ _ h => hkept (.inl h.1) h.2
        · exact ((List.forall₂_and_left _ _).2 ⟨fun other hother => hother, hafter⟩).imp fun _ _ h => hkept (.inr h.1) h.2
    · refine distinct_of_alike hproperty hplain hnone hnew (fun other hother hne => ?_) hproperties
      rw [hsplit, List.mem_append, List.mem_cons] at hother
      rcases hother with hmem | rfl | hmem
      · exact (happart other (.inl hmem)).1
      · exact absurd rfl hne
      · exact (happart other (.inr hmem)).1

end Renaming

/-! ## Fixes -/

section Fixes

variable {file : File} {keys : List Name} {key : Name} {report : Report} {fix : Fix} {source : List Char} {object : Script.Node}
  {level : Level} {checks : Checks}

/-- The fix of a report about a key exchanges the key for its new name. -/
theorem of_mem_checkKey (hreport : report ∈ checkKey file keys key) (hfix : report.fix = some fix) :
    ∃ name, newName? keys key = some name ∧ fix.edits = [⟨key.span, name⟩] := by
  unfold checkKey at hreport
  split at hreport
  · cases hreport
  · next hook hhook =>
    split at hreport
    · rw [List.mem_singleton.1 hreport] at hfix
      cases hfix
    · next hfree =>
      rw [List.mem_singleton.1 hreport] at hfix
      refine ⟨hook.newName, ?_, ?_⟩
      · rw [newName?, hhook, Option.bind_some, if_neg hfree]
      · rw [FixDraft.build?_add rfl (hfix : (file.draft.replace key.span hook.newName).build? = some fix)]

/-- A key in the text that has a new name is reported with a fix. -/
theorem exists_fix {name : String} (hname : newName? keys key = some name) (hspan : key.span.stop ≤ file.length) :
    ∃ report ∈ checkKey file keys key, ∃ fix, report.fix = some fix ∧ fix.edits = [⟨key.span, name⟩] := by
  obtain ⟨hook, hhook, hfree⟩ := Option.bind_eq_some_iff.1 hname
  rw [Option.ite_none_left_eq_some] at hfree
  obtain ⟨htaken, hname⟩ := hfree
  obtain rfl := Option.some.inj hname
  have hfix : (file.draft.replace key.span hook.newName).build? = some ⟨[⟨key.span, hook.newName⟩], none⟩ :=
    FixDraft.build?_add_of_le rfl rfl hspan hook.newName
  refine ⟨(info.report hook.messageId key.span).withFix (file.draft.replace key.span hook.newName).build?, ?_, _, hfix, rfl⟩
  unfold checkKey
  simp only [hhook, htaken]
  exact List.mem_singleton_self _

theorem mem_fixes_iff (hchecks : checks = { scripts := fun file => .reporting (check file) })
    (hobject : (File.ofSource languages source).options? = some object) (fix : Fix) :
    fix ∈ (lintFile [⟨info, level, checks⟩] (.ofSource languages source)).fixes ↔
      ∃ key ∈ plainKeys object, ∃ report ∈ checkKey (.ofSource languages source) (plainKeys object) key,
        report.fix = some fix := by
  have hcheck : check (.ofSource languages source) =
      (plainKeys object).flatMap (checkKey (.ofSource languages source) (plainKeys object)) := by
    rw [check, hobject]
  have hrule : (⟨info, level, checks⟩ : ActiveRule).checks = { scripts := fun file => .reporting (check file) } := hchecks
  have hdiagnostics := diagnostics_scripts hrule (.ofSource languages source)
  rw [LintResult.fixes, List.mem_filterMap]
  simp only [lintFile, List.mem_mergeSort, hdiagnostics, hcheck, List.mem_map, List.mem_flatMap]
  constructor
  · rintro ⟨-, ⟨report, ⟨key, hkey, hreport⟩, rfl⟩, hfix⟩
    exact ⟨key, hkey, report, hreport, hfix⟩
  · rintro ⟨key, hkey, report, hreport, hfix⟩
    exact ⟨_, ⟨report, ⟨key, hkey, hreport⟩, rfl⟩, hfix⟩

end Fixes

/-- Every plain key with a new name has a fix, and every fix exchanges such a key for its new name. Made alone and reparsed, it
gives an options object with the same properties in the same order, that one under its new name, with every value as it was and
every reference standing for what it stood for, unless the property is a shorthand; and names that were different still are,
unless a computed key has the new name. -/
theorem lintFile_fix_renames {options : List Json}
    {checks : Checks} (h : rule.checks? patterns options = some checks) (level : Level)
    {source : List Char} {object : Script.Node} (hobject : (File.ofSource languages source).options? = some object)
    (hfragments : (Component.parse languages source).document.FragmentsLie)
    (hblocks : (Component.parse languages source).BlocksLie)
    (hordered : Ordered object) :
    let fixes := (lintFile [⟨info, level, checks⟩] (.ofSource languages source)).fixes
    (∀ key ∈ plainKeys object, ∀ name, newName? (plainKeys object) key = some name →
      ∃ fix ∈ fixes, fix.edits = [⟨key.span, name⟩]) ∧
    ∀ fix ∈ fixes, ∃ property ∈ Options.properties object, property.computed = false ∧ ∃ name,
      newName? (plainKeys object) ⟨property.name, property.key.span⟩ = some name ∧ fix.edits = [⟨property.key.span, name⟩] ∧
      ∀ output, (Fix.applyAll source [fix]).output = output → Component.usesTypes output = Component.usesTypes source →
        Rereads languages source output property.key.span name → property.value.span ≠ property.key.span →
        ∃ object', (File.ofSource languages output).options? = some object' ∧
          Renames languages source output object property name object' := by
  intro fixes
  have hfixes : ∀ fix, fix ∈ fixes ↔ ∃ key ∈ plainKeys object,
      ∃ report ∈ checkKey (.ofSource languages source) (plainKeys object) key, report.fix = some fix :=
    mem_fixes_iff (Option.some.inj h).symm hobject
  obtain ⟨block, hblock, hoptions⟩ := Option.bind_eq_some_iff.1 hobject
  have hlies : object.Lies source block.content.start block.content.stop :=
    Options.ofBlock?_lies (hblocks block (List.mem_of_find?_eq_some hblock)) hoptions
  have hkeys : ∀ key ∈ plainKeys object, ∃ property ∈ Options.properties object, property.computed = false ∧
      key = ⟨property.name, property.key.span⟩ ∧ property.key.span.InText source := by
    intro key hkey
    obtain ⟨property, hproperty, rfl⟩ := List.mem_map.1 hkey
    obtain ⟨hproperty, hplain⟩ := List.mem_filter.1 hproperty
    exact ⟨property, hproperty, by simpa using hplain, rfl, (hlies.property hproperty).1.span⟩
  refine ⟨fun key hkey name hname => ?_, fun fix hfix => ?_⟩
  · obtain ⟨property, -, -, rfl, hinText⟩ := hkeys key hkey
    have hstop : property.key.span.stop ≤ byteLength source := isBoundary_le hinText.stop
    obtain ⟨report, hreport, fix, hfix, hedits⟩ := @exists_fix (.ofSource languages source) _ _ _ hname hstop
    exact ⟨fix, (hfixes fix).2 ⟨_, hkey, report, hreport, hfix⟩, hedits⟩
  · obtain ⟨key, hkey, report, hreport, hreported⟩ := (hfixes fix).1 hfix
    obtain ⟨name, hname, hedits⟩ := of_mem_checkKey hreport hreported
    obtain ⟨property, hproperty, hplain, rfl, hinText⟩ := hkeys key hkey
    refine ⟨property, hproperty, hplain, name, hname, hedits, fun output houtput htypes hreads hvalue => ?_⟩
    obtain ⟨front, word, back, hsource, hspan⟩ := hinText.parts
    refine exists_renames hobject hfragments hblocks hordered hproperty hplain hname hsource ?_ hspan htypes hreads hvalue
    obtain ⟨edits, message⟩ := fix
    obtain rfl : edits = [⟨property.key.span, name⟩] := hedits
    rw [← houtput, hsource, hspan]
    exact Fix.applyAll_single front word back name message

/-- A hook under a key in quotes, between a method and a spread, whose value is an imported name. -/
def quotedHook : List Char :=
  ("<script>import \x7b stop \x7d from 'a'; export default \x7b data() \x7b return stop() \x7d, 'destroyed': stop, ...b, ['c']: stop \x7d" ++
    "</script><template><p @click=\"stop\"/></template>").toList

/-- The file with the new name in place of the key. -/
def renamedHook : List Char :=
  ("<script>import \x7b stop \x7d from 'a'; export default \x7b data() \x7b return stop() \x7d, unmounted: stop, ...b, ['c']: stop \x7d" ++
    "</script><template><p @click=\"stop\"/></template>").toList

/-- The key is exchanged with its quotes, and the value is read as it was. -/
theorem lintFile_fix_renames_quotedHook : ∃ checks fix object property object', rule.checks? Regex.engine [] = some checks ∧
    (lintFile [⟨info, .error, checks⟩] (.ofSource Script.Dialect.language quotedHook)).fixes = [fix] ∧
    (Fix.applyAll quotedHook [fix]).output = renamedHook ∧
    (File.ofSource Script.Dialect.language quotedHook).options? = some object ∧
    (Component.parse Script.Dialect.language quotedHook).document.FragmentsLie ∧
    (Component.parse Script.Dialect.language quotedHook).BlocksLie ∧ Ordered object ∧ property ∈ Options.properties object ∧
    Rereads Script.Dialect.language quotedHook renamedHook property.key.span "unmounted" ∧
    (File.ofSource Script.Dialect.language renamedHook).options? = some object' ∧
    Renames Script.Dialect.language quotedHook renamedHook object property "unmounted" object' := by
  have hchecks : rule.checks? Regex.engine [] = some { scripts := fun file => .reporting (check file) } := rfl
  have hholds : (File.ofSource Script.Dialect.language quotedHook).options?.any fun object => decide (Ordered object ∧
      ∀ property ∈ Options.properties object, property.value.span ≠ property.key.span) := by decide +kernel
  obtain ⟨object, hobject, hobjectHolds⟩ := (Option.any_eq_true _ _).1 hholds
  obtain ⟨hordered, hvalues⟩ := of_decide_eq_true hobjectHolds
  have hfragments : (Component.parse Script.Dialect.language quotedHook).document.FragmentsLie := by decide +kernel
  have hblocks : (Component.parse Script.Dialect.language quotedHook).BlocksLie := by decide +kernel
  have hfixes : (lintFile [⟨info, .error, { scripts := fun file => .reporting (check file) }⟩]
      (.ofSource Script.Dialect.language quotedHook)).fixes = [⟨[⟨⟨77, 88⟩, "unmounted"⟩], none⟩] := by decide +kernel
  have hreads : Rereads Script.Dialect.language quotedHook renamedHook ⟨77, 88⟩ "unmounted" := by decide +kernel
  have houtput : (Fix.applyAll quotedHook [⟨[⟨⟨77, 88⟩, "unmounted"⟩], none⟩]).output = renamedHook := by decide +kernel
  have htypes : Component.usesTypes renamedHook = Component.usesTypes quotedHook := by decide +kernel
  obtain ⟨-, hrenames⟩ := lintFile_fix_renames hchecks .error hobject hfragments hblocks hordered
  obtain ⟨property, hproperty, -, name, -, hedits, hreparsed⟩ := hrenames _ (hfixes ▸ List.mem_singleton_self _)
  obtain ⟨hspan, rfl⟩ : ⟨77, 88⟩ = property.key.span ∧ "unmounted" = name := by simpa using hedits
  rw [hspan] at hreads
  obtain ⟨object', hobject', hrenamed⟩ := hreparsed renamedHook houtput htypes hreads (hvalues property hproperty)
  exact ⟨_, _, object, property, object', hchecks, hfixes, houtput, hobject, hfragments, hblocks,
    hordered, hproperty, hreads, hobject',
    hrenamed⟩

/-- A hook that is given by a shorthand property. -/
def shorthandHook : List Char :=
  "<script>export default \x7b destroyed \x7d</script>".toList

/-- The fix exchanges the variable that is the value of the property along with its key. -/
theorem not_keepsValue_shorthand : ∃ checks output, rule.checks? Regex.engine [] = some checks ∧
    (Fix.applyAll shorthandHook (lintFile [⟨info, .error, checks⟩]
      (.ofSource Script.Dialect.language shorthandHook)).fixes).output = output ∧
    ((File.ofSource Script.Dialect.language shorthandHook).options?.map fun object =>
      (Options.properties object).map fun property =>
      (property.name, slice shorthandHook property.value.span)) = some [("destroyed", "destroyed".toList)] ∧
    ((File.ofSource Script.Dialect.language output).options?.map fun object => (Options.properties object).map fun property =>
      (property.name, slice output property.value.span)) = some [("unmounted", "unmounted".toList)] :=
  ⟨_, "<script>export default \x7b unmounted \x7d</script>".toList, rfl, by decide +kernel, by decide +kernel, by decide +kernel⟩

end ComponentLint.Rules.DestroyedHooks
