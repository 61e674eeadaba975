import ComponentLint.Proofs.Component.Edits
import ComponentLint.Proofs.Fix.Drafting
import ComponentLint.Proofs.Fix.Splice
import ComponentLint.Proofs.Lint.Walk
import ComponentLint.Proofs.Scope.TemplateNames
import ComponentLint.Proofs.Scope.TemplateScopes
import ComponentLint.Rules.ThisUsage
import ComponentLint.Script.Parser

/-!
# Fixes that leave out `this`

A fix writes a member of `this` as a variable. When the output is parsed again, the variable stands for what the
name stood for in the same scope of the file (`lintFile_fix_resolves`): for nothing that an element of the
template declares, and for something that is declared in the same expression if and only if that has the name in
a scope around the member. The last is not checked: a parameter of a function around the member captures the
variable (`not_avoids_parameter`). Neither is what the source of a loop sees, which is read outside the loop
(`not_avoids_outerLoop`).
-/

namespace ComponentLint

open Text Markup

variable {languages : Script.Languages} {patterns : PatternEngine}

/-- In a scope a name stands for no binding of a sort. -/
def ScopeTable.Avoids (table : ScopeTable) (scope : Nat) (name : String) (taken : Binding → Prop) : Prop :=
  ∀ target binding, table.StandsFor scope name target → table.bindings[target]? = some binding → ¬taken binding

/-- A reference that is resolved to a binding of a sort does not avoid the sort. -/
theorem ScopeTable.exists_not_avoids
    {component : Component} {name : String} {span : Span} {taken : Binding → Prop} [DecidablePred taken]
    (h : ((ofComponent component).references.any fun reference => reference.name == name && reference.span == span &&
      reference.resolved.any fun target => (ofComponent component).bindings[target]?.any fun binding =>
        decide (taken binding)) = true) :
    ∃ reference ∈ (ofComponent component).references, reference.name = name ∧ reference.span = span ∧
      ¬(ofComponent component).Avoids reference.scope reference.name taken := by
  obtain ⟨reference, hreference, hfound⟩ := Array.any_eq_true'.1 h
  obtain ⟨hplace, htarget⟩ := Bool.and_eq_true_iff.1 hfound
  obtain ⟨hname, hspan⟩ := Bool.and_eq_true_iff.1 hplace
  obtain ⟨target, htarget, hbindings⟩ := (Option.any_eq_true _ _).1 htarget
  obtain ⟨binding, hbinding, htaken⟩ := (Option.any_eq_true _ _).1 hbindings
  have hresolved := (resolvedAll_ofComponent component).resolved hreference
  refine ⟨reference, hreference, eq_of_beq hname, eq_of_beq hspan, fun havoids => ?_⟩
  exact havoids target binding ((wellScoped_ofComponent component).resolve?_eq_some_iff.1 (hresolved.symm.trans htarget)) hbinding
    (of_decide_eq_true htaken)

namespace Rules.ThisUsage

/-! ## Names -/

/-- Characters of names mean nothing in markup. -/
theorem neutral_of_named {c : Char} (h : isAlphanumeric c = true ∨ c = '_' ∨ c = '$') : Neutral c := by
  have hother : ∀ d ∈ [' ', '\t', '\n', '\x0c', '\r', '<', '>', '/', '=', '"', '\'', '[', ']', '\x7b', '\x7d'], c ≠ d := by
    rintro d hd rfl
    have hnone : ([' ', '\t', '\n', '\x0c', '\r', '<', '>', '/', '=', '"', '\'', '[', ']', '\x7b', '\x7d'].all fun c =>
      !isAlphanumeric c && c != '_' && c != '$') = true := by decide +kernel
    have hnot := List.all_eq_true.1 hnone c hd
    rcases h with h | rfl | rfl
    · simp [h] at hnot
    · cases hnot
    · cases hnot
  simp only [List.forall_mem_cons] at hother
  unfold Neutral isAsciiSpace
  simp_all

/-- A plain name is a word. -/
theorem word_of_isPlainName {name : String} (h : isPlainName name = true) : (∀ c ∈ name.toList, Neutral c) ∧
    name.toList ≠ [] := by
  unfold isPlainName at h
  split at h
  · cases h
  · next first rest heq =>
    simp only [Bool.and_eq_true, Bool.or_eq_true, List.all_eq_true, beq_iff_eq, or_assoc] at h
    obtain ⟨⟨hfirst, hrest⟩, -⟩ := h
    rw [heq]
    refine ⟨fun c hc => ?_, List.cons_ne_nil _ _⟩
    rcases List.mem_cons.1 hc with rfl | hc
    · exact neutral_of_named (hfirst.imp_left fun halphabetic => by rw [isAlphanumeric, halphabetic, Bool.true_or])
    · exact neutral_of_named (hrest c hc)

/-! ## The edit -/

/-- The edit that exchanges a member of `this` for a variable. -/
def thisEdit (source output : List Char) (member : Span) (name : String) : Script.Likeness where
  place := (Revision.cut source output member.start member.stop (member.start + byteLength name.toList)).SamePlace
  exchange? around node :=
    if (thisMember node).any (fun found => found.member == member && found.property == name) = true ∧
        node.children.all (·.children.isEmpty) = true ∧ around.isVariables = false ∧
          (around.isCall = true → name ≠ "require") then
      some (.identifier name, ⟨member.start, member.start + byteLength name.toList⟩)
    else none

instance (source output : List Char) (member : Span) (name : String) : DecidableRel (thisEdit source output member name).place :=
  inferInstanceAs (DecidableRel (Revision.cut source output member.start member.stop
    (member.start + byteLength name.toList)).SamePlace)

/-- The text of a region with a name in place of a member. -/
def written (source : List Char) (region member : Span) (name : String) : List Char :=
  slice source ⟨region.start, member.start⟩ ++ (name.toList ++ slice source ⟨member.stop, region.stop⟩)

/-- The script around a member is read with a name in place of the member as it is read with the member, but for that. -/
structure Rereads (languages : Script.Languages) (source output : List Char)
    (id : NodeId) (member : Span) (name : String) : Prop where
  inText : member.InText source
  some : member.start < member.stop
  interpolation : ∀ content ∈ (Component.parse languages source).document.interpolation? id, ∀ expression ∈ content.expression,
    ∃ expression' ∈ Fragment.expression? (languages ⟨Component.usesTypes source, false⟩) content.opening.stop
      (written source ⟨content.opening.stop, content.closing.start⟩ member name),
      (thisEdit source output member name).Alike .absent expression expression'
  value : ∀ element ∈ (Component.parse languages source).document.element? id,
    ∀ attr ∈ element.attributes, ∀ key ∈ attr.directive?,
    ∀ value ∈ attr.value, member.Within value.valueSpan → ∀ meaning ∈ value.meaning,
      ∃ meaning' ∈ Fragment.directiveValue (languages ⟨Component.usesTypes source, false⟩) key.name.text value.valueSpan.start
        (written source value.valueSpan member name), meaning.Alike (thisEdit source output member name) meaning'

instance (languages : Script.Languages) (source output : List Char) (id : NodeId) (member : Span) (name : String) :
    Decidable (Rereads languages source output id member name) :=
  decidable_of_iff (_ ∧ _ ∧ _ ∧ _) ⟨fun h => ⟨h.1, h.2.1, h.2.2.1, h.2.2.2⟩, fun h =>
    ⟨h.inText, h.some, h.interpolation, h.value⟩⟩

section Exchanging

variable {source output : List Char} {member : Span} {name : String}

theorem exchange?_thisEdit {around : Script.Kind} {node : Script.Node} {leaf : Script.Kind × Span} :
    (thisEdit source output member name).exchange? around node = some leaf ↔
      ((∃ found ∈ thisMember node, found.member = member ∧ found.property = name) ∧
        node.children.all (·.children.isEmpty) = true ∧
        around.isVariables = false ∧ (around.isCall = true → name ≠ "require")) ∧
      leaf = (.identifier name, ⟨member.start, member.start + byteLength name.toList⟩) := by
  unfold thisEdit
  dsimp only
  rw [Option.ite_none_right_eq_some, Option.some.injEq, List.any_eq_true]
  simp only [Bool.and_eq_true, beq_iff_eq]
  exact and_congr_right fun _ => eq_comm

/-- A member of `this` is a member of a known name. -/
theorem thisMember_cases {node : Script.Node} {found : ThisMember} (h : found ∈ thisMember node) : node.span = found.member ∧
    ((∃ place optional word parts, node.kind = .member found.property place optional ∧
      node.children = [⟨.thisValue, word, parts⟩]) ∨
      ∃ optional word place parts parts', node.kind = .index optional ∧
        node.children = [⟨.thisValue, word, parts⟩, ⟨.string found.property, place, parts'⟩]) := by
  unfold thisMember at h
  split at h
  · rw [List.mem_singleton.1 h]
    exact ⟨rfl, .inl ⟨_, _, _, _, rfl, rfl⟩⟩
  · rw [List.mem_singleton.1 h]
    exact ⟨rfl, .inr ⟨_, _, _, _, _, rfl, rfl⟩⟩
  · cases h

/-- Nothing is collected from a member of `this`. -/
theorem collectParts_thisMember {node : Script.Node} {found : ThisMember} (h : found ∈ thisMember node)
    (hleaves : node.children.all (·.children.isEmpty) = true) (here : Place) (around : Script.Node) (table : ScopeTable) :
    ScopeTable.collectParts here around 0 table node.children = table := by
  obtain ⟨-, ⟨place, optional, word, parts, -, hparts⟩ | ⟨optional, word, place, parts, parts', -, hparts⟩⟩ := thisMember_cases h
  · rw [hparts] at hleaves ⊢
    obtain rfl : parts = [] := by simpa using hleaves
    rfl
  · rw [hparts] at hleaves ⊢
    obtain ⟨rfl, rfl⟩ : parts = [] ∧ parts' = [] := by simpa using hleaves
    rfl

theorem harmless_thisEdit (hsome : member.start < member.stop) (hname : 0 < byteLength name.toList) :
    ScopeTable.Harmless (thisEdit source output member name)
      (fun added => added.name = name ∧ added.span = ⟨member.start, member.start + byteLength name.toList⟩) where
  quiet around node leaf h := by
    obtain ⟨⟨⟨found, hfound, -⟩, -⟩, rfl⟩ := exchange?_thisEdit.1 h
    obtain ⟨-, ⟨_, _, _, _, hkind, -⟩ | ⟨_, _, _, _, _, hkind, -⟩⟩ := thisMember_cases hfound
    · exact .inr ⟨by rw [hkind]; rfl, rfl⟩
    · exact .inr ⟨by rw [hkind]; rfl, rfl⟩
  calls around node leaf h := by
    obtain ⟨⟨⟨found, hfound, -⟩, -, -, hrequire⟩, rfl⟩ := exchange?_thisEdit.1 h
    have hleaf : around.isCall = true → Script.Kind.identifier name ≠ .identifier "require" :=
      fun hcall heq => hrequire hcall (Script.Kind.identifier.inj heq)
    obtain ⟨-, ⟨_, _, _, _, hkind, -⟩ | ⟨_, _, _, _, _, hkind, -⟩⟩ := thisMember_cases hfound
    · rw [hkind]
      exact ⟨rfl, rfl, fun hcall => ⟨Script.Kind.noConfusion, hleaf hcall⟩⟩
    · rw [hkind]
      exact ⟨rfl, rfl, fun hcall => ⟨Script.Kind.noConfusion, hleaf hcall⟩⟩
  declarators keyword node := by
    cases hexchange : (thisEdit source output member name).exchange? (.variables keyword) node with
    | none => rfl
    | some leaf =>
      obtain ⟨⟨-, -, hvariables, -⟩, -⟩ := exchange?_thisEdit.1 hexchange
      cases hvariables
  unique := Revision.cut_unique hsome (Nat.lt_add_of_pos_right hname)
  collects around node leaf h here use old new halike := by
    obtain ⟨⟨⟨found, hfound, -⟩, hleaves, -⟩, rfl⟩ := exchange?_thisEdit.1 h
    have hnothing : ScopeTable.collect here use old node = old := by
      have hparts := collectParts_thisMember hfound hleaves here node old
      obtain ⟨-, ⟨_, _, _, _, hkind, -⟩ | ⟨_, _, _, _, _, hkind, -⟩⟩ := thisMember_cases hfound
      all_goals
        obtain ⟨kind, span, children⟩ := node
        obtain rfl : kind = _ := hkind
        simp only [ScopeTable.collect, ScopeTable.opensBlock]
        exact hparts
    rw [hnothing]
    simp only [ScopeTable.collect]
    exact halike.add here name _ use fun scope => ⟨rfl, rfl⟩
  requires around node leaf h here kind scope module old new halike := by
    obtain ⟨⟨⟨found, hfound, -⟩, hleaves, -⟩, rfl⟩ := exchange?_thisEdit.1 h
    have hnothing : ScopeTable.collectRequired here kind scope module old node = old := by
      have hparts := collectParts_thisMember hfound hleaves (here.declares kind scope) node old
      obtain ⟨-, ⟨_, _, _, _, hkind, -⟩ | ⟨_, _, _, _, _, hkind, -⟩⟩ := thisMember_cases hfound
      all_goals
        obtain ⟨form, span, children⟩ := node
        obtain rfl : form = _ := hkind
        rw [ScopeTable.collectRequired]
        · exact hparts
        · exact fun _ => Script.Kind.noConfusion
        · exact Script.Kind.noConfusion
    rw [hnothing]
    simp only [ScopeTable.collectRequired, ScopeTable.collectParts]
    exact halike

theorem edits_thisEdit (hsome : member.start < member.stop) :
    (thisEdit source output member name).Edits source output member.start
    member.stop (member.start + byteLength name.toList) where
  place := rfl
  ordered := hsome
  inside around node leaf h := by
    obtain ⟨⟨⟨found, hfound, rfl, -⟩, -⟩, -⟩ := exchange?_thisEdit.1 h
    rw [(thisMember_cases hfound).1]
    exact ⟨Nat.le_refl _, hsome, Nat.le_refl _⟩

end Exchanging

/-! ## What the variable stands for -/

/-- What a reference stands for in the output where it is the variable that is written for a member of `this` at a node. -/
structure Resolves (languages : Script.Languages) (source output : List Char)
    (id : NodeId) (member : Span) (reference : Reference) :
    Prop where
  /-- It stands for something that is declared in a region if the name does so in the file, in the same scope and region. -/
  inside : ∀ region region', (Revision.cut source output member.start member.stop
      (member.start + byteLength reference.name.toList)).SamePlace region region' →
    ((File.ofSource languages output).scopes.Avoids reference.scope reference.name (·.span.Within region') ↔
      (File.ofSource languages source).scopes.Avoids reference.scope reference.name (·.span.Within region))
  /-- In an interpolation it stands for no name of an element. -/
  interpolation : ∀ content, (File.ofSource languages source).document.interpolation? id = some content →
    (File.ofSource languages output).scopes.Avoids reference.scope reference.name (·.kind.isTemplateLocal = true)
  /-- Neither does it in a value that is not that of a loop. -/
  value : ∀ element, (File.ofSource languages source).document.element? id = some element → ∀ attr ∈ element.attributes,
    attr.isDirective "for" = false → ∀ value, attr.value = some value → member.Within value.valueSpan →
    (File.ofSource languages output).scopes.Avoids reference.scope reference.name (·.kind.isTemplateLocal = true)
  /-- In the source of a loop it stands for none as long as the name stands for none at the node around the loop. -/
  source : ∀ element, (File.ofSource languages source).document.element? id = some element → ∀ attr ∈ element.attributes,
    ∀ aliases node word, attr.meaning? = some (.loop aliases node word) → member.Within node.span →
    ∀ parent, (File.ofSource languages source).document.parent? id = some parent →
    (∀ scope ∈ (File.ofSource languages source).scopes.scopeOf? (File.ofSource languages source).document parent,
      (File.ofSource languages source).scopes.templateLocal? scope reference.name = none) →
    (File.ofSource languages output).scopes.Avoids reference.scope reference.name (·.kind.isTemplateLocal = true)

section Resolving

variable {source output : List Char} {member : Span} {name : String} {id : NodeId} {extra : Reference → Prop}

/-- Names stand for what is declared in the same region. -/
theorem avoids_inside_iff (hsome : member.start < member.stop) (hname : 0 < byteLength name.toList)
    (htable : (File.ofSource languages source).scopes.Alike (thisEdit source output member name).place extra
      (File.ofSource languages output).scopes) {region region' : Span}
    (hregion : (thisEdit source output member name).place region region') (scope : Nat) :
    (File.ofSource languages output).scopes.Avoids scope name (·.span.Within region') ↔
      (File.ofSource languages source).scopes.Avoids scope name (·.span.Within region) := by
  have hstands : ∀ {target : Nat}, (File.ofSource languages output).scopes.StandsFor scope name target ↔
      (File.ofSource languages source).scopes.StandsFor scope name target :=
    htable.standsFor_iff (ScopeTable.wellScoped_ofComponent _) (ScopeTable.wellScoped_ofComponent _)
  have hwithin : ∀ {binding binding' : Binding}, binding.Alike (thisEdit source output member name).place binding' →
      (binding'.span.Within region' ↔ binding.span.Within region) := fun hbinding =>
    Revision.cut_within_iff hsome (Nat.lt_add_of_pos_right hname) hbinding.1 hregion
  refine forall_congr' fun target => ?_
  rcases htable.bindings.cases target with ⟨hold, hnew⟩ | ⟨binding, binding', hold, hnew, hbinding⟩
  · simp only [hold, hnew, reduceCtorEq, false_imp_iff, implies_true]
  · rw [hold, hnew, hstands]
    constructor
    · rintro havoids _ htarget ⟨⟩ hin
      exact havoids binding' htarget rfl ((hwithin hbinding).2 hin)
    · rintro havoids _ htarget ⟨⟩ hin
      exact havoids binding htarget rfl ((hwithin hbinding).1 hin)

/-- A name that stands for no name of an element at a node stands for none in what is visible there in the output. -/
theorem avoids_elements (htable : (File.ofSource languages source).scopes.Alike (thisEdit source output member name).place extra
      (File.ofSource languages output).scopes)
    (hancestors : (File.ofSource languages output).document.ancestors id = (File.ofSource languages source).document.ancestors id)
    (hfree : ∀ scope ∈ (File.ofSource languages source).scopes.scopeOf? (File.ofSource languages source).document id,
      (File.ofSource languages source).scopes.templateLocal? scope name = none) {scope : Nat}
    (hvisible : ScopeTable.Visible (File.ofSource languages output).document (File.ofSource languages output).scopes scope id) :
    (File.ofSource languages output).scopes.Avoids scope name (·.kind.isTemplateLocal = true) := by
  have hscoped := ScopeTable.wellScoped_ofComponent (Component.parse languages output)
  obtain ⟨outer, houter, hbelow⟩ := hvisible
  rw [htable.scopeOf?_eq hancestors] at houter
  have hnone := hfree outer houter
  rw [← htable.templateLocal?_eq] at hnone
  have hinner := ScopeTable.templateLocal?_eq_none_of_below hscoped
    (ScopeTable.localsInTemplate_ofComponent (Component.parse languages output)) hbelow hnone
  intro target binding hstands hbinding hlocal
  rw [hstands.isTemplateLocal_eq hscoped hinner hbinding] at hlocal
  cases hlocal

/-- Where a fragment of an element stands: in the value of a directive. -/
theorem exists_value {document : Document} (hlaid : document.Laid) {element : Element}
    (helement : document.element? id = some element)
    {fragment : Script.Node} (hfragment : fragment ∈ (element.attributes.filterMap (·.meaning?)).flatMap (·.fragments)) :
    ∃ attr ∈ element.attributes, ∃ key value meaning, attr.key = .directive key ∧ attr.value = some value ∧
      value.meaning = some meaning ∧ fragment.Between value.valueSpan.start value.valueSpan.stop := by
  obtain ⟨meaning, hmeaning, hfragment⟩ := List.mem_flatMap.1 hfragment
  obtain ⟨attr, hattr, hmeans⟩ := List.mem_filterMap.1 hmeaning
  obtain ⟨value, hvalue, hmeans⟩ := Option.bind_eq_some_iff.1 hmeans
  obtain ⟨language, hsays⟩ := (hlaid.value_sits helement hattr hvalue).meaning
  obtain ⟨key, hkey, -⟩ := hsays.exists_key hmeans
  obtain ⟨node, hnode, hkind⟩ := Document.element?_eq_some_iff.1 helement
  have hlies := hlaid.fragments node (Array.mem_of_getElem? hnode)
  rw [hkind] at hlies
  have hbetween := hlies attr hattr value hvalue meaning hmeans
  have hdirective : attr.key = .directive key := by
    rw [Attribute.directive?] at hkey
    cases hform : attr.key with
    | directive found =>
      rw [hform] at hkey
      exact congrArg Key.directive (Option.some.inj hkey)
    | plain name =>
      rw [hform] at hkey
      cases hkey
  refine ⟨attr, hattr, key, value, meaning, hdirective, hvalue, hmeans, ?_⟩
  cases meaning with
  | expression node =>
    obtain rfl := List.mem_singleton.1 hfragment
    exact hbetween
  | handler statements => exact hbetween fragment hfragment
  | loop aliases node word =>
    obtain rfl := List.mem_singleton.1 hfragment
    obtain ⟨split, -, -, -, -, hsource⟩ := hlaid.loop_split helement hattr hvalue hmeans
    exact hsource.mono (Nat.le_add_right _ _) (Nat.le_refl _)
  | slotScope params => cases hfragment
  | invalid => cases hfragment

/-- A member of `this` lies where its fragment does. -/
theorem thisMember_between {fragments : List Script.Node}
    {first last : Nat} (hfragments : ∀ fragment ∈ fragments, fragment.Between first last)
    {found : ThisMember} (hfound : found ∈ thisMembers fragments) : found.member.Between first last := by
  obtain ⟨node, hnode, hmember⟩ := Script.Node.Between.of_mem_gatherAll hfragments hfound
  rw [← (thisMember_cases hmember).1]
  exact hnode.span

/-- What becomes of the table where a member of `this` is written as a variable: it is the same but for
references to the variable. -/
theorem table_alike (hsome : member.start < member.stop) (hname : 0 < byteLength name.toList)
    (halike : (Component.parse languages source).Alike (thisEdit source output member name) (Component.parse languages output)) :
    (File.ofSource languages source).scopes.Alike (thisEdit source output member name).place
      (fun reference => reference.name = name ∧ reference.span = ⟨member.start, member.start + byteLength name.toList⟩ ∧
        reference.resolved = (File.ofSource languages source).scopes.resolve? reference.scope name)
      (File.ofSource languages output).scopes := by
  have htable := halike.ofComponent (harmless_thisEdit hsome hname)
  rw [show (File.ofSource languages source).scopes = ScopeTable.ofComponent (Component.parse languages source) from rfl,
    show (File.ofSource languages output).scopes = ScopeTable.ofComponent (Component.parse languages output) from rfl]
  generalize ScopeTable.ofComponent (Component.parse languages source) = table at htable ⊢
  refine htable.mono ?_
  rintro _ ⟨added, ⟨hadded, hspan⟩, rfl⟩
  exact ⟨hadded, hspan, congrArg (table.resolve? added.scope) hadded⟩

/-- The variable lies in a region of the output where the member lies in that region of the file. -/
theorem within_region (hsome : member.start < member.stop) (hname : 0 < byteLength name.toList) {region region' : Span}
    (hregion : (thisEdit source output member name).place region region') (hwithin : member.Within region) :
    Span.Within ⟨member.start, member.start + byteLength name.toList⟩ region' := by
  have hmoved : (thisEdit source output member name).place member ⟨member.start, member.start + byteLength name.toList⟩ :=
    Revision.samePlace_around (Nat.le_refl _) (Nat.le_refl _) (by rw [Nat.sub_self, Nat.add_zero])
  exact (Revision.cut_within_iff hsome (Nat.lt_add_of_pos_right hname) hmoved hregion).2 hwithin

/-- The variable in an interpolation. -/
theorem resolves_interpolation (hsome : member.start < member.stop) (hname : 0 < byteLength name.toList)
    (hfree : ∀ scope ∈ (File.ofSource languages source).scopes.scopeOf? (File.ofSource languages source).document id,
      (File.ofSource languages source).scopes.templateLocal? scope name = none)
    (htable : (File.ofSource languages source).scopes.Alike (thisEdit source output member name).place extra
      (File.ofSource languages output).scopes)
    (hkeeps : (File.ofSource languages source).document.Keeps (.cut source output member.start member.stop
      (member.start + byteLength name.toList)) (· = id) (File.ofSource languages output).document)
    (hlies : (Component.parse languages output).document.FragmentsLie) {content content' : Interpolation}
    (hcontent : (File.ofSource languages source).document.interpolation? id = some content)
    (hcontent' : (File.ofSource languages output).document.interpolation? id = some content')
    (hregion : (thisEdit source output member name).place ⟨content.opening.stop, content.closing.start⟩
      ⟨content'.opening.stop, content'.closing.start⟩)
    (hwithin : member.Within ⟨content.opening.stop, content.closing.start⟩) {reference : Reference}
    (hreference : reference ∈ (File.ofSource languages output).scopes.references) (htemplate : reference.inTemplate = true)
    (hvariable : reference.name = name) (hplace : reference.span = ⟨member.start, member.start + byteLength name.toList⟩) :
    Resolves languages source output id member reference := by
  subst hvariable
  have hlaid : (File.ofSource languages output).document.Laid := Document.laid_parse _ output hlies
  obtain ⟨hstart, hstop⟩ := within_region hsome hname hregion hwithin
  rw [← hplace] at hstart hstop
  obtain ⟨node, hnode, hkind⟩ := Document.interpolation?_eq_some_iff.1 hcontent'
  have hsits := hlaid.heads.sits id node hnode
  rw [Node.Sits, hkind] at hsits
  have hopening := hsits.opening
  have hclosing := hsits.closing
  obtain ⟨seen, hwalked⟩ := ScopeTable.walked_ofComponent hlaid
  obtain ⟨other, -, hrecorded⟩ := hwalked.references reference hreference htemplate
  have hvisible := hrecorded.of_interpolation hlaid hnode hkind ⟨by dsimp only at hstart; omega, by dsimp only at hstop; omega⟩
  have hother : ∀ {element : Element}, (File.ofSource languages source).document.element? id ≠ some element := by
    intro element helement
    obtain ⟨old, hold, hkind⟩ := Document.interpolation?_eq_some_iff.1 hcontent
    obtain ⟨old', hold', hkind'⟩ := Document.element?_eq_some_iff.1 helement
    obtain rfl : old = old' := Option.some.inj (hold.symm.trans hold')
    cases hkind.symm.trans hkind'
  exact ⟨fun region region' hregion => avoids_inside_iff hsome hname htable hregion reference.scope,
    fun _ _ => avoids_elements htable (hkeeps.ancestors id) hfree hvisible, fun _ helement => absurd helement hother,
    fun _ helement => absurd helement hother⟩

/-- The place of a member in a tree is that of the variable in a tree that is alike. -/
theorem within_of_alike (hsome : member.start < member.stop) (hname : 0 < byteLength name.toList) {around : Script.Kind}
    {node node' : Script.Node} (halike : (thisEdit source output member name).Alike around node node')
    (hwithin : member.Within node.span) :
    Span.Within ⟨member.start, member.start + byteLength name.toList⟩ node'.span := by
  rcases halike.cases with ⟨leaf, hleaf, rfl⟩ | ⟨-, hsame⟩
  · rw [(exchange?_thisEdit.1 hleaf).2]
    exact ⟨Nat.le_refl _, Nat.le_refl _⟩
  · exact within_region hsome hname hsame.place hwithin

/-- The variable in the value of a directive. -/
theorem resolves_value (hsome : member.start < member.stop) (hname : 0 < byteLength name.toList)
    (hfree : ∀ scope ∈ (File.ofSource languages source).scopes.scopeOf? (File.ofSource languages source).document id,
      (File.ofSource languages source).scopes.templateLocal? scope name = none)
    (htable : (File.ofSource languages source).scopes.Alike (thisEdit source output member name).place extra
      (File.ofSource languages output).scopes)
    (hkeeps : (File.ofSource languages source).document.Keeps (.cut source output member.start member.stop
      (member.start + byteLength name.toList)) (· = id) (File.ofSource languages output).document)
    (hfragments : (Component.parse languages source).document.FragmentsLie)
    (hlies : (Component.parse languages output).document.FragmentsLie)
    {element element' : Element} (helement : (File.ofSource languages source).document.element? id = some element)
    (helement' : (File.ofSource languages output).document.element? id = some element') {attr attr' : Attribute}
    (hattr : attr ∈ element.attributes) (hattr' : attr' ∈ element'.attributes) (hkey : attr'.key = attr.key)
    {value value' : AttributeValue} (hvalue : attr.value = some value) (hvalue' : attr'.value = some value')
    (hregion : (thisEdit source output member name).place value.valueSpan value'.valueSpan)
    (hmeaning : Option.Rel (DirectiveValue.Alike (thisEdit source output member name)) value.meaning value'.meaning)
    (hwithin : member.Within value.valueSpan) {reference : Reference}
    (hreference : reference ∈ (File.ofSource languages output).scopes.references) (htemplate : reference.inTemplate = true)
    (hvariable : reference.name = name) (hplace : reference.span = ⟨member.start, member.start + byteLength name.toList⟩) :
    Resolves languages source output id member reference := by
  subst hvariable
  have hlaid : (File.ofSource languages source).document.Laid := Document.laid_parse _ source hfragments
  have hlaid' : (File.ofSource languages output).document.Laid := Document.laid_parse _ output hlies
  obtain ⟨seen, hwalked⟩ := ScopeTable.walked_ofComponent hlaid'
  obtain ⟨other, -, hrecorded⟩ := hwalked.references reference hreference htemplate
  -- The member stands in no other value.
  have hruns : (File.ofSource languages source).document.RunsIn id attr value member :=
    ⟨⟨element, helement, hattr⟩, hvalue, hwithin.1, Nat.le_of_lt hsome, hwithin.2⟩
  have hunique : ∀ {found : Element} {attr₂ : Attribute} {value₂ : AttributeValue},
      (File.ofSource languages source).document.element? id = some found → attr₂ ∈ found.attributes → attr₂.value = some value₂ →
      member.Within value₂.valueSpan → attr = attr₂ := by
    intro found attr₂ value₂ hfound hattr₂ hvalue₂ hwithin₂
    obtain ⟨hbefore, -, hbehind⟩ := (hlaid.value_sits hfound hattr₂ hvalue₂).ordered
    exact (hlaid.runsIn_unique hruns hfound hattr₂ hvalue₂ ⟨Nat.le_trans hbefore hwithin₂.1, Nat.le_trans hwithin₂.2 hbehind⟩).2
  refine ⟨fun region region' hregion => avoids_inside_iff hsome hname htable hregion reference.scope, fun content hcontent => ?_,
    fun found hfound attr₂ hattr₂ hfor value₂ hvalue₂ hwithin₂ => ?_,
    fun found hfound attr₂ hattr₂ aliases node word hmeans hwithin₂ parent hparent hnone => ?_⟩
  · obtain ⟨old, hold, hkind⟩ := Document.element?_eq_some_iff.1 helement
    obtain ⟨old', hold', hkind'⟩ := Document.interpolation?_eq_some_iff.1 hcontent
    obtain rfl : old = old' := Option.some.inj (hold.symm.trans hold')
    cases hkind.symm.trans hkind'
  · obtain rfl := hunique hfound hattr₂ hvalue₂ hwithin₂
    have hinside := within_region hsome hname hregion hwithin
    rw [← hplace] at hinside
    obtain ⟨hbefore, -, hbehind⟩ := (hlaid'.value_sits helement' hattr' hvalue').ordered
    rcases hrecorded.of_value hlaid' helement' hattr' hvalue'
      ⟨Nat.le_trans hbefore hinside.1, Nat.le_trans hinside.2 hbehind⟩ with
      ⟨hvisible, -⟩ | ⟨hloop, -⟩
    · exact avoids_elements htable (hkeeps.ancestors id) hfree hvisible
    · rw [Attribute.isDirective, Attribute.directive?, hkey] at hloop
      exact absurd hloop (Bool.eq_false_iff.1 hfor)
  · obtain ⟨value₂, hvalue₂, hmeans⟩ := Option.bind_eq_some_iff.1 hmeans
    obtain ⟨split, -, -, -, -, hsource⟩ := hlaid.loop_split hfound hattr₂ hvalue₂ hmeans
    obtain ⟨hfirst, -, hlast⟩ := hsource.span
    obtain rfl := hunique hfound hattr₂ hvalue₂
      ⟨Nat.le_trans (Nat.le_trans (Nat.le_add_right _ _) hfirst) hwithin₂.1, Nat.le_trans hwithin₂.2 hlast⟩
    obtain rfl : value = value₂ := Option.some.inj (hvalue.symm.trans hvalue₂)
    rcases related_cases hmeaning with ⟨hnothing, -⟩ | ⟨meaning, meaning', hold, hnew, hmeaning⟩
    · cases hmeans.symm.trans hnothing
    obtain rfl := Option.some.inj (hmeans.symm.trans hold)
    cases hmeaning with
    | @loop _ aliases' _ node' _ _ _ _ halike =>
      have hinside := within_of_alike hsome hname halike hwithin₂
      rw [← hplace] at hinside
      obtain ⟨parent', hparent', hvisible, -⟩ := hrecorded.of_source hlaid' helement' hattr' hvalue' hnew hinside
      rw [hkeeps.parent?_eq, hparent] at hparent'
      obtain rfl := Option.some.inj hparent'
      exact avoids_elements htable (hkeeps.ancestors _) hnone hvisible

end Resolving

/-! ## Fixes -/

section Fixes

variable {source : List Char} {id : NodeId} {fragments : List Script.Node}
    {report : Report} {fix : Fix} {level : Level} {checks : Checks}

/-- A report of the rule is about a member of `this` whose name is plain and stands for no name of an element at the node, and its
fix writes that name for the member. -/
theorem exists_of_mem_checkNever {file : File} (hreport : report ∈ checkNever file id fragments)
    (hfix : report.fix = some fix) :
    ∃ found ∈ thisMembers fragments, isPlainName found.property = true ∧
      (∀ scope ∈ file.scopes.scopeOf? file.document id, file.scopes.templateLocal? scope found.property = none) ∧
      fix.edits = [⟨found.member, found.property⟩] := by
  unfold checkNever at hreport
  obtain ⟨found, hfound, heq⟩ := List.mem_filterMap.1 hreport
  split at heq
  · next hguard =>
    obtain ⟨hplain, hfree⟩ := Bool.and_eq_true_iff.1 hguard
    obtain rfl := Option.some.inj heq
    refine ⟨found, hfound, hplain, fun scope hscope => ?_, ?_⟩
    · rw [Option.mem_def.1 hscope, Option.any_some, Bool.not_eq_true', Option.isSome_eq_false_iff] at hfree
      exact Option.isNone_iff_eq_none.1 hfree
    · rw [FixDraft.build?_add rfl (hfix : (file.draft.replace found.member found.property).build? = some fix)]
  · cases heq

/-- The fixes of a file are those of the reports at the nodes of its template. -/
theorem exists_of_mem_fixes (hchecks : checks = { watches := Watch.fragments checkNever })
    (hfix : fix ∈ (lintFile [⟨info, level, checks⟩] (.ofSource languages source)).fixes) : ∃ id node report,
      (File.ofSource languages source).InTemplate id ∧ (File.ofSource languages source).document.node? id = some node ∧
      report ∈ checkNever (.ofSource languages source) id node.fragments ∧ report.fix = some fix := by
  have hrule : (⟨info, level, checks⟩ : ActiveRule).checks =
      { watches := Watch.fragments checkNever, scripts := fun _ => .reporting [] } := hchecks
  have hdiagnostics := @diagnostics_fragments checkNever (fun _ => []) _ hrule (.ofSource languages source) fun _ => rfl
  rw [LintResult.fixes, List.mem_filterMap] at hfix
  obtain ⟨diagnostic, hdiagnostic, hfix⟩ := hfix
  simp only [lintFile, List.mem_mergeSort, hdiagnostics, List.append_nil, List.mem_map, List.mem_flatMap] at hdiagnostic
  obtain ⟨report, ⟨id, hid, hreport⟩, rfl⟩ := hdiagnostic
  obtain ⟨htemplate, -⟩ := ((File.entered_spec languages source).2 id).1 hid
  unfold reportedIn at hreport
  split at hreport
  · next node hnode => exact ⟨id, node, report, htemplate, hnode, hreport, hfix⟩
  · cases hreport

end Fixes

/-- A member of `this` at a node of the template is written as a variable of the same name, which stands for no name of an element
at the node: when the output is parsed again, every other reference stands for what it stood for. -/
theorem resolves_of_rereads {source output : List Char} (hclean : (Component.parse languages source).problems = [])
    (hfragments : (Component.parse languages source).document.FragmentsLie)
    (hblocks : (Component.parse languages source).BlocksLie)
    {id : NodeId} (htemplate : (File.ofSource languages source).InTemplate id) {node : Node}
    (hnode : (File.ofSource languages source).document.node? id = some node) {found : ThisMember}
    (hfound : found ∈ thisMembers node.fragments) (hplain : isPlainName found.property = true)
    (hfree : ∀ scope ∈ (File.ofSource languages source).scopes.scopeOf? (File.ofSource languages source).document id,
      (File.ofSource languages source).scopes.templateLocal? scope found.property = none) {message : Option String}
    (houtput : (Fix.applyAll source [⟨[⟨found.member, found.property⟩], message⟩]).output = output)
    (htypes : Component.usesTypes output = Component.usesTypes source)
    (hreads : Rereads languages source output id found.member found.property)
    (hlies : (Component.parse languages output).document.FragmentsLie) :
    (File.ofSource languages source).scopes.Alike (thisEdit source output found.member found.property).place
      (fun reference => reference.name = found.property ∧
        reference.span = ⟨found.member.start, found.member.start + byteLength found.property.toList⟩ ∧
        reference.resolved = (File.ofSource languages source).scopes.resolve? reference.scope found.property)
      (File.ofSource languages output).scopes ∧
    ∀ reference ∈ (File.ofSource languages output).scopes.references, reference.inTemplate = true →
      reference.name = found.property →
      reference.span = ⟨found.member.start, found.member.start + byteLength found.property.toList⟩ →
      Resolves languages source output id found.member reference := by
  obtain ⟨member, this, name⟩ := found
  dsimp only at hplain hfree houtput hreads ⊢
  obtain ⟨hword, hsome'⟩ := word_of_isPlainName hplain
  have hname : 0 < byteLength name.toList := (byteLength_pos_iff _).2 hsome'
  have hlaid : (File.ofSource languages source).document.Laid := Document.laid_parse _ source hfragments
  have hmarkup := ((Component.problems_eq_nil_iff source).1 hclean).1
  have hlt := hreads.some
  have hedits : (thisEdit source output member name).Edits source output _ _ _ := edits_thisEdit hlt
  obtain ⟨front, word, back, hsource, rfl⟩ := hreads.inText.parts
  have houtput' : output = front ++ (name.toList ++ back) := by
    rw [← houtput, hsource]
    exact Fix.applyAll_single front word back name message
  have hsome : word ≠ [] := by
    rintro rfl
    simp at hlt
  obtain ⟨number, parent, children, span, kind⟩ := node
  cases kind with
  | root | text | comment => cases hfound
  | interpolation content =>
    have hcontent := Document.interpolation?_eq_some_iff.2 ⟨_, hnode, rfl⟩
    have hbetween := thisMember_between (fun fragment hfragment => hfragments _ (Array.mem_of_getElem? hnode) fragment
      (Option.mem_toList.1 hfragment)) hfound
    obtain ⟨expression, hexpression⟩ : ∃ expression, content.expression = some expression := by
      cases hexpression : content.expression with
      | none =>
        have hnothing : _ ∈ thisMembers content.expression.toList := hfound
        rw [hexpression] at hnothing
        cases hnothing
      | some expression => exact ⟨expression, rfl⟩
    obtain ⟨expression', hexpression', hsame⟩ := hreads.interpolation content hcontent expression hexpression
    have hread := Option.Rel.some hsame
    rw [← hexpression, ← Option.mem_def.1 hexpression'] at hread
    obtain ⟨halike, hkeeps, content', hcontent', hregion, -⟩ :=
      Component.alike_of_interpolation hsource houtput' hword hsome' hedits
      hfragments hblocks htypes hcontent (by rw [hexpression]; rfl) hbetween.1 hbetween.2.2 rfl hread
    have htable := table_alike hlt hname halike
    exact ⟨htable, fun reference hreference hinTemplate hvariable hplace =>
      resolves_interpolation hlt hname hfree htable hkeeps hlies
      hcontent hcontent' hregion ⟨hbetween.1, hbetween.2.2⟩ hreference hinTemplate hvariable hplace⟩
  | element element =>
    have helement := Document.element?_eq_some_iff.2 ⟨_, hnode, rfl⟩
    obtain ⟨fragment, hfragment, hmember⟩ := Script.Node.mem_gatherAll.1 hfound
    obtain ⟨attr, hattr, key, value, meaning, hkey, hvalue, hmeaning, hlies'⟩ := exists_value hlaid helement hfragment
    have hmember : _ ∈ thisMembers [fragment] := Script.Node.mem_gatherAll.2 ⟨fragment, List.mem_singleton_self _, hmember⟩
    have hbetween := thisMember_between (by simpa using hlies') hmember
    have hwithin : Span.Within _ value.valueSpan := ⟨hbetween.1, hbetween.2.2⟩
    obtain ⟨meaning', hmeaning', hsame⟩ := hreads.value element helement attr hattr key (by rw [Attribute.directive?, hkey]; rfl)
      value hvalue hwithin meaning hmeaning
    have hread := Option.Rel.some hsame
    rw [← hmeaning, ← Option.mem_def.1 hmeaning'] at hread
    have hnotScript : (Component.parse languages source).document.parent? id = some 0 → element.name ≠ "script" := by
      intro htop
      rw [htemplate.name_eq htop helement]
      decide
    obtain ⟨halike, hkeeps, element', attr', value', helement', hattr', hkey', hvalue', hregion, hmeaning'⟩ :=
      Component.alike_of_value hsource houtput' hword hsome hsome' hedits hmarkup hfragments hblocks htypes
        helement hnotScript hattr hkey hvalue hwithin.1 hwithin.2 rfl hread
    have htable := table_alike hlt hname halike
    exact ⟨htable, fun reference hreference hinTemplate hvariable hplace =>
      resolves_value hlt hname hfree htable hkeeps hfragments hlies helement helement' hattr hattr' hkey' hvalue
        hvalue' hregion (hmeaning' ▸ hread) hwithin hreference hinTemplate hvariable hplace⟩

/-- A fix of the rule writes a member of `this` as a variable of the same name. When the output is parsed again,
every other reference stands for what it stood for; and the variable stands for no name of an element, and for
something that is declared in the same expression if and only if the name does so where the member is. -/
theorem lintFile_fix_resolves {options : List Json} {checks : Checks} (h : rule.checks? patterns options = some checks)
    (hstyle : Style.ofOptions? options = some .never) (level : Level) {source : List Char}
    (hclean : (Component.parse languages source).problems = [])
    (hfragments : (Component.parse languages source).document.FragmentsLie)
    (hblocks : (Component.parse languages source).BlocksLie) :
    ∀ fix ∈ (lintFile [⟨info, level, checks⟩] (.ofSource languages source)).fixes, ∃ id node found,
      (File.ofSource languages source).document.node? id = some node ∧ found ∈ thisMembers node.fragments ∧
      fix.edits = [⟨found.member, found.property⟩] ∧
      ∀ output, (Fix.applyAll source [fix]).output = output → Component.usesTypes output = Component.usesTypes source →
        Rereads languages source output id found.member found.property →
          (Component.parse languages output).document.FragmentsLie →
        (File.ofSource languages source).scopes.Alike (thisEdit source output found.member found.property).place
          (fun reference => reference.name = found.property ∧
            reference.span = ⟨found.member.start, found.member.start + byteLength found.property.toList⟩ ∧
            reference.resolved = (File.ofSource languages source).scopes.resolve? reference.scope found.property)
          (File.ofSource languages output).scopes ∧
        ∀ reference ∈ (File.ofSource languages output).scopes.references, reference.inTemplate = true →
          reference.name = found.property →
          reference.span = ⟨found.member.start, found.member.start + byteLength found.property.toList⟩ →
          Resolves languages source output id found.member reference := by
  have hchecks : checks = { watches := Watch.fragments checkNever } := by
    have hmap : (Style.ofOptions? options).map _ = some checks := h
    rw [hstyle, Option.map_some] at hmap
    exact (Option.some.inj hmap).symm
  intro fix hfix
  obtain ⟨id, node, report, htemplate, hnode, hreport, hfixed⟩ := exists_of_mem_fixes hchecks hfix
  obtain ⟨found, hfound, hplain, hfree, hedits⟩ := exists_of_mem_checkNever hreport hfixed
  refine ⟨id, node, found, hnode, hfound, hedits, fun output houtput htypes hreads hlies => ?_⟩
  obtain ⟨edits, message⟩ := fix
  obtain rfl : edits = _ := hedits
  exact resolves_of_rereads hclean hfragments hblocks htemplate hnode hfound hplain hfree houtput htypes hreads hlies

/-- Rows of a list: one member of `this` has the name of the row, and another one stands in a function. -/
def namedRow : List Char :=
  "<template><p v-for=\"row in rows\">\x7b\x7bthis.row\x7d\x7d\x7b\x7brow.map(_ => this.unit)\x7d\x7d</p></template>".toList

/-- The rows with the member in the function written as a variable. -/
def namedRowPlain : List Char :=
  "<template><p v-for=\"row in rows\">\x7b\x7bthis.row\x7d\x7d\x7b\x7brow.map(_ => unit)\x7d\x7d</p></template>".toList

/-- The member that has the name of the row is left alone, and the other one becomes a variable that stands for
no name of an element. -/
theorem lintFile_fix_resolves_namedRow : ∃ checks fix reference, rule.checks? Regex.engine [] = some checks ∧
    Style.ofOptions? [] = some .never ∧ (Component.parse Script.Dialect.language namedRow).problems = [] ∧
    (Component.parse Script.Dialect.language namedRow).document.FragmentsLie ∧
    (Component.parse Script.Dialect.language namedRow).BlocksLie ∧
    (lintFile [⟨info, .error, checks⟩] (.ofSource Script.Dialect.language namedRow)).fixes = [fix] ∧
    (Fix.applyAll namedRow [fix]).output = namedRowPlain ∧
    Rereads Script.Dialect.language namedRow namedRowPlain 4 ⟨60, 69⟩ "unit" ∧
    (Component.parse Script.Dialect.language namedRowPlain).document.FragmentsLie ∧
    reference ∈ (File.ofSource Script.Dialect.language namedRowPlain).scopes.references ∧ reference.name = "unit" ∧
    reference.span = ⟨60, 64⟩ ∧ Resolves Script.Dialect.language namedRow namedRowPlain 4 ⟨60, 69⟩ reference ∧
    (File.ofSource Script.Dialect.language namedRowPlain).scopes.Avoids reference.scope "unit"
      (·.kind.isTemplateLocal = true) := by
  have hchecks : rule.checks? Regex.engine [] = some { watches := Watch.fragments checkNever } := rfl
  have hclean : (Component.parse Script.Dialect.language namedRow).problems = [] := by decide +kernel
  have hfragments : (Component.parse Script.Dialect.language namedRow).document.FragmentsLie := by decide +kernel
  have hblocks : (Component.parse Script.Dialect.language namedRow).BlocksLie := by decide +kernel
  have hfixes : (lintFile [⟨info, .error, { watches := Watch.fragments checkNever }⟩]
      (.ofSource Script.Dialect.language namedRow)).fixes = [⟨[⟨⟨60, 69⟩, "unit"⟩], none⟩] := by decide +kernel
  have houtput : (Fix.applyAll namedRow [⟨[⟨⟨60, 69⟩, "unit"⟩], none⟩]).output = namedRowPlain := by decide +kernel
  have htypes : Component.usesTypes namedRowPlain = Component.usesTypes namedRow := by decide +kernel
  have hreads : Rereads Script.Dialect.language namedRow namedRowPlain 4 ⟨60, 69⟩ "unit" := by decide +kernel
  have hlies : (Component.parse Script.Dialect.language namedRowPlain).document.FragmentsLie := by decide +kernel
  have honly : (List.range (File.ofSource Script.Dialect.language namedRow).document.size).all fun id =>
      ((File.ofSource Script.Dialect.language namedRow).document.node? id).all fun node =>
        id == 4 || (thisMembers node.fragments).all (·.member != ⟨60, 69⟩) := by decide +kernel
  have hreferences : (File.ofSource Script.Dialect.language namedRowPlain).scopes.references.any fun reference =>
      reference.inTemplate && reference.name == "unit" && reference.span == ⟨60, 64⟩ := by decide +kernel
  have hcontent : ((File.ofSource Script.Dialect.language namedRow).document.interpolation? 4).isSome = true := by decide +kernel
  obtain ⟨reference, hreference, hmatches⟩ := Array.any_eq_true'.1 hreferences
  simp only [Bool.and_eq_true, beq_iff_eq] at hmatches
  obtain ⟨⟨htemplate, hname⟩, hspan⟩ := hmatches
  obtain ⟨id, node, ⟨member, this, name⟩, hnode, hfound, hedits, hresolves⟩ :=
    lintFile_fix_resolves hchecks rfl .error hclean hfragments
    hblocks _ (hfixes ▸ List.mem_singleton_self _)
  obtain ⟨rfl, rfl⟩ : ⟨60, 69⟩ = member ∧ "unit" = name := by simpa using hedits
  obtain rfl : id = 4 := by
    have hid : id < (File.ofSource Script.Dialect.language namedRow).document.size := (Array.getElem?_eq_some_iff.1 hnode).1
    have hhere := List.all_eq_true.1 honly id (List.mem_range.2 hid)
    rw [hnode, Option.all_some, Bool.or_eq_true, beq_iff_eq, List.all_eq_true] at hhere
    exact hhere.resolve_right fun hnone => absurd (hnone _ hfound) (by simp)
  have hplace : reference.span = ⟨60, 60 + byteLength "unit".toList⟩ := by
    rw [hspan]
    decide +kernel
  have hresolved := (hresolves namedRowPlain houtput htypes hreads hlies).2 reference hreference htemplate hname hplace
  obtain ⟨content, hcontent⟩ := Option.isSome_iff_exists.1 hcontent
  have havoids := hresolved.interpolation content hcontent
  rw [hname] at havoids
  exact ⟨_, _, reference, hchecks, rfl, hclean, hfragments, hblocks, hfixes, houtput, hreads, hlies,
    hreference, hname, hspan, hresolved,
    havoids⟩

/-- A member of `this` in a function with a parameter of its name. -/
def sameParameter : List Char :=
  "<template><p>\x7b\x7b list.map(x => this.x) \x7d\x7d</p></template>".toList

/-- The member written as a variable. -/
def sameParameterPlain : List Char :=
  "<template><p>\x7b\x7b list.map(x => x) \x7d\x7d</p></template>".toList

/-- The fix writes the parameter. -/
theorem not_avoids_parameter : ∃ checks, rule.checks? Regex.engine [] = some checks ∧
    (Fix.applyAll sameParameter (lintFile [⟨info, .error, checks⟩]
      (.ofSource Script.Dialect.language sameParameter)).fixes).output =
      sameParameterPlain ∧
    ∃ reference ∈ (File.ofSource Script.Dialect.language sameParameterPlain).scopes.references,
      reference.name = "x" ∧ reference.span = ⟨30, 31⟩ ∧
      ¬(File.ofSource Script.Dialect.language sameParameterPlain).scopes.Avoids reference.scope reference.name
        (·.span.Within ((File.ofSource Script.Dialect.language sameParameterPlain).document.spanOf 3)) :=
  ⟨_, rfl, by decide +kernel, ScopeTable.exists_not_avoids (by decide +kernel)⟩

/-- A loop whose source is a member of `this` with the name of a loop around it, and of a variable that a handler declares. -/
def outerLoop : List Char :=
  "<template><p v-for=\"x in xs\"><b v-for=\"y in this.x\" @click=\"let x = 1\"/></p></template>".toList

/-- The member written as a variable. -/
def outerLoopPlain : List Char :=
  "<template><p v-for=\"x in xs\"><b v-for=\"y in x\" @click=\"let x = 1\"/></p></template>".toList

/-- The handler's variable hides the name of the loop around it from the check, and the fix writes that name. -/
theorem not_avoids_outerLoop : ∃ checks, rule.checks? Regex.engine [] = some checks ∧
    (Fix.applyAll outerLoop (lintFile [⟨info, .error, checks⟩] (.ofSource Script.Dialect.language outerLoop)).fixes).output =
      outerLoopPlain ∧
    ∃ reference ∈ (File.ofSource Script.Dialect.language outerLoopPlain).scopes.references,
      reference.name = "x" ∧ reference.span = ⟨44, 45⟩ ∧
      ¬(File.ofSource Script.Dialect.language outerLoopPlain).scopes.Avoids reference.scope reference.name
        (·.kind.isTemplateLocal = true) :=
  ⟨_, rfl, by decide +kernel, ScopeTable.exists_not_avoids (by decide +kernel)⟩

end Rules.ThisUsage

end ComponentLint
