import ComponentLint.Proofs.Lint.TemplateRules
import Mathlib.Data.List.SplitBy

/-!
# Rules about scripts

The rules whose reports and fixes are placed by nodes of scripts and fragments, or by names of the scope table. A rule finds
its nodes in the trees of the file, so their spans are spans of the text if the trees lie in it.
-/

namespace ComponentLint

open Text Markup

variable {languages : Script.Languages} {patterns : PatternEngine}

/-! ## Trees of a file -/

namespace Component.ScriptsLie

variable {component : Component}

/-- The expression of a directive of an element. -/
theorem expression (h : component.ScriptsLie) {id : NodeId} {element : Element}
    (helement : component.document.element? id = some element) {name : String} {node : Script.Node}
    (hnode : (element.directive? name).bind (·.expression?) = some node) : node.LiesIn component.document.source := by
  obtain ⟨attr, hattr, hexpression⟩ := Option.bind_eq_some_iff.1 hnode
  unfold Attribute.expression? at hexpression
  split at hexpression
  · next found hmeaning =>
    obtain rfl := Option.some.inj hexpression
    exact h.values id element helement attr (List.mem_of_find?_eq_some hattr) _ hmeaning
  · nomatch hexpression

end Component.ScriptsLie

namespace Script.Node.Lies

variable {text : List Char} {first last : Nat} {node : Script.Node}

/-- The property of an object literal, its key and its value. -/
theorem property (h : node.Lies text first last) {property : OptionProperty} (hproperty : property ∈ Options.properties node) :
    property.key.Lies text first last ∧ property.value.Lies text first last := by
  obtain ⟨part, hpart, hof⟩ := List.mem_filterMap.1 hproperty
  have hlies := h.parts part hpart
  unfold OptionProperty.of? at hof
  split at hof
  · obtain ⟨name, -, rfl⟩ := Option.map_eq_some_iff.1 hof
    exact ⟨hlies.parts _ (by simp), hlies.parts _ (by simp)⟩
  · nomatch hof

/-- The function that is the value of an option. -/
theorem function (h : node.Lies text first last) {name : String} {function : Script.Node}
    (hfunction : Options.function? node name = some function) : function.Lies text first last := by
  obtain ⟨property, hproperty, hvalue⟩ := Option.bind_eq_some_iff.1 hfunction
  unfold Options.asFunction? at hvalue
  dsimp only at hvalue
  split at hvalue
  · obtain rfl := Option.some.inj hvalue
    exact (h.property (List.mem_of_find?_eq_some hproperty)).2.unparenthesized
  · nomatch hvalue

theorem param (h : node.Lies text first last) : ∀ param ∈ node.params, param.Lies text first last := by
  intro param hparam
  unfold Script.Node.params at hparam
  split at hparam
  · next list hlist => exact (h.parts list (List.mem_of_find?_eq_some hlist)).parts param (List.mem_filter.1 hparam).1
  · cases hparam

theorem pattern (h : node.Lies text first last) {pattern : Script.Node} (hpattern : node.pattern? = some pattern) :
    pattern.Lies text first last :=
  h.parts pattern (List.mem_of_find?_eq_some hpattern)

end Script.Node.Lies

/-- The options object of a block lies where its statements do. -/
theorem Options.ofBlock?_lies {text : List Char} {first last : Nat} {table : ScopeTable} {block : ScriptBlock}
    (h : ∀ statement ∈ block.statements, statement.Lies text first last) {object : Script.Node}
    (hobject : Options.ofBlock? table block = some object) : object.Lies text first last := by
  obtain ⟨statement, hstatement, hoptions⟩ := List.exists_of_findSome?_eq_some hobject
  have hlies := h statement hstatement
  unfold Options.ofStatement? at hoptions
  split at hoptions
  · obtain rfl := Option.some.inj hoptions
    exact hlies.parts _ (by simp)
  · split at hoptions
    · obtain rfl := Option.some.inj hoptions
      exact (hlies.parts _ List.mem_cons_self).parts _ (by simp)
    · nomatch hoptions
  · nomatch hoptions

/-- The options object of a file. -/
theorem File.options_lies {file : File} (h : file.component.ScriptsLie) {object : Script.Node}
    (hobject : file.options? = some object) : object.LiesIn file.document.source := by
  obtain ⟨block, hblock, hoptions⟩ := Option.bind_eq_some_iff.1 hobject
  exact Options.ofBlock?_lies (h.statements block (List.mem_of_find?_eq_some hblock)) hoptions

namespace Rules

variable {language : Script.Language} {file : File}

/-! ## Conditions -/

namespace DeadBranch

theorem rule_sound : rule.Sound := by
  rintro patterns options checks ⟨⟩ language file hfile
  refine .watchingOne (Watch.elementsWith_sound _ fun id element helement => ?_)
  unfold check
  split
  · simp
  · next condition hcondition =>
    dsimp only
    split
    · simpa using Report.Sound.ofInfo _ _ (fun hlie => (hlie.expression helement hcondition).span) _
    · simp

end DeadBranch

namespace NegatedCondition

/-- A word that is found in a span stands there. -/
theorem of_find? {span found : Span} {word : String} (hword : word.toList ≠ []) (h : find? file span word = some found) :
    found.InText file.document.source := by
  obtain ⟨⟨before, after⟩, hcut, rfl⟩ := Option.map_eq_some_iff.1 h
  have htext : slice file.document.source span = before ++ (word.toList ++ after) := eq_of_cutAt? hcut
  have hspan : span.InText file.document.source := inText_of_slice (by simp [htext, hword])
  have hstart := hspan.isBoundary_slice (htext ▸ isBoundary_append before (word.toList ++ after))
  have hstop := hspan.isBoundary_slice (htext ▸ List.append_assoc before word.toList after ▸
    isBoundary_append (before ++ word.toList) after)
  rw [byteLength_append, ← Nat.add_assoc] at hstop
  exact ⟨Nat.le_add_right _ _, hstart, hstop⟩

theorem invert_for {condition : Script.Node} (hcondition : file.component.ScriptsLie → condition.LiesIn file.document.source)
    {draft inverted : FixDraft} (hdraft : draft.For file.document.source file.component.ScriptsLie)
    (h : invert file condition draft = some inverted) : inverted.For file.document.source file.component.ScriptsLie := by
  unfold invert at h
  split at h
  · obtain rfl := Option.some.inj h
    exact hdraft.add (fun hlie => (hcondition hlie).span) _
  · next operator _ left right =>
    dsimp only at h
    obtain ⟨found, hfound, rfl⟩ := Option.map_eq_some_iff.1 h
    refine hdraft.add (fun _ => of_find? ?_ hfound) _
    split <;> decide
  · nomatch h

theorem of_body? (hfile : file.Written language) {id : NodeId} {element : Element}
    (helement : file.document.element? id = some element) {body : Span} (h : body? element = some body) :
    body.InText file.document.source := by
  obtain ⟨hwritten, hfits, -⟩ := hfile.element helement
  obtain ⟨tag, htag, rfl⟩ := Option.map_eq_some_iff.1 h
  exact hwritten.startTag.gap (hwritten.endTag tag htag) (hfits.endTag tag htag).1

theorem swapFix?_drafted (hfile : file.Written language) {condition : Script.Node}
    (hcondition : file.component.ScriptsLie → condition.LiesIn file.document.source) {id other : NodeId}
    {branch alternative : Element} (hbranch : file.document.element? id = some branch)
    (halternative : file.document.element? other = some alternative) {fix : Fix}
    (h : swapFix? file condition branch alternative = some fix) :
    fix.Drafted file.document.source file.component.ScriptsLie := by
  unfold swapFix? at h
  obtain ⟨first, hfirst, h⟩ := Option.bind_eq_some_iff.1 h
  obtain ⟨second, hsecond, h⟩ := Option.bind_eq_some_iff.1 h
  obtain ⟨draft, hdraft, h⟩ := Option.bind_eq_some_iff.1 h
  refine (((invert_for hcondition hfile.draft hdraft).add (fun _ => ?_) _).add (fun _ => ?_) _).build? h
  · exact of_body? hfile hbranch hfirst
  · exact of_body? hfile halternative hsecond

theorem rule_sound : rule.Sound := by
  rintro patterns options checks ⟨⟩ language file hfile
  refine .watchingOne (Watch.elementsWith_sound _ fun id element helement => ?_)
  unfold check
  split
  · simp
  · next test htest =>
    have hcondition : file.component.ScriptsLie → test.unparenthesized.LiesIn file.document.source :=
      fun hlie => (hlie.expression helement htest).unparenthesized
    dsimp only
    split
    · split
      · next alternative halternative =>
        obtain ⟨next, -, halternative⟩ := Option.bind_eq_some_iff.1 halternative
        obtain ⟨found, hfound, halternative⟩ := Option.bind_eq_some_iff.1 halternative
        split at halternative
        · obtain rfl := Option.some.inj halternative
          intro report hreport
          rw [List.mem_singleton.1 hreport]
          refine (Report.Sound.ofInfo _ _ (fun hlie => (hcondition hlie).span) _).withSuggestion _ fun fix hfix => ?_
          exact swapFix?_drafted hfile hcondition helement hfound hfix
        · nomatch halternative
      · simp
    · simp

end NegatedCondition

/-! ## Handlers and members -/

namespace HandlerCall

/-- The one expression of a handler ends where its statement does, or before. -/
theorem of_singleExpression? {text : List Char} {value : DirectiveValue} (hvalue : value.LiesIn text) {node : Script.Node}
    {stop : Nat} (h : singleExpression? value = some (node, stop)) :
    node.Lies text 0 stop ∧ isBoundary text stop = true := by
  unfold singleExpression? at h
  split at h
  · next found =>
    obtain ⟨rfl, rfl⟩ := Prod.mk.inj (Option.some.inj h)
    obtain ⟨kind, span, children⟩ := found
    exact ⟨.intro hvalue.span hvalue.first_le (Nat.le_refl _) hvalue.inside, hvalue.span.stop⟩
  · next statements =>
    split at h
    · next span found hfound =>
      obtain ⟨rfl, rfl⟩ := Prod.mk.inj (Option.some.inj h)
      have hmem : (⟨.expressionStatement, span, [found]⟩ : Script.Node) ∈ statements :=
        (List.mem_filter.1 (hfound ▸ List.mem_singleton_self _)).1
      have hlies := hvalue _ hmem
      exact ⟨hlies.inside found (List.mem_singleton_self _), hlies.span.stop⟩
    · nomatch h
  · nomatch h

theorem checkCall_sound (hfile : file.Written language) (settings : Settings) {call : Script.Node} {stop : Nat}
    (hcall : file.component.ScriptsLie → call.Lies file.document.source 0 stop ∧ isBoundary file.document.source stop = true) :
    ∀ report ∈ checkCall settings file call stop, report.Sound file := by
  unfold checkCall
  split
  · simp
  · next callee hcallee =>
    dsimp only
    split
    · simp
    · intro report hreport
      rw [List.mem_singleton.1 hreport]
      refine (Report.Sound.ofInfo _ _ (fun hlie => (hcall hlie).1.span) _).withFix fun fix hfix => ?_
      split at hfix
      · nomatch hfix
      · refine (hfile.draft.add (fun hlie => ?_) "").build? hfix
        obtain ⟨hlies, hstop⟩ := hcall hlie
        unfold bareCallee? at hcallee
        split at hcallee
        · obtain rfl := Option.some.inj hcallee
          have hinside := hlies.parts _ List.mem_cons_self
          exact ⟨hinside.stop_le, hinside.span.stop, hstop⟩
        · nomatch hcallee

theorem rule_sound : rule.Sound := by
  intro patterns options checks hchecks language file hfile
  obtain ⟨settings, -, rfl⟩ := Option.map_eq_some_iff.1 hchecks
  refine .watchingOne (Watch.directives_sound _ fun id element attr key helement hattr hkey => ?_)
  unfold check
  split
  · next value _ hmeaning =>
    have hvalue : file.component.ScriptsLie → value.LiesIn file.document.source :=
      fun hlie => hlie.values id element helement attr hattr value hmeaning
    split
    · split
      · simpa using Report.Sound.ofInfo _ _ (fun hlie => (hvalue hlie).span) _
      · simp
    · split
      · next node stop hsingle =>
        refine checkCall_sound hfile _ fun hlie => ?_
        obtain ⟨hlies, hstop⟩ := of_singleExpression? (hvalue hlie) hsingle
        exact ⟨hlies.unparenthesized, hstop⟩
      · simp
  · simp

end HandlerCall

namespace ThisUsage

theorem of_thisMember {text : List Char} {node : Script.Node} (h : node.LiesIn text) {found : ThisMember}
    (hfound : found ∈ thisMember node) : found.member.InText text ∧ found.word.InText text := by
  unfold thisMember at hfound
  split at hfound
  · rw [List.mem_singleton.1 hfound]
    exact ⟨h.span, (h.parts _ List.mem_cons_self).span⟩
  · rw [List.mem_singleton.1 hfound]
    exact ⟨h.span, (h.parts _ List.mem_cons_self).span⟩
  · cases hfound

theorem checkNever_sound (hfile : file.Written language) (id : NodeId) {fragments : List Script.Node}
    (hfragments : file.component.ScriptsLie → ∀ fragment ∈ fragments, fragment.LiesIn file.document.source) :
    ∀ report ∈ checkNever file id fragments, report.Sound file := by
  intro report hreport
  obtain ⟨found, hfound, hreport⟩ := List.mem_filterMap.1 hreport
  have hplaces : file.component.ScriptsLie →
      found.member.InText file.document.source ∧ found.word.InText file.document.source := by
    intro hlie
    obtain ⟨node, hnode, hmember⟩ := Script.Node.Lies.of_mem_gatherAll (hfragments hlie) hfound
    exact of_thisMember hnode hmember
  split at hreport
  · obtain rfl := Option.some.inj hreport
    exact (Report.Sound.ofInfo _ _ (fun hlie => (hplaces hlie).2) _).withDraft
      (hfile.draft.add (fun hlie => (hplaces hlie).1) _)
  · nomatch hreport

theorem checkAlways_sound (hfile : file.Written language) : ∀ report ∈ checkAlways file, report.Sound file := by
  unfold checkAlways
  split
  · simp
  · intro report hreport
    obtain ⟨reference, hreference, hreport⟩ := List.mem_filterMap.1 hreport
    have hmem := Array.mem_toList_iff.1 (List.mem_filter.1 hreference).1
    dsimp only at hreport
    split at hreport
    · nomatch hreport
    · obtain rfl := Option.some.inj hreport
      exact .ofInfo _ _ (fun hlie => (hfile.scopes hlie).references reference hmem) _

theorem rule_sound : rule.Sound := by
  intro patterns options checks hchecks language file hfile
  obtain ⟨style, -, rfl⟩ := Option.map_eq_some_iff.1 hchecks
  cases style with
  | never => exact .watching (Watch.fragments_sound fun id fragments => checkNever_sound hfile id)
  | always => exact ⟨by simp, Checks.Sound.none_reporting, Callback.reporting_sound (checkAlways_sound hfile)⟩

end ThisUsage

namespace EventCasing

theorem of_emittedName {text : List Char} {scopes : ScopeTable} {emitters : Emitters} {node : Script.Node}
    (h : node.LiesIn text) {emitted : Name} (hemitted : emitted ∈ emittedName scopes emitters node) :
    emitted.span.InText text := by
  unfold emittedName at hemitted
  split at hemitted
  · split at hemitted
    · rw [List.mem_singleton.1 hemitted]
      exact (h.parts _ (List.mem_cons_of_mem _ List.mem_cons_self)).span
    · cases hemitted
  · cases hemitted

theorem checkName_sound (hfile : file.Written language) (settings : Settings) {emitted : Name}
    (hemitted : file.component.ScriptsLie → emitted.span.InText file.document.source) :
    ∀ report ∈ checkName patterns settings file emitted, report.Sound file := by
  unfold checkName
  split
  dsimp only
  split
  · simp
  · split
    · simpa using Report.Sound.ofInfo _ _ hemitted _
    · intro report hreport
      rw [List.mem_singleton.1 hreport]
      refine (Report.Sound.ofInfo _ _ hemitted _).withSuggestion _ fun fix hfix => ?_
      exact (hfile.draft.add hemitted _).build? hfix

theorem check_sound (hfile : file.Written language) (settings : Settings) {fragments : List Script.Node}
    (hfragments : file.component.ScriptsLie → ∀ fragment ∈ fragments, fragment.LiesIn file.document.source) :
    ∀ report ∈ check patterns settings file fragments, report.Sound file := by
  intro report hreport
  obtain ⟨emitted, hemitted, hreport⟩ := List.mem_flatMap.1 hreport
  refine checkName_sound hfile settings (fun hlie => ?_) report hreport
  obtain ⟨node, hnode, hname⟩ := Script.Node.Lies.of_mem_gatherAll (hfragments hlie) hemitted
  exact of_emittedName hnode hname

theorem rule_sound : rule.Sound := by
  intro patterns options checks hchecks language file hfile
  obtain ⟨settings, -, rfl⟩ := Option.map_eq_some_iff.1 hchecks
  have hwatches : ∀ watch ∈ Watch.fragments fun file _ fragments => check patterns settings file fragments,
      watch.Sound file := Watch.fragments_sound fun id fragments => check_sound hfile _
  refine ⟨hwatches, Callback.reporting_sound ?_, Checks.Sound.none_reporting⟩
  refine check_sound hfile _ fun hlie statement hstatement => ?_
  obtain ⟨block, hblock, hmem⟩ := List.mem_flatMap.1 hstatement
  exact hlie.statements block hblock statement hmem

end EventCasing

/-! ## Options and props -/

namespace DestroyedHooks

theorem of_plainKeys {text : List Char} {object : Script.Node} (h : object.LiesIn text) {key : Name}
    (hkey : key ∈ plainKeys object) : key.span.InText text := by
  obtain ⟨property, hproperty, rfl⟩ := List.mem_map.1 hkey
  exact (h.property (List.mem_filter.1 hproperty).1).1.span

theorem checkKey_sound (hfile : file.Written language) (keys : List Name) {key : Name}
    (hkey : file.component.ScriptsLie → key.span.InText file.document.source) :
    ∀ report ∈ checkKey file keys key, report.Sound file := by
  unfold checkKey
  split
  · simp
  · dsimp only
    split
    · simpa using (Report.Sound.ofInfo _ _ hkey _).withHelp _
    · intro report hreport
      rw [List.mem_singleton.1 hreport]
      exact (Report.Sound.ofInfo _ _ hkey _).withDraft (hfile.draft.add hkey _)

theorem rule_sound : rule.Sound := by
  rintro patterns options checks ⟨⟩ language file hfile
  refine ⟨by simp, Callback.reporting_sound ?_, Checks.Sound.none_reporting⟩
  unfold check
  split
  · next object hobject =>
    intro report hreport
    obtain ⟨key, hkey, hreport⟩ := List.mem_flatMap.1 hreport
    exact checkKey_sound hfile _ (fun hlie => of_plainKeys (File.options_lies hlie hobject) hkey) report hreport
  · simp

end DestroyedHooks

namespace PropsReactivity

/-- The place that a read is reported at. -/
def RootRead.place : RootRead → Span
  | .destructure pattern _ => pattern
  | .property member _ => member

theorem of_readOf {text : List Char} {target : Span} (htarget : target.InText text) {destructures : Bool}
    {value : Script.Node} (hvalue : value.LiesIn text) {read : RootRead} (h : read ∈ readOf target destructures value) :
    read.place.InText text := by
  unfold readOf at h
  dsimp only at h
  split at h
  · split at h
    · rw [List.mem_singleton.1 h]
      exact htarget
    · cases h
  · split at h
    · rw [List.mem_singleton.1 h]
      exact hvalue.unparenthesized.span
    · cases h

theorem of_readsOf {text : List Char} {node : Script.Node} (hnode : node.LiesIn text) {read : RootRead}
    (h : read ∈ readsOf node) : read.place.InText text := by
  unfold readsOf at h
  split at h
  case h_6 => cases h
  all_goals
    obtain ⟨hfirst, hvalue⟩ := List.forall_mem_cons.1 hnode.parts
    exact of_readOf hfirst.span (hvalue _ (List.mem_singleton_self _)) h

theorem checkRoot_sound (scopes : ScopeTable) (props : Option Nat) {statements : List Script.Node}
    (hstatements : file.component.ScriptsLie → ∀ statement ∈ statements, statement.LiesIn file.document.source)
    (scopeName : String) : ∀ report ∈ checkRoot scopes props statements scopeName, report.Sound file := by
  unfold checkRoot
  split
  · next props =>
    intro report hreport
    obtain ⟨read, hread, hreport⟩ := List.mem_flatMap.1 hreport
    have hplace : file.component.ScriptsLie → read.place.InText file.document.source := by
      intro hlie
      obtain ⟨node, hnode, hreads⟩ := Script.Node.Lies.of_mem_gatherAll (hstatements hlie) hread
      exact of_readsOf hnode hreads
    unfold checkRead at hreport
    split at hreport
    all_goals
      split at hreport
      · rw [List.mem_singleton.1 hreport]
        exact .ofInfo _ _ hplace _
      · cases hreport
  · simp

theorem checkOption_sound : ∀ report ∈ checkOption file, report.Sound file := by
  unfold checkOption
  split
  · simp
  · next setup param hsetup =>
    obtain ⟨function, hfunction, hparam⟩ := Option.bind_eq_some_iff.1 hsetup
    obtain ⟨object, hobject, hfunction⟩ := Option.bind_eq_some_iff.1 hfunction
    obtain ⟨first, hfirst, heq⟩ := Option.map_eq_some_iff.1 hparam
    obtain ⟨rfl, rfl⟩ := Prod.mk.inj heq
    have hlies : file.component.ScriptsLie → function.LiesIn file.document.source :=
      fun hlie => (File.options_lies hlie hobject).function hfunction
    dsimp only
    split
    · refine checkRoot_sound _ _ (fun hlie statement hstatement => ?_) _
      cases hbody : function.body? with
      | none => simp [hbody] at hstatement
      | some body =>
        rw [hbody] at hstatement
        exact ((hlies hlie).parts body (List.mem_of_find?_eq_some hbody)).parts statement hstatement
    · next pattern _ hpattern =>
      have hspan := fun hlie => (((hlies hlie).param first (List.mem_of_head? hfirst)).pattern hpattern).span
      simpa using Report.Sound.ofInfo _ _ hspan _
    · simp

theorem of_propsPatterns {text : List Char} {scopes : ScopeTable} {statements : List Script.Node}
    (hstatements : ∀ statement ∈ statements, statement.LiesIn text) {pattern : Script.Node}
    (h : pattern ∈ propsPatterns scopes statements) : pattern.LiesIn text := by
  obtain ⟨declarator, hdeclarator, hpattern⟩ := List.mem_filterMap.1 h
  obtain ⟨statement, hstatement, hparts⟩ := List.mem_flatMap.1 hdeclarator
  split at hparts
  · have hlies := (hstatements statement hstatement).parts declarator hparts
    split at hpattern
    · next first value hchildren =>
      split at hpattern
      · obtain rfl := Option.some.inj hpattern
        exact hlies.parts _ (hchildren ▸ List.mem_cons_self)
      · nomatch hpattern
    · nomatch hpattern
  · cases hparts

theorem checkScript_sound : ∀ report ∈ checkScript file, report.Sound file := by
  unfold checkScript
  split
  · simp
  · next script hscript =>
    have hstatements : file.component.ScriptsLie → ∀ statement ∈ script.statements,
        statement.LiesIn file.document.source :=
      fun hlie => hlie.statements script (List.mem_of_find?_eq_some hscript)
    intro report hreport
    rcases List.mem_append.1 hreport with hreport | hreport
    · obtain ⟨pattern, hpattern, rfl⟩ := List.mem_map.1 hreport
      exact .ofInfo _ _ (fun hlie => (of_propsPatterns (hstatements hlie) (List.mem_filter.1 hpattern).1).span) _
    · exact checkRoot_sound _ _ hstatements _ report hreport

theorem rule_sound : rule.Sound := by
  rintro patterns options checks ⟨⟩ language file hfile
  refine ⟨by simp, Callback.reporting_sound fun report hreport => ?_, Checks.Sound.none_reporting⟩
  rcases List.mem_append.1 hreport with hreport | hreport
  · exact checkOption_sound report hreport
  · exact checkScript_sound report hreport

end PropsReactivity

/-! ## Names of the scope table -/

/-- A name of the template is a binding of the table. -/
theorem of_templateLocals {binding : Binding} {id : Nat} (h : (binding, id) ∈ file.templateLocals) :
    binding ∈ file.scopes.bindings :=
  Array.mem_toList_iff.1 (List.fst_mem_of_mem_zipIdx (List.mem_filter.1 h).1)

namespace RefOperand

theorem reportUse_sound (hfile : file.Written language) (holder : RefVariable) (reassigned : Bool) {reference : Reference}
    (hreference : reference ∈ file.scopes.references) : (reportUse file holder reassigned reference).Sound file := by
  have hspan := fun hlie => (hfile.scopes hlie).references reference hreference
  unfold reportUse
  dsimp only
  split
  · exact (Report.Sound.ofInfo _ _ hspan _).withSuggestion _ fun fix hfix => (hfile.draft.add hspan _).build? hfix
  · exact (Report.Sound.ofInfo _ _ hspan _).withDraft (hfile.draft.insertAt (fun hlie => (hspan hlie).stop) _)

theorem rule_sound : rule.Sound := by
  rintro patterns options checks ⟨⟩ language file hfile
  refine ⟨by simp, Callback.reporting_sound fun report hreport => ?_, Checks.Sound.none_reporting⟩
  obtain ⟨holder, -, hreport⟩ := List.mem_flatMap.1 hreport
  unfold checkVariable at hreport
  split at hreport
  · obtain ⟨reference, hreference, rfl⟩ := List.mem_map.1 hreport
    exact reportUse_sound hfile holder _ (ScopeTable.mem_of_mem_referencesTo (List.mem_filter.1 hreference).1)
  · cases hreport

end RefOperand

namespace TemplateShadow

theorem rule_sound : rule.Sound := by
  rintro patterns options checks ⟨⟩ language file hfile
  refine ⟨by simp, Checks.Sound.none_reporting, Callback.reporting_sound fun report hreport => ?_⟩
  obtain ⟨binding, hbinding, hreport⟩ := List.mem_filterMap.1 hreport
  obtain ⟨⟨found, id⟩, hfound, rfl⟩ := List.mem_map.1 hbinding
  split at hreport
  · obtain rfl := Option.some.inj hreport
    exact .ofInfo _ _ (fun hlie => (hfile.scopes hlie).bindings found (of_templateLocals hfound)) _
  · nomatch hreport

end TemplateShadow

namespace UnusedVariables

theorem reportUnused_sound (hfile : file.Written language) (settings : Settings) {binding : Binding}
    (hbinding : binding ∈ file.scopes.bindings) : (reportUnused settings file binding).Sound file := by
  have hspan := fun hlie => (hfile.scopes hlie).bindings binding hbinding
  unfold reportUnused
  dsimp only
  split
  · exact (Report.Sound.ofInfo _ _ hspan _).withSuggestion _ fun fix hfix => (hfile.draft.add hspan _).build? hfix
  · exact .ofInfo _ _ hspan _

theorem rule_sound : rule.Sound := by
  intro patterns options checks hchecks language file hfile
  obtain ⟨settings, -, rfl⟩ := Option.map_eq_some_iff.1 hchecks
  refine ⟨by simp, Checks.Sound.none_reporting, Callback.reporting_sound fun report hreport => ?_⟩
  obtain ⟨group, hgroup, hreport⟩ := List.mem_flatMap.1 hreport
  obtain ⟨binding, hbinding, rfl⟩ := List.mem_map.1 hreport
  obtain ⟨⟨found, id⟩, hfound, rfl⟩ := List.mem_map.1 (List.mem_filter.1 hbinding).1
  have hmem := List.mem_reverse.1 ((List.takeWhile_prefix _).subset hfound)
  have hlocal : (found, id) ∈ file.templateLocals := by
    have hall := List.mem_flatten.2 ⟨group, hgroup, hmem⟩
    rwa [groups, List.flatten_splitBy] at hall
  exact reportUnused_sound hfile settings (of_templateLocals hlocal)

end UnusedVariables

end Rules

/-- Every rule of the catalog is sound. -/
theorem Rule.all_sound : ∀ rule ∈ Rule.all, rule.Sound := by
  intro rule hrule
  simp only [Rule.all, List.mem_cons, List.not_mem_nil, or_false] at hrule
  rcases hrule with rfl | rfl | rfl | rfl | rfl | rfl | rfl | rfl | rfl | rfl | rfl | rfl | rfl | rfl | rfl | rfl | rfl | rfl |
    rfl | rfl | rfl | rfl
  · exact Rules.EventCasing.rule_sound
  · exact Rules.ClosingBracket.rule_sound
  · exact Rules.SelfClosing.rule_sound
  · exact Rules.MustacheSpacing.rule_sound
  · exact Rules.DestroyedHooks.rule_sound
  · exact Rules.SyncModifier.rule_sound
  · exact Rules.KeyCodes.rule_sound
  · exact Rules.DeadBranch.rule_sound
  · exact Rules.DuplicateAttributes.rule_sound
  · exact Rules.NegatedCondition.rule_sound
  · exact Rules.RefOperand.rule_sound
  · exact Rules.PropsReactivity.rule_sound
  · exact Rules.TemplateShadow.rule_sound
  · exact Rules.UnusedVariables.rule_sound
  · exact Rules.LoopCondition.rule_sound
  · exact Rules.LoopKey.rule_sound
  · exact Rules.ContentBreaks.rule_sound
  · exact Rules.ThisUsage.rule_sound
  · exact Rules.BindStyle.rule_sound
  · exact Rules.HandlerCall.rule_sound
  · exact Rules.OnStyle.rule_sound
  · exact Rules.ElsePlacement.rule_sound

/-- What the rules of a configuration find in a source is sound. -/
theorem Config.lintWith_sound {config : Config} {rules : List ActiveRule} (h : config.activeRules patterns = .ok rules)
    (source : List Char) : ∀ diagnostic ∈ (lintWith languages rules source).diagnostics,
      diagnostic.report.Sound (.ofSource languages source) := by
  refine lintFile_sound fun active hactive => ?_
  obtain ⟨rule, hrule, options, hchecks⟩ := Config.of_mem_activeRules h hactive
  exact Rule.all_sound rule hrule patterns options active.checks hchecks _ _ (File.ofSource_written source)

end ComponentLint
