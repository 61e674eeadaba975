import ComponentLint.Proofs.Lint.Walk
import ComponentLint.Proofs.Scope.DeclarationOrder
import ComponentLint.Rules.UnusedVariables
import Mathlib.Data.List.DropRight
import Mathlib.Data.List.Perm.Basic
import Mathlib.Data.List.SplitBy

/-!
# Names that are declared and never used

The names of one element stand side by side among those of the template, first the aliases of its loop and then the parameters of
its slot. The rule looks at them as one list, from the end. So of the parameters the unused ones at the end are reported, and so
are those of the aliases, unless a parameter of the slot is used (`lintFile_unusedNames`).
-/

namespace ComponentLint.Rules.UnusedVariables

open Text Markup

variable {languages : Script.Languages} {patterns : PatternEngine}

/-! ## Lists in order -/

section Lists

variable {α : Type} {key : α → Nat} {list : List α}

/-- In a list in order, what has a key stands behind what has lower ones. -/
theorem filter_lt_succ (hsorted : list.Pairwise fun a b => key a ≤ key b) (limit : Nat) :
    list.filter (key · < limit + 1) = list.filter (key · < limit) ++ list.filter (key · = limit) := by
  induction list with
  | nil => rfl
  | cons first rest ih =>
    obtain ⟨hfirst, hrest⟩ := List.pairwise_cons.1 hsorted
    by_cases hless : key first < limit
    · have hlater : key first < limit + 1 := Nat.lt_succ_of_lt hless
      simp only [List.filter_cons, ih hrest, hless, hlater, Nat.ne_of_lt hless, decide_true, decide_false, if_true,
        Bool.false_eq_true, if_false, List.cons_append]
    · -- Nothing behind the first entry has a lower key.
      have hnone : rest.filter (key · < limit) = [] :=
        List.filter_eq_nil_iff.2 fun other hother => by simpa using Nat.le_trans (Nat.not_lt.1 hless) (hfirst other hother)
      have hiff : key first < limit + 1 ↔ key first = limit := by omega
      simp only [List.filter_cons, ih hrest, hless, hnone, hiff, decide_false, Bool.false_eq_true, if_false, List.nil_append]

/-- A list in order, taken apart by the keys of its entries. -/
theorem flatMap_filter_range (hsorted : list.Pairwise fun a b => key a ≤ key b) (limit : Nat) :
    (List.range limit).flatMap (fun number => list.filter (key · = number)) = list.filter (key · < limit) := by
  induction limit with
  | zero => simp
  | succ limit ih => rw [List.range_succ, List.flatMap_append, ih, filter_lt_succ hsorted, List.flatMap_singleton]

/-- Lists that give nothing may be left out where they are empty. -/
theorem flatMap_filter_ne_nil {β : Type} {lists : List (List α)} {f : List α → List β} (hnil : f [] = []) :
    (lists.filter (· ≠ [])).flatMap f = lists.flatMap f := by
  induction lists with
  | nil => rfl
  | cons first rest ih => by_cases hfirst : first = [] <;> simpa [hfirst, hnil] using ih

/-- The end of two lists, one after the other. -/
theorem rtakeWhile_append (p : α → Bool) (first second : List α) :
    (first ++ second).rtakeWhile p = if second.all p then first.rtakeWhile p ++ second else second.rtakeWhile p := by
  induction second using List.reverseRecOn with
  | nil => simp
  | append_singleton earlier last ih =>
    rw [← List.append_assoc, List.rtakeWhile_concat, List.rtakeWhile_concat, ih]
    by_cases hlast : p last = true
    · by_cases hearlier : earlier.all p = true <;> simp [hlast, hearlier]
    · simp [hlast]

end Lists

/-! ## The names of an element -/

/-- The names that an element declares in a way, with their numbers, in order of declaration. -/
def declared (file : File) (id : NodeId) (kind : BindingKind) : List (Binding × Nat) :=
  file.templateLocals.filter fun entry => entry.1.node = some id ∧ entry.1.kind = kind

/-- The names of a list that stand behind the last used one, without those that are left alone. -/
def unusedEnd (settings : Settings) (scopes : ScopeTable) (list : List (Binding × Nat)) : List Binding :=
  ((list.rtakeWhile fun entry => !scopes.isReferenced entry.2).map (·.1)).filter (!settings.ignores ·.name)

/-- The names of an element that are reported: those at the end of its slot, and those at the end of its loop
unless a parameter of the slot is used. -/
def unusedAt (settings : Settings) (file : File) (id : NodeId) : List Binding :=
  (if (declared file id .slotParam).any (file.scopes.isReferenced ·.2) then []
    else unusedEnd settings file.scopes (declared file id .loopAlias)) ++
  unusedEnd settings file.scopes (declared file id .slotParam)

variable {file : File} {id : NodeId}

theorem mem_templateLocals {entry : Binding × Nat} (h : entry ∈ file.templateLocals) :
    entry.1 ∈ file.scopes.bindings.toList ∧ entry.1.kind.isTemplateLocal = true :=
  ⟨List.fst_mem_of_mem_zipIdx (List.mem_filter.1 h).1, (List.mem_filter.1 h).2⟩

/-- The names of the template are in order. -/
theorem pairwise_templateLocals {first last : Nat} (h : Ranked first last file.scopes.bindings.toList) :
    file.templateLocals.Pairwise fun a b => a.1.rank ≤ b.1.rank := by
  have hmap : file.templateLocals.map Prod.fst = file.scopes.bindings.toList.filter (·.kind.isTemplateLocal) := by
    have hzip := List.filter_map (f := Prod.fst) (p := fun binding : Binding => binding.kind.isTemplateLocal)
      (l := file.scopes.bindings.toList.zipIdx)
    rw [List.zipIdx_map_fst] at hzip
    exact hzip.symm
  have hsorted := h.sorted
  rw [← hmap, List.pairwise_map] at hsorted
  exact hsorted

/-- The names of an element: the aliases of its loop, and then the parameters of its slot. -/
theorem filter_node {first last : Nat} (h : Ranked first last file.scopes.bindings.toList) (id : NodeId) :
    (file.templateLocals.filter fun entry => entry.1.node = some id) =
      declared file id .loopAlias ++ declared file id .slotParam := by
  have hsorted : (file.templateLocals.filter fun entry => entry.1.node = some id).Pairwise fun a b =>
      (if a.1.kind = .slotParam then 1 else 0) ≤ (if b.1.kind = .slotParam then 1 else 0) := by
    refine ((pairwise_templateLocals h).filter _).imp_of_mem fun {a b} ha hb hle => ?_
    obtain ⟨-, ha⟩ := List.mem_filter.1 ha
    obtain ⟨-, hb⟩ := List.mem_filter.1 hb
    rw [Binding.rank, Binding.rank, of_decide_eq_true ha, of_decide_eq_true hb] at hle
    exact Nat.le_of_add_le_add_left hle
  have hlocal : ∀ entry ∈ file.templateLocals, entry.1.kind = .loopAlias ∨ entry.1.kind = .slotParam := by
    intro entry hentry
    have hkind := (mem_templateLocals hentry).2
    revert hkind
    cases entry.1.kind <;> simp [BindingKind.isTemplateLocal]
  have htwo := flatMap_filter_range hsorted 2
  have hbelow : ∀ entry : Binding × Nat, (if entry.1.kind = .slotParam then 1 else 0) < 2 := fun entry => by split <;> simp
  rw [List.filter_eq_self.2 fun entry (_ : entry ∈ file.templateLocals.filter _) => decide_eq_true (hbelow entry)] at htwo
  rw [← htwo, declared, declared]
  simp only [List.range_succ, List.range_zero, List.nil_append, List.flatMap_append, List.flatMap_singleton, List.filter_filter]
  congr 1
  · refine List.filter_congr fun entry hentry => ?_
    rcases hlocal entry hentry with hkind | hkind <;> simp [hkind]
  · refine List.filter_congr fun entry hentry => ?_
    rcases hlocal entry hentry with hkind | hkind <;> simp [hkind]

/-- The names of the template are looked at element by element. -/
theorem groups_eq {limit : Nat} (h : Ranked 0 (2 * limit) file.scopes.bindings.toList) :
    groups file = ((List.range limit).map fun id => file.templateLocals.filter fun entry => entry.1.node = some id).filter
      (· ≠ []) := by
  have hnode : ∀ entry ∈ file.templateLocals, entry.1.node = some (entry.1.node.getD 0) ∧ entry.1.node.getD 0 < limit := by
    intro entry hentry
    obtain ⟨hmem, hlocal⟩ := mem_templateLocals hentry
    obtain ⟨id, hid⟩ := h.owned entry.1 hmem hlocal
    exact ⟨by rw [hid, Option.getD_some], BindingKind.lt_of_rankAt_lt (h.within entry.1 hmem hlocal).2⟩
  refine List.splitBy_eq_iff.2 ⟨?_, by simp, fun group hgroup => ?_, ?_⟩
  · have hsorted : file.templateLocals.Pairwise fun a b => (a.1.node.getD 0 : Nat) ≤ b.1.node.getD 0 :=
      (pairwise_templateLocals h).imp BindingKind.le_of_rankAt_le
    have hall := flatMap_filter_range hsorted limit
    rw [List.filter_eq_self.2 fun entry hentry => decide_eq_true (hnode entry hentry).2] at hall
    rw [List.flatten_filter_ne_nil, ← List.flatMap_def]
    refine hall.symm.trans (List.flatMap_congr fun id _ => List.filter_congr fun entry hentry => ?_)
    rw [(hnode entry hentry).1]
    simp
  · obtain ⟨hgroup, -⟩ := List.mem_filter.1 hgroup
    obtain ⟨id, -, rfl⟩ := List.mem_map.1 hgroup
    refine (List.pairwise_of_forall_mem_list fun a ha b hb => ?_).isChain
    rw [of_decide_eq_true (List.mem_filter.1 ha).2, of_decide_eq_true (List.mem_filter.1 hb).2]
    exact beq_self_eq_true _
  · refine (List.pairwise_filter.2 (List.pairwise_map.2 (List.pairwise_lt_range.imp fun {id later} hless ha hb => ?_))).isChain
    have hne := of_decide_eq_true ha
    have hne' := of_decide_eq_true hb
    refine ⟨hne, hne', ?_⟩
    rw [of_decide_eq_true (List.mem_filter.1 (List.getLast_mem hne)).2,
      of_decide_eq_true (List.mem_filter.1 (List.head_mem hne')).2]
    simpa using Nat.ne_of_lt hless

/-! ## What is reported -/

/-- Of two lists that are looked at as one, the end of the first is reached only where nothing of the second is used. -/
theorem trailingUnused_append (settings : Settings) (scopes : ScopeTable) (first second : List (Binding × Nat)) :
    ((trailingUnused scopes (first ++ second)).filter (!settings.ignores ·.name)).Perm
      ((if second.any (scopes.isReferenced ·.2) then [] else unusedEnd settings scopes first) ++
        unusedEnd settings scopes second) := by
  have hreverse : (trailingUnused scopes (first ++ second)).filter (!settings.ignores ·.name) =
      (unusedEnd settings scopes (first ++ second)).reverse := by
    simp [trailingUnused, unusedEnd, List.rtakeWhile]
  rw [hreverse]
  refine (List.reverse_perm _).trans (.of_eq ?_)
  by_cases hused : second.any (scopes.isReferenced ·.2) = true
  · have hall : second.all (!scopes.isReferenced ·.2) = false := by simpa using hused
    rw [if_pos hused, unusedEnd, rtakeWhile_append, hall]
    rfl
  · have hall : second.all (!scopes.isReferenced ·.2) = true := by simpa using hused
    have hself : second.rtakeWhile (!scopes.isReferenced ·.2) = second :=
      List.rtakeWhile_eq_self_iff.2 fun entry hentry => List.all_eq_true.1 hall entry hentry
    rw [if_neg hused, unusedEnd, unusedEnd, unusedEnd, rtakeWhile_append, if_pos hall, hself, List.map_append, List.filter_append]

/-- The rule issues one diagnostic for each name that is declared behind the last used one of its list, a loop or a slot, unless
the name is left alone. The aliases of a loop are passed over if the element has a slot with a parameter that is used. -/
theorem lintFile_unusedNames {options : List Json}
    {checks : Checks} (h : rule.checks? patterns options = some checks) (level : Level)
    (source : List Char) :
    let file := File.ofSource languages source
    ∃ settings, Settings.ofOptions? patterns options = some settings ∧
      (lintFile [⟨info, level, checks⟩] file).diagnostics.Perm
        (((List.range file.document.size).flatMap (unusedAt settings file)).map fun binding =>
          ⟨info.name, level, reportUnused settings file binding⟩) := by
  intro file
  obtain ⟨settings, hsettings, hmade⟩ := Option.map_eq_some_iff.1 h
  refine ⟨settings, hsettings, ?_⟩
  have hranked : Ranked 0 (2 * file.document.size) file.scopes.bindings.toList :=
    ScopeTable.ranked_ofComponent (File.shaped_ofSource languages source)
  have hchecks : (⟨info, level, checks⟩ : ActiveRule).checks =
      ⟨[], fun _ => .reporting [], fun file => .reporting (check settings file)⟩ := hmade.symm
  have hdiagnostics := @diagnostics_reporting _ [] (fun _ => []) (check settings) hchecks file (fun _ => []) nofun fun _ => rfl
  have hcheck : check settings file = ((List.range file.document.size).flatMap fun id =>
      (trailingUnused file.scopes (declared file id .loopAlias ++ declared file id .slotParam)).filter
        (!settings.ignores ·.name)).map (reportUnused settings file) := by
    rw [check, groups_eq hranked, flatMap_filter_ne_nil (by simp [trailingUnused]), List.flatMap_map, List.map_flatMap]
    simp only [filter_node hranked]
  rw [List.flatMap_eq_nil_iff.2 fun _ _ => rfl, List.flatten_nil, List.nil_append, List.nil_append, hcheck, List.map_map]
    at hdiagnostics
  rw [lintFile, hdiagnostics]
  refine (List.mergeSort_perm _ _).trans (List.Perm.map _ (List.Perm.flatMap_left _ fun id _ => ?_))
  exact trailingUnused_append settings file.scopes _ _

/-- Options that leave names with a low line alone. -/
def lowLines : List Json :=
  [.obj [("ignorePattern", .str "^_")]]

/-- An element with a loop and a slot of which no parameter is used, and one with a slot of which the first is. -/
def loopAndSlots : List Char :=
  ("<template><p v-for=\"(a, b, _c) in d\" v-slot=\"\x7b e, f \x7d\">\x7b\x7ba\x7d\x7d</p>" ++
    "<p v-slot=\"\x7b g, h \x7d\">\x7b\x7bg\x7d\x7d</p></template>").toList

theorem lintFile_unusedNames_loopAndSlots : ∃ checks settings, rule.checks? Regex.engine lowLines = some checks ∧
    (lintFile [⟨info, .error, checks⟩] (.ofSource Script.Dialect.language loopAndSlots)).diagnostics.Perm
      (((List.range (File.ofSource Script.Dialect.language loopAndSlots).document.size).flatMap
        (unusedAt settings (.ofSource Script.Dialect.language loopAndSlots))).map
        fun binding => ⟨info.name, .error, reportUnused settings (.ofSource Script.Dialect.language loopAndSlots) binding⟩) ∧
    ((List.range (File.ofSource Script.Dialect.language loopAndSlots).document.size).flatMap
      (unusedAt settings (.ofSource Script.Dialect.language loopAndSlots))).map (·.name) =
      ["b", "e", "f", "h"] := by
  have hnames : (Settings.ofOptions? Regex.engine lowLines).map (fun settings =>
      ((List.range (File.ofSource Script.Dialect.language loopAndSlots).document.size).flatMap
        (unusedAt settings (.ofSource Script.Dialect.language loopAndSlots))).map
        (·.name)) = some ["b", "e", "f", "h"] := by decide +kernel
  obtain ⟨settings, hsettings, hnames⟩ := Option.map_eq_some_iff.1 hnames
  have hchecks : rule.checks? Regex.engine lowLines = some { closing := fun file => .reporting (check settings file) } := by
    simp [rule, hsettings]
  obtain ⟨found, hfound, hperm⟩ := lintFile_unusedNames hchecks .error loopAndSlots
  obtain rfl : settings = found := Option.some.inj (hsettings.symm.trans hfound)
  exact ⟨_, settings, hchecks, hperm, hnames⟩

/-- An alias that is not used, beside a parameter that is. -/
def usedParameter : List Char :=
  "<template><C v-for=\"a in b\" v-slot=\"\x7b x \x7d\">\x7b\x7b x \x7d\x7d</C></template>".toList

/-- The alias is the unused end of its list, and is not reported. -/
theorem not_reported_usedParameter : ∃ checks settings, rule.checks? Regex.engine [] = some checks ∧
    Settings.ofOptions? Regex.engine [] = some settings ∧
    (unusedEnd settings (File.ofSource Script.Dialect.language usedParameter).scopes
      (declared (.ofSource Script.Dialect.language usedParameter) 2 .loopAlias)).map (·.name) =
      ["a"] ∧
    (lintFile [⟨info, .error, checks⟩] (.ofSource Script.Dialect.language usedParameter)).diagnostics = [] := by
  have hnames : (unusedEnd ⟨none⟩ (File.ofSource Script.Dialect.language usedParameter).scopes
    (declared (.ofSource Script.Dialect.language usedParameter) 2 .loopAlias)).map
      (·.name) = ["a"] := by decide +kernel
  have hnone : (runOver (.ofSource Script.Dialect.language usedParameter)
      [⟨info, .error, { closing := fun file => .reporting (check ⟨none⟩ file) }⟩]).diagnostics.toList.isEmpty = true := by
    decide +kernel
  refine ⟨_, ⟨none⟩, rfl, rfl, hnames, ?_⟩
  rw [lintFile, List.isEmpty_iff.1 hnone]
  exact List.mergeSort_nil

end ComponentLint.Rules.UnusedVariables
