import ComponentLint.Proofs.Script.Places
import ComponentLint.Script.Parser

/-!
# Names in scripts

The names of a tree are what its nodes refer to and what they declare, each with the span of its node. `Spells` is what is
assumed of the script parser about a text: whatever it reads the text as, every name is a word, and the span of the name cuts
it out of the text. A tree moved to where its text stands has its names there (`Node.Spelled.shift`), also when marks that
are in no word were put around the text (`Node.Spelled.shift_middle`).
-/

namespace ComponentLint

open Text

/-- A word stands in the middle of a text if it starts with none of the characters around the middle and does not hold the
first one behind it. -/
theorem Text.Stands.middle {left middle after rest : List Char} {mark first : Char} {offset : Nat}
    (h : Stands (left ++ (middle ++ mark :: after)) offset (first :: rest)) (hleft : first ∉ left)
    (hafter : first ∉ mark :: after) (hmark : mark ∉ first :: rest) :
    ∃ inner, offset = byteLength left + inner ∧ Stands middle inner (first :: rest) := by
  obtain ⟨before, behind, heq, rfl⟩ := h
  -- The word starts behind what stands before the middle.
  obtain ⟨lead, rfl, hrest⟩ : ∃ lead, before = left ++ lead ∧
      middle ++ mark :: after = lead ++ (first :: rest ++ behind) := by
    rcases List.append_eq_append_iff.1 heq with ⟨lead, hbefore, hrest⟩ | ⟨part, rfl, hrest⟩
    · exact ⟨lead, hbefore, hrest⟩
    · cases part with
      | nil => exact ⟨[], by simp, by simpa using hrest.symm⟩
      | cons c part =>
        obtain rfl : first = c := (List.cons.inj hrest).1
        simp at hleft
  refine ⟨byteLength lead, by simp, ?_⟩
  -- It starts in the middle, and goes on in it up to the mark at most.
  rcases List.append_eq_append_iff.1 hrest with ⟨part, rfl, htail⟩ | ⟨part, rfl, htail⟩
  · rw [htail] at hafter
    simp at hafter
  · rcases List.append_eq_append_iff.1 htail with ⟨tail, rfl, -⟩ | ⟨tail, hword, hmarks⟩
    · exact ⟨lead, tail, by simp, rfl⟩
    · cases tail with
      | nil => exact ⟨lead, [], by simp [hword], rfl⟩
      | cons c tail =>
        obtain rfl : mark = c := (List.cons.inj hmarks).1
        rw [hword] at hmark
        simp at hmark

namespace Script

/-! ## Names of a tree -/

/-- The name that a node refers to or declares, with its span. -/
def Node.ownNames (node : Node) : List (String × Span) :=
  match node.kind with
  | .identifier name => [(name, node.span)]
  | .binding name => [(name, node.span)]
  | _ => []

/-- The names in a tree, with their spans. -/
def Node.names (node : Node) : List (String × Span) :=
  node.gather (fun _ => true) Node.ownNames

/-- A tree whose names, taken with their spans, are of a sort. -/
def Node.AllNames (P : String × Span → Prop) (node : Node) : Prop :=
  ∀ item ∈ node.names, P item

variable {node : Node} {P : String × Span → Prop}

theorem Node.mem_names {item : String × Span} :
    item ∈ node.names ↔ item ∈ node.ownNames ∨ ∃ part ∈ node.children, item ∈ part.names := by
  obtain ⟨kind, span, children⟩ := node
  simp [names, gather, mem_gatherAll]

theorem Node.AllNames.own (h : node.AllNames P) {name : String}
    (hkind : node.kind = .identifier name ∨ node.kind = .binding name) : P (name, node.span) := by
  refine h _ (mem_names.2 (.inl ?_))
  rcases hkind with hkind | hkind <;> simp [ownNames, hkind]

theorem Node.AllNames.parts (h : node.AllNames P) : ∀ part ∈ node.children, part.AllNames P :=
  fun part hpart item hitem => h item (mem_names.2 (.inr ⟨part, hpart, hitem⟩))

/-- A list of parameters is no name itself. -/
theorem Node.AllNames.of_params (hkind : node.kind = .params) (hparts : ∀ part ∈ node.children, part.AllNames P) :
    node.AllNames P := by
  intro item hitem
  rcases mem_names.1 hitem with hown | ⟨part, hpart, hitem⟩
  · simp [ownNames, hkind] at hown
  · exact hparts part hpart item hitem

/-- The names of a tree that lies in a text have spans of the text. -/
theorem Node.Lies.allNames {text : List Char} {first last : Nat} (h : node.Lies text first last) :
    node.AllNames (·.2.InText text) := by
  intro item hitem
  obtain ⟨inner, hinner, hown⟩ := h.of_mem_gather hitem
  unfold Node.ownNames at hown
  split at hown
  · rw [List.mem_singleton.1 hown]
    exact hinner.span
  · rw [List.mem_singleton.1 hown]
    exact hinner.span
  · cases hown

theorem Node.ownNames_shift (distance : Nat) (node : Node) :
    (node.shift distance).ownNames = node.ownNames.map fun item => (item.1, item.2.shift distance) := by
  obtain ⟨kind, span, children⟩ := node
  cases kind <;> rfl

mutual

/-- A move takes the names along. -/
theorem Node.names_shift (distance : Nat) : ∀ node : Node,
    (node.shift distance).names = node.names.map fun item => (item.1, item.2.shift distance)
  | ⟨kind, span, children⟩ => by
    have hown := Node.ownNames_shift distance ⟨kind, span, children⟩
    have hparts := Node.gatherAll_shiftAll distance children
    simp only [Node.shift] at hown
    simp only [Node.names, Node.shift, Node.gather, if_true, List.map_append, hown, hparts]

theorem Node.gatherAll_shiftAll (distance : Nat) : ∀ nodes : List Node,
    Node.gatherAll (fun _ => true) Node.ownNames (Node.shiftAll distance nodes) =
      (Node.gatherAll (fun _ => true) Node.ownNames nodes).map fun item => (item.1, item.2.shift distance)
  | [] => rfl
  | node :: rest => by
    have hfirst := Node.names_shift distance node
    have hrest := Node.gatherAll_shiftAll distance rest
    simp only [Node.names] at hfirst
    simp only [Node.shiftAll, Node.gatherAll, List.map_append, hfirst, hrest]

end

/-! ## Spelling -/

/-- Whether a text is a word of a script; the names of elements may hold hyphens. -/
def isWord : List Char → Bool
  | first :: rest => isIdStart first && rest.all Grammar.isTagChar
  | [] => false

/-- A name that is a word and stands at its span. -/
def Spelled (text : List Char) (name : String) (span : Span) : Prop :=
  isWord name.toList = true ∧ slice? text span = some name.toList

instance (text : List Char) (name : String) (span : Span) : Decidable (Spelled text name span) :=
  inferInstanceAs (Decidable (_ ∧ _))

/-- A tree whose names stand at their spans. -/
def Node.Spelled (text : List Char) (node : Node) : Prop :=
  node.AllNames fun item => Script.Spelled text item.1 item.2

instance (text : List Char) (node : Node) : Decidable (node.Spelled text) :=
  inferInstanceAs (Decidable (∀ item ∈ node.names, _))

/-- Whether the names are words at their spans in whatever a text is read as, be it an expression or a program. A name that is
written with an escape is not. -/
def Language.Spells (language : Language) (text : List Char) : Prop :=
  (∀ node ∈ language.expression? text, node.Spelled text) ∧
    ∀ statement ∈ (language.program text).program.statements, statement.Spelled text

instance (language : Language) (text : List Char) : Decidable (language.Spells text) :=
  inferInstanceAs (Decidable (_ ∧ _))

/-- Whether the names of a text are words at their spans, in whichever dialect it is read. -/
def Languages.Spell (languages : Languages) (text : List Char) : Prop :=
  ∀ dialect, (languages dialect).Spells text

/-- The dialects of scripts. -/
def Dialect.all : List Dialect :=
  [⟨false, false⟩, ⟨false, true⟩, ⟨true, false⟩, ⟨true, true⟩]

theorem Dialect.mem_all (dialect : Dialect) : dialect ∈ all := by
  obtain ⟨typed, markup⟩ := dialect
  cases typed <;> cases markup <;> simp [all]

instance (languages : Languages) (text : List Char) : Decidable (languages.Spell text) :=
  decidable_of_iff (∀ dialect ∈ Dialect.all, (languages dialect).Spells text)
    ⟨fun h dialect => h dialect dialect.mem_all, fun h dialect _ => h dialect⟩

variable {text source : List Char}

theorem Node.Spelled.parts (h : node.Spelled text) : ∀ part ∈ node.children, part.Spelled text :=
  AllNames.parts h

/-- A tree over a text, moved to where the text stands. -/
theorem Node.Spelled.shift {offset : Nat} (h : node.Spelled text) (hstands : Stands source offset text) :
    (node.shift offset).Spelled source := by
  intro item hitem
  rw [Node.names_shift] at hitem
  obtain ⟨old, hold, rfl⟩ := List.mem_map.1 hitem
  obtain ⟨hword, hslice⟩ := h old hold
  obtain ⟨hinner, hstop⟩ := slice?_eq_some_iff.1 hslice
  refine ⟨hword, slice?_eq_some_iff.2 ⟨?_, ?_⟩⟩
  · rw [Span.shift, Nat.add_comm]
    exact hstands.trans hinner
  · simp only [Span.shift]
    omega

/-- A tree over a text with marks around it, moved so that the text comes to lie where it stands. -/
theorem Node.Spelled.shift_middle (left : List Char) {middle after : List Char} {mark : Char} {offset : Nat}
    (h : node.Spelled (left ++ (middle ++ mark :: after)))
    (hmarks : (left ++ mark :: after).all (!isIdStart ·) = true) (hmark : Grammar.isTagChar mark = false)
    (hstands : Stands source (offset + byteLength left) middle) : (node.shift offset).Spelled source := by
  intro item hitem
  rw [Node.names_shift] at hitem
  obtain ⟨⟨name, span⟩, hold, rfl⟩ := List.mem_map.1 hitem
  obtain ⟨hword, hslice⟩ := h _ hold
  obtain ⟨hinner, hstop⟩ := slice?_eq_some_iff.1 hslice
  dsimp only at hword hinner hstop ⊢
  refine ⟨hword, ?_⟩
  generalize name.toList = word at hword hinner hstop ⊢
  cases word with
  | nil => cases hword
  | cons first rest =>
    obtain ⟨hfirst, hrest⟩ := Bool.and_eq_true_iff.1 hword
    have hnot : first ∉ left ++ mark :: after := by
      intro hmem
      have hstart := List.all_eq_true.1 hmarks first hmem
      rw [hfirst] at hstart
      cases hstart
    rw [List.mem_append, not_or] at hnot
    have hends : mark ∉ first :: rest := by
      intro hmem
      rcases List.mem_cons.1 hmem with rfl | htail
      · exact hnot.2 List.mem_cons_self
      · rw [List.all_eq_true.1 hrest mark htail] at hmark
        cases hmark
    obtain ⟨inner, hstart, hplace⟩ := hinner.middle hnot.1 hnot.2 hends
    refine slice?_eq_some_iff.2 ⟨?_, ?_⟩
    · have hoffset : (span.shift offset).start = offset + byteLength left + inner := by
        simp only [Span.shift]
        omega
      rw [hoffset]
      exact hstands.trans hplace
    · simp only [Span.shift]
      omega

end Script

end ComponentLint
