import ComponentLint.Scope.Collect
import Mathlib.Data.List.Forall2

/-!
# Trees that are alike

A script and an edited version of it are read as trees of one shape. A `Likeness` says which spans of the two
are the same place, and which parts of a node the edit exchanges, each for a node without parts. Trees are alike
(`Likeness.Alike`) if they are the same but for their places and for these parts.

What a node asks of its parts has the same answer in trees that are alike, if no question is asked of the exchanged parts
(`Likeness.Discreet`).
-/

namespace ComponentLint.Script

/-- Which spans of two texts are the same place, and what a part of a node of a kind is exchanged for, if it is. -/
structure Likeness where
  place : Span → Span → Prop
  exchange? : Kind → Node → Option (Kind × Span)

/-- A kind apart from the place of a member's name. -/
def Kind.placeless : Kind → Kind
  | .member name _ optional => .member name ⟨0, 0⟩ optional
  | kind => kind

/-- Whether nodes of a kind hold keys with their values. -/
def Kind.isProperty : Kind → Bool
  | .property .. => true
  | _ => false

/-- Whether nodes of a kind are calls. -/
def Kind.isCall : Kind → Bool
  | .call .. => true
  | _ => false

/-- Whether nodes of a kind declare variables. -/
def Kind.isVariables : Kind → Bool
  | .variables _ => true
  | _ => false

/-- Whether nodes of a kind are members. -/
def Kind.isMember : Kind → Bool
  | .member .. => true
  | _ => false

/-- Whether it makes no difference to a node that a part of it is of a kind, and not of another such kind. -/
def Kind.isQuiet : Kind → Bool
  | .identifier _ => true
  | .member .. => true
  | .index _ => true
  | _ => false

theorem Kind.isQuiet_placeless (kind : Kind) : kind.placeless.isQuiet = kind.isQuiet := by
  cases kind <;> rfl

/-- Kinds that differ in the place of a member's name only are those of members. -/
theorem Kind.eq_of_placeless {kind kind' : Kind} (h : kind'.placeless = kind.placeless) :
    kind' = kind ∨ ∃ name span span' optional, kind = .member name span optional ∧ kind' = .member name span' optional := by
  unfold placeless at h
  split at h
  · split at h
    · cases h
      exact .inr ⟨_, _, _, _, rfl, rfl⟩
    · next hother => exact (hother _ _ _ h.symm).elim
  · split at h
    · next hother _ _ _ _ => exact (hother _ _ _ h).elim
    · exact .inl h

namespace Likeness

mutual

/-- Parts of a node of a kind that are the same, but for their places and for what is exchanged in them. -/
inductive Alike (likeness : Likeness) : Kind → Node → Node → Prop where
  | exchanged {around : Kind} {node : Node} {leaf : Kind × Span} (h : likeness.exchange? around node = some leaf) :
      Alike likeness around node ⟨leaf.1, leaf.2, []⟩
  | same {around kind kind' : Kind} {span span' : Span} {children children' : List Node}
      (hkept : likeness.exchange? around ⟨kind, span, children⟩ = none) (hkind : kind'.placeless = kind.placeless)
      (hplace : likeness.place span span') (hparts : AllAlike likeness kind children children') :
      Alike likeness around ⟨kind, span, children⟩ ⟨kind', span', children'⟩

/-- Lists of parts that are alike. -/
inductive AllAlike (likeness : Likeness) : Kind → List Node → List Node → Prop where
  | nil {around : Kind} : AllAlike likeness around [] []
  | cons {around : Kind} {node node' : Node} {rest rest' : List Node} (hfirst : Alike likeness around node node')
      (hrest : AllAlike likeness around rest rest') : AllAlike likeness around (node :: rest) (node' :: rest')

end

mutual

/-- Whether trees are alike. -/
def decidableAlike (likeness : Likeness) [DecidableRel likeness.place] (around : Kind) :
    (node node' : Node) → Decidable (likeness.Alike around node node')
  | ⟨kind, span, children⟩, ⟨kind', span', children'⟩ =>
    match hexchange : likeness.exchange? around ⟨kind, span, children⟩ with
    | some leaf => decidable_of_iff (kind' = leaf.1 ∧ span' = leaf.2 ∧ children'.isEmpty = true) <| by
        constructor
        · rintro ⟨rfl, rfl, hnone⟩
          rw [List.isEmpty_iff.1 hnone]
          exact .exchanged hexchange
        · rintro (h | h)
          · cases hexchange.symm.trans h
            exact ⟨rfl, rfl, rfl⟩
          · cases hexchange.symm.trans h
    | none =>
      have := decidableAllAlike likeness kind children children'
      decidable_of_iff (kind'.placeless = kind.placeless ∧ likeness.place span span' ∧
          likeness.AllAlike kind children children') <| by
        constructor
        · rintro ⟨hkind, hplace, hparts⟩
          exact .same hexchange hkind hplace hparts
        · rintro (h | ⟨-, hkind, hplace, hparts⟩)
          · cases hexchange.symm.trans h
          · exact ⟨hkind, hplace, hparts⟩

/-- Whether lists of trees are alike. -/
def decidableAllAlike (likeness : Likeness) [DecidableRel likeness.place] (around : Kind) :
    (nodes nodes' : List Node) → Decidable (likeness.AllAlike around nodes nodes')
  | [], [] => .isTrue .nil
  | node :: rest, node' :: rest' =>
    have := decidableAlike likeness around node node'
    have := decidableAllAlike likeness around rest rest'
    decidable_of_iff (likeness.Alike around node node' ∧ likeness.AllAlike around rest rest')
      ⟨fun h => .cons h.1 h.2, fun | .cons hfirst hrest => ⟨hfirst, hrest⟩⟩
  | [], _ :: _ => .isFalse nofun
  | _ :: _, [] => .isFalse nofun

end

instance (likeness : Likeness) [DecidableRel likeness.place] (around : Kind) (node node' : Node) :
    Decidable (likeness.Alike around node node') :=
  decidableAlike likeness around node node'

instance (likeness : Likeness) [DecidableRel likeness.place] (around : Kind) (nodes nodes' : List Node) :
    Decidable (likeness.AllAlike around nodes nodes') :=
  decidableAllAlike likeness around nodes nodes'

/-! ## Nodes that are kept -/

/-- Nodes of one kind with parts that are alike. -/
structure Same (likeness : Likeness) (node node' : Node) : Prop where
  kind : node'.kind.placeless = node.kind.placeless
  place : likeness.place node.span node'.span
  parts : likeness.AllAlike node.kind node.children node'.children

variable {likeness : Likeness} {around : Kind} {node node' : Node} {nodes nodes' : List Node}

theorem Alike.cases (h : likeness.Alike around node node') :
    (∃ leaf, likeness.exchange? around node = some leaf ∧ node' = ⟨leaf.1, leaf.2, []⟩) ∨
      (likeness.exchange? around node = none ∧ likeness.Same node node') := by
  cases h with
  | exchanged h => exact .inl ⟨_, h, rfl⟩
  | same hkept hkind hplace hparts => exact .inr ⟨hkept, hkind, hplace, hparts⟩

/-- The name of a key that is kept is kept. -/
theorem Same.staticName?_eq (h : likeness.Same node node') : node'.staticName? = node.staticName? := by
  unfold Node.staticName?
  rcases Kind.eq_of_placeless h.kind with heq | ⟨name, span, span', optional, hmember, hmember'⟩
  · rw [heq]
  · rw [hmember, hmember']

/-- A list of trees alike has the members of the other list, one by one. -/
theorem AllAlike.forall₂ (h : likeness.AllAlike around nodes nodes') : List.Forall₂ (likeness.Alike around) nodes nodes' := by
  induction nodes generalizing nodes' with
  | nil =>
    cases h
    exact .nil
  | cons node rest ih =>
    cases h with
    | cons hfirst hrest => exact .cons hfirst (ih hrest)

/-! ## What nodes ask of their parts -/

/-- What is exchanged is never asked about by the node around it: it is part of a property, or quiet before and after. -/
structure Discreet (likeness : Likeness) : Prop where
  quiet : ∀ around node leaf, likeness.exchange? around node = some leaf →
    around.isProperty = true ∨ (node.kind.isQuiet = true ∧ leaf.1.isQuiet = true)
  /-- Calls are neither exchanged nor what something is exchanged for, and neither is `require` where a call asks about it. -/
  calls : ∀ around node leaf, likeness.exchange? around node = some leaf → node.kind.isCall = false ∧ leaf.1.isCall = false ∧
    (around.isCall = true → node.kind ≠ .identifier "require" ∧ leaf.1 ≠ .identifier "require")
  /-- Declarators are never exchanged. -/
  declarators : ∀ keyword node, likeness.exchange? (.variables keyword) node = none

section Questions

variable (hdiscreet : likeness.Discreet)
include hdiscreet

theorem Alike.isQuiet (h : likeness.Alike around node node') (haround : around.isProperty = false) :
    node'.kind.isQuiet = node.kind.isQuiet := by
  rcases h.cases with ⟨leaf, hleaf, rfl⟩ | ⟨-, hsame⟩
  · rcases hdiscreet.quiet _ _ _ hleaf with hproperty | ⟨hquiet, hquiet'⟩
    · rw [haround] at hproperty
      cases hproperty
    · exact hquiet'.trans hquiet.symm
  · rw [← Kind.isQuiet_placeless, hsame.kind, Kind.isQuiet_placeless]

/-- Parts that are asked about are kept. -/
theorem Alike.same_of_loud (h : likeness.Alike around node node') (haround : around.isProperty = false)
    (hloud : node.kind.isQuiet = false) : node'.kind = node.kind ∧ likeness.Same node node' := by
  rcases h.cases with ⟨leaf, hleaf, rfl⟩ | ⟨-, hsame⟩
  · rcases hdiscreet.quiet _ _ _ hleaf with hproperty | ⟨hquiet, -⟩
    · rw [haround] at hproperty
      cases hproperty
    · rw [hloud] at hquiet
      cases hquiet
  · rcases Kind.eq_of_placeless hsame.kind with heq | ⟨name, span, span', optional, hmember, -⟩
    · exact ⟨heq, hsame⟩
    · rw [hmember] at hloud
      cases hloud

/-- A part is of a kind that is asked about in both trees, or in none. -/
theorem Alike.kind_eq_iff (h : likeness.Alike around node node') (haround : around.isProperty = false) (kind : Kind)
    (hloud : kind.isQuiet = false) : node'.kind = kind ↔ node.kind = kind := by
  constructor
  · rintro rfl
    exact ((h.same_of_loud hdiscreet haround ((h.isQuiet hdiscreet haround).symm.trans hloud)).1).symm
  · rintro rfl
    exact (h.same_of_loud hdiscreet haround hloud).1

theorem Alike.staticName?_eq (h : likeness.Alike around node node') (haround : around.isProperty = false) :
    node'.staticName? = node.staticName? := by
  have hquiet : ∀ {node : Node}, node.kind.isQuiet = true → node.staticName? = none := by
    intro node hquiet
    unfold Node.staticName?
    split <;> simp_all [Kind.isQuiet]
  cases hnode : node.kind.isQuiet with
  | true => rw [hquiet hnode, hquiet ((h.isQuiet hdiscreet haround).trans hnode)]
  | false =>
    unfold Node.staticName?
    rw [(h.same_of_loud hdiscreet haround hnode).1]

/-- A part of a call is the name of the function that requires a module in both trees, or in none. -/
theorem Alike.calls_require (h : likeness.Alike around node node') (haround : around.isCall = true) :
    node'.kind = .identifier "require" ↔ node.kind = .identifier "require" := by
  rcases h.cases with ⟨leaf, hleaf, rfl⟩ | ⟨-, hsame⟩
  · obtain ⟨-, -, hnames⟩ := hdiscreet.calls _ _ _ hleaf
    exact iff_of_false (hnames haround).2 (hnames haround).1
  · rcases Kind.eq_of_placeless hsame.kind with heq | ⟨_, _, _, _, hmember, hmember'⟩
    · rw [heq]
    · rw [hmember, hmember']
      exact iff_of_false Kind.noConfusion Kind.noConfusion

/-- The same module is required in both trees. -/
theorem Alike.requiredModule?_eq (h : likeness.Alike around node node') : node'.requiredModule? = node.requiredModule? := by
  have hrequired : ∀ {node : Node} {source : String}, node.requiredModule? = some source ↔ ∃ optional applied,
      node.kind = .call optional applied ∧ ∃ a b, node.children = [a, b] ∧ a.kind = .identifier "require" ∧
        b.kind = .string source := by
    intro node source
    constructor
    · intro hsome
      unfold Node.requiredModule? at hsome
      split at hsome
      · cases hsome
        exact ⟨_, _, rfl, _, _, rfl, rfl, rfl⟩
      · cases hsome
    · obtain ⟨kind, span, children⟩ := node
      rintro ⟨optional, applied, rfl, ⟨first, place, parts⟩, ⟨second, place', parts'⟩, rfl, rfl, rfl⟩
      rfl
  have hnone : ∀ {node : Node}, node.kind.isCall = false → node.requiredModule? = none := by
    intro node hcall
    unfold Node.requiredModule?
    split
    · cases hcall
    · rfl
  rcases h.cases with ⟨leaf, hleaf, rfl⟩ | ⟨-, hkind, -, hparts⟩
  · obtain ⟨hcall, hcall', -⟩ := hdiscreet.calls _ _ _ hleaf
    rw [hnone hcall, hnone hcall']
  · refine Option.ext fun source => ?_
    rw [hrequired, hrequired]
    refine exists_congr fun optional => exists_congr fun applied => ?_
    have hcall : node'.kind = .call optional applied ↔ node.kind = .call optional applied := by
      rcases Kind.eq_of_placeless hkind with heq | ⟨_, _, _, _, hmember, hmember'⟩
      · rw [heq]
      · rw [hmember, hmember']
        exact iff_of_false nofun nofun
    rw [hcall]
    refine and_congr_right fun hkind => ?_
    rw [hkind] at hparts
    constructor
    · rintro ⟨a', b', hchildren, ha, hb⟩
      rw [hchildren] at hparts
      generalize node.children = children at hparts ⊢
      cases hparts with | @cons _ a _ _ _ hleft hparts
      cases hparts with | @cons _ b _ _ _ hright hparts
      cases hparts
      exact ⟨a, b, rfl, (hleft.calls_require hdiscreet rfl).1 ha, (hright.kind_eq_iff hdiscreet rfl _ rfl).1 hb⟩
    · rintro ⟨a, b, hchildren, ha, hb⟩
      rw [hchildren] at hparts
      generalize node'.children = children' at hparts ⊢
      cases hparts with | @cons _ _ a' _ _ hleft hparts
      cases hparts with | @cons _ _ b' _ _ hright hparts
      cases hparts
      exact ⟨a', b', rfl, (hleft.calls_require hdiscreet rfl).2 ha, (hright.kind_eq_iff hdiscreet rfl _ rfl).2 hb⟩

/-- A part that declares a name declares it in both trees, in the same place. -/
theorem Alike.declared (h : likeness.Alike around node node') (haround : around.isProperty = false) :
    (∃ name, node.kind = .binding name ∧ node'.kind = .binding name ∧ likeness.place node.span node'.span) ∨
      ((∀ name, node.kind ≠ .binding name) ∧ ∀ name, node'.kind ≠ .binding name) := by
  by_cases hname : ∃ name, node.kind = .binding name
  · obtain ⟨name, hname⟩ := hname
    obtain ⟨hkind, hsame⟩ := h.same_of_loud hdiscreet haround (hname ▸ rfl)
    exact .inl ⟨name, hname, hkind.trans hname, hsame.place⟩
  · exact .inr ⟨fun name hkind => hname ⟨name, hkind⟩, fun name hkind =>
      hname ⟨name, (h.kind_eq_iff hdiscreet haround (.binding name) rfl).1 hkind⟩⟩

/-- The same name is declared by a pattern, in the same place. -/
theorem Alike.bound? (h : likeness.Alike around node node') (haround : around.isProperty = false) :
    (node.bound? = none ∧ node'.bound? = none) ∨ ∃ name span span', node.bound? = some (name, span) ∧
      node'.bound? = some (name, span') ∧ likeness.place span span' := by
  have hnone : ∀ {node : Node}, (∀ name, node.kind ≠ .binding name) →
      (node.kind = .defaultPattern → ∀ part ∈ node.children.head?, ∀ name, part.kind ≠ .binding name) → node.bound? = none := by
    intro node hbinding hdefault
    unfold Node.bound?
    split
    · exact absurd rfl (hbinding _)
    · exact absurd rfl (hdefault rfl _ rfl _)
    · rfl
  rcases h.declared hdiscreet haround with ⟨name, hname, hname', hplace⟩ | ⟨hother, hother'⟩
  · obtain ⟨kind, span, children⟩ := node
    obtain ⟨kind', span', children'⟩ := node'
    obtain rfl : kind = .binding name := hname
    obtain rfl : kind' = .binding name := hname'
    exact .inr ⟨name, span, span', rfl, rfl, hplace⟩
  · by_cases hdefault : node.kind = .defaultPattern
    · obtain ⟨hkind, hsame⟩ := h.same_of_loud hdiscreet haround (hdefault ▸ rfl)
      have hparts := hsame.parts
      rw [hdefault] at hparts hkind
      obtain ⟨kind, span, children⟩ := node
      obtain ⟨kind', span', children'⟩ := node'
      obtain rfl : kind = .defaultPattern := hdefault
      obtain rfl : kind' = .defaultPattern := hkind
      cases hparts with
      | nil => exact .inl ⟨rfl, rfl⟩
      | @cons _ first first' _ _ hfirst _ =>
        rcases hfirst.declared hdiscreet rfl with ⟨name, hname, hname', hplace⟩ | ⟨hfirst, hfirst'⟩
        · obtain ⟨kind, place, parts⟩ := first
          obtain ⟨kind', place', parts'⟩ := first'
          obtain rfl : kind = .binding name := hname
          obtain rfl : kind' = .binding name := hname'
          exact .inr ⟨name, place, place', rfl, rfl, hplace⟩
        · exact .inl ⟨hnone hother fun _ part hpart => Option.some.inj hpart ▸ hfirst,
            hnone hother' fun _ part hpart => Option.some.inj hpart ▸ hfirst'⟩
    · exact .inl ⟨hnone hother (absurd · hdefault),
        hnone hother' fun heq => absurd ((h.kind_eq_iff hdiscreet haround .defaultPattern rfl).1 heq) hdefault⟩

end Questions

end Likeness

end ComponentLint.Script
