import ComponentLint.Proofs.Text.Positions
import ComponentLint.Script.Access
import ComponentLint.Script.Node

/-!
# Where a syntax tree lies

`Node.Lies` says of a whole tree that its spans are spans of a text, from an offset on and up to another, and that a part
ends where the whole does or before. A part may start before the whole: the decorators of an exported class do. What
questions about a tree find in it lies where the tree does.
-/

namespace ComponentLint.Script

open Text

/-- A tree whose spans are spans of a text from `first` up to an offset; no part ends behind the whole. -/
inductive Node.Lies (text : List Char) (first : Nat) : Nat → Node → Prop where
  | intro {kind : Kind} {span : Span} {children : List Node} {last : Nat} (hspan : span.InText text)
      (hfirst : first ≤ span.start) (hlast : span.stop ≤ last)
      (hparts : ∀ part ∈ children, Node.Lies text first span.stop part) : Node.Lies text first last ⟨kind, span, children⟩

namespace Node.Lies

variable {text : List Char} {first last : Nat} {node : Node}

theorem span (h : node.Lies text first last) : node.span.InText text := by
  cases h with
  | intro hspan => exact hspan

theorem first_le (h : node.Lies text first last) : first ≤ node.span.start := by
  cases h with
  | intro _ hfirst => exact hfirst

theorem stop_le (h : node.Lies text first last) : node.span.stop ≤ last := by
  cases h with
  | intro _ _ hlast => exact hlast

/-- The parts of a tree lie before its end. -/
theorem inside (h : node.Lies text first last) : ∀ part ∈ node.children, part.Lies text first node.span.stop := by
  cases h with
  | intro _ _ _ hparts => exact hparts

/-- What lies between two offsets lies between offsets further apart. -/
theorem widen {first' last' : Nat} (h : node.Lies text first last) (hfirst : first' ≤ first) (hlast : last ≤ last') :
    node.Lies text first' last' := by
  induction h generalizing last' with
  | intro hspan hstart hstop _ ih =>
    exact .intro hspan (Nat.le_trans hfirst hstart) (Nat.le_trans hstop hlast) fun part hpart => ih part hpart (Nat.le_refl _)

theorem parts (h : node.Lies text first last) : ∀ part ∈ node.children, part.Lies text first last :=
  fun part hpart => (h.inside part hpart).widen (Nat.le_refl _) h.stop_le

theorem unparenthesized (h : node.Lies text first last) : node.unparenthesized.Lies text first last := by
  fun_induction Node.unparenthesized node with
  | case1 span kind inner children ih => exact ih (h.parts _ List.mem_cons_self)
  | case2 => exact h

end Node.Lies

mutual

/-- Whether a tree lies in a text. -/
def Node.decidableLies (text : List Char) (first : Nat) : (last : Nat) → (node : Node) → Decidable (node.Lies text first last)
  | last, ⟨_, span, children⟩ =>
    have := Node.decidableLieAll text first span.stop children
    decidable_of_iff (span.InText text ∧ first ≤ span.start ∧ span.stop ≤ last ∧ ∀ part ∈ children,
      part.Lies text first span.stop)
      ⟨fun h => .intro h.1 h.2.1 h.2.2.1 h.2.2.2,
        fun | .intro hspan hfirst hlast hparts => ⟨hspan, hfirst, hlast, hparts⟩⟩

/-- Whether several trees lie in a text. -/
def Node.decidableLieAll (text : List Char) (first last : Nat) :
    (nodes : List Node) → Decidable (∀ node ∈ nodes, node.Lies text first last)
  | [] => .isTrue nofun
  | node :: rest =>
    have := Node.decidableLies text first last node
    have := Node.decidableLieAll text first last rest
    decidable_of_iff (node.Lies text first last ∧ ∀ other ∈ rest, other.Lies text first last) List.forall_mem_cons.symm

end

instance (text : List Char) (first last : Nat) (node : Node) : Decidable (node.Lies text first last) :=
  node.decidableLies text first last

/-- A tree whose spans are spans of a text. -/
abbrev Node.LiesIn (text : List Char) (node : Node) : Prop :=
  node.Lies text 0 (byteLength text)

/-! ## Walks -/

section Gather

variable {α : Type} {text : List Char} {first last : Nat} {enters : Node → Bool} {found : Node → List α}

mutual

/-- What a walk finds, it finds at a node that lies where the tree does. -/
theorem Node.Lies.of_mem_gather {item : α} : ∀ {node : Node}, node.Lies text first last →
    item ∈ node.gather enters found → ∃ inner : Node, inner.Lies text first last ∧ item ∈ found inner
  | ⟨kind, span, children⟩, h, hitem => by
    unfold Node.gather at hitem
    split at hitem
    · rcases List.mem_append.1 hitem with hhere | hparts
      · exact ⟨_, h, hhere⟩
      · exact Node.Lies.of_mem_gatherAll h.parts hparts
    · cases hitem

theorem Node.Lies.of_mem_gatherAll {item : α} : ∀ {nodes : List Node}, (∀ node ∈ nodes, node.Lies text first last) →
    item ∈ Node.gatherAll enters found nodes → ∃ inner : Node, inner.Lies text first last ∧ item ∈ found inner
  | [], _, hitem => by cases hitem
  | node :: rest, h, hitem => by
    rcases List.mem_append.1 hitem with hhere | hrest
    · exact Node.Lies.of_mem_gather (h node List.mem_cons_self) hhere
    · exact Node.Lies.of_mem_gatherAll (fun other ho => h other (List.mem_cons_of_mem _ ho)) hrest

end

/-- A walk over several trees finds what the walks over the single trees find. -/
theorem Node.mem_gatherAll {nodes : List Node} {item : α} :
    item ∈ Node.gatherAll enters found nodes ↔ ∃ node ∈ nodes, item ∈ node.gather enters found := by
  induction nodes with
  | nil => simp [Node.gatherAll]
  | cons node rest ih => simp [Node.gatherAll, ih]

end Gather

end ComponentLint.Script
