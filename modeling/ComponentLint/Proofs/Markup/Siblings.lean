import ComponentLint.Script.Parser
import ComponentLint.Markup.Sibling
import ComponentLint.Proofs.Markup.Construction

/-!
# Neighbours and conditional chains

Two elements of one parent are neighbours if nothing but trivia stands between them (`Document.Neighbours`), and this is what
looking forward from the first and looking backward from the second find. The chain before a node is found by looking backward
again and again: its branches are `else-if` up to the `if` that opens it (`Document.Continues`), and a chain that is broken is
not found at all.
-/

namespace ComponentLint.Markup

open Text

namespace Document

/-- A comment, or a text of white space. -/
def Trivia (document : Document) (id : NodeId) : Prop :=
  ∃ node, document.node? id = some node ∧
    (node.kind = .comment ∨ node.kind = .text ∧ ∀ c ∈ document.text node.span, isSpace c = true)

/-- One node precedes another one under the same parent, and what stands between them is trivia. -/
structure Neighbours (document : Document) (first second : Nat) : Prop where
  parent : ∃ parent, document.parent? first = some parent ∧ document.parent? second = some parent
  precedes : first < second
  between : ∀ id : Nat, document.parent? id = document.parent? first → first < id → id < second → document.Trivia id

/-- The branch of a conditional chain that a node is. -/
def branchOf (document : Document) (id : NodeId) : Option Branch :=
  (document.element? id).bind (·.branch?)

/-- Looking backward from a node again and again gives a chain of branches, of which the last one opens it. -/
structure Continues (document : Document) (id : NodeId) (chain : List NodeId) : Prop where
  steps : (id :: chain).IsChain fun near far => document.previousElement? near = some far
  branches : ∃ others opening, chain = others ++ [opening] ∧ document.branchOf opening = some .ifBranch ∧
    ∀ other ∈ others, document.branchOf other = some .elseIfBranch

variable {document : Document} {stack : List Nat}

/-! ## Trivia -/

theorem isTrivia_iff {id : NodeId} : document.isTrivia id = true ↔ document.Trivia id := by
  unfold isTrivia Trivia
  cases hnode : document.node? id with
  | none => simp
  | some node =>
    obtain ⟨number, parent, children, span, kind⟩ := node
    cases kind <;> simp [isBlank]

theorem isTrivia_eq_false {id : NodeId} (h : (document.element? id).isSome = true) : document.isTrivia id = false := by
  obtain ⟨element, helement⟩ := Option.isSome_iff_exists.1 h
  obtain ⟨⟨number, parent, children, span, kind⟩, hnode, rfl⟩ := element?_eq_some_iff.1 helement
  rw [isTrivia, node?, hnode]

/-- Looking along some nodes finds an element that only trivia stands before. -/
theorem firstElement?_eq_some_iff {ids : List NodeId} {found : NodeId} : document.firstElement? ids = some found ↔
    (document.element? found).isSome = true ∧ ∃ skipped rest, ids = skipped ++ found :: rest ∧
      ∀ id ∈ skipped, document.Trivia id := by
  have hfirst : document.firstElement? ids = some found ↔
      ids.find? (!document.isTrivia ·) = some found ∧ (document.element? found).isSome = true := by
    simp only [firstElement?, Option.bind_eq_bind, Option.bind_eq_some_iff, Option.ite_none_right_eq_some, Option.some.injEq]
    constructor
    · rintro ⟨id, hid, helement, rfl⟩
      exact ⟨hid, helement⟩
    · rintro ⟨hfound, helement⟩
      exact ⟨found, hfound, helement, rfl⟩
  rw [hfirst, List.find?_eq_some_iff_append]
  constructor
  · rintro ⟨⟨-, skipped, rest, hids, hskipped⟩, helement⟩
    exact ⟨helement, skipped, rest, hids, fun id hid => isTrivia_iff.1 (by simpa using hskipped id hid)⟩
  · rintro ⟨helement, skipped, rest, hids, hskipped⟩
    refine ⟨⟨by simp [isTrivia_eq_false helement], skipped, rest, hids, fun id hid => ?_⟩, helement⟩
    simpa using isTrivia_iff.2 (hskipped id hid)

/-! ## The siblings of a node -/

/-- The children of a node, parted at one of them, part its siblings. -/
theorem siblings_parted (h : Shaped document.nodes stack) {id parent : NodeId} {before after : List NodeId}
    (hchildren : document.children parent = before ++ id :: after) :
    document.siblingsBefore id = before.reverse ∧ document.siblingsAfter id = after := by
  have hparent : document.parent? id = some parent := h.mem_children.1 (by simp [hchildren])
  have hnotMem : ∀ other ∈ before, (other != id) = true := by
    have hincreasing := h.pairwise_children parent
    rw [hchildren] at hincreasing
    intro other hother
    have hlt := (List.pairwise_append.1 hincreasing).2.2 other hother id List.mem_cons_self
    simpa using Nat.ne_of_lt hlt
  have hsiblings : document.siblings id = before ++ id :: after := by
    rw [siblings, hparent]
    exact hchildren
  constructor
  · rw [siblingsBefore, hsiblings, List.takeWhile_append_of_pos hnotMem]
    simp
  · rw [siblingsAfter, hsiblings, List.dropWhile_append_of_pos hnotMem]
    simp

/-- The children of a node can be parted at each of them. -/
theorem exists_parted (h : Shaped document.nodes stack) {id parent : NodeId} (hparent : document.parent? id = some parent) :
    ∃ before after, document.children parent = before ++ id :: after :=
  List.append_of_mem (h.mem_children.2 hparent)

/-- A node without a parent has no siblings. -/
theorem siblings_eq_nil {id : NodeId} (h : document.parent? id = none) : document.siblings id = [] := by
  rw [siblings, h]

/-! ## Neighbours -/

/-- Nodes are neighbours if they are children of one node with only trivia between them. -/
theorem neighbours_iff (h : Shaped document.nodes stack) {first second : Nat} : document.Neighbours first second ↔
    ∃ parent before skipped after, document.children parent = before ++ first :: (skipped ++ second :: after) ∧
      ∀ id ∈ skipped, document.Trivia id := by
  constructor
  · rintro ⟨⟨parent, hfirst, hsecond⟩, hlt, hbetween⟩
    obtain ⟨before, rest, hchildren⟩ := exists_parted h hfirst
    have hincreasing := h.pairwise_children parent
    rw [hchildren] at hincreasing
    have hbefore : second ∉ before := by
      intro hmem
      have hgt := (List.pairwise_append.1 hincreasing).2.2 second hmem first List.mem_cons_self
      omega
    have hrest : second ∈ rest := by
      have hmem := h.mem_children.2 hsecond
      simpa [hchildren, hbefore, Nat.ne_of_gt hlt] using hmem
    obtain ⟨skipped, after, rfl⟩ := List.append_of_mem hrest
    refine ⟨parent, before, skipped, after, hchildren, fun id hid => ?_⟩
    have hbehind := (List.pairwise_append.1 hincreasing).2.1
    rw [← List.cons_append] at hbehind
    refine hbetween id ?_ ((List.pairwise_cons.1 hbehind).1 id (by simp [hid]))
      ((List.pairwise_append.1 hbehind).2.2 id (by simp [hid]) second List.mem_cons_self)
    rw [hfirst]
    exact h.mem_children.1 (by simp [hchildren, hid])
  · rintro ⟨parent, before, skipped, after, hchildren, hskipped⟩
    have hincreasing := h.pairwise_children parent
    rw [hchildren] at hincreasing
    simp only [List.pairwise_append, List.pairwise_cons, List.forall_mem_append, List.forall_mem_cons] at hincreasing
    have hfirst : document.parent? first = some parent := h.mem_children.1 (by simp [hchildren])
    refine ⟨⟨parent, hfirst, h.mem_children.1 (by simp [hchildren])⟩, hincreasing.2.1.1.2.1, fun id hparent hgt hlt => ?_⟩
    rw [hfirst] at hparent
    have hmem := h.mem_children.2 hparent
    rw [hchildren] at hmem
    simp only [List.mem_append, List.mem_cons] at hmem
    rcases hmem with hid | rfl | hid | rfl | hid
    · have := (hincreasing.2.2 id hid).1
      omega
    · omega
    · exact hskipped id hid
    · omega
    · have := hincreasing.2.1.2.2.1.1 id hid
      omega

/-- Looking forward finds the next neighbour, if it is an element. -/
theorem nextElement?_eq_some_iff (h : Shaped document.nodes stack) {first second : NodeId} :
    document.nextElement? first = some second ↔
      (document.element? second).isSome = true ∧ document.Neighbours first second := by
  rw [nextElement?, firstElement?_eq_some_iff, neighbours_iff h]
  refine and_congr_right fun _ => ?_
  constructor
  · rintro ⟨skipped, rest, hafter, hskipped⟩
    cases hparent : document.parent? first with
    | none => simp [siblingsAfter, siblings_eq_nil hparent] at hafter
    | some parent =>
      obtain ⟨before, after, hchildren⟩ := exists_parted h hparent
      rw [(siblings_parted h hchildren).2] at hafter
      exact ⟨parent, before, skipped, rest, hafter ▸ hchildren, hskipped⟩
  · rintro ⟨parent, before, skipped, after, hchildren, hskipped⟩
    exact ⟨skipped, after, (siblings_parted h hchildren).2, hskipped⟩

/-- Looking backward finds the neighbour before, if it is an element. -/
theorem previousElement?_eq_some_iff (h : Shaped document.nodes stack) {first second : NodeId} :
    document.previousElement? second = some first ↔
      (document.element? first).isSome = true ∧ document.Neighbours first second := by
  rw [previousElement?, firstElement?_eq_some_iff, neighbours_iff h]
  refine and_congr_right fun _ => ?_
  constructor
  · rintro ⟨skipped, rest, hbefore, hskipped⟩
    cases hparent : document.parent? second with
    | none => simp [siblingsBefore, siblings_eq_nil hparent] at hbefore
    | some parent =>
      obtain ⟨before, after, hchildren⟩ := exists_parted h hparent
      rw [(siblings_parted h hchildren).1, List.reverse_eq_iff] at hbefore
      refine ⟨parent, rest.reverse, skipped.reverse, after, ?_, fun id hid => hskipped id (List.mem_reverse.1 hid)⟩
      simp [hchildren, hbefore]
  · rintro ⟨parent, before, skipped, after, hchildren, hskipped⟩
    rw [← List.cons_append, ← List.append_assoc] at hchildren
    refine ⟨skipped.reverse, before.reverse, ?_, fun id hid => hskipped id (List.mem_reverse.1 hid)⟩
    simp [(siblings_parted h hchildren).1]

/-! ## Chains -/

/-- Trivia in front is passed over. -/
theorem chainAmong?_skip {skipped rest : List NodeId} (h : ∀ id ∈ skipped, document.Trivia id) :
    document.chainAmong? (skipped ++ rest) = document.chainAmong? rest := by
  induction skipped with
  | nil => rfl
  | cons id skipped ih =>
    obtain ⟨hid, hskipped⟩ := List.forall_mem_cons.1 h
    rw [List.cons_append, chainAmong?, if_pos (isTrivia_iff.2 hid), ih hskipped]

/-- Where no element is found there is no chain. -/
theorem chainAmong?_eq_none {ids : List NodeId} (h : document.firstElement? ids = none) : document.chainAmong? ids = none := by
  induction ids with
  | nil => rfl
  | cons id rest ih =>
    by_cases htrivia : document.isTrivia id = true
    · rw [chainAmong?, if_pos htrivia]
      exact ih (by simpa [firstElement?, htrivia] using h)
    · have helement : document.element? id = none := by simpa [firstElement?, htrivia] using h
      rw [chainAmong?, if_neg htrivia, helement]
      rfl

/-- One step backward: the chain before a node goes on with the chain before the element that is found. -/
theorem chainAmong?_siblingsBefore (h : Shaped document.nodes stack) (id : NodeId) :
    document.chainAmong? (document.siblingsBefore id) =
      (document.previousElement? id).bind fun near =>
        match document.branchOf near with
        | some .elseIfBranch => (document.chainAmong? (document.siblingsBefore near)).map (near :: ·)
        | some .ifBranch => some [near]
        | _ => none := by
  cases hprevious : document.previousElement? id with
  | none => exact chainAmong?_eq_none hprevious
  | some near =>
    obtain ⟨helement, hneighbours⟩ := (previousElement?_eq_some_iff h).1 hprevious
    obtain ⟨parent, before, skipped, after, hchildren, hskipped⟩ := (neighbours_iff h).1 hneighbours
    have hnear := (siblings_parted h hchildren).1
    rw [← List.cons_append, ← List.append_assoc] at hchildren
    have hid := (siblings_parted h hchildren).1
    have hfiller : ∀ other ∈ skipped.reverse, document.Trivia other :=
      fun other hother => hskipped other (List.mem_reverse.1 hother)
    rw [hid, List.reverse_append, List.reverse_cons, List.append_assoc, chainAmong?_skip hfiller, List.singleton_append,
      chainAmong?, isTrivia_eq_false helement, Option.bind_some, hnear]
    rfl

theorem continues_cons {id near : NodeId} {chain : List NodeId} : document.Continues id (near :: chain) ↔
    document.previousElement? id = some near ∧
      (document.branchOf near = some .ifBranch ∧ chain = [] ∨
        document.branchOf near = some .elseIfBranch ∧ document.Continues near chain) := by
  constructor
  · rintro ⟨hsteps, others, opening, hchain, hopening, hothers⟩
    obtain ⟨hnear, hrest⟩ := List.isChain_cons_cons.1 hsteps
    refine ⟨hnear, ?_⟩
    cases others with
    | nil =>
      obtain ⟨rfl, rfl⟩ := List.cons.inj hchain
      exact Or.inl ⟨hopening, rfl⟩
    | cons other others =>
      obtain ⟨rfl, rfl⟩ := List.cons.inj hchain
      obtain ⟨hother, hothers⟩ := List.forall_mem_cons.1 hothers
      exact Or.inr ⟨hother, hrest, others, opening, rfl, hopening, hothers⟩
  · rintro ⟨hnear, ⟨hopening, rfl⟩ | ⟨hother, hrest, others, opening, rfl, hopening, hothers⟩⟩
    · exact ⟨by simpa using hnear, [], near, rfl, hopening, by simp⟩
    · refine ⟨List.isChain_cons_cons.2 ⟨hnear, hrest⟩, near :: others, opening, rfl, hopening, ?_⟩
      exact List.forall_mem_cons.2 ⟨hother, hothers⟩

theorem Continues.ne_nil {id : NodeId} {chain : List NodeId} (h : document.Continues id chain) : chain ≠ [] := by
  obtain ⟨others, opening, rfl, -⟩ := h.branches
  simp

/-- The chain among the siblings before a node is what looking backward again and again gives. -/
theorem chainAmong?_eq_some_iff (h : Shaped document.nodes stack) {id : NodeId} {chain : List NodeId} :
    document.chainAmong? (document.siblingsBefore id) = some chain ↔ document.Continues id chain := by
  induction chain generalizing id with
  | nil =>
    rw [chainAmong?_siblingsBefore h]
    refine iff_of_false ?_ ?_
    · cases document.previousElement? id with
      | none => simp
      | some near => rw [Option.bind_some]; split <;> simp
    · exact fun hcontinues => hcontinues.ne_nil rfl
  | cons near chain ih =>
    rw [chainAmong?_siblingsBefore h, continues_cons, ← ih]
    cases document.previousElement? id with
    | none => simp
    | some found =>
      rw [Option.bind_some, Option.some.injEq]
      by_cases hfound : found = near
      · subst hfound
        split
        · next hbranch => simp [hbranch]
        · next hbranch => simp [hbranch, eq_comm]
        · next helseIf hif =>
          refine iff_of_false nofun ?_
          rintro ⟨-, ⟨hopening, -⟩ | ⟨hother, -⟩⟩
          · exact hif hopening
          · exact helseIf hother
      · split <;> simp [hfound]

/-- The chain before a node is what looking backward again and again gives; it is empty if that gives no chain. -/
theorem chainBefore_eq_iff (h : Shaped document.nodes stack) {id : NodeId} {chain : List NodeId} :
    chain ≠ [] ∧ document.chainBefore id = chain ↔ document.Continues id chain := by
  rw [← chainAmong?_eq_some_iff h, chainBefore]
  constructor
  · rintro ⟨hne, rfl⟩
    cases hfound : document.chainAmong? (document.siblingsBefore id) with
    | none => simp [hfound] at hne
    | some chain => rfl
  · intro hfound
    exact ⟨((chainAmong?_eq_some_iff h).1 hfound).ne_nil, by rw [hfound, Option.getD_some]⟩

end Document

/-- In every file, looking forward from an element finds another one just where looking backward from that one finds the first,
and this is so if only trivia stands between them; and the chain before a node is what looking backward again and again
gives. -/
theorem parse_siblings (language : Script.Language) (source : List Char) :
    (∀ first second : NodeId, ((parse language source).1.element? first).isSome = true →
      ((parse language source).1.element? second).isSome = true →
        ((parse language source).1.nextElement? first = some second ↔
          (parse language source).1.previousElement? second = some first) ∧
        ((parse language source).1.nextElement? first = some second ↔ (parse language source).1.Neighbours first second)) ∧
      ∀ (id : NodeId) (chain : List NodeId), chain ≠ [] ∧ (parse language source).1.chainBefore id = chain ↔
        (parse language source).1.Continues id chain := by
  have hshaped := parse_shaped language source
  refine ⟨fun first second hfirst hsecond => ?_, fun id chain => Document.chainBefore_eq_iff hshaped⟩
  have hnext : (parse language source).1.nextElement? first = some second ↔ _ := Document.nextElement?_eq_some_iff hshaped
  have hprevious : (parse language source).1.previousElement? second = some first ↔ _ :=
    Document.previousElement?_eq_some_iff hshaped
  rw [and_iff_right hsecond] at hnext
  rw [and_iff_right hfirst] at hprevious
  exact ⟨hnext.trans hprevious.symm, hnext⟩

/-- A chain of three branches, with a comment and blanks between them. -/
def threeBranches : List Char :=
  "<template><p v-if='a'/><!--b--> <p v-else-if='c'/> <p v-else/></template>".toList

theorem parse_siblings_threeBranches :
    ((parse (Script.Dialect.language ⟨false, false⟩) threeBranches).1.element? 2).isSome = true ∧
      ((parse (Script.Dialect.language ⟨false, false⟩) threeBranches).1.element? 5).isSome = true ∧
      (parse (Script.Dialect.language ⟨false, false⟩) threeBranches).1.Neighbours 2 5 ∧
      (parse (Script.Dialect.language ⟨false, false⟩) threeBranches).1.Continues 7 [5, 2] := by
  have hfirst : ((parse (Script.Dialect.language ⟨false, false⟩) threeBranches).1.element? 2).isSome = true := rfl
  have hsecond : ((parse (Script.Dialect.language ⟨false, false⟩) threeBranches).1.element? 5).isSome = true := rfl
  obtain ⟨hneighbours, hchain⟩ := parse_siblings _ threeBranches
  exact ⟨hfirst, hsecond, (hneighbours 2 5 hfirst hsecond).2.1 rfl, (hchain 7 [5, 2]).1 ⟨by simp, rfl⟩⟩

end ComponentLint.Markup
