import ComponentLint.Script.Parser
import ComponentLint.Proofs.Markup.Construction
import ComponentLint.Proofs.Markup.Printing

/-!
# Reading undoes printing

A printed template is read piece by piece, and the tree that stands afterwards is the one that was printed. `Tree.Stands` lays
a template out in an array of nodes: the nodes of a subtree have consecutive numbers, and their spans are those of its printed
text. The induction is on the template; what it says about a template is what reading it adds to the nodes that were there
(`Builder.Extends`), so that nothing has to be known about what stands around it.
-/

namespace ComponentLint.Markup

open Text

namespace Tree

mutual

/-- The number of nodes of a template. -/
def count : Tree → Nat
  | .element _ _ children => countAll children + 1
  | .comment _ => 1
  | .text _ => 1

/-- The number of nodes of templates. -/
def countAll : List Tree → Nat
  | [] => 0
  | tree :: trees => tree.count + countAll trees

end

/-- The numbers of the topmost nodes of templates that stand one after the other. -/
def numbers (first : Nat) : List Tree → List Nat
  | [] => []
  | tree :: trees => first :: numbers (first + tree.count) trees

/-- The node of a number has a kind and spans a text from an offset on. -/
def Spans (nodes : Array Node) (id start : Nat) (text : List Char) (children : List Nat) (kind : NodeKind) : Prop :=
  ∃ node, nodes[id]? = some node ∧ node.span = ⟨start, start + byteLength text⟩ ∧ node.children.toList = children ∧
    node.kind = kind

mutual

/-- A template that stands in an array of nodes: its topmost node has the number `id` and starts at `start`, and the nodes
under it follow in document order. -/
def Stands (nodes : Array Node) (id start : Nat) : Tree → Prop
  | .element name attributes children =>
    (∃ element, Spans nodes id start (Tree.element name attributes children).print
      (numbers (id + 1) children) (.element element) ∧
      element.rawName = String.ofList name ∧ element.attributes.mapM (·.written?) = some attributes ∧
      element.endTag.isSome = true) ∧
    StandAll nodes (id + 1) (start + byteLength (printStartTag name attributes)) children
  | .comment body => Spans nodes id start (Tree.comment body).print [] .comment
  | .text chars => Spans nodes id start chars [] .text

/-- Templates that stand one after the other. -/
def StandAll (nodes : Array Node) (first start : Nat) : List Tree → Prop
  | [] => True
  | tree :: trees => tree.Stands nodes first start ∧ StandAll nodes (first + tree.count) (start + byteLength tree.print) trees

end

theorem Spans.congr {nodes nodes' : Array Node} {id start : Nat} {text : List Char} {children : List Nat} {kind : NodeKind}
    (hsame : nodes'[id]? = nodes[id]?) (h : Spans nodes id start text children kind) :
    Spans nodes' id start text children kind := by
  obtain ⟨node, hnode, h⟩ := h
  exact ⟨node, hsame ▸ hnode, h⟩

mutual

/-- Whether a template stands only depends on its own nodes. -/
theorem Stands.congr {nodes nodes' : Array Node} {id start : Nat} {tree : Tree}
    (hsame : ∀ i, id ≤ i → i < id + tree.count → nodes'[i]? = nodes[i]?) (h : tree.Stands nodes id start) :
    tree.Stands nodes' id start := by
  cases tree with
  | element name attributes children =>
    obtain ⟨⟨element, hspans, hrest⟩, hchildren⟩ := h
    rw [count] at hsame
    refine ⟨⟨element, hspans.congr (hsame id (Nat.le_refl _) (by omega)), hrest⟩, ?_⟩
    exact StandAll.congr (fun i hle hlt => hsame i (by omega) (by omega)) hchildren
  | comment body => exact Spans.congr (hsame id (Nat.le_refl _) (by simp [count])) h
  | text chars => exact Spans.congr (hsame id (Nat.le_refl _) (by simp [count])) h

theorem StandAll.congr {nodes nodes' : Array Node} {first start : Nat} {trees : List Tree}
    (hsame : ∀ i, first ≤ i → i < first + countAll trees → nodes'[i]? = nodes[i]?) (h : StandAll nodes first start trees) :
    StandAll nodes' first start trees := by
  cases trees with
  | nil => exact trivial
  | cons tree trees =>
    rw [countAll] at hsame
    exact ⟨Stands.congr (fun i hle hlt => hsame i hle (by omega)) h.1,
      StandAll.congr (fun i hle hlt => hsame i (by omega) (by omega)) h.2⟩

end

end Tree

/-! ## Steps of a run -/

namespace Builder

/-- A state of a run that is reached from another one. -/
inductive Walks (language : Script.Language) (fileStop : Nat) (last : Builder) (rest : Stream) : Builder → Stream → Prop where
  | done : Walks language fileStop last rest last rest
  | step {builder : Builder} {stream : Stream} (hne : stream.chars ≠ [])
      (h : Walks language fileStop last rest (advance language fileStop builder stream).1
        (advance language fileStop builder stream).2) :
      Walks language fileStop last rest builder stream

section Walks

variable {language : Script.Language} {fileStop : Nat} {builder middle last : Builder} {stream between rest : Stream}

theorem Walks.trans (h : Walks language fileStop middle between builder stream)
    (h' : Walks language fileStop last rest middle between) : Walks language fileStop last rest builder stream := by
  induction h with
  | done => exact h'
  | step hne _ ih => exact .step hne ih

theorem Walks.single (hne : stream.chars ≠ []) (h : advance language fileStop builder stream = (last, rest)) :
    Walks language fileStop last rest builder stream := by
  refine .step hne ?_
  rw [h]
  exact .done

/-- The tree stands in every state that is reached. -/
theorem Walks.standing (h : Walks language fileStop last rest builder stream)
    (hs : Standing fileStop builder.nodes builder.stack stream.offset) : Standing fileStop last.nodes last.stack rest.offset := by
  induction h with
  | done => exact hs
  | step hne _ ih => exact ih (advance_kept language (kept_standing fileStop) hs hne)

/-- A run ends in the state at the end of the file. -/
theorem Walks.run_eq (h : Walks language fileStop last rest builder stream) (hrest : rest.chars = []) {fuel : Nat}
    (hfuel : stream.chars.length ≤ fuel) : run language fileStop fuel builder stream = (last, rest) := by
  induction h generalizing fuel with
  | done =>
    cases fuel with
    | zero => rfl
    | succ fuel => simp [run, hrest]
  | step hne _ ih =>
    rename_i builder stream _
    have hlt := advance_length_lt language fileStop builder hne
    cases fuel with
    | zero => exact absurd (List.eq_nil_of_length_eq_zero (Nat.le_zero.1 hfuel)) hne
    | succ fuel =>
      rw [run, if_neg (by simpa using hne)]
      exact ih (by omega)

end Walks

/-! ## What a printed piece adds -/

/-- A tree that differs from another one by nodes under the innermost open node, which has `ids` for new children. -/
structure Extends (builder added : Builder) (ids : List Nat) (count : Nat) : Prop where
  stack : added.stack = builder.stack
  problems : added.problems = builder.problems
  size : added.nodes.size = builder.nodes.size + count
  old : ∀ id < builder.nodes.size, added.nodes[id]? =
    builder.nodes[id]?.map fun node =>
      if id = builder.current then { node with children := node.children ++ ids.toArray } else node

theorem Extends.refl (builder : Builder) : Extends builder builder [] 0 := by
  refine ⟨rfl, rfl, rfl, fun id _ => ?_⟩
  cases builder.nodes[id]? <;> simp

theorem Extends.trans {builder middle added : Builder} {ids ids' : List Nat} {count count' : Nat}
    (h : Extends builder middle ids count) (h' : Extends middle added ids' count') :
    Extends builder added (ids ++ ids') (count + count') := by
  have hcurrent : middle.current = builder.current := by rw [current, h.stack, current]
  refine ⟨h'.stack.trans h.stack, h'.problems.trans h.problems, ?_, fun id hid => ?_⟩
  · rw [h'.size, h.size, Nat.add_assoc]
  · rw [h'.old id (by rw [h.size]; omega), h.old id hid, hcurrent, Option.map_map]
    congr 1
    funext node
    simp only [Function.comp_apply]
    split
    · simp
    · rfl

/-- A node keeps its kind. -/
theorem Extends.element? {builder added : Builder} {ids : List Nat} {count : Nat} (h : Extends builder added ids count) {id : Nat}
    (hid : id < builder.nodes.size) : added.element? id = builder.element? id := by
  unfold Builder.element?
  rw [h.old id hid]
  cases builder.nodes[id]? with
  | none => rfl
  | some node =>
    rw [Option.map_some]
    by_cases hcurrent : id = builder.current
    · rw [if_pos hcurrent]
      obtain ⟨_, _, _, _, kind⟩ := node
      cases kind <;> rfl
    · rw [if_neg hcurrent]

/-- Reading has come to the inside of the top-level template, in elements of HTML only. -/
structure Inside (builder : Builder) : Prop where
  stack : ∃ inner, builder.stack = inner ++ [1, 0]
  current_ne : builder.current ≠ 0
  template : ∃ element, builder.element? 1 = some element ∧ element.name = "template"
  html : ∀ element, builder.element? builder.current = some element → element.vocabulary = .html

theorem Inside.surroundings {builder : Builder} (h : Inside builder) (language : Script.Language) :
    builder.surroundings language = ⟨language, false, true⟩ := by
  obtain ⟨inner, hstack⟩ := h.stack
  obtain ⟨element, helement, hname⟩ := h.template
  have htop : builder.topLevel? = some element := by
    rw [topLevel?, hstack, List.reverse_append]
    exact helement
  simp [Builder.surroundings, h.current_ne, htop, hname]

theorem Inside.extends {builder added : Builder} {ids : List Nat} {count : Nat} (h : Inside builder)
    (hshaped : Shaped builder.nodes builder.stack) (hadded : Extends builder added ids count) : Inside added := by
  obtain ⟨inner, hstack⟩ := h.stack
  have hcurrent : added.current = builder.current := by rw [current, hadded.stack, current]
  refine ⟨⟨inner, hadded.stack.trans hstack⟩, hcurrent ▸ h.current_ne, ?_, ?_⟩
  · rw [hadded.element? (hshaped.mem_stack (by simp [hstack])).2]
    exact h.template
  · rw [hcurrent, hadded.element? (show builder.current < builder.nodes.size from hshaped.current_lt)]
    exact h.html

theorem push_extends {builder : Builder} (h : Shaped builder.nodes builder.stack) (span : Span) (kind : NodeKind) :
    Extends builder (builder.push span kind) [builder.nodes.size] 1 := by
  refine ⟨rfl, rfl, size_grow, fun id hid => ?_⟩
  have hold : (builder.push span kind).nodes[id]? =
      builder.nodes[id]?.map fun node => if id = builder.current then node.adopt builder.nodes.size else node :=
    grow_old id hid
  rw [hold]
  cases hnode : builder.nodes[id]? with
  | none => rfl
  | some node =>
    simp only [Option.map_some]
    by_cases hcurrent : id = builder.current
    · have hcontent := h.hasContent id (hcurrent ▸ h.current_mem) node hnode
      rw [if_pos hcurrent, if_pos hcurrent, Node.adopt, if_pos hcontent]
      simp
    · rw [if_neg hcurrent, if_neg hcurrent]

theorem record_extends (builder : Builder) {fileStop : Nat} {piece : Piece} (h : piece.problems fileStop = []) :
    Extends builder (builder.record fileStop piece) [] 0 := by
  refine ⟨rfl, by simp [record, h], rfl, fun id _ => ?_⟩
  cases hnode : builder.nodes[id]? <;> simp [record, hnode]

/-- A piece without problems whose node is new under the innermost open one. -/
theorem record_push_extends {builder : Builder} (h : Shaped builder.nodes builder.stack) {fileStop : Nat} {piece : Piece}
    (hpiece : piece.problems fileStop = []) (span : Span) (kind : NodeKind) :
    Extends builder ((builder.record fileStop piece).push span kind) [builder.nodes.size] 1 ∧
      ((builder.record fileStop piece).push span kind).nodes[builder.nodes.size]? =
        some ⟨builder.nodes.size, some builder.current, #[], span, kind⟩ := by
  have hextends := (record_extends builder hpiece).trans
    (push_extends (show Shaped (builder.record fileStop piece).nodes builder.stack from h) span kind)
  rw [List.nil_append, Nat.zero_add] at hextends
  exact ⟨hextends, grow_new h.current_lt⟩

/-- The template itself is the first element of the file, and every other element stands in it. -/
def Hosts (builder : Builder) (name : List Char) (attributes : List (List Char × List Char)) : Prop :=
  Inside builder ∨ (builder.stack = [0] ∧ builder.nodes.size = 1 ∧ name = "template".toList ∧ attributes = [])

/-- The element of a printed start tag: of HTML, with content, which is markup. -/
structure Plain (name : List Char) (attributes : List (List Char × List Char)) (element : Element) : Prop where
  lower : element.name = String.ofList (name.map asciiLower)
  raw : element.rawName = String.ofList name
  html : element.vocabulary = .html
  written : element.attributes.mapM (·.written?) = some attributes

theorem lower_reservedNames : ∀ reserved ∈ Tree.reservedNames, reserved.toList.map asciiLower = reserved.toList := by
  decide

/-- A name that can be given to an element is not reserved in lower case either. -/
theorem lower_not_mem_reservedNames {name : List Char} (h : Tree.isElementName name = true) :
    String.ofList (name.map asciiLower) ∉ Tree.reservedNames := by
  intro hmem
  obtain ⟨_, _, hreserved⟩ := of_isElementName h
  have hlower := lower_reservedNames _ hmem
  have hne := hreserved _ hmem
  rw [eqIgnoreAsciiCase, hlower] at hne
  simp at hne

/-- No printed element is void. -/
theorem Plain.isVoid {name : List Char} {attributes : List (List Char × List Char)} {element : Element}
    (h : Plain name attributes element) (hname : Tree.isElementName name = true) : element.isVoid = false := by
  have hnot : element.name ∉ voidElements := by
    rw [h.lower]
    exact fun hmem => lower_not_mem_reservedNames hname (List.mem_append_left _ hmem)
  simp [Element.isVoid, isVoidName, hnot]

/-- No printed element has content that is not read as markup. -/
theorem Plain.isRaw {builder : Builder} {name : List Char} {attributes : List (List Char × List Char)} {element : Element}
    (h : Plain name attributes element) (hname : Tree.isElementName name = true) (hhosts : Hosts builder name attributes) :
    element.isRaw (builder.current == 0) = false := by
  have hnot : element.name ∉ ["script", "style"] := by
    rw [h.lower]
    intro hmem
    refine lower_not_mem_reservedNames hname (List.mem_append_right _ ?_)
    exact List.mem_append_left ["svg", "math"] hmem
  have hother : (["script", "style"].contains element.name) = false := by simpa using hnot
  rw [Element.isRaw, hother, Bool.false_or]
  rcases hhosts with hinside | ⟨_, _, rfl, rfl⟩
  · simp [hinside.current_ne]
  · have hattributes : element.attributes = [] := by
      have hwritten := h.written
      cases hattrs : element.attributes with
      | nil => rfl
      | cons attr attrs =>
        rw [hattrs] at hwritten
        simp [List.mapM_cons, Option.bind_eq_some_iff] at hwritten
    have htemplate : element.name = "template" := h.lower
    simp [htemplate, Element.attribute?, hattributes]

/-- An element in a template is one of HTML. -/
theorem vocabularyFor_eq {builder : Builder} {name : List Char} {attributes : List (List Char × List Char)}
    (h : Shaped builder.nodes builder.stack) (hname : Tree.isElementName name = true) (hhosts : Hosts builder name attributes) :
    builder.vocabularyFor name = .html := by
  obtain ⟨_, _, hreserved⟩ := of_isElementName hname
  have hsvg := hreserved "svg" (by decide)
  have hmath := hreserved "math" (by decide)
  have hcurrent : ∀ element, builder.element? builder.current = some element → element.vocabulary = .html := by
    rcases hhosts with hinside | ⟨hstack, _⟩
    · exact hinside.html
    · intro element helement
      obtain ⟨node, hnode, hkind⟩ := element?_eq_some_iff.1 helement
      obtain ⟨root, hroot, hrootKind, _⟩ := h.root
      rw [show builder.current = 0 by rw [current, hstack]; rfl, hroot] at hnode
      cases hnode
      rw [hrootKind] at hkind
      cases hkind
  rw [vocabularyFor, hsvg, hmath]
  simp only [Bool.false_eq_true, if_false]
  split
  · rename_i element helement
    split
    · exact hcurrent element helement
    · rfl
  · rfl

/-- A printed start tag opens an element under the innermost open node. -/
theorem advance_startTag (language : Script.Language) (fileStop : Nat) {builder : Builder} {stream : Stream} {name : List Char}
    {attributes : List (List Char × List Char)} {rest : List Char} (h : Shaped builder.nodes builder.stack)
    (hname : Tree.isElementName name = true) (hattributes : ∀ attr ∈ attributes, Tree.isAttribute attr = true)
    (hhosts : Hosts builder name attributes) (hs : stream.chars = printStartTag name attributes ++ rest) :
    ∃ opened element, advance language fileStop builder stream = (opened, stream.after (printStartTag name attributes) rest) ∧
      opened.stack = builder.nodes.size :: builder.stack ∧
      Extends builder { opened with stack := builder.stack } [builder.nodes.size] 1 ∧ Plain name attributes element ∧
      opened.nodes[builder.nodes.size]? = some ⟨builder.nodes.size, some builder.current, #[],
        ⟨stream.offset, stream.offset + byteLength (printStartTag name attributes)⟩, .element element⟩ := by
  obtain ⟨reads, hread, hwritten, hproblems⟩ := readPiece_startTag (builder.surroundings language) hname hattributes hs
  generalize htag : (⟨name, stream.offset, reads, .plain,
    stream.offset + byteLength (printStartTag name attributes)⟩ : ReadTag) = tag
    at hread
  have hplain : Plain name attributes (builder.elementOf tag) := by
    have hhtml := vocabularyFor_eq h hname hhosts
    subst htag
    exact ⟨by simp [elementOf, hhtml], rfl, hhtml, by simpa [elementOf, Element.attributes] using hwritten⟩
  have hopen : ((builder.elementOf tag).startTag.selfClosing || (builder.elementOf tag).isVoid) = false := by
    rw [hplain.isVoid hname, ← htag]
    rfl
  have hpiece : (Piece.startTag tag).problems fileStop = [] := by
    subst htag
    simpa [Piece.problems, List.flatMap_eq_nil_iff] using fun read hmem => hproblems read hmem fileStop
  have hraw : builder.rawName? (.startTag tag) = none := by
    simp [rawName?, hopen, hplain.isRaw hname hhosts]
  obtain ⟨hextends, hnew⟩ := record_push_extends h hpiece ⟨tag.start, tag.stop⟩ (.element (builder.elementOf tag))
  have hadd : builder.add fileStop (.startTag tag) =
      { (builder.record fileStop (.startTag tag)).push ⟨tag.start, tag.stop⟩ (.element (builder.elementOf tag)) with
        stack := builder.nodes.size :: builder.stack } := by
    rw [add, apply, startElement]
    exact if_neg (Bool.eq_false_iff.1 hopen)
  refine ⟨builder.add fileStop (.startTag tag), builder.elementOf tag, ?_, ?_, ?_, hplain, ?_⟩
  · rw [advance, hread]
    simp only [hraw]
  · rw [hadd]
  · rw [hadd]
    exact hextends
  · rw [hadd]
    subst htag
    exact hnew

/-- A printed end tag closes the innermost open element, which has its name. -/
theorem advance_endTag (language : Script.Language) (fileStop : Nat) {builder : Builder} {stream : Stream} {name rest : List Char}
    {id : Nat} {outer : List Nat} {node : Node} {element : Element} (hname : Tree.isElementName name = true)
    (hstack : builder.stack = id :: outer) (hnode : builder.nodes[id]? = some node) (hkind : node.kind = .element element)
    (hraw : element.rawName = String.ofList name) (hs : stream.chars = printEndTag name ++ rest) :
    ∃ closed, advance language fileStop builder stream = (closed, stream.after (printEndTag name) rest) ∧
      closed.stack = outer ∧ closed.problems = builder.problems ∧
      closed.nodes = builder.nodes.modify id
        (Node.shutWith ⟨stream.offset, stream.offset + byteLength (printEndTag name)⟩) := by
  obtain ⟨close, hread⟩ := readPiece_endTag (builder.surroundings language) hname hs
  generalize hspan : (⟨stream.offset, stream.offset + byteLength (printEndTag name)⟩ : Span) = span at hread ⊢
  generalize hpiece : Piece.endTag name span (some close) = piece at hread
  have hnone : piece.problems fileStop = [] := hpiece ▸ rfl
  refine ⟨builder.add fileStop piece, ?_, ?_⟩
  · rw [advance, hread, ← hpiece]
    rfl
  · -- The tag closes the innermost open element, so there is nothing to close before that.
    have hcloses : (builder.record fileStop piece).closes name id = true := by
      refine closes_iff.2 ⟨node, element, hnode, hkind, ?_⟩
      simp [hraw, eqIgnoreAsciiCase]
    have hopen : (builder.record fileStop piece).stack = id :: outer := hstack
    rw [add, ← hpiece, apply, hpiece, endElement, hopen]
    simp only [hcloses, Bool.not_true, Bool.false_eq_true, not_false_eq_true, List.takeWhile_cons_of_neg,
      List.dropWhile_cons_of_neg, List.foldl_nil]
    exact ⟨trivial, by simp [closeWith, record, hnone], rfl⟩

/-- The inside of an element of a template is the inside of the template. -/
theorem Hosts.inside {builder opened : Builder} {name : List Char} {attributes : List (List Char × List Char)} {node : Node}
    {element : Element} (h : Hosts builder name attributes) (hshaped : Shaped builder.nodes builder.stack)
    (hstack : opened.stack = builder.nodes.size :: builder.stack)
    (hextends : Extends builder { opened with stack := builder.stack } [builder.nodes.size] 1)
    (hnode : opened.nodes[builder.nodes.size]? = some node) (hkind : node.kind = .element element)
    (hplain : Plain name attributes element) : Inside opened := by
  have hcurrent : opened.current = builder.nodes.size := by rw [current, hstack]; rfl
  have hnew : opened.element? builder.nodes.size = some element := element?_eq_some_iff.2 ⟨node, hnode, hkind⟩
  have hpos := hshaped.size_pos
  have hhtml : ∀ found, opened.element? opened.current = some found → found.vocabulary = .html := by
    intro found hfound
    rw [hcurrent, hnew] at hfound
    cases hfound
    exact hplain.html
  rcases h with hinside | ⟨hroot, hsize, rfl, _⟩
  · obtain ⟨inner, hinner⟩ := hinside.stack
    refine ⟨⟨builder.nodes.size :: inner, by rw [hstack, hinner]; rfl⟩, hcurrent ▸ Nat.ne_of_gt hpos, ?_, hhtml⟩
    have hold := hextends.element? (hshaped.mem_stack (show 1 ∈ builder.stack by simp [hinner])).2
    exact (show opened.element? 1 = builder.element? 1 from hold) ▸ hinside.template
  · rw [hsize] at hstack hcurrent hnew
    exact ⟨⟨[], by rw [hstack, hroot]; rfl⟩, hcurrent ▸ Nat.one_ne_zero, ⟨element, hnew, hplain.lower⟩, hhtml⟩

/-- An element that was opened, filled and closed is the new child of the node under which it stands. -/
theorem Extends.closed {builder opened filled closed : Builder} {ids : List Nat} {count : Nat} {f : Node → Node}
    (hopened : Extends builder { opened with stack := builder.stack } [builder.nodes.size] 1)
    (hopen : opened.stack = builder.nodes.size :: builder.stack) (hfilled : Extends opened filled ids count)
    (hstack : closed.stack = builder.stack) (hproblems : closed.problems = filled.problems)
    (hnodes : closed.nodes = filled.nodes.modify builder.nodes.size f) :
    Extends builder closed [builder.nodes.size] (count + 1) := by
  have hsize : opened.nodes.size = builder.nodes.size + 1 := hopened.size
  have hcurrent : opened.current = builder.nodes.size := by rw [current, hopen]; rfl
  refine ⟨hstack, hproblems.trans (hfilled.problems.trans hopened.problems), ?_, fun id hid => ?_⟩
  · rw [hnodes, Array.size_modify, hfilled.size, hsize]
    omega
  · have hne : id ≠ builder.nodes.size := Nat.ne_of_lt hid
    rw [← hopened.old id hid, hnodes, getElem?_modify_map, hfilled.old id (by omega), hcurrent]
    simp [hne]

/-- Reading a printed text adds nodes under the innermost open one, and they are as `laid` says. -/
def Takes (language : Script.Language) (fileStop : Nat) (builder : Builder) (stream : Stream) (printed rest : List Char)
    (ids : List Nat) (count : Nat) (laid : Array Node → Prop) : Prop :=
  ∃ added, Walks language fileStop added (stream.after printed rest) builder stream ∧ Extends builder added ids count ∧
    laid added.nodes

/-- Whatever is not a text begins with markup. -/
theorem isMarkup_print {tree : Tree} (h : tree.isPrintable = true) (htext : tree.isText = false) (rest : List Char) :
    isMarkup (tree.print ++ rest) = true := by
  cases tree with
  | element name attributes children =>
    simp only [Tree.isPrintable, Bool.and_eq_true] at h
    obtain ⟨_, ⟨c, tail, rfl, hc⟩, _⟩ := of_isElementName h.1.1
    rw [Tree.print, printStartTag]
    simp only [List.cons_append, List.append_assoc]
    unfold isMarkup
    split
    · rfl
    · rename_i heq
      obtain ⟨rfl, _⟩ := List.cons.inj (List.cons.inj heq).2
      exact absurd hc (by decide)
    · rename_i heq
      rw [← (List.cons.inj heq).2]
      exact hc
    · rename_i hno
      exact absurd rfl (hno _)
  | comment body => simp [Tree.print, isMarkup]
  | text chars => cases htext

section Takes

variable {language : Script.Language} {fileStop : Nat} {builder : Builder} {stream : Stream} {rest : List Char}

/-- An element is read when its content is, wherever that stands. -/
theorem takes_element {name : List Char} {attributes : List (List Char × List Char)} {children : List Tree}
    (hstanding : Standing fileStop builder.nodes builder.stack stream.offset) (hname : Tree.isElementName name = true)
    (hattributes : ∀ attr ∈ attributes, Tree.isAttribute attr = true) (hhosts : Hosts builder name attributes)
    (hs : stream.chars = (Tree.element name attributes children).print ++ rest)
    (hcontent : ∀ (opened : Builder) (content : Stream), Inside opened →
      Standing fileStop opened.nodes opened.stack content.offset →
      content.chars = Tree.printAll children ++ (printEndTag name ++ rest) →
      Takes language fileStop opened content (Tree.printAll children) (printEndTag name ++ rest)
        (Tree.numbers opened.nodes.size children) (Tree.countAll children)
        (Tree.StandAll · opened.nodes.size content.offset children)) :
    Takes language fileStop builder stream (Tree.element name attributes children).print rest [builder.nodes.size]
      (Tree.element name attributes children).count
      ((Tree.element name attributes children).Stands · builder.nodes.size stream.offset) := by
  replace hs : stream.chars = printStartTag name attributes ++ (Tree.printAll children ++ (printEndTag name ++ rest)) := by
    simpa [Tree.print] using hs
  -- The start tag.
  obtain ⟨opened, element, hopen, hstack, hopened, hplain, hnode⟩ :=
    advance_startTag language fileStop hstanding.shaped hname hattributes hhosts hs
  have hwalk := Walks.single (by rw [hs]; simp [printStartTag]) hopen
  have hinside := hhosts.inside hstanding.shaped hstack hopened hnode rfl hplain
  -- The content.
  obtain ⟨filled, hfill, hfilled, hlaid⟩ := hcontent opened _ hinside (hwalk.standing hstanding) rfl
  have hsize : opened.nodes.size = builder.nodes.size + 1 := hopened.size
  have hcurrent : opened.current = builder.nodes.size := by rw [current, hstack]; rfl
  have hparent := hfilled.old builder.nodes.size (by omega)
  rw [hnode, hcurrent, Option.map_some, if_pos rfl] at hparent
  rw [Stream.after_after] at hfill
  -- The end tag.
  obtain ⟨closed, hclose, houter, hproblems, hnodes⟩ := advance_endTag language fileStop hname (hfilled.stack.trans hstack)
    hparent rfl hplain.raw (show (stream.after (printStartTag name attributes ++ Tree.printAll children) _).chars = _ from rfl)
  rw [Stream.after_after] at hclose
  have hend := Walks.single (by simp [Stream.after, printEndTag]) hclose
  refine ⟨closed, hwalk.trans (hfill.trans hend), hopened.closed hstack hfilled houter hproblems hnodes, ?_, ?_⟩
  · have hshut := getElem?_modify_map filled.nodes builder.nodes.size builder.nodes.size
      (Node.shutWith ⟨(stream.after (printStartTag name attributes ++ Tree.printAll children) (printEndTag name ++ rest)).offset,
        (stream.after (printStartTag name attributes ++ Tree.printAll children) (printEndTag name ++ rest)).offset +
          byteLength (printEndTag name)⟩)
    rw [← hnodes, hparent, Option.map_some, if_pos rfl] at hshut
    refine ⟨_, ⟨_, hshut, ?_, ?_, rfl⟩, hplain.raw, hplain.written, rfl⟩
    · simp [Node.shutWith, Stream.after, Tree.print, Nat.add_assoc]
    · simp [Node.shutWith, hsize]
  · rw [hsize] at hlaid
    refine Tree.StandAll.congr (fun i hle _ => ?_) hlaid
    rw [hnodes, getElem?_modify_map]
    have hne : i ≠ builder.nodes.size := by omega
    cases filled.nodes[i]? <;> simp [hne]

mutual

/-- A printable template is read as it was printed. A text needs markup behind it, or it would go on. -/
theorem takes_tree {builder : Builder} {stream : Stream} {rest : List Char} (tree : Tree) (h : tree.isPrintable = true)
    (hinside : Inside builder) (hstanding : Standing fileStop builder.nodes builder.stack stream.offset)
    (hs : stream.chars = tree.print ++ rest) (hrest : tree.isText = true → isMarkup rest = true) :
    Takes language fileStop builder stream tree.print rest [builder.nodes.size] tree.count
      (tree.Stands · builder.nodes.size stream.offset) := by
  cases tree with
  | element name attributes children =>
    simp only [Tree.isPrintable, Bool.and_eq_true, List.all_eq_true] at h
    obtain ⟨⟨hname, hattributes⟩, hchildren⟩ := h
    refine takes_element hstanding hname hattributes (Or.inl hinside) hs fun opened content hopened hplaced hchars => ?_
    exact takes_forest children hchildren hopened hplaced hchars (by
      obtain ⟨_, ⟨c, tail, rfl, hc⟩, _⟩ := of_isElementName hname
      exact hc)
  | comment body =>
    have hread := readPiece_comment (builder.surroundings language) (by simpa [Tree.isPrintable] using h) hs
    obtain ⟨hextends, hnew⟩ := record_push_extends hstanding.shaped
      (show (Piece.comment _ true).problems fileStop = [] from rfl)
      ⟨stream.offset, stream.offset + byteLength (Tree.comment body).print⟩ .comment
    refine ⟨_, Walks.single (by simp [hs, Tree.print]) ?_, hextends, ⟨_, hnew, rfl, rfl, rfl⟩⟩
    rw [advance, hread]
    rfl
  | text chars =>
    simp only [Tree.isPrintable, Bool.and_eq_true, Bool.not_eq_true', List.contains_eq_mem, decide_eq_false_iff_not,
      List.isEmpty_eq_false_iff] at h
    obtain ⟨⟨hne, hopen⟩, hbraces⟩ := h
    have hbetween : (builder.surroundings language).interpolates = true := by rw [hinside.surroundings]
    have hread := readPiece_text hbetween hne hopen hbraces (hrest rfl) hs
    obtain ⟨hextends, hnew⟩ := record_push_extends hstanding.shaped
      (show (Piece.text stream.offset chars).problems fileStop = [] from rfl)
      ⟨stream.offset, stream.offset + byteLength chars⟩ .text
    refine ⟨_, Walks.single (by simp [hs, Tree.print, hne]) ?_, hextends, ⟨_, hnew, rfl, rfl, rfl⟩⟩
    rw [advance, hread]
    rfl

/-- Printable templates are read one after the other. -/
theorem takes_forest {builder : Builder} {stream : Stream} {rest : List Char} (trees : List Tree)
    (h : Tree.arePrintable trees = true) (hinside : Inside builder)
    (hstanding : Standing fileStop builder.nodes builder.stack stream.offset)
    (hs : stream.chars = Tree.printAll trees ++ rest) (hrest : isMarkup rest = true) :
    Takes language fileStop builder stream (Tree.printAll trees) rest (Tree.numbers builder.nodes.size trees)
      (Tree.countAll trees) (Tree.StandAll · builder.nodes.size stream.offset trees) := by
  cases trees with
  | nil =>
    refine ⟨builder, ?_, Extends.refl builder, trivial⟩
    have hsame : stream.after [] rest = stream := by cases stream; simp_all [Stream.after, Tree.printAll]
    rw [Tree.printAll, hsame]
    exact .done
  | cons tree trees =>
    simp only [Tree.arePrintable, Bool.and_eq_true, Bool.not_eq_true', Bool.and_eq_false_iff] at h
    obtain ⟨⟨htree, hside⟩, htrees⟩ := h
    rw [Tree.printAll, List.append_assoc] at hs
    have hbehind : tree.isText = true → isMarkup (Tree.printAll trees ++ rest) = true := by
      intro htext
      cases trees with
      | nil => exact hrest
      | cons next trees =>
        have hnext : next.isText = false := by simpa [htext] using hside
        rw [Tree.arePrintable, Bool.and_eq_true, Bool.and_eq_true] at htrees
        rw [Tree.printAll, List.append_assoc]
        exact isMarkup_print htrees.1.1 hnext _
    obtain ⟨middle, hwalk, hmiddle, hstands⟩ := takes_tree tree htree hinside hstanding hs hbehind
    have hplaced := hwalk.standing hstanding
    obtain ⟨added, hwalk', hadded, hlaid⟩ := takes_forest trees htrees
      (hinside.extends hstanding.shaped hmiddle) hplaced rfl hrest
    rw [Stream.after_after] at hwalk'
    refine ⟨added, hwalk.trans hwalk', ?_, ?_, ?_⟩
    · rw [hmiddle.size] at hadded
      exact hmiddle.trans hadded
    · refine hstands.congr fun i hle hlt => ?_
      have hcurrent : i ≠ middle.current := by
        rw [current, hmiddle.stack]
        exact Nat.ne_of_gt (Nat.lt_of_lt_of_le hstanding.shaped.current_lt hle)
      rw [hadded.old i (by rw [hmiddle.size]; exact hlt)]
      cases middle.nodes[i]? <;> simp [hcurrent]
    · rw [hmiddle.size] at hlaid
      exact hlaid

end

end Takes

end Builder

/-! ## Reading the tree back -/

/-- A template that stands in a document, over its own printed text. -/
def Tree.StandsIn (document : Document) (id : Nat) (tree : Tree) : Prop :=
  ∃ before after, document.source = before ++ (tree.print ++ after) ∧ tree.Stands document.nodes id (byteLength before)

/-- Templates that stand in a document one after the other. -/
def Tree.StandAllIn (document : Document) (first : Nat) (trees : List Tree) : Prop :=
  ∃ before after, document.source = before ++ (Tree.printAll trees ++ after) ∧
    Tree.StandAll document.nodes first (byteLength before) trees

namespace Tree

variable {document : Document}

/-- What stands in an element. -/
theorem StandsIn.children {id : Nat} {name : List Char} {attributes : List (List Char × List Char)} {children : List Tree}
    (h : (Tree.element name attributes children).StandsIn document id) : StandAllIn document (id + 1) children := by
  obtain ⟨before, after, hsource, _, hchildren⟩ := h
  refine ⟨before ++ printStartTag name attributes, printEndTag name ++ after, ?_, ?_⟩
  · simpa [print] using hsource
  · rwa [byteLength_append]

theorem StandAllIn.cons {first : Nat} {tree : Tree} {trees : List Tree} (h : StandAllIn document first (tree :: trees)) :
    tree.StandsIn document first ∧ StandAllIn document (first + tree.count) trees := by
  obtain ⟨before, after, hsource, htree, htrees⟩ := h
  refine ⟨⟨before, printAll trees ++ after, by simpa [printAll] using hsource, htree⟩, ?_⟩
  refine ⟨before ++ tree.print, after, by simpa [printAll] using hsource, ?_⟩
  rwa [byteLength_append]

/-- The node of a template, and its text. -/
theorem StandsIn.node {id : Nat} {tree : Tree} (h : tree.StandsIn document id) :
    ∃ node, document.node? id = some node ∧ document.text node.span = tree.print := by
  obtain ⟨before, after, hsource, hstands⟩ := h
  have hnode : ∃ node, document.nodes[id]? = some node ∧
      node.span = ⟨byteLength before, byteLength before + byteLength tree.print⟩ := by
    cases tree with
    | element name attributes children =>
      obtain ⟨⟨_, ⟨node, hnode, hspan, _⟩, _⟩, _⟩ := hstands
      exact ⟨node, hnode, hspan⟩
    | comment body =>
      obtain ⟨node, hnode, hspan, _⟩ := hstands
      exact ⟨node, hnode, hspan⟩
    | text chars =>
      obtain ⟨node, hnode, hspan, _⟩ := hstands
      exact ⟨node, hnode, hspan⟩
  obtain ⟨node, hnode, hspan⟩ := hnode
  exact ⟨node, hnode, by rw [Document.text, hspan, hsource, slice_append]⟩

theorem StandsIn.nodeText {id : Nat} {tree : Tree} (h : tree.StandsIn document id) : document.nodeText id = tree.print := by
  obtain ⟨node, hnode, htext⟩ := h.node
  rw [Document.nodeText, Document.spanOf, hnode]
  exact htext

mutual

/-- The template that stands under a node is read back. -/
theorem StandsIn.treeWithin {fuel id : Nat} {tree : Tree} (h : tree.StandsIn document id) (hfuel : tree.count ≤ fuel) :
    document.treeWithin fuel id = some tree := by
  cases tree with
  | element name attributes children =>
    rw [count] at hfuel
    obtain ⟨fuel, rfl⟩ := Nat.exists_eq_add_of_le' (Nat.le_of_add_left_le hfuel)
    have hchildren := StandAllIn.treeWithin h.children (Nat.le_of_add_le_add_right hfuel)
    obtain ⟨_, _, _, ⟨element, ⟨node, hnode, _, hids, hkind⟩, hraw, hwritten, _⟩, _⟩ := h
    simp [Document.treeWithin, Document.node?, hnode, hkind, hwritten, hids, hchildren, hraw]
  | comment body =>
    rw [count] at hfuel
    obtain ⟨fuel, rfl⟩ := Nat.exists_eq_add_of_le' hfuel
    obtain ⟨before, after, hsource, node, hnode, hspan, _, hkind⟩ := h
    have hbody : document.text ⟨node.span.start + 4, node.span.stop - 3⟩ = body := by
      have hslice := slice_append (before ++ ['<', '!', '-', '-']) body (['-', '-', '>'] ++ after)
      have hopening : byteLength ['<', '!', '-', '-'] = 4 := rfl
      have hlen : byteLength (Tree.comment body).print = 4 + byteLength body + 3 := by
        rw [print, byteLength_append, byteLength_append]
        rfl
      rw [Document.text, hspan, hsource, hlen, print]
      rw [byteLength_append, hopening] at hslice
      simpa [← Nat.add_assoc] using hslice
    simp [Document.treeWithin, Document.node?, hnode, hkind, hbody]
  | text chars =>
    rw [count] at hfuel
    obtain ⟨fuel, rfl⟩ := Nat.exists_eq_add_of_le' hfuel
    have htext : ∀ node, document.node? id = some node → document.text node.span = chars := by
      obtain ⟨node, hnode, htext⟩ := h.node
      rintro _ hsame
      cases hnode.symm.trans hsame
      exact htext
    obtain ⟨_, _, _, node, hnode, _, _, hkind⟩ := h
    simp [Document.treeWithin, Document.node?, hnode, hkind, htext node hnode]

theorem StandAllIn.treeWithin {fuel first : Nat} {trees : List Tree} (h : StandAllIn document first trees)
    (hfuel : countAll trees ≤ fuel) : (numbers first trees).mapM (document.treeWithin fuel) = some trees := by
  cases trees with
  | nil => rfl
  | cons tree trees =>
    rw [countAll] at hfuel
    obtain ⟨htree, htrees⟩ := h.cons
    have hfirst := StandsIn.treeWithin htree (Nat.le_of_add_right_le hfuel)
    have hothers := StandAllIn.treeWithin htrees (Nat.le_of_add_left_le hfuel)
    simp [numbers, hfirst, hothers]

end

mutual

/-- Every node of a template stands over a template of its own. -/
theorem StandsIn.sub {id i : Nat} {tree : Tree} (h : tree.StandsIn document id) (hle : id ≤ i) (hlt : i < id + tree.count) :
    ∃ sub : Tree, sub.StandsIn document i ∧ i + sub.count ≤ id + tree.count := by
  rcases Nat.eq_or_lt_of_le hle with rfl | hbelow
  · exact ⟨tree, h, Nat.le_refl _⟩
  · cases tree with
    | element name attributes children =>
      rw [count] at hlt ⊢
      obtain ⟨sub, hsub, hcount⟩ := StandAllIn.sub h.children hbelow (by omega)
      exact ⟨sub, hsub, by omega⟩
    | comment body => exact absurd hlt (by rw [count]; omega)
    | text chars => exact absurd hlt (by rw [count]; omega)

theorem StandAllIn.sub {first i : Nat} {trees : List Tree} (h : StandAllIn document first trees) (hle : first ≤ i)
    (hlt : i < first + countAll trees) : ∃ sub : Tree, sub.StandsIn document i ∧ i + sub.count ≤ first + countAll trees := by
  cases trees with
  | nil => exact absurd hlt (by rw [countAll]; omega)
  | cons tree trees =>
    rw [countAll] at hlt ⊢
    obtain ⟨htree, htrees⟩ := h.cons
    rcases Nat.lt_or_ge i (first + tree.count) with hin | hbehind
    · obtain ⟨sub, hsub, hcount⟩ := StandsIn.sub htree hle hin
      exact ⟨sub, hsub, by omega⟩
    · obtain ⟨sub, hsub, hcount⟩ := StandAllIn.sub htrees hbehind (by omega)
      exact ⟨sub, hsub, by omega⟩

end

/-- An element over a template has an end tag. -/
theorem StandsIn.closed {id : Nat} {tree : Tree} {element : Element} (h : tree.StandsIn document id)
    (helement : document.element? id = some element) : element.endTag.isSome = true := by
  obtain ⟨node, hnode, hkind⟩ := Document.element?_eq_some_iff.1 helement
  obtain ⟨_, _, _, hstands⟩ := h
  cases tree with
  | element name attributes children =>
    obtain ⟨⟨found, ⟨node', hnode', _, _, hkind'⟩, _, _, hclosed⟩, _⟩ := hstands
    cases hnode.symm.trans hnode'
    cases hkind.symm.trans hkind'
    exact hclosed
  | comment body =>
    obtain ⟨node', hnode', _, _, hkind'⟩ := hstands
    cases hnode.symm.trans hnode'
    cases hkind.symm.trans hkind'
  | text chars =>
    obtain ⟨node', hnode', _, _, hkind'⟩ := hstands
    cases hnode.symm.trans hnode'
    cases hkind.symm.trans hkind'

end Tree

/-! ## Parsing a printed template -/

/-- A document that holds a template at the top level and nothing else: the tree is the template's, every element has its end
tag, and every node spans what is printed for it. -/
structure Document.Depicts (document : Document) (template : Tree) : Prop where
  tree : (document.children 0).mapM document.tree? = some [template]
  closed : ∀ id element, document.element? id = some element → element.endTag.isSome = true
  rootText : document.nodeText 0 = template.print
  nodeText : ∀ id, 0 < id → id < document.size → ∃ tree, document.tree? id = some tree ∧ document.nodeText id = tree.print

/-- A printed template is read to its end, without problems, and stands under the root. -/
theorem parse_template (language : Script.Language) {forest : List Tree} (h : Tree.arePrintable forest = true) :
    ∃ document : Document, parse language (Tree.element "template".toList [] forest).print = (document, []) ∧
      document.size = 1 + (Tree.element "template".toList [] forest).count ∧
      document.node? 0 = some ⟨0, none, #[1], ⟨0, byteLength (Tree.element "template".toList [] forest).print⟩, .root⟩ ∧
      document.source = (Tree.element "template".toList [] forest).print ∧
      (Tree.element "template".toList [] forest).StandsIn document 1 := by
  have hname : Tree.isElementName "template".toList = true := by decide
  generalize hsource : (Tree.element "template".toList [] forest).print = source
  have hread : Builder.Takes language (byteLength source) (.start (byteLength source)) ⟨0, source⟩
      (Tree.element "template".toList [] forest).print [] [1] (Tree.element "template".toList [] forest).count
      ((Tree.element "template".toList [] forest).Stands · 1 0) := by
    refine Builder.takes_element (Builder.start_standing _) hname (by simp) (Or.inr ⟨rfl, rfl, rfl, rfl⟩)
      (by rw [hsource, List.append_nil]) fun opened content hopened hplaced hchars => ?_
    exact Builder.takes_forest forest h hopened hplaced hchars rfl
  obtain ⟨added, hwalk, hadded, hstands⟩ := hread
  have hrun := hwalk.run_eq rfl (Nat.le_refl _)
  have hfinish : added.finish (byteLength source) = added := by
    rw [Builder.finish, hadded.stack]
    rfl
  refine ⟨⟨source, added.nodes, added.tokens⟩, ?_, ?_, ?_, rfl, [], [], ?_, hstands⟩
  · rw [parse]
    simp only [hrun, hfinish, hadded.problems]
    rfl
  · exact hadded.size
  · exact hadded.old 0 Nat.one_pos
  · rw [hsource]
    simp

/-- Parsing undoes printing: a printed template is read without problems, and as the tree that was printed. -/
theorem parse_print (language : Script.Language) (forest : List Tree) (h : Tree.arePrintable forest = true) :
    (parse language (Tree.element "template".toList [] forest).print).2 = [] ∧
      (parse language (Tree.element "template".toList [] forest).print).1.Depicts (.element "template".toList [] forest) := by
  obtain ⟨document, hparse, hsize, hroot, hsource, hstands⟩ := parse_template language h
  generalize Tree.element "template".toList [] forest = template at *
  rw [hparse]
  refine ⟨rfl, show document.Depicts template from ⟨?_, ?_, ?_, ?_⟩⟩
  · have htree := hstands.treeWithin (show template.count ≤ document.size by omega)
    simp [Document.children, hroot, Document.tree?, htree]
  · intro id element helement
    obtain ⟨node, hnode, hkind⟩ := Document.element?_eq_some_iff.1 helement
    obtain ⟨hlt, _⟩ := Array.getElem?_eq_some_iff.1 hnode
    rcases Nat.eq_zero_or_pos id with rfl | hpos
    · cases hroot.symm.trans hnode
      cases hkind
    · obtain ⟨sub, hsub, _⟩ := hstands.sub hpos (hsize ▸ hlt)
      exact hsub.closed helement
  · have hwhole := slice_append [] document.source []
    rw [Document.nodeText, Document.spanOf, hroot, ← hsource]
    simpa [Document.text] using hwhole
  · intro id hpos hlt
    obtain ⟨sub, hsub, hcount⟩ := hstands.sub hpos (hsize ▸ hlt)
    exact ⟨sub, hsub.treeWithin (by omega), hsub.nodeText⟩

/-- A list with marks where they do not count: in a value, in texts and in a comment. -/
def Tree.groceries : List Tree :=
  [.element "Ul".toList [("data-of".toList, "a > 'b' \x7b\x7b".toList), ("x".toList, [])]
    [.text "\x7b > ".toList, .comment "-- >-".toList, .element "li".toList [] [], .text "\x7d\x7d é".toList],
   .text "\n".toList]

theorem parse_print_groceries :
    Tree.arePrintable Tree.groceries = true ∧
      (parse (Script.Dialect.language ⟨true, false⟩) (Tree.element "template".toList [] Tree.groceries).print).2 = [] ∧
      (parse (Script.Dialect.language ⟨true, false⟩) (Tree.element "template".toList [] Tree.groceries).print).1.Depicts
        (.element "template".toList [] Tree.groceries) :=
  ⟨by decide, parse_print _ Tree.groceries (by decide)⟩

end ComponentLint.Markup
