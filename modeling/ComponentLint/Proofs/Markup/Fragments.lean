import ComponentLint.Proofs.Markup.Heads
import ComponentLint.Proofs.Script.Places

/-!
# Where the fragments of a template lie

Script stands in a template between the braces of interpolations and in the values of attributes. Of the script parser it is
assumed that the spans of a fragment lie in the fragment (`Document.FragmentsLie`). Then a span of script tells the node and the
attribute that it stands in, since fragments of different nodes and attributes are apart.
-/

namespace ComponentLint

/-- A span that lies between two offsets. -/
def Span.Between (first last : Nat) (span : Span) : Prop :=
  first ≤ span.start ∧ span.start ≤ span.stop ∧ span.stop ≤ last

instance (first last : Nat) (span : Span) : Decidable (span.Between first last) :=
  inferInstanceAs (Decidable (_ ∧ _ ∧ _))

namespace Script.Node

/-- A tree whose spans, those of its parts included, lie between two offsets. -/
def Between (first last : Nat) (node : Node) : Prop :=
  ∀ span ∈ node.gather (fun _ => true) (fun inner => [inner.span]), span.Between first last

instance (first last : Nat) (node : Node) : Decidable (node.Between first last) :=
  inferInstanceAs (Decidable (∀ span ∈ _, _))

variable {first last : Nat} {node : Node}

theorem Between.span (h : node.Between first last) : node.span.Between first last := by
  obtain ⟨kind, span, children⟩ := node
  exact h span (by simp [gather])

theorem Between.parts (h : node.Between first last) : ∀ part ∈ node.children, part.Between first last := by
  obtain ⟨kind, span, children⟩ := node
  intro part hpart inner hinner
  refine h inner ?_
  rw [gather, if_pos rfl]
  exact List.mem_append_right _ (mem_gatherAll.2 ⟨part, hpart, hinner⟩)

mutual

/-- What a walk finds, it finds at a node that lies where the tree does. -/
theorem Between.of_mem_gather {α : Type} {enters : Node → Bool} {found : Node → List α} {item : α} : ∀ {node : Node},
    node.Between first last → item ∈ node.gather enters found → ∃ inner : Node, inner.Between first last ∧ item ∈ found inner
  | ⟨kind, span, children⟩, h, hitem => by
    unfold gather at hitem
    split at hitem
    · rcases List.mem_append.1 hitem with hhere | hparts
      · exact ⟨_, h, hhere⟩
      · exact Between.of_mem_gatherAll h.parts hparts
    · cases hitem

theorem Between.of_mem_gatherAll {α : Type} {enters : Node → Bool} {found : Node → List α} {item : α} : ∀ {nodes : List Node},
    (∀ node ∈ nodes, node.Between first last) → item ∈ gatherAll enters found nodes →
    ∃ inner : Node, inner.Between first last ∧ item ∈ found inner
  | [], _, hitem => by cases hitem
  | node :: rest, h, hitem => by
    rcases List.mem_append.1 hitem with hhere | hrest
    · exact Between.of_mem_gather (h node List.mem_cons_self) hhere
    · exact Between.of_mem_gatherAll (fun other ho => h other (List.mem_cons_of_mem _ ho)) hrest

end

theorem Between.unparenthesized (h : node.Between first last) : node.unparenthesized.Between first last := by
  fun_induction Node.unparenthesized node with
  | case1 span kind inner children ih => exact ih (h.parts _ List.mem_cons_self)
  | case2 => exact h

end Script.Node

namespace Markup

open Text

/-- What a value says, with its trees between two offsets and those of a loop on their sides of its word. Of a list of
parameters only the parts are written in every case, since its parentheses may be left out. -/
def DirectiveValue.Between (raw : List Char) (first last : Nat) : DirectiveValue → Prop
  | .expression node => node.Between first last
  | .loop aliases source _ => ∀ split ∈ Fragment.splitLoop? raw, (aliases.kind = .params ∧
      ∀ part ∈ aliases.children, part.Between first (first + split.1)) ∧ source.Between (first + split.2.2) last
  | .handler statements => ∀ statement ∈ statements, statement.Between first last
  | .slotScope params => params.kind = .params ∧ ∀ part ∈ params.children, part.Between first last
  | .invalid => True

/-- What a node is, with its trees in the texts that they are read from. -/
def NodeKind.FragmentsLie : NodeKind → Prop
  | .element found => ∀ attr ∈ found.attributes, ∀ value ∈ attr.value, ∀ meaning ∈ value.meaning,
      meaning.Between value.raw.toList value.valueSpan.start value.valueSpan.stop
  | .interpolation content => ∀ expression ∈ content.expression,
      expression.Between content.opening.stop content.closing.start
  | _ => True

/-- A template whose trees lie in the texts that they are read from. -/
def Document.FragmentsLie (document : Document) : Prop :=
  ∀ node ∈ document.nodes, node.kind.FragmentsLie

instance (raw : List Char) (first last : Nat) : (value : DirectiveValue) → Decidable (value.Between raw first last)
  | .expression node => inferInstanceAs (Decidable (node.Between first last))
  | .loop aliases source _ => inferInstanceAs (Decidable (∀ split ∈ Fragment.splitLoop? raw, (aliases.kind = .params ∧
      ∀ part ∈ aliases.children, part.Between first (first + split.1)) ∧ source.Between (first + split.2.2) last))
  | .handler statements => inferInstanceAs (Decidable (∀ statement ∈ statements, statement.Between first last))
  | .slotScope params => inferInstanceAs (Decidable (params.kind = .params ∧
      ∀ part ∈ params.children, part.Between first last))
  | .invalid => inferInstanceAs (Decidable True)

instance : (kind : NodeKind) → Decidable kind.FragmentsLie
  | .element element => inferInstanceAs (Decidable (∀ attr ∈ element.attributes, ∀ value ∈ attr.value,
      ∀ meaning ∈ value.meaning, meaning.Between value.raw.toList value.valueSpan.start value.valueSpan.stop))
  | .interpolation content => inferInstanceAs (Decidable (∀ expression ∈ content.expression,
      expression.Between content.opening.stop content.closing.start))
  | .root => inferInstanceAs (Decidable True)
  | .text => inferInstanceAs (Decidable True)
  | .comment => inferInstanceAs (Decidable True)

instance (document : Document) : Decidable document.FragmentsLie :=
  inferInstanceAs (Decidable (∀ node ∈ document.nodes, node.kind.FragmentsLie))

/-- A span of script in the value of an attribute of an element. -/
structure Document.RunsIn (document : Document) (id : NodeId) (attr : Attribute) (value : AttributeValue) (span : Span) :
    Prop where
  element : ∃ element, document.element? id = some element ∧ attr ∈ element.attributes
  hasValue : attr.value = some value
  inside : span.Between value.valueSpan.start value.valueSpan.stop

/-- A span of script between the braces of an interpolation. -/
def Document.RunsBetweenBraces (document : Document) (id : NodeId) (span : Span) : Prop :=
  ∃ node content, document.node? id = some node ∧ node.kind = .interpolation content ∧
    span.Between content.opening.stop content.closing.start

/-- A span in the head of a node, apart from the edges of the head unless the file ends there. -/
def Document.Owns (document : Document) (id : NodeId) (span : Span) : Prop :=
  ∃ node, document.node? id = some node ∧ node.head.start < span.start ∧ span.start ≤ span.stop ∧
    span.stop ≤ node.head.stop ∧ (span.stop < node.head.stop ∨ node.head.stop = byteLength document.source)

/-- The tree of a file with its script in place. -/
structure Document.Laid (document : Document) : Prop where
  standing : Standing (byteLength document.source) document.nodes [0] (byteLength document.source)
  heads : HeadsInOrder document.source document.nodes
  fragments : document.FragmentsLie

/-! ## Loops -/

/-- Between the aliases and the source of a loop there are blanks. -/
theorem Fragment.splitLoopFrom_lt {offset : Nat} {depth : Int} {afterBlank : Bool} {text : List Char}
    {split : Nat × LoopWord × Nat} (h : splitLoopFrom offset depth afterBlank text = some split) : split.1 < split.2.2 := by
  fun_induction splitLoopFrom offset depth afterBlank text with
  | case1 => cases h
  | case2 offset depth afterBlank c rest next _ _ blanks word length hword =>
    cases h
    have hsize := Char.utf8Size_pos c
    simp only [next]
    omega
  | case3 _ _ _ _ _ _ _ _ _ ih => exact ih h
  | case4 _ _ _ _ _ _ _ _ ih => exact ih h
  | case5 _ _ _ _ _ _ _ ih => exact ih h

/-- The value of a loop is split at its word. -/
theorem Fragment.split_of_loop {language : Script.Language} {name : String} {start : Nat} {text : List Char}
    {aliases source : Script.Node} {word : LoopWord}
    (h : directiveValue language name start text = some (.loop aliases source word)) : ∃ split, splitLoop? text = some split := by
  unfold directiveValue at h
  split at h
  · cases h
  split at h
  · cases h
  split at h
  · cases hloop : loop? language start text with
    | none =>
      rw [hloop] at h
      cases h
    | some value =>
      obtain ⟨split, hsplit, _⟩ := Option.bind_eq_some_iff.1 hloop
      exact ⟨split, hsplit⟩
  split at h
  · cases hparams : params? language start text <;> simp [hparams] at h
  split at h
  · unfold handler at h
    split at h
    · cases h
    · split at h <;> cases h
  · cases hexpression : expression? language start text <;> simp [hexpression] at h

/-! ## The node and the attribute of a span -/

/-- Of spans in order, only one holds an offset behind its start. -/
theorem InOrder.unique {first last : Nat} {attrs : List Attribute} (h : InOrder first last (attrs.map (·.span)))
    (offset : Nat) {attr other : Attribute} (hattr : attr ∈ attrs) (hother : other ∈ attrs)
    (hin : attr.span.start < offset ∧ offset ≤ attr.span.stop) (hin' : other.span.start < offset ∧ offset ≤ other.span.stop) :
    attr = other := by
  have hpairs := List.pairwise_iff_getElem.1 (List.pairwise_map.1 h.2)
  obtain ⟨i, hi, rfl⟩ := List.mem_iff_getElem.1 hattr
  obtain ⟨j, hj, rfl⟩ := List.mem_iff_getElem.1 hother
  rcases Nat.lt_trichotomy i j with hlt | rfl | hgt
  · have hle := hpairs i j hi hj hlt
    omega
  · rfl
  · have hle := hpairs j i hj hi hgt
    omega

namespace Document

variable {document : Document}

/-- The tree of every file, if its script is in place. -/
theorem laid_parse (language : Script.Language) (source : List Char) (hlie : (parse language source).1.FragmentsLie) :
    (parse language source).1.Laid :=
  ⟨parse_standing language source, parse_heads language source, hlie⟩

/-- Node 0 is the only root. -/
theorem Laid.pos_of_kind (h : document.Laid) {id : NodeId} {node : Node} (hnode : document.node? id = some node)
    (hkind : node.kind ≠ .root) : 0 < id := by
  rcases Nat.eq_zero_or_pos id with rfl | hpos
  · exact absurd (h.standing.placed.root node hnode).1 hkind
  · exact hpos

/-- A span has one owner. -/
theorem Laid.owner_unique (h : document.Laid) {id other : NodeId} {span : Span} (howns : document.Owns id span)
    (howns' : document.Owns other span) : id = other := by
  obtain ⟨node, hnode, hstart, _, hstop, _⟩ := howns
  obtain ⟨node', hnode', hstart', _, hstop', _⟩ := howns'
  rcases Nat.lt_trichotomy id other with hlt | heq | hgt
  · have hle := h.heads.ordered id other node node' hlt hnode hnode'
    omega
  · exact heq
  · have hle := h.heads.ordered other id node' node hgt hnode' hnode
    omega

/-- A span with an owner that lies in an interpolation is owned by it, even if it is empty and lies at an edge. -/
theorem Laid.owner_of_interpolation (h : document.Laid) {id other : NodeId} {span : Span} (howns : document.Owns id span)
    {node : Node} {content : Interpolation} (hnode : document.node? other = some node)
    (hkind : node.kind = .interpolation content) (hwithin : span.Within node.span) : id = other := by
  obtain ⟨owner, howner, hstart, hordered, _, hroom⟩ := howns
  obtain ⟨hfirst, hlast⟩ := hwithin
  have hhead : node.head = node.span := by simp [Node.head, hkind]
  have hpos : 0 < other := h.pos_of_kind hnode (by simp [hkind])
  obtain ⟨⟨hne, _⟩, hend⟩ := h.standing.placed.fits other node hpos hnode
  rcases Nat.lt_trichotomy id other with hlt | heq | hgt
  · have hle := h.heads.ordered id other owner node hlt howner hnode
    rw [hhead] at hle
    omega
  · exact heq
  · have hle := h.heads.ordered other id node owner hgt hnode howner
    rw [hhead] at hle
    omega

/-- What stands between the braces of an interpolation is owned by it. -/
theorem Laid.owns_of_braces (h : document.Laid) {id : NodeId} {span : Span} (hruns : document.RunsBetweenBraces id span) :
    document.Owns id span := by
  obtain ⟨node, content, hnode, hkind, hfirst, hordered, hlast⟩ := hruns
  have hsits := h.heads.sits id node hnode
  simp only [Node.Sits, hkind] at hsits
  have hhead : node.head = node.span := by simp [Node.head, hkind]
  have hopening := hsits.opening
  have hclosing := hsits.closing
  refine ⟨node, hnode, ?_, hordered, ?_, .inl ?_⟩ <;> rw [hhead] <;> omega

/-- What is known of a value of an attribute of an element. -/
theorem Laid.value_sits (h : document.Laid) {id : NodeId} {element : Element} (helement : document.element? id = some element)
    {attr : Attribute} (hattr : attr ∈ element.attributes) {value : AttributeValue} (hvalue : attr.value = some value) :
    value.SitsIn attr := by
  obtain ⟨node, hnode, hkind⟩ := Document.element?_eq_some_iff.1 helement
  have hsits := h.heads.sits id node hnode
  simp only [Node.Sits, hkind] at hsits
  exact hsits.value attr hattr value hvalue

theorem Laid.attributes_inOrder (h : document.Laid) {id : NodeId} {element : Element}
    (helement : document.element? id = some element) :
    InOrder element.startTag.span.start element.startTag.span.stop (element.attributes.map (·.span)) := by
  obtain ⟨node, hnode, hkind⟩ := Document.element?_eq_some_iff.1 helement
  have hpos : 0 < id := h.pos_of_kind hnode (by simp [hkind])
  exact ((h.standing.placed.fits id node hpos hnode).1.2 element hkind).attributes

/-- What stands in the value of an attribute is owned by the element. -/
theorem Laid.owns_of_value (h : document.Laid) {id : NodeId} {element : Element}
    (helement : document.element? id = some element) {attr : Attribute} (hattr : attr ∈ element.attributes)
    {value : AttributeValue} (hvalue : attr.value = some value) {span : Span} (hordered : span.start ≤ span.stop)
    (hwithin : span.Within value.span) : document.Owns id span := by
  have hvalueSits := h.value_sits helement hattr hvalue
  obtain ⟨hfirst, _, hlast⟩ := (h.attributes_inOrder helement).1 attr.span (List.mem_map_of_mem hattr)
  obtain ⟨node, hnode, hkind⟩ := Document.element?_eq_some_iff.1 helement
  have hsits := h.heads.sits id node hnode
  simp only [Node.Sits, hkind] at hsits
  have hhead : node.head = element.startTag.span := by simp [Node.head, hkind]
  have hroom := hsits.room attr hattr
  have hbehind := hvalueSits.behind
  have hstop := hvalueSits.stop
  obtain ⟨hstart, hend⟩ := hwithin
  refine ⟨node, hnode, ?_, hordered, ?_, ?_⟩ <;> rw [hhead] <;> omega

theorem Laid.owns_of_runsIn (h : document.Laid) {id : NodeId} {attr : Attribute} {value : AttributeValue} {span : Span}
    (hruns : document.RunsIn id attr value span) : document.Owns id span ∧ span.Within value.span := by
  obtain ⟨element, helement, hattr⟩ := hruns.element
  obtain ⟨hfirst, hinner, hlast⟩ := (h.value_sits helement hattr hruns.hasValue).ordered
  obtain ⟨hstart, hordered, hstop⟩ := hruns.inside
  have hwithin : span.Within value.span := ⟨by omega, by omega⟩
  exact ⟨h.owns_of_value helement hattr hruns.hasValue hordered hwithin, hwithin⟩

/-- Script in one value lies in no other value. -/
theorem Laid.runsIn_unique (h : document.Laid) {id other : NodeId} {attr attr' : Attribute} {value value' : AttributeValue}
    {span : Span} (hruns : document.RunsIn id attr value span) {element : Element}
    (helement : document.element? other = some element) (hattr' : attr' ∈ element.attributes)
    (hvalue' : attr'.value = some value') (hwithin' : span.Within value'.span) : id = other ∧ attr = attr' := by
  obtain ⟨howns, hwithin⟩ := h.owns_of_runsIn hruns
  have hordered := hruns.inside.2.1
  obtain rfl := h.owner_unique howns (h.owns_of_value helement hattr' hvalue' hordered hwithin')
  obtain ⟨found, hfound, hattr⟩ := hruns.element
  obtain rfl : found = element := Option.some.inj (hfound.symm.trans helement)
  refine ⟨rfl, (h.attributes_inOrder helement).unique span.start hattr hattr' ?_ ?_⟩
  · have hsits := h.value_sits helement hattr hruns.hasValue
    have hbehind := hsits.behind
    have hstop := hsits.stop
    obtain ⟨hstart, hend⟩ := hwithin
    omega
  · have hsits := h.value_sits helement hattr' hvalue'
    have hbehind := hsits.behind
    have hstop := hsits.stop
    obtain ⟨hstart, hend⟩ := hwithin'
    omega

/-- The sides of a loop are apart. -/
theorem Laid.loop_split (h : document.Laid) {id : NodeId} {element : Element}
    (helement : document.element? id = some element) {attr : Attribute} (hattr : attr ∈ element.attributes)
    {value : AttributeValue} (hvalue : attr.value = some value) {aliases source : Script.Node} {word : LoopWord}
    (hmeaning : value.meaning = some (.loop aliases source word)) :
    ∃ split, Fragment.splitLoop? value.raw.toList = some split ∧ split.1 < split.2.2 ∧ aliases.kind = .params ∧
      (∀ part ∈ aliases.children, part.Between value.valueSpan.start (value.valueSpan.start + split.1)) ∧
      source.Between (value.valueSpan.start + split.2.2) value.valueSpan.stop := by
  obtain ⟨language, hsays⟩ := (h.value_sits helement hattr hvalue).meaning
  obtain ⟨key, -, hdirective⟩ := hsays.exists_key hmeaning
  obtain ⟨split, hsplit⟩ := Fragment.split_of_loop hdirective
  obtain ⟨node, hnode, hkind⟩ := Document.element?_eq_some_iff.1 helement
  have hlie := h.fragments node (Array.mem_of_getElem? hnode)
  rw [hkind] at hlie
  obtain ⟨⟨hparams, haliases⟩, hsource⟩ := hlie attr hattr value hvalue _ hmeaning split hsplit
  exact ⟨split, hsplit, Fragment.splitLoopFrom_lt hsplit, hparams, haliases, hsource⟩

end Document

end Markup

end ComponentLint
