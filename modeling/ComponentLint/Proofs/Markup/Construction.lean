import ComponentLint.Proofs.Markup.Placement

/-!
# Building the tree

What a run of the builder keeps. The pieces that are added are read off the file one after the other (`Kept`), so what each
of them keeps holds at the end of every run (`run_kept`), and a run with enough fuel reaches the end of the file
(`reading_end`). The first result of that kind is that the nodes are a tree with its spans in place (`reading_standing`).
-/

namespace ComponentLint.Markup

open Text

variable {language : Script.Language}

namespace Builder

/-- What adding a piece keeps, when the piece is read from where the file has been read up to. -/
def Kept (language : Script.Language) (fileStop : Nat) (P : Builder → Stream → Prop) : Prop :=
  ∀ builder stream piece taken rest, P builder stream → piece.ReadFrom language stream taken rest → stream.offset < rest.offset →
    P (builder.add fileStop piece) rest

/-- Raw content that is empty leaves the tree as it is. -/
theorem add_raw_empty (builder : Builder) (fileStop offset : Nat) :
    builder.add fileStop (.raw ⟨offset, offset⟩) = builder := by
  simp [add, record, apply, Piece.tokens, Piece.problems, Token.spanning]

section Run

variable (language : Script.Language) {fileStop : Nat} {P : Builder → Stream → Prop}

theorem advance_of_added (hP : Kept language fileStop P) {builder : Builder} {stream : Stream}
    (h : P (builder.add fileStop (readPiece (builder.surroundings language) stream).1)
      (readPiece (builder.surroundings language) stream).2) :
    P (advance language fileStop builder stream).1 (advance language fileStop builder stream).2 := by
  unfold advance
  generalize readPiece (builder.surroundings language) stream = read at h ⊢
  obtain ⟨piece, after⟩ := read
  dsimp only
  split
  · rename_i name _
    obtain ⟨taken', hraw⟩ := readRaw_readFrom language name after
    have hspan : (readRaw name after).1 = .raw ⟨after.offset, (readRaw name after).2.offset⟩ := rfl
    rcases Nat.lt_or_eq_of_le hraw.reads.offset_le with hlt' | heq
    · exact hP _ after _ taken' _ h hraw hlt'
    · rw [hspan, hraw.reads.eq_of_offset_eq heq, add_raw_empty]
      exact h
  · exact h

/-- What every piece keeps holds after a step. -/
theorem advance_kept (hP : Kept language fileStop P) {builder : Builder} {stream : Stream} (h : P builder stream)
    (hne : stream.chars ≠ []) : P (advance language fileStop builder stream).1 (advance language fileStop builder stream).2 := by
  obtain ⟨hlt, taken, hread⟩ := readPiece_readFrom (builder.surroundings language) hne
  exact advance_of_added language hP (hP builder stream _ taken _ h hread hlt)

/-- What every piece keeps holds at the end of every run. -/
theorem run_kept (hP : Kept language fileStop P) (fuel : Nat) {builder : Builder} {stream : Stream} (h : P builder stream) :
    P (run language fileStop fuel builder stream).1 (run language fileStop fuel builder stream).2 := by
  induction fuel generalizing builder stream with
  | zero => exact h
  | succ fuel ih =>
    unfold run
    split
    · exact h
    · rename_i hne
      exact ih (advance_kept language hP h (by simpa using hne))

/-- A step takes at least one character. -/
theorem advance_length_lt (fileStop : Nat) (builder : Builder) {stream : Stream} (hne : stream.chars ≠ []) :
    (advance language fileStop builder stream).2.chars.length < stream.chars.length := by
  obtain ⟨hlt, taken, hread⟩ := readPiece_readFrom (builder.surroundings language) hne
  have hfirst := hread.reads.length_lt hlt
  unfold advance
  generalize readPiece (builder.surroundings language) stream = read at hfirst ⊢
  obtain ⟨piece, after⟩ := read
  dsimp only at hfirst ⊢
  split
  · rename_i name _
    obtain ⟨taken', hraw⟩ := readRaw_readFrom language name after
    have := hraw.reads.length
    dsimp only
    omega
  · exact hfirst

/-- A run with as much fuel as there are characters reaches the end of the file. -/
theorem run_end (fileStop : Nat) (fuel : Nat) (builder : Builder) (stream : Stream) (hfuel : stream.chars.length ≤ fuel) :
    (run language fileStop fuel builder stream).2.chars = [] := by
  induction fuel generalizing builder stream with
  | zero => exact List.eq_nil_of_length_eq_zero (Nat.le_zero.1 hfuel)
  | succ fuel ih =>
    unfold run
    split
    · rename_i hnil
      exact List.isEmpty_iff.1 hnil
    · rename_i hne
      have hlt := advance_length_lt language fileStop builder (by simpa using hne)
      exact ih _ _ (Nat.le_of_lt_succ (Nat.lt_of_lt_of_le hlt hfuel))

end Run

/-- The stream at the end of a run is what is left of the file. -/
theorem kept_reads (source : Stream) (fileStop : Nat) : Kept language fileStop fun _ stream => ∃ taken,
    source.Reads taken stream := by
  rintro builder stream piece taken rest ⟨before, hbefore⟩ hread _
  exact ⟨before ++ taken, hbefore.trans hread.reads⟩

/-- The tree and what is left of a file after a number of steps. -/
def reading (language : Script.Language) (source : List Char) (steps : Nat) : Builder × Stream :=
  run language (byteLength source) steps (start (byteLength source)) ⟨0, source⟩

/-- As many steps as a file has characters read it to its end. -/
theorem reading_end (language : Script.Language) (source : List Char) :
    (reading language source source.length).2 = ⟨byteLength source, []⟩ := by
  obtain ⟨taken, hread⟩ : ∃ taken, Stream.Reads ⟨0, source⟩ taken (reading language source source.length).2 :=
    run_kept language (kept_reads ⟨0, source⟩ (byteLength source)) source.length ⟨[], Stream.Reads.refl _⟩
  have hend := run_end language (byteLength source) source.length (start (byteLength source)) ⟨0, source⟩ (Nat.le_refl _)
  rw [reading] at hread ⊢
  generalize (run language (byteLength source) source.length (start (byteLength source)) ⟨0, source⟩).2 = rest at hread hend ⊢
  have hchars := hread.chars
  have hoffset := hread.offset
  rw [hend, List.append_nil] at hchars
  cases rest
  simp_all

/-! ## The tree -/

/-- Closing nodes changes nothing but nodes. -/
theorem foldl_closeAt (offset : Nat) (ids : List Nat) (builder : Builder) :
    ids.foldl (closeAt offset) builder =
      { builder with nodes := ids.foldl (fun nodes id => nodes.modify id (Node.shut offset)) builder.nodes } := by
  induction ids generalizing builder with
  | nil => rfl
  | cons id ids ih =>
    rw [List.foldl_cons, ih]
    rfl

/-- The innermost open nodes can be closed one after the other. -/
theorem foldl_shut_standing {fileStop pos : Nat} {nodes : Array Node} {inner : List Nat} {first : Nat} {rest : List Nat}
    (h : Standing fileStop nodes (inner ++ first :: rest) pos) :
    Standing fileStop (inner.foldl (fun nodes id => nodes.modify id (Node.shut pos)) nodes) (first :: rest) pos := by
  induction inner generalizing nodes with
  | nil => exact h
  | cons id inner ih =>
    rw [List.foldl_cons]
    apply ih
    cases inner with
    | nil => exact h.closeInner
    | cons next inner => exact h.closeInner

theorem element?_eq_some_iff {builder : Builder} {id : Nat} {element : Element} :
    builder.element? id = some element ↔ ∃ node, builder.nodes[id]? = some node ∧ node.kind = .element element := by
  unfold element?
  split
  · rename_i hnode
    simp [hnode]
  · rename_i hno
    refine ⟨fun h => (by cases h), ?_⟩
    rintro ⟨⟨number, parent, children, span, kind⟩, hnode, rfl⟩
    exact (hno _ _ _ _ _ hnode).elim

/-- A node that an end tag closes is an element of its name. -/
theorem closes_iff {builder : Builder} {name : List Char} {id : Nat} :
    builder.closes name id = true ↔ ∃ node element, builder.nodes[id]? = some node ∧ node.kind = .element element ∧
      eqIgnoreAsciiCase element.rawName.toList name = true := by
  unfold closes
  constructor
  · intro h
    split at h
    · rename_i element helement
      obtain ⟨node, hnode, hk⟩ := element?_eq_some_iff.1 helement
      exact ⟨node, element, hnode, hk, h⟩
    · cases h
  · rintro ⟨node, element, hnode, hk, heq⟩
    rw [element?_eq_some_iff.2 ⟨node, hnode, hk⟩]
    exact heq

/-- No end tag closes the root, so an element that an end tag closes is not the last of the stack. -/
theorem closes_ne_zero {builder : Builder} {stack : List Nat} (h : Shaped builder.nodes stack) {name : List Char} {id : Nat}
    (hcloses : builder.closes name id = true) : id ≠ 0 := by
  rintro rfl
  obtain ⟨root, hroot, hk, _⟩ := h.root
  obtain ⟨node, element, hnode, hk', _⟩ := closes_iff.1 hcloses
  rw [hroot] at hnode
  cases hnode
  rw [hk] at hk'
  cases hk'

/-- The first open node that passes the search for an element of a name is one of that name. -/
theorem closes_of_dropWhile {builder : Builder} {name : List Char} {matched : Nat} {outer : List Nat}
    (h : (builder.stack.dropWhile fun id => !builder.closes name id) = matched :: outer) :
    builder.closes name matched = true ∧ matched ∈ builder.stack := by
  refine ⟨?_, ?_⟩
  · have := List.head?_dropWhile_not (p := fun id => !builder.closes name id) (l := builder.stack)
    simpa [h] using this
  · exact (List.dropWhile_suffix _).subset (h ▸ List.mem_cons_self)

/-- An end tag keeps the tree standing: it closes the nearest element of its name, or nothing. -/
theorem endElement_standing {fileStop : Nat} (builder : Builder) {span : Span}
    (h : Standing fileStop builder.nodes builder.stack span.start) (hspan : span.start < span.stop) (name : List Char) :
    Standing fileStop (builder.endElement name span).nodes (builder.endElement name span).stack span.stop := by
  have hstack := List.takeWhile_append_dropWhile (p := fun id => !builder.closes name id) (l := builder.stack)
  unfold endElement
  dsimp only
  split
  · rename_i matched outer hdrop
    have hne : matched ≠ 0 := closes_ne_zero h.shaped (closes_of_dropWhile hdrop).1
    rw [foldl_closeAt]
    rw [hdrop] at hstack
    rw [← hstack] at h
    have hinner := foldl_shut_standing h
    cases outer with
    | nil => exact absurd hinner.shaped.chain hne
    | cons above rest => exact hinner.closeTagged rfl hspan
  · exact ⟨h.shaped, h.placed.weaken (Nat.le_of_lt hspan)⟩

/-- The element of a start tag lies where the tag does, and has no end tag. -/
theorem elementOf_fits (builder : Builder) {tag : ReadTag} (hne : tag.start < tag.stop)
    (horder : InOrder tag.start tag.stop (tag.attributes.map (·.attr.span))) :
    (builder.elementOf tag).Fits ⟨tag.start, tag.stop⟩ := by
  refine ⟨⟨rfl, hne, Nat.le_refl _⟩, ?_, ?_⟩
  · rw [Element.attributes, elementOf, List.map_map]
    exact horder
  · intro endTag hend
    cases hend

/-- A start tag keeps the tree standing: its element is added and may stay open. -/
theorem startElement_standing {fileStop : Nat} {builder : Builder} {element : Element} {span : Span}
    (h : Standing fileStop builder.nodes builder.stack span.start) (htag : element.startTag.span = span)
    (hspan : span.start < span.stop) (hfits : element.Fits span) (hopen : element.endTag = none) :
    Standing fileStop (builder.startElement element).nodes (builder.startElement element).stack span.stop := by
  have hnode : ∀ id parent children, Node.Fits ⟨id, parent, children, span, .element element⟩ :=
    fun _ _ _ => ⟨hspan, fun _ hk => by cases hk; exact hfits⟩
  have hgrown := h.grow (by simp) rfl hnode
  unfold startElement
  dsimp only
  rw [htag]
  split
  · exact hgrown
  · have hlast : (grow builder.nodes (builder.stack.headD 0) span (.element element))[builder.nodes.size]? = _ :=
      grow_new h.shaped.current_lt
    have hpush := hgrown.push (by rw [size_grow, Nat.add_sub_cancel]; exact hlast) rfl rfl hopen
    rwa [size_grow, Nat.add_sub_cancel] at hpush

/-- Adding a piece keeps the tree standing. -/
theorem kept_standing (fileStop : Nat) :
    Kept language fileStop fun builder stream => Standing fileStop builder.nodes builder.stack stream.offset := by
  intro builder stream piece taken rest h hread hlt
  have hspan := hread.span
  have hleaf : ∀ (span : Span) (kind : NodeKind), span = ⟨stream.offset, rest.offset⟩ → kind ≠ .root →
      (∀ element, kind ≠ .element element) →
      Standing fileStop (builder.push span kind).nodes (builder.push span kind).stack rest.offset := by
    rintro span kind rfl hroot hkind
    exact h.grow hroot rfl fun _ _ _ => ⟨hlt, fun element hk => absurd hk (hkind element)⟩
  cases piece with
  | comment span closed => exact hleaf span .comment hspan (by simp) (by simp)
  | text start chars => exact hleaf _ .text hspan (by simp) (by simp)
  | interpolation content inner => exact hleaf _ (.interpolation content) hspan (by simp) (by simp)
  | endTag name span close =>
    cases hspan
    exact endElement_standing (builder.record fileStop _) h hlt name
  | startTag tag =>
    obtain ⟨hstart, hstop⟩ := Span.mk.inj hspan
    have hne : tag.start < tag.stop := by omega
    have hrecorded : Standing fileStop (builder.record fileStop (.startTag tag)).nodes builder.stack tag.start := hstart ▸ h
    rw [← hstop]
    exact startElement_standing hrecorded rfl hne (elementOf_fits _ hne hread.form) rfl
  | raw span =>
    have hif : span.start < span.stop := by
      rw [show span = _ from hspan]
      exact hlt
    rw [add, apply, if_pos hif]
    exact hleaf span .text hspan (by simp) (by simp)

/-- Closing nodes up to one of the open ones keeps the shape of the tree. -/
theorem foldl_shut_shaped {nodes : Array Node} {inner : List Nat} {first : Nat} {rest : List Nat} (stop : Nat)
    (h : Shaped nodes (inner ++ first :: rest)) :
    Shaped (inner.foldl (fun nodes id => nodes.modify id (Node.shut stop)) nodes) (first :: rest) := by
  induction inner generalizing nodes with
  | nil => exact h
  | cons id inner ih =>
    rw [List.foldl_cons]
    have hshut := h.modify id (Node.keepsShape_shut stop)
    apply ih
    cases inner with
    | nil => exact hshut.pop
    | cons next inner => exact hshut.pop

theorem endElement_shaped {builder : Builder} (h : Shaped builder.nodes builder.stack) (name : List Char) (span : Span) :
    Shaped (builder.endElement name span).nodes (builder.endElement name span).stack := by
  have hstack := List.takeWhile_append_dropWhile (p := fun id => !builder.closes name id) (l := builder.stack)
  unfold endElement
  dsimp only
  split
  · rename_i matched outer hdrop
    have hne : matched ≠ 0 := closes_ne_zero h (closes_of_dropWhile hdrop).1
    rw [foldl_closeAt]
    rw [hdrop] at hstack
    rw [← hstack] at h
    have hinner := foldl_shut_shaped span.start h
    cases outer with
    | nil => exact absurd hinner.chain hne
    | cons above rest => exact (hinner.modify matched (Node.keepsShape_shutWith span)).pop
  · exact h

theorem startElement_shaped {builder : Builder} (h : Shaped builder.nodes builder.stack) (element : Element) :
    Shaped (builder.startElement element).nodes (builder.startElement element).stack := by
  have hgrown : Shaped (grow builder.nodes (builder.stack.headD 0) element.startTag.span (.element element)) builder.stack :=
    h.grow (by simp)
  unfold startElement
  dsimp only
  split
  · exact hgrown
  · have hlast : (grow builder.nodes (builder.stack.headD 0) element.startTag.span (.element element))[builder.nodes.size]? = _ :=
      grow_new h.current_lt
    have hpush := hgrown.push (by rw [size_grow, Nat.add_sub_cancel]; exact hlast) rfl rfl
    rwa [size_grow, Nat.add_sub_cancel] at hpush

/-- Every piece keeps the shape of the tree, wherever it stands. -/
theorem add_shaped {builder : Builder} (h : Shaped builder.nodes builder.stack) (fileStop : Nat) (piece : Piece) :
    Shaped (builder.add fileStop piece).nodes (builder.add fileStop piece).stack := by
  have hrecorded : Shaped (builder.record fileStop piece).nodes (builder.record fileStop piece).stack := h
  cases piece with
  | comment | text | interpolation => exact hrecorded.grow (by simp)
  | endTag name span close => exact endElement_shaped hrecorded name span
  | startTag tag => exact startElement_shaped hrecorded _
  | raw span =>
    rw [add, apply]
    split
    · exact hrecorded.grow (by simp)
    · exact hrecorded

theorem advance_shaped {builder : Builder} (h : Shaped builder.nodes builder.stack) (language : Script.Language) (fileStop : Nat)
    (stream : Stream) :
    Shaped (advance language fileStop builder stream).1.nodes (advance language fileStop builder stream).1.stack := by
  unfold advance
  dsimp only
  split
  · exact add_shaped (add_shaped h fileStop _) fileStop _
  · exact add_shaped h fileStop _

/-- A file before its first piece is a root. -/
theorem start_nodes {fileStop id : Nat} {node : Node} (h : (start fileStop).nodes[id]? = some node) :
    id = 0 ∧ node = ⟨0, none, #[], ⟨0, fileStop⟩, .root⟩ := by
  cases id with
  | zero => exact ⟨rfl, (Option.some.inj h).symm⟩
  | succ id => simp [start] at h

theorem start_standing (fileStop : Nat) : Standing fileStop (start fileStop).nodes (start fileStop).stack 0 := by
  have hparent : ∀ id, parentOf (start fileStop).nodes id = none := by
    intro id
    cases hnode : (start fileStop).nodes[id]? with
    | none => simp [parentOf, hnode]
    | some node => simp [parentOf, hnode, (start_nodes hnode).2]
  refine ⟨⟨⟨_, rfl, rfl, rfl⟩, ?_, ?_, ?_, rfl, ?_, Above.refl, ?_⟩, ?_, ?_, ?_, ?_, ?_⟩
  · intro id node hnode hpos
    exact absurd (start_nodes hnode).1 (Nat.ne_of_gt hpos)
  · intro id node hnode
    obtain ⟨rfl, rfl⟩ := start_nodes hnode
    rfl
  · intro id node hnode
    obtain ⟨rfl, rfl⟩ := start_nodes hnode
    simp [hparent]
  · intro id _ node hnode
    obtain ⟨rfl, rfl⟩ := start_nodes hnode
    rfl
  · intro above id between hlt habove _ hle
    have hid : id = 0 := Nat.lt_one_iff.1 hlt
    subst hid
    rw [Nat.le_zero.1 hle]
    exact habove
  · intro node hnode
    obtain ⟨_, rfl⟩ := start_nodes hnode
    exact ⟨rfl, rfl⟩
  · intro id node hpos hnode
    exact absurd (start_nodes hnode).1 (Nat.ne_of_gt hpos)
  · intro id _ node element hnode hk
    obtain ⟨_, rfl⟩ := start_nodes hnode
    cases hk
  · intro id parent node above hnode hp _
    obtain ⟨_, rfl⟩ := start_nodes hnode
    cases hp
  · intro i j first second hij hfirst hsecond
    have hj := (start_nodes hsecond).1
    omega

/-- The tree stands after any number of steps. -/
theorem reading_standing (language : Script.Language) (source : List Char) (steps : Nat) :
    Standing (byteLength source) (reading language source steps).1.nodes (reading language source steps).1.stack
      (reading language source steps).2.offset :=
  run_kept language (kept_standing (byteLength source)) steps (start_standing (byteLength source))

/-- Closing what is open at the end of the file leaves only the root open. -/
theorem finish_standing {fileStop : Nat} {builder : Builder} (h : Standing fileStop builder.nodes builder.stack fileStop) :
    Standing fileStop (builder.finish fileStop).nodes [0] fileStop := by
  have hstack : builder.stack.dropLast ++ [0] = builder.stack :=
    List.dropLast_append_getLast? 0 h.shaped.chain.getLast?
  rw [finish, foldl_closeAt]
  rw [← hstack] at h
  exact foldl_shut_standing h

/-- Closing what is open at the end of the file gives no token and no problem. -/
theorem finish_eq (fileStop : Nat) (builder : Builder) :
    builder.finish fileStop = { builder with nodes := (builder.finish fileStop).nodes } := by
  rw [finish, foldl_closeAt]

end Builder

/-- The tree of a file is the one that stands when it has been read to its end, with what is open closed. -/
theorem parse_eq (language : Script.Language) (source : List Char) :
    parse language source =
      (⟨source, ((Builder.reading language source source.length).1.finish (byteLength source)).nodes,
        (Builder.reading language source source.length).1.tokens⟩,
       (Builder.reading language source source.length).1.problems.toList) := by
  rw [parse, Builder.finish_eq]
  rfl

/-- The tree of every file stands, with only its root open. -/
theorem parse_standing (language : Script.Language) (source : List Char) :
    Standing (byteLength source) (parse language source).1.nodes [0] (byteLength source) := by
  have hread := Builder.reading_standing language source source.length
  rw [Builder.reading_end] at hread
  rw [parse_eq]
  exact Builder.finish_standing hread

theorem parse_shaped (language : Script.Language) (source : List Char) : Shaped (parse language source).1.nodes [0] :=
  (parse_standing language source).shaped

theorem Document.element?_eq_some_iff {document : Document} {id : Nat} {element : Element} :
    document.element? id = some element ↔ ∃ node, document.nodes[id]? = some node ∧ node.kind = .element element :=
  @Builder.element?_eq_some_iff ⟨document.nodes, #[], [], #[]⟩ id element

end ComponentLint.Markup
