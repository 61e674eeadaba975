import ComponentLint.Proofs.Markup.Lossless
import ComponentLint.Proofs.Text.Positions

/-!
# Where the parts of a tree stand

Every span of a tree is one of the text that was read: those of nodes, tags and attributes, and those of the parts of keys.
`WrittenIn` says so of each of them, together with what else places in the text are computed from: a modifier that is
written stands behind a mark of one byte, and what a value says is read from a part of the text. All of it is read off the
pieces (`Piece.ReadFrom`) and kept while the tree is built.
-/

namespace ComponentLint.Markup

open Text

/-! ## Keys -/

/-- Whether the byte before an offset is a character. -/
def BehindByte (source : List Char) (offset : Nat) : Prop :=
  1 ≤ offset ∧ isBoundary source (offset - 1) = true

/-- What follows a character of one byte stands behind it. -/
theorem BehindByte.of_char {source : List Char} {c : Char} {offset : Nat} {rest : List Char}
    (h : Stands source offset (c :: rest))
    (hc : c.utf8Size = 1) : BehindByte source (offset + 1) ∧ Stands source (offset + 1) rest := by
  have hrest : Stands source (offset + byteLength [c]) rest := Stands.rear (a := [c]) h
  rw [byteLength_cons, byteLength_nil, hc] at hrest
  exact ⟨⟨Nat.le_add_left _ _, h.start⟩, hrest⟩

/-- A key of a directive that is written in a text. -/
structure DirectiveKey.WrittenIn (source : List Char) (key : DirectiveKey) : Prop where
  span : key.span.InText source
  argument : ∀ argument, key.argument = some argument →
    argument.span.InText source ∧ key.span.start ≤ argument.span.start
  /-- A modifier that is not implied stands behind a mark. -/
  modifiers : ∀ modifier ∈ key.modifiers, modifier.span.InText source ∧
    (modifier.span.start ≠ modifier.span.stop → BehindByte source modifier.span.start)

namespace Key

variable {source : List Char}

/-- The parts between dots, when a mark stands before the first. -/
theorem dotted_behind {offset : Nat} (part : List Char) {chars : List Char} (h : Stands source offset (part.reverse ++ chars))
    (hbehind : BehindByte source offset) :
    ∀ name ∈ dotted offset part chars, name.span.InText source ∧ BehindByte source name.span.start := by
  have hending : ∀ name ∈ dotted.ending offset part, name.span.InText source ∧ BehindByte source name.span.start := by
    intro name hname
    unfold dotted.ending at hname
    split at hname
    · cases hname
    · rw [List.mem_singleton.1 hname]
      exact ⟨h.front.span, hbehind⟩
  induction chars generalizing offset part with
  | nil => exact hending
  | cons c rest ih =>
    unfold dotted
    split
    · next hc =>
      intro name hname
      rcases List.mem_append.1 hname with hhere | hlater
      · exact hending name hhere
      · have hdot := h.rear
        rw [byteLength_reverse] at hdot
        obtain ⟨hnext, hrest⟩ := BehindByte.of_char hdot (by rw [eq_of_beq hc]; rfl)
        exact ih [] hrest hnext (by simp [dotted.ending]) name hlater
    · refine ih (c :: part) (by simpa using h) hbehind ?_
      intro name hname
      simp only [dotted.ending, List.isEmpty_cons, Bool.false_eq_true, if_false, List.mem_singleton] at hname
      rw [hname]
      have hall : Stands source offset ((c :: part).reverse ++ rest) := by simpa using h
      exact ⟨hall.front.span, hbehind⟩

/-- What follows an argument or a name: nothing, a dot, or what stands behind a bracket. -/
def DotsFrom (source : List Char) (offset : Nat) (text : List Char) : Prop :=
  Stands source offset text ∧ (text = [] ∨ text.head? = some '.' ∨ BehindByte source offset)

theorem DotsFrom.dotted {offset : Nat} {text : List Char} (h : DotsFrom source offset text) :
    ∀ name ∈ dotted offset [] text, name.span.InText source ∧ BehindByte source name.span.start := by
  obtain ⟨hstands, rfl | hdot | hbehind⟩ := h
  · simp [Key.dotted, dotted.ending]
  · cases text with
    | nil => cases hdot
    | cons c rest =>
      obtain rfl := Option.some.inj hdot
      obtain ⟨hnext, hrest⟩ := BehindByte.of_char hstands rfl
      simpa [Key.dotted, dotted.ending] using dotted_behind [] hrest hnext
  · exact dotted_behind [] hstands hbehind

/-- The text from the first dot on. -/
theorem DotsFrom.dropWhile {offset : Nat} {text : List Char} (h : Stands source offset text) (test : Char → Bool)
    (hhead : ∀ c, ((text.dropWhile test).head? = some c) → c = '.') :
    DotsFrom source (offset + byteLength (text.takeWhile test)) (text.dropWhile test) := by
  rw [← List.takeWhile_append_dropWhile (p := test) (l := text)] at h
  refine ⟨h.rear, ?_⟩
  cases hafter : text.dropWhile test with
  | nil => exact Or.inl rfl
  | cons c rest =>
    rw [hafter] at hhead
    exact Or.inr (Or.inl (congrArg some (hhead c rfl)))

/-- An argument starts where it is read, and what follows it is where it ends. -/
theorem readArgument_written {offset : Nat} {text : List Char} (h : Stands source offset text) :
    (∀ argument, (readArgument offset text).1 = some argument →
      argument.span.InText source ∧ offset ≤ argument.span.start) ∧
    DotsFrom source (readArgument offset text).2.1 (readArgument offset text).2.2 := by
  unfold readArgument
  split
  · next rest =>
    obtain ⟨-, hrest⟩ := BehindByte.of_char h rfl
    rw [← List.takeWhile_append_dropWhile (p := (· != ']')) (l := rest)] at hrest
    dsimp only
    split
    · next c after hafter =>
      have hc : c.utf8Size = 1 := by
        have := List.head?_dropWhile_not (p := (· != ']')) (l := rest)
        rw [hafter] at this
        have hc : c = ']' := by simpa using this
        rw [hc]
        rfl
      rw [hafter] at hrest
      obtain ⟨hbehind, hafter⟩ := BehindByte.of_char hrest.rear hc
      refine ⟨?_, hafter, Or.inr (Or.inr hbehind)⟩
      rintro argument ⟨⟩
      exact ⟨⟨by simp only [Argument.span]; omega, h.start, hafter.start⟩, Nat.le_refl _⟩
    · next hafter =>
      rw [hafter] at hrest
      refine ⟨?_, hrest.rear, Or.inl rfl⟩
      rintro argument ⟨⟩
      exact ⟨⟨by simp only [Argument.span]; omega, h.start, hrest.rear.start⟩, Nat.le_refl _⟩
  · have hdots := DotsFrom.dropWhile h (· != '.') fun c hc => by
      have := List.head?_dropWhile_not (p := (· != '.')) (l := text)
      simpa [hc] using this
    refine ⟨?_, hdots⟩
    intro argument hargument
    dsimp only at hargument
    split at hargument
    · cases hargument
    · obtain rfl := Option.some.inj hargument
      rw [← List.takeWhile_append_dropWhile (p := (· != '.')) (l := text)] at h
      exact ⟨h.front.span, Nat.le_refl _⟩

theorem directiveFrom_written {whole : Span} (hwhole : whole.InText source) {offset : Nat} (hle : whole.start ≤ offset)
    (name : Name) (shorthand : Option Char) {hasArgument : Bool} {text : List Char} (h : Stands source offset text)
    (hdots : hasArgument = false → DotsFrom source offset text) :
    (directiveFrom whole name shorthand hasArgument offset text).WrittenIn source := by
  obtain ⟨hargument, hrest⟩ := readArgument_written h
  have himplied : ∀ modifier ∈ (if shorthand == some '.' then [(⟨"prop", ⟨whole.start, whole.start⟩⟩ : Name)] else []),
      modifier.span.InText source ∧ (modifier.span.start ≠ modifier.span.stop → BehindByte source modifier.span.start) := by
    intro modifier hmodifier
    split at hmodifier
    · rw [List.mem_singleton.1 hmodifier]
      exact ⟨.empty hwhole.start, fun hne => absurd rfl hne⟩
    · cases hmodifier
  cases hasArgument with
  | true =>
    refine ⟨hwhole, fun argument ha => ?_, fun modifier hmodifier => ?_⟩
    · obtain ⟨hspan, hstart⟩ := hargument argument ha
      exact ⟨hspan, Nat.le_trans hle hstart⟩
    · rcases List.mem_append.1 hmodifier with hprop | hmodifier
      · exact himplied modifier hprop
      · exact (hrest.dotted modifier hmodifier).imp_right fun hbehind _ => hbehind
  | false =>
    refine ⟨hwhole, nofun, fun modifier hmodifier => ?_⟩
    rcases List.mem_append.1 hmodifier with hprop | hmodifier
    · exact himplied modifier hprop
    · exact ((hdots rfl).dotted modifier hmodifier).imp_right fun hbehind _ => hbehind

/-- The mark of a directive takes one byte. -/
theorem utf8Size_of_shorthandName? {mark : Char} {name : String} (h : shorthandName? mark = some name) : mark.utf8Size = 1 := by
  unfold shorthandName? at h
  split at h
  · rfl
  · rfl
  · rfl
  · rfl
  · nomatch h

/-- The key of a directive is written where its name is. -/
theorem parse_written {start : Nat} {text : List Char} (h : Stands source start text) (topLevel : Bool)
    {key : DirectiveKey} (hkey : parse text start topLevel = .directive key) : key.WrittenIn source := by
  have hwhole := h.span
  unfold parse at hkey
  dsimp only at hkey
  split at hkey
  · nomatch hkey
  · split at hkey
    · next rest _ =>
      obtain rfl := Key.directive.inj hkey
      have hrest : Stands source (start + 2) rest := Stands.rear (a := ['v', '-']) h
      unfold writtenDirective
      dsimp only
      have hsplit := hrest
      rw [← List.takeWhile_append_dropWhile (p := fun c => c != ':' && c != '.') (l := rest)] at hsplit
      have hafter := hsplit.rear
      split
      · next after hdrop =>
        rw [hdrop] at hafter
        obtain ⟨-, hargument⟩ := BehindByte.of_char hafter rfl
        exact directiveFrom_written hwhole (by simp only; omega) _ _ hargument nofun
      · next hcolon =>
        refine directiveFrom_written hwhole (by simp only; omega) _ _ hafter fun _ => ?_
        refine DotsFrom.dropWhile hrest _ fun c hc => ?_
        have hnot := List.head?_dropWhile_not (p := fun c => c != ':' && c != '.') (l := rest)
        rw [hc] at hnot
        cases hdrop : rest.dropWhile fun c => c != ':' && c != '.' with
        | nil => simp [hdrop] at hc
        | cons d after =>
          obtain rfl : d = c := by simpa [hdrop] using hc
          have hne : d ≠ ':' := fun heq => hcolon after (heq ▸ hdrop)
          simpa [hne] using hnot
    · next mark rest _ =>
      split at hkey
      · next name hname =>
        obtain rfl := Key.directive.inj hkey
        obtain ⟨-, hrest⟩ := BehindByte.of_char h (utf8Size_of_shorthandName? hname)
        exact directiveFrom_written hwhole (Nat.le_add_right _ _) _ _ hrest nofun
      · nomatch hkey
    · nomatch hkey

end Key

/-! ## Attributes, elements and interpolations -/

/-- An attribute that is written in a text; what its value says is read from where the value stands. -/
structure Attribute.WrittenIn (language : Script.Language) (source : List Char) (attr : Attribute) : Prop where
  span : attr.span.InText source
  key : ∀ key, attr.directive? = some key → key.WrittenIn source
  value : ∀ value, attr.value = some value → Stands source value.valueSpan.start value.raw.toList ∧ attr.Says language value

/-- An element whose tags are written in a text. -/
structure Element.WrittenIn (language : Script.Language) (source : List Char) (element : Element) : Prop where
  startTag : element.startTag.span.InText source
  selfClosing : element.startTag.selfClosing = true → 2 ≤ element.startTag.span.stop
  attributes : ∀ attr ∈ element.attributes, attr.WrittenIn language source
  endTag : ∀ tag, element.endTag = some tag → tag.InText source

/-- An interpolation that is written in a text; its expression is read from what stands between its braces. -/
structure Interpolation.WrittenIn (language : Script.Language) (source : List Char) (content : Interpolation) : Prop where
  opening : content.opening.InText source
  closing : content.closing.InText source
  ordered : content.opening.stop ≤ content.closing.start
  expression : content.expression = Fragment.expression? language content.opening.stop
    (slice source ⟨content.opening.stop, content.closing.start⟩)

/-- What a node is, written in a text. -/
def NodeKind.WrittenIn (language : Script.Language) (source : List Char) : NodeKind → Prop
  | .element found => found.WrittenIn language source
  | .interpolation content => content.WrittenIn language source
  | _ => True

section Reading

variable {language : Script.Language} {source : List Char} {stream : Stream}

/-- The text of a value stands between its quotes, or where the value does if it has none. -/
theorem AttributeValue.StandsAt.stands (hstream : Stream.Before ⟨0, source⟩ stream) {value : AttributeValue}
    (h : value.StandsAt stream) : Stands source value.valueSpan.start value.raw.toList := by
  cases h with
  | bare hreads _ hspan hvalue hraw =>
    rw [hvalue, hspan, hraw, String.toList_ofList]
    exact hstream.stands hreads
  | quoted _ hopen hinner _ _ hvalue hraw =>
    rw [hvalue, hraw, String.toList_ofList]
    exact (hstream.trans hopen.before).stands hinner

theorem ReadAttribute.LaidFrom.written {read : ReadAttribute} (hstream : Stream.Before ⟨0, source⟩ stream)
    (hlaid : read.LaidFrom language stream) (h : read.attr.ReadFrom stream) : read.attr.WrittenIn language source := by
  refine ⟨?_, fun key hkey => ?_, fun value hvalue => ?_⟩
  · obtain ⟨rest, hrest, hspan⟩ := h.span
    rw [hspan]
    exact hstream.inText hrest
  · obtain ⟨name, topLevel, rest, hreads, heq⟩ := h.key
    unfold Attribute.directive? Key.directive? at hkey
    split at hkey
    · next found hfound =>
      obtain rfl := Option.some.inj hkey
      exact Key.parse_written (hstream.stands hreads) topLevel (heq.symm.trans hfound)
    · nomatch hkey
  · cases hlaid with
    | plain _ _ _ _ hnone =>
      rw [hvalue] at hnone
      cases hnone
    | valued hname _ _ hbefore hsign _ hafter hfound hstands _ hmeaning =>
      obtain rfl := Option.some.inj (hvalue.symm.trans hfound)
      have hplace := (((hstream.trans hname.before).trans hbefore).trans hsign.before).trans hafter
      exact ⟨hstands.stands hplace, hmeaning⟩

/-- A self-closing tag has a name and two more characters. -/
theorem Piece.ReadFrom.two_le_stop {tag : ReadTag} {taken : List Char} {rest : Stream}
    (h : (Piece.startTag tag).ReadFrom language stream taken rest) (hending : tag.ending = .selfClosing) : 2 ≤ tag.stop := by
  have hpairs := h.tiling.pairwise
  have hopen : (⟨.tagOpen, ⟨tag.start, tag.start + 1 + byteLength tag.rawName⟩⟩ : Token) ∈
      Token.spanning .tagOpen tag.start (tag.start + 1 + byteLength tag.rawName) := by
    rw [Token.spanning, if_pos (by omega)]
    exact List.mem_singleton_self _
  have hclose : (⟨.tagSelfClose, ⟨tag.stop - 2, tag.stop⟩⟩ : Token) ∈ tag.ending.tokens tag.stop := by
    rw [hending]
    exact List.mem_singleton_self _
  have hle := (List.pairwise_append.1 hpairs).2.2 _ (List.mem_append_left _ hopen) _ hclose
  dsimp only at hle
  omega

/-- The node that a piece adds is written where the piece is read. -/
theorem Piece.ReadFrom.written {piece : Piece} {taken : List Char} {rest : Stream}
    (hstream : Stream.Before ⟨0, source⟩ stream) (h : piece.ReadFrom language stream taken rest) {kind : NodeKind}
    (hadds : piece.Adds kind) : kind.WrittenIn language source := by
  cases piece with
  | startTag tag =>
    obtain ⟨element, rfl, ⟨hspan, hclosing⟩, hattrs, hopen, _⟩ := hadds
    refine ⟨?_, fun hself => ?_, fun attr hattr => ?_, fun tag htag => ?_⟩
    · rw [hspan, show (⟨tag.start, tag.stop⟩ : Span) = _ from h.span]
      exact hstream.inText h.reads.before
    · rw [hspan]
      exact h.two_le_stop (eq_of_beq (hclosing.symm.trans hself))
    · rw [hattrs] at hattr
      obtain ⟨read, hread, rfl⟩ := List.mem_map.1 hattr
      obtain ⟨here, hhere, hfrom, hlaid⟩ := h.parts.attributes read hread
      exact hlaid.written (hstream.trans hhere) hfrom
    · rw [hopen] at htag
      cases htag
  | endTag => exact hadds.elim
  | interpolation content inner =>
    obtain rfl : kind = .interpolation content := hadds
    obtain ⟨here, close, hopen, hinner, hopening, hclosing, hexpression⟩ := h.parts
    have hhere := hstream.trans hopen.before
    have hend : content.closing.stop = rest.offset := congrArg Span.stop h.span
    have hstop := (hstream.trans h.reads.before).isBoundary
    have hcloseAt := (hhere.trans hinner.before).isBoundary
    refine ⟨?_, ?_, ?_, ?_⟩
    · rw [hopening]
      exact hstream.inText hopen.before
    · rw [← hend] at hstop
      rw [hclosing] at hstop ⊢
      exact ⟨Nat.le_add_right _ _, hcloseAt, hstop⟩
    · rw [hopening, hclosing]
      exact hinner.offset_le
    · obtain ⟨before, hbefore⟩ := hhere
      rw [hexpression, hopening, hclosing, hbefore.slice hinner]
  | comment span closed =>
    obtain rfl : kind = .comment := hadds
    trivial
  | text start chars =>
    obtain rfl : kind = .text := hadds
    trivial
  | raw span =>
    obtain rfl : kind = .text := hadds
    trivial

end Reading

/-! ## The ends of nodes -/

/-- Whether the ends of every node have a property. -/
def EndsAt (P : Nat → Prop) (nodes : Array Node) : Prop :=
  ∀ (id : Nat) node, nodes[id]? = some node → P node.span.start ∧ P node.span.stop

namespace EndsAt

variable {P : Nat → Prop} {nodes : Array Node}

theorem grow (h : EndsAt P nodes) {above : Nat} (habove : above < nodes.size) {span : Span} (hstart : P span.start)
    (hstop : P span.stop) (kind : NodeKind) : EndsAt P (grow nodes above span kind) := by
  intro id node hnode
  rcases grow_like habove hnode with ⟨_, rfl⟩ | ⟨_, old, hold, hlike⟩
  · exact ⟨hstart, hstop⟩
  · rw [hlike.span]
    exact h id old hold

theorem modify (h : EndsAt P nodes) (id : Nat) {f : Node → Node}
    (hf : ∀ node, P node.span.start → P (f node).span.start ∧ P (f node).span.stop) : EndsAt P (nodes.modify id f) := by
  intro other node hnode
  obtain ⟨old, hold, rfl⟩ := modify_cases hnode
  split
  · exact hf old (h other old hold).1
  · exact h other old hold

theorem shut (h : EndsAt P nodes) {stop : Nat} (hstop : P stop) (ids : List Nat) :
    EndsAt P (ids.foldl (fun nodes id => nodes.modify id (Node.shut stop)) nodes) := by
  induction ids generalizing nodes with
  | nil => exact h
  | cons id ids ih => exact ih (h.modify id fun _ hstart => ⟨hstart, hstop⟩)

theorem shutWith (h : EndsAt P nodes) {tag : Span} (hstop : P tag.stop) (id : Nat) :
    EndsAt P (nodes.modify id (Node.shutWith tag)) := by
  refine h.modify id fun node hstart => ?_
  unfold Node.shutWith
  split <;> exact ⟨hstart, hstop⟩

end EndsAt

namespace Builder

/-- A piece leaves the ends of nodes where they are, or puts them at its own ends. -/
theorem add_endsAt {P : Nat → Prop} {builder : Builder} (fileStop : Nat) (piece : Piece)
    (hshaped : Shaped builder.nodes builder.stack) (h : EndsAt P builder.nodes) (hstart : P piece.span.start)
    (hstop : P piece.span.stop) : EndsAt P (builder.add fileStop piece).nodes := by
  have hpush := h.grow hshaped.current_lt hstart hstop
  cases piece with
  | comment span closed => exact hpush _
  | text start chars => exact hpush _
  | interpolation content inner => exact hpush _
  | startTag tag =>
    rw [add, apply, startElement]
    split <;> exact hpush _
  | raw span =>
    rw [add, apply]
    split
    · exact hpush _
    · exact h
  | endTag name span close =>
    rw [add, apply, endElement]
    dsimp only
    split
    · rw [foldl_closeAt]
      exact (h.shut hstart _).shutWith hstop _
    · exact h

/-- The nodes of a tree are written in the text after any number of steps, and end at positions of it. -/
theorem reading_written (language : Script.Language) (source : List Char) (steps : Nat) :
    (∀ (id : Nat) node, (reading language source steps).1.nodes[id]? = some node → node.kind.WrittenIn language source) ∧
      EndsAt (fun offset => isBoundary source offset = true) (reading language source steps).1.nodes := by
  have hwritten := (reading_steps language source (P := fun builder stream => Stream.Before ⟨0, source⟩ stream ∧
    ∀ (id : Nat) node, builder.nodes[id]? = some node → node.kind.WrittenIn language source) ⟨.refl _, ?_⟩ ?_ steps).2
  · refine ⟨hwritten, ?_⟩
    have hkept : Kept language (byteLength source) fun builder stream =>
        (Standing (byteLength source) builder.nodes builder.stack stream.offset ∧ Stream.Before ⟨0, source⟩ stream) ∧
          EndsAt (fun offset => isBoundary source offset = true) builder.nodes := by
      rintro builder stream piece taken rest ⟨⟨hstanding, hstream⟩, hends⟩ hread hlt
      have hrest := hstream.trans hread.reads.before
      refine ⟨⟨kept_standing _ builder stream piece taken rest hstanding hread hlt, hrest⟩, ?_⟩
      refine add_endsAt _ piece hstanding.shaped hends ?_ ?_
      · rw [hread.span]
        exact hstream.isBoundary
      · rw [hread.span]
        exact hrest.isBoundary
    refine (run_kept language hkept steps ⟨⟨start_standing _, .refl _⟩, ?_⟩).2
    intro id node hnode
    obtain ⟨_, rfl⟩ := start_nodes hnode
    simp
  · intro id node hnode
    obtain ⟨_, rfl⟩ := start_nodes hnode
    trivial
  · rintro builder stream piece taken rest ⟨hstream, h⟩ hread hsteps
    refine ⟨hstream.trans hread.reads.before, fun id node hnode => ?_⟩
    rcases hsteps.cases hnode with ⟨old, hold, hbecomes⟩ | ⟨_, hadds⟩
    · cases hbecomes with
      | same hkind _ =>
        rw [hkind]
        exact h id old hold
      | @tagged name span close element hpiece hkind _ _ hnew =>
        subst hpiece
        have hwritten := h id old hold
        rw [hkind] at hwritten
        rw [hnew]
        refine ⟨hwritten.startTag, hwritten.selfClosing, hwritten.attributes, ?_⟩
        rintro tag ⟨⟩
        rw [show span = _ from hread.span]
        exact hstream.inText hread.reads.before
    · exact hread.written hstream hadds

end Builder

/-! ## The whole tree -/

/-- A tree that is written in its text: its nodes with what they are, and its tokens, which are in order. -/
structure Document.Written (language : Script.Language) (document : Document) : Prop where
  span : ∀ (id : Nat) node, document.node? id = some node → node.span.InText document.source
  kind : ∀ (id : Nat) node, document.node? id = some node → node.kind.WrittenIn language document.source
  fits : ∀ (id : Nat) node element, document.node? id = some node → node.kind = .element element → element.Fits node.span
  tokens : ∀ token ∈ document.tokens.toList, token.span.InText document.source
  ordered : document.tokens.toList.Pairwise fun a b => a.span.stop ≤ b.span.start

theorem parse_written (language : Script.Language) (source : List Char) : (parse language source).1.Written language := by
  obtain ⟨htiling, -⟩ := parse_tiled language source
  obtain ⟨hkind, hends⟩ := Builder.reading_written language source source.length
  have hstanding := Builder.reading_standing language source source.length
  have hshaped := hstanding.shaped
  have hend := Builder.reading_end language source
  rw [hend] at hstanding
  have hfinished := Builder.finish_standing hstanding
  have hsource : (parse language source).1.source = source := rfl
  have hnodes : (parse language source).1.nodes =
      ((Builder.reading language source source.length).1.finish (byteLength source)).nodes := by
    rw [parse_eq]
  rw [← hnodes] at hfinished
  have hclosed : EndsAt (fun offset => isBoundary source offset = true) (parse language source).1.nodes := by
    rw [hnodes, Builder.finish, Builder.foldl_closeAt]
    exact hends.shut (isBoundary_byteLength source) _
  refine ⟨fun id node hnode => ?_, fun id node hnode => ?_, fun id node element hnode hk => ?_, fun token htoken => ?_,
    htiling.pairwise⟩
  · obtain ⟨hstart, hstop⟩ := hclosed id node hnode
    refine ⟨?_, hstart, hstop⟩
    rcases Nat.eq_zero_or_pos id with rfl | hid
    · rw [(hfinished.placed.root node hnode).2]
      exact Nat.zero_le _
    · exact Nat.le_of_lt (hfinished.placed.fits id node hid hnode).1.1
  · have hnode' := hnode
    rw [Document.node?, hnodes] at hnode'
    obtain ⟨old, hold, hsame, -⟩ := Builder.of_finish hshaped hnode'
    rw [hsame]
    exact hkind id old hold
  · rcases Nat.eq_zero_or_pos id with rfl | hid
    · rw [(hfinished.placed.root node hnode).1] at hk
      cases hk
    · exact (hfinished.placed.fits id node hid hnode).1.2 element hk
  · obtain ⟨hlt, -, hstart, hstop⟩ := htiling.inFile token htoken
    exact ⟨Nat.le_of_lt hlt, hstart, hstop⟩

end ComponentLint.Markup
