import ComponentLint.Proofs.Markup.ClosingMarks
import ComponentLint.Proofs.Markup.Editing

/-!
# Elements without content

An element without content is written as a single tag, or as a pair of tags with nothing but blanks between them. Both add the
same element to the tree and leave the same elements open behind it (`advance_single`, `walks_pair`); a pair may add a text too.
-/

namespace ComponentLint.Markup

open Text

/-! ## Blanks and end tags -/

theorem not_open_of_isSpace {c : Char} (h : isSpace c = true) : c ≠ '<' ∧ c ≠ '{' := by
  constructor <;> (rintro rfl; cases h)

/-- Blanks are text up to the next markup. -/
theorem textRun_blank {interpolates first : Bool} {blank rest : List Char} (hfirst : blank = [] → first = false)
    (hblank : ∀ c ∈ blank, isSpace c = true) (hrest : isMarkup rest = true) :
    textRun interpolates first (blank ++ rest) = (blank, rest) := by
  induction blank generalizing first with
  | nil =>
    rw [hfirst rfl, List.nil_append]
    cases rest with
    | nil => cases hrest
    | cons c rest => rw [textRun_cons, if_pos (by simp [stopsText, hrest])]
  | cons c blank ih =>
    obtain ⟨hc, hblanks⟩ := List.forall_mem_cons.1 hblank
    have hmarkup := isMarkup_cons (not_open_of_isSpace hc).1 (blank ++ rest)
    have hbrace : ['{', '{'].isPrefixOf (c :: (blank ++ rest)) = false := by
      have hne := (not_open_of_isSpace hc).2.symm
      simp [List.isPrefixOf, hne]
    have hinner := @ih false (fun _ => rfl) hblanks
    cases first with
    | false => rw [List.cons_append, textRun_cons, if_neg (by simp [stopsText, hmarkup, hbrace]), hinner]
    | true => rw [List.cons_append, textRun_first, if_neg (by simp [hbrace]), hinner]

theorem readPiece_blank {around : Surroundings} {blank rest : List Char} (offset : Nat) (hne : blank ≠ [])
    (hblank : ∀ c ∈ blank, isSpace c = true) (hrest : isMarkup rest = true) :
    readPiece around ⟨offset, blank ++ rest⟩ = (.text offset blank, ⟨offset + byteLength blank, rest⟩) := by
  have hrun : ∀ interpolates, textRun interpolates true (blank ++ rest) = (blank, rest) :=
    fun interpolates => textRun_blank (fun hnil => absurd hnil hne) hblank hrest
  obtain ⟨c, tail, rfl⟩ := List.exists_cons_of_ne_nil hne
  have hc := hblank c List.mem_cons_self
  have hbrace : (⟨offset, c :: tail ++ rest⟩ : Stream).startsWith "\x7b\x7b" = false := by
    have hne := (not_open_of_isSpace hc).2.symm
    simp [Stream.startsWith, List.isPrefixOf, hne]
  rw [readPiece_content around (isMarkup_cons (not_open_of_isSpace hc).1 _), readContent, hbrace]
  simp only [Bool.and_false, Bool.false_eq_true, if_false, readText]
  rw [hrun]
  rfl

theorem rawRun_blank {name blank rest : List Char} (hblank : ∀ c ∈ blank, isSpace c = true) (hrest : closesRaw name rest = true) :
    rawRun name (blank ++ rest) = (blank, rest) := by
  induction blank with
  | nil =>
    cases rest with
    | nil => cases hrest
    | cons c rest => rw [List.nil_append, rawRun, if_pos hrest]
  | cons c blank ih =>
    obtain ⟨hc, hblanks⟩ := List.forall_mem_cons.1 hblank
    have hopen : closesRaw name (c :: (blank ++ rest)) = false := by
      unfold closesRaw
      split
      · rename_i heq
        exact absurd (List.cons.inj heq).1 (not_open_of_isSpace hc).1
      · rfl
    rw [List.cons_append, rawRun, if_neg (by simp [hopen]), ih hblanks]

/-- The text of a whole end tag for elements of a name. -/
def WholeEndTag (name text : List Char) : Prop :=
  ∃ found blanks, text = '<' :: '/' :: (found ++ (blanks ++ ['>'])) ∧ eqIgnoreAsciiCase name found = true ∧
    ∀ c ∈ blanks, isAsciiSpace c = true

section EndTags

variable {name text : List Char}

theorem eqIgnoreAsciiCase_symm {a b : List Char} (h : eqIgnoreAsciiCase a b = true) : eqIgnoreAsciiCase b a = true := by
  rw [eqIgnoreAsciiCase, beq_iff_eq] at h ⊢
  exact h.symm

theorem WholeEndTag.closesRaw (h : WholeEndTag name text) (rest : List Char) : closesRaw name (text ++ rest) = true := by
  obtain ⟨found, blanks, rfl, heq, hblanks⟩ := h
  refine closesRaw_iff.2 ⟨found, blanks ++ '>' :: rest, by simp, eqIgnoreAsciiCase_symm heq, ?_⟩
  cases blanks with
  | nil => simp
  | cons c blanks => simpa using Or.inl (hblanks c List.mem_cons_self)

theorem WholeEndTag.isMarkup (h : WholeEndTag name text) (hname : IsTagName name) (rest : List Char) :
    isMarkup (text ++ rest) = true := by
  obtain ⟨found, blanks, rfl, heq, -⟩ := h
  obtain ⟨hstarts, -⟩ := hname.of_eqIgnoreAsciiCase (eqIgnoreAsciiCase_symm heq)
  rw [isMarkup_eq]
  simp [List.isPrefixOf, startsName_append hstarts]

/-- An end tag with its closing mark: a name and a gap of blanks. -/
def Piece.wholeEndTag (name gap : List Char) (offset : Nat) : Piece :=
  .endTag name ⟨offset, offset + 2 + byteLength name + byteLength gap + 1⟩ (some (offset + 2 + byteLength name + byteLength gap))

theorem byteLength_endTag (name gap : List Char) :
    byteLength ('<' :: '/' :: (name ++ (gap ++ ['>']))) = 2 + byteLength name + byteLength gap + 1 := by
  simp only [byteLength_cons, byteLength_append, byteLength_nil, show '<'.utf8Size = 1 from rfl, show '/'.utf8Size = 1 from rfl,
    show '>'.utf8Size = 1 from rfl]
  omega

theorem endTag_append (name gap rest : List Char) :
    '<' :: '/' :: (name ++ (gap ++ ['>'])) ++ rest = '<' :: '/' :: (name ++ (gap ++ '>' :: rest)) := by
  simp

theorem readPiece_wholeEndTag {gap : List Char} (hname : IsTagName name) (hgap : ∀ c ∈ gap, isAsciiSpace c = true)
    (around : Surroundings) (offset : Nat) (rest : List Char) :
    readPiece around ⟨offset, '<' :: '/' :: (name ++ (gap ++ '>' :: rest))⟩ =
      (.wholeEndTag name gap offset, ⟨offset + 2 + byteLength name + byteLength gap + 1, rest⟩) := by
  have hends : ∀ c ∈ (gap ++ '>' :: rest).head?, isAsciiSpace c = true ∨ c = '>' := by
    cases gap with
    | nil => simp
    | cons c gap => simpa using Or.inl (hgap c List.mem_cons_self)
  have hread := readEndTag_text offset hname.inside hgap (show ∀ c ∈ ('>' :: rest).head?,
    isAsciiSpace c = false by simp [isAsciiSpace])
    hends
  rw [readPiece_close around (startsName_append hname.starts _), hread, if_pos List.head?_cons]
  rfl

/-- A whole end tag is read as such. -/
theorem WholeEndTag.readPiece (h : WholeEndTag name text) (hname : IsTagName name) (around : Surroundings) (offset : Nat)
    (rest : List Char) :
    ∃ found close, eqIgnoreAsciiCase name found = true ∧ readPiece around ⟨offset, text ++ rest⟩ =
      (.endTag found ⟨offset, offset + byteLength text⟩ (some close), ⟨offset + byteLength text, rest⟩) := by
  obtain ⟨found, blanks, rfl, heq, hblanks⟩ := h
  refine ⟨found, offset + 2 + byteLength found + byteLength blanks, heq, ?_⟩
  rw [endTag_append, readPiece_wholeEndTag (hname.of_eqIgnoreAsciiCase (eqIgnoreAsciiCase_symm heq)) hblanks, Piece.wholeEndTag,
    byteLength_endTag, ← Nat.add_assoc, ← Nat.add_assoc, ← Nat.add_assoc]

end EndTags

/-- The end tag of an element stands whole behind its start tag. -/
def Element.EndsWhole (source : List Char) (element : Element) : Prop :=
  ∀ tag, element.endTag = some tag → ∃ here after text, Stream.Before ⟨0, source⟩ here ∧ here.Reads text after ∧
    tag = ⟨here.offset, after.offset⟩ ∧ element.startTag.span.stop ≤ here.offset ∧ WholeEndTag element.rawName.toList text

/-! ## Single tags and pairs -/

namespace Builder

variable {language : Script.Language} {fileStop : Nat} {builder : Builder} {stream : Stream} {tag : ReadTag}

/-- Whether the element of a start tag has no content. -/
def closesItself (builder : Builder) (tag : ReadTag) : Bool :=
  (builder.elementOf tag).startTag.selfClosing || (builder.elementOf tag).isVoid

/-- The nodes with the element of a start tag. -/
def withElement (builder : Builder) (tag : ReadTag) : Array Node :=
  grow builder.nodes builder.current ⟨tag.start, tag.stop⟩ (.element (builder.elementOf tag))

theorem chars_ne_nil_of_readPiece {around : Surroundings} {rest : Stream} (h : readPiece around stream = (.startTag tag, rest)) :
    stream.chars ≠ [] := by
  obtain ⟨chars, hchars, -⟩ := of_readPiece_startTag h
  rw [hchars]
  exact List.cons_ne_nil _ _

/-- A tag that closes itself adds its element. -/
theorem advance_single {rest : Stream} (hread : readPiece (builder.surroundings language) stream = (.startTag tag, rest))
    (hclosed : builder.closesItself tag = true) :
    ∃ closed, advance language fileStop builder stream = (closed, rest) ∧ closed.stack = builder.stack ∧
      closed.nodes = builder.withElement tag ∧
      closed.problems = builder.problems ++ ((Piece.startTag tag).problems fileStop).toArray := by
  have hraw : builder.rawName? (.startTag tag) = none := by
    rw [rawName?_startTag, Element.holdsRaw, show (_ || _) = true from hclosed]
    rfl
  refine ⟨_, advance_plain hread hraw, ?_⟩
  rw [add, apply, startElement, if_pos (by exact hclosed)]
  exact ⟨rfl, rfl, rfl⟩

/-- A tag that stays open adds its element. -/
theorem add_opening (fileStop : Nat) (hopen : builder.closesItself tag = false) :
    (builder.add fileStop (.startTag tag)).stack = builder.nodes.size :: builder.stack ∧
      (builder.add fileStop (.startTag tag)).nodes = builder.withElement tag ∧
      (builder.add fileStop (.startTag tag)).problems =
        builder.problems ++ ((Piece.startTag tag).problems fileStop).toArray := by
  have hif : ¬((builder.elementOf tag).startTag.selfClosing || (builder.elementOf tag).isVoid) = true := by
    rw [Bool.not_eq_true]
    exact hopen
  rw [add, apply, startElement, if_neg (by exact hif)]
  exact ⟨rfl, rfl, rfl⟩

/-- The nodes with an element and the blanks in it. -/
def withBlank (builder : Builder) (tag : ReadTag) (offset : Nat) (blank : List Char) : Array Node :=
  if blank = [] then builder.withElement tag
  else grow (builder.withElement tag) builder.nodes.size ⟨offset, offset + byteLength blank⟩ .text

/-- A start tag and the blanks behind it. -/
theorem walks_blank {offset : Nat} {blank rest : List Char}
    (hread : readPiece (builder.surroundings language) stream = (.startTag tag, ⟨offset, blank ++ rest⟩))
    (hopen : builder.closesItself tag = false) (hblank : ∀ c ∈ blank, isSpace c = true)
    (hmarkup : isMarkup rest = true) (hcloses : closesRaw tag.rawName rest = true) :
    ∃ filled, Walks language fileStop filled ⟨offset + byteLength blank, rest⟩ builder stream ∧
      filled.stack = builder.nodes.size :: builder.stack ∧ filled.nodes = builder.withBlank tag offset blank ∧
      filled.problems = builder.problems ++ ((Piece.startTag tag).problems fileStop).toArray := by
  have hne := chars_ne_nil_of_readPiece hread
  obtain ⟨hstack, hnodes, hproblems⟩ := add_opening fileStop hopen
  generalize hopened : builder.add fileStop (.startTag tag) = opened at hstack hnodes hproblems
  -- Blanks are a text of their own, whether they are read as raw content or as markup.
  have htext : blank ≠ [] → ∀ piece : Piece, piece.problems fileStop = [] →
      (∀ builder : Builder, builder.apply piece = builder.push ⟨offset, offset + byteLength blank⟩ .text) →
      (opened.add fileStop piece).stack = builder.nodes.size :: builder.stack ∧
      (opened.add fileStop piece).nodes = builder.withBlank tag offset blank ∧
      (opened.add fileStop piece).problems = builder.problems ++ ((Piece.startTag tag).problems fileStop).toArray := by
    intro hsome piece hnone happly
    have hcurrent : opened.current = builder.nodes.size := by rw [current, hstack]; rfl
    rw [add, happly, withBlank, if_neg hsome]
    refine ⟨hstack, ?_, ?_⟩
    · rw [← hnodes, ← hcurrent]
      rfl
    · rw [← hproblems]
      show opened.problems ++ (piece.problems fileStop).toArray = opened.problems
      rw [hnone, Array.append_empty]
  cases hraw : builder.rawName? (.startTag tag) with
  | some name =>
    obtain ⟨_, htag, rfl, -⟩ := rawName?_eq_some hraw
    cases htag
    have hrun : readRaw tag.rawName ⟨offset, blank ++ rest⟩ =
        (.raw ⟨offset, offset + byteLength blank⟩, ⟨offset + byteLength blank, rest⟩) := by
      rw [readRaw, rawRun_blank hblank hcloses]
      rfl
    have hstep : advance language fileStop builder stream = _ := advance_raw hread hraw
    rw [hrun, hopened] at hstep
    refine ⟨_, .single hne hstep, ?_⟩
    by_cases hempty : blank = []
    · subst hempty
      rw [byteLength_nil, Nat.add_zero, add_raw_empty]
      exact ⟨hstack, hnodes, hproblems⟩
    · have hpos := (byteLength_pos_iff blank).2 hempty
      refine htext hempty _ rfl fun builder => ?_
      rw [apply, if_pos (by dsimp only; omega)]
  | none =>
    have hstep : advance language fileStop builder stream = _ := advance_plain hread hraw
    rw [hopened] at hstep
    have hwalk := Walks.single hne hstep
    by_cases hempty : blank = []
    · subst hempty
      exact ⟨opened, hwalk, hstack, hnodes, hproblems⟩
    · have hsecond : advance language fileStop opened ⟨offset, blank ++ rest⟩ = _ :=
        advance_plain (readPiece_blank offset hempty hblank hmarkup) rfl
      exact ⟨_, hwalk.trans (.single (by simp [hempty]) hsecond), htext hempty _ rfl fun _ => rfl⟩

theorem withElement_new (h : Shaped builder.nodes builder.stack) (tag : ReadTag) :
    (builder.withElement tag)[builder.nodes.size]? = some ⟨builder.nodes.size, some builder.current, #[], ⟨tag.start, tag.stop⟩,
      .element (builder.elementOf tag)⟩ :=
  grow_new h.current_lt

/-- The element with the blanks in it. -/
theorem withBlank_element (h : Shaped builder.nodes builder.stack) (tag : ReadTag) (offset : Nat) (blank : List Char) :
    (builder.withBlank tag offset blank)[builder.nodes.size]? =
      some ⟨builder.nodes.size, some builder.current, if blank = [] then #[] else #[builder.nodes.size + 1],
        ⟨tag.start, tag.stop⟩, .element (builder.elementOf tag)⟩ := by
  have hnew := withElement_new h tag
  have hsize : (builder.withElement tag).size = builder.nodes.size + 1 := size_grow
  unfold withBlank
  split
  · exact hnew
  · rw [grow_old _ (by omega), hnew, hsize, Option.map_some, if_pos rfl]
    rfl

/-- The nodes before an element are not affected by what is in it. -/
theorem withBlank_old (tag : ReadTag) (offset : Nat) (blank : List Char) {id : Nat} (hid : id < builder.nodes.size) :
    (builder.withBlank tag offset blank)[id]? = (builder.withElement tag)[id]? := by
  have hsize : (builder.withElement tag).size = builder.nodes.size + 1 := size_grow
  have hne : id ≠ builder.nodes.size := Nat.ne_of_lt hid
  unfold withBlank
  split
  · rfl
  · rw [grow_old _ (by omega)]
    simp [hne]

/-- A pair of tags with nothing but blanks between them. -/
theorem walks_pair {offset : Nat} {blank text rest : List Char} (hshaped : Shaped builder.nodes builder.stack)
    (hread : readPiece (builder.surroundings language) stream = (.startTag tag, ⟨offset, blank ++ (text ++ rest)⟩))
    (hopen : builder.closesItself tag = false) (hblank : ∀ c ∈ blank, isSpace c = true) (htext : WholeEndTag tag.rawName text) :
    ∃ closed, Walks language fileStop closed ⟨offset + byteLength blank + byteLength text, rest⟩ builder stream ∧
      closed.stack = builder.stack ∧
      closed.nodes = (builder.withBlank tag offset blank).modify builder.nodes.size
        (Node.shutWith ⟨offset + byteLength blank, offset + byteLength blank + byteLength text⟩) ∧
      closed.problems = builder.problems ++ ((Piece.startTag tag).problems fileStop).toArray := by
  have hname := readPiece_tagName hread
  obtain ⟨filled, hwalk, hstack, hnodes, hproblems⟩ :=
    @walks_blank language fileStop _ _ _ _ _ _ hread hopen hblank (htext.isMarkup hname rest) (htext.closesRaw rest)
  obtain ⟨found, close, heq, hend⟩ := htext.readPiece hname (filled.surroundings language) (offset + byteLength blank) rest
  have hstep : advance language fileStop filled ⟨offset + byteLength blank, text ++ rest⟩ = _ := advance_plain hend rfl
  have hne : text ++ rest ≠ [] := by
    intro hnil
    have hmarkup := htext.isMarkup hname rest
    rw [hnil] at hmarkup
    cases hmarkup
  have hcloses : (filled.record fileStop (.endTag found ⟨offset + byteLength blank, offset + byteLength blank + byteLength text⟩
      (some close))).closes found builder.nodes.size = true := by
    have helement := withBlank_element hshaped tag offset blank
    rw [← hnodes] at helement
    refine closes_iff.2 ⟨_, builder.elementOf tag, helement, rfl, ?_⟩
    · rw [show (builder.elementOf tag).rawName.toList = tag.rawName from String.toList_ofList]
      exact heq
  refine ⟨_, hwalk.trans (.single hne hstep), ?_⟩
  rw [add, apply, endElement_current (filled.record fileStop _) _ hstack hcloses]
  refine ⟨rfl, ?_, ?_⟩
  · rw [← hnodes]
    exact closeWith_nodes ..
  · rw [← hproblems]
    exact Array.append_empty

/-- A tree with one more element, which ends at `stop` and holds `extra` nodes. -/
structure HoldsEmpty (fileStop : Nat) (builder : Builder) (tag : ReadTag) (stop extra : Nat) (closed : Builder) : Prop where
  stack : closed.stack = builder.stack
  size : closed.nodes.size = builder.nodes.size + 1 + extra
  old : ∀ id < builder.nodes.size, closed.nodes[id]? = (builder.withElement tag)[id]?
  element : ∃ node, closed.nodes[builder.nodes.size]? = some node ∧ node.parent = some builder.current ∧
    node.span = ⟨tag.start, stop⟩ ∧ (∃ endTag, node.kind = .element { builder.elementOf tag with endTag := endTag }) ∧
    (extra = 0 → node.children = #[])
  problems : closed.problems = builder.problems ++ ((Piece.startTag tag).problems fileStop).toArray

theorem holdsEmpty_single {closed : Builder} (hshaped : Shaped builder.nodes builder.stack)
    (hstack : closed.stack = builder.stack)
    (hnodes : closed.nodes = builder.withElement tag)
    (hproblems : closed.problems = builder.problems ++ ((Piece.startTag tag).problems fileStop).toArray) :
    HoldsEmpty fileStop builder tag tag.stop 0 closed := by
  refine ⟨hstack, ?_, fun id _ => by rw [hnodes], ⟨_, hnodes ▸ withElement_new hshaped tag, rfl, rfl, ⟨none, rfl⟩, fun _ => rfl⟩,
    hproblems⟩
  rw [hnodes]
  exact size_grow

theorem holdsEmpty_pair {closed : Builder} {offset : Nat} {blank : List Char} {end' : Span}
    (hshaped : Shaped builder.nodes builder.stack) (hstack : closed.stack = builder.stack)
    (hnodes : closed.nodes = (builder.withBlank tag offset blank).modify builder.nodes.size (Node.shutWith end'))
    (hproblems : closed.problems = builder.problems ++ ((Piece.startTag tag).problems fileStop).toArray) :
    HoldsEmpty fileStop builder tag end'.stop (if blank = [] then 0 else 1) closed := by
  refine ⟨hstack, ?_, fun id hid => ?_, ?_, hproblems⟩
  · rw [hnodes, Array.size_modify, withBlank]
    split
    · exact size_grow
    · rw [size_grow]
      exact congrArg (· + 1) size_grow
  · have hne : id ≠ builder.nodes.size := Nat.ne_of_lt hid
    rw [hnodes, getElem?_modify_map, withBlank_old tag offset blank hid]
    simp [hne]
  · refine ⟨_, by rw [hnodes, getElem?_modify_map, withBlank_element hshaped, Option.map_some, if_pos rfl], rfl, rfl,
      ⟨some end', rfl⟩, fun hextra => ?_⟩
    by_cases hblank : blank = []
    · simp [Node.shutWith, hblank]
    · simp [hblank] at hextra

/-- What a closed element becomes is another element of its name under the same parent. -/
theorem HoldsEmpty.settles {closed : Builder} {stop extra id : Nat} {before : Node}
    (h : HoldsEmpty fileStop builder tag stop extra closed)
    (hshaped : Shaped builder.nodes builder.stack) (hle : id ≤ builder.nodes.size)
    (hbefore : (builder.withElement tag)[id]? = some before) {changed : Prop} (hchanged : id = builder.nodes.size → changed) :
    ∃ node, closed.nodes[id]? = some node ∧ node.Settles changed before := by
  rcases Nat.lt_or_eq_of_le hle with hlt | rfl
  · exact ⟨before, (h.old id hlt).trans hbefore, .of_like (.refl _)⟩
  · obtain ⟨node, hnode, hparent, -, ⟨endTag, hkind⟩, -⟩ := h.element
    cases hbefore.symm.trans (withElement_new hshaped tag)
    refine ⟨node, hnode, hparent, ?_, fun hnot => absurd (hchanged rfl) hnot⟩
    rw [hkind]
    exact .element rfl

/-- An element without content is read: `text` is all of it, and the tree holds it then. -/
structure ReadsEmpty (language : Script.Language) (fileStop : Nat) (builder : Builder) (tag : ReadTag) (offset : Nat)
    (text tail : List Char) (extra : Nat) (closed : Builder) : Prop where
  walk : Walks language fileStop closed ⟨offset + byteLength text, tail⟩ builder ⟨offset, text ++ tail⟩
  holds : builder.HoldsEmpty fileStop tag (offset + byteLength text) extra closed
  /-- The nodes in it are blank texts. -/
  inner : ∀ id, builder.nodes.size < id → id < builder.nodes.size + 1 + extra → ∃ node, closed.nodes[id]? = some node ∧
    node.parent = some builder.nodes.size ∧ node.kind = .text ∧
    ∀ source, Stream.Before ⟨0, source⟩ ⟨offset, text ++ tail⟩ → isBlank (slice source node.span) = true

theorem stop_of_readPiece {around : Surroundings} {rest : Stream} (h : readPiece around stream = (.startTag tag, rest)) :
    tag.stop = rest.offset := by
  obtain ⟨-, taken, hfrom⟩ := readPiece_readFrom around (chars_ne_nil_of_readPiece h)
  rw [h] at hfrom
  exact congrArg Span.stop hfrom.span

theorem readsEmpty_single {offset : Nat} {text tail : List Char} (hshaped : Shaped builder.nodes builder.stack)
    (hread : readPiece (builder.surroundings language) ⟨offset, text ++ tail⟩ = (.startTag tag, ⟨offset + byteLength text, tail⟩))
    (hclosed : builder.closesItself tag = true) : ∃ closed,
      builder.ReadsEmpty language fileStop tag offset text tail 0 closed := by
  obtain ⟨closed, hstep, hstack, hnodes, hproblems⟩ := @advance_single _ fileStop _ _ _ _ hread hclosed
  have hholds := holdsEmpty_single hshaped hstack hnodes hproblems
  rw [stop_of_readPiece hread] at hholds
  exact ⟨closed, .single (chars_ne_nil_of_readPiece hread) hstep, hholds, fun id hgt hlt => by omega⟩

theorem readsEmpty_pair {offset : Nat} {open' blank close tail : List Char} (hshaped : Shaped builder.nodes builder.stack)
    (hread : readPiece (builder.surroundings language) ⟨offset, open' ++ (blank ++ (close ++ tail))⟩ =
      (.startTag tag, ⟨offset + byteLength open', blank ++ (close ++ tail)⟩))
    (hopen : builder.closesItself tag = false) (hblank : ∀ c ∈ blank, isSpace c = true) (hclose : WholeEndTag tag.rawName close) :
    ∃ closed, builder.ReadsEmpty language fileStop tag offset (open' ++ (blank ++ close)) tail (if blank = [] then 0 else 1)
      closed := by
  obtain ⟨closed, hwalk, hstack, hnodes, hproblems⟩ := @walks_pair _ fileStop _ _ _ _ _ _ _ hshaped hread hopen hblank hclose
  have hlength : offset + byteLength (open' ++ (blank ++ close)) =
      offset + byteLength open' + byteLength blank + byteLength close := by
    simp only [byteLength_append, Nat.add_assoc]
  refine ⟨closed, ?_, ?_, fun id hgt hlt => ?_⟩
  · rw [hlength, List.append_assoc, List.append_assoc]
    exact hwalk
  · rw [hlength]
    exact holdsEmpty_pair hshaped hstack hnodes hproblems
  · have hsome : blank ≠ [] := by
      rintro rfl
      simp only [if_true] at hlt
      omega
    rw [if_neg hsome] at hlt
    obtain rfl : id = builder.nodes.size + 1 := by omega
    have hsize : (builder.withElement tag).size = builder.nodes.size + 1 := size_grow
    have htext : closed.nodes[builder.nodes.size + 1]? = some ⟨builder.nodes.size + 1, some builder.nodes.size, #[],
        ⟨offset + byteLength open', offset + byteLength open' + byteLength blank⟩, .text⟩ := by
      rw [hnodes, withBlank, if_neg hsome, getElem?_modify_map, ← hsize, grow_new (by omega)]
      simp [hsize]
    refine ⟨_, htext, rfl, rfl, fun source hbefore => ?_⟩
    obtain ⟨before, hbefore⟩ := hbefore
    have hin : Stream.Reads ⟨offset, open' ++ (blank ++ close) ++ tail⟩ open'
        ⟨offset + byteLength open', blank ++ (close ++ tail)⟩ :=
      ⟨by simp, rfl⟩
    have hslice : slice source ⟨offset + byteLength open', offset + byteLength open' + byteLength blank⟩ = blank :=
      (hbefore.trans hin).slice (t := ⟨offset + byteLength open' + byteLength blank, close ++ tail⟩) ⟨rfl, rfl⟩
    dsimp only
    rw [hslice]
    exact List.all_eq_true.2 hblank

end Builder

/-- Elements without content that have the same name keep the trees in step, however they are written. -/
theorem Lockstep.emptyElement
    {rev : Revision} {rename rename' : Nat → Nat} {changed : Nat → Prop} {old new closed closed' : Builder}
    {fileStop fileStop' stop stop' extra : Nat} {tag tag' : ReadTag} (h : Lockstep rev rename changed old new)
    (hold : Shaped old.nodes old.stack) (hnew : Shaped new.nodes new.stack) (hshaped : Shaped closed'.nodes closed'.stack)
    (hchanged : changed new.nodes.size) (hname : tag.rawName = tag'.rawName)
    (hclosed : old.HoldsEmpty fileStop tag stop extra closed) (hclosed' : new.HoldsEmpty fileStop' tag' stop' 0 closed')
    (hproblems : (Piece.startTag tag').problems fileStop' = [])
    (hzero : rename' 0 = 0) (hinjective : Function.Injective rename')
    (hagree : ∀ id ≤ new.nodes.size, rename' id = rename id)
    (hsize : ∀ count, rename' (new.nodes.size + 1 + count) = old.nodes.size + 1 + extra + count) :
    Lockstep rev rename' changed closed closed' := by
  have hpush : Lockstep rev rename changed (old.push ⟨tag.start, tag.stop⟩ (.element (old.elementOf tag)))
      (new.push ⟨tag'.start, tag'.stop⟩ (.element (new.elementOf tag'))) :=
    h.push hold hnew (.element (h.elementOf tag tag' hname)) fun hnot => absurd hchanged hnot
  have hsizeNew : closed'.nodes.size = (new.push ⟨tag'.start, tag'.stop⟩ (.element (new.elementOf tag'))).nodes.size :=
    hclosed'.size.trans size_grow.symm
  have hmiddle : Lockstep rev rename changed (old.push ⟨tag.start, tag.stop⟩ (.element (old.elementOf tag))) closed' := by
    refine hpush.settleNew hsizeNew hclosed'.stack (fun hnone => ?_) fun id node hnode => ?_
    · rw [hclosed'.problems, hproblems, show new.problems = #[] from hnone]
      rfl
    · have hlt := (Array.getElem?_eq_some_iff.1 hnode).1
      have hle : id ≤ new.nodes.size := by
        rw [hclosed'.size] at hlt
        omega
      obtain ⟨before, hbefore⟩ : ∃ before, (new.withElement tag')[id]? = some before :=
        ⟨_, Array.getElem?_eq_getElem (hsizeNew ▸ hlt)⟩
      obtain ⟨node', hnode', hsettled⟩ := hclosed'.settles hnew hle hbefore fun heq => (heq ▸ hchanged : changed id)
      cases hnode.symm.trans hnode'
      exact ⟨before, hbefore, hsettled⟩
  refine hmiddle.settleOld hshaped hzero hinjective (fun id hlt => hagree id ?_) (fun count => ?_) hclosed.stack (fun hnone => ?_)
    fun id before hlt hbefore => ?_
  · rw [hclosed'.size] at hlt
    omega
  · rw [hclosed'.size, hclosed.size]
    exact hsize count
  · rw [hclosed.problems] at hnone
    exact (Array.append_eq_empty_iff.1 hnone).1
  · rw [hclosed'.size] at hlt
    have hle : rename id ≤ old.nodes.size := by
      have hin := (Array.getElem?_eq_some_iff.1 hbefore).1
      have hgrown : (old.push ⟨tag.start, tag.stop⟩ (.element (old.elementOf tag))).nodes.size = old.nodes.size + 1 := size_grow
      omega
    refine hclosed.settles hold hle hbefore fun heq => ?_
    obtain rfl : id = new.nodes.size := h.injective (heq.trans (h.size 0).symm)
    exact hchanged

namespace Builder

variable {language : Script.Language} {fileStop : Nat} {builder : Builder} {stream : Stream} {tag : ReadTag}

/-! ## In whole files -/

/-- End tags stand whole behind the start tags of their elements, if there are no problems. -/
theorem reading_endsWhole (language : Script.Language) (source : List Char) (steps : Nat)
    (hproblems : (reading language source steps).1.problems = #[]) :
    ∀ (id : Nat) node element, (reading language source steps).1.nodes[id]? = some node → node.kind = .element element →
      element.EndsWhole source := by
  refine (reading_steps language source (P := fun builder stream => Stream.Before ⟨0, source⟩ stream ∧
    (∀ (id : Nat) node element, builder.nodes[id]? = some node → node.kind = .element element →
      element.startTag.span.stop ≤ stream.offset) ∧ (builder.problems = #[] →
    ∀ (id : Nat) node element, builder.nodes[id]? = some node → node.kind = .element element → element.EndsWhole source))
    ⟨.refl _, ?_, ?_⟩ ?_ steps).2.2 hproblems
  · intro id node element hnode hkind
    obtain ⟨_, rfl⟩ := start_nodes hnode
    cases hkind
  · intro _ id node element hnode hkind
    obtain ⟨_, rfl⟩ := start_nodes hnode
    cases hkind
  · rintro builder stream piece taken rest ⟨hbefore, hplaced, hwhole⟩ hread hsteps
    have hle := hread.reads.offset_le
    refine ⟨hbefore.trans hread.reads.before, fun id node element hnode hkind => ?_, fun hnone id node element hnode hkind => ?_⟩
    · rcases hsteps.cases hnode with ⟨old, hold, hbecomes⟩ | ⟨-, hadds⟩
      · cases hbecomes with
        | same hsame _ => exact Nat.le_trans (hplaced id old element hold (hsame ▸ hkind)) hle
        | tagged _ holdKind _ _ hnew =>
          have hstart := hplaced id old _ hold holdKind
          cases hnew.symm.trans hkind
          exact Nat.le_trans hstart hle
      · cases piece with
        | startTag tag =>
          obtain ⟨element', hkind', ⟨hspan, -⟩, -⟩ := hadds
          cases hkind.symm.trans hkind'
          rw [hspan]
          exact Nat.le_of_eq (congrArg Span.stop hread.span)
        | endTag => exact hadds.elim
        | _ =>
          rw [hkind] at hadds
          cases hadds
    · obtain ⟨hbuilder, hpiece⟩ := of_add_problems hnone
      rcases hsteps.cases hnode with ⟨old, hold, hbecomes⟩ | ⟨-, hadds⟩
      · cases hbecomes with
        | same hsame _ => exact hwhole hbuilder id old element hold (hsame ▸ hkind)
        | @tagged name span close element' hendTag holdKind _ hname hnew =>
          subst hendTag
          have hstart := hplaced id old _ hold holdKind
          cases hnew.symm.trans hkind
          rintro tag ⟨⟩
          refine ⟨stream, rest, taken, hbefore, hread.reads, hread.span, hstart, ?_⟩
          obtain ⟨blanks, mark, hmark, hblanks, ⟨-, last, hlast, hstop⟩ | ⟨hclose, -⟩⟩ := hread.parts
          · have hoffset : rest.offset = last.offset := (congrArg Span.stop hread.span).symm.trans hstop
            refine ⟨name, blanks, ?_, hname, hblanks⟩
            rw [taken_unique hread.reads (hmark.trans hlast) hoffset]
            simp
          · rw [hclose] at hpiece
            cases hpiece
      · cases piece with
        | startTag tag =>
          obtain ⟨element', hkind', -, -, hnoTag, -⟩ := hadds
          cases hkind.symm.trans hkind'
          intro tag' htag
          rw [hnoTag] at htag
          cases htag
        | endTag => exact hadds.elim
        | _ =>
          rw [hkind] at hadds
          cases hadds

theorem startTag_append (before mark rest : List Char) : '<' :: (before ++ mark) ++ rest = '<' :: (before ++ (mark ++ rest)) := by
  simp

theorem byteLength_open (front before : List Char) :
    byteLength (front ++ '<' :: before) = byteLength front + 1 + byteLength before := by
  rw [byteLength_append, byteLength_cons, show '<'.utf8Size = 1 from rfl, Nat.add_assoc]

theorem byteLength_startTag (offset : Nat) (before mark : List Char) :
    offset + byteLength ('<' :: (before ++ mark)) = offset + 1 + byteLength before + byteLength mark := by
  rw [byteLength_cons, byteLength_append, show '<'.utf8Size = 1 from rfl]
  omega

/-- A file without problems, read up to an element: `before` is what stands between the angle bracket and the closing mark of its
start tag. -/
structure Opens (language : Script.Language) (source : List Char) (id : Nat) (element : Element) (builder last : Builder)
    (tag : ReadTag) (front before rest : List Char) : Prop where
  source_eq : source = front ++ '<' :: (before ++ (tag.ending.mark ++ rest))
  walk : Walks language (byteLength source) last ⟨byteLength source, []⟩ (start (byteLength source)) ⟨0, source⟩
  clean : last.problems = #[]
  upTo : Walks language (byteLength source) builder ⟨byteLength front, '<' :: (before ++ (tag.ending.mark ++ rest))⟩
    (start (byteLength source)) ⟨0, source⟩
  read : readStartTag (builder.surroundings language) ⟨byteLength front, '<' :: (before ++ (tag.ending.mark ++ rest))⟩ =
    (tag, ⟨byteLength front + 1 + byteLength before + byteLength tag.ending.mark, rest⟩)
  name : tag.rawName <+: before
  isName : IsTagName tag.rawName
  ended : tag.ending ≠ .missing
  problems : (Piece.startTag tag).problems (byteLength source) = []
  start_eq : tag.start = byteLength front
  stop_eq : tag.stop = byteLength front + 1 + byteLength before + byteLength tag.ending.mark
  size : builder.nodes.size = id
  element_eq : element = { builder.elementOf tag with endTag := element.endTag }

theorem exists_opens {language : Script.Language} {source : List Char} {id : Nat} {element : Element}
    (hclean : (parse language source).2 = []) (helement : (parse language source).1.element? id = some element) :
    ∃ builder last tag front before rest, Opens language source id element builder last tag front before rest := by
  obtain ⟨last, hwalk⟩ := exists_walks language source
  have hlast := hwalk.standing (start_standing _)
  rw [hwalk.parse_eq] at helement hclean
  obtain ⟨node, hnode, hkind⟩ := Document.element?_eq_some_iff.1 helement
  obtain ⟨old, hold, hsame, -⟩ := of_finish hlast.shaped hnode
  obtain ⟨builder, ⟨offset, chars⟩, tag, rest, hbefore, hread, hsize, heq, -, hrest⟩ :=
    hwalk.element_origin hold (hsame.symm.trans hkind)
  have hproblems : last.problems = #[] := by simpa using hclean
  have hpiece := (of_advance_problems (hrest.of_problems hproblems)).2
  rw [hread] at hpiece
  obtain ⟨after, rfl, -, hstart⟩ := of_readPiece_startTag hread
  have hended : tag.ending ≠ .missing := by
    intro hmissing
    simp [Piece.problems, hmissing] at hpiece
  obtain ⟨front, hfront⟩ := hbefore.before
  obtain ⟨inner, gap, hchars, -, -, -, -, hoffset, hstop⟩ := readStartTag_parts hstart hended
  obtain rfl : offset = byteLength front := by simpa using hfront.offset
  have hbeforeEq : after = (tag.rawName ++ (inner ++ gap)) ++ (tag.ending.mark ++ rest.chars) := by simpa using hchars
  have hrestEq : rest = ⟨byteLength front + 1 + byteLength (tag.rawName ++ (inner ++ gap)) + byteLength tag.ending.mark,
      rest.chars⟩ := by
    rw [← hstop]
  have hstopEq := stop_of_readPiece hread
  rw [hbeforeEq] at hfront hbefore hstart
  rw [hrestEq] at hstart
  exact ⟨builder, last, tag, front, _, rest.chars, hfront.chars, hwalk, hproblems, hbefore, hstart, List.prefix_append _ _,
    readPiece_tagName hread, hended, hpiece, hoffset, hstopEq.trans hstop, hsize, heq⟩

section Opened

variable {language : Script.Language} {source : List Char} {id : Nat} {element : Element} {builder last : Builder} {tag : ReadTag}
  {front before rest : List Char}

theorem Opens.selfClosing_eq (h : Opens language source id element builder last tag front before rest) :
    element.startTag.selfClosing = (tag.ending == .selfClosing) := by
  rw [h.element_eq]
  rfl

theorem Opens.startTag_stop (h : Opens language source id element builder last tag front before rest) :
    element.startTag.span.stop = byteLength front + 1 + byteLength before + byteLength tag.ending.mark := by
  rw [h.element_eq]
  exact h.stop_eq

theorem Opens.rawName_eq (h : Opens language source id element builder last tag front before rest) :
    element.rawName.toList = tag.rawName := by
  rw [h.element_eq]
  exact String.toList_ofList

theorem Opens.attributes_eq (h : Opens language source id element builder last tag front before rest) :
    element.startTag.attributes = tag.attributes.map (·.attr) := by
  rw [h.element_eq]
  rfl

theorem Opens.meaning_ne_invalid (h : Opens language source id element builder last tag front before rest) {read : ReadAttribute}
    (hread : read ∈ tag.attributes) {key : DirectiveKey} (hkey : read.attr.key = .directive key) {value : AttributeValue}
    (hvalue : read.attr.value = some value) : value.meaning ≠ some .invalid := by
  intro hmeaning
  have hproblems := h.problems
  simp only [Piece.problems, List.append_eq_nil_iff, List.flatMap_eq_nil_iff] at hproblems
  simpa [ReadAttribute.problems, hvalue, hkey, hmeaning] using hproblems.1 read hread

theorem Opens.closesItself_eq (h : Opens language source id element builder last tag front before rest) :
    builder.closesItself tag = (element.startTag.selfClosing || element.isVoid) := by
  rw [h.element_eq]
  rfl

theorem Opens.afterTag (h : Opens language source id element builder last tag front before rest) :
    Stream.Before ⟨0, source⟩ ⟨element.startTag.span.stop, rest⟩ := by
  refine ⟨front ++ '<' :: (before ++ tag.ending.mark), by simp [h.source_eq], ?_⟩
  rw [h.startTag_stop, byteLength_append, byteLength_startTag, Nat.zero_add]

/-- The text of the start tag. -/
theorem Opens.text_startTag (h : Opens language source id element builder last tag front before rest) :
    slice source element.startTag.span = '<' :: before ++ tag.ending.mark := by
  have hspan : element.startTag.span = ⟨byteLength front, byteLength front + byteLength ('<' :: before ++ tag.ending.mark)⟩ := by
    rw [List.cons_append, byteLength_startTag, h.element_eq]
    exact congrArg₂ Span.mk h.start_eq h.stop_eq
  rw [hspan, h.source_eq, ← startTag_append]
  exact slice_append front _ rest

theorem Opens.starts (h : Opens language source id element builder last tag front before rest) (chars : List Char) :
    startsName (before ++ chars) = true := by
  obtain ⟨more, rfl⟩ := h.name
  rw [List.append_assoc]
  exact startsName_append h.isName.starts _

theorem Opens.readTag (h : Opens language source id element builder last tag front before rest) :
    readPiece (builder.surroundings language) ⟨byteLength front, '<' :: (before ++ (tag.ending.mark ++ rest))⟩ =
      (.startTag tag, ⟨byteLength front + 1 + byteLength before + byteLength tag.ending.mark, rest⟩) := by
  rw [readPiece_open _ (h.starts _), h.read]

end Opened

end Builder

open Builder in
/-- An element that closes itself has no end tag and no children. -/
theorem parse_single {language : Script.Language} {source : List Char} {id : Nat} {element : Element}
    (helement : (parse language source).1.element? id = some element)
    (hclosed : (element.startTag.selfClosing || element.isVoid) = true) :
    element.endTag = none ∧
      ∃ parent, (parse language source).1.node? id = some ⟨id, parent, #[], element.startTag.span, .element element⟩ := by
  obtain ⟨last, hwalk⟩ := exists_walks language source
  have hlast := hwalk.standing (start_standing _)
  rw [hwalk.parse_eq] at helement ⊢
  obtain ⟨node, hnode, hkind⟩ := Document.element?_eq_some_iff.1 helement
  obtain ⟨old, hold, hsame, -⟩ := of_finish hlast.shaped hnode
  obtain ⟨builder, here, tag, after, hbefore, hread, rfl, heq, -, hrest⟩ := hwalk.element_origin hold (hsame.symm.trans hkind)
  have hself : builder.closesItself tag = true := by
    rw [heq] at hclosed
    exact hclosed
  obtain ⟨closed, hadvance, hstack, hnodes, -⟩ := @advance_single _ (byteLength source) _ _ _ _ hread hself
  have hstanding := hbefore.standing (start_standing _)
  have hadded := advance_kept language (kept_standing _) hstanding (chars_ne_nil_of_readPiece hread)
  rw [hadvance] at hrest hadded
  have hid : builder.nodes.size ∉ closed.stack := by
    intro hmem
    rw [hstack] at hmem
    exact absurd (hstanding.shaped.mem_stack hmem).2 (Nat.lt_irrefl _)
  have hfinal := hrest.apart hadded (hnodes ▸ withElement_new hstanding.shaped tag) hid
  cases hnode.symm.trans hfinal
  obtain rfl : builder.elementOf tag = element := NodeKind.element.inj hkind
  exact ⟨rfl, _, hfinal⟩

theorem parse_endsWhole {language : Script.Language} {source : List Char} {id : Nat} {element : Element}
    (hclean : (parse language source).2 = []) (helement : (parse language source).1.element? id = some element) :
    element.EndsWhole source := by
  have hshaped := (Builder.reading_standing language source source.length).shaped
  have hends := Builder.reading_endsWhole language source source.length
  rw [parse_eq] at hclean helement
  obtain ⟨node, hnode, hkind⟩ := Document.element?_eq_some_iff.1 helement
  obtain ⟨old, hold, hsame, -⟩ := Builder.of_finish hshaped hnode
  exact hends (by simpa using hclean) id old element hold (hsame.symm.trans hkind)

end ComponentLint.Markup
