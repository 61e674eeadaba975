import ComponentLint.Script.Parser
import ComponentLint.Component.Basic
import ComponentLint.Proofs.Markup.Frames
import ComponentLint.Proofs.Markup.TagTokens

/-!
# Raw content

The content of scripts, styles and most top-level blocks is not markup. It ends where the first end tag of the block's name
stands (`FirstEnd`), and reading goes on with that end tag, which closes the block: at any time at most one block with raw
content is open, the innermost one, and its content has been read to its end (`Guarded`). So the tree holds nothing of the
inside of such a block but one text (`parse_unparsed`).
-/

namespace ComponentLint.Markup

open Text

variable {language : Script.Language} {languages : Script.Languages}

/-- The end tag of a name stands at an offset of a file: the name is written in any case, and a blank, the closing mark or
the end of the file follows it. -/
def EndTagAt (source name : List Char) (offset : Nat) : Prop :=
  ∃ before found after, source = before ++ '<' :: '/' :: (found ++ after) ∧ byteLength before = offset ∧
    eqIgnoreAsciiCase found name = true ∧ ∀ c ∈ after.head?, isAsciiSpace c = true ∨ c = '>'

/-- `stop` is where the first end tag of a name from `start` on stands, and the end of the file if there is none. -/
structure FirstEnd (source name : List Char) (start stop : Nat) : Prop where
  le : start ≤ stop
  before : ∀ offset, start ≤ offset → offset < stop → ¬EndTagAt source name offset
  ends : EndTagAt source name stop ∨ stop = byteLength source

/-! ## Finding the end tag -/

theorem length_of_eqIgnoreAsciiCase {a b : List Char} (h : eqIgnoreAsciiCase a b = true) : a.length = b.length := by
  simpa using congrArg List.length (beq_iff_eq.1 h)

/-- How the end of raw content is recognized. -/
theorem closesRaw_iff {name chars : List Char} :
    closesRaw name chars = true ↔ ∃ found after, chars = '<' :: '/' :: (found ++ after) ∧
      eqIgnoreAsciiCase found name = true ∧ ∀ c ∈ after.head?, isAsciiSpace c = true ∨ c = '>' := by
  constructor
  · intro h
    unfold closesRaw at h
    split at h
    · rename_i rest
      obtain ⟨heq, hend⟩ := Bool.and_eq_true_iff.1 h
      refine ⟨rest.take name.length, rest.drop name.length, by rw [List.take_append_drop], heq, ?_⟩
      intro c hc
      cases hdrop : rest.drop name.length with
      | nil => simp [hdrop] at hc
      | cons d after =>
        rw [hdrop] at hend hc
        obtain rfl : d = c := Option.some.inj hc
        simpa using hend
    · cases h
  · rintro ⟨found, after, rfl, heq, hend⟩
    rw [closesRaw, ← length_of_eqIgnoreAsciiCase heq, List.take_left, List.drop_left, heq, Bool.true_and]
    cases after with
    | nil => rfl
    | cons c after => simpa using hend c rfl

/-- An end tag stands where reading has come to exactly when it is at the front of what is left. -/
theorem endTagAt_iff {source name : List Char} {stream : Stream} (hstream : Stream.Before ⟨0, source⟩ stream) :
    EndTagAt source name stream.offset ↔ closesRaw name stream.chars = true := by
  obtain ⟨front, hchars, hoffset⟩ := hstream
  replace hchars : source = front ++ stream.chars := hchars
  replace hoffset : stream.offset = byteLength front := by simpa using hoffset
  rw [closesRaw_iff]
  constructor
  · rintro ⟨before, found, after, hsource, hbefore, htag⟩
    have hsplit := splitAt?_eq_some_iff.2 ⟨hsource, hbefore⟩
    rw [hchars, hoffset, splitAt?_byteLength] at hsplit
    obtain ⟨rfl, hrest⟩ := Prod.mk.inj (Option.some.inj hsplit)
    exact ⟨found, after, hrest, htag⟩
  · rintro ⟨found, after, hrest, htag⟩
    exact ⟨front, found, after, by rw [hchars, hrest], hoffset.symm, htag⟩

/-- Raw content ends at an end tag or at the end of the file. -/
theorem rawRun_ends (name chars : List Char) : closesRaw name (rawRun name chars).2 = true ∨ (rawRun name chars).2 = [] := by
  induction chars with
  | nil => exact Or.inr rfl
  | cons c rest ih =>
    unfold rawRun
    split
    · rename_i hcloses
      exact Or.inl hcloses
    · exact ih

/-- No end tag stands inside raw content. -/
theorem rawRun_first {name chars before after : List Char} (h : (rawRun name chars).1 = before ++ after) (hne : after ≠ []) :
    closesRaw name (after ++ (rawRun name chars).2) = false := by
  induction chars generalizing before with
  | nil => exact absurd (List.append_eq_nil_iff.1 h.symm).2 hne
  | cons c rest ih =>
    unfold rawRun at h ⊢
    split at h
    · exact absurd (List.append_eq_nil_iff.1 h.symm).2 hne
    · rename_i hcloses
      rw [if_neg hcloses]
      dsimp only at h ⊢
      cases before with
      | nil =>
        rw [← List.nil_append after, ← h, List.cons_append, rawRun_append]
        exact Bool.eq_false_iff.2 hcloses
      | cons d before => exact ih (List.cons.inj h).2

/-- A position inside what was read is a state that was passed. -/
theorem passed_between {source taken : List Char} {stream rest : Stream} (hstream : Stream.Before ⟨0, source⟩ stream)
    (hread : stream.Reads taken rest) {offset : Nat} (hoffset : isBoundary source offset = true) (hle : stream.offset ≤ offset)
    (hlt : offset < rest.offset) :
    ∃ before after, taken = before ++ after ∧ after ≠ [] ∧ Stream.Before ⟨0, source⟩ ⟨offset, after ++ rest.chars⟩ := by
  obtain ⟨front, hfront⟩ := hstream
  have hsource : source = front ++ stream.chars := hfront.chars
  have hfrontOffset : stream.offset = byteLength front := by simpa using hfront.offset
  obtain ⟨inner, rfl⟩ : ∃ inner, offset = byteLength front + inner := ⟨offset - byteLength front, by omega⟩
  rw [hsource] at hoffset
  obtain ⟨before, tail, htail, rfl⟩ := isBoundary_iff.1 (isBoundary_of_append hoffset)
  have hlength := hread.offset
  rw [hread.chars] at htail
  rcases List.append_eq_append_iff.1 htail with ⟨more, rfl, -⟩ | ⟨after, rfl, rfl⟩
  · rw [byteLength_append] at hlt
    omega
  · refine ⟨before, after, rfl, ?_, front ++ before, ?_, ?_⟩
    · rintro rfl
      rw [List.append_nil] at hlength
      omega
    · simp [hsource, hread.chars]
    · simp

/-- Nothing is left of a file behind its last byte. -/
theorem chars_of_end {source : List Char} {stream : Stream} (hstream : Stream.Before ⟨0, source⟩ stream)
    (hend : stream.offset = byteLength source) : stream.chars = [] := by
  obtain ⟨front, hfront⟩ := hstream
  have hoffset : stream.offset = byteLength front := by simpa using hfront.offset
  have hlength := congrArg byteLength (show source = front ++ stream.chars from hfront.chars)
  rw [byteLength_append] at hlength
  exact (byteLength_eq_zero_iff _).1 (by omega)

/-- Raw content is read up to the first end tag of its name. -/
theorem readRaw_firstEnd {source : List Char} (name : List Char) {stream : Stream} (hstream : Stream.Before ⟨0, source⟩ stream) :
    FirstEnd source name stream.offset (readRaw name stream).2.offset := by
  have hread : stream.Reads (rawRun name stream.chars).1 (readRaw name stream).2 :=
    Stream.reads_after (rawRun_append name stream.chars).symm
  have hafter : Stream.Before ⟨0, source⟩ (readRaw name stream).2 := hstream.trans hread.before
  refine ⟨hread.offset_le, ?_, ?_⟩
  · intro offset hle hlt htag
    obtain ⟨front, found, tail, hsource, hfront, -⟩ := id htag
    obtain ⟨before, after, htaken, hne, hpassed⟩ :=
      passed_between hstream hread (isBoundary_iff.2 ⟨front, _, hsource, hfront⟩) hle hlt
    have hcloses := (endTagAt_iff hpassed).1 htag
    exact Bool.false_ne_true ((rawRun_first htaken hne).symm.trans hcloses)
  · rcases rawRun_ends name stream.chars with hcloses | hnil
    · exact Or.inl ((endTagAt_iff hafter).2 hcloses)
    · exact Or.inr (offset_of_end hafter hnil)

/-! ## The end tag that follows -/

/-- The characters of the name of a tag: a letter first, and nothing that ends a name. -/
structure IsTagName (name : List Char) : Prop where
  starts : startsName name = true
  inside : ∀ c ∈ name, isAsciiSpace c = false ∧ c ≠ '>'

theorem startsName_append {found : List Char} (h : startsName found = true) (rest : List Char) :
    startsName (found ++ rest) = true := by
  cases found with
  | nil => cases h
  | cons c found => exact h

theorem tagName_inside (chars : List Char) : ∀ c ∈ (tagName chars).1, isAsciiSpace c = false ∧ c ≠ '>' := by
  fun_induction tagName chars with
  | case1 => simp
  | case2 => simp
  | case3 => simp
  | case4 c rest _ hc taken after htail ih =>
    rw [htail] at ih
    simp only [Bool.or_eq_true, beq_iff_eq, not_or, Bool.not_eq_true] at hc
    exact List.forall_mem_cons.2 ⟨hc, ih⟩

/-- A name that can start does. -/
theorem tagName_starts {chars : List Char} (h : startsName chars = true) : startsName (tagName chars).1 = true := by
  fun_cases tagName chars with
  | case1 => exact h
  | case2 => cases h
  | case3 c rest _ hc =>
    simp only [Bool.or_eq_true, beq_iff_eq] at hc
    rcases hc with hc | rfl
    · simp only [isAsciiSpace, Bool.or_eq_true, beq_iff_eq] at hc
      rcases hc with (((rfl | rfl) | rfl) | rfl) | rfl <;> cases h
    · cases h
  | case4 => exact h

/-- A start tag is read where one starts. -/
theorem of_readPiece_startTag {around : Surroundings} {stream rest : Stream} {tag : ReadTag}
    (h : readPiece around stream = (.startTag tag, rest)) :
    ∃ chars, stream.chars = '<' :: chars ∧ startsName chars = true ∧ readStartTag around stream = (tag, rest) := by
  have hcontent : ∀ tag rest, readContent around stream ≠ (.startTag tag, rest) := by
    intro tag rest hread
    unfold readContent readInterpolation? at hread
    split at hread
    · cases hcut : cutAt? ['}', '}'] (stream.chars.drop 2) with
      | none => simp [hcut, readText] at hread
      | some cut => simp [hcut] at hread
    · cases hread
  unfold readPiece at h
  split at h
  · unfold readComment at h
    split at h <;> cases h
  · split at h
    · unfold readEndTag at h
      dsimp only at h
      split at h <;> cases h
    · exact absurd h (hcontent _ _)
  · rename_i after _ _ hchars
    split at h
    · rename_i hstarts
      obtain ⟨htag, hrest⟩ := Prod.mk.inj h
      exact ⟨after, hchars, hstarts, Prod.ext (Piece.startTag.inj htag) hrest⟩
    · exact absurd h (hcontent _ _)
  · exact absurd h (hcontent _ _)

/-- The name of a start tag is a name of tags. -/
theorem readPiece_tagName {around : Surroundings} {stream rest : Stream} {tag : ReadTag}
    (h : readPiece around stream = (.startTag tag, rest)) : IsTagName tag.rawName := by
  obtain ⟨chars, hchars, hstarts, hread⟩ := of_readPiece_startTag h
  have hname : tag.rawName = (tagName chars).1 := by
    rw [show tag = (readStartTag around stream).1 from (congrArg Prod.fst hread).symm, readStartTag, hchars]
    rfl
  exact hname ▸ ⟨tagName_starts hstarts, tagName_inside _⟩

theorem isAsciiLetter_iff {c : Char} :
    isAsciiLetter c = true ↔ (65 ≤ c.val.toNat ∧ c.val.toNat ≤ 90) ∨ (97 ≤ c.val.toNat ∧ c.val.toNat ≤ 122) := by
  have hletter : isAsciiLetter c =
      (decide (65 ≤ c.val ∧ c.val ≤ 90) || (decide (97 ≤ c.val) && decide (c.val ≤ 122))) := rfl
  simp [hletter, UInt32.le_iff_toNat_le]

theorem asciiLower_eq (c : Char) :
    (asciiLower c).val.toNat = if 65 ≤ c.val.toNat ∧ c.val.toNat ≤ 90 then c.val.toNat + 32 else c.val.toNat := by
  unfold asciiLower Char.toLower
  split
  · next h =>
    have hA : 65 ≤ c.val.toNat := UInt32.le_iff_toNat_le.1 h.1
    have hZ : c.val.toNat ≤ 90 := UInt32.le_iff_toNat_le.1 h.2
    rw [if_pos ⟨hA, hZ⟩]
    simp [UInt32.toNat_add] at hA hZ ⊢
    omega
  · next h =>
    rw [if_neg]
    exact fun hc => h ⟨UInt32.le_iff_toNat_le.2 hc.1, UInt32.le_iff_toNat_le.2 hc.2⟩

/-- Only letters are the same in another case. -/
theorem letters_of_asciiLower_eq {c d : Char} (h : asciiLower c = asciiLower d) :
    c = d ∨ (isAsciiLetter c = true ∧ isAsciiLetter d = true) := by
  have hnumber : (asciiLower c).val.toNat = (asciiLower d).val.toNat := by rw [h]
  rw [asciiLower_eq, asciiLower_eq] at hnumber
  rw [isAsciiLetter_iff, isAsciiLetter_iff]
  by_cases heq : c.val.toNat = d.val.toNat
  · exact Or.inl (Char.ext (UInt32.toNat_inj.1 heq))
  · refine Or.inr ?_
    split at hnumber <;> split at hnumber <;> omega

theorem not_end_of_letter {c : Char} (h : isAsciiLetter c = true) : isAsciiSpace c = false ∧ c ≠ '>' := by
  refine ⟨Bool.eq_false_iff.2 fun hspace => ?_, ?_⟩
  · simp only [isAsciiSpace, Bool.or_eq_true, beq_iff_eq] at hspace
    rcases hspace with (((rfl | rfl) | rfl) | rfl) | rfl <;> cases h
  · rintro rfl
    cases h

/-- A name in another case is a name. -/
theorem IsTagName.of_eqIgnoreAsciiCase {name found : List Char} (h : IsTagName name)
    (heq : eqIgnoreAsciiCase found name = true) : IsTagName found := by
  obtain ⟨hstarts, hinside⟩ := h
  replace heq : found.map asciiLower = name.map asciiLower := beq_iff_eq.1 heq
  refine ⟨?_, ?_⟩
  · cases name with
    | nil => cases hstarts
    | cons d name =>
      cases found with
      | nil => cases heq
      | cons c found =>
        rcases letters_of_asciiLower_eq (List.cons.inj heq).1 with rfl | ⟨hc, -⟩
        · exact hstarts
        · exact hc
  · intro c hc
    obtain ⟨d, hd, hcd⟩ := List.mem_map.1 (heq ▸ List.mem_map_of_mem hc : asciiLower c ∈ name.map asciiLower)
    rcases letters_of_asciiLower_eq hcd with rfl | ⟨-, hletter⟩
    · exact hinside d hd
    · exact not_end_of_letter hletter

/-- Where raw content has ended, the next piece is the end tag of its name. -/
theorem readPiece_of_closesRaw (around : Surroundings) {stream : Stream} {name : List Char} (hname : IsTagName name)
    (h : closesRaw name stream.chars = true) :
    ∃ found span close rest, readPiece around stream = (.endTag found span close, rest) ∧ span.start = stream.offset ∧
      eqIgnoreAsciiCase name found = true := by
  obtain ⟨found, after, hchars, heq, hafter⟩ := closesRaw_iff.1 h
  obtain ⟨hstarts, hinside⟩ := hname.of_eqIgnoreAsciiCase heq
  have hpiece : readPiece around stream = readEndTag stream := by
    cases found with
    | nil => cases hstarts
    | cons c found =>
      have hc : isAsciiLetter c = true := hstarts
      simp [readPiece, hchars, startsName, hc]
  have hspan : ((Stream.skip 2 stream).span fun c => !isAsciiSpace c && c != '>').1 = found := by
    rw [Stream.span_fst, show (Stream.skip 2 stream).chars = found ++ after by simp [Stream.skip, Stream.next, hchars],
      List.takeWhile_append_of_pos fun c hc => by simp [hinside c hc]]
    cases after with
    | nil => simp
    | cons c after =>
      rcases hafter c rfl with hblank | rfl
      · simp [hblank]
      · simp
  have hsym : eqIgnoreAsciiCase name found = true := by
    rw [eqIgnoreAsciiCase, beq_iff_eq] at heq ⊢
    exact heq.symm
  rw [hpiece, readEndTag]
  dsimp only
  rw [hspan]
  split
  · exact ⟨_, _, _, _, rfl, rfl, hsym⟩
  · exact ⟨_, _, _, _, rfl, rfl, hsym⟩

/-! ## Blocks with raw content -/

/-- Whether the content of an element is not markup, if it can have any. -/
def Element.holdsRaw (element : Element) (topLevel : Bool) : Bool :=
  !(element.startTag.selfClosing || element.isVoid) && element.isRaw topLevel

/-- An element of a tree whose content is not markup. -/
structure RawElement (nodes : Array Node) (id : Nat) (node : Node) (element : Element) : Prop where
  found : nodes[id]? = some node
  kind : node.kind = .element element
  holds : element.holdsRaw (parentOf nodes id == some 0) = true

/-- What a tree holds of raw content from `start` to `stop`: one text, or nothing if the content is empty. -/
def HoldsText (nodes : Array Node) (id : Nat) (children : Array NodeId) (start stop : Nat) : Prop :=
  (children = #[] ∧ stop = start) ∨
    ∃ child : Nat, children = #[child] ∧ nodes[child]? = some ⟨child, some id, #[], ⟨start, stop⟩, .text⟩

/-- Raw content that has been read, up to the first end tag of its element. -/
structure RawContent (source : List Char) (nodes : Array Node) (id : Nat) (node : Node) (element : Element) (stop : Nat) :
    Prop where
  first : FirstEnd source element.rawName.toList element.startTag.span.stop stop
  text : HoldsText nodes id node.children element.startTag.span.stop stop

/-- A block with raw content that its end tag has closed. -/
def RawShut (source : List Char) (builder : Builder) (id : Nat) (node : Node) (element : Element) : Prop :=
  id ∉ builder.stack ∧ ∃ stop tag, RawContent source builder.nodes id node element stop ∧ element.endTag = some tag ∧
    tag.start = stop

/-- A block with raw content that is open: it is the innermost, and the file has been read up to the end of its content. -/
def RawOpen (source : List Char) (builder : Builder) (stream : Stream) (id : Nat) (node : Node) (element : Element) : Prop :=
  builder.stack.head? = some id ∧ RawContent source builder.nodes id node element stream.offset

/-- The elements of a tree have names of tags. -/
def Named (nodes : Array Node) : Prop :=
  ∀ (id : Nat) (node : Node) (element : Element), nodes[id]? = some node → node.kind = .element element →
    IsTagName element.rawName.toList

/-- All blocks with raw content are closed, but for the innermost open element. -/
structure Guarded (source : List Char) (builder : Builder) (stream : Stream) : Prop where
  standing : Standing (byteLength source) builder.nodes builder.stack stream.offset
  before : Stream.Before ⟨0, source⟩ stream
  named : Named builder.nodes
  raw : ∀ (id : Nat) (node : Node) (element : Element), RawElement builder.nodes id node element →
    RawShut source builder id node element ∨ RawOpen source builder stream id node element

namespace Builder

variable {source : List Char} {builder : Builder} {id : Nat} {node : Node} {element : Element}

/-- A block that is closed stays as it is. -/
theorem RawShut.add (h : RawShut source builder id node element) (hnode : builder.nodes[id]? = some node)
    (hshaped : Shaped builder.nodes builder.stack) (fileStop : Nat) (piece : Piece) :
    (builder.add fileStop piece).nodes[id]? = some node ∧ RawShut source (builder.add fileStop piece) id node element := by
  obtain ⟨hid, stop, tag, ⟨hfirst, htext⟩, htag, hstart⟩ := h
  obtain ⟨hlt, -⟩ := Array.getElem?_eq_some_iff.1 hnode
  refine ⟨(add_apart hshaped fileStop piece hlt hid).trans hnode, ?_, stop, tag, ⟨hfirst, ?_⟩, htag, hstart⟩
  · intro hmem
    rcases mem_stack_add hmem with hmem | heq
    · exact hid hmem
    · exact absurd heq (Nat.ne_of_lt hlt)
  · rcases htext with hempty | ⟨child, hchildren, hchild⟩
    · exact Or.inl hempty
    · obtain ⟨hchildLt, -⟩ := Array.getElem?_eq_some_iff.1 hchild
      have hclosed : child ∉ builder.stack := not_mem_stack hshaped hchild rfl
      exact Or.inr ⟨child, hchildren, (add_apart hshaped fileStop piece hchildLt hclosed).trans hchild⟩

/-- A block with raw content was one before a piece was added, or is the element of that piece. -/
theorem rawElement_of_add {stream rest : Stream} {piece : Piece} {taken : List Char}
    (hstanding : Standing (byteLength source) builder.nodes builder.stack stream.offset)
    (hread : piece.ReadFrom language stream taken rest) (hlt : stream.offset < rest.offset)
    (h : RawElement (builder.add (byteLength source) piece).nodes id node element) :
    (∃ old element', RawElement builder.nodes id old element') ∨
      (∃ tag, piece = .startTag tag ∧ element = builder.elementOf tag ∧ id = builder.nodes.size ∧
        node.parent = some builder.current ∧ node.children = #[]) := by
  obtain ⟨hnode, hkind, hholds⟩ := h
  rcases Nat.lt_or_ge id builder.nodes.size with hsize | hge
  · rw [parentOf_add builder _ piece hsize] at hholds
    have hold : builder.nodes[id]? = some builder.nodes[id] := Array.getElem?_eq_getElem hsize
    obtain ⟨node', hnode', hbecomes⟩ := (add_steps hstanding hread hlt).old id _ hold
    cases hnode.symm.trans hnode'
    cases hbecomes with
    | same hsame _ => exact Or.inl ⟨_, element, hold, hsame ▸ hkind, hholds⟩
    | tagged hpiece holdKind hopen hname htagged =>
      cases hkind.symm.trans htagged
      exact Or.inl ⟨_, _, hold, holdKind, hholds⟩
  · exact Or.inr (add_newElement hstanding.shaped hnode hge hkind)

/-- Blocks that are closed stay so when a piece is added; the element of a start tag may be a new block. -/
theorem rawShut_of_add {stream rest : Stream} {piece : Piece} {taken : List Char}
    (hstanding : Standing (byteLength source) builder.nodes builder.stack stream.offset)
    (hread : piece.ReadFrom language stream taken rest) (hlt : stream.offset < rest.offset)
    (hraw : RawElement (builder.add (byteLength source) piece).nodes id node element)
    (hshut : ∀ old element', RawElement builder.nodes id old element' → RawShut source builder id old element') :
    RawShut source (builder.add (byteLength source) piece) id node element ∨
      (∃ tag, piece = .startTag tag ∧ element = builder.elementOf tag ∧ id = builder.nodes.size ∧
        node.parent = some builder.current ∧ node.children = #[]) := by
  rcases rawElement_of_add hstanding hread hlt hraw with ⟨old, element', hold⟩ | hnew
  · obtain ⟨hsame, hadded⟩ := RawShut.add (hshut old element' hold) hold.found hstanding.shaped (byteLength source) piece
    cases hraw.found.symm.trans hsame
    cases hraw.kind.symm.trans hold.kind
    exact Or.inl hadded
  · exact Or.inr hnew

/-- Names of tags stay names of tags. -/
theorem named_add {piece : Piece} {added : Builder} (h : Named builder.nodes) (hsteps : Steps builder piece added)
    (hpiece : ∀ tag, piece = .startTag tag → IsTagName tag.rawName) : Named added.nodes := by
  intro id node element hnode hkind
  rcases hsteps.cases hnode with ⟨old, hold, hbecomes⟩ | ⟨-, hadds⟩
  · cases hbecomes with
    | same hsame _ => exact h id old element hold (hsame ▸ hkind)
    | @tagged _ _ _ element' _ holdKind _ _ htagged =>
      cases hkind.symm.trans htagged
      exact h id old element' hold holdKind
  · cases piece with
    | startTag tag =>
      obtain ⟨element', hkind', -, -, -, hname⟩ := hadds
      cases hkind.symm.trans hkind'
      rw [hname, String.toList_ofList]
      exact hpiece tag rfl
    | endTag => exact hadds.elim
    | _ =>
      rw [hkind] at hadds
      cases hadds

/-- Reading the end tag of the block that is open. -/
theorem advance_rawOpen (language : Script.Language) {stream : Stream} (h : Guarded source builder stream)
    (hne : stream.chars ≠ []) (hraw : RawElement builder.nodes id node element)
    (hopen : RawOpen source builder stream id node element) :
    ∃ found tag close rest outer, readPiece (builder.surroundings language) stream = (.endTag found tag close, rest) ∧
      tag.start = stream.offset ∧ builder.stack = id :: outer ∧
        (builder.add (byteLength source) (.endTag found tag close)).stack = outer ∧
      (builder.add (byteLength source) (.endTag found tag close)).nodes = builder.nodes.modify id (Node.shutWith tag) := by
  obtain ⟨hhead, hfirst, htext⟩ := hopen
  have hname := h.named id node element hraw.found hraw.kind
  have hcloses : closesRaw element.rawName.toList stream.chars = true := by
    rcases hfirst.ends with htag | hend
    · exact (endTagAt_iff h.before).1 htag
    · exact absurd (chars_of_end h.before hend) hne
  obtain ⟨found, tag, close, rest, hpiece, hstart, heq⟩ := readPiece_of_closesRaw (builder.surroundings language) hname hcloses
  obtain ⟨outer, hstack⟩ : ∃ outer, builder.stack = id :: outer := List.head?_eq_some_iff.1 hhead
  have hended := endElement_current (builder.record (byteLength source) (.endTag found tag close)) tag hstack
    (closes_iff.2 ⟨node, element, hraw.found, hraw.kind, heq⟩)
  refine ⟨found, tag, close, rest, outer, hpiece, hstart, hstack, ?_, ?_⟩
  · rw [add, apply, hended]
  · rw [add, apply, hended]
    rfl

/-- Closing the block that is open keeps all blocks guarded. -/
theorem Guarded.close (language : Script.Language) {stream : Stream} (h : Guarded source builder stream)
    (hne : stream.chars ≠ []) (hraw : RawElement builder.nodes id node element)
    (hopen : RawOpen source builder stream id node element) :
    Guarded source (advance language (byteLength source) builder stream).1
      (advance language (byteLength source) builder stream).2 := by
  obtain ⟨found, tag, close, rest, outer, hpiece, hstart, hstack, hadded, hnodes⟩ := advance_rawOpen language h hne hraw hopen
  obtain ⟨hlt, taken, hread⟩ := readPiece_readFrom (builder.surroundings language) hne
  have hadvance : advance language (byteLength source) builder stream =
      (builder.add (byteLength source) (.endTag found tag close), rest) := by
    simp [advance, hpiece, rawName?]
  rw [hpiece] at hread hlt
  rw [hadvance]
  have hstanding := kept_standing _ _ _ _ _ _ h.standing hread hlt
  refine ⟨hstanding, h.before.trans hread.reads.before, named_add h.named (add_steps h.standing hread hlt) (by simp), ?_⟩
  intro other otherNode otherElement hother
  by_cases hid : other = id
  · -- The block that was open: its content is as before, and it has an end tag now.
    subst hid
    have hnode := hother.found
    rw [hnodes, getElem?_modify_map, hraw.found, Option.map_some, if_pos rfl] at hnode
    obtain rfl := Option.some.inj hnode
    have hkind : otherElement = { element with endTag := some tag } := by
      have htagged := hother.kind
      simp only [Node.shutWith, hraw.kind, NodeKind.element.injEq] at htagged
      exact htagged.symm
    subst hkind
    refine Or.inl ⟨fun hmem => ?_, stream.offset, tag, ⟨hopen.2.first, ?_⟩, rfl, hstart⟩
    · cases hstanding.placed.unclosed _ hmem _ _ hother.found hother.kind
    · rw [(Node.keepsShape_shutWith tag).children]
      rcases hopen.2.text with hempty | ⟨child, hchildren, hchild⟩
      · exact Or.inl hempty
      · obtain ⟨hchildLt, -⟩ := Array.getElem?_eq_some_iff.1 hchild
        have hclosed := not_mem_stack h.standing.shaped hchild rfl
        exact Or.inr ⟨child, hchildren, (add_apart h.standing.shaped _ _ hchildLt hclosed).trans hchild⟩
  · have hshut : ∀ old element', RawElement builder.nodes other old element' → RawShut source builder other old element' := by
      intro old element' hold
      refine (h.raw other old element' hold).resolve_right fun hopen' => hid ?_
      exact Option.some.inj (hopen'.1.symm.trans hopen.1)
    rcases rawShut_of_add h.standing hread hlt hother hshut with hadded | ⟨_, hstartTag, -⟩
    · exact Or.inl hadded
    · cases hstartTag

/-- The element of a start tag holds raw content exactly when such content is read behind the tag. -/
theorem rawName?_startTag (tag : ReadTag) : builder.rawName? (.startTag tag) =
    if (builder.elementOf tag).holdsRaw (builder.current == 0) then some tag.rawName else none := rfl

theorem rawName?_eq_some {piece : Piece} {name : List Char} (h : builder.rawName? piece = some name) :
    ∃ tag, piece = .startTag tag ∧ name = tag.rawName ∧ (builder.elementOf tag).holdsRaw (builder.current == 0) = true := by
  cases piece with
  | startTag tag =>
    rw [rawName?_startTag] at h
    split at h
    · rename_i hholds
      exact ⟨tag, rfl, (Option.some.inj h).symm, hholds⟩
    · cases h
  | _ => cases h

/-- The element of a start tag that holds raw content is opened. -/
theorem add_rawStart (h : Shaped builder.nodes builder.stack) (fileStop : Nat) {tag : ReadTag}
    (hholds : (builder.elementOf tag).holdsRaw (builder.current == 0) = true) :
    (builder.add fileStop (.startTag tag)).stack = builder.nodes.size :: builder.stack ∧
      (builder.add fileStop (.startTag tag)).nodes.size = builder.nodes.size + 1 ∧
      (builder.add fileStop (.startTag tag)).nodes[builder.nodes.size]? =
        some ⟨builder.nodes.size, some builder.current, #[], ⟨tag.start, tag.stop⟩, .element (builder.elementOf tag)⟩ := by
  have hopens : ((builder.elementOf tag).startTag.selfClosing || (builder.elementOf tag).isVoid) = false := by
    simpa using (Bool.and_eq_true_iff.1 hholds).1
  have hadd : builder.add fileStop (.startTag tag) =
      { (builder.record fileStop (.startTag tag)).push ⟨tag.start, tag.stop⟩ (.element (builder.elementOf tag)) with
        stack := builder.nodes.size :: builder.stack } := by
    rw [add, apply, startElement]
    exact if_neg (by rw [Bool.not_eq_true]; exact hopens)
  rw [hadd]
  exact ⟨rfl, size_grow, grow_new h.current_lt⟩

/-- Raw content that is read behind a start tag is one text under the new element, or nothing if it is empty. -/
theorem add_rawContent {opened : Builder} (fileStop : Nat) (name : List Char) (stream : Stream)
    (hstack : opened.stack.head? = some id) (hnode : opened.nodes[id]? = some node) (hkind : node.kind.hasContent = true)
    (hchildren : node.children = #[]) :
    ∃ filled, (opened.add fileStop (readRaw name stream).1).nodes[id]? = some filled ∧ filled.kind = node.kind ∧
      (opened.add fileStop (readRaw name stream).1).stack = opened.stack ∧
      HoldsText (opened.add fileStop (readRaw name stream).1).nodes id filled.children stream.offset
        (readRaw name stream).2.offset := by
  have hpiece : (readRaw name stream).1 = .raw ⟨stream.offset, (readRaw name stream).2.offset⟩ := rfl
  obtain ⟨hlt, -⟩ := Array.getElem?_eq_some_iff.1 hnode
  have hcurrent : opened.current = id := by rw [current, List.headD_eq_head?_getD, hstack, Option.getD_some]
  rw [hpiece, add, apply]
  split
  · have hgrown : ((opened.record fileStop (.raw ⟨stream.offset, (readRaw name stream).2.offset⟩)).push
        ⟨stream.offset, (readRaw name stream).2.offset⟩ .text).nodes =
        grow opened.nodes id ⟨stream.offset, (readRaw name stream).2.offset⟩ .text := by
      rw [← hcurrent]
      rfl
    refine ⟨node.adopt opened.nodes.size, ?_, Node.adopt_kind _ _, rfl, Or.inr ⟨opened.nodes.size, ?_, ?_⟩⟩
    · rw [hgrown, grow_old id hlt, hnode, Option.map_some, if_pos rfl]
    · rw [Node.adopt_children hkind, hchildren]
      rfl
    · rw [hgrown]
      exact grow_new hlt
  · rename_i hempty
    have hle : stream.offset ≤ (readRaw name stream).2.offset :=
      (Stream.reads_after (rawRun_append name stream.chars).symm).offset_le
    exact ⟨node, hnode, rfl, rfl, Or.inl ⟨hchildren, by dsimp only at hempty; omega⟩⟩

/-- Adding raw content keeps names, and all blocks closed that are. -/
theorem kept_addRaw (language : Script.Language) {opened : Builder} {stream : Stream} (name : List Char)
    (hstanding : Standing (byteLength source) opened.nodes opened.stack stream.offset) (hnamed : Named opened.nodes) {new : Nat}
    (hshut : ∀ id node element, id ≠ new → RawElement opened.nodes id node element → RawShut source opened id node element) :
    Named (opened.add (byteLength source) (readRaw name stream).1).nodes ∧ ∀ id node element, id ≠ new →
      RawElement (opened.add (byteLength source) (readRaw name stream).1).nodes id node element →
      RawShut source (opened.add (byteLength source) (readRaw name stream).1) id node element := by
  obtain ⟨taken, hread⟩ := readRaw_readFrom language name stream
  have hpiece : (readRaw name stream).1 = .raw ⟨stream.offset, (readRaw name stream).2.offset⟩ := rfl
  rcases Nat.lt_or_eq_of_le hread.reads.offset_le with hlt | heq
  · refine ⟨named_add hnamed (add_steps hstanding hread hlt) (by simp [hpiece]), ?_⟩
    intro id node element hid hraw
    rcases rawShut_of_add hstanding hread hlt hraw fun old element' => hshut id old element' hid with hdone | ⟨_, htag, -⟩
    · exact hdone
    · cases htag
  · rw [hpiece, ← heq, add_raw_empty]
    exact ⟨hnamed, hshut⟩

/-- Reading the next piece keeps all blocks guarded. -/
theorem Guarded.advance (language : Script.Language) {stream : Stream} (h : Guarded source builder stream)
    (hne : stream.chars ≠ []) :
    Guarded source (advance language (byteLength source) builder stream).1
      (advance language (byteLength source) builder stream).2 := by
  by_cases hopen : ∃ id node element, RawElement builder.nodes id node element ∧ RawOpen source builder stream id node element
  · obtain ⟨id, node, element, hraw, hopen⟩ := hopen
    exact Guarded.close language h hne hraw hopen
  have hshut : ∀ id node element, RawElement builder.nodes id node element → RawShut source builder id node element := by
    intro id node element hraw
    exact (h.raw id node element hraw).resolve_right fun hid => hopen ⟨id, node, element, hraw, hid⟩
  obtain ⟨hlt, taken, hread⟩ := readPiece_readFrom (builder.surroundings language) hne
  obtain ⟨piece, rest, hpiece⟩ : ∃ piece rest, readPiece (builder.surroundings language) stream = (piece, rest) := ⟨_, _, rfl⟩
  rw [hpiece] at hlt hread
  have hstanding := kept_standing _ _ _ _ _ _ h.standing hread hlt
  have hrest : Stream.Before ⟨0, source⟩ rest := h.before.trans hread.reads.before
  have hnamed : Named (builder.add (byteLength source) piece).nodes :=
    named_add h.named (add_steps h.standing hread hlt) fun tag htag => readPiece_tagName (hpiece.trans (by rw [htag]))
  have hadded := fun id node element (hraw : RawElement (builder.add (byteLength source) piece).nodes id node element) =>
    rawShut_of_add h.standing hread hlt hraw fun old element' => hshut id old element'
  cases hname : builder.rawName? piece with
  | none =>
    rw [advance_plain hpiece hname]
    refine ⟨hstanding, hrest, hnamed, ?_⟩
    intro id node element hraw
    rcases hadded id node element hraw with hdone | ⟨tag, rfl, rfl, rfl, hparent, -⟩
    · exact Or.inl hdone
    · -- A new element with raw content would be followed by that content.
      have hholds := hraw.holds
      rw [parentOf, hraw.found, Option.bind_some, hparent, Option.some_beq_some] at hholds
      rw [rawName?_startTag, if_pos hholds] at hname
      cases hname
  | some name =>
    obtain ⟨tag, rfl, rfl, hholds⟩ := rawName?_eq_some hname
    obtain ⟨hstack, hsize, hnode⟩ := add_rawStart h.standing.shaped (byteLength source) hholds
    obtain ⟨filled, hfilled, hkind, hstack', htext⟩ := add_rawContent (byteLength source) tag.rawName rest
      (by rw [hstack]; rfl) hnode rfl rfl
    have hopened : ∀ id node element, id ≠ builder.nodes.size →
        RawElement (builder.add (byteLength source) (.startTag tag)).nodes id node element →
        RawShut source (builder.add (byteLength source) (.startTag tag)) id node element := by
      intro id node element hid hraw
      rcases hadded id node element hraw with hdone | ⟨_, _, _, hnew, _⟩
      · exact hdone
      · exact absurd hnew hid
    obtain ⟨hnamed', hshut'⟩ := kept_addRaw language tag.rawName hstanding hnamed hopened
    obtain ⟨taken', hraw⟩ := readRaw_readFrom language tag.rawName rest
    have hstop : tag.stop = rest.offset := congrArg Span.stop hread.span
    have hend := advance_kept language (kept_standing (byteLength source)) h.standing hne
    rw [advance_raw hpiece hname] at hend ⊢
    refine ⟨hend, hrest.trans hraw.reads.before, hnamed', ?_⟩
    intro id node element hblock
    by_cases hid : id = builder.nodes.size
    · subst hid
      cases hblock.found.symm.trans hfilled
      cases hblock.kind.symm.trans hkind
      have hfirst := readRaw_firstEnd tag.rawName hrest
      have hrawName : (builder.elementOf tag).rawName.toList = tag.rawName := String.toList_ofList
      refine Or.inr ⟨by rw [hstack', hstack]; rfl, ?_, ?_⟩
      · rw [hrawName, show (builder.elementOf tag).startTag.span.stop = rest.offset from hstop]
        exact hfirst
      · rw [show (builder.elementOf tag).startTag.span.stop = rest.offset from hstop]
        exact htext
    · exact Or.inl (hshut' id node element hid hblock)

/-- All blocks are guarded after any number of steps. -/
theorem reading_guarded (language : Script.Language) (source : List Char) (steps : Nat) :
    Guarded source (reading language source steps).1 (reading language source steps).2 := by
  have hrun : ∀ fuel builder stream, Guarded source builder stream →
      Guarded source (run language (byteLength source) fuel builder stream).1
        (run language (byteLength source) fuel builder stream).2 := by
    intro fuel
    induction fuel with
    | zero => exact fun _ _ h => h
    | succ fuel ih =>
      intro builder stream h
      unfold run
      split
      · exact h
      · rename_i hne
        exact ih _ _ (Guarded.advance language h (by simpa using hne))
  refine hrun steps _ _ ⟨start_standing _, Stream.Before.refl _, ?_, ?_⟩
  · intro id node element hnode hkind
    obtain ⟨-, rfl⟩ := start_nodes hnode
    cases hkind
  · intro id node element hraw
    obtain ⟨-, rfl⟩ := start_nodes hraw.found
    cases hraw.kind

end Builder

/-! ## Whole files -/

/-- Content that is not read as markup, from the start tag of an element up to `stop`: the tree holds one text of it, or
nothing if it is empty, and the end tag of the element, if it has one, stands there. -/
structure Document.Unparsed (document : Document) (id : NodeId) (element : Element) (stop : Nat) : Prop where
  first : FirstEnd document.source element.rawName.toList element.startTag.span.stop stop
  content : (document.children id = [] ∧ stop = element.startTag.span.stop) ∨
    ∃ child : Nat, document.children id = [child] ∧
      document.node? child = some ⟨child, some id, #[], ⟨element.startTag.span.stop, stop⟩, .text⟩
  endTag : EndTagAt document.source element.rawName.toList stop → ∃ tag, element.endTag = some tag ∧ tag.start = stop
  tagged : ∀ tag, element.endTag = some tag → tag.start = stop
  /-- An element without an end tag runs to the end of the file. -/
  untagged : element.endTag = none → stop = (document.spanOf id).stop ∧ stop = byteLength document.source

/-- No end tag stands behind the last byte of a file. -/
theorem EndTagAt.lt {source name : List Char} {offset : Nat} (h : EndTagAt source name offset) : offset < byteLength source := by
  obtain ⟨before, found, after, rfl, rfl, -⟩ := h
  have := '<'.utf8Size_pos
  simp only [byteLength_append, byteLength_cons]
  omega

namespace Builder

/-- The text of raw content stays as it is at the end of the file. -/
theorem HoldsText.finish {builder : Builder} {id start stop : Nat} {children : Array NodeId} (fileStop : Nat)
    (hshaped : Shaped builder.nodes builder.stack) (h : HoldsText builder.nodes id children start stop) :
    HoldsText (builder.finish fileStop).nodes id children start stop := by
  rcases h with hempty | ⟨child, hchildren, hchild⟩
  · exact Or.inl hempty
  · have hclosed : child ∉ builder.stack.dropLast :=
      fun hmem => not_mem_stack hshaped hchild rfl ((List.dropLast_prefix _).subset hmem)
    exact Or.inr ⟨child, hchildren, by rw [getElem?_finish, hchild, Option.map_some, if_neg hclosed]⟩

end Builder

theorem HoldsText.children (document : Document) {id start stop : Nat} {node : Node} (hnode : document.nodes[id]? = some node)
    (h : HoldsText document.nodes id node.children start stop) :
    (document.children id = [] ∧ stop = start) ∨ ∃ child : Nat, document.children id = [child] ∧
      document.node? child = some ⟨child, some id, #[], ⟨start, stop⟩, .text⟩ := by
  have hchildren : document.children id = node.children.toList := by simp [Document.children, Document.node?, hnode]
  rw [hchildren]
  rcases h with ⟨hempty, hstop⟩ | ⟨child, hone, hchild⟩
  · exact Or.inl ⟨by rw [hempty], hstop⟩
  · exact Or.inr ⟨child, by rw [hone], hchild⟩

/-- The content of elements that hold raw content is unparsed in the tree of every file. -/
theorem parse_unparsed (language : Script.Language) (source : List Char) {id : Nat} {element : Element}
    (helement : (parse language source).1.element? id = some element)
    (hholds : element.holdsRaw ((parse language source).1.parent? id == some 0) = true) :
    ∃ stop, (parse language source).1.Unparsed id element stop := by
  have hguarded := Builder.reading_guarded language source source.length
  have hend := Builder.reading_end language source
  rw [parse_eq] at helement hholds ⊢
  generalize Builder.reading language source source.length = built at hguarded hend helement hholds ⊢
  obtain ⟨builder, stream⟩ := built
  obtain rfl : stream = ⟨byteLength source, []⟩ := hend
  dsimp only at helement hholds hguarded ⊢
  have hshaped := hguarded.standing.shaped
  obtain ⟨node, hnode, hkind⟩ := Document.element?_eq_some_iff.1 helement
  obtain ⟨old, hold, hfinished⟩ := Option.map_eq_some_iff.1 (Builder.getElem?_finish _ builder id ▸ hnode)
  have hsame : node.kind = old.kind ∧ node.children = old.children := by
    rw [← hfinished]
    split <;> exact ⟨rfl, rfl⟩
  have hraw : RawElement builder.nodes id old element :=
    ⟨hold, hsame.1 ▸ hkind, by rw [← Builder.parentOf_finish (byteLength source)]; exact hholds⟩
  have hcontent := fun stop (htext : HoldsText builder.nodes id old.children element.startTag.span.stop stop) =>
    HoldsText.children ⟨source, (builder.finish (byteLength source)).nodes, builder.tokens⟩ hnode
      (hsame.2 ▸ Builder.HoldsText.finish (byteLength source) hshaped htext)
  rcases hguarded.raw id old element hraw with ⟨-, stop, tag, hread, htag, hstart⟩ | ⟨hhead, hread⟩
  · refine ⟨stop, hread.first, hcontent stop hread.text, fun _ => ⟨tag, htag, hstart⟩, ?_, ?_⟩
    · intro tag' htag'
      cases htag.symm.trans htag'
      exact hstart
    · intro hnone
      cases htag.symm.trans hnone
  · have hopen : element.endTag = none :=
      hguarded.standing.placed.unclosed id (List.mem_of_head? hhead) old element hold hraw.kind
    refine ⟨byteLength source, hread.first, hcontent _ hread.text, fun htag => absurd htag.lt (Nat.lt_irrefl _), ?_, ?_⟩
    · intro tag htag
      cases hopen.symm.trans htag
    · intro _
      refine ⟨?_, rfl⟩
      -- The root is open below the element, so the element is among the nodes that are closed at the end of the file.
      have hmem : id ∈ builder.stack.dropLast := by
        obtain ⟨outer, hstack⟩ := List.head?_eq_some_iff.1 hhead
        have hlast := hshaped.chain.getLast?
        rw [hstack] at hlast ⊢
        cases outer with
        | nil =>
          obtain rfl : id = 0 := Option.some.inj hlast
          obtain ⟨root, hroot, hrootKind, -⟩ := hshaped.root
          cases hold.symm.trans hroot
          cases hraw.kind.symm.trans hrootKind
        | cons above outer => exact List.mem_cons_self
      rw [if_pos hmem] at hfinished
      simp [Document.spanOf, Document.node?, hnode, ← hfinished, Node.shut]

/-! ## Components -/

/-- A script element holds raw content unless it is self-closing. -/
theorem Element.holdsRaw_script {element : Element} (hname : element.name = "script")
    (hself : element.startTag.selfClosing = false) (topLevel : Bool) : element.holdsRaw topLevel = true := by
  have hvoid : isVoidName "script" = false := by decide
  simp [holdsRaw, isVoid, isRaw, hname, hself, hvoid]

end ComponentLint.Markup

namespace ComponentLint

open Text Markup

/-- The content of a script block is what its tags enclose. -/
theorem Component.contentOf_unparsed {document : Document} {id : NodeId} {element : Element} {stop : Nat}
    (h : document.Unparsed id element stop) : contentOf document id element = ⟨element.startTag.span.stop, stop⟩ := by
  unfold contentOf
  cases htag : element.endTag with
  | some tag => simp [h.tagged tag htag]
  | none => simp [(h.untagged htag).1]

/-- Raw content is not parsed: in every component, an element whose content is not markup has no child or one text up to its end
tag, the first of its name, and that is where the content of a script ends. -/
theorem Component.rawBlocks_unparsed (source : List Char) :
    (∀ id element, (Component.parse languages source).document.element? id = some element →
      element.isRaw ((Component.parse languages source).document.parent? id == some 0) = true → element.isVoid = false →
      element.startTag.selfClosing = false → ∃ stop, (Component.parse languages source).document.Unparsed id element stop) ∧
    ∀ block ∈ (Component.parse languages source).scripts, ∃ element,
      (Component.parse languages source).document.element? block.element = some element ∧
      (element.startTag.selfClosing = false → ∃ stop,
        FirstEnd source element.rawName.toList element.startTag.span.stop stop ∧
        block.content = ⟨element.startTag.span.stop, stop⟩) := by
  refine ⟨?_, ?_⟩
  · intro id element helement hraw hvoid hself
    refine Markup.parse_unparsed _ source helement ?_
    rw [Element.holdsRaw, hself, hvoid]
    exact hraw
  · intro block hblock
    obtain ⟨id, element, -, helement, hname, rfl⟩ := Component.mem_scripts hblock
    refine ⟨element, helement, fun hself => ?_⟩
    obtain ⟨stop, hcontent⟩ := Markup.parse_unparsed _ source helement
      (Element.holdsRaw_script hname hself _)
    exact ⟨stop, hcontent.first, contentOf_unparsed hcontent⟩

/-- A file with end tags of other names in a script and in a style, which is not closed. -/
def Component.nearMisses : List Char :=
  "<script>'</scripts>'</SCRIPT ><style>a</styles>".toList

theorem Component.rawBlocks_unparsed_nearMisses :
    (∀ id ∈ [1, 3], ∃ element stop, (Component.parse Script.Dialect.language nearMisses).document.element? id = some element ∧
      (Component.parse Script.Dialect.language nearMisses).document.Unparsed id element stop) ∧
    ∀ block ∈ (Component.parse Script.Dialect.language nearMisses).scripts, ∃ element stop,
      (Component.parse Script.Dialect.language nearMisses).document.element? block.element = some element ∧
      FirstEnd nearMisses element.rawName.toList element.startTag.span.stop stop ∧
      block.content = ⟨element.startTag.span.stop, stop⟩ := by
  have hholds : ∀ id ∈ [1, 3], ((Component.parse Script.Dialect.language nearMisses).document.element? id).any fun element =>
      element.isRaw ((Component.parse Script.Dialect.language nearMisses).document.parent? id == some 0) && !element.isVoid &&
        !element.startTag.selfClosing := by
    decide +kernel
  have hopen : ∀ block ∈ (Component.parse Script.Dialect.language nearMisses).scripts,
      ((Component.parse Script.Dialect.language nearMisses).document.element? block.element).all (!·.startTag.selfClosing) := by
    decide +kernel
  refine ⟨?_, ?_⟩
  · intro id hid
    obtain ⟨element, helement, hraw⟩ := (Option.any_eq_true _ _).1 (hholds id hid)
    simp only [Bool.and_eq_true, Bool.not_eq_true'] at hraw
    obtain ⟨stop, hstop⟩ := (rawBlocks_unparsed nearMisses).1 id element helement hraw.1.1 hraw.1.2 hraw.2
    exact ⟨element, stop, helement, hstop⟩
  · intro block hblock
    obtain ⟨element, helement, hcontent⟩ := (rawBlocks_unparsed nearMisses).2 block hblock
    have hself := hopen block hblock
    rw [helement] at hself
    obtain ⟨stop, hstop⟩ := hcontent (by simpa using hself)
    exact ⟨element, stop, helement, hstop⟩

end ComponentLint
