import ComponentLint.Proofs.Markup.Regapping

/-!
# Edits of raw content

A word in raw content is exchanged for another one. The content still ends where it did, since no end tag can
begin in a word or be completed by one that is longer than its name (`rawRun_exchange`). So the file is read as
before, and nothing but the text of the content is changed (`parse_rawEdited`).
-/

namespace ComponentLint.Markup

open Text

/-- Characters that mean nothing in markup, as those of names do. -/
def Neutral (c : Char) : Prop :=
  isAsciiSpace c = false ∧ c ∉ ['<', '>', '/', '=', '"', '\'', '[', ']', '{', '}']

instance (c : Char) : Decidable (Neutral c) :=
  inferInstanceAs (Decidable (_ ∧ _))

section Exchanging

variable {word word' : List Char} (hword : ∀ c ∈ word', Neutral c)
include hword

theorem not_mem_neutral {c : Char} (hc : c ∈ ['<', '>', '/', '=', '"', '\'', '[', ']', '{', '}']) : c ∉ word' :=
  fun hmem => (hword c hmem).2 hc

/-- A neutral word that is put in the place of another one brings no closing braces. -/
theorem occurs_braces_exchange (hsome : word' ≠ []) {front rest : List Char}
    (h : occurs ['}', '}'] (front ++ (word' ++ rest)) = true) : occurs ['}', '}'] (front ++ (word ++ rest)) = true := by
  have hbraces : ∀ c ∈ word', c ∉ ['}', '}'] := by
    intro c hc hmem
    obtain rfl : c = '}' := by simpa using hmem
    exact not_mem_neutral hword (by decide) hc
  rw [occurs_between (by simp) hsome hbraces, Bool.or_eq_true] at h
  rcases h with h | h
  · exact occurs_of_part (by simp) (List.prefix_append _ _).isInfix h
  · refine occurs_of_part (by simp) (List.IsSuffix.isInfix ?_) h
    exact (List.suffix_append _ _).trans (List.suffix_append _ _)

theorem mem_bracket_exchange {front rest : List Char} (h : ']' ∈ front ++ (word' ++ rest)) : ']' ∈ front ++ (word ++ rest) := by
  simp only [List.mem_append] at h ⊢
  rcases h with h | h | h
  · exact .inl h
  · exact absurd h (not_mem_neutral hword (by decide))
  · exact .inr (.inr h)

/-- What starts with an angle bracket can have a word in it exchanged for a neutral one, if it is markup before and after. -/
theorem Exchangeable.of_word (hsome : word' ≠ []) {front rest : List Char}
    (hmarkup : isMarkup ('<' :: (front ++ (word ++ rest))) =
    isMarkup ('<' :: (front ++ (word' ++ rest)))) :
    Exchangeable ('<' :: (front ++ (word ++ rest))) ('<' :: (front ++ (word' ++ rest))) := by
  refine .of_start (Or.inl rfl) hmarkup rfl (mem_bracket_exchange hword) fun hclosing => ?_
  rw [← List.cons_append] at hclosing ⊢
  exact occurs_braces_exchange hword hsome hclosing

end Exchanging

/-! ## Where raw content ends -/

theorem rawRun_cons_iff {name : List Char} {c : Char} {rest taken tail : List Char} :
    rawRun name (c :: rest) = (c :: taken, tail) ↔ closesRaw name (c :: rest) = false ∧ rawRun name rest = (taken, tail) := by
  rw [rawRun]
  split
  · next hcloses => simp [hcloses]
  · next hopen => simp [hopen, Prod.ext_iff]

/-- A word that is longer than a name completes no end tag of it. -/
theorem closesRaw_word {name front word word' : List Char} (hword : ∀ c ∈ word', Neutral c) (hlong : name.length < word'.length)
    (hfront : front ≠ []) {rest : List Char} (h : closesRaw name (front ++ (word ++ rest)) = false) :
    closesRaw name (front ++ (word' ++ rest)) = false := by
  rw [Bool.eq_false_iff]
  intro hcloses
  obtain ⟨found, after, hchars, heq, hends⟩ := closesRaw_iff.1 hcloses
  have hlength := length_of_eqIgnoreAsciiCase heq
  rcases front with _ | ⟨a, _ | ⟨b, front⟩⟩
  · exact hfront rfl
  · -- The word stands right behind the angle bracket.
    obtain ⟨-, hslash⟩ := List.cons.inj hchars
    cases word' with
    | nil => simp at hlong
    | cons c word' =>
      obtain ⟨rfl, -⟩ := List.cons.inj hslash
      exact not_mem_neutral hword (by decide) List.mem_cons_self
  · obtain ⟨rfl, htail⟩ := List.cons.inj hchars
    obtain ⟨rfl, hname⟩ := List.cons.inj htail
    rw [show List.append front (word' ++ rest) = front ++ (word' ++ rest) from rfl] at hname
    rcases Nat.lt_or_ge found.length front.length with hless | hge
    · -- The end tag stands in front of the word, so it was there before.
      have hlong : name.length + 3 ≤ ('<' :: '/' :: front).length := by
        simp only [List.length_cons]
        omega
      have hsame := closesRaw_front hlong (word ++ rest) (word' ++ rest)
      rw [hcloses, h] at hsame
      cases hsame
    · -- The end tag ends in the word.
      obtain ⟨part, rfl⟩ : ∃ part, found = front ++ part := by
        rcases List.append_eq_append_iff.1 hname with ⟨part, hpart, -⟩ | ⟨part, hpart, -⟩
        · exact ⟨part, hpart⟩
        · refine ⟨[], ?_⟩
          have hnone : part.length = 0 := by
            have := congrArg List.length hpart
            simp only [List.length_append] at this
            omega
          rw [List.length_eq_zero_iff.1 hnone, List.append_nil] at hpart
          rw [hpart, List.append_nil]
      rw [List.append_assoc] at hname
      have hrest := List.append_cancel_left hname
      rcases List.append_eq_append_iff.1 hrest with ⟨more, hmore, -⟩ | ⟨more, hmore, hafter⟩
      · have := congrArg List.length hmore
        simp only [List.length_append] at this hlength
        omega
      · cases more with
        | nil =>
          have := congrArg List.length hmore
          simp only [List.length_append, List.length_nil] at this hlength
          omega
        | cons c more =>
          have hc : Neutral c := hword c (hmore ▸ List.mem_append_right _ List.mem_cons_self)
          rcases hends c (hafter ▸ rfl) with hblank | rfl
          · rw [hc.1] at hblank
            cases hblank
          · exact hc.2 (by decide)

/-- Raw content in which a word is exchanged for a longer one than its name ends where it did. -/
theorem rawRun_exchange {name front word word' late tail : List Char} (hword : ∀ c ∈ word', Neutral c)
    (hlong : name.length < word'.length) (h : rawRun name (front ++ (word ++ (late ++ tail))) = (front ++ (word ++ late), tail)) :
    rawRun name (front ++ (word' ++ (late ++ tail))) = (front ++ (word' ++ late), tail) := by
  induction front with
  | cons c front ih =>
    rw [List.cons_append, List.cons_append] at h ⊢
    obtain ⟨hopen, hrest⟩ := rawRun_cons_iff.1 h
    refine rawRun_cons_iff.2 ⟨?_, ih hrest⟩
    exact closesRaw_word hword hlong (List.cons_ne_nil c front) hopen
  | nil =>
    have hlate : rawRun name (late ++ tail) = (late, tail) := by
      rw [List.nil_append] at h
      clear hlong hword
      induction word with
      | nil => exact h
      | cons c word ih => exact ih (rawRun_cons_iff.1 h).2
    rw [List.nil_append]
    clear h hlong
    induction word' with
    | nil => exact hlate
    | cons c word' ih =>
      obtain ⟨hc, hword⟩ := List.forall_mem_cons.1 hword
      refine rawRun_cons_iff.2 ⟨?_, ih hword⟩
      rw [Bool.eq_false_iff]
      intro hcloses
      obtain ⟨found, after, hchars, -⟩ := closesRaw_iff.1 hcloses
      obtain ⟨rfl, -⟩ := List.cons.inj hchars
      exact hc.2 (by decide)

/-! ## The text of a block -/

/-- Where the first end tag of a name stands. -/
theorem FirstEnd.unique {source name : List Char} {start stop stop' : Nat} (h : FirstEnd source name start stop)
    (h' : FirstEnd source name start stop') : stop = stop' := by
  have hends : ∀ {stop stop'}, FirstEnd source name start stop → FirstEnd source name start stop' → ¬stop < stop' := by
    intro stop stop' h h' hlt
    rcases h.ends with htag | hend
    · exact h'.before stop h.le hlt htag
    · rcases h'.ends with htag | hend'
      · have := htag.lt
        omega
      · omega
  exact Nat.le_antisymm (Nat.le_of_not_lt (hends h' h)) (Nat.le_of_not_lt (hends h h'))

theorem TagTail.reads {stream rest : Stream} {ending : TagEnd} (h : TagTail stream ending rest) : ∃ taken,
    stream.Reads taken rest := by
  cases h with
  | plain hgap _ _ hmark => exact ⟨_, hgap.trans hmark⟩
  | selfClosing hgap _ hmark => exact ⟨_, hgap.trans hmark⟩
  | missing hgap _ _ => exact ⟨_, hgap⟩

/-- A start tag is its name and what follows it up to where the tag ends. -/
theorem readStartTag_reads {around : Surroundings} {offset : Nat} {chars : List Char} {tag : ReadTag} {rest : Stream}
    (hread : readStartTag around ⟨offset, '<' :: chars⟩ = (tag, rest)) :
    ∃ more, chars = tag.rawName ++ more ++ rest.chars ∧ rest.offset = offset + 1 + byteLength (tag.rawName ++ more) := by
  obtain ⟨name, after, hname⟩ : ∃ name after, tagName chars = (name, after) := ⟨_, _, rfl⟩
  have happ := tagName_append chars
  rw [hname] at happ
  dsimp only at happ
  subst happ
  obtain ⟨rfl, -, -, last, hlisted, htail⟩ := readStartTag_listed around hname hread
  obtain ⟨attributes, hattributes⟩ := hlisted.reads
  obtain ⟨ending, hending⟩ := htail.reads
  obtain ⟨hchars, hoffset⟩ := hattributes.trans hending
  refine ⟨attributes ++ ending, ?_, ?_⟩
  · rw [List.append_assoc, ← hchars]
  · rw [hoffset, byteLength_append tag.rawName, ← Nat.add_assoc]

/-- A piece that is read at a place is read at the start of its text. -/
theorem exists_readPiece_zero {around : Surroundings} {offset stop : Nat} {chars rest : List Char} {piece : Piece}
    (h : readPiece around ⟨offset, chars⟩ = (piece, ⟨stop, rest⟩)) :
    ∃ first length, readPiece around ⟨0, chars⟩ = (first, ⟨length, rest⟩) ∧ piece = first.shift offset ∧
      stop = offset + length := by
  obtain ⟨first, ⟨length, after⟩, hread⟩ : ∃ first after, readPiece around ⟨0, chars⟩ = (first, after) := ⟨_, _, rfl⟩
  obtain ⟨hpiece, hrest⟩ := Prod.mk.inj (h.symm.trans (readPiece_at hread offset))
  obtain ⟨hstop, rfl⟩ := Stream.mk.inj hrest
  exact ⟨first, length, hread, hpiece, hstop⟩

/-- A start tag is the same piece before any text that holds no new closing bracket. -/
theorem readPiece_startTag_swap {around : Surroundings} {offset stop : Nat} {inside rest rest' : List Char} {tag : ReadTag}
    (hstarts : startsName inside = true) (hne : rest ≠ [])
    (hread : readPiece around ⟨offset, '<' :: inside ++ rest⟩ = (.startTag tag, ⟨stop, rest⟩))
    (hbracket : ']' ∈ rest' → ']' ∈ rest) :
    readPiece around ⟨offset, '<' :: inside ++ rest'⟩ = (.startTag tag, ⟨stop, rest'⟩) := by
  obtain ⟨-, -, -, htag⟩ := of_readPiece_startTag hread
  rw [List.cons_append] at htag
  rw [List.cons_append, readPiece_open _ (startsName_append hstarts _), readStartTag_swap hne htag hbracket]

/-- Raw content keeps the trees in step if the edit changes it. -/
theorem Lockstep.addRaw {rev : Revision} {rename : Nat → Nat} {changed : Nat → Prop} {old new : Builder}
    (h : Lockstep rev rename changed old new) (hold : Shaped old.nodes old.stack) (hnew : Shaped new.nodes new.stack)
    (hchanged : changed new.nodes.size) {span span' : Span} (hsome : span.start < span.stop) (hsome' : span'.start < span'.stop)
    (fileStop fileStop' : Nat) : Lockstep rev rename changed (old.add fileStop (.raw span)) (new.add fileStop' (.raw span')) := by
  rw [Builder.add, Builder.add, Builder.apply, Builder.apply, if_pos hsome, if_pos hsome']
  have hrecord : Lockstep rev rename changed (old.record fileStop (.raw span)) (new.record fileStop' (.raw span')) :=
    h.record fileStop fileStop' fun _ => rfl
  exact hrecord.push hold hnew .text fun hsame => absurd hchanged hsame

namespace Builder

variable {language : Script.Language} {source edited : List Char} {id stop : Nat} {element : Element} {builder last : Builder}
  {tag : ReadTag} {front inside content tail : List Char}

/-- A file that is read up to the start tag of an element, and on to its end. -/
structure ReadsTag (language : Script.Language) (source : List Char) (id : Nat) (element : Element) (builder last : Builder)
    (tag : ReadTag) (front inside tail : List Char) : Prop where
  source_eq : source = front ++ ('<' :: inside ++ tail)
  upTo : Walks language (byteLength source) builder
    ⟨byteLength front, '<' :: inside ++ tail⟩ (start (byteLength source)) ⟨0, source⟩
  walk : Walks language (byteLength source) last ⟨byteLength source, []⟩ (start (byteLength source)) ⟨0, source⟩
  read : readPiece (builder.surroundings language) ⟨byteLength front, '<' :: inside ++ tail⟩ =
    (.startTag tag, ⟨byteLength (front ++ '<' :: inside), tail⟩)
  starts : startsName inside = true
  size : builder.nodes.size = id
  element_eq : element = { builder.elementOf tag with endTag := element.endTag }

theorem exists_readsTag (helement : (parse language source).1.element? id = some element) :
    ∃ builder last tag front inside tail, ReadsTag language source id element builder last tag front inside tail := by
  obtain ⟨last, hwalk⟩ := exists_walks language source
  have hlast := hwalk.standing (start_standing _)
  obtain ⟨node, hnode, hkind⟩ := Document.element?_eq_some_iff.1 helement
  rw [hwalk.parse_eq] at hnode
  obtain ⟨old, hold, hsame, -⟩ := of_finish hlast.shaped hnode
  obtain ⟨builder, ⟨offset, chars⟩, tag, ⟨middle, tail⟩, hbefore, hread, hsize, heq, -, -⟩ :=
    hwalk.element_origin hold (hsame.symm.trans hkind)
  obtain ⟨front, hfront⟩ := hbefore.before
  obtain rfl : offset = byteLength front := by simpa using hfront.offset
  obtain ⟨after, rfl, -, hstart⟩ := of_readPiece_startTag hread
  obtain ⟨more, hmore, hmiddle⟩ := readStartTag_reads hstart
  obtain rfl : after = tag.rawName ++ more ++ tail := hmore
  refine ⟨builder, last, tag, front, tag.rawName ++ more, tail, hfront.chars, hbefore, hwalk, ?_,
    startsName_append (readPiece_tagName hread).starts more, hsize, heq⟩
  rw [List.cons_append, hread, show middle = _ from hmiddle, byteLength_append front, byteLength_cons, ← Nat.add_assoc]
  rfl

theorem ReadsTag.startTag_stop (h : ReadsTag language source id element builder last tag front inside tail) :
    element.startTag.span.stop = byteLength (front ++ '<' :: inside) := by
  rw [h.element_eq]
  exact stop_of_readPiece h.read

/-- The tree behind the start tag of a block and its raw content. -/
def addBlock (fileStop : Nat) (tag : ReadTag) (content : Span) (builder : Builder) : Builder :=
  (builder.add fileStop (.startTag tag)).add fileStop (.raw content)

/-- Reading a start tag and the raw content behind it. -/
theorem walks_block {fileStop offset middle : Nat} {mark : List Char}
    (hread : readPiece (builder.surroundings language) ⟨offset, mark ++ (content ++ tail)⟩ =
      (.startTag tag, ⟨middle, content ++ tail⟩))
    (hname : builder.rawName? (.startTag tag) = some tag.rawName)
    (hends : rawRun tag.rawName (content ++ tail) = (content, tail)) :
    Walks language fileStop (builder.addBlock fileStop tag ⟨middle, middle + byteLength content⟩)
      ⟨middle + byteLength content, tail⟩
      builder ⟨offset, mark ++ content ++ tail⟩ := by
  rw [List.append_assoc]
  refine .single (chars_ne_nil_of_readPiece hread) ?_
  rw [advance_raw hread hname, readRaw, hends]
  rfl

/-- The start tag of an element with raw content is followed by the text up to the first end tag. -/
theorem ReadsTag.rawRun_eq (h : ReadsTag language source id element builder last tag front inside tail)
    (hfirst : FirstEnd source element.rawName.toList element.startTag.span.stop stop) :
    ∃ content rest, tail = content ++ rest ∧ rawRun tag.rawName tail = (content, rest) ∧
      stop = byteLength (front ++ '<' :: inside) + byteLength content := by
  have hname : element.rawName.toList = tag.rawName := by
    rw [h.element_eq]
    exact String.toList_ofList
  have hstream : Stream.Before ⟨0, source⟩ ⟨byteLength (front ++ '<' :: inside), tail⟩ :=
    ⟨front ++ '<' :: inside, by rw [h.source_eq, List.append_assoc], (Nat.zero_add _).symm⟩
  have hread := readRaw_firstEnd tag.rawName hstream
  rw [hname, h.startTag_stop] at hfirst
  refine ⟨(rawRun tag.rawName tail).1, (rawRun tag.rawName tail).2, (rawRun_append _ _).symm, rfl, ?_⟩
  exact hfirst.unique hread

theorem ReadsTag.rawName?_eq (h : ReadsTag language source id element builder last tag front inside tail)
    (hholds : ∀ topLevel, element.holdsRaw topLevel = true) : builder.rawName? (.startTag tag) = some tag.rawName := by
  have hraw := hholds (builder.current == 0)
  rw [h.element_eq] at hraw
  rw [rawName?_startTag, if_pos]
  exact hraw

/-- Raw content that is not empty is a text of its own under its element. -/
theorem addBlock_new (h : Shaped builder.nodes builder.stack) (fileStop : Nat) {name : List Char}
    (hname : builder.rawName? (.startTag tag) = some name) {span : Span} (hsome : span.start < span.stop) :
    (builder.addBlock fileStop tag span).nodes[builder.nodes.size + 1]? =
        some ⟨builder.nodes.size + 1, some builder.nodes.size, #[], span, .text⟩ ∧
      (builder.addBlock fileStop tag span).stack = builder.nodes.size :: builder.stack := by
  obtain ⟨found, htag, -, hholds⟩ := rawName?_eq_some hname
  obtain rfl := Piece.startTag.inj htag
  obtain ⟨hstack, hsize, hnode⟩ := add_rawStart h fileStop hholds
  have hshaped := add_shaped h fileStop (.startTag tag)
  unfold addBlock
  generalize builder.add fileStop (.startTag tag) = opened at hstack hsize hnode hshaped ⊢
  have hcurrent : opened.current = builder.nodes.size := by rw [current, hstack, List.headD_cons]
  rw [add, apply, if_pos hsome]
  have hnew := @grow_new opened.nodes opened.current span .text hshaped.current_lt
  rw [hcurrent, hsize] at hnew
  refine ⟨?_, hstack⟩
  rw [← hnew]
  exact congrArg (fun nodes : Array Node => nodes[builder.nodes.size + 1]?) (congrArg (grow opened.nodes · span .text) hcurrent)

/-- Both files are in step over a block in which a word is exchanged for a neutral one that is longer than the
name of the block. -/
theorem ReadsTag.exchange_word {rev : Revision} {early late word word' : List Char}
    (h : ReadsTag language rev.source id element builder last tag front inside (early ++ (word ++ (late ++ tail))))
    (hname : builder.rawName? (.startTag tag) = some tag.rawName)
    (hends : rawRun tag.rawName (early ++ (word ++ (late ++ tail))) = (early ++ (word ++ late), tail))
    (hword : ∀ c ∈ word', Neutral c) (hsome : word ≠ []) (hlong : tag.rawName.length < word'.length)
    (hplace : ∀ offset ≤ byteLength (front ++ '<' :: inside), rev.place offset offset)
    (hsource : Stream.Before ⟨0, rev.edited⟩ ⟨byteLength front, '<' :: inside ++ (early ++ (word' ++ (late ++ tail)))⟩)
    {changed : Nat → Prop} {builder' : Builder} (hlock : Lockstep rev (fun id => id) changed builder builder')
    (hbuilder' : Shaped builder'.nodes builder'.stack) (hchanged : changed (id + 1)) :
    ∃ closed', Walks language (byteLength rev.edited) closed'
        ⟨byteLength (front ++ '<' :: inside) + byteLength (early ++ (word' ++ late)), tail⟩ builder'
        ⟨byteLength front, '<' :: inside ++ (early ++ (word' ++ late)) ++ tail⟩ ∧
      Lockstep rev (fun id => id) changed (builder.addBlock (byteLength rev.source) tag ⟨byteLength (front ++ '<' :: inside),
        byteLength (front ++ '<' :: inside) + byteLength (early ++ (word ++ late))⟩) closed' := by
  have hne : early ++ (word ++ (late ++ tail)) ≠ [] := by simp [hsome]
  obtain ⟨first, length, hread, hfirst, hlength⟩ := exists_readPiece_zero h.read
  have hread' := readPiece_startTag_swap h.starts hne h.read (mem_bracket_exchange hword)
  rw [hlock.surroundings] at hread'
  have hold := (h.upTo.standing (start_standing _)).shaped
  -- The start tag.
  have hstop := hplace _ (Nat.le_refl _)
  rw [hlength, Nat.add_comm] at hstop
  have htag := hlock.addRead hold hbuilder' (byteLength rev.source) (byteLength rev.edited)
    (Lockstep.taken_of_readPiece (List.cons_ne_nil _ _) hread) h.upTo.before hsource
    (hplace _ (by rw [byteLength_append]; exact Nat.le_add_right _ _)) hstop
  rw [← hfirst] at htag
  -- The content.
  have hname' : builder'.rawName? (.startTag tag) = some tag.rawName := by
    rw [hfirst, hlock.rawName? first (byteLength front) (byteLength front), ← hfirst]
    exact hname
  obtain ⟨found, hfound, -, hholds⟩ := rawName?_eq_some hname'
  obtain rfl := Piece.startTag.inj hfound
  have hsize : (builder'.add (byteLength rev.edited) (.startTag tag)).nodes.size = id + 1 := by
    rw [(add_rawStart hbuilder' _ hholds).2.1, show builder'.nodes.size = builder.nodes.size from hlock.size 0, h.size]
  have hpos : ∀ {word : List Char}, word ≠ [] → 0 < byteLength (early ++ (word ++ late)) := by
    intro word hword
    refine Nat.pos_of_ne_zero fun hzero => hword ?_
    have hnil := (byteLength_eq_zero_iff _).1 hzero
    exact (List.append_eq_nil_iff.1 (List.append_eq_nil_iff.1 hnil).2).1
  have hsome' : word' ≠ [] := List.ne_nil_of_length_pos (Nat.zero_lt_of_lt hlong)
  refine ⟨_, walks_block (by simpa using hread') hname' ?_,
    htag.addRaw (add_shaped hold _ _) (add_shaped hbuilder' _ _) (hsize ▸ hchanged)
    (Nat.lt_add_of_pos_right (hpos hsome)) (Nat.lt_add_of_pos_right (hpos hsome')) _ _⟩
  have hends' := rawRun_exchange hword hlong hends
  simpa using hends'

/-- Both names of an element are equally long. -/
theorem length_rawName (helement : (parse language source).1.element? id = some element) :
    element.rawName.toList.length = element.name.toList.length := by
  obtain ⟨builder, last, tag, before, inside, tail, h⟩ := exists_readsTag helement
  rw [h.element_eq]
  unfold elementOf
  dsimp only
  split
  · simp
  · rfl

/-- A word in the raw content of an element is exchanged for a neutral one that is longer than the name of the
element: the tree is the same but for the text of the content. -/
theorem parse_rawEdited (helement : (parse language source).1.element? id = some element)
    (hunparsed : (parse language source).1.Unparsed id element stop) (hholds : ∀ topLevel, element.holdsRaw topLevel = true)
    {front word word' back : List Char}
    (hsource : source = front ++ (word ++ back)) (hstart : element.startTag.span.stop ≤ byteLength front)
    (hstop : byteLength front + byteLength word ≤ stop) (hedited : edited = front ++ (word' ++ back))
    (hword : ∀ c ∈ word', Neutral c)
    (hsome : word ≠ []) (hlong : element.rawName.toList.length < word'.length) :
    (parse language source).1.children id = [id + 1] ∧
      (parse language source).1.Keeps (.cut source edited (byteLength front) (byteLength front + byteLength word)
        (byteLength front + byteLength word')) (· = id + 1) (parse language edited).1 := by
  obtain ⟨builder, last, tag, before, inside, tail, h⟩ := exists_readsTag helement
  obtain ⟨content, rest, rfl, hends, rfl⟩ := h.rawRun_eq hunparsed.first
  have hname := h.rawName?_eq hholds
  have hraw : element.rawName.toList = tag.rawName := by
    rw [h.element_eq]
    exact String.toList_ofList
  rw [h.startTag_stop] at hstart
  rw [hraw] at hlong
  -- The word stands in the content.
  obtain ⟨early, late, rfl, rfl, rfl⟩ : ∃ early late, before ++ '<' :: inside ++ early = front ∧
    early ++ (word ++ late) = content ∧
      late ++ rest = back := by
    have hopened : Stream.Before ⟨0, source⟩ ⟨byteLength (before ++ '<' :: inside), content ++ rest⟩ :=
      ⟨before ++ '<' :: inside, by rw [h.source_eq, List.append_assoc], (Nat.zero_add _).symm⟩
    have hclosed : Stream.Before ⟨0, source⟩ ⟨byteLength (before ++ '<' :: inside) + byteLength content, rest⟩ :=
      hopened.trans ⟨content, rfl, rfl⟩
    have hfront : Stream.Before ⟨0, source⟩ ⟨byteLength front, word ++ back⟩ := ⟨front, hsource, (Nat.zero_add _).symm⟩
    have hback : Stream.Before ⟨0, source⟩ ⟨byteLength front + byteLength word, back⟩ := hfront.trans ⟨word, rfl, rfl⟩
    obtain ⟨early, hearly⟩ := hopened.of_le hfront hstart
    obtain ⟨late, hlate⟩ := hback.of_le hclosed hstop
    have hchars : content ++ rest = early ++ (word ++ (late ++ rest)) := by rw [← hlate.chars, ← hearly.chars]
    refine ⟨early, late, ?_, ?_, hlate.chars.symm⟩
    · refine List.append_cancel_right (Eq.trans ?_ hsource)
      rw [h.source_eq, List.append_assoc, List.append_assoc]
      exact congrArg (fun chars => before ++ ('<' :: inside ++ chars)) hearly.chars.symm
    · refine List.append_cancel_right (Eq.trans ?_ hchars.symm)
      simp only [List.append_assoc]
  rw [List.append_assoc, List.append_assoc] at h hends
  have hrev := Revision.replaces_cut before ('<' :: inside ++ early) word word' late rest
  have hshape : ∀ word : List Char, before ++ '<' :: inside ++ early ++ (word ++ (late ++ rest)) =
      before ++ ('<' :: inside ++ early ++ (word ++ late) ++ rest) := fun word => by simp
  have hoffset : ∀ word : List Char, byteLength (before ++ '<' :: inside) + byteLength (early ++ (word ++ late)) =
      byteLength before + byteLength ('<' :: inside ++ early ++ (word ++ late)) := by
    intro word
    rw [byteLength_append before, List.append_assoc, byteLength_append ('<' :: inside), Nat.add_assoc]
  rw [← hshape, ← hshape, ← hsource, ← hedited, ← List.append_assoc before] at hrev
  generalize hcut : Revision.cut source edited _ _ _ = rev at hrev ⊢
  obtain ⟨rfl, rfl⟩ : rev.source = source ∧ rev.edited = edited := by rw [← hcut]; exact ⟨rfl, rfl⟩
  -- The file is read up to the block, over it, and to its end.
  have hupTo := h.upTo
  have hread := h.read
  rw [← List.append_assoc word, ← List.append_assoc early] at hread hends
  have hover := @walks_block _ _ _ _ _ (byteLength rev.source) _ _ _ hread hname hends
  rw [hoffset, ← List.append_assoc ('<' :: inside)] at hover
  rw [show '<' :: inside ++ (early ++ (word ++ (late ++ rest))) = '<' :: inside ++ early ++
    (word ++ late) ++ rest by simp] at hupTo
  have hpasses : Passes language rev.source before ('<' :: inside ++ early ++ (word ++ late)) rest builder _ last :=
    ⟨hupTo, hover, hover.rest_of (hupTo.rest_of h.walk rfl) rfl⟩
  have hstanding := hupTo.standing (start_standing _)
  refine ⟨?_, ?_⟩
  · -- The content is the node behind its element.
    have hpos : 0 < byteLength (early ++ (word ++ late)) := by
      refine Nat.pos_of_ne_zero fun hzero => hsome ?_
      have hnil := (byteLength_eq_zero_iff _).1 hzero
      exact (List.append_eq_nil_iff.1 (List.append_eq_nil_iff.1 hnil).2).1
    obtain ⟨hnode, hstack⟩ := @addBlock_new builder tag hstanding.shaped (byteLength rev.source) _ hname
      ⟨byteLength (before ++ '<' :: inside), byteLength (before ++ '<' :: inside) + byteLength (early ++ (word ++ late))⟩
      (Nat.lt_add_of_pos_right hpos)
    rw [h.size] at hnode hstack
    rw [hoffset] at hnode hstack
    have hlast := hpasses.behind.apart (hover.standing hstanding) hnode fun hmem => ?_
    · have hparent : (parse language rev.source).1.parent? (id + 1) = some id := by
        rw [h.walk.parse_eq, Document.parent?, Document.node?, hlast]
        rfl
      rcases hunparsed.content with ⟨-, hempty⟩ | ⟨child, hchildren, -⟩
      · rw [h.startTag_stop] at hempty
        omega
      · have hmem := (parse_shaped language rev.source).mem_children.2 hparent
        rw [hchildren, List.mem_singleton] at hmem
        rw [hchildren, hmem]
    · rw [hstack] at hmem
      rcases List.mem_cons.1 hmem with heq | hmem
      · omega
      · have hlt := (hstanding.shaped.mem_stack hmem).2
        have hsize := h.size
        omega
  · refine hpasses.keeps hrev ?_ (fun name _ hcloses => ?_) fun builder' hbefore' hlock => ?_
    · have hexchange := @Exchangeable.of_word word word' hword (List.ne_nil_of_length_pos (Nat.zero_lt_of_lt hlong))
        (inside ++ early) (late ++ rest) ?_
      · simpa using hexchange
      · rw [List.append_assoc, List.append_assoc, isMarkup_of_startsName (startsName_append h.starts _),
          isMarkup_of_startsName (startsName_append h.starts _)]
    · rw [show '<' :: inside ++ early ++ (word ++ late) ++ rest = '<' :: (inside ++ (early ++ (word ++ (late ++ rest)))) by simp,
        closesRaw_of_startsName name (startsName_append h.starts _)] at hcloses
      cases hcloses
    · have hplace : ∀ offset ≤ byteLength (before ++ '<' :: inside), rev.place offset offset := by
        intro offset hle
        rw [← hcut]
        exact .inl ⟨rfl, Nat.le_trans hle hstart⟩
      have hbehind : Stream.Before ⟨0, rev.edited⟩ ⟨byteLength before, '<' :: inside ++ (early ++ (word' ++ (late ++ rest)))⟩ :=
        ⟨before, by rw [hedited]; simp, (Nat.zero_add _).symm⟩
      obtain ⟨closed', hover', hlock'⟩ := h.exchange_word hname (by simpa using hends) hword hsome hlong hplace hbehind hlock
        (hbefore'.standing (start_standing _)).shaped rfl
      rw [hoffset, ← List.append_assoc ('<' :: inside)] at hover'
      rw [hoffset] at hlock'
      exact ⟨closed', hover', hlock'⟩

end Builder

end ComponentLint.Markup
