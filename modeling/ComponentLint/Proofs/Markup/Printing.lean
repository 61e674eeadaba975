import ComponentLint.Proofs.Markup.Pieces

/-!
# Printing a template

`Tree` is a template without positions, and `print` writes it in one canonical form. `isPrintable` says for which trees that
form can be read back: what it asks of names, values, comments and texts is what keeps one piece from running into the next.
The second half reads single pieces of a printed tree; each reader stops where the piece ends, whatever stands behind it.
-/

namespace ComponentLint.Markup

open Text

/-- A template: what is written in it, and in which order. -/
inductive Tree where
  | element (name : List Char) (attributes : List (List Char × List Char)) (children : List Tree)
  | comment (body : List Char)
  | text (chars : List Char)
  deriving Repr

/-- An attribute with the blank before it. -/
def printAttribute (attr : List Char × List Char) : List Char :=
  ' ' :: attr.1 ++ '=' :: '"' :: attr.2 ++ ['"']

/-- The start tag of an element. -/
def printStartTag (name : List Char) (attributes : List (List Char × List Char)) : List Char :=
  '<' :: name ++ attributes.flatMap printAttribute ++ ['>']

/-- The end tag of an element. -/
def printEndTag (name : List Char) : List Char :=
  '<' :: '/' :: name ++ ['>']

namespace Tree

mutual

/-- A template in its canonical form. -/
def print : Tree → List Char
  | .element name attributes children => printStartTag name attributes ++ printAll children ++ printEndTag name
  | .comment body => ['<', '!', '-', '-'] ++ body ++ ['-', '-', '>']
  | .text chars => chars

/-- Templates one after the other. -/
def printAll : List Tree → List Char
  | [] => []
  | tree :: trees => tree.print ++ printAll trees

end

/-- The names that elements may not have in any case: those of elements without content, with content that is no markup, or
of another vocabulary. -/
def reservedNames : List String :=
  voidElements ++ ["script", "style", "svg", "math"]

/-- Whether an element can be called that: ASCII letters and digits with a letter in front, and not reserved. -/
def isElementName : List Char → Bool
  | [] => false
  | c :: rest => c.isAlpha && rest.all (·.isAlphanum) && reservedNames.all fun name => !eqIgnoreAsciiCase (c :: rest) name.toList

/-- Whether a plain attribute can be called that. -/
def isAttributeName (name : List Char) : Bool :=
  !name.isEmpty && name.all (fun c => !isAsciiSpace c && !(['=', '>', '/', '[', '"', '\''].contains c)) &&
    !Key.isDirectiveText name

/-- Whether an attribute can be written. -/
def isAttribute (attr : List Char × List Char) : Bool :=
  isAttributeName attr.1 && !attr.2.contains '"'

/-- Whether a tree is a text. -/
def isText : Tree → Bool
  | .text _ => true
  | _ => false

mutual

/-- Whether a template can be written. -/
def isPrintable : Tree → Bool
  | .element name attributes children => isElementName name && attributes.all isAttribute && arePrintable children
  | .comment body => !occurs ['-', '-', '>'] body
  | .text chars => !chars.isEmpty && !chars.contains '<' && !occurs ['{', '{'] chars

/-- Whether templates can be written one after the other: no two texts stand side by side. -/
def arePrintable : List Tree → Bool
  | [] => true
  | tree :: trees => tree.isPrintable && !(tree.isText && (trees.head?.map isText).getD false) && arePrintable trees

end

end Tree

/-! ## Reading a template back -/

/-- What is written for a plain attribute with a value. -/
def Attribute.written? (attr : Attribute) : Option (List Char × List Char) :=
  match attr.key, attr.value with
  | .plain name, some value => some (name.text.toList, value.raw.toList)
  | _, _ => none

namespace Document

/-- The template under a node, at most `fuel` levels deep; none if it holds anything but plain elements, comments and texts. -/
def treeWithin (document : Document) : Nat → NodeId → Option Tree
  | 0, _ => none
  | fuel + 1, id => do
    let node ← document.node? id
    match node.kind with
    | .element element =>
      let attributes ← element.attributes.mapM (·.written?)
      let children ← node.children.toList.mapM (document.treeWithin fuel)
      return .element element.rawName.toList attributes children
    | .comment => return .comment (document.text ⟨node.span.start + 4, node.span.stop - 3⟩)
    | .text => return .text (document.text node.span)
    | _ => none

/-- The template under a node. -/
def tree? (document : Document) (id : NodeId) : Option Tree :=
  document.treeWithin document.size id

end Document

/-! ## Comments and texts -/

theorem occurs_of_cons {word : List Char} {c : Char} {text : List Char} (h : occurs word (c :: text) = false) :
    occurs word text = false := by
  rw [occurs, cutAt?] at h
  split at h
  · cases h
  · rwa [Option.isSome_map] at h

/-- The end of a comment cannot begin in a body that does not hold it. -/
theorem cutAt?_arrow {body : List Char} (rest : List Char) (h : occurs ['-', '-', '>'] body = false) :
    cutAt? ['-', '-', '>'] (body ++ '-' :: '-' :: '>' :: rest) = some (body, rest) := by
  induction body with
  | nil => simp [cutAt?]
  | cons c body ih =>
    have hrec := ih (occurs_of_cons h)
    rw [occurs, cutAt?] at h
    split at h
    · cases h
    · rename_i hnot
      -- An occurrence that starts in the body and ends behind it would have a dash for its last mark.
      have hfirst : ¬['-', '-', '>'].isPrefixOf (c :: (body ++ '-' :: '-' :: '>' :: rest)) = true := by
        rcases body with _ | ⟨d, _ | ⟨e, body⟩⟩
        · simp
        · simp
        · simpa using hnot
      rw [List.cons_append, cutAt?, if_neg hfirst, hrec]
      rfl

/-- A printed comment is read as one. -/
theorem readPiece_comment (around : Surroundings) {stream : Stream} {body rest : List Char}
    (h : occurs ['-', '-', '>'] body = false) (hs : stream.chars = (Tree.comment body).print ++ rest) :
    readPiece around stream =
      (.comment ⟨stream.offset, stream.offset + byteLength (Tree.comment body).print⟩ true,
        stream.after (Tree.comment body).print rest) := by
  have hchars : stream.chars = '<' :: '!' :: '-' :: '-' :: (body ++ '-' :: '-' :: '>' :: rest) := by
    rw [hs, Tree.print]
    simp
  have hlen : byteLength (Tree.comment body).print = 4 + byteLength body + 3 := by
    rw [Tree.print, byteLength_append, byteLength_append]
    rfl
  have hdrop : stream.chars.drop 4 = body ++ '-' :: '-' :: '>' :: rest := by
    rw [hchars]
    rfl
  have hpiece : readPiece around stream = readComment stream := by simp [readPiece, hchars]
  simp only [hpiece, readComment, hdrop, cutAt?_arrow rest h, Stream.after, hlen, Nat.add_assoc]

/-- Where markup begins, an opening mark stands. -/
theorem exists_of_isMarkup {rest : List Char} (h : isMarkup rest = true) : ∃ tail, rest = '<' :: tail := by
  unfold isMarkup at h
  split at h
  · exact ⟨_, rfl⟩
  · exact ⟨_, rfl⟩
  · exact ⟨_, rfl⟩
  · cases h

theorem isMarkup_cons {c : Char} (hc : c ≠ '<') (rest : List Char) : isMarkup (c :: rest) = false := by
  unfold isMarkup
  split <;> simp_all

/-- Double braces do not begin in a text without them that an opening mark ends. -/
theorem not_braces_isPrefixOf {chars : List Char} (tail : List Char) (h : occurs ['{', '{'] chars = false) :
    ¬['{', '{'].isPrefixOf (chars ++ '<' :: tail) = true := by
  rcases chars with _ | ⟨c, _ | ⟨d, chars⟩⟩
  · simp
  · simp
  · rw [occurs, cutAt?] at h
    split at h
    · cases h
    · rename_i hnot
      simpa using hnot

/-- A text without opening marks and double braces ends where markup begins. -/
theorem textRun_text {first : Bool} {chars rest : List Char} (hne : chars = [] → first = false) (hopen : '<' ∉ chars)
    (hbraces : occurs ['{', '{'] chars = false) (hrest : isMarkup rest = true) :
    textRun true first (chars ++ rest) = (chars, rest) := by
  obtain ⟨tail, rfl⟩ := exists_of_isMarkup hrest
  induction chars generalizing first with
  | nil => simp [textRun, hne rfl, hrest]
  | cons c chars ih =>
    obtain ⟨hc, hchars⟩ := not_or.1 (mt List.mem_cons.2 hopen)
    have hrec := @ih false (fun _ => rfl) hchars (occurs_of_cons hbraces)
    have hnext := not_braces_isPrefixOf tail hbraces
    have hmark := isMarkup_cons (Ne.symm hc) (chars ++ '<' :: tail)
    rw [List.cons_append] at hnext ⊢
    unfold textRun
    split
    · rename_i heq
      cases heq
    · rename_i heq
      rw [heq] at hnext
      exact absurd (by simp) hnext
    · rename_i heq
      cases heq
      simp [hmark, hrec]

/-- A printed text is read as one. -/
theorem readPiece_text {around : Surroundings} (hbetween : around.interpolates = true) {stream : Stream} {chars rest : List Char}
    (hne : chars ≠ []) (hopen : '<' ∉ chars) (hbraces : occurs ['{', '{'] chars = false) (hrest : isMarkup rest = true)
    (hs : stream.chars = chars ++ rest) :
    readPiece around stream = (.text stream.offset chars, stream.after chars rest) := by
  have hrun : textRun true true stream.chars = (chars, rest) :=
    hs ▸ textRun_text (fun h => absurd h hne) hopen hbraces hrest
  have hstart : stream.startsWith "\x7b\x7b" = false := by
    obtain ⟨tail, rfl⟩ := exists_of_isMarkup hrest
    rw [Stream.startsWith, hs]
    exact Bool.eq_false_iff.2 (not_braces_isPrefixOf tail hbraces)
  have hcontent : readPiece around stream = readContent around stream := by
    rcases chars with _ | ⟨c, chars⟩
    · exact absurd rfl hne
    · obtain ⟨hc, _⟩ := not_or.1 (mt List.mem_cons.2 hopen)
      rw [readPiece, hs, List.cons_append]
      split <;> simp_all
  rw [hcontent, readContent, hstart, Bool.and_false, if_neg (by simp), readText, hbetween, hrun]

/-! ## Tags -/

/-- What stands behind the name of a tag in a printed template: a blank or the closing mark. -/
def EndsName (rest : List Char) : Prop :=
  ∃ tail, rest = ' ' :: tail ∨ rest = '>' :: tail

theorem isAsciiSpace_of_isAlphanum {c : Char} (h : c.isAlphanum = true) : isAsciiSpace c = false ∧ c ≠ '>' ∧ c ≠ '/' := by
  refine ⟨?_, ?_, ?_⟩
  · rw [Bool.eq_false_iff]
    intro hs
    simp only [isAsciiSpace, Bool.or_eq_true, beq_iff_eq] at hs
    rcases hs with (((rfl | rfl) | rfl) | rfl) | rfl <;> exact absurd h (by decide)
  · rintro rfl
    exact absurd h (by decide)
  · rintro rfl
    exact absurd h (by decide)

/-- The name of a tag is read up to what ends it. -/
theorem tagName_name {name rest : List Char} (hname : ∀ c ∈ name, c.isAlphanum = true) (hrest : EndsName rest) :
    tagName (name ++ rest) = (name, rest) := by
  induction name with
  | nil =>
    obtain ⟨tail, rfl | rfl⟩ := hrest
    · simp [tagName, isAsciiSpace]
    · simp [tagName]
  | cons c name ih =>
    obtain ⟨hc, hname⟩ := List.forall_mem_cons.1 hname
    obtain ⟨hblank, hclose, hslash⟩ := isAsciiSpace_of_isAlphanum hc
    rw [List.cons_append]
    unfold tagName
    split
    · rename_i heq
      cases heq
    · rename_i heq
      exact absurd (List.cons.inj heq).1 hslash
    · rename_i heq
      cases heq
      simp [hblank, hclose, ih hname]

/-- The characters of a plain attribute's name. -/
theorem of_isAttributeName {name : List Char} (h : Tree.isAttributeName name = true) :
    name ≠ [] ∧ (∀ c ∈ name, isAsciiSpace c = false ∧ c ≠ '=' ∧ c ≠ '>' ∧ c ≠ '/' ∧ c ≠ '[') ∧
      Key.isDirectiveText name = false := by
  simp only [Tree.isAttributeName, Bool.and_eq_true, Bool.not_eq_true', List.all_eq_true] at h
  obtain ⟨⟨hne, hall⟩, hplain⟩ := h
  refine ⟨by simpa using hne, fun c hc => ?_, hplain⟩
  obtain ⟨hblank, hmarks⟩ := hall c hc
  simp only [List.contains_eq_mem, decide_eq_false_iff_not, List.mem_cons, List.not_mem_nil, or_false, not_or] at hmarks
  exact ⟨hblank, hmarks.1, hmarks.2.1, hmarks.2.2.1, hmarks.2.2.2.1⟩

theorem attributeName_name {name : List Char} (rest : List Char)
    (h : ∀ c ∈ name, isAsciiSpace c = false ∧ c ≠ '=' ∧ c ≠ '>' ∧ c ≠ '/' ∧ c ≠ '[') :
    attributeName false (name ++ '=' :: rest) = (name, '=' :: rest) := by
  induction name with
  | nil => simp [attributeName]
  | cons c name ih =>
    obtain ⟨⟨hblank, heq, hclose, hslash, hbracket⟩, hname⟩ := List.forall_mem_cons.1 h
    have hopen : (c == '[') = false := beq_eq_false_iff_ne.2 hbracket
    simp [attributeName, hblank, heq, hclose, hslash, hopen, ih hname]

theorem wholeName_name {name : List Char} (rest : List Char) (hne : name ≠ [])
    (h : ∀ c ∈ name, isAsciiSpace c = false ∧ c ≠ '=' ∧ c ≠ '>' ∧ c ≠ '/' ∧ c ≠ '[') :
    wholeName (name ++ '=' :: rest) = (name, '=' :: rest) := by
  rw [wholeName, attributeName_name rest h]
  split
  · rename_i heq
    exact absurd (Prod.mk.inj heq).1 hne
  · rfl

/-- Nothing is skipped where no blank stands. -/
theorem skipBlanks_self {stream : Stream} {rest : List Char} {c : Char} (hs : stream.chars = c :: rest)
    (hc : isAsciiSpace c = false) : skipBlanks stream = stream := by
  rw [skipBlanks, Stream.span_append (show stream.chars = [] ++ c :: rest from hs) (by simp) hc]
  cases stream
  simp_all [Stream.after]

/-- A single blank is skipped. -/
theorem skipBlanks_blank {stream : Stream} {rest : List Char} {c : Char} (hs : stream.chars = ' ' :: c :: rest)
    (hc : isAsciiSpace c = false) : skipBlanks stream = stream.after [' '] (c :: rest) := by
  rw [skipBlanks, Stream.span_append (show stream.chars = [' '] ++ c :: rest from hs) (by simp [isAsciiSpace]) hc]

/-- A value in quotes is read up to the closing quote. -/
theorem readValue_quoted (language : Script.Language) (name : Name) {stream : Stream} {value rest : List Char}
    (hvalue : '"' ∉ value) (hs : stream.chars = '"' :: value ++ '"' :: rest) :
    ∃ read, readValue language (.plain name) stream = (read, false, stream.after ('"' :: value ++ ['"']) rest) ∧
      read.raw = String.ofList value ∧ read.meaning = none := by
  have hpass : ∀ c ∈ value, (c != '"') = true := by
    intro c hc
    exact bne_iff_ne.2 fun heq => hvalue (heq ▸ hc)
  have htake : (value ++ '"' :: rest).takeWhile (· != '"') = value := by
    rw [List.takeWhile_append_of_pos hpass]
    simp
  have hdrop : (value ++ '"' :: rest).dropWhile (· != '"') = '"' :: rest := by
    rw [List.dropWhile_append_of_pos hpass]
    simp
  rw [List.cons_append] at hs
  unfold readValue
  rw [hs]
  simp only [beq_self_eq_true, Bool.true_or, if_true, htake, hdrop]
  refine ⟨readValue.value language (.plain name) ⟨stream.offset, stream.offset + 1 + byteLength value + 1⟩
    ⟨stream.offset + 1, stream.offset + 1 + byteLength value⟩ value (some '"'), ?_, rfl, rfl⟩
  have hsize : '"'.utf8Size = 1 := rfl
  simp [Stream.after, hsize, Nat.add_assoc]

/-- A printed attribute is read as one, without the blank before it. -/
theorem readAttribute_printed (around : Surroundings) {stream : Stream} {attr : List Char × List Char} {rest : List Char}
    (h : Tree.isAttribute attr = true) (hs : ' ' :: stream.chars = printAttribute attr ++ rest) :
    ∃ read, readAttribute around stream = (read, stream.after (printAttribute attr).tail rest) ∧
      read.attr.written? = some attr ∧ ∀ fileStop, read.problems fileStop = [] := by
  obtain ⟨name, value⟩ := attr
  simp only [Tree.isAttribute, Bool.and_eq_true, Bool.not_eq_true', List.contains_eq_mem, decide_eq_false_iff_not] at h
  obtain ⟨hname, hvalue⟩ := h
  obtain ⟨hne, hchars, hplain⟩ := of_isAttributeName hname
  replace hs : stream.chars = name ++ '=' :: ('"' :: value ++ '"' :: rest) := by
    simpa [printAttribute] using hs
  have hkey : Key.parse name stream.offset around.topLevel = .plain (Key.nameAt stream.offset name) := by
    simp [Key.parse, hplain]
  -- `named` is the stream behind the name, at the equals sign.
  generalize hnamed : stream.after name ('=' :: ('"' :: value ++ '"' :: rest)) = named
  have hsign : named.chars = '=' :: ('"' :: value ++ '"' :: rest) := by rw [← hnamed]; rfl
  have hnext : named.next = named.after ['='] ('"' :: value ++ '"' :: rest) := by
    rw [Stream.next, hsign]
    rfl
  obtain ⟨read, hread, hraw, hmeaning⟩ := readValue_quoted around.language (Key.nameAt stream.offset name) hvalue
    (show named.next.chars = '"' :: value ++ '"' :: rest by rw [hnext]; rfl)
  have hafter : named.next.after ('"' :: value ++ ['"']) rest = stream.after (printAttribute (name, value)).tail rest := by
    rw [hnext, ← hnamed, Stream.after_after, Stream.after_after]
    simp [printAttribute]
  refine ⟨⟨⟨⟨stream.offset, read.span.stop⟩, .plain (Key.nameAt stream.offset name), some read⟩, some named.offset, false⟩,
    ?_, ?_, ?_⟩
  · have hquote : skipBlanks named.next = named.next := by
      rw [hnext]
      exact skipBlanks_self rfl (by decide)
    rw [readAttribute, hs, wholeName_name _ hne hchars]
    simp only [hnamed, hkey, skipBlanks_self hsign (by decide), hsign, hquote, hread, hafter]
  · simp [Attribute.written?, Key.nameAt, hraw]
  · intro fileStop
    simp [ReadAttribute.problems, hmeaning]

/-- Behind the blank of a printed attribute its name begins. -/
theorem printAttribute_cons {attr : List Char × List Char} (h : Tree.isAttribute attr = true) :
    ∃ c tail, printAttribute attr = ' ' :: c :: tail ∧ isAsciiSpace c = false ∧ c ≠ '>' ∧ c ≠ '/' := by
  rw [Tree.isAttribute, Bool.and_eq_true] at h
  obtain ⟨hne, hchars, _⟩ := of_isAttributeName h.1
  obtain ⟨c, name, hname⟩ := List.exists_cons_of_ne_nil hne
  obtain ⟨hblank, _, hclose, hslash, _⟩ := hchars c (by simp [hname])
  exact ⟨c, name ++ '=' :: '"' :: attr.2 ++ ['"'], by simp [printAttribute, hname], hblank, hclose, hslash⟩

/-- Printed attributes are read one by one up to the closing mark. -/
theorem readAttributes_printed (around : Surroundings) {fuel : Nat} {stream : Stream} {attrs : List (List Char × List Char)}
    {rest : List Char} (h : ∀ attr ∈ attrs, Tree.isAttribute attr = true) (hfuel : attrs.length < fuel)
    (hs : stream.chars = attrs.flatMap printAttribute ++ '>' :: rest) :
    ∃ reads, readAttributes around fuel stream =
        (reads, .plain, stream.after (attrs.flatMap printAttribute ++ ['>']) rest) ∧
      (reads.map (·.attr)).mapM (·.written?) = some attrs ∧ ∀ read ∈ reads, ∀ fileStop, read.problems fileStop = [] := by
  induction attrs generalizing fuel stream with
  | nil =>
    obtain ⟨fuel, rfl⟩ := Nat.exists_eq_succ_of_ne_zero (Nat.ne_of_gt hfuel)
    replace hs : stream.chars = '>' :: rest := hs
    refine ⟨[], ?_, rfl, by simp⟩
    rw [readAttributes, skipBlanks_self hs (by decide), hs]
    simp [Stream.next, hs, Stream.after]
  | cons attr attrs ih =>
    obtain ⟨fuel, rfl⟩ := Nat.exists_eq_succ_of_ne_zero (Nat.ne_of_gt (Nat.lt_of_le_of_lt (Nat.zero_le _) hfuel))
    obtain ⟨hattr, hattrs⟩ := List.forall_mem_cons.1 h
    rw [List.flatMap_cons, List.append_assoc] at hs
    obtain ⟨c, tail, hprint, hblank, hclose, hslash⟩ := printAttribute_cons hattr
    rw [hprint] at hs
    have hskip := skipBlanks_blank hs hblank
    generalize hhere : stream.after [' '] (c :: (tail ++ (attrs.flatMap printAttribute ++ '>' :: rest))) = here at hskip
    have hchars : here.chars = c :: (tail ++ (attrs.flatMap printAttribute ++ '>' :: rest)) := by rw [← hhere]; rfl
    obtain ⟨read, hread, hwritten, hproblems⟩ := readAttribute_printed around hattr
      (show ' ' :: here.chars = printAttribute attr ++ (attrs.flatMap printAttribute ++ '>' :: rest) by
        rw [hchars, hprint]; rfl)
    obtain ⟨reads, hreads, hall, hnone⟩ := ih hattrs (Nat.lt_of_succ_lt_succ hfuel)
      (show (here.after (printAttribute attr).tail (attrs.flatMap printAttribute ++ '>' :: rest)).chars = _ from rfl)
    refine ⟨read :: reads, ?_, by simp [hwritten, hall], by simpa using ⟨hproblems, hnone⟩⟩
    have hafter : (here.after (printAttribute attr).tail (attrs.flatMap printAttribute ++ '>' :: rest)).after
        (attrs.flatMap printAttribute ++ ['>']) rest =
        stream.after ((attr :: attrs).flatMap printAttribute ++ ['>']) rest := by
      rw [← hhere, Stream.after_after, Stream.after_after, hprint]
      simp [hprint]
    rw [readAttributes, hskip, hchars]
    simp only [hread, hreads, hafter]
    split
    · rename_i heq
      cases heq
    · rename_i heq
      exact absurd (List.cons.inj heq).1 hclose
    · rename_i heq
      exact absurd (List.cons.inj heq).1 hslash
    · rename_i heq
      exact absurd (List.cons.inj heq).1 hslash
    · rfl

/-- The characters of an element's name. -/
theorem of_isElementName {name : List Char} (h : Tree.isElementName name = true) :
    (∀ c ∈ name, c.isAlphanum = true) ∧ (∃ c tail, name = c :: tail ∧ c.isAlpha = true) ∧
      ∀ reserved ∈ Tree.reservedNames, eqIgnoreAsciiCase name reserved.toList = false := by
  cases name with
  | nil => cases h
  | cons c tail =>
    simp only [Tree.isElementName, Bool.and_eq_true, List.all_eq_true, Bool.not_eq_true'] at h
    obtain ⟨⟨hc, htail⟩, hreserved⟩ := h
    have hfirst : c.isAlphanum = true := by rw [Char.isAlphanum, hc, Bool.true_or]
    exact ⟨List.forall_mem_cons.2 ⟨hfirst, htail⟩, ⟨c, tail, rfl, hc⟩, hreserved⟩

theorem endsName_attributes (attrs : List (List Char × List Char)) (rest : List Char) :
    EndsName (attrs.flatMap printAttribute ++ '>' :: rest) := by
  cases attrs with
  | nil => exact ⟨rest, Or.inr rfl⟩
  | cons attr attrs => exact ⟨_, Or.inl rfl⟩

theorem length_le_printed (attrs : List (List Char × List Char)) : attrs.length ≤ (attrs.flatMap printAttribute).length := by
  induction attrs with
  | nil => simp
  | cons attr attrs ih =>
    simp only [List.flatMap_cons, List.length_append, printAttribute, List.length_cons]
    omega

/-- A printed start tag is read as one. -/
theorem readPiece_startTag (around : Surroundings) {stream : Stream} {name : List Char} {attrs : List (List Char × List Char)}
    {rest : List Char} (hname : Tree.isElementName name = true) (h : ∀ attr ∈ attrs, Tree.isAttribute attr = true)
    (hs : stream.chars = printStartTag name attrs ++ rest) :
    ∃ reads, readPiece around stream =
        (.startTag ⟨name, stream.offset, reads, .plain, stream.offset + byteLength (printStartTag name attrs)⟩,
          stream.after (printStartTag name attrs) rest) ∧
      (reads.map (·.attr)).mapM (·.written?) = some attrs ∧ ∀ read ∈ reads, ∀ fileStop, read.problems fileStop = [] := by
  obtain ⟨halnum, ⟨c, tail, hfirst, hc⟩, _⟩ := of_isElementName hname
  replace hs : stream.chars = '<' :: (name ++ (attrs.flatMap printAttribute ++ '>' :: rest)) := by
    simpa [printStartTag] using hs
  have hnext : stream.next = stream.after ['<'] (name ++ (attrs.flatMap printAttribute ++ '>' :: rest)) := by
    rw [Stream.next, hs]
    rfl
  generalize hnamed : stream.next.after name (attrs.flatMap printAttribute ++ '>' :: rest) = named
  have hfuel : attrs.length < (attrs.flatMap printAttribute ++ '>' :: rest).length + 1 := by
    have := length_le_printed attrs
    rw [List.length_append]
    omega
  obtain ⟨reads, hreads, hwritten, hproblems⟩ := readAttributes_printed around h hfuel
    (show named.chars = _ by rw [← hnamed]; rfl)
  have hafter : named.after (attrs.flatMap printAttribute ++ ['>']) rest = stream.after (printStartTag name attrs) rest := by
    rw [← hnamed, hnext, Stream.after_after, Stream.after_after]
    simp [printStartTag]
  refine ⟨reads, ?_, hwritten, hproblems⟩
  have htag : readPiece around stream = (.startTag (readStartTag around stream).1, (readStartTag around stream).2) := by
    rw [readPiece, hs, hfirst]
    split
    · rename_i heq
      obtain ⟨rfl, _⟩ := List.cons.inj (List.cons.inj heq).2
      exact absurd hc (by decide)
    · rename_i heq
      obtain ⟨rfl, _⟩ := List.cons.inj (List.cons.inj heq).2
      exact absurd hc (by decide)
    · rename_i heq
      rw [← (List.cons.inj heq).2]
      simp [startsName, isAsciiLetter, hc]
    · rename_i hno
      exact absurd rfl (hno _)
  rw [htag, readStartTag, hs, List.drop_one, List.tail_cons, tagName_name halnum (endsName_attributes attrs rest)]
  simp only [hnamed, hreads, hafter]
  rfl

/-- A printed end tag is read as one. -/
theorem readPiece_endTag (around : Surroundings) {stream : Stream} {name rest : List Char}
    (hname : Tree.isElementName name = true) (hs : stream.chars = printEndTag name ++ rest) :
    ∃ close, readPiece around stream =
      (.endTag name ⟨stream.offset, stream.offset + byteLength (printEndTag name)⟩ (some close),
        stream.after (printEndTag name) rest) := by
  obtain ⟨halnum, ⟨c, tail, hfirst, hc⟩, _⟩ := of_isElementName hname
  replace hs : stream.chars = '<' :: '/' :: (name ++ '>' :: rest) := by
    simpa [printEndTag] using hs
  have hskip : Stream.skip 2 stream = stream.after ['<', '/'] (name ++ '>' :: rest) := by
    simp [Stream.skip, Stream.next, hs, Stream.after, Nat.add_assoc]
  have hpass : ∀ c ∈ name, (!isAsciiSpace c && c != '>') = true := by
    intro c hc
    obtain ⟨hblank, hclose, _⟩ := isAsciiSpace_of_isAlphanum (halnum c hc)
    simp [hblank, hclose]
  have hspan := Stream.span_append (show (Stream.skip 2 stream).chars = name ++ '>' :: rest by rw [hskip]; rfl) hpass
    (by decide)
  generalize hclose : (Stream.skip 2 stream).after name ('>' :: rest) = close at hspan
  have hchars : close.chars = '>' :: rest := by rw [← hclose]; rfl
  have hafter : close.next = stream.after (printEndTag name) rest := by
    rw [Stream.next, hchars]
    simp [← hclose, hskip, Stream.after, printEndTag, Nat.add_assoc]
  refine ⟨close.offset, ?_⟩
  have htag : readPiece around stream = readEndTag stream := by
    simp [readPiece, hs, hfirst, startsName, isAsciiLetter, hc]
  rw [htag, readEndTag, hspan]
  simp only [skipBlanks_self hchars (by decide), hchars, hafter]
  rfl

end ComponentLint.Markup
