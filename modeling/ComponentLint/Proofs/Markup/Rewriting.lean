import ComponentLint.Proofs.Markup.Replacing
import ComponentLint.Proofs.Markup.Revisions

/-!
# Rewriting elements without content

An element without content can be written as a single tag or as a pair of tags. Writing it the other way leaves the tree around it
as it is (`Opens.rewrite`): up to the element both files are read the same, both ways of writing it add the same element, and
behind it the same text follows at another place.
-/

namespace ComponentLint.Markup

open Text

/-- The number of a node in a file that has `extra` more nodes behind the node `id`. -/
def skipping (id extra other : Nat) : Nat :=
  if other ≤ id then other else other + extra

theorem skipping_lt {id extra first second : Nat} (h : first < second) : skipping id extra first < skipping id extra second := by
  unfold skipping
  split <;> split <;> omega

theorem skipping_of_le {id extra other : Nat} (h : other ≤ id) : skipping id extra other = other :=
  if_pos h

theorem skipping_add (id extra count : Nat) : skipping id extra (id + 1 + count) = id + 1 + extra + count := by
  unfold skipping
  split <;> omega

theorem skipping_injective (id extra : Nat) : Function.Injective (skipping id extra) := by
  intro first second heq
  rcases Nat.lt_trichotomy first second with hlt | rfl | hlt
  · exact absurd heq (Nat.ne_of_lt (skipping_lt hlt))
  · rfl
  · exact absurd heq.symm (Nat.ne_of_lt (skipping_lt hlt))

theorem skipping_cases {id extra other size size' : Nat} (hlt : other < size) (hsize : skipping id extra size' = size) :
    (∃ other' < size', skipping id extra other' = other) ∨ (id < other ∧ other < id + 1 + extra) := by
  unfold skipping at hsize
  rcases Nat.lt_or_ge id other with hgt | hle
  · rcases Nat.lt_or_ge other (id + 1 + extra) with hinner | hbehind
    · exact Or.inr ⟨hgt, hinner⟩
    · refine Or.inl ⟨other - extra, ?_, ?_⟩
      · split at hsize <;> omega
      · rw [skipping, if_neg (by omega)]
        omega
  · refine Or.inl ⟨other, ?_, skipping_of_le hle⟩
    split at hsize <;> omega

/-- An element that is closed stays as it is to the end of the file. -/
theorem Builder.HoldsEmpty.lasting {language : Script.Language} {fileStop stop extra : Nat} {builder closed last : Builder}
    {tag : ReadTag} {stream rest : Stream} (h : builder.HoldsEmpty fileStop tag stop extra closed)
    (hbuilder : Shaped builder.nodes builder.stack) (hclosed : Standing fileStop closed.nodes closed.stack stream.offset)
    (hafter : Walks language fileStop last rest closed stream) :
    ∃ parent children endTag, (last.finish fileStop).nodes[builder.nodes.size]? = some ⟨builder.nodes.size, parent, children,
      ⟨tag.start, stop⟩, .element { builder.elementOf tag with endTag := endTag }⟩ ∧ (extra = 0 → children = #[]) := by
  obtain ⟨⟨id, parent, children, span, kind⟩, hnode, -, hspan, ⟨endTag, hkind⟩, hchildren⟩ := h.element
  have hstack : builder.nodes.size ∉ closed.stack := by
    rw [h.stack]
    exact fun hmem => absurd (hbuilder.mem_stack hmem).2 (Nat.lt_irrefl _)
  have hlast := hafter.apart hclosed hnode hstack
  obtain rfl : id = builder.nodes.size := hclosed.shaped.numbered _ _ hnode
  obtain rfl : span = _ := hspan
  obtain rfl : kind = _ := hkind
  exact ⟨parent, children, endTag, hlast, hchildren⟩

open Builder in
/-- An element without content that is written in another way leaves the tree around it as it is. -/
theorem parse_rewritten {language : Script.Language} {front text text' tail : List Char} {builder closed last : Builder}
    {tag tag' : ReadTag} {extra : Nat} {source edited : List Char} (hsource : source = front ++ (text ++ tail))
    (hedited : edited = front ++ (text' ++ tail))
    (hbefore : Walks language (byteLength source) builder
      ⟨byteLength front, text ++ tail⟩ (start (byteLength source)) ⟨0, source⟩)
    (hmiddle : builder.ReadsEmpty language (byteLength source) tag (byteLength front) text tail extra closed)
    (hafter : Walks language (byteLength source) last ⟨byteLength source, []⟩ closed ⟨byteLength front + byteLength text, tail⟩)
    (hclean : last.problems = #[]) (hexchange : Exchangeable (text ++ tail) (text' ++ tail))
    (hopen : ∀ name, closesRaw name (text ++ tail) = false)
    (hname : tag.rawName = tag'.rawName) (hproblems : (Piece.startTag tag').problems (byteLength edited) = [])
    (hnew : ∀ builder' : Builder, Shaped builder'.nodes builder'.stack →
      builder'.surroundings language = builder.surroundings language → (∀ tag, builder'.elementOf tag = builder.elementOf tag) →
      ∃ closed', builder'.ReadsEmpty language (byteLength edited) tag' (byteLength front) text' tail 0 closed') :
    (parse language source).1.KeepsAround (.cut source edited (byteLength front) (byteLength front + byteLength text)
        (byteLength front + byteLength text')) (skipping builder.nodes.size extra) builder.nodes.size (parse language edited).1 ∧
      (parse language edited).2 = [] ∧ ∃ parent endTag, (parse language edited).1.node? builder.nodes.size =
        some ⟨builder.nodes.size, parent, #[], ⟨tag'.start, byteLength front + byteLength text'⟩,
          .element { builder.elementOf tag' with endTag := endTag }⟩ := by
  have hrev : (Revision.cut source edited (byteLength front) (byteLength front + byteLength text)
      (byteLength front + byteLength text')).Replaces front text text' tail :=
    ⟨hsource, hedited, fun offset hle => Or.inl ⟨rfl, hle⟩, fun count => Or.inr ⟨count, rfl, rfl⟩⟩
  generalize hcut : Revision.cut source edited (byteLength front) (byteLength front + byteLength text)
    (byteLength front + byteLength text') = rev at hrev ⊢
  obtain ⟨rfl, rfl⟩ : rev.source = source ∧ rev.edited = edited := by rw [← hcut]; exact ⟨rfl, rfl⟩
  have hpasses : Passes language rev.source front text tail builder closed last := ⟨hbefore, hmiddle.walk, hafter⟩
  have hbuilder := hbefore.standing (start_standing _)
  have hclosed := hmiddle.walk.standing hbuilder
  -- Up to the element.
  obtain ⟨builder', hbefore', hlock⟩ := hpasses.exchange hrev hexchange
    (fun name _ hcloses => by rw [hopen] at hcloses; cases hcloses)
    (· = builder.nodes.size)
  have hsize : builder'.nodes.size = builder.nodes.size := hlock.size 0
  have hbuilder' := hbefore'.standing (start_standing _)
  -- The element.
  obtain ⟨closed', hmiddle'⟩ := hnew builder' hbuilder'.shaped (hlock.surroundings language).symm
    fun tag => (hlock.elementOf_eq tag).symm
  have hclosed' := hmiddle'.walk.standing hbuilder'
  have hlock' : Lockstep rev (skipping builder.nodes.size extra) (· = builder.nodes.size) closed closed' := by
    refine hlock.emptyElement hbuilder.shaped hbuilder'.shaped hclosed'.shaped hsize hname hmiddle.holds hmiddle'.holds hproblems
      (skipping_of_le (Nat.zero_le _)) (skipping_injective _ _) (fun id hle => skipping_of_le (hsize ▸ hle)) fun count => ?_
    rw [hsize]
    exact skipping_add _ _ _
  -- Behind the element.
  obtain ⟨last', hafter', hfinal, hclean'⟩ := hpasses.resume hrev hlock' hclosed'.shaped
  have hwalk := hpasses.walk
  have hwalk' := hbefore'.trans (hmiddle'.walk.trans hafter')
  rw [hwalk.parse_eq, hwalk'.parse_eq]
  refine ⟨⟨fun first second => skipping_lt, skipping_of_le (Nat.zero_le _), skipping_of_le (Nat.le_refl _), hfinal.nodes,
    fun other node hnode => ?_⟩, ?_, ?_⟩
  · have hlt := (Array.getElem?_eq_some_iff.1 hnode).1
    rcases skipping_cases hlt (hfinal.size 0) with hkept | ⟨hgt, hle⟩
    · exact Or.inl hkept
    · obtain ⟨inner, hfound, hparent, hkind, hblank⟩ := hmiddle.inner other hgt hle
      have hstack : other ∉ closed.stack := by
        rw [hmiddle.holds.stack]
        exact fun hmem => absurd (hbuilder.shaped.mem_stack hmem).2 (by omega)
      cases hnode.symm.trans (hafter.apart hclosed hfound hstack)
      exact Or.inr ⟨hparent, hkind, hblank rev.source ⟨front, hrev.source, by simp⟩⟩
  · rw [hclean' hclean]
  · obtain ⟨parent, children, endTag, hnode, hchildren⟩ := hmiddle'.holds.lasting hbuilder'.shaped hclosed' hafter'
    rw [hchildren rfl, ← hlock.elementOf_eq, hsize] at hnode
    exact ⟨parent, endTag, hnode⟩

/-- A tag with another closing mark. -/
def ReadTag.endedBy (tag : ReadTag) (ending : TagEnd) (stop : Nat) : ReadTag :=
  { tag with ending := ending, stop := stop }

theorem ReadTag.problems_endedBy {tag : ReadTag} {fileStop : Nat} (h : (Piece.startTag tag).problems fileStop = [])
    (fileStop' : Nat) {ending : TagEnd} (hended : ending ≠ .missing) (stop : Nat) :
    (Piece.startTag (tag.endedBy ending stop)).problems fileStop' = [] := by
  have hanywhere := (Piece.problems_shift 0 (.startTag tag) 0 fileStop').1
    ((Piece.problems_shift 0 (.startTag tag) 0 fileStop).2 h)
  simp only [Piece.problems, List.append_eq_nil_iff] at hanywhere ⊢
  refine ⟨hanywhere.1, if_neg ?_⟩
  simpa [ReadTag.endedBy] using hended

namespace Builder

variable {language : Script.Language} {source : List Char} {id : Nat} {element : Element} {builder last : Builder}
  {tag : ReadTag} {front before : List Char}

/-- What stands behind the start tag of an element without content: nothing if it closes itself, or blanks and an end tag. -/
inductive Shuts (builder : Builder) (tag : ReadTag) : List Char → List Char → Prop where
  | single (h : builder.closesItself tag = true) : Shuts builder tag [] []
  | pair {blank close : List Char} (h : builder.closesItself tag = false) (hblank : ∀ c ∈ blank, isSpace c = true)
      (hclose : WholeEndTag tag.rawName close) : Shuts builder tag blank (blank ++ close)

theorem Shuts.congr {builder' : Builder} {blank body : List Char} (h : builder.Shuts tag blank body)
    (helement : builder'.elementOf tag = builder.elementOf tag) : builder'.Shuts tag blank body := by
  cases h with
  | single hclosed => exact .single (by rwa [closesItself, helement])
  | pair hopen hblank hclose => exact .pair (by rwa [closesItself, helement]) hblank hclose

theorem Shuts.readsEmpty {fileStop offset : Nat} {open' blank body tail : List Char} (h : builder.Shuts tag blank body)
    (hshaped : Shaped builder.nodes builder.stack)
    (hread : readPiece (builder.surroundings language) ⟨offset, open' ++ (body ++ tail)⟩ =
      (.startTag tag, ⟨offset + byteLength open', body ++ tail⟩)) :
    ∃ closed, builder.ReadsEmpty language fileStop tag offset (open' ++ body) tail (if blank = [] then 0 else 1) closed := by
  cases h with
  | single hclosed =>
    rw [List.append_nil]
    exact readsEmpty_single hshaped hread hclosed
  | pair hopen hblank hclose =>
    rw [List.append_assoc] at hread
    exact readsEmpty_pair hshaped hread hopen hblank hclose

/-- An element without content is read, and then what follows it to the end of the file. -/
theorem Opens.readsEmpty {blank body tail : List Char}
    (h : Opens language source id element builder last tag front before (body ++ tail)) (hbody : builder.Shuts tag blank body)
    {text : List Char} (htext : text = '<' :: (before ++ tag.ending.mark) ++ body) :
    ∃ closed, builder.ReadsEmpty language (byteLength source) tag (byteLength front) text tail
      (if blank = [] then 0 else 1) closed ∧
      Walks language (byteLength source) last ⟨byteLength source, []⟩ closed ⟨byteLength front + byteLength text, tail⟩ := by
  have hread : readPiece (builder.surroundings language)
    ⟨byteLength front, '<' :: (before ++ tag.ending.mark) ++ (body ++ tail)⟩ =
      (.startTag tag, ⟨byteLength front + byteLength ('<' :: (before ++ tag.ending.mark)), body ++ tail⟩) := by
    rw [startTag_append, byteLength_startTag, h.readTag]
  have hupTo := h.upTo
  rw [← startTag_append, ← List.append_assoc _ body, ← htext] at hupTo
  obtain ⟨closed, hreads⟩ := hbody.readsEmpty (hupTo.standing (start_standing _)).shaped hread
  rw [← htext] at hreads
  exact ⟨closed, hreads, hreads.walk.rest_of (hupTo.rest_of h.walk rfl) rfl⟩

/-- The text of an element that is written as a pair of tags with nothing but blanks between them. -/
theorem Opens.pair {rest : List Char} (h : Opens language source id element builder last tag front before rest)
    (hclean : (Markup.parse language source).2 = []) (helement : (Markup.parse language source).1.element? id = some element)
    {span : Span} (hspan : element.endTag = some span)
    (hblank : isBlank (slice source ⟨element.startTag.span.stop, span.start⟩)) :
    ∃ blank close tail, rest = (blank ++ close) ++ tail ∧ builder.Shuts tag blank (blank ++ close) ∧
      (∀ c ∈ blank, isSpace c = true) ∧ slice source span = close := by
  obtain ⟨here, ⟨offset, tail⟩, text, hhere, hreads, rfl, hle, hwhole⟩ := parse_endsWhole hclean helement span hspan
  obtain ⟨blank, hbetween⟩ := h.afterTag.of_le hhere hle
  obtain ⟨early, hearly⟩ := h.afterTag
  rw [show slice source _ = blank from hearly.slice hbetween] at hblank
  obtain ⟨upTo, hupTo⟩ := hhere
  refine ⟨blank, text, tail, ?_, .pair ?_ (List.all_eq_true.1 hblank) (h.rawName_eq ▸ hwhole), List.all_eq_true.1 hblank,
    hupTo.slice hreads⟩
  · rw [List.append_assoc, ← hreads.chars]
    exact hbetween.chars
  · rw [h.closesItself_eq]
    cases hself : element.startTag.selfClosing || element.isVoid with
    | false => rfl
    | true =>
      rw [(parse_single helement hself).1] at hspan
      cases hspan

/-- Where an element without content stands. -/
theorem Opens.spanOf_eq {blank body tail : List Char}
    (h : Opens language source id element builder last tag front before (body ++ tail)) (hbody : builder.Shuts tag blank body) :
    (parse language source).1.spanOf id =
      ⟨byteLength front, byteLength front + byteLength ('<' :: (before ++ tag.ending.mark) ++ body)⟩ := by
  obtain ⟨closed, hreads, hafter⟩ := h.readsEmpty hbody rfl
  have hbuilder := h.upTo.standing (start_standing _)
  obtain ⟨parent, children, endTag, hnode, -⟩ := hreads.holds.lasting hbuilder.shaped (hreads.walk.standing hbuilder) hafter
  rw [h.size, h.start_eq] at hnode
  rw [Document.spanOf, h.walk.parse_eq, Document.node?, hnode]
  rfl

/-- Whether types are used is told by what stands behind a start tag, and by what follows it. -/
theorem Shuts.usesTypes {blank body : List Char} (h : builder.Shuts tag blank body) (rest : List Char) :
    Component.usesTypes (body ++ rest) = (Component.usesTypes body || Component.usesTypes rest) := by
  cases h with
  | single => rfl
  | @pair blank _ _ _ hclose =>
    obtain ⟨found, blanks, rfl, -, -⟩ := hclose
    have hsplit := Component.usesTypes_split (blank ++ '<' :: '/' :: (found ++ blanks))
    have hwhole := hsplit []
    rw [show Component.usesTypes [] = false from rfl, Bool.or_false] at hwhole
    have hparts := hsplit rest
    rw [← hwhole] at hparts
    simpa using hparts

/-- An element without content that is written with the other closing mark leaves the tree around it as it is. -/
theorem Opens.rewrite {blank body body' tail : List Char} {ending : TagEnd}
    (h : Opens language source id element builder last tag front before (body ++ tail))
    (hbody : builder.Shuts tag blank body)
    (hother : (tag.ending = .plain ∧ ending = .selfClosing) ∨ (tag.ending = .selfClosing ∧ ending = .plain))
    (hslash : ending = .plain → before.getLast? ≠ some '/')
    (hbare : ending = .selfClosing → ∀ read ∈ tag.attributes.getLast?, ∀ value, read.attr.value = some value →
      value.quote = none → read.attr.span.stop ≠ byteLength front + 1 + byteLength before)
    (hbody' : builder.Shuts (tag.endedBy ending (byteLength front + 1 + byteLength before + byteLength ending.mark)) [] body')
    (hbracket : ']' ∉ body') (hbraces : occurs ['}', '}'] (body' ++ tail) = true →
      occurs ['}', '}'] ('<' :: before) = true ∨ occurs ['}', '}'] (body ++ tail) = true) {text text' edited : List Char}
    (htext : text = '<' :: (before ++ tag.ending.mark) ++ body) (htext' : text' = '<' :: (before ++ ending.mark) ++ body')
    (hedited : edited = front ++ (text' ++ tail)) :
    (∃ rename, (parse language source).1.KeepsAround (.cut source edited (byteLength front) (byteLength front + byteLength text)
        (byteLength front + byteLength text')) rename id (parse language edited).1) ∧
      (parse language edited).2 = [] ∧ ∃ parent endTag, (parse language edited).1.node? id =
        some ⟨id, parent, #[], ⟨byteLength front, byteLength front + byteLength text'⟩,
          .element { builder.elementOf (tag.endedBy ending
            (byteLength front + 1 + byteLength before + byteLength ending.mark)) with
            endTag := endTag }⟩ := by
  have hended : ending ≠ .missing := by
    rcases hother with ⟨-, rfl⟩ | ⟨-, rfl⟩ <;> exact nofun
  generalize htag' : tag.endedBy ending (byteLength front + 1 + byteLength before + byteLength ending.mark) = tag' at hbody' ⊢
  have hread' : readPiece (builder.surroundings language) ⟨byteLength front, '<' :: (before ++ ending.mark) ++ (body' ++ tail)⟩ =
      (.startTag tag', ⟨byteLength front + byteLength ('<' :: (before ++ ending.mark)), body' ++ tail⟩) := by
    have hbehind : ']' ∈ body' ++ tail → ']' ∈ body ++ tail := fun hmem =>
      List.mem_append_right body ((List.mem_append.1 hmem).resolve_left hbracket)
    rw [startTag_append, byteLength_startTag, readPiece_open _ (h.starts _),
      readStartTag_remark h.read hother hslash hbare hbehind, ← htag']
    rfl
  obtain ⟨closed, hreads, hafter⟩ := h.readsEmpty hbody htext
  have htexts : '<' :: (before ++ (tag.ending.mark ++ (body ++ tail))) = text ++ tail := by
    rw [htext, List.append_assoc, startTag_append]
  have htexts' : text' ++ tail = '<' :: (before ++ (ending.mark ++ (body' ++ tail))) := by
    rw [htext', List.append_assoc, startTag_append]
  have hupTo := h.upTo
  rw [htexts] at hupTo
  have hexchange : Exchangeable (text ++ tail) (text' ++ tail) := by
    rw [← htexts, htexts']
    refine .of_start (Or.inl rfl) ?_ rfl (fun hmem => ?_) fun hclosing => ?_
    · rw [isMarkup_of_startsName (h.starts _), isMarkup_of_startsName (h.starts _)]
    · simp only [List.mem_append] at hmem ⊢
      rcases hmem with hmem | hmem | hmem | hmem
      · exact Or.inl hmem
      · rcases hother with ⟨-, rfl⟩ | ⟨-, rfl⟩ <;> simp [TagEnd.mark] at hmem
      · exact absurd hmem hbracket
      · exact Or.inr (Or.inr (Or.inr hmem))
    · rw [← List.cons_append, occurs_mark hended, Bool.or_eq_true] at hclosing
      rw [← List.cons_append, occurs_mark h.ended, Bool.or_eq_true]
      exact hclosing.elim Or.inl hbraces
  have hclosesRaw : ∀ name, closesRaw name (text ++ tail) = false := by
    intro name
    rw [← htexts]
    exact closesRaw_of_startsName name (h.starts _)
  have hname : tag.rawName = tag'.rawName := by rw [← htag']; rfl
  have hstart : tag'.start = byteLength front := by rw [← htag']; exact h.start_eq
  have hproblems : (Piece.startTag tag').problems (byteLength edited) = [] := by
    rw [← htag']
    exact ReadTag.problems_endedBy h.problems _ hended _
  obtain ⟨haround, hclean, hnode⟩ := parse_rewritten (by rw [h.source_eq, htexts]) hedited hupTo hreads hafter h.clean hexchange
    hclosesRaw hname hproblems fun builder' hshaped hsurroundings helement => by
      rw [← hsurroundings] at hread'
      rw [htext']
      exact (hbody'.congr (helement tag')).readsEmpty hshaped hread'
  rw [h.size] at haround hnode
  rw [hstart] at hnode
  exact ⟨⟨_, haround⟩, hclean, hnode⟩

end Builder
end ComponentLint.Markup
