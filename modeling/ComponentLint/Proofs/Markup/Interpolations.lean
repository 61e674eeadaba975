import ComponentLint.Proofs.Markup.EmptyElements
import ComponentLint.Proofs.Markup.Replacing
import ComponentLint.Proofs.Markup.Revisions

/-!
# Interpolations of a file

An interpolation ends with the first closing braces behind its opening ones. So a text is read back between
braces whatever follows them, unless it holds closing braces itself or gives the first brace to them
(`readPiece_interpolation`). The interpolation of a node is read in one step (`Walks.interpolation_origin`), so
the file is what is read up to it, its text, and what follows (`exists_interpolates`).

The text of an interpolation is exchanged for another that is read back between the braces. If that is an expression the file is
read as before, with the other text in its place (`Interpolates.respace`), and if not the file has a problem
(`Interpolates.isSome_of_clean`).
-/

namespace ComponentLint.Markup

open Text

/-- The interpolation of a kind of node. -/
def NodeKind.interpolation? : NodeKind → Option Interpolation
  | .interpolation content => some content
  | .root | .element _ | .text | .comment => none

/-- The interpolation of a node. -/
def Document.interpolation? (document : Document) (id : NodeId) : Option Interpolation :=
  (document.node? id).bind (·.kind.interpolation?)

theorem Document.interpolation?_eq_some_iff {document : Document} {id : NodeId} {content : Interpolation} :
    document.interpolation? id = some content ↔ ∃ node, document.node? id = some node ∧ node.kind = .interpolation content := by
  have hkind : ∀ kind : NodeKind, kind.interpolation? = some content ↔ kind = .interpolation content := by
    intro kind
    cases kind <;> simp [NodeKind.interpolation?]
  rw [interpolation?, Option.bind_eq_some_iff]
  exact exists_congr fun node => and_congr_right fun _ => hkind node.kind

/-! ## Closing braces -/

/-- The text between braces ends where the first two closing ones are. -/
theorem cutAt?_closing {inner rest : List Char} :
    cutAt? ['}', '}'] (inner ++ '}' :: '}' :: rest) = some (inner, rest) ↔ occurs ['}', '}'] (inner ++ ['}']) = false := by
  induction inner with
  | nil => simp [cutAt?, occurs, List.isPrefixOf]
  | cons c inner ih =>
    have hprefix : ['}', '}'].isPrefixOf (c :: (inner ++ '}' :: '}' :: rest)) = ['}', '}'].isPrefixOf
        (c :: (inner ++ ['}'])) := by
      cases inner <;> simp [List.isPrefixOf]
    rw [List.cons_append, List.cons_append, occurs, cutAt?, cutAt?, hprefix]
    split
    · simp
    · rw [Option.isSome_map, ← occurs, ← ih]
      cases cutAt? ['}', '}'] (inner ++ '}' :: '}' :: rest) <;> simp [Prod.ext_iff]

theorem not_brace_of_isSpace {c : Char} (h : isSpace c = true) : c ∉ ['}', '}'] := by
  intro hmem
  obtain rfl : c = '}' := by simpa using hmem
  cases h

/-- With blanks around it a text holds no closing braces up to the first brace behind it, if it holds none, and does not end in a
brace when nothing stands behind it. -/
theorem occurs_blanks {blank core blank' : List Char}
    (hcore : occurs ['}', '}'] core = false) (hblank : ∀ c ∈ blank, isSpace c = true)
    (hblank' : ∀ c ∈ blank', isSpace c = true) (hend : blank' = [] → core.getLast? ≠ some '}') :
    occurs ['}', '}'] (blank ++ (core ++ blank') ++ ['}']) = false := by
  have hne : ['}', '}'] ≠ [] := by simp
  have hbrace : occurs ['}', '}'] ['}'] = false := by decide
  rw [List.append_assoc, List.append_assoc, occurs_prepend hne fun c hc => not_brace_of_isSpace (hblank c hc)]
  cases blank' with
  | cons c blank' =>
    obtain ⟨hc, hblank'⟩ := List.forall_mem_cons.1 hblank'
    rw [List.cons_append, occurs_split hne (not_brace_of_isSpace hc), hcore,
      occurs_prepend hne fun c hc => not_brace_of_isSpace (hblank' c hc)]
    exact hbrace
  | nil =>
    rcases List.eq_nil_or_concat core with rfl | ⟨early, c, rfl⟩
    · exact hbrace
    · rw [List.concat_eq_append] at hcore hend ⊢
      have hc : c ∉ ['}', '}'] := by
        intro hmem
        obtain rfl : c = '}' := by simpa using hmem
        exact hend rfl (by simp)
      have hearly : occurs ['}', '}'] early = false := by
        have hsplit := occurs_split hne hc early []
        rw [hcore] at hsplit
        exact (Bool.or_eq_false_iff.1 hsplit.symm).1
      rw [List.nil_append, List.append_assoc, List.singleton_append, occurs_split hne hc, hearly]
      exact hbrace

/-! ## Reading -/

/-- The interpolation of a text that starts at an offset with its opening braces. -/
def interpolationOf (language : Script.Language) (offset : Nat) (inner : List Char) : Interpolation :=
  ⟨⟨offset, offset + 2⟩, ⟨offset + 2 + byteLength inner, offset + 2 + byteLength inner + 2⟩,
    Fragment.expression? language (offset + 2) inner⟩

section Reading

variable {around : Surroundings} {content : Interpolation} {inner rest : List Char}

theorem byteLength_interpolation (inner : List Char) :
    byteLength ('{' :: '{' :: (inner ++ ['}', '}'])) = 2 + byteLength inner + 2 := by
  simp only [byteLength_cons, byteLength_append, byteLength_nil, show '{'.utf8Size = 1 from rfl, show '}'.utf8Size = 1 from rfl]
  omega

theorem interpolation_append (inner rest : List Char) :
    '{' :: '{' :: (inner ++ ['}', '}']) ++ rest = '{' :: '{' :: (inner ++ '}' :: '}' :: rest) := by
  simp

/-- The text between the braces. -/
theorem slice_interpolation (front inner rest : List Char) : slice (front ++ '{' :: '{' :: (inner ++ '}' :: '}' :: rest))
    ⟨byteLength front + 2, byteLength front + 2 + byteLength inner⟩ = inner := by
  have hslice := slice_append (front ++ ['{', '{']) inner ('}' :: '}' :: rest)
  rw [byteLength_append, List.append_assoc] at hslice
  exact hslice

theorem readPiece_interpolation (hinterpolates : around.interpolates = true) (hinner : occurs ['}', '}'] (inner ++ ['}']) = false)
    (offset : Nat) (rest : List Char) :
    readPiece around ⟨offset, '{' :: '{' :: (inner ++ '}' :: '}' :: rest)⟩ =
      (.interpolation (interpolationOf around.language offset inner) inner, ⟨offset + 2 + byteLength inner + 2, rest⟩) := by
  have hopens : Stream.startsWith ⟨offset, '{' :: '{' :: (inner ++ '}' :: '}' :: rest)⟩ "\x7b\x7b" = true := by
    simp [Stream.startsWith, List.isPrefixOf]
  rw [readPiece_content around (isMarkup_cons (by decide) _), readContent, hinterpolates, hopens]
  simp [readInterpolation?, cutAt?_closing.2 hinner, interpolationOf]

theorem of_readPiece_interpolation {stream after : Stream} (h : readPiece around stream = (.interpolation content inner, after)) :
    around.interpolates = true ∧ occurs ['}', '}'] (inner ++ ['}']) = false ∧
      stream.chars = '{' :: '{' :: (inner ++ '}' :: '}' :: after.chars) ∧
      content = interpolationOf around.language stream.offset inner ∧
        after.offset = stream.offset + 2 + byteLength inner + 2 := by
  have hcontent : readContent around stream = (.interpolation content inner, after) := by
    unfold readPiece at h
    split at h
    · unfold readComment at h
      split at h <;> cases h
    · split at h
      · unfold readEndTag at h
        dsimp only at h
        split at h <;> cases h
      · exact h
    · split at h
      · cases h
      · exact h
    · exact h
  unfold readContent at hcontent
  split at hcontent
  · rename_i hopens
    obtain ⟨hinterpolates, hbraces⟩ := Bool.and_eq_true_iff.1 hopens
    obtain ⟨tail, htail⟩ : ∃ tail, stream.chars = '{' :: '{' :: tail := by
      obtain ⟨tail, htail⟩ := List.isPrefixOf_iff_prefix.1 hbraces
      exact ⟨tail, htail.symm⟩
    unfold readInterpolation? at hcontent
    rw [htail] at hcontent
    cases hcut : cutAt? ['}', '}'] tail with
    | none => simp [hcut, readText] at hcontent
    | some cut =>
      obtain ⟨found, rest⟩ := cut
      simp only [List.drop_succ_cons, List.drop_zero, hcut, Option.bind_eq_bind, Option.bind_some,
        Option.pure_def, Option.getD_some,
        Prod.mk.injEq, Piece.interpolation.injEq] at hcontent
      obtain ⟨⟨hcontent, rfl⟩, rfl⟩ := hcontent
      obtain rfl := eq_of_cutAt? hcut
      exact ⟨hinterpolates, cutAt?_closing.1 hcut, htail, hcontent.symm, rfl⟩
  · simp [readText] at hcontent

end Reading

namespace Builder

variable {language : Script.Language} {fileStop : Nat} {builder last : Builder} {stream rest : Stream} {id : Nat}
  {content : Interpolation}

/-- A piece that makes a node an interpolation is that interpolation. -/
theorem add_interpolation {piece : Piece} {taken : List Char}
    (h : Standing fileStop builder.nodes builder.stack stream.offset) (hread : piece.ReadFrom language stream taken rest)
    (hlt : stream.offset < rest.offset) (hbefore : ¬builder.Holds id (· = .interpolation content))
    (hafter : (builder.add fileStop piece).Holds id (· = .interpolation content)) :
    ∃ inner, piece = .interpolation content inner ∧ builder.nodes.size = id := by
  obtain ⟨node, hnode, hkind⟩ := hafter
  rcases (add_steps h hread hlt).cases hnode with ⟨old, hold, hbecomes⟩ | ⟨-, hadds⟩
  · cases hbecomes with
    | same hsame _ => exact absurd ⟨old, hold, hsame ▸ hkind⟩ hbefore
    | tagged _ _ _ _ hnew => cases hnew.symm.trans hkind
  · cases piece with
    | interpolation found inner =>
      cases hadds.symm.trans hkind
      refine ⟨inner, rfl, ?_⟩
      rcases grow_like h.shaped.current_lt hnode with ⟨hid, -⟩ | ⟨-, old, hold, hlike⟩
      · exact hid.symm
      · exact absurd ⟨old, hold, hlike.kind ▸ hkind⟩ hbefore
    | startTag tag =>
      obtain ⟨element, helement, -⟩ := hadds
      cases helement.symm.trans hkind
    | endTag => exact hadds.elim
    | comment | text | raw => cases hadds.symm.trans hkind

/-- The step that makes a node an interpolation reads that interpolation. -/
theorem Walks.interpolation_origin {source : List Char} (h : Walks language fileStop last rest (start fileStop) ⟨0, source⟩)
    (hlast : last.Holds id (· = .interpolation content)) :
    ∃ builder here inner after, Walks language fileStop builder here (start fileStop) ⟨0, source⟩ ∧ builder.nodes.size = id ∧
      readPiece (builder.surroundings language) here = (.interpolation content inner, after) ∧
      Walks language fileStop last rest (builder.add fileStop (.interpolation content inner)) after := by
  obtain ⟨builder, here, piece, taken, after, hwalk, hread, hfrom, hlt, hbefore, hafter, hrest⟩ := h.kind_origin nofun nofun hlast
  obtain ⟨inner, rfl, hid⟩ := add_interpolation (hwalk.standing (start_standing fileStop)) hfrom hlt hbefore hafter
  rw [advance_plain hread rfl] at hrest
  exact ⟨builder, here, inner, after, hwalk, hid, hread, hrest⟩

/-- A file that is read up to an interpolation, over it, and to its end. -/
structure Interpolates (language : Script.Language) (source : List Char)
    (id : Nat) (content : Interpolation) (builder last : Builder)
    (front inner tail : List Char) : Prop where
  passes : Passes language source front ('{' :: '{' :: (inner ++ ['}', '}'])) tail builder
    (builder.add (byteLength source) (.interpolation content inner)) last
  source_eq : source = front ++ '{' :: '{' :: (inner ++ '}' :: '}' :: tail)
  interpolates : (builder.surroundings language).interpolates = true
  closed : occurs ['}', '}'] (inner ++ ['}']) = false
  content_eq : content = interpolationOf language (byteLength front) inner
  size : builder.nodes.size = id

/-- An interpolation is added in one step. -/
theorem walks_interpolation {inner : List Char} (hinterpolates : (builder.surroundings language).interpolates = true)
    (hinner : occurs ['}', '}'] (inner ++ ['}']) = false) (offset : Nat) (rest : List Char) :
    Walks language fileStop (builder.add fileStop (.interpolation (interpolationOf language offset inner) inner))
      ⟨offset + byteLength ('{' :: '{' :: (inner ++ ['}', '}'])), rest⟩ builder
      ⟨offset, '{' :: '{' :: (inner ++ ['}', '}']) ++ rest⟩ := by
  have hread := readPiece_interpolation hinterpolates hinner offset rest
  rw [interpolation_append, byteLength_interpolation, ← Nat.add_assoc, ← Nat.add_assoc]
  exact .single (List.cons_ne_nil _ _) (advance_plain hread rfl)

theorem exists_interpolates {source : List Char} (hcontent : (parse language source).1.interpolation? id = some content) :
    ∃ builder last front inner tail, Interpolates language source id content builder last front inner tail := by
  obtain ⟨node, hnode, hkind⟩ := Document.interpolation?_eq_some_iff.1 hcontent
  obtain ⟨last, hwalk⟩ := exists_walks language source
  have hlast := hwalk.standing (start_standing _)
  rw [hwalk.parse_eq] at hnode
  obtain ⟨old, hold, hsame, -⟩ := of_finish hlast.shaped hnode
  obtain ⟨builder, ⟨offset, chars⟩, inner, ⟨stop, tail⟩, hbefore, hid, hread, hrest⟩ :=
    hwalk.interpolation_origin ⟨old, hold, hsame.symm.trans hkind⟩
  obtain ⟨hinterpolates, hinner, rfl, hcontent, hstop⟩ := of_readPiece_interpolation hread
  obtain rfl : stop = offset + 2 + byteLength inner + 2 := hstop
  obtain ⟨front, hfront⟩ := hbefore.before
  obtain rfl : offset = byteLength front := by simpa using hfront.offset
  rw [← interpolation_append] at hbefore
  refine ⟨builder, last, front, inner, tail, ⟨hbefore, ?_, ?_⟩, hfront.chars, hinterpolates, hinner, hcontent, hid⟩
  · rw [hcontent]
    exact walks_interpolation hinterpolates hinner _ _
  · rw [byteLength_interpolation, ← Nat.add_assoc, ← Nat.add_assoc]
    exact hrest

end Builder

end ComponentLint.Markup

/-! ## Other texts in interpolations -/

namespace ComponentLint

open Text Markup

/-- Whether types are used does not depend on the blanks at the ends of an interpolation. -/
theorem Component.usesTypes_blanks {lead trail : List Char}
    (hlead : ∀ c ∈ lead, isSpace c = true) (htrail : ∀ c ∈ trail, isSpace c = true)
    (front core tail : List Char) : usesTypes (front ++ '{' :: '{' :: (lead ++ (core ++ trail) ++ '}' :: '}' :: tail)) =
      usesTypes (front ++ '{' :: '{' :: (core ++ '}' :: '}' :: tail)) := by
  have hbraces : Inert '{' ∧ Inert '}' := by decide
  have hopens : ∀ {blank : List Char}, (∀ c ∈ blank, isSpace c = true) → ∀ c ∈ '{' :: '{' :: blank, Inert c := fun hblank =>
    List.forall_mem_cons.2 ⟨hbraces.1, List.forall_mem_cons.2 ⟨hbraces.1, fun c hc => inert_of_isSpace (hblank c hc)⟩⟩
  have hcloses : ∀ {blank : List Char}, (∀ c ∈ blank, isSpace c = true) → ∀ c ∈ blank ++ ['}', '}'], Inert c := fun hblank =>
    List.forall_mem_append.2 ⟨fun c hc => inert_of_isSpace (hblank c hc),
      List.forall_mem_cons.2 ⟨hbraces.2, List.forall_mem_singleton.2 hbraces.2⟩⟩
  have hled := usesTypes_inert (by simp) (hopens hlead) (by simp) (@hopens [] nofun) front (core ++ (trail ++ '}' :: '}' :: tail))
  have htrailed := usesTypes_inert (by simp) (hcloses htrail) (by simp) (@hcloses [] nofun) (front ++ '{' :: '{' :: core) tail
  simp only [List.cons_append, List.nil_append, List.append_assoc] at hled htrailed ⊢
  rw [hled, htrailed]

namespace Markup

/-- A text between braces can be exchanged for another, if that holds no bracket that the first one does not hold. -/
theorem Exchangeable.of_interpolation {inner inner' tail : List Char} (hbracket : ']' ∈ inner' → ']' ∈ inner) :
    Exchangeable ('{' :: '{' :: (inner ++ '}' :: '}' :: tail)) ('{' :: '{' :: (inner' ++ '}' :: '}' :: tail)) := by
  refine .of_start (Or.inr rfl) ?_ rfl (fun hmem => ?_) fun _ => (occurs_iff (by simp)).2 ⟨'{' :: '{' :: inner, tail, by simp⟩
  · rw [isMarkup_cons (by decide), isMarkup_cons (by decide)]
  · simp only [List.mem_cons, List.mem_append] at hmem ⊢
    exact hmem.imp_right (Or.imp_left hbracket)

/-- An interpolation keeps the trees in step if the edit changes it, and it has no problem in the edited file. -/
theorem Lockstep.addInterpolation {rev : Revision} {rename : Nat → Nat} {changed : Nat → Prop} {old new : Builder}
    (h : Lockstep rev rename changed old new) (hold : Shaped old.nodes old.stack) (hnew : Shaped new.nodes new.stack)
    (hchanged : changed new.nodes.size) {content content' : Interpolation} {inner inner' : List Char}
    (fileStop : Nat) {fileStop' : Nat}
    (hproblems : (Piece.interpolation content' inner').problems fileStop' = []) :
    Lockstep rev rename changed (old.add fileStop (.interpolation content inner))
      (new.add fileStop' (.interpolation content' inner')) := by
  have hrecord : Lockstep rev rename changed (old.record fileStop (.interpolation content inner))
      (new.record fileStop' (.interpolation content' inner')) := h.record fileStop fileStop' fun _ => hproblems
  exact hrecord.push hold hnew .interpolation fun hsame => absurd hchanged hsame

theorem Piece.problems_interpolation {language : Script.Language} {offset : Nat} {inner : List Char}
    (hblank : isBlank inner = false)
    (fileStop : Nat) : (Piece.interpolation (interpolationOf language offset inner) inner).problems fileStop = [] ↔
      (Fragment.expression? language (offset + 2) inner).isSome = true := by
  rw [problems, interpolationOf, hblank]
  cases Fragment.expression? language (offset + 2) inner <;> simp

namespace Builder

variable {language : Script.Language} {source edited : List Char} {id : Nat} {content : Interpolation} {builder last : Builder}
  {front inner inner' tail : List Char}

/-- Where an interpolation is replaced. -/
def Interpolates.revision (source edited front inner inner' : List Char) : Revision :=
  .cut source edited (byteLength front) (byteLength front + byteLength ('{' :: '{' :: (inner ++ ['}', '}'])))
    (byteLength front + byteLength ('{' :: '{' :: (inner' ++ ['}', '}'])))

namespace Interpolates

theorem replaces (h : Interpolates language source id content builder last front inner tail)
    (hedited : edited = front ++ '{' :: '{' :: (inner' ++ '}' :: '}' :: tail)) :
    (revision source edited front inner inner').Replaces front ('{' :: '{' :: (inner ++ ['}', '}']))
      ('{' :: '{' :: (inner' ++ ['}', '}'])) tail := by
  refine ⟨?_, ?_, fun offset hle => Or.inl ⟨rfl, hle⟩, fun count => Or.inr ⟨count, rfl, rfl⟩⟩
  · rw [interpolation_append]
    exact h.source_eq
  · rw [interpolation_append]
    exact hedited

/-- Both files are read in step up to the interpolation. -/
theorem exchange (h : Interpolates language source id content builder last front inner tail)
    (hbracket : ']' ∈ inner' → ']' ∈ inner)
    (hedited : edited = front ++ '{' :: '{' :: (inner' ++ '}' :: '}' :: tail)) :
    ∃ builder', Walks language (byteLength edited) builder' ⟨byteLength front, '{' :: '{' :: (inner' ++ ['}', '}']) ++ tail⟩
        (start (byteLength edited)) ⟨0, edited⟩ ∧
      Lockstep (revision source edited front inner inner') (fun other => other) (· = id) builder builder' := by
  refine h.passes.exchange (h.replaces hedited) ?_ (fun name _ hcloses => ?_) (· = id)
  · rw [interpolation_append, interpolation_append]
    exact .of_interpolation hbracket
  · cases hcloses

/-- What is read between the braces of the edited file is the interpolation there. -/
theorem interpolation?_reread (h : Interpolates language source id content builder last front inner tail)
    (hbracket : ']' ∈ inner' → ']' ∈ inner)
    {read rest : List Char} (hread : inner' ++ '}' :: '}' :: tail = read ++ '}' :: '}' :: rest)
    (hclosed : occurs ['}', '}'] (read ++ ['}']) = false)
    (hedited : edited = front ++ '{' :: '{' :: (inner' ++ '}' :: '}' :: tail)) :
    (parse language edited).1.interpolation? id = some (interpolationOf language (byteLength front) read) := by
  obtain ⟨builder', hbefore', hlock⟩ := h.exchange hbracket hedited
  have hbuilder' := hbefore'.standing (start_standing _)
  have hid : builder'.nodes.size = id := (hlock.size 0).trans h.size
  rw [interpolation_append, hread, ← interpolation_append] at hbefore'
  have hover' := @walks_interpolation language (byteLength edited) builder' read
    (hlock.surroundings language ▸ h.interpolates) hclosed
    (byteLength front) rest
  obtain ⟨last', hwalk'⟩ := exists_walks language edited
  have hafter' := (hbefore'.trans hover').rest_of hwalk' rfl
  have hnew : (builder'.add (byteLength edited) (.interpolation (interpolationOf language (byteLength front) read) read)).nodes[
      builder'.nodes.size]? = some _ := grow_new hbuilder'.shaped.current_lt
  have hnode := hafter'.apart (hover'.standing hbuilder') hnew fun hmem =>
    absurd (hbuilder'.shaped.mem_stack hmem).2 (Nat.lt_irrefl _)
  rw [hwalk'.parse_eq]
  rw [hid] at hnode
  exact Document.interpolation?_eq_some_iff.2 ⟨_, hnode, rfl⟩

/-- An expression in place of another leaves the tree around the interpolation as it is. -/
theorem respace (h : Interpolates language source id content builder last front inner tail)
    (hclean : (parse language source).2 = []) (hbracket : ']' ∈ inner' → ']' ∈ inner)
    (hinner : occurs ['}', '}'] (inner' ++ ['}']) = false) (hblank : isBlank inner' = false)
    (hedited : edited = front ++ '{' :: '{' :: (inner' ++ '}' :: '}' :: tail))
    (hsome : (Fragment.expression? language (byteLength front + 2) inner').isSome = true) :
    (parse language source).1.KeepsAround (revision source edited front inner inner') (fun other => other) id
      (parse language edited).1 ∧
      (parse language edited).2 = [] := by
  obtain ⟨builder', hbefore', hlock⟩ := h.exchange hbracket hedited
  have hbuilder' := hbefore'.standing (start_standing _)
  have hid : builder'.nodes.size = id := (hlock.size 0).trans h.size
  -- The interpolation.
  have hover' := @walks_interpolation language (byteLength edited) builder' inner'
    (hlock.surroundings language ▸ h.interpolates) hinner
    (byteLength front) tail
  have hlock' := @Lockstep.addInterpolation _ _ _ _ _ hlock h.passes.shaped hbuilder'.shaped hid content _ inner inner'
    (byteLength source) (byteLength edited) ((Piece.problems_interpolation hblank _).2 hsome)
  -- Behind the interpolation.
  obtain ⟨last', hafter', hfinal, hclean'⟩ := h.passes.resume (h.replaces hedited) hlock' (hover'.standing hbuilder').shaped
  have hwalk' := hbefore'.trans (hover'.trans hafter')
  rw [h.passes.walk.parse_eq] at hclean
  rw [h.passes.walk.parse_eq, hwalk'.parse_eq]
  exact ⟨.of_nodes (hfinal.size 0) hfinal.nodes, congrArg Array.toList (hclean' (by simpa using hclean))⟩

/-- What stands between the braces is an expression if the edited file has no problem. -/
theorem isSome_of_clean (h : Interpolates language source id content builder last front inner tail)
    (hbracket : ']' ∈ inner' → ']' ∈ inner)
    (hinner : occurs ['}', '}'] (inner' ++ ['}']) = false) (hblank : isBlank inner' = false)
    (hedited : edited = front ++ '{' :: '{' :: (inner' ++ '}' :: '}' :: tail)) (hclean : (parse language edited).2 = []) :
    (Fragment.expression? language (byteLength front + 2) inner').isSome = true := by
  obtain ⟨builder', hbefore', hlock⟩ := h.exchange hbracket hedited
  have hover' := @walks_interpolation language (byteLength edited) builder' inner'
    (hlock.surroundings language ▸ h.interpolates) hinner
    (byteLength front) tail
  obtain ⟨last', hwalk'⟩ := exists_walks language edited
  rw [hwalk'.parse_eq] at hclean
  have hproblems : last'.problems = #[] := by simpa using hclean
  have hrest' := (hbefore'.trans hover').rest_of hwalk' rfl
  exact (Piece.problems_interpolation hblank _).1 (of_add_problems (hrest'.of_problems hproblems)).2

end Interpolates

end Builder

end Markup

end ComponentLint
