import ComponentLint.Proofs.Script.Calls
import ComponentLint.Proofs.Script.Shifts
import ComponentLint.Proofs.Script.Taking

/-!
# Paths behind which the text is exchanged

A path of names is read in the same way whatever stands behind it, as long as that does not go on with its last name
(`Path.exchange`). It is all of an expression if nothing goes on with it on any level of the grammar (`Path.expression_run`).
-/

namespace ComponentLint.Script

open Text Script.Parser

theorem solid_of_startsWord {c : Char} (h : startsWord c = true) : IsSolid c := by
  rcases Bool.or_eq_true_iff.1 h with hstart | hescape
  · exact solid_of_isIdStart hstart
  · rw [eq_of_beq hescape]
    exact ⟨rfl, rfl, by decide⟩

/-! ## Cursors -/

namespace Cursor

variable {stream here after : Stream} {previous : Nat} {notes : Notes} {gap : Gap} {token : Token}

theorem enter_eq (h : skipGap (stream.chars.length + 1) stream ⟨false, notes.comments⟩ = some (here, gap)) :
    enter stream previous notes = ⟨here, (readToken here).1, (readToken here).2, gap.newline, previous,
      { notes with comments := gap.comments }⟩ := by
  rw [enter, h]

@[simp] theorem enter_previous (stream : Stream) (previous : Nat) (notes : Notes) :
    (enter stream previous notes).previous = previous := by
  unfold enter
  split <;> rfl

@[simp] theorem advance_previous (cursor : Cursor) : cursor.advance.previous = cursor.after.offset :=
  enter_previous _ _ _

@[simp] theorem enter_flawed (stream : Stream) (previous : Nat) (notes : Notes) :
    (enter stream previous notes).notes.flawed = notes.flawed := by
  unfold enter
  split <;> rfl

@[simp] theorem advance_flawed (cursor : Cursor) : cursor.advance.notes.flawed = cursor.notes.flawed :=
  enter_flawed _ _ _

/-- In front of a token that can be read a gap is skipped. -/
theorem exists_skipGap (h : (enter stream previous notes).token.isPlain = true) :
    ∃ here gap, skipGap (stream.chars.length + 1) stream ⟨false, notes.comments⟩ = some (here, gap) := by
  unfold enter at h
  split at h
  · next here gap hskip => exact ⟨here, gap, hskip⟩
  · cases h

/-- Two cursors that differ in the text behind their token only. -/
structure Alike (cursor other : Cursor) (rest : List Char) : Prop where
  token : other.token = cursor.token
  start : other.here.offset = cursor.here.offset
  newline : other.newline = cursor.newline
  advance : other.advance = enter ⟨cursor.after.offset, rest⟩ cursor.after.offset cursor.notes

/-- A token is taken together with the gap in front of it, and is the same wherever it is read again. -/
theorem exists_alike {c : Char} {written : List Char}
    (hskip : skipGap (stream.chars.length + 1) stream ⟨false, notes.comments⟩ = some (here, gap))
    (htoken : readToken here = (token, after)) (hreads : here.Reads (c :: written) after) (hslash : c ≠ '/') :
    ∃ lead, stream.Reads lead here ∧ ∀ rest,
      readToken ⟨here.offset, c :: (written ++ rest)⟩ = (token, ⟨after.offset, rest⟩) →
        (enter stream previous notes).Alike (enter ⟨stream.offset, lead ++ c :: (written ++ rest)⟩ previous notes) rest := by
  obtain ⟨hsolid, lead, hlead, hagain⟩ := skips_of_skipGap hskip (Nat.lt_succ_self _) hreads.chars hslash
  refine ⟨lead, hlead, fun rest hread => ?_⟩
  have hother := hagain c (written ++ rest) ((lead ++ c :: (written ++ rest)).length + 1) hsolid (by
    rw [List.length_append]
    omega)
  rw [← hlead.offset] at hother
  rw [enter_eq hskip, @enter_eq ⟨stream.offset, _⟩ _ _ _ _ hother, hread, htoken]
  exact ⟨rfl, rfl, rfl, rfl⟩

/-- A word at the cursor is taken together with the gap in front of it, and is the same whatever stands behind it and does not go
on with it. -/
theorem exists_alike_word {name : String} {escaped : Bool} (h : (enter stream previous notes).token = .word name escaped) :
    Breaks (enter stream previous notes).after.chars ∧ ∃ taken, taken ≠ [] ∧
      stream.Reads taken (enter stream previous notes).after ∧ ∀ rest, Breaks rest →
        (enter stream previous notes).Alike (enter ⟨stream.offset, taken ++ rest⟩ previous notes) rest := by
  obtain ⟨here, gap, hskip⟩ := @exists_skipGap stream previous notes (by rw [h]; rfl)
  have htoken : readToken here = (.word name escaped, (enter stream previous notes).after) := by
    rw [enter_eq hskip] at h ⊢
    exact Prod.ext h rfl
  cases plainRead_of_readToken htoken with
  | other hother => cases hother
  | word hword hstart =>
    obtain ⟨c, rest, hhere, hc⟩ := hstart
    obtain ⟨hbreaks, written, hne, hreads, hagain⟩ := readWord_takes hword
    obtain ⟨d, written, rfl⟩ := List.exists_cons_of_ne_nil hne
    obtain rfl : d = c := (List.cons.inj (hreads.chars.symm.trans hhere)).1
    obtain ⟨lead, hlead, halike⟩ := @exists_alike _ _ _ previous _ _ _ _ _ hskip htoken hreads (solid_of_startsWord hc).2.2
    refine ⟨hbreaks, lead ++ d :: written, by simp, hlead.trans hreads, fun rest hrest => ?_⟩
    rw [List.append_assoc]
    exact halike rest (readToken_of_readWord hc (hagain rest hrest))

/-- A dot at the cursor is taken together with the gap in front of it, and is the same in front of whatever starts as before,
which is with no further dot. -/
theorem exists_alike_dot (h : (enter stream previous notes).token = .punct ".") :
    ∃ taken, taken ≠ [] ∧ stream.Reads taken (enter stream previous notes).after ∧ ∀ rest,
      rest.head? = (enter stream previous notes).after.chars.head? → rest.head? ≠ some '.' →
        (enter stream previous notes).Alike (enter ⟨stream.offset, taken ++ rest⟩ previous notes) rest := by
  obtain ⟨here, gap, hskip⟩ := @exists_skipGap stream previous notes (by rw [h]; rfl)
  have htoken : readToken here = (.punct ".", (enter stream previous notes).after) := by
    rw [enter_eq hskip] at h ⊢
    exact Prod.ext h rfl
  obtain ⟨hreads, hdigit⟩ := of_readToken_dot htoken
  obtain ⟨lead, hlead, halike⟩ := @exists_alike _ _ _ previous _ _ _ _ _ hskip htoken hreads (by decide)
  refine ⟨lead ++ ['.'], by simp, hlead.trans hreads, fun rest hhead hdot => ?_⟩
  rw [List.append_assoc]
  refine halike rest ?_
  rw [hreads.offset]
  exact readToken_dot (fun c hc => ⟨fun heq => hdot (heq ▸ Option.mem_def.1 hc), hdigit c (hhead ▸ hc)⟩) here.offset

/-- What is left behind a token stands behind where it starts. -/
theorem enter_before (h : (enter stream previous notes).token.isPlain = true) :
    stream.Before (enter stream previous notes).here ∧
      (enter stream previous notes).here.Before (enter stream previous notes).after := by
  obtain ⟨here, gap, hskip⟩ := exists_skipGap h
  rw [enter_eq hskip] at h ⊢
  exact ⟨skipGap_before hskip, (plainRead_readToken here).before h⟩

/-- A cursor on a token of a stream, or where there is none any more. -/
def Follows (stream : Stream) (cursor : Cursor) : Prop :=
  ∃ entered notes, stream.Before entered ∧ cursor = enter entered entered.offset notes

/-- One cursor stands behind another one of the same stream, or where that does. -/
def Leads (cursor later : Cursor) : Prop :=
  ∀ stream, Follows stream cursor → Follows stream later

theorem follows_enter (stream : Stream) (notes : Notes) : Follows stream (enter stream stream.offset notes) :=
  ⟨stream, notes, .refl stream, rfl⟩

theorem Follows.before_after {cursor : Cursor} (h : Follows stream cursor) (hplain : cursor.token.isPlain = true) :
    stream.Before cursor.after := by
  obtain ⟨entered, notes, hbefore, rfl⟩ := h
  obtain ⟨hhere, hafter⟩ := enter_before hplain
  exact hbefore.trans (hhere.trans hafter)

namespace Leads

variable {cursor later last : Cursor}

theorem refl (cursor : Cursor) : Leads cursor cursor :=
  fun _ h => h

theorem trans (h : Leads cursor later) (h' : Leads later last) : Leads cursor last :=
  fun stream hcursor => h' stream (h stream hcursor)

theorem advance (hplain : cursor.token.isPlain = true) : Leads cursor cursor.advance :=
  fun _ h => ⟨cursor.after, cursor.notes, h.before_after hplain, rfl⟩

end Leads

/-- In front of a word stands no dot. -/
theorem head_of_word {name : String} {escaped : Bool} (h : (enter stream previous notes).token = .word name escaped) :
    stream.chars.head? ≠ some '.' := by
  intro hhead
  obtain ⟨offset, chars⟩ := stream
  obtain ⟨rest, rfl⟩ : ∃ rest, chars = '.' :: rest := List.head?_eq_some_iff.1 hhead
  rw [enter_solid (by decide)] at h
  have htoken : readToken ⟨offset, '.' :: rest⟩ = (.word name escaped, (readToken ⟨offset, '.' :: rest⟩).2) := Prod.ext h rfl
  cases plainRead_of_readToken htoken with
  | other hother => cases hother
  | word hword hstart =>
    obtain ⟨c, more, heq, hc⟩ := hstart
    obtain ⟨rfl, -⟩ := List.cons.inj heq
    revert hc
    decide

end Cursor

theorem Breaks.of_head {text other : List Char} (h : Breaks text) (hhead : other.head? = text.head?) : Breaks other := by
  intro c hc
  rw [hhead] at hc
  exact h c hc

theorem head?_append_of_reads {stream after : Stream} {taken : List Char} (h : stream.Reads taken after) (hne : taken ≠ [])
    (rest : List Char) : (taken ++ rest).head? = stream.chars.head? := by
  obtain ⟨c, taken, rfl⟩ := List.exists_cons_of_ne_nil hne
  rw [h.chars]
  rfl

namespace Grammar

variable {node : Node} {cursor next : Cursor}

/-- A path is taken off the front of a text, and is the same whatever stands behind it and does not go on with its last name. -/
theorem Path.exchange (h : Path cursor node next) {stream : Stream} {notes : Notes}
    (hcursor : cursor = .enter stream stream.offset notes) :
    ∃ taken last after, taken ≠ [] ∧ stream.Reads taken last ∧ Breaks last.chars ∧ node.span.stop = last.offset ∧
      next = .enter last last.offset after ∧ ∀ rest, Breaks rest →
        Path (.enter ⟨stream.offset, taken ++ rest⟩ stream.offset notes) node (.enter ⟨last.offset, rest⟩ last.offset after) := by
  induction h with
  | name htoken hname =>
    subst hcursor
    obtain ⟨hbreaks, taken, hne, hreads, halike⟩ := Cursor.exists_alike_word htoken
    refine ⟨taken, _, _, hne, hreads, hbreaks, Cursor.enter_previous _ _ _, rfl, fun rest hrest => ?_⟩
    have hlike := halike rest hrest
    have hpath := Path.name (hlike.token.trans htoken) hname
    simpa only [hlike.start, hlike.advance, Cursor.enter_previous, Cursor.advance_previous] using hpath
  | @member object between name escaped hobject hdot hname ih =>
    obtain ⟨front, last, notes', hne, hfront, hbreaks, hstop, rfl, hagain⟩ := ih
    obtain ⟨mark, hmark, hdotted, halike⟩ := Cursor.exists_alike_dot hdot
    obtain ⟨hends, word, hword, hnamed, hlike⟩ := Cursor.exists_alike_word hname
    refine ⟨front ++ (mark ++ word), _, _, by simp [hne], hfront.trans (hdotted.trans hnamed), hends,
      Cursor.enter_previous _ _ _, rfl, fun rest hrest => ?_⟩
    have hhead := head?_append_of_reads hnamed hword rest
    have hobjects := hagain (mark ++ (word ++ rest)) (hbreaks.of_head (head?_append_of_reads hdotted hmark _))
    have hdots := halike (word ++ rest) hhead (by
      rw [hhead]
      exact Cursor.head_of_word hname)
    have hnames : (Cursor.enter last last.offset notes').advance.Alike _ rest := hlike rest hrest
    rw [← hdots.advance] at hnames
    have hpath := Path.member hobjects (hdots.token.trans hdot) (hnames.token.trans hname)
    rw [List.append_assoc, List.append_assoc]
    simp only [hnames.start, hnames.advance, Cursor.enter_previous, Cursor.advance_previous] at hpath ⊢
    exact hpath

/-! ## Reading a path -/

theorem Path.isPath (h : Path cursor node next) : IsPath node := by
  induction h with
  | name => exact .name
  | member _ _ _ ih => exact .member ih

theorem Path.leads (h : Path cursor node next) : cursor.Leads next := by
  induction h with
  | name htoken => exact .advance (htoken ▸ rfl)
  | member _ hdot hname ih => exact ih.trans ((Cursor.Leads.advance (hdot ▸ rfl)).trans (.advance (hname ▸ rfl)))

/-- A path is written with no faults. -/
theorem Path.flawed_eq (h : Path cursor node next) : next.notes.flawed = cursor.notes.flawed := by
  induction h with
  | name => exact Cursor.advance_flawed _
  | member _ _ _ ih => rw [Cursor.advance_flawed, Cursor.advance_flawed, ih]

/-- One more name behind a dot is one more step of the chain. -/
theorem chainStep_member {sub : Sub} {env : Env} {object : Node} {name : String} {escaped : Bool} (hobject : IsPath object)
    (hdot : cursor.token = .punct ".") (hname : cursor.advance.token = .word name escaped) :
    chainStep sub env ⟨object, false⟩ cursor = some (some ⟨⟨.member name
      ⟨cursor.advance.here.offset, cursor.advance.advance.previous⟩ false,
      ⟨object.span.start, cursor.advance.advance.previous⟩, [object]⟩, false⟩, cursor.advance.advance) := by
  have hpermit : permit (object.kind != .typeApplied) cursor = some ((), cursor) := by
    have hkind : (object.kind != .typeApplied) = true := bne_iff_ne.2 hobject.not_applied
    rw [hkind, permit_true_run]
  have hbump := @bump_run cursor (by simp [hdot])
  simp [chainStep, memberStep, memberName, hdot, hname, atAngle, hpermit, hbump]

/-- From its first name a path grows by one step for each member, and each takes a part of the text behind the first dot. -/
theorem Path.exists_count (h : Path cursor node next) (sub : Sub) (env : Env) :
    ∃ name escaped count last after, cursor.token = .word name escaped ∧ isReferenceName name = true ∧
      next = .enter last last.offset after ∧
      (count = 0 ∧ next = cursor.advance ∨
        cursor.advance.token = .punct "." ∧ count + last.chars.length ≤ cursor.advance.after.chars.length) ∧
      ∀ fuel, growWith (chainStep sub env) (fuel + count) ⟨Refers.node name cursor, false⟩ cursor.advance =
        growWith (chainStep sub env) fuel ⟨node, false⟩ next := by
  induction h with
  | @name name escaped htoken hname =>
    exact ⟨name, escaped, 0, cursor.after, cursor.notes, htoken, hname, rfl, .inl ⟨rfl, rfl⟩, fun fuel => rfl⟩
  | @member object between member escaped hobject hdot hmember ih =>
    obtain ⟨name, escaped', count, last, after, htoken, hname, rfl, hcount, hgrows⟩ := ih
    obtain ⟨mark, hmark, hdotted, -⟩ := Cursor.exists_alike_dot hdot
    obtain ⟨-, word, hword, hnamed, -⟩ := Cursor.exists_alike_word hmember
    rw [← Cursor.advance] at hnamed
    refine ⟨name, escaped', count + 1, _, _, htoken, hname, rfl, .inr ?_, fun fuel => ?_⟩
    · have hmarked := hdotted.length
      have hworded := hnamed.length
      have hpositive := List.length_pos_iff.2 hword
      rcases hcount with ⟨rfl, heq⟩ | ⟨hfirst, hcount⟩
      · rw [← heq]
        exact ⟨hdot, by omega⟩
      · exact ⟨hfirst, by omega⟩
    · rw [show fuel + (count + 1) = fuel + 1 + count by omega, hgrows, growWith, bind_run,
        chainStep_member hobject.isPath hdot hmember]
      rfl

/-- What ends an expression ends it wherever it stands. -/
theorem Ends.sameAs {dialect : Dialect} {other : Cursor} (h : Ends dialect cursor) (hsame : cursor.SameAs other) :
    Ends dialect other := by
  obtain ⟨htoken, hnewline, hchars⟩ := hsame
  have hmark : wholeMark other = wholeMark cursor := by
    have hstarts : other.here.startsWith = cursor.here.startsWith := by
      funext mark
      rw [Stream.startsWith, Stream.startsWith, hchars]
    simp only [wholeMark, htoken, hstarts]
  have hoperator := h.operator
  simp only [binaryOperator?, bind_run, get_run, Option.bind_some] at hoperator
  refine ⟨?_, ?_, ?_, ?_, ?_⟩
  · have hgoesOn : goesOn dialect.typed other = goesOn dialect.typed cursor := by
      simp only [goesOn, htoken, hnewline]
    rw [hgoesOn, h.chain]
  · rw [htoken, hnewline]
    exact h.update
  · simp only [binaryOperator?, bind_run, get_run, Option.bind_some, hmark, hnewline]
    cases hwhole : wholeMark cursor with
    | none => rfl
    | some mark =>
      simp only [hwhole, ite_run, pure_run] at hoperator ⊢
      split_ifs at hoperator ⊢ <;> simp_all
  · rw [hmark]
    exact h.assign
  · rw [htoken]
    exact h.comma

/-- Where no operand follows on the line, a path is read up to there if nothing goes on with it. -/
theorem Path.expression_run (h : Path cursor node next) {dialect : Dialect} (hends : Ends dialect next) (hapart : Apart next)
    (fuel : Nat) : run (fuel + 5) (.top dialect) .expression cursor = some (node, next) := by
  obtain ⟨name, escaped, count, last, after, hword, hname, -, hcount, hgrows⟩ := h.exists_count (run fuel) (.top dialect)
  have hrefers : Refers name escaped cursor := by
    refine ⟨hword, hname, ?_⟩
    rcases hcount with ⟨-, rfl⟩ | ⟨hdot, -⟩
    · exact hapart
    · exact .inr (by simp [hdot, Token.isWord, Token.isScalar])
  have hbound : count + 1 ≤ cursor.advance.here.chars.length + 2 := by
    rcases hcount with ⟨rfl, -⟩ | ⟨hdot, hcount⟩
    · omega
    · obtain ⟨taken, hreads⟩ := (@Cursor.enter_before cursor.after cursor.after.offset cursor.notes (by
        rw [← Cursor.advance, hdot]
        rfl)).2
      have hlength := hreads.length
      rw [← Cursor.advance] at hlength
      omega
  obtain ⟨more, hmore⟩ := Nat.exists_eq_add_of_le hbound
  have hgrown : grow (chainStep (run fuel) (.top dialect)) ⟨Refers.node name cursor, false⟩ cursor.advance =
      some (⟨node, false⟩, next) := by
    have hlast : growWith (chainStep (run fuel) (.top dialect)) (more + 1) ⟨node, false⟩ next = some (⟨node, false⟩, next) := by
      simp [growWith, hends.chainStep_run]
    rw [grow, bind_run, bound_run, Option.bind_some, hmore, show count + 1 + more = more + 1 + count by omega, hgrows, hlast]
  refine hrefers.expression_run ?_ hends
  simp [run, step, leftHandSide, hrefers.primary_run, hgrown]

end Grammar

end ComponentLint.Script
