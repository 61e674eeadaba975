import ComponentLint.Fix.Apply
import ComponentLint.Proofs.Fix.Drafting
import ComponentLint.Proofs.Fix.Splice
import ComponentLint.Proofs.Lint.TemplateRules
import ComponentLint.Proofs.Markup.Moving
import ComponentLint.Proofs.Markup.Trivia
import ComponentLint.Proofs.Script.LoneCalls
import ComponentLint.Rules.HandlerCall

/-!
# Handlers cut down to their callee

The fix for a handler that only calls a method takes out what stands between the end of the callee and the end
of the statement. What is left is the callee if the handler starts with it, and nothing but blanks and comments
follow the statement (`check_fix_leaves_callee_iff`). In parentheses it is not: the opening one is left without
the other (`not_callee_wrappedCall`).
-/

namespace ComponentLint

open Text

/-! ## Blanks and comments of a script -/

namespace Script

/-- White space is a blank or a line end of a script. -/
theorem blank_of_isSpace {c : Char} (h : isSpace c = true) : isLineEnd c = true ∨ isBlank c = true := by
  simp only [isSpace, isLineEnd, isBlank, Bool.or_eq_true, Bool.and_eq_true, beq_iff_eq, decide_eq_true_eq, ← Char.toNat_inj,
    Char.reduceToNat] at h ⊢
  omega

/-- Neither white space nor a slash goes on with a word. -/
theorem not_isIdContinue {c : Char} (h : isSpace c = true ∨ c = '/') : isIdContinue c = false ∧ c ≠ '\\' := by
  let excluded := [9, 10, 11, 12, 13, 32, 47, 133, 160, 5760, 8232, 8233, 8239, 8287, 12288] ++ List.range' 8192 11
  have hcodes : ∀ code ∈ excluded, isIdContinue (Char.ofNat code) = false ∧ Char.ofNat code ≠ '\\' := by decide +kernel
  have hmem : c.toNat ∈ excluded := by
    simp only [isSpace, Bool.or_eq_true, Bool.and_eq_true, beq_iff_eq, decide_eq_true_eq, ← Char.toNat_inj, excluded,
      List.mem_append, List.mem_cons, List.not_mem_nil, or_false, List.mem_range'_1, Char.reduceToNat] at h ⊢
    omega
  have hcode := hcodes _ hmem
  rwa [Char.ofNat_toNat] at hcode

/-- A block comment is skipped up to the first mark that ends it. -/
theorem blockComment_first {body rest : List Char} (hfirst : ∀ other more,
    body ++ (['*', '/'] ++ rest) = other ++ (['*', '/'] ++ more) → body.length ≤ other.length) (offset : Nat) (newline : Bool) :
    ∃ stop found, blockComment offset (body ++ (['*', '/'] ++ rest)) newline = some (⟨stop, rest⟩, found) := by
  induction body generalizing offset newline with
  | nil => exact ⟨_, _, rfl⟩
  | cons c body ih =>
    have hopen : ∀ more, c = '*' → body ++ (['*', '/'] ++ rest) = '/' :: more → False := by
      rintro more rfl hmore
      have hlength := hfirst [] more (by rw [List.cons_append, hmore]; rfl)
      simp at hlength
    obtain ⟨stop, found, hskip⟩ := ih (fun other more heq => by
      have hlength := hfirst (c :: other) more (by rw [List.cons_append, heq]; rfl)
      simpa using hlength) (offset + c.utf8Size) (newline || isLineEnd c)
    exact ⟨stop, found, by rw [List.cons_append, blockComment.eq_2 _ _ _ _ hopen, hskip]⟩

/-- Behind a line comment the text or the line ends. The line of the script may end before the next line feed. -/
theorem skipGap_lineComment {text : List Char} {fuel offset : Nat} {gap found : Gap} {here : Stream} (hfuel : 0 < fuel)
    (hskip : skipGap (fuel + 1) ⟨offset, '/' :: '/' :: text⟩ gap = some (here, found)) :
    found.newline = true ∨ here.chars = [] := by
  obtain ⟨⟨skipped, after⟩, hspan⟩ : ∃ found,
      Stream.span (fun c => !isLineEnd c) ⟨offset, '/' :: '/' :: text⟩ = found := ⟨_, rfl⟩
  rw [skipGap_line _ _ _ _ hspan] at hskip
  obtain ⟨-, -, -, hends⟩ := lineComment hspan
  obtain ⟨fuel, rfl⟩ := Nat.exists_eq_succ_of_ne_zero (Nat.ne_of_gt hfuel)
  obtain ⟨stop, chars⟩ := after
  cases chars with
  | nil =>
    cases hskip
    exact .inr rfl
  | cons c chars =>
    have hend : isLineEnd c = true := by simpa using hends c rfl
    have hslash : c ≠ '/' := by
      rintro rfl
      cases hend
    rw [skipGap_cons hslash, if_pos hend] at hskip
    exact .inl (skipGap_newline hskip rfl)

/-- Behind blanks and comments the text or the line ends. -/
theorem skipGap_trivia {text : List Char} (h : Markup.Fragment.Trivia text) {fuel offset : Nat} {gap found : Gap} {here : Stream}
    (hfuel : text.length < fuel) (hskip : skipGap fuel ⟨offset, text⟩ gap = some (here, found)) :
    found.newline = true ∨ here.chars = [] := by
  induction h generalizing fuel offset gap with
  | nil =>
    obtain ⟨fuel, rfl⟩ := Nat.exists_eq_succ_of_ne_zero (Nat.ne_of_gt hfuel)
    cases hskip
    exact .inr rfl
  | @blank c rest hspace _ ih =>
    obtain ⟨fuel, rfl⟩ := Nat.exists_eq_succ_of_ne_zero (Nat.ne_of_gt (Nat.zero_lt_of_lt hfuel))
    have hslash : c ≠ '/' := by
      rintro rfl
      cases hspace
    rw [skipGap_cons hslash] at hskip
    rcases blank_of_isSpace hspace with hend | hblank
    · rw [if_pos hend] at hskip
      exact .inl (skipGap_newline hskip rfl)
    · split at hskip
      · exact .inl (skipGap_newline hskip rfl)
      · exact ih (Nat.lt_of_succ_lt_succ hfuel) hskip
  | @comment comment rest hcomment _ ih =>
    obtain ⟨fuel, rfl⟩ := Nat.exists_eq_succ_of_ne_zero (Nat.ne_of_gt (Nat.zero_lt_of_lt hfuel))
    cases hcomment with
    | @line body _ =>
      have hwhole : ['/', '/'] ++ body ++ rest = '/' :: '/' :: (body ++ rest) := by simp
      rw [hwhole] at hfuel hskip
      exact skipGap_lineComment (by simp only [List.length_cons] at hfuel; omega) hskip
    | @block body _ hfirst =>
      obtain ⟨stop, newline, hblock⟩ := blockComment_first hfirst (offset + 2) false
      have hwhole : ['/', '*'] ++ (body ++ ['*', '/']) ++ rest = '/' :: '*' :: (body ++ (['*', '/'] ++ rest)) := by simp
      rw [hwhole, skipGap_block, hblock] at hskip
      refine ih ?_ hskip
      simp at hfuel
      omega

/-- Blanks and comments are followed by no token on their line. -/
theorem rests_of_trivia {text : List Char} (h : Markup.Fragment.Trivia text) : Grammar.Rests text := by
  refine ⟨fun c hc => ?_, fun offset previous notes => ?_⟩
  · cases h with
    | nil => cases hc
    | blank hspace _ =>
      cases hc
      exact not_isIdContinue (.inl hspace)
    | comment hcomment _ =>
      obtain ⟨more, rfl⟩ := hcomment.eq_slash
      cases hc
      exact not_isIdContinue (.inr rfl)
  · unfold Cursor.enter
    split
    · next here gap hskip =>
      obtain ⟨stop, chars⟩ := here
      refine (skipGap_trivia h (Nat.lt_succ_self _) hskip).imp_right fun hend => .inl ?_
      obtain rfl : chars = [] := hend
      rfl
    · exact .inr (.inr rfl)

/-- A text that starts with a word is not blank. -/
theorem Cursor.isBlank_of_isWord {text : List Char} (h : (ofText text).token.isWord = true) : Text.isBlank text = false := by
  obtain ⟨name, escaped, htoken⟩ : ∃ name escaped, (ofText text).token = .word name escaped := by
    cases htoken : (ofText text).token <;> simp_all [Token.isWord]
  obtain ⟨here, gap, hskip⟩ := @exists_skipGap ⟨0, text⟩ 0 ⟨[], false, []⟩ (htoken ▸ rfl)
  rw [ofText, ofStream, enter_eq hskip] at htoken
  obtain ⟨taken, htaken⟩ := skipGap_before hskip
  refine Bool.eq_false_iff.2 fun hblank => ?_
  cases plainRead_of_readToken (Prod.ext htoken rfl : readToken here = (.word name escaped, (readToken here).2)) with
  | other hother => cases hother
  | word _ hstart =>
    obtain ⟨c, rest, hhere, hc⟩ := hstart
    have hmem : c ∈ text := by
      rw [show text = taken ++ here.chars from htaken.chars, hhere]
      simp
    have hsolid := solid_of_startsWord hc
    rcases blank_of_isSpace (List.all_eq_true.1 hblank c hmem) with hend | hspace
    · cases hsolid.1.symm.trans hend
    · cases hsolid.2.1.symm.trans hspace

/-! ## Moved trees -/

/-- A kind that carries no span does not move. -/
theorem Kind.of_shift {distance : Nat} {kind moved : Kind} (h : Node.shift.shiftKind distance kind = moved) :
    kind = moved ∨ ∃ name span optional,
      kind = .member name span optional ∧ moved = .member name (span.shift distance) optional := by
  unfold Node.shift.shiftKind at h
  split at h
  · exact .inr ⟨_, _, _, rfl, h.symm⟩
  · exact .inl h

theorem Node.stop_shift (distance : Nat) (node : Node) : (node.shift distance).span.stop = node.span.stop + distance := by
  cases node
  rfl

theorem Node.shift_ne_empty (distance : Nat) (node : Node) : ((node.shift distance).kind != .empty) = (node.kind != .empty) := by
  obtain ⟨kind, span, children⟩ := node
  cases kind <;> rfl

theorem Node.of_shiftAll_singleton {distance : Nat} {nodes : List Node} {moved : Node}
    (h : Node.shiftAll distance nodes = [moved]) : ∃ node, nodes = [node] ∧ node.shift distance = moved := by
  cases nodes with
  | nil => cases h
  | cons node rest =>
    cases rest with
    | nil => exact ⟨node, rfl, List.singleton_inj.1 h⟩
    | cons => cases h

theorem Node.unparenthesized_shift (distance : Nat) (node : Node) :
    (node.shift distance).unparenthesized = node.unparenthesized.shift distance := by
  fun_induction Node.unparenthesized node with
  | case1 span kind inner children ih =>
    simp only [Node.shift, Node.shiftAll, Node.shift.shiftKind, Node.unparenthesized] at ih ⊢
    exact ih
  | case2 node hother =>
    obtain ⟨kind, span, children⟩ := node
    unfold Node.unparenthesized
    split
    · next outer kind' inner parts heq =>
      obtain ⟨hkind, -, hparts⟩ := Node.mk.inj heq
      rcases Kind.of_shift hkind with rfl | ⟨_, _, _, -, hmember⟩
      · obtain ⟨⟨kind, span, children⟩, rfl, -⟩ := Node.of_shiftAll_singleton hparts
        exact (hother _ _ _ _ rfl).elim
      · cases hmember
    · rfl

end Script

namespace Rules.HandlerCall

open Markup

theorem bareCallee?_shift {distance : Nat} {node moved : Script.Node} (h : bareCallee? (node.shift distance) = some moved) :
    ∃ span callee, node = ⟨.call false false, span, [callee]⟩ ∧ moved = callee.shift distance := by
  obtain ⟨kind, span, children⟩ := node
  unfold bareCallee? at h
  split at h
  · next heq =>
    obtain rfl := Option.some.inj h
    obtain ⟨hkind, -, hparts⟩ := Script.Node.mk.inj heq
    rcases Script.Kind.of_shift hkind with rfl | ⟨_, _, _, -, hmember⟩
    · obtain ⟨callee, rfl, rfl⟩ := Script.Node.of_shiftAll_singleton hparts
      exact ⟨span, callee, rfl, rfl⟩
    · cases hmember
  · cases h

/-- What is a path of members where it stands is one anywhere. -/
theorem isPath_of_shift {distance : Nat} {moved : Script.Node} (h : isMethodPath moved = true) :
    ∀ {node : Script.Node}, node.shift distance = moved → Script.Grammar.IsPath node := by
  fun_induction isMethodPath moved with
  | case1 name span children =>
    rintro ⟨kind, span, children⟩ heq
    obtain ⟨hkind, -, -⟩ := Script.Node.mk.inj heq
    rcases Script.Kind.of_shift hkind with rfl | ⟨_, _, _, -, hmember⟩
    · exact .name
    · cases hmember
  | case2 name nameSpan span object ih =>
    rintro ⟨kind, span, children⟩ heq
    obtain ⟨hkind, -, hparts⟩ := Script.Node.mk.inj heq
    obtain ⟨object', rfl, hobject⟩ := Script.Node.of_shiftAll_singleton hparts
    rcases Script.Kind.of_shift hkind with rfl | ⟨_, _, _, rfl, hmember⟩
    · exact .member (ih h hobject)
    · cases hmember
      exact .member (ih h hobject)
  | case3 => cases h

/-- The one expression of a handler, before its trees are moved to where the handler stands. -/
theorem loneCall_of_handler {dialect : Script.Dialect} {start : Nat} {text : List Char} {node callee : Script.Node} {stop : Nat}
    (hsingle : singleExpression? (Fragment.handler dialect.language start text) = some (node, stop))
    (hcallee : bareCallee? node.unparenthesized = some callee) (hpath : isMethodPath callee = true) :
    ∃ found last, callee = found.shift start ∧ stop = last + start ∧ Script.Grammar.IsPath found ∧
      Script.Grammar.LoneCall dialect text found last := by
  unfold Fragment.handler at hsingle
  split at hsingle
  · next found hfound =>
    obtain ⟨rfl, rfl⟩ := Prod.mk.inj (Option.some.inj hsingle)
    obtain ⟨-, found, front, rest, hparse, rfl, -, -, -⟩ := Fragment.expression?_eq_some_iff.1 hfound
    rw [Script.Node.unparenthesized_shift] at hcallee
    obtain ⟨span, inner, hcall, rfl⟩ := bareCallee?_shift hcallee
    have hinner := isPath_of_shift hpath rfl
    exact ⟨inner, found.span.stop, rfl, by cases found; rfl, hinner,
      Script.Grammar.loneCall_of_parseExpression? hparse hcall hinner⟩
  · split at hsingle
    · next program hprogram =>
      unfold singleExpression? at hsingle
      dsimp only at hsingle
      split at hsingle
      · next span value hone =>
        obtain ⟨rfl, rfl⟩ := Prod.mk.inj (Option.some.inj hsingle)
        have htest : (fun node : Script.Node => node.kind != .empty) ∘ Script.Node.shift start =
            fun node : Script.Node => node.kind != .empty := by
          funext node
          exact Script.Node.shift_ne_empty start node
        rw [List.filter_map, htest] at hone
        obtain ⟨⟨kind, place, parts⟩, hone, heq⟩ := List.map_eq_singleton_iff.1 hone
        obtain ⟨hkind, rfl, hparts⟩ := Script.Node.mk.inj heq
        obtain ⟨operand, rfl, rfl⟩ := Script.Node.of_shiftAll_singleton hparts
        rcases Script.Kind.of_shift hkind with rfl | ⟨_, _, _, -, hmember⟩
        · rw [Script.Node.unparenthesized_shift] at hcallee
          obtain ⟨span, inner, hcall, rfl⟩ := bareCallee?_shift hcallee
          have hinner := isPath_of_shift hpath rfl
          exact ⟨inner, place.stop, rfl, rfl, hinner, Script.Grammar.loneCall_of_parseProgram hprogram hone hcall hinner⟩
        · cases hmember
      · cases hsingle
    · cases hsingle

/-! ## What is left of a handler -/

/-- What is read as an expression of its own where it stands was read as one anywhere. -/
theorem handler_eq_expression_iff {dialect : Script.Dialect} {start : Nat} {text : List Char} {node : Script.Node} :
    Fragment.handler dialect.language start text = .expression node ↔
      Fragment.expression? dialect.language start text = some node := by
  unfold Fragment.handler
  split
  · next found hfound =>
    rw [hfound]
    simp
  · next hnone =>
    rw [hnone]
    split <;> simp

/-- A handler in three parts: up to the end of the callee, up to the end of the statement that calls it, and what follows. -/
structure CallsBare (dialect : Script.Dialect) (start : Nat) (front cut behind : List Char) (callee : Script.Node) : Prop where
  single : ∃ node, singleExpression? (Fragment.handler dialect.language start (front ++ (cut ++ behind))) =
    some (node, start + byteLength (front ++ cut)) ∧ bareCallee? node.unparenthesized = some callee
  path : isMethodPath callee = true
  stop : callee.span.stop = start + byteLength front

/-- A handler whose one expression calls a path falls into the three parts. Without the middle one it is the callee exactly if it
starts with a word, and nothing but blanks and comments follow the statement. -/
theorem exists_callsBare {dialect : Script.Dialect} {start : Nat} {text : List Char} {node callee : Script.Node} {stop : Nat}
    (hsingle : singleExpression? (Fragment.handler dialect.language start text) = some (node, stop))
    (hcallee : bareCallee? node.unparenthesized = some callee) (hpath : isMethodPath callee = true) :
    ∃ front cut behind, text = front ++ (cut ++ behind) ∧ stop = start + byteLength (front ++ cut) ∧
      CallsBare dialect start front cut behind callee ∧
      (Fragment.handler dialect.language start (front ++ behind) = .expression callee ↔
        (Script.Cursor.ofText text).token.isWord = true ∧ Fragment.Trivia behind) := by
  obtain ⟨found, last, rfl, rfl, hfound, hlone⟩ := loneCall_of_handler hsingle hcallee hpath
  obtain ⟨front, cut, behind, rfl, hfront, hlast, hread, hword⟩ := hlone.exists_cut
  have hstop : (found.shift start).span.stop = start + byteLength front := by
    rw [Script.Node.stop_shift, hfront, Nat.add_comm]
  rw [← hlast, Nat.add_comm]
  rw [← hlast, Nat.add_comm] at hsingle
  refine ⟨front, cut, behind, rfl, rfl, ⟨⟨node, hsingle, hcallee⟩, hpath, hstop⟩, ?_⟩
  rw [handler_eq_expression_iff, Fragment.expression?_eq_some_iff]
  constructor
  · rintro ⟨-, other, front', rest, hparse, hshift, hcut, hlength, htrivia⟩
    have hother : other.span.stop = byteLength front := by
      rw [← hshift, Script.Node.stop_shift, Nat.add_comm] at hstop
      exact Nat.add_left_cancel hstop
    obtain ⟨-, rfl⟩ := append_inj_of_byteLength hcut (hother.symm.trans hlength.symm)
    exact ⟨hword other hparse (isPath_of_shift hpath hshift) hother, htrivia⟩
  · rintro ⟨hfirst, htrivia⟩
    have hparse := hread hfirst (Script.rests_of_trivia htrivia)
    obtain ⟨next, hstart⟩ := Script.Grammar.path_of_parseExpression? hparse hfound
    refine ⟨?_, found, front, behind, hparse, rfl, rfl, hfront, htrivia⟩
    exact Script.Cursor.isBlank_of_isWord hstart.isWord

/-- Where the callee is left in parentheses, a closing one stands behind it. -/
theorem CallsBare.closes {dialect : Script.Dialect} {start : Nat} {front cut behind : List Char} {node callee : Script.Node}
    (h : CallsBare dialect start front cut behind callee)
    (hread : Fragment.handler dialect.language start (front ++ behind) = .expression node)
    (hnode : node.unparenthesized = callee) :
    node = callee ∨ (Script.Cursor.ofText behind).token = .punct ")" := by
  rw [handler_eq_expression_iff, Fragment.expression?_eq_some_iff] at hread
  obtain ⟨-, found, -, -, hparse, rfl, -⟩ := hread
  rw [Script.Node.unparenthesized_shift] at hnode
  subst hnode
  have hstop : found.unparenthesized.span.stop = byteLength front := by
    have hmoved := h.stop
    rw [Script.Node.stop_shift, Nat.add_comm] at hmoved
    exact Nat.add_left_cancel hmoved
  refine (Script.Grammar.closes_of_parseExpression? hparse (isPath_of_shift h.path rfl) hstop).imp_left fun hself => ?_
  rw [hself]

/-! ## The rule -/

/-- A report with a fix is about a call without arguments, and the fix removes what stands from the end of the callee to the end
of the statement. -/
theorem exists_of_mem_check {settings : Settings} {file : File} {id : NodeId} {attr : Attribute} {key : DirectiveKey}
    {report : Report} {fix : Fix} (hreport : report ∈ check settings file id attr key) (hfix : report.fix = some fix) :
    ∃ value meaning node stop callee, attr.value = some value ∧ value.meaning = some meaning ∧
      singleExpression? meaning = some (node, stop) ∧ bareCallee? node.unparenthesized = some callee ∧
      isMethodPath callee = true ∧ ∃ message, fix = ⟨[⟨⟨callee.span.stop, stop⟩, ""⟩], message⟩ := by
  unfold check at hreport
  split at hreport
  · next value _ hmeaning =>
    obtain ⟨written, hwritten, hmeaning⟩ := Option.bind_eq_some_iff.1 hmeaning
    split at hreport
    · split at hreport
      · rw [List.mem_singleton.1 hreport] at hfix
        cases hfix
      · cases hreport
    · split at hreport
      · next node stop hsingle =>
        unfold checkCall at hreport
        split at hreport
        · cases hreport
        · next callee hcallee =>
          dsimp only at hreport
          split at hreport
          · cases hreport
          · next hguard =>
            obtain ⟨⟨hpath, -⟩, -⟩ : (isMethodPath callee = true ∧ _) ∧ _ := by
              simpa only [Bool.or_eq_true, not_or, Bool.not_eq_true', Bool.not_eq_false] using hguard
            rw [List.mem_singleton.1 hreport, Report.withFix] at hfix
            dsimp only at hfix
            split at hfix
            · cases hfix
            · exact ⟨written, value, node, stop, callee, hwritten, hmeaning, hsingle, hcallee, hpath, _,
                FixDraft.build?_add rfl hfix⟩
      · cases hreport
  · cases hreport

/-- A fix takes the middle part out of a handler, wherever that stands in a file. -/
structure CutsOut (source : List Char) (value : AttributeValue) (fix : Fix) (before front cut behind after : List Char) :
    Prop where
  whole : source = before ++ (value.raw.toList ++ after)
  start : byteLength before = value.valueSpan.start
  raw : value.raw.toList = front ++ (cut ++ behind)
  output : (Fix.applyAll source [fix]).output = before ++ ((front ++ behind) ++ after)

/-- A handler of a file for which a report has a fix: the fix takes out of the value what the call adds to its
callee, up to the end of the statement. What is left is read as the callee exactly if the value starts with a
word, so with the callee and not with a parenthesis or another statement, and nothing but blanks and comments
follow the statement. It is not read as the callee in parentheses either, unless a closing one stands behind the
statement. -/
theorem check_fix_leaves_callee_iff {source : List Char} {settings : Settings} {id : NodeId} {element : Element}
    {attr : Attribute} {key : DirectiveKey} {report : Report} {fix : Fix}
    (helement : (File.ofSource Script.Dialect.language source).document.element? id = some element)
    (hattr : attr ∈ element.attributes)
    (hkey : attr.directive? = some key) (hname : key.name.text = "on")
    (hreport : report ∈ check settings (File.ofSource Script.Dialect.language source) id attr key)
    (hfix : report.fix = some fix) :
    ∃ dialect value callee before front cut behind after, attr.value = some value ∧
      value.meaning = some (Fragment.handler dialect.language value.valueSpan.start value.raw.toList) ∧
      CallsBare dialect value.valueSpan.start front cut behind callee ∧ CutsOut source value fix before front cut behind after ∧
      (Fragment.handler dialect.language value.valueSpan.start (front ++ behind) = .expression callee ↔
        (Script.Cursor.ofText value.raw.toList).token.isWord = true ∧ Fragment.Trivia behind) ∧
      ∀ node, Fragment.handler dialect.language value.valueSpan.start (front ++ behind) = .expression node →
        node.unparenthesized = callee →
        node = callee ∨ (Script.Cursor.ofText behind).token = .punct ")" := by
  obtain ⟨value, meaning, node, stop, callee, hvalue, hmeaning, hsingle, hcallee, hpath, message, rfl⟩ :=
    exists_of_mem_check hreport hfix
  obtain ⟨⟨before, after, hsource, hstart⟩, hsays⟩ :=
    (((File.ofSource_written source).element helement).1.attributes attr hattr).value value hvalue
  obtain ⟨key', hkey', hsaid⟩ := hsays.exists_key hmeaning
  generalize (⟨Component.usesTypes source, false⟩ : Script.Dialect) = dialect at hsaid
  obtain rfl := Option.some.inj (hkey.symm.trans hkey')
  have hhandler : meaning = Fragment.handler dialect.language value.valueSpan.start value.raw.toList := by
    unfold Fragment.directiveValue at hsaid
    rw [hname] at hsaid
    split at hsaid
    · cases hsaid
    · exact (Option.some.inj hsaid).symm
  subst hhandler
  obtain ⟨front, cut, behind, hraw, rfl, hcalls, hiff⟩ := exists_callsBare hsingle hcallee hpath
  refine ⟨dialect, value, callee, before, front, cut, behind, after, hvalue, hmeaning, hcalls, ⟨hsource, hstart, hraw, ?_⟩, hiff,
    fun node hread hnode => hcalls.closes hread hnode⟩
  have hparts : source = before ++ front ++ (cut ++ (behind ++ after)) := by
    rw [show source = before ++ (value.raw.toList ++ after) from hsource, hraw]
    simp
  have hfirst : callee.span.stop = byteLength (before ++ front) := by
    rw [hcalls.stop, ← hstart, byteLength_append]
  have hlast : value.valueSpan.start + byteLength (front ++ cut) = byteLength (before ++ front) + byteLength cut := by
    rw [← hstart, byteLength_append, byteLength_append, Nat.add_assoc]
  rw [hfirst, hlast, hparts, Fix.applyAll_single]
  simp

/-- A handler that calls a member, with a note behind the statement. -/
def notedCall : List Char :=
  "<template><p @click=\"cart.save(); /* all */\"></p></template>".toList

/-- The handler with the member alone. -/
def notedMember : List Char :=
  "<template><p @click=\"cart.save /* all */\"></p></template>".toList

theorem check_fix_leaves_callee_iff_notedCall : ∃ element attr key report fix,
    (File.ofSource Script.Dialect.language notedCall).document.element? 2 = some element ∧ attr ∈ element.attributes ∧
      attr.directive? = some key ∧
    key.name.text = "on" ∧ report ∈ check ⟨.never, false⟩
      (File.ofSource Script.Dialect.language notedCall) 2 attr key ∧ report.fix = some fix ∧
    (Fix.applyAll notedCall [fix]).output = notedMember ∧
    ∃ (dialect : Script.Dialect) (value : AttributeValue) (callee : Script.Node) (front behind : List Char),
      attr.value = some value ∧ front ++ behind = "cart.save /* all */".toList ∧
      Fragment.handler dialect.language value.valueSpan.start (front ++ behind) = .expression callee := by
  have hholds : ((File.ofSource Script.Dialect.language notedCall).document.element? 2).any fun element =>
    element.attributes.any fun attr =>
      attr.directive?.any fun key => key.name.text == "on" &&
        (attr.value.any fun value => value.valueSpan.start == 21 && value.raw == "cart.save(); /* all */") &&
        ((attr.meaning?.bind singleExpression?).any fun found => found.2 == 33 &&
          (bareCallee? found.1.unparenthesized).any fun callee => callee.span.stop == 30) &&
        (check ⟨.never, false⟩ (File.ofSource Script.Dialect.language notedCall) 2 attr key).any fun report =>
          report.fix.any fun fix =>
          (Fix.applyAll notedCall [fix]).output == notedMember := by
    decide +kernel
  obtain ⟨element, helement, hattributes⟩ := (Option.any_eq_true _ _).1 hholds
  obtain ⟨attr, hattr, hkeys⟩ := List.any_eq_true.1 hattributes
  obtain ⟨key, hkey, hchecked⟩ := (Option.any_eq_true _ _).1 hkeys
  obtain ⟨hchecked, hreports⟩ := Bool.and_eq_true_iff.1 hchecked
  obtain ⟨hchecked, hmeaning⟩ := Bool.and_eq_true_iff.1 hchecked
  obtain ⟨hname, hvalues⟩ := Bool.and_eq_true_iff.1 hchecked
  obtain ⟨report, hreport, hfixes⟩ := List.any_eq_true.1 hreports
  obtain ⟨fix, hfix, houtput⟩ := (Option.any_eq_true _ _).1 hfixes
  refine ⟨element, attr, key, report, fix, helement, hattr, hkey, eq_of_beq hname, hreport, hfix, eq_of_beq houtput, ?_⟩
  obtain ⟨dialect, value, callee, before, front, cut, behind, after, hvalue, hsays, hcalls, hcuts, hiff, -⟩ :=
    check_fix_leaves_callee_iff helement hattr hkey (eq_of_beq hname) hreport hfix
  rw [hvalue, Option.any_some] at hvalues
  obtain ⟨hstart, hraw⟩ := Bool.and_eq_true_iff.1 hvalues
  obtain ⟨node, hsingle, hcallee⟩ := hcalls.single
  rw [hcuts.raw] at hsays
  rw [Attribute.meaning?, hvalue, Option.bind_some, hsays, Option.bind_some, hsingle, Option.any_some, hcallee, Option.any_some,
    hcalls.stop, eq_of_beq hstart] at hmeaning
  obtain ⟨hstop, hend⟩ := Bool.and_eq_true_iff.1 hmeaning
  have hparts : "cart.save".toList ++ ("();".toList ++ " /* all */".toList) = front ++ (cut ++ behind) := by
    rw [← hcuts.raw, eq_of_beq hraw]
    decide
  have hlengths : 9 = byteLength front ∧ 3 = byteLength cut := by
    have hfirst := eq_of_beq hend
    have hlast := eq_of_beq hstop
    rw [byteLength_append] at hlast
    omega
  obtain ⟨rfl, hrest⟩ := append_inj_of_byteLength hparts hlengths.1
  obtain ⟨rfl, rfl⟩ := append_inj_of_byteLength hrest hlengths.2
  refine ⟨dialect, value, callee, _, _, hvalue, by decide, hiff.2 ⟨?_, ?_⟩⟩
  · rw [eq_of_beq hraw]
    decide +kernel
  · exact (Fragment.isTrivia_iff _).1 (by decide)

/-- A handler that calls a method in parentheses. -/
def wrappedCall : List Char :=
  "<template><div @click=\"(save())\"></div></template>".toList

theorem not_callee_wrappedCall : ∃ element attr key report fix,
    (File.ofSource Script.Dialect.language wrappedCall).document.element? 2 = some element ∧
      attr ∈ element.attributes ∧ attr.directive? = some key ∧
    key.name.text = "on" ∧ report ∈ check ⟨.never, false⟩
      (File.ofSource Script.Dialect.language wrappedCall) 2 attr key ∧ report.fix = some fix ∧
    ∃ edited attr',
      (File.ofSource Script.Dialect.language (Fix.applyAll wrappedCall [fix]).output).document.element? 2 = some edited ∧
      edited.attributes = [attr'] ∧ attr'.value.map (·.raw) = some "(save" ∧
      ∀ node, attr'.meaning? ≠ some (.expression node) := by
  have hholds : ((File.ofSource Script.Dialect.language wrappedCall).document.element? 2).any fun element =>
    element.attributes.any fun attr =>
      attr.directive?.any fun key => key.name.text == "on" &&
        (check ⟨.never, false⟩ (File.ofSource Script.Dialect.language wrappedCall) 2 attr key).any fun report =>
          report.fix.any fun fix =>
          ((File.ofSource Script.Dialect.language (Fix.applyAll wrappedCall [fix]).output).document.element? 2).any fun edited =>
            edited.attributes.length == 1 && edited.attributes.all fun attr =>
              attr.value.map (·.raw) == some "(save" && attr.expression?.isNone := by
    decide +kernel
  obtain ⟨element, helement, hattributes⟩ := (Option.any_eq_true _ _).1 hholds
  obtain ⟨attr, hattr, hkeys⟩ := List.any_eq_true.1 hattributes
  obtain ⟨key, hkey, hchecked⟩ := (Option.any_eq_true _ _).1 hkeys
  obtain ⟨hname, hreports⟩ := Bool.and_eq_true_iff.1 hchecked
  obtain ⟨report, hreport, hfixes⟩ := List.any_eq_true.1 hreports
  obtain ⟨fix, hfix, helements⟩ := (Option.any_eq_true _ _).1 hfixes
  obtain ⟨edited, hedited, hattributes⟩ := (Option.any_eq_true _ _).1 helements
  obtain ⟨hone, hall⟩ := Bool.and_eq_true_iff.1 hattributes
  obtain ⟨attr', hattr'⟩ := List.length_eq_one_iff.1 (eq_of_beq hone)
  rw [hattr', List.all_cons, List.all_nil, Bool.and_true] at hall
  obtain ⟨hraw, hnone⟩ := Bool.and_eq_true_iff.1 hall
  refine ⟨element, attr, key, report, fix, helement, hattr, hkey, eq_of_beq hname, hreport, hfix, edited, attr', hedited, hattr',
    eq_of_beq hraw, fun node hmeaning => ?_⟩
  rw [Attribute.expression?, hmeaning] at hnone
  cases hnone

end Rules.HandlerCall

end ComponentLint
