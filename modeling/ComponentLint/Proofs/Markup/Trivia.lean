import ComponentLint.Markup.Fragment
import ComponentLint.Proofs.Text.Occurrences

/-!
# Blanks and comments behind a fragment

Behind the expression of a fragment only blanks and complete comments may stand (`Trivia`). A text is read as
such pass by pass: the blanks at its front are trimmed off, and the comment behind them is skipped (`Sweeps`).
Every pass leaves less of the text, so there is a last one (`sweeps_isTrivia`), and its answer is that of the
reader (`isTrivia_exact`).
-/

namespace ComponentLint.Markup.Fragment

open Text

/-- A complete comment, and what follows it. A line comment goes up to the end of the line or of the text, and a
block comment up to the first mark that ends it. -/
inductive Comment : List Char → List Char → Prop where
  | line {body rest : List Char} : '\n' ∉ body → (∀ c ∈ rest.head?, c = '\n') → Comment (['/', '/'] ++ body) rest
  | block {body rest : List Char} :
      (∀ other more, body ++ (['*', '/'] ++ rest) = other ++ (['*', '/'] ++ more) → body.length ≤ other.length) →
      Comment (['/', '*'] ++ (body ++ ['*', '/'])) rest

/-- A text of nothing but blanks and complete comments. -/
inductive Trivia : List Char → Prop where
  | nil : Trivia []
  | blank {c : Char} {rest : List Char} : isSpace c = true → Trivia rest → Trivia (c :: rest)
  | comment {comment rest : List Char} : Comment comment rest → Trivia rest → Trivia (comment ++ rest)

/-- What follows the comment at the front of a text. -/
def afterComment? : List Char → Option (List Char)
  | '/' :: '/' :: rest => some (rest.dropWhile (· != '\n'))
  | '/' :: '*' :: rest => (cutAt? ['*', '/'] rest).map (·.2)
  | _ => none

/-- Pass by pass the blanks and the comment at the front of a text are swept off it, up to its end or to where
there is no comment. -/
inductive Sweeps : List Char → Bool → Prop where
  | finished {text : List Char} : trimStart text = [] → Sweeps text true
  | refused {text : List Char} : trimStart text ≠ [] → afterComment? (trimStart text) = none → Sweeps text false
  | pass {text rest : List Char} {answer : Bool} :
      afterComment? (trimStart text) = some rest → Sweeps rest answer → Sweeps text answer

/-! ## One comment -/

/-- What follows a comment is what is left when it is skipped. -/
theorem afterComment?_eq_some_iff {text rest : List Char} :
    afterComment? text = some rest ↔ ∃ comment, Comment comment rest ∧ text = comment ++ rest := by
  constructor
  · intro h
    unfold afterComment? at h
    split at h
    · next text =>
      obtain rfl := Option.some.inj h
      have hbody := notMem_takeWhile_ne '\n' text
      refine ⟨['/', '/'] ++ text.takeWhile (· != '\n'), .line hbody fun c hc => ?_, by simp⟩
      have hhead := List.head?_dropWhile_not (· != '\n') text
      rw [Option.mem_def.1 hc] at hhead
      simpa using hhead
    · next text =>
      obtain ⟨⟨body, rest⟩, hcut, rfl⟩ := Option.map_eq_some_iff.1 h
      obtain ⟨rfl, hfirst⟩ := (cutAt?_eq_some_iff (by simp)).1 hcut
      exact ⟨_, .block hfirst, by simp⟩
    · cases h
  · rintro ⟨comment, hcomment, rfl⟩
    cases hcomment with
    | @line body rest hbody hrest =>
      have hplain : ∀ c ∈ body, (c != '\n') = true := fun c hc => bne_iff_ne.2 fun heq => hbody (heq ▸ hc)
      have hskip : (body ++ rest).dropWhile (· != '\n') = rest := (takeWhile_run hplain fun c hc => by simp [hrest c hc]).2
      exact congrArg some hskip
    | @block body rest hfirst =>
      have hcut : cutAt? ['*', '/'] (body ++ (['*', '/'] ++ rest)) = some (body, rest) :=
        (cutAt?_eq_some_iff (by simp)).2 ⟨rfl, hfirst⟩
      have hbody : ['/', '*'] ++ (body ++ ['*', '/']) ++ rest = '/' :: '*' :: (body ++ (['*', '/'] ++ rest)) := by simp
      rw [hbody, afterComment?, hcut]
      rfl

theorem Comment.eq_slash {comment rest : List Char} (h : Comment comment rest) : ∃ more, comment = '/' :: more := by
  cases h with
  | line => exact ⟨_, rfl⟩
  | block => exact ⟨_, rfl⟩

/-- Every pass leaves less of a text. -/
theorem length_lt_of_afterComment? {text rest : List Char} (h : afterComment? (trimStart text) = some rest) :
    rest.length < text.length := by
  obtain ⟨comment, hcomment, heq⟩ := afterComment?_eq_some_iff.1 h
  obtain ⟨more, rfl⟩ := hcomment.eq_slash
  have htrim : (trimStart text).length ≤ text.length := (List.dropWhile_suffix isSpace).length_le
  rw [heq, List.length_append, List.length_cons] at htrim
  omega

/-! ## The reader -/

theorem isTriviaAfterLine_eq (text : List Char) : isTriviaAfterLine text = isTrivia (text.dropWhile (· != '\n')) := by
  induction text with
  | nil => rfl
  | cons c text ih =>
    rw [isTriviaAfterLine]
    by_cases hc : c = '\n'
    · subst hc
      have hblank : isSpace '\n' = true := by decide
      have hfeed : isTrivia ('\n' :: text) = (isSpace '\n' && isTrivia text) := rfl
      simp [hfeed, hblank]
    · simp [hc, ih]

theorem isTriviaAfterBlock_eq (text : List Char) :
    isTriviaAfterBlock text = ((cutAt? ['*', '/'] text).map (·.2)).any isTrivia := by
  induction text with
  | nil => rfl
  | cons c text ih =>
    rw [cutAt?]
    split
    · next hprefix =>
      obtain ⟨rest, hrest⟩ := List.isPrefixOf_iff_prefix.1 hprefix
      rw [← hrest]
      simp [isTriviaAfterBlock]
    · next hnot =>
      have hother : ∀ rest, c = '*' → text = '/' :: rest → False := by
        rintro rest rfl rfl
        exact hnot (List.isPrefixOf_iff_prefix.2 ⟨rest, rfl⟩)
      rw [isTriviaAfterBlock.eq_3 c text hother, ih, Option.map_map]
      rfl

theorem trimStart_slash (text : List Char) : trimStart ('/' :: text) = '/' :: text :=
  List.dropWhile_cons_of_neg (by decide)

/-- Behind the blanks there is nothing, or a comment with trivia behind it. -/
theorem isTrivia_eq (text : List Char) :
    isTrivia text = ((trimStart text).isEmpty || (afterComment? (trimStart text)).any isTrivia) := by
  induction text with
  | nil => rfl
  | cons c text ih =>
    unfold isTrivia
    split
    · next heq => cases heq
    · next rest heq =>
      obtain ⟨rfl, rfl⟩ := List.cons.inj heq
      rw [trimStart_slash, isTriviaAfterLine_eq]
      rfl
    · next rest heq =>
      obtain ⟨rfl, rfl⟩ := List.cons.inj heq
      rw [trimStart_slash, isTriviaAfterBlock_eq]
      rfl
    · next hline hblock heq =>
      obtain ⟨rfl, rfl⟩ := List.cons.inj heq
      by_cases hspace : isSpace c = true
      · rw [hspace, Bool.true_and, ih, trimStart, trimStart, List.dropWhile_cons_of_pos hspace]
      · -- Neither a blank nor the start of a comment stands here.
        have hnone : afterComment? (c :: text) = none := by
          unfold afterComment?
          split
          · next heq => exact absurd heq (by simpa using hline _)
          · next heq => exact absurd heq (by simpa using hblock _)
          · rfl
        rw [trimStart, List.dropWhile_cons_of_neg hspace, hnone, Bool.eq_false_iff.2 hspace]
        rfl

/-! ## All comments -/

/-- The passes over a text come to an end, with the answer of the reader. -/
theorem sweeps_isTrivia (text : List Char) : Sweeps text (isTrivia text) := by
  induction hlength : text.length using Nat.strongRecOn generalizing text with
  | ind length ih =>
    rw [isTrivia_eq]
    by_cases hend : trimStart text = []
    · rw [hend]
      exact .finished hend
    · rw [List.isEmpty_eq_false_iff.2 hend, Bool.false_or]
      cases hcomment : afterComment? (trimStart text) with
      | none => exact .refused hend hcomment
      | some rest =>
        have hshorter := length_lt_of_afterComment? hcomment
        exact .pass hcomment (ih rest.length (hlength ▸ hshorter) rest rfl)

/-- No text has two answers. -/
theorem Sweeps.eq_isTrivia {text : List Char} {answer : Bool} (h : Sweeps text answer) : isTrivia text = answer := by
  induction h with
  | finished hend => rw [isTrivia_eq, hend]; rfl
  | refused hend hcomment => rw [isTrivia_eq, List.isEmpty_eq_false_iff.2 hend, hcomment]; rfl
  | @pass text rest answer hcomment _ ih =>
    have hend : trimStart text ≠ [] := by
      intro hnil
      rw [hnil] at hcomment
      cases hcomment
    rw [isTrivia_eq, List.isEmpty_eq_false_iff.2 hend, hcomment]
    exact ih

theorem Trivia.of_trimStart {text : List Char} (h : Trivia (trimStart text)) : Trivia text := by
  induction text with
  | nil => exact .nil
  | cons c text ih =>
    by_cases hspace : isSpace c = true
    · rw [trimStart, List.dropWhile_cons_of_pos hspace] at h
      exact .blank hspace (ih h)
    · rwa [trimStart, List.dropWhile_cons_of_neg hspace] at h

theorem Sweeps.trivia {text : List Char} (h : Sweeps text true) : Trivia text := by
  generalize hanswer : true = answer at h
  induction h with
  | finished hend =>
    refine Trivia.of_trimStart ?_
    rw [hend]
    exact .nil
  | refused => cases hanswer
  | pass hcomment _ ih =>
    obtain ⟨comment, hform, heq⟩ := afterComment?_eq_some_iff.1 hcomment
    refine Trivia.of_trimStart ?_
    rw [heq]
    exact .comment hform (ih hanswer)

theorem Trivia.isTrivia {text : List Char} (h : Trivia text) : isTrivia text = true := by
  induction h with
  | nil => rfl
  | @blank c rest hspace _ ih =>
    rw [isTrivia_eq, trimStart, List.dropWhile_cons_of_pos hspace, ← trimStart, ← isTrivia_eq]
    exact ih
  | @comment comment rest hcomment _ ih =>
    have hafter : afterComment? (comment ++ rest) = some rest := afterComment?_eq_some_iff.2 ⟨comment, hcomment, rfl⟩
    obtain ⟨more, rfl⟩ := hcomment.eq_slash
    rw [isTrivia_eq, List.cons_append, trimStart_slash, ← List.cons_append, hafter]
    exact ih

theorem isTrivia_iff (text : List Char) : isTrivia text = true ↔ Trivia text :=
  ⟨fun h => Sweeps.trivia (h ▸ sweeps_isTrivia text), Trivia.isTrivia⟩

/-- A fragment is one expression if one is read at its front and only trivia follows it. -/
theorem expression?_eq_some_iff {language : Script.Language} {start : Nat} {text : List Char} {node : Script.Node} :
    expression? language start text = some node ↔ isBlank text = false ∧ ∃ found front rest,
      language.expression? text = some found ∧ found.shift start = node ∧ text = front ++ rest ∧
        byteLength front = found.span.stop ∧ Trivia rest := by
  unfold expression?
  by_cases hblank : isBlank text = true
  · simp [hblank]
  · rw [if_neg hblank]
    simp only [Bool.eq_false_iff.2 hblank, true_and]
    constructor
    · intro h
      obtain ⟨found, hfound, h⟩ := Option.bind_eq_some_iff.1 h
      obtain ⟨⟨front, rest⟩, hsplit, h⟩ := Option.bind_eq_some_iff.1 h
      obtain ⟨htrivia, hnode⟩ := Option.ite_none_right_eq_some.1 h
      obtain ⟨htext, hfront⟩ := splitAt?_eq_some_iff.1 hsplit
      exact ⟨found, front, rest, hfound, Option.some.inj hnode, htext, hfront, (isTrivia_iff rest).1 htrivia⟩
    · rintro ⟨found, front, rest, hfound, rfl, htext, hfront, htrivia⟩
      have hsplit := splitAt?_eq_some_iff.2 ⟨htext, hfront⟩
      simp [hfound, hsplit, htrivia.isTrivia]

/-- Every text is swept to an end, and the reader gives the answer that is found there: it accepts exactly the
texts that are made of blanks, of line comments up to the end of their line or of the text, and of block
comments up to the first mark that ends them. So a fragment is accepted as one expression exactly if that stands
behind the expression at its front. -/
theorem isTrivia_exact :
    (∀ text answer, Sweeps text answer ↔ isTrivia text = answer) ∧ (∀ text, isTrivia text = true ↔ Trivia text) ∧
    ∀ language start text node, expression? language start text = some node ↔ isBlank text = false ∧ ∃ found front rest,
      language.expression? text = some found ∧ found.shift start = node ∧ text = front ++ rest ∧
        byteLength front = found.span.stop ∧ Trivia rest := by
  refine ⟨fun text answer => ⟨Sweeps.eq_isTrivia, ?_⟩, isTrivia_iff, fun _ _ _ _ => expression?_eq_some_iff⟩
  rintro rfl
  exact sweeps_isTrivia text

example : isTrivia " /* a **/ // b */\n/***/".toList = true := by decide

example : isTrivia " // a\n/*/".toList = false := by decide

end ComponentLint.Markup.Fragment
