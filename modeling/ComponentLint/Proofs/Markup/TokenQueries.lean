import ComponentLint.Proofs.Markup.Lossless

/-!
# Questions about tokens

The tokens of a file stand one behind the other, and none is empty. So those that start before an offset stand in front of all
others, and so do those that end by it: the two places can be found by halving the list, and what is asked of the tokens around
an offset or inside a span is answered as if each of them were looked at (`Document.Scanned`). Such a look passes over white
space, however much of it there is.
-/

namespace ComponentLint

open Text

namespace Markup

/-! ## Lists with what passes a test in front -/

section InFront

variable {α : Type} {test : α → Bool} {items : List α}

/-- Where what passes stands in front, the first ones that pass are all that pass. -/
theorem takeWhile_eq_filter (h : items.Pairwise fun a b => test b = true → test a = true) :
    items.takeWhile test = items.filter test := by
  induction h with
  | nil => rfl
  | @cons first rest hfirst _ ih =>
    by_cases hpass : test first = true
    · rw [List.takeWhile_cons_of_pos hpass, List.filter_cons_of_pos hpass, ih]
    · have hnone : rest.filter test = [] := List.filter_eq_nil_iff.2 fun a ha hpasses => hpass (hfirst a ha hpasses)
      rw [List.takeWhile_cons_of_neg hpass, List.filter_cons_of_neg hpass, hnone]

/-- Where what passes stands in front, what is left behind it is all that does not pass. -/
theorem dropWhile_eq_filter (h : items.Pairwise fun a b => test b = true → test a = true) :
    items.dropWhile test = items.filter (!test ·) := by
  induction h with
  | nil => rfl
  | @cons first rest hfirst _ ih =>
    by_cases hpass : test first = true
    · rw [List.dropWhile_cons_of_pos hpass, List.filter_cons_of_neg (by simp [hpass]), ih]
    · have hall : rest.filter (!test ·) = rest :=
        List.filter_eq_self.2 fun a ha => by simpa using fun hpasses => hpass (hfirst a ha hpasses)
      rw [List.dropWhile_cons_of_neg hpass, List.filter_cons_of_pos (by simpa using hpass), hall]

/-- Where what passes stands in front, an item passes if its place is among as many as pass. -/
theorem passes_iff_lt (h : items.Pairwise fun a b => test b = true → test a = true) {place : Nat} {item : α}
    (hitem : items[place]? = some item) : test item = true ↔ place < (items.takeWhile test).length := by
  induction h generalizing place with
  | nil => cases hitem
  | @cons first rest hfirst _ ih =>
    by_cases hpass : test first = true
    · rw [List.takeWhile_cons_of_pos hpass, List.length_cons]
      cases place with
      | zero =>
        obtain rfl : first = item := by simpa using hitem
        simpa using hpass
      | succ place => simpa using ih (by simpa using hitem)
    · rw [List.takeWhile_cons_of_neg hpass]
      refine iff_of_false (fun hitem_passes => ?_) (Nat.not_lt_zero place)
      rcases List.mem_cons.1 (List.mem_of_getElem? hitem) with rfl | hlater
      · exact hpass hitem_passes
      · exact hpass (hfirst item hlater hitem_passes)

/-- Leaving out as many as pass in the whole list leaves a front part of the list without those that pass. -/
theorem drop_length_takeWhile_append (front back : List α) (test : α → Bool) :
    front.drop ((front ++ back).takeWhile test).length = front.dropWhile test := by
  induction front with
  | nil => simp
  | cons first rest ih =>
    by_cases hpass : test first = true
    · rw [List.cons_append, List.takeWhile_cons_of_pos hpass, List.length_cons, List.drop_succ_cons,
        List.dropWhile_cons_of_pos hpass, ih]
    · rw [List.cons_append, List.takeWhile_cons_of_neg hpass, List.length_nil, List.drop_zero,
        List.dropWhile_cons_of_neg hpass]

end InFront

/-! ## Tokens in order -/

/-- The tokens of a file are asked for as if each of them were looked at. -/
structure Document.Scanned (document : Document) : Prop where
  /-- The index of an offset parts the tokens that start before it from the others. -/
  starting : ∀ (offset place : Nat) token, document.tokens.toList[place]? = some token →
    (token.span.start < offset ↔ place < document.tokenIndexAt offset)
  /-- The tokens that end by an offset stand in front of the others. -/
  ending : ∀ (offset place : Nat) token, document.tokens.toList[place]? = some token →
    (token.span.stop ≤ offset ↔ place < document.tokensEndingBy offset)
  inside : ∀ span : Span, document.tokensIn span =
    document.tokens.toList.filter fun token => decide (span.start ≤ token.span.start) && decide (token.span.stop ≤ span.stop)
  firstAfter : ∀ offset : Nat, document.firstTokenAfter? offset =
    document.tokens.toList.find? fun token => decide (offset ≤ token.span.start) && token.kind != .whitespace
  lastBefore : ∀ offset : Nat, document.lastTokenBefore? offset =
    document.tokens.toList.reverse.find? fun token => decide (token.span.stop ≤ offset) && token.kind != .whitespace
  /-- From every offset between two tokens that have nothing but white space between them, these two are found. -/
  anchors : ∀ before near blanks far after, document.tokens.toList = before ++ near :: (blanks ++ far :: after) →
    (∀ token ∈ blanks, token.kind = .whitespace) → near.kind ≠ .whitespace → far.kind ≠ .whitespace →
      ∀ offset, near.span.stop ≤ offset → offset ≤ far.span.start →
        document.lastTokenBefore? offset = some near ∧ document.firstTokenAfter? offset = some far

/-- Tokens of a text, none of them empty, one behind the other. -/
structure Consecutive (tokens : List Token) : Prop where
  nonempty : ∀ token ∈ tokens, token.span.start < token.span.stop
  ordered : tokens.Pairwise fun a b => a.span.stop ≤ b.span.start

namespace Consecutive

variable {tokens : List Token}

/-- The tokens that start before an offset stand in front. -/
theorem starting (h : Consecutive tokens) (offset : Nat) :
    tokens.Pairwise fun a b => decide (b.span.start < offset) = true → decide (a.span.start < offset) = true := by
  refine h.ordered.imp_of_mem ?_
  intro a b ha _ hle
  have hlt := h.nonempty a ha
  simp only [decide_eq_true_eq]
  omega

/-- The tokens that end by an offset stand in front. -/
theorem ending (h : Consecutive tokens) (offset : Nat) :
    tokens.Pairwise fun a b => decide (b.span.stop ≤ offset) = true → decide (a.span.stop ≤ offset) = true := by
  refine h.ordered.imp_of_mem ?_
  intro a b _ hb hle
  have hlt := h.nonempty b hb
  simp only [decide_eq_true_eq]
  omega

/-- What stands before a token starts before it, and what stands behind it ends behind it. -/
theorem around {before after : List Token} {token : Token} (h : Consecutive (before ++ token :: after)) :
    (∀ earlier ∈ before, earlier.span.start < token.span.start) ∧ ∀ later ∈ after, token.span.stop < later.span.stop := by
  obtain ⟨-, hbehind, hacross⟩ := List.pairwise_append.1 h.ordered
  constructor
  · intro earlier hearlier
    exact Nat.lt_of_lt_of_le (h.nonempty earlier (by simp [hearlier])) (hacross earlier hearlier token List.mem_cons_self)
  · intro later hlater
    exact Nat.lt_of_le_of_lt ((List.pairwise_cons.1 hbehind).1 later hlater) (h.nonempty later (by simp [hlater]))

end Consecutive

/-! ## Queries -/

namespace Document

variable {document : Document}

theorem drop_tokenIndexAt (document : Document) (offset : Nat) :
    document.tokens.toList.drop (document.tokenIndexAt offset) = document.tokens.toList.dropWhile (·.span.start < offset) := by
  have hdrop := drop_length_takeWhile_append document.tokens.toList [] (·.span.start < offset)
  rwa [List.append_nil] at hdrop

theorem take_tokensEndingBy (document : Document) (offset : Nat) :
    document.tokens.toList.take (document.tokensEndingBy offset) = document.tokens.toList.takeWhile (·.span.stop ≤ offset) :=
  (List.prefix_iff_eq_take.1 (List.takeWhile_prefix _)).symm

/-- Looking for the tokens of a span from its two ends finds those that lie in it. -/
theorem tokensIn_eq_filter (h : Consecutive document.tokens.toList) (span : Span) :
    document.tokensIn span = document.tokens.toList.filter fun token =>
      decide (span.start ≤ token.span.start) && decide (token.span.stop ≤ span.stop) := by
  have hparts := List.takeWhile_append_dropWhile (p := fun token : Token => decide (token.span.stop ≤ span.stop))
    (l := document.tokens.toList)
  have hfront : (document.tokens.toList.takeWhile (·.span.stop ≤ span.stop)).Pairwise fun a b =>
      decide (b.span.start < span.start) = true → decide (a.span.start < span.start) = true :=
    (h.starting span.start).sublist (List.takeWhile_sublist _)
  calc document.tokensIn span
      = (document.tokens.toList.takeWhile (·.span.stop ≤ span.stop)).drop (document.tokenIndexAt span.start) := by
        rw [tokensIn, take_tokensEndingBy]
    _ = (document.tokens.toList.takeWhile (·.span.stop ≤ span.stop)).dropWhile (·.span.start < span.start) := by
        rw [← drop_length_takeWhile_append _ (document.tokens.toList.dropWhile (·.span.stop ≤ span.stop)), hparts, tokenIndexAt]
    _ = _ := by
        rw [dropWhile_eq_filter hfront, takeWhile_eq_filter (h.ending span.stop), List.filter_filter]
        refine List.filter_congr fun token _ => Bool.eq_iff_iff.2 ?_
        simp

theorem firstTokenAfter?_eq_find? (h : Consecutive document.tokens.toList) (offset : Nat) :
    document.firstTokenAfter? offset =
      document.tokens.toList.find? fun token => decide (offset ≤ token.span.start) && token.kind != .whitespace := by
  rw [firstTokenAfter?, drop_tokenIndexAt, dropWhile_eq_filter (h.starting offset), List.find?_filter]
  refine congrArg (List.find? · document.tokens.toList) (funext fun token => Bool.eq_iff_iff.2 ?_)
  simp

theorem lastTokenBefore?_eq_find? (h : Consecutive document.tokens.toList) (offset : Nat) :
    document.lastTokenBefore? offset =
      document.tokens.toList.reverse.find? fun token => decide (token.span.stop ≤ offset) && token.kind != .whitespace := by
  rw [lastTokenBefore?, take_tokensEndingBy, takeWhile_eq_filter (h.ending offset), ← List.filter_reverse, List.find?_filter]
  refine congrArg (List.find? · document.tokens.toList.reverse) (funext fun token => Bool.eq_iff_iff.2 ?_)
  simp

/-- Tokens that stand one behind the other are asked for as if each of them were looked at. -/
theorem scanned_of_consecutive (h : Consecutive document.tokens.toList) : document.Scanned := by
  refine ⟨?starting, ?ending, tokensIn_eq_filter h, firstTokenAfter?_eq_find? h, lastTokenBefore?_eq_find? h, ?anchors⟩
  case starting =>
    intro offset place token htoken
    simpa [tokenIndexAt] using passes_iff_lt (h.starting offset) htoken
  case ending =>
    intro offset place token htoken
    simpa [tokensEndingBy] using passes_iff_lt (h.ending offset) htoken
  case anchors =>
    intro before near blanks far after htokens hblank hnear hfar offset hstop hstart
    rw [lastTokenBefore?_eq_find? h, firstTokenAfter?_eq_find? h, htokens]
    rw [htokens] at h
    have hnear_lt := h.nonempty near (by simp)
    have hfar_lt := h.nonempty far (by simp)
    constructor
    · refine List.find?_eq_some_iff_append.2
        ⟨by simp [hstop, hnear], (blanks ++ far :: after).reverse, before.reverse, by simp, ?_⟩
      have hlater : ∀ token ∈ far :: after, offset < token.span.stop := by
        rw [← List.cons_append, ← List.append_assoc] at h
        refine List.forall_mem_cons.2 ⟨by omega, fun token hafter => ?_⟩
        have hlt := h.around.2 token hafter
        omega
      intro token htoken
      rcases List.mem_append.1 (List.mem_reverse.1 htoken) with hblanks | hbehind
      · simp [hblank token hblanks]
      · simp [hlater token hbehind]
    · refine List.find?_eq_some_iff_append.2 ⟨by simp [hstart, hfar], before ++ near :: blanks, after, by simp, ?_⟩
      have hearlier : ∀ token ∈ before ++ [near], token.span.start < offset := by
        refine List.forall_mem_append.2 ⟨fun token hbefore => ?_, by simp; omega⟩
        have hlt := h.around.1 token hbefore
        omega
      intro token htoken
      rw [List.append_cons] at htoken
      rcases List.mem_append.1 htoken with hfront | hblanks
      · simp [hearlier token hfront]
      · simp [hblank token hblanks]

end Document

/-- The tokens of every file are asked for as if each of them were looked at. -/
theorem parse_scanned (language : Script.Language) (source : List Char) : (parse language source).1.Scanned := by
  have htiling := (parse_tiled language source).1
  exact Document.scanned_of_consecutive ⟨fun token ht => (htiling.inFile token ht).1, htiling.pairwise⟩

end Markup

end ComponentLint
