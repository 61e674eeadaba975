import ComponentLint.Markup.Token
import ComponentLint.Proofs.Text.Offsets

/-!
# Tilings

`Tiling gap start chars tokens` says that the tokens lie on a stretch of text that starts at an offset, one after the other
and each over at least one character, and that every character between them is a gap. What is asked of a token list (its
order, its bounds, what it leaves out) follows from a tiling, and tilings of adjacent stretches join.
-/

namespace ComponentLint.Markup

open Text

/-- Whether an offset is one of the bytes of a token. -/
def Covered (tokens : List Token) (offset : Nat) : Prop :=
  ∃ token ∈ tokens, token.span.Holds offset

theorem Covered.mono {tokens tokens' : List Token} {offset : Nat} (h : Covered tokens offset)
    (hsub : ∀ token ∈ tokens, token ∈ tokens') : Covered tokens' offset := by
  obtain ⟨token, ht, ho⟩ := h
  exact ⟨token, hsub token ht, ho⟩

/-- Tokens laid over a stretch of text that starts at `start`; a character that no token covers is a `gap`. -/
inductive Tiling (gap : Nat → Char → Prop) : Nat → List Char → List Token → Prop where
  | done (start : Nat) : Tiling gap start [] []
  | skip {start : Nat} {c : Char} {rest : List Char} {tokens : List Token} (hgap : gap start c)
      (hrest : Tiling gap (start + c.utf8Size) rest tokens) : Tiling gap start (c :: rest) tokens
  | token {start : Nat} {taken rest : List Char} {tokens : List Token} (kind : TokenKind) (hne : taken ≠ [])
      (hrest : Tiling gap (start + byteLength taken) rest tokens) :
      Tiling gap start (taken ++ rest) (⟨kind, ⟨start, start + byteLength taken⟩⟩ :: tokens)

namespace Tiling

variable {gap gap' : Nat → Char → Prop} {start : Nat} {chars : List Char} {tokens : List Token}

/-! ## Building tilings -/

/-- Tilings of adjacent stretches join. -/
theorem append {chars' : List Char} {tokens' : List Token} (h : Tiling gap start chars tokens)
    (h' : Tiling gap (start + byteLength chars) chars' tokens') : Tiling gap start (chars ++ chars') (tokens ++ tokens') := by
  induction h with
  | done start => simpa using h'
  | skip hgap _ ih =>
    refine skip hgap (ih ?_)
    simpa [Nat.add_assoc] using h'
  | @token start taken rest tokens kind hne _ ih =>
    rw [List.append_assoc, List.cons_append]
    refine token kind hne (ih ?_)
    simpa [Nat.add_assoc] using h'

/-- A tiling stays one when more characters count as gaps; only those of the stretch matter. -/
theorem mono (h : Tiling gap start chars tokens)
    (hsub : ∀ offset c, start ≤ offset → offset < start + byteLength chars → gap offset c → gap' offset c) :
    Tiling gap' start chars tokens := by
  induction h with
  | done start => exact done start
  | @skip start c rest tokens hgap _ ih =>
    have hpos := c.utf8Size_pos
    refine skip (hsub start c (Nat.le_refl _) (by simp; omega) hgap) (ih ?_)
    intro offset d hle hlt hd
    exact hsub offset d (by omega) (by simp only [byteLength_cons]; omega) hd
  | token kind hne _ ih =>
    refine token kind hne (ih ?_)
    intro offset d hle hlt hd
    exact hsub offset d (by omega) (by simp only [byteLength_append]; omega) hd

/-- A stretch under one token. -/
theorem single (kind : TokenKind) (start : Nat) {taken : List Char} (hne : taken ≠ []) :
    Tiling gap start taken [⟨kind, ⟨start, start + byteLength taken⟩⟩] := by
  have h : Tiling gap start (taken ++ []) _ := token kind hne (done (start + byteLength taken))
  rwa [List.append_nil] at h

/-- A stretch under one token, or an empty one under none. -/
theorem spanning (kind : TokenKind) (start : Nat) (taken : List Char) :
    Tiling gap start taken (Token.spanning kind start (start + byteLength taken)) := by
  unfold Token.spanning
  split
  · exact single kind start ((byteLength_pos_iff taken).1 (by omega))
  · have hnil : taken = [] := (byteLength_eq_zero_iff taken).1 (by omega)
    subst hnil
    exact done start

/-- A stretch of gaps. -/
theorem gaps (start : Nat) (h : ∀ offset, ∀ c ∈ chars, gap offset c) : Tiling gap start chars [] := by
  induction chars generalizing start with
  | nil => exact done start
  | cons c rest ih => exact skip (h start c (by simp)) (ih _ fun offset d hd => h offset d (by simp [hd]))

/-! ## What a tiling says -/

/-- A token covers some characters of the stretch, from one position of it to another. -/
theorem token_parts (h : Tiling gap start chars tokens) :
    ∀ token ∈ tokens, ∃ a b c, chars = a ++ (b ++ c) ∧ b ≠ [] ∧
      token.span = ⟨start + byteLength a, start + byteLength a + byteLength b⟩ := by
  induction h with
  | done => simp
  | @skip start d rest tokens _ _ ih =>
    intro token ht
    obtain ⟨a, b, c, rfl, hb, hs⟩ := ih token ht
    exact ⟨d :: a, b, c, rfl, hb, by rw [hs]; simp [Nat.add_assoc]⟩
  | @token start taken rest tokens kind hne _ ih =>
    intro token ht
    rcases List.mem_cons.1 ht with rfl | ht
    · exact ⟨[], taken, rest, rfl, hne, by simp⟩
    · obtain ⟨a, b, c, rfl, hb, hs⟩ := ih token ht
      exact ⟨taken ++ a, b, c, by simp, hb, by rw [hs]; simp [Nat.add_assoc]⟩

/-- A token lies inside the stretch. -/
theorem token_within (h : Tiling gap start chars tokens) :
    ∀ token ∈ tokens, start ≤ token.span.start ∧ token.span.start < token.span.stop ∧
      token.span.stop ≤ start + byteLength chars := by
  intro token ht
  obtain ⟨a, b, c, rfl, hb, hs⟩ := h.token_parts token ht
  have hpos := (byteLength_pos_iff b).2 hb
  rw [hs]
  simp only [byteLength_append]
  omega

/-- Each token ends where a later one starts, or before. -/
theorem pairwise (h : Tiling gap start chars tokens) : tokens.Pairwise fun a b => a.span.stop ≤ b.span.start := by
  induction h with
  | done => exact List.Pairwise.nil
  | skip _ _ ih => exact ih
  | token kind hne hrest ih =>
    refine List.pairwise_cons.2 ⟨?_, ih⟩
    intro token ht
    exact (hrest.token_within token ht).1

/-- A byte of the stretch belongs to a token, or to a character that is a gap. -/
theorem covered_or_gap (h : Tiling gap start chars tokens) {offset : Nat} (hle : start ≤ offset)
    (hlt : offset < start + byteLength chars) :
    Covered tokens offset ∨ ∃ a c b, chars = a ++ c :: b ∧ start + byteLength a ≤ offset ∧
      offset < start + byteLength a + c.utf8Size ∧ gap (start + byteLength a) c := by
  induction h with
  | done => simp at hlt; omega
  | @skip start d rest tokens hgap _ ih =>
    by_cases hd : offset < start + d.utf8Size
    · exact Or.inr ⟨[], d, rest, rfl, by simpa using hle, by simpa using hd, by simpa using hgap⟩
    · rcases ih (by omega) (by simp only [byteLength_cons] at hlt; omega) with hc | ⟨a, c, b, rfl, h1, h2, h3⟩
      · exact Or.inl hc
      · refine Or.inr ⟨d :: a, c, b, rfl, ?_⟩
        simp only [byteLength_cons, ← Nat.add_assoc]
        exact ⟨h1, h2, h3⟩
  | @token start taken rest tokens kind _ _ ih =>
    by_cases ht : offset < start + byteLength taken
    · exact Or.inl ⟨_, List.mem_cons_self, hle, ht⟩
    · rcases ih (by omega) (by simp only [byteLength_append] at hlt; omega) with hc | ⟨a, c, b, rfl, h1, h2, h3⟩
      · exact Or.inl (hc.mono fun token ht => List.mem_cons_of_mem _ ht)
      · refine Or.inr ⟨taken ++ a, c, b, by simp, ?_⟩
        simp only [byteLength_append, ← Nat.add_assoc]
        exact ⟨h1, h2, h3⟩

/-- Where nothing is a gap, every byte of the stretch belongs to a token. -/
theorem covered (h : Tiling (fun _ _ => False) start chars tokens) {offset : Nat} (hle : start ≤ offset)
    (hlt : offset < start + byteLength chars) : Covered tokens offset := by
  rcases h.covered_or_gap hle hlt with hc | ⟨_, _, _, _, _, _, hf⟩
  · exact hc
  · exact hf.elim

/-- A stretch is parted by each of its tokens. -/
theorem parted {front back : List Token} {token : Token} (h : Tiling gap start chars (front ++ token :: back)) :
    ∃ before taken after, chars = before ++ (taken ++ after) ∧
      token.span = ⟨start + byteLength before, start + byteLength (before ++ taken)⟩ ∧ Tiling gap start before front ∧
      Tiling gap (start + byteLength (before ++ taken)) after back := by
  generalize htokens : front ++ token :: back = tokens at h
  induction h generalizing front with
  | done => simp at htokens
  | @skip start c rest tokens hgap _ ih =>
    obtain ⟨before, taken, after, rfl, hspan, hfront, hback⟩ := ih htokens
    refine ⟨c :: before, taken, after, rfl, ?_, skip hgap hfront, ?_⟩
    · rw [hspan]
      simp [Nat.add_assoc]
    · simpa [Nat.add_assoc] using hback
  | @token start first rest tokens kind hne hrest ih =>
    cases front with
    | nil =>
      obtain ⟨rfl, rfl⟩ := List.cons.inj htokens
      exact ⟨[], first, rest, rfl, by simp, done start, by simpa using hrest⟩
    | cons other front =>
      rw [List.cons_append] at htokens
      obtain ⟨rfl, hrest⟩ := List.cons.inj htokens
      obtain ⟨before, taken, after, rfl, hspan, hfront, hback⟩ := ih hrest
      refine ⟨first ++ before, taken, after, by simp, ?_, .token kind hne hfront, ?_⟩
      · rw [hspan]
        simp [Nat.add_assoc]
      · simpa [Nat.add_assoc] using hback

/-- Every character of a stretch without tokens is a gap. -/
theorem exists_gap (h : Tiling gap start chars []) :
    ∀ c ∈ chars, ∃ offset, start ≤ offset ∧ offset < start + byteLength chars ∧ gap offset c := by
  generalize htokens : ([] : List Token) = tokens at h
  induction h with
  | done => nofun
  | @skip start d rest tokens hgap _ ih =>
    have hsize := d.utf8Size_pos
    intro c hc
    rw [byteLength_cons]
    rcases List.mem_cons.1 hc with rfl | hc
    · exact ⟨start, Nat.le_refl _, by omega, hgap⟩
    · obtain ⟨offset, hfrom, hto, hgap⟩ := ih htokens c hc
      exact ⟨offset, by omega, by omega, hgap⟩
  | token => cases htokens

/-- Between a token and the next one every character is a gap. -/
theorem between {front back : List Token} {first second : Token}
    (h : Tiling gap start chars (front ++ first :: second :: back)) :
    ∃ before inside after, chars = before ++ (inside ++ after) ∧ first.span.stop = start + byteLength before ∧
      second.span.start = start + byteLength (before ++ inside) ∧
      ∀ c ∈ inside, ∃ offset, first.span.stop ≤ offset ∧ offset < second.span.start ∧ gap offset c := by
  obtain ⟨before, taken, after, rfl, hfirst, -, hafter⟩ := h.parted
  have hnext : Tiling gap (start + byteLength (before ++ taken)) after ([] ++ second :: back) := hafter
  obtain ⟨inside, next, rest, rfl, hsecond, hinside, -⟩ := hnext.parted
  have hstart : second.span.start = start + byteLength (before ++ taken) + byteLength inside := by rw [hsecond]
  refine ⟨before ++ taken, inside, next ++ rest, by simp, by rw [hfirst], ?_, ?_⟩
  · rw [hstart, byteLength_append (before ++ taken), Nat.add_assoc]
  · rw [hstart, hfirst]
    exact hinside.exists_gap

end Tiling

end ComponentLint.Markup
