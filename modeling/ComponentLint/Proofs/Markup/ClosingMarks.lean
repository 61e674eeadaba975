import ComponentLint.Proofs.Markup.Locality

/-!
# Closing marks of start tags

What becomes of a start tag when its closing mark is exchanged for the other one. The name and the attributes are read as before
unless the slash gets attached to them: a value without quotes takes a slash that comes to stand behind it, and a slash that
stands before the mark already becomes part of it.
-/

namespace ComponentLint.Markup

open Text

/-- The text of a closing mark. -/
def TagEnd.mark : TagEnd → List Char
  | .plain => ['>']
  | .selfClosing => ['/', '>']
  | .missing => []

theorem TagEnd.mark_ne_nil {ending : TagEnd} (h : ending ≠ .missing) : ending.mark ≠ [] := by
  cases ending with
  | plain | selfClosing => exact List.cons_ne_nil _ _
  | missing => exact absurd rfl h

/-! ## Tails -/

theorem TagTail.parts {stream rest : Stream} {ending : TagEnd} (h : TagTail stream ending rest) (hended : ending ≠ .missing) :
    ∃ gap, stream.Reads (gap ++ ending.mark) rest ∧ (∀ c ∈ gap, TagGap c) ∧ (ending = .plain → gap.getLast? ≠ some '/') := by
  cases h with
  | plain hgap hgaps hlast hmark => exact ⟨_, hgap.trans hmark, hgaps, fun _ => hlast⟩
  | selfClosing hgap hgaps hmark => exact ⟨_, hgap.trans hmark, hgaps, nofun⟩
  | missing => exact absurd rfl hended

theorem TagTail.of_parts {offset : Nat} {gap rest : List Char} {ending : TagEnd} (hgaps : ∀ c ∈ gap, TagGap c)
    (hended : ending ≠ .missing) (hlast : ending = .plain → gap.getLast? ≠ some '/') :
    TagTail ⟨offset, gap ++ (ending.mark ++ rest)⟩ ending ⟨offset + byteLength (gap ++ ending.mark), rest⟩ := by
  have hgap : Stream.Reads ⟨offset, gap ++ (ending.mark ++ rest)⟩ gap ⟨offset + byteLength gap, ending.mark ++ rest⟩ := ⟨rfl, rfl⟩
  have hmark : Stream.Reads ⟨offset + byteLength gap, ending.mark ++ rest⟩ ending.mark
      ⟨offset + byteLength (gap ++ ending.mark), rest⟩ := ⟨rfl, by rw [byteLength_append, Nat.add_assoc]⟩
  cases ending with
  | plain => exact .plain hgap hgaps (hlast rfl) hmark
  | selfClosing => exact .selfClosing hgap hgaps hmark
  | missing => exact absurd rfl hended

section Marks

variable {gap rest rest' : List Char} {ending ending' : TagEnd}

/-- A name ends before every closing mark. -/
theorem endsTagName_mark (hended : ending ≠ .missing) (rest : List Char) : endsTagName (ending.mark ++ rest) = true := by
  cases ending with
  | plain => rfl
  | selfClosing => rfl
  | missing => exact absurd rfl hended

/-- Where a name ends is decided by the gap behind it, unless there is none or it is a slash. -/
theorem endsTagName_gap (hne : gap ≠ []) (hslash : gap ≠ ['/']) (rest rest' : List Char) :
    endsTagName (gap ++ rest) = endsTagName (gap ++ rest') := by
  rcases gap with _ | ⟨a, _ | ⟨b, gap⟩⟩
  · exact absurd rfl hne
  · have ha : (a == '/') = false := by simpa using hslash
    simp [endsTagName, ha]
  · rfl

theorem head?_mark_ne_equals (hended : ending ≠ .missing) (hgaps : ∀ c ∈ gap, TagGap c) (rest : List Char) :
    ((gap ++ (ending.mark ++ rest)).dropWhile isAsciiSpace).head? ≠ some '=' := by
  induction gap with
  | nil => cases ending <;> simp_all [TagEnd.mark, isAsciiSpace]
  | cons c gap ih =>
    obtain ⟨hc, hrest⟩ := List.forall_mem_cons.1 hgaps
    rw [List.cons_append, List.dropWhile_cons]
    split
    · exact ih hrest
    · rename_i hblank
      rcases hc with hc | rfl
      · exact absurd hc hblank
      · simp

/-- What may follow an attribute with one closing mark may follow it with the other, unless the slash gets attached to it. -/
theorem Attribute.EndsBefore.remark {attr : Attribute} {taken : List Char}
    (h : attr.EndsBefore taken (gap ++ (ending.mark ++ rest))) (hgaps : ∀ c ∈ gap, TagGap c) (hended : ending' ≠ .missing)
    (hgap : gap ≠ ['/']) (hslash : ending' = .plain → gap = [] → taken.getLast? ≠ some '/')
    (hbare : ending' = .selfClosing → gap = [] → ∀ value, attr.value = some value → value.quote ≠ none) (rest' : List Char) :
    attr.EndsBefore taken (gap ++ (ending'.mark ++ rest')) := by
  unfold EndsBefore at h ⊢
  cases gap with
  | nil =>
    rw [List.nil_append]
    split
    · refine ⟨Or.inr ?_, fun hlast => ?_, ?_⟩
      · simp [endsAttributeName, endsTagName_mark hended]
      · cases ending' with
        | plain => exact absurd hlast (hslash rfl rfl)
        | selfClosing => simp [TagEnd.mark]
        | missing => exact absurd rfl hended
      · exact head?_mark_ne_equals hended hgaps rest'
    · rename_i value hvalue
      intro hquote c hc
      cases ending' with
      | plain => exact Or.inl (Option.some.inj hc).symm
      | selfClosing => exact absurd hquote (hbare rfl rfl value hvalue)
      | missing => exact absurd rfl hended
  | cons c gap =>
    split
    · rename_i hvalue
      rw [hvalue] at h
      obtain ⟨hends, hlast, -⟩ := h
      refine ⟨?_, hlast, head?_mark_ne_equals hended hgaps rest'⟩
      rw [endsAttributeName, ← endsTagName_gap (by simp) hgap (ending.mark ++ rest)]
      exact hends
    · rename_i value hvalue
      rw [hvalue] at h
      exact h

/-- The listed attributes end where the last of them does. -/
theorem Listed.stop_eq {around : Surroundings} {stream last : Stream} {reads : List ReadAttribute}
    (h : Listed around stream reads last) {read : ReadAttribute} (hread : reads.getLast? = some read) :
    read.attr.span.stop = last.offset := by
  induction h with
  | none => cases hread
  | cons _ _ hstart hattr hlisted ih =>
    rename_i first reads _ _
    cases reads with
    | nil =>
      obtain rfl : first = read := Option.some.inj hread
      obtain ⟨-, hspan, -⟩ := readAttribute_lays around hstart.ne_nil
      rw [hattr] at hspan
      rw [hlisted.eq_of_nil, hspan]
    | cons next reads => exact ih hread

/-- The parts of a start tag that is closed: its name, its attributes, and what stands before its closing mark. -/
theorem readStartTag_parts {around : Surroundings} {offset : Nat} {chars : List Char} {tag : ReadTag} {rest : Stream}
    (hread : readStartTag around ⟨offset, '<' :: chars⟩ = (tag, rest)) (hended : tag.ending ≠ .missing) :
    ∃ front gap, chars = tag.rawName ++ (front ++ (gap ++ (tag.ending.mark ++ rest.chars))) ∧
      tagName chars = (tag.rawName, front ++ (gap ++ (tag.ending.mark ++ rest.chars))) ∧
      Listed around ⟨offset + 1 + byteLength tag.rawName, front ++ (gap ++ (tag.ending.mark ++ rest.chars))⟩ tag.attributes
        ⟨offset + 1 + byteLength tag.rawName + byteLength front, gap ++ (tag.ending.mark ++ rest.chars)⟩ ∧
      (∀ c ∈ gap, TagGap c) ∧ (tag.ending = .plain → gap.getLast? ≠ some '/') ∧ tag.start = offset ∧
      rest.offset = offset + 1 + byteLength (tag.rawName ++ (front ++ gap)) + byteLength tag.ending.mark := by
  have happ := tagName_append chars
  obtain ⟨name, after, hname⟩ : ∃ name after, tagName chars = (name, after) := ⟨_, _, rfl⟩
  rw [hname] at happ
  dsimp only at happ
  rw [← happ] at hname hread
  obtain ⟨rfl, hstart, -, ⟨last, lastChars⟩, hlisted, htail⟩ := readStartTag_listed around hname hread
  obtain ⟨front, hfront⟩ := hlisted.reads
  obtain ⟨gap, hgap, hgaps, hlast⟩ := htail.parts hended
  obtain rfl : lastChars = gap ++ (tag.ending.mark ++ rest.chars) := hgap.chars.trans (List.append_assoc _ _ _)
  obtain rfl : after = front ++ (gap ++ (tag.ending.mark ++ rest.chars)) := hfront.chars
  obtain rfl : last = offset + 1 + byteLength tag.rawName + byteLength front := hfront.offset
  refine ⟨front, gap, happ.symm, by rw [← happ]; exact hname, hlisted, hgaps, hlast, hstart, ?_⟩
  rw [hgap.offset]
  simp only [byteLength_append]
  omega

/-- A start tag with the other closing mark. -/
theorem readStartTag_remark {around : Surroundings} {offset stop : Nat} {before : List Char} {tag : ReadTag}
    (hread : readStartTag around ⟨offset, '<' :: (before ++ (tag.ending.mark ++ rest))⟩ = (tag, ⟨stop, rest⟩))
    (hother : (tag.ending = .plain ∧ ending = .selfClosing) ∨ (tag.ending = .selfClosing ∧ ending = .plain))
    (hslash : ending = .plain → before.getLast? ≠ some '/')
    (hbare : ending = .selfClosing → ∀ read ∈ tag.attributes.getLast?, ∀ value, read.attr.value = some value →
      value.quote = none → read.attr.span.stop ≠ offset + 1 + byteLength before)
    (hbracket : ']' ∈ rest' → ']' ∈ rest) :
    readStartTag around ⟨offset, '<' :: (before ++ (ending.mark ++ rest'))⟩ =
      ({ tag with ending := ending, stop := offset + 1 + byteLength before + byteLength ending.mark },
        ⟨offset + 1 + byteLength before + byteLength ending.mark, rest'⟩) := by
  have hended : tag.ending ≠ .missing ∧ ending ≠ .missing := by
    rcases hother with ⟨hold, hnew⟩ | ⟨hold, hnew⟩ <;> rw [hold, hnew] <;> exact ⟨nofun, nofun⟩
  obtain ⟨front, gap, hchars, hname, hlisted, hgaps, hlast, hstart, -⟩ := readStartTag_parts hread hended.1
  have hends := tagName_ends (before ++ (tag.ending.mark ++ rest))
  rw [hname] at hends
  obtain rfl : before = tag.rawName ++ (front ++ gap) := by
    refine List.append_cancel_right (hchars.trans ?_)
    simp
  rw [hchars] at hname
  have hgapSlash : ending = .plain → gap.getLast? ≠ some '/' := by
    intro hplain hgapLast
    refine hslash hplain ?_
    rw [List.getLast?_append, List.getLast?_append, hgapLast]
    rfl
  have hnotSlash : gap ≠ ['/'] := by
    rintro rfl
    rcases hother with ⟨hold, -⟩ | ⟨-, hnew⟩
    · exact hlast hold rfl
    · exact hgapSlash hnew rfl
  have hbare' : tag.attributes = [] → endsTagName (gap ++ (ending.mark ++ rest')) = true ∧
      (tag.rawName.getLast? = some '/' → (gap ++ (ending.mark ++ rest')).head? ≠ some '>') := by
    intro hnone
    rw [hnone] at hlisted
    obtain rfl : front = [] := List.append_left_eq_self.1 (congrArg Stream.chars hlisted.eq_of_nil).symm
    cases gap with
    | nil =>
      refine ⟨endsTagName_mark hended.2 rest', fun hnameLast => ?_⟩
      rcases hother with ⟨-, rfl⟩ | ⟨-, rfl⟩
      · simp [TagEnd.mark]
      · exact absurd (by simpa using hnameLast) (hslash rfl)
    | cons c gap =>
      refine ⟨?_, fun _ hc => ?_⟩
      · rw [← endsTagName_gap (List.cons_ne_nil c gap) hnotSlash (tag.ending.mark ++ rest)]
        exact hends
      · obtain rfl : c = '>' := Option.some.inj hc
        rcases hgaps '>' List.mem_cons_self with h | h <;> cases h
  have hends' : ∀ read ∈ tag.attributes.getLast?, ∀ taken, taken <:+ front →
      read.attr.EndsBefore taken (gap ++ (tag.ending.mark ++ rest)) →
      read.attr.EndsBefore taken (gap ++ (ending.mark ++ rest')) := by
    intro read hlastRead taken htaken hbefore
    refine hbefore.remark hgaps hended.2 hnotSlash
      (fun hplain hnil hslashed => ?_) (fun hself hnil value hvalue hquote => ?_) rest'
    · obtain ⟨early, rfl⟩ := htaken
      refine hslash hplain ?_
      rw [hnil, List.append_nil, List.getLast?_append, List.getLast?_append, hslashed]
      rfl
    · refine hbare hself read hlastRead value hvalue hquote ?_
      rw [hlisted.stop_eq hlastRead, hnil]
      simp [Nat.add_assoc]
  have hbracket' : ']' ∈ gap ++ (ending.mark ++ rest') → ']' ∈ gap ++ (tag.ending.mark ++ rest) := by
    simp only [List.mem_append]
    rintro (hmem | hmem | hmem)
    · exact Or.inl hmem
    · rcases hother with ⟨-, rfl⟩ | ⟨-, rfl⟩ <;> simp [TagEnd.mark] at hmem
    · exact Or.inr (Or.inr (hbracket hmem))
  have hmarked : gap ++ (tag.ending.mark ++ rest) ≠ [] := by
    rcases hother with ⟨hold, -⟩ | ⟨hold, -⟩ <;> simp [hold, TagEnd.mark]
  have hresult := readStartTag_retail hname hlisted hmarked (TagTail.of_parts hgaps hended.2 hgapSlash) hbare' hends' hbracket'
  have hstop : offset + 1 + byteLength tag.rawName + byteLength front + byteLength (gap ++ ending.mark) =
      offset + 1 + byteLength (tag.rawName ++ (front ++ gap)) + byteLength ending.mark := by
    simp only [byteLength_append]
    omega
  rw [hstop] at hresult
  rw [show tag.rawName ++ (front ++ gap) ++ (ending.mark ++ rest') =
    tag.rawName ++ (front ++ (gap ++ (ending.mark ++ rest'))) by simp, hresult, ← hstart]

end Marks

/-- Braces do not reach over a closing mark. -/
theorem occurs_mark {ending : TagEnd} (hended : ending ≠ .missing) (front rest : List Char) :
    occurs ['}', '}'] (front ++ (ending.mark ++ rest)) = (occurs ['}', '}'] front || occurs ['}', '}'] rest) := by
  cases ending with
  | plain => exact occurs_split (by simp) (by simp) front rest
  | selfClosing =>
    rw [show front ++ (TagEnd.selfClosing.mark ++ rest) = front ++ '/' :: ([] ++ '>' :: rest) from rfl,
      occurs_split (by simp) (by simp), occurs_split (by simp) (by simp), occurs_nil (by simp), Bool.false_or]
  | missing => exact absurd rfl hended

end ComponentLint.Markup
