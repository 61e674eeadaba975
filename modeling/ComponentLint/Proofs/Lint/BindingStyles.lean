import ComponentLint.Proofs.Fix.Drafting
import ComponentLint.Proofs.Fix.Splice
import ComponentLint.Proofs.Lint.HandlerStyles
import ComponentLint.Proofs.Markup.KeyWords
import ComponentLint.Rules.DirectiveStyle

/-!
# Styles of bindings

A binding with an argument is written with `:`, with `.`, which implies the modifier `prop`, or with `v-bind:`. A `prop` that
is written gives way to the mark `.` together with the character before it, and is written out behind the argument when the
mark goes. Both lean on a dot that need not be there behind brackets: there a modifier can be `Glued` to the argument, and the
fix keeps what the binding says exactly when it is `Restylable` (`check_rewrites_iff`).
-/

namespace ComponentLint

open Text

namespace Markup

variable {languages : Script.Languages}

/-- Two keys bind the same: their arguments are of one kind and have one text, and their modifiers are the same but for their
order. -/
structure DirectiveKey.BindsSame (key key' : DirectiveKey) : Prop where
  argument : ∃ argument ∈ key.argument, ∃ argument' ∈ key'.argument, argument.SameAs argument'
  modifiers : (key'.modifiers.map (·.text)).Perm (key.modifiers.map (·.text))

/-- A name, or brackets that are closed, which the span then covers. -/
def Argument.IsClosed : Argument → Prop
  | .static _ => True
  | .dynamic span raw => span.stop = span.start + byteLength ('[' :: raw.toList ++ [']'])

/-- A modifier stands directly behind an argument, with no dot before it. -/
def Name.Glued (modifier : Name) (argument : Argument) : Prop :=
  modifier.span.start = argument.span.stop

theorem Key.argumentAt_sameAs (offset offset' : Nat) (taken : List Char) :
    (argumentAt offset taken).SameAs (argumentAt offset' taken) := by
  unfold argumentAt
  split
  · exact .dynamic _ _
  · exact .static _ _

end Markup

namespace Rules.BindStyle

open Markup Key

/-! ## How a binding is written -/

/-- The three ways to write a binding. -/
inductive Form where
  | colon
  | dot
  | longform
  deriving DecidableEq

namespace Form

/-- What stands before the argument. -/
def opening : Form → List Char
  | colon => ":".toList
  | dot => ".".toList
  | longform => "v-bind:".toList

/-- The mark of a binding. -/
def mark? : Form → Option Char
  | colon => some ':'
  | dot => some '.'
  | longform => none

/-- The style that a form belongs to. -/
def style : Form → DirectiveStyle
  | colon => .shorthand
  | dot => .shorthand
  | longform => .longform

/-- The number of bytes of the name. -/
def nameLength : Form → Nat
  | colon => 1
  | dot => 1
  | longform => 6

/-- The modifiers that are not written. -/
def implied : Form → List String
  | dot => ["prop"]
  | _ => []

/-- The key of a binding, from what follows the opening of its form. -/
def key (form : Form) (start : Nat) (text : List Char) : DirectiveKey :=
  directiveFrom ⟨start, start + byteLength (form.opening ++ text)⟩ ⟨"bind", ⟨start, start + form.nameLength⟩⟩ form.mark? true
    (start + byteLength form.opening) text

/-- Where the argument starts. -/
def argumentStart (form : Form) (start : Nat) : Nat :=
  start + byteLength form.opening

variable {form form' : Form} {start : Nat} {taken rest taken' rest' : List Char}

/-- Behind the opening of a form a binding is read; a dot alone is a plain name. -/
theorem parse_opening (form : Form) (start : Nat) {text : List Char} (hne : text ≠ []) :
    Key.parse (form.opening ++ text) start false = .directive (form.key start text) := by
  cases form with
  | colon => rfl
  | longform => rfl
  | dot =>
    cases text with
    | nil => exact absurd rfl hne
    | cons c text => rfl

/-- A binding with an argument is written in one of the forms, and its argument ends in front of the modifiers. -/
theorem exists_form {raw : List Char} {key : DirectiveKey} {argument : Argument} (h : Written start raw key)
    (hname : key.name.text = "bind") (hargument : key.argument = some argument) :
    ∃ (form : Form) (taken rest : List Char), raw = form.opening ++ (taken ++ rest) ∧ EndsBefore taken rest ∧
      key = form.key start (taken ++ rest) := by
  suffices hform : ∃ (form : Form) (text : List Char), raw = form.opening ++ text ∧ key = form.key start text by
    obtain ⟨form, text, rfl, rfl⟩ := hform
    obtain ⟨taken, rest, rfl, hends, -⟩ := exists_endsBefore hargument
    exact ⟨form, taken, rest, rfl, hends, rfl⟩
  cases h with
  | @marked mark name rest hmark =>
    obtain rfl : name = "bind" := hname
    obtain rfl | rfl : mark = ':' ∨ mark = '.' := by
      unfold Key.shorthandName? at hmark
      split at hmark <;> simp_all
    · exact ⟨colon, rest, rfl, rfl⟩
    · exact ⟨dot, rest, rfl, rfl⟩
  | @argued name rest _ _ =>
    have hname : String.ofList name = "bind" := hname
    obtain rfl : name = "bind".toList := by rw [← hname, String.toList_ofList]
    exact ⟨longform, rest, rfl, rfl⟩
  | bare _ _ _ => cases hargument

section

variable (form start)

/-- The argument of a binding is read from its text. -/
theorem key_argument (h : EndsBefore taken rest) :
    (form.key start (taken ++ rest)).argument = some (argumentAt (form.argumentStart start) taken) := by
  have hread := readArgument_append h (form.argumentStart start)
  rw [key, directiveFrom, if_pos rfl, ← argumentStart, hread]

/-- The modifiers of a binding are those that its form implies and those behind the argument. -/
theorem key_modifiers (h : EndsBefore taken rest) :
    (form.key start (taken ++ rest)).modifiers = (form.implied.map fun text => ⟨text, ⟨start, start⟩⟩) ++
      dotted (form.argumentStart start + byteLength taken) [] rest := by
  have hread := readArgument_append h (form.argumentStart start)
  rw [key, directiveFrom, if_pos rfl, ← argumentStart, hread]
  cases form <;> rfl

theorem key_modifiers_texts (h : EndsBefore taken rest) :
    (form.key start (taken ++ rest)).modifiers.map (·.text) = form.implied ++ words rest := by
  rw [key_modifiers form start h, List.map_append, List.map_map, dotted_texts _ List.not_mem_nil]
  simp [Function.comp_def]

end

/-- Two bindings bind the same when they are read from the same argument and the same words. -/
theorem bindsSame_iff_of_endsBefore (h : EndsBefore taken rest) (h' : EndsBefore taken' rest') :
    (form.key start (taken ++ rest)).BindsSame (form'.key start (taken' ++ rest')) ↔
      (argumentAt (form.argumentStart start) taken).SameAs (argumentAt (form'.argumentStart start) taken') ∧
        (form'.implied ++ words rest').Perm (form.implied ++ words rest) := by
  rw [← key_modifiers_texts form start h, ← key_modifiers_texts form' start h']
  constructor
  · rintro ⟨⟨argument, hargument, argument', hargument', hsame⟩, hperm⟩
    rw [key_argument form start h] at hargument
    rw [key_argument form' start h'] at hargument'
    obtain rfl := Option.some.inj hargument
    obtain rfl := Option.some.inj hargument'
    exact ⟨hsame, hperm⟩
  · rintro ⟨hsame, hperm⟩
    exact ⟨⟨_, key_argument form start h, _, key_argument form' start h', hsame⟩, hperm⟩

/-- Bindings with one argument bind the same when they have the same words. -/
theorem bindsSame_iff_perm (h : EndsBefore taken rest) (h' : EndsBefore taken rest') :
    (form.key start (taken ++ rest)).BindsSame (form'.key start (taken ++ rest')) ↔
      (form'.implied ++ words rest').Perm (form.implied ++ words rest) := by
  rw [bindsSame_iff_of_endsBefore h h', and_iff_right (argumentAt_sameAs _ _ taken)]

/-- A binding whose brackets hold another text binds something else. -/
theorem not_bindsSame_of_inner (inner : List Char) {text : List Char} (hargument : EndsBefore taken rest)
    (hinner : argumentAt (form.argumentStart start) taken =
      .dynamic ⟨form.argumentStart start, form.argumentStart start + byteLength taken⟩ (String.ofList inner))
    (hne : text.takeWhile (· != ']') ≠ inner) :
    ¬ (form.key start (taken ++ rest)).BindsSame (form'.key start ('[' :: text)) := by
  rintro ⟨⟨argument, hfound, argument', hfound', hsame⟩, -⟩
  obtain ⟨span, hread⟩ := readArgument_bracket (form'.argumentStart start) text
  rw [key_argument form start hargument, hinner] at hfound
  obtain rfl := Option.some.inj hfound
  have hfound' : (readArgument (form'.argumentStart start) ('[' :: text)).1 = some argument' := hfound'
  rw [hread] at hfound'
  obtain rfl := Option.some.inj hfound'
  generalize hraw : String.ofList (text.takeWhile (· != ']')) = raw' at hsame
  cases hsame
  exact hne (String.ofList_injective hraw)

end Form

/-! ## How the rule rewrites a binding -/

/-- A binding is written in a style. -/
structure WrittenIn (style : DirectiveStyle) (raw : List Char) (key : DirectiveKey) : Prop where
  form : ∃ form : Form, form.style = style ∧ form.opening <+: raw ∧ key.shorthand = form.mark?

/-- What a binding becomes in the other style: its new form and what then stands behind the opening. -/
inductive Rewrites (start : Nat) (taken : List Char) : List Char → Form → Form → List Char → Prop where
  /-- No modifier gives way to a mark. -/
  | marked {rest : List Char} (hnone : writtenProp? (Form.longform.key start (taken ++ rest)) = none) :
      Rewrites start taken rest .longform .colon (taken ++ rest)
  /-- A `prop` behind a dot gives way to the mark, and the dot with it. -/
  | absorbed {front back : List Char} {prop : Name}
      (hprop : writtenProp? (Form.longform.key start (taken ++ (front ++ '.' :: ("prop".toList ++ back)))) = some prop)
      (hspan : prop.span = ⟨Form.longform.argumentStart start + byteLength (taken ++ (front ++ ['.'])),
        Form.longform.argumentStart start + byteLength (taken ++ (front ++ ['.'])) + 4⟩)
      (hback : back = [] ∨ ∃ later, back = '.' :: later) :
      Rewrites start taken (front ++ '.' :: ("prop".toList ++ back)) .longform .dot (taken ++ (front ++ back))
  /-- A `prop` behind brackets gives way to the mark, and the closing bracket with it. -/
  | unbracketed {inner back : List Char} {prop : Name} (htaken : taken = '[' :: inner ++ [']']) (hinner : ']' ∉ inner)
      (hprop : writtenProp? (Form.longform.key start (taken ++ ("prop".toList ++ back))) = some prop)
      (hspan : prop.span = ⟨Form.longform.argumentStart start + byteLength taken,
        Form.longform.argumentStart start + byteLength taken + 4⟩)
      (hback : back = [] ∨ ∃ later, back = '.' :: later) :
      Rewrites start taken ("prop".toList ++ back) .longform .dot ('[' :: inner ++ back)
  /-- The directive is written out before the colon. -/
  | named {rest : List Char} : Rewrites start taken rest .colon .longform (taken ++ rest)
  /-- The directive is written out, and the modifier that the mark implies. -/
  | spelled {rest : List Char} : Rewrites start taken rest .dot .longform (taken ++ (".prop".toList ++ rest))

section

variable {form form' : Form} {start : Nat} {taken rest text' : List Char}

/-- A binding that is written out has a rewriting with a mark. -/
theorem exists_rewrites_longform (h : EndsBefore taken rest) (start : Nat) :
    ∃ (form' : Form) (text' : List Char), form'.style = .shorthand ∧ Rewrites start taken rest .longform form' text' := by
  cases hfound : writtenProp? (Form.longform.key start (taken ++ rest)) with
  | none => exact ⟨.colon, _, rfl, .marked hfound⟩
  | some prop =>
    obtain ⟨hmem, htest⟩ := And.intro (List.mem_of_find?_eq_some hfound) (List.find?_some hfound)
    have htext : prop.text = "prop" := by
      simp only [Bool.and_eq_true, beq_iff_eq] at htest
      exact htest.1
    rw [Form.key_modifiers .longform start h] at hmem
    obtain ⟨before, after, hrest, hspan, hbefore, hafter⟩ := standsBetweenDots_of_mem_dotted hmem
    have hrest : rest = before ++ ("prop".toList ++ after) := by rw [← htext]; exact hrest
    rw [htext] at hspan
    rcases hbefore with rfl | ⟨front, rfl⟩
    · obtain rfl : rest = "prop".toList ++ after := hrest
      cases h with
      | name _ _ _ hdot => rcases hdot with hdot | ⟨later, hdot⟩ <;> cases hdot
      | closed _ hinner => exact ⟨.dot, _, rfl, .unbracketed rfl hinner hfound hspan hafter⟩
    · obtain rfl : rest = front ++ '.' :: ("prop".toList ++ after) := by simpa using hrest
      refine ⟨.dot, _, rfl, .absorbed hfound (hspan.trans ?_) hafter⟩
      rw [byteLength_append taken, Nat.add_assoc]
      rfl

theorem Rewrites.text_ne_nil (h : Rewrites start taken rest form form' text') (hends : EndsBefore taken rest) : text' ≠ [] := by
  cases h <;> simp [hends.taken_ne_nil]

/-- A binding in the other style has a rewriting. -/
theorem exists_rewrites {style : DirectiveStyle} (h : EndsBefore taken rest) (start : Nat) (hne : form.style ≠ style) :
    ∃ (form' : Form) (text' : List Char), form'.style = style ∧ Rewrites start taken rest form form' text' := by
  cases style with
  | shorthand =>
    cases form with
    | longform => exact exists_rewrites_longform h start
    | colon => exact absurd rfl hne
    | dot => exact absurd rfl hne
  | longform =>
    cases form with
    | longform => exact absurd rfl hne
    | colon => exact ⟨.longform, _, rfl, .named⟩
    | dot => exact ⟨.longform, _, rfl, .spelled⟩

end

/-! ## The edits of the rule -/

section

variable (languages) {style : DirectiveStyle} {key : DirectiveKey} {message : String} (id : NodeId) (attr : Attribute)
  (before old kept old' rest : List Char) (replacement replacement' : String)

/-- A report with one edit, and the text that the edit gives. -/
theorem check_of_restyle?_add
    (h : ∀ draft, restyle? style key draft =
      some (message, draft.add ⟨byteLength before, byteLength (before ++ old)⟩ replacement)) :
    ∃ report fix, check style (File.ofSource languages (before ++ (old ++ rest))) id attr key = [report] ∧ report.fix = some fix ∧
      (Fix.applyAll (before ++ (old ++ rest)) [fix]).output = before ++ (replacement.toList ++ rest) := by
  have happlied := Fix.applyAll_single before old rest replacement none
  rw [← byteLength_append] at happlied
  have hfits : byteLength (before ++ old) ≤ byteLength (before ++ (old ++ rest)) := by
    simp only [byteLength_append]
    omega
  generalize before ++ (old ++ rest) = source at happlied hfits ⊢
  have hbuild := @FixDraft.build?_add_of_le (File.ofSource languages source).draft rfl rfl
    ⟨byteLength before, byteLength (before ++ old)⟩ hfits replacement
  exact ⟨_, _, by rw [check, h], hbuild, happlied⟩

/-- A report with two edits, and the text that they give. -/
theorem check_of_restyle?_add_add
    (h : ∀ draft, restyle? style key draft =
      some (message, (draft.add ⟨byteLength before, byteLength (before ++ old)⟩ replacement).add
        ⟨byteLength (before ++ (old ++ kept)), byteLength (before ++ (old ++ (kept ++ old')))⟩ replacement')) :
    ∃ report fix, check style (File.ofSource languages (before ++ (old ++ (kept ++ (old' ++ rest))))) id attr key = [report] ∧
      report.fix = some fix ∧ (Fix.applyAll (before ++ (old ++ (kept ++ (old' ++ rest)))) [fix]).output =
        before ++ (replacement.toList ++ (kept ++ (replacement'.toList ++ rest))) := by
  have happlied := Fix.applyAll_pair before old kept old' rest replacement replacement' none
  have hfits : byteLength (before ++ (old ++ (kept ++ old'))) ≤ byteLength (before ++ (old ++ (kept ++ (old' ++ rest)))) := by
    simp only [byteLength_append]
    omega
  have hfirst : byteLength before ≤ byteLength (before ++ old) := by simp
  have hapart : byteLength (before ++ old) ≤ byteLength (before ++ (old ++ kept)) := by
    simp only [byteLength_append]
    omega
  have hsecond : byteLength (before ++ (old ++ kept)) ≤ byteLength (before ++ (old ++ (kept ++ old'))) := by
    simp only [byteLength_append]
    omega
  generalize before ++ (old ++ (kept ++ (old' ++ rest))) = source at happlied hfits ⊢
  have hbuild := @FixDraft.build?_add_add_of_le (File.ofSource languages source).draft rfl rfl
    ⟨byteLength before, byteLength (before ++ old)⟩
    ⟨byteLength (before ++ (old ++ kept)), byteLength (before ++ (old ++ (kept ++ old')))⟩ hfirst hapart hsecond hfits
    replacement replacement'
  exact ⟨_, _, by rw [check, h], hbuild, happlied⟩

end

section

variable {form form' : Form} {taken rest text' : List Char}

/-- The edits that write a binding with a mark. -/
theorem restyle?_shorthand (h : EndsBefore taken rest) (start : Nat) (draft : FixDraft) :
    restyle? .shorthand (Form.longform.key start (taken ++ rest)) draft = some ("unexpectedLonghand",
      shorten (Form.longform.key start (taken ++ rest)) (argumentAt (Form.longform.argumentStart start) taken) draft) := by
  unfold restyle?
  rw [Form.key_argument .longform start h]
  rfl

/-- The edit that writes out a binding with a colon. -/
theorem restyle?_colon (h : EndsBefore taken rest) (start : Nat) (draft : FixDraft) :
    restyle? .longform (Form.colon.key start (taken ++ rest)) draft =
      some ("expectedLonghand", draft.add ⟨start, start⟩ "v-bind") := by
  unfold restyle?
  rw [Form.key_argument .colon start h]
  rfl

/-- The edits that write out a binding with a dot. -/
theorem restyle?_dot (h : EndsBefore taken rest) (before : List Char) (draft : FixDraft) :
    restyle? .longform (Form.dot.key (byteLength before) (taken ++ rest)) draft = some ("expectedLonghandForProp",
      (draft.add ⟨byteLength before, byteLength (before ++ ".".toList)⟩ "v-bind:").add
        ⟨byteLength (before ++ (".".toList ++ taken)), byteLength (before ++ (".".toList ++ taken))⟩ ".prop") := by
  have hspan : (argumentAt (Form.dot.argumentStart (byteLength before)) taken).span =
      ⟨byteLength (before ++ ".".toList), byteLength (before ++ (".".toList ++ taken))⟩ := by
    rw [argumentAt_span, byteLength_append, byteLength_append, byteLength_append, ← Nat.add_assoc]
    rfl
  have hfirst : byteLength before ≤ byteLength (before ++ ".".toList) := by simp
  rw [← FixDraft.replaceBetween_of_le hfirst draft "v-bind:"]
  unfold restyle?
  rw [Form.key_argument .dot (byteLength before) h, Option.bind_eq_bind, Option.bind_some, hspan]
  rfl

/-- A `prop` gives way to the mark together with the character before it. -/
theorem shorten_of_written (before : List Char) {key : DirectiveKey} {argument : Argument} {prop : Name} {gap : Char}
    {kept : List Char} (hstart : key.span.start = byteLength before)
    (hargument : argument.span.start = byteLength (before ++ "v-bind:".toList)) (hprop : writtenProp? key = some prop)
    (hgap : gap.utf8Size = 1)
    (hspan : prop.span = ⟨byteLength (before ++ ("v-bind:".toList ++ (kept ++ [gap]))),
      byteLength (before ++ ("v-bind:".toList ++ (kept ++ [gap]))) + 4⟩) (draft : FixDraft) :
    shorten key argument draft =
      (draft.add ⟨byteLength before, byteLength (before ++ "v-bind:".toList)⟩ ".").add
        ⟨byteLength (before ++ ("v-bind:".toList ++ kept)),
          byteLength (before ++ ("v-bind:".toList ++ (kept ++ gap :: "prop".toList)))⟩ "" := by
  have hfirst : byteLength before ≤ byteLength (before ++ "v-bind:".toList) := by simp
  have hprop_size : byteLength "prop".toList = 4 := rfl
  have hback : prop.span.start - 1 = byteLength (before ++ ("v-bind:".toList ++ kept)) := by
    simp only [hspan, byteLength_append, byteLength_cons, byteLength_nil, hgap]
    omega
  have hstop : prop.span.stop = byteLength (before ++ ("v-bind:".toList ++ (kept ++ gap :: "prop".toList))) := by
    simp only [hspan, byteLength_append, byteLength_cons, byteLength_nil, hgap, hprop_size]
    omega
  have hsecond : byteLength (before ++ ("v-bind:".toList ++ kept)) ≤
      byteLength (before ++ ("v-bind:".toList ++ (kept ++ gap :: "prop".toList))) := by
    simp only [byteLength_append]
    omega
  rw [shorten, hprop, hstart, hargument]
  dsimp only
  rw [FixDraft.removeBetween, hback, hstop, FixDraft.replaceBetween_of_le hfirst, FixDraft.replaceBetween_of_le hsecond]

/-- The report about a binding with a `prop` that is written, and the text that its edits give. -/
theorem check_of_written (languages : Script.Languages) {before kept back : List Char}
    {gap : Char} {prop : Name} (h : EndsBefore taken rest)
    (htext : taken ++ rest = kept ++ gap :: ("prop".toList ++ back)) (hgap : gap.utf8Size = 1)
    (hprop : writtenProp? (Form.longform.key (byteLength before) (taken ++ rest)) = some prop)
    (hspan : prop.span = ⟨Form.longform.argumentStart (byteLength before) + byteLength (kept ++ [gap]),
      Form.longform.argumentStart (byteLength before) + byteLength (kept ++ [gap]) + 4⟩)
    (after : List Char) (id : NodeId) (attr : Attribute) :
    ∃ report fix, check .shorthand (File.ofSource languages (before ++ ("v-bind:".toList ++ (taken ++ rest) ++ after))) id attr
        (Form.longform.key (byteLength before) (taken ++ rest)) = [report] ∧ report.fix = some fix ∧
      (Fix.applyAll (before ++ ("v-bind:".toList ++ (taken ++ rest) ++ after)) [fix]).output =
        before ++ (".".toList ++ (kept ++ back) ++ after) := by
  have hargument : (argumentAt (Form.longform.argumentStart (byteLength before)) taken).span.start =
      byteLength (before ++ "v-bind:".toList) := by
    rw [argumentAt_span, byteLength_append]
    rfl
  have hplace : Form.longform.argumentStart (byteLength before) + byteLength (kept ++ [gap]) =
      byteLength (before ++ ("v-bind:".toList ++ (kept ++ [gap]))) := by
    rw [byteLength_append before, byteLength_append "v-bind:".toList, ← Nat.add_assoc]
    rfl
  rw [hplace] at hspan
  obtain ⟨report, fix, hcheck, hfix, happlied⟩ := check_of_restyle?_add_add languages id attr before "v-bind:".toList kept
    (gap :: "prop".toList) (back ++ after) "." "" fun draft => by
      rw [restyle?_shorthand h (byteLength before) draft, shorten_of_written before rfl hargument hprop hgap hspan draft]
  have hsource : before ++ ("v-bind:".toList ++ (taken ++ rest) ++ after) =
      before ++ ("v-bind:".toList ++ (kept ++ (gap :: "prop".toList ++ (back ++ after)))) := by
    rw [htext]
    simp
  rw [hsource]
  exact ⟨report, fix, hcheck, hfix, by rw [happlied]; simp⟩

/-- The rule reports a binding in the other style, and its fix makes the rewriting. -/
theorem check_of_rewrites {before : List Char} (h : Rewrites (byteLength before) taken rest form form' text')
    (hends : EndsBefore taken rest) (after : List Char) (id : NodeId) (attr : Attribute) :
    ∃ report fix, check form'.style (File.ofSource languages (before ++ (form.opening ++ (taken ++ rest) ++ after))) id attr
        (form.key (byteLength before) (taken ++ rest)) = [report] ∧ report.fix = some fix ∧
      (Fix.applyAll (before ++ (form.opening ++ (taken ++ rest) ++ after)) [fix]).output =
        before ++ (form'.opening ++ text' ++ after) := by
  unfold Form.opening Form.style
  cases h with
  | marked hnone =>
    have hfirst : byteLength before ≤ byteLength (before ++ "v-bind:".toList) := by simp
    have hstart : (argumentAt (Form.longform.argumentStart (byteLength before)) taken).span.start =
        byteLength (before ++ "v-bind:".toList) := by
      rw [argumentAt_span, byteLength_append]
      rfl
    have hrestyle : ∀ draft, restyle? .shorthand (Form.longform.key (byteLength before) (taken ++ rest)) draft =
        some ("unexpectedLonghand", draft.add ⟨byteLength before, byteLength (before ++ "v-bind:".toList)⟩ ":") := by
      intro draft
      rw [restyle?_shorthand hends, shorten, hnone, hstart, ← FixDraft.replaceBetween_of_le hfirst]
      rfl
    have hcheck := check_of_restyle?_add languages id attr before "v-bind:".toList (taken ++ (rest ++ after)) ":" hrestyle
    simpa only [List.append_assoc] using hcheck
  | @absorbed front back prop hprop hspan hback =>
    have htext : taken ++ (front ++ '.' :: ("prop".toList ++ back)) = (taken ++ front) ++ '.' :: ("prop".toList ++ back) := by
      simp
    have hcheck := check_of_written languages hends htext rfl hprop (by simpa using hspan) after id attr
    simpa only [List.append_assoc, List.nil_append] using hcheck
  | @unbracketed inner back prop htaken _ hprop hspan hback =>
    have htext : taken ++ ("prop".toList ++ back) = ('[' :: inner) ++ ']' :: ("prop".toList ++ back) := by
      simp [htaken]
    have hcheck := check_of_written languages hends htext rfl hprop (by simpa [htaken] using hspan) after id attr
    simpa only [List.append_assoc, List.nil_append] using hcheck
  | named =>
    have hcheck := check_of_restyle?_add languages id attr before []
      (":".toList ++ (taken ++ (rest ++ after))) "v-bind" fun draft => by
      rw [List.append_nil]
      exact restyle?_colon hends (byteLength before) draft
    have hopening : "v-bind:".toList = "v-bind".toList ++ ":".toList := rfl
    simpa only [hopening, List.append_assoc, List.nil_append] using hcheck
  | spelled =>
    have hcheck := check_of_restyle?_add_add languages id attr before ".".toList taken [] (rest ++ after) "v-bind:" ".prop"
      fun draft => by
        rw [List.append_nil]
        exact restyle?_dot hends before draft
    simpa only [List.append_assoc, List.nil_append] using hcheck

end

/-- The rule is silent about a binding in the style. -/
theorem check_key_self (form : Form) (start : Nat) (text : List Char) (file : File) (id : NodeId) (attr : Attribute) :
    check form.style file id attr (form.key start text) = [] := by
  have hmark : (form.key start text).shorthand = form.mark? := rfl
  have hsilent : restyle? form.style (form.key start text) file.draft = none := by
    unfold restyle?
    rw [hmark]
    cases (form.key start text).argument with
    | none => rfl
    | some argument => cases form <;> rfl
  rw [check, hsilent]

/-! ## Which rewritings bind the same -/

/-- Nothing that the edits take away or separate from the argument is glued to it: a `prop` that gives way to the mark
only if it ends the key, and no modifier behind which `.prop` would be put; there the argument has to be closed, too. -/
structure Restylable (style : DirectiveStyle) (key : DirectiveKey) (argument : Argument) : Prop where
  shorten : style = .shorthand → ∀ prop ∈ writtenProp? key, prop.Glued argument → prop.span.stop = key.span.stop
  lengthen : style = .longform → key.shorthand = some '.' →
    argument.IsClosed ∧ ∀ modifier ∈ key.modifiers, ¬ modifier.Glued argument

section

variable {form form' : Form} {start : Nat} {taken rest text' : List Char}

/-- A rewriting that keeps what is read behind the argument is one of a restylable binding. -/
theorem restylable_of_none (hnone : writtenProp? (Form.longform.key start (taken ++ rest)) = none) (argument : Argument) :
    Restylable .shorthand (Form.longform.key start (taken ++ rest)) argument := by
  refine ⟨fun _ prop hprop => ?_, nofun⟩
  rw [hnone] at hprop
  cases hprop

/-- In front of a text with the dot and the `prop` behind it taken out, an argument ends where it did. -/
theorem endsBefore_without_prop {front back : List Char} (h : EndsBefore taken (front ++ '.' :: ("prop".toList ++ back)))
    (hback : back = [] ∨ ∃ later, back = '.' :: later) : EndsBefore taken (front ++ back) := by
  generalize hrest : front ++ '.' :: ("prop".toList ++ back) = rest at h
  cases h with
  | closed _ hinner => exact .closed _ hinner
  | unclosed _ => simp at hrest
  | name hne hbracket hdot hstop =>
    refine .name hne hbracket hdot ?_
    cases front with
    | nil => exact hback
    | cons c front =>
      rcases hstop with rfl | ⟨later, rfl⟩
      · cases hrest
      · obtain ⟨rfl, -⟩ := List.cons.inj hrest
        exact Or.inr ⟨front ++ back, rfl⟩

/-- The words around a `prop` that is taken out with the dot before it. -/
theorem words_without_prop (front : List Char) {back : List Char} (hback : back = [] ∨ ∃ later, back = '.' :: later) :
    (["prop"] ++ words (front ++ back)).Perm (words (front ++ '.' :: ("prop".toList ++ back))) := by
  have hprop : words "prop".toList = ["prop"] := words_of_notMem (by decide) (by decide)
  rcases hback with rfl | ⟨later, rfl⟩
  · rw [List.append_nil, List.append_nil, words_append_dot, hprop]
    exact List.perm_append_comm
  · rw [words_append_dot, words_append_dot, words_append_dot, hprop, ← List.append_assoc, ← List.append_assoc]
    exact List.perm_append_comm.append_right _

/-- The words behind an argument with `.prop` put between them. -/
theorem words_with_prop_iff (rest : List Char) :
    (words (".prop".toList ++ rest)).Perm (["prop"] ++ words rest) ↔ rest = [] ∨ ∃ later, rest = '.' :: later := by
  have hprop : words "prop".toList = ["prop"] := words_of_notMem (by decide) (by decide)
  have hdot : words (".prop".toList ++ rest) = words ("prop".toList ++ rest) := words_dot _
  rw [hdot]
  constructor
  · intro hperm
    cases rest with
    | nil => exact Or.inl rfl
    | cons c rest =>
      by_cases hc : c = '.'
      · exact Or.inr ⟨rest, hc ▸ rfl⟩
      · have hglued := @length_words_append "prop".toList (c :: rest) (by decide) (by simpa using hc) (by simp)
        have hlength := hperm.length_eq
        rw [hglued] at hlength
        simp at hlength
  · rintro (rfl | ⟨later, rfl⟩)
    · rw [List.append_nil, hprop, words_nil, List.append_nil]
    · rw [words_append_dot, hprop, words_dot]

/-- A modifier of a binding with a dot is glued to the argument unless a dot, or nothing, stands there. -/
theorem not_glued_iff (h : EndsBefore taken rest) (start : Nat) :
    (∀ modifier ∈ (Form.dot.key start (taken ++ rest)).modifiers,
        ¬ modifier.Glued (argumentAt (Form.dot.argumentStart start) taken)) ↔
      rest = [] ∨ ∃ later, rest = '.' :: later := by
  have hstart : start < Form.dot.argumentStart start + byteLength taken := by
    have hmark : Form.dot.argumentStart start = start + 1 := rfl
    omega
  rw [← not_iff_not, ← exists_mem_dotted_start_iff (Form.dot.argumentStart start + byteLength taken),
    Form.key_modifiers .dot start h]
  simp only [Name.Glued, argumentAt_span]
  constructor
  · intro hglued
    push Not at hglued
    obtain ⟨modifier, hmodifier, hplace⟩ := hglued
    rcases List.mem_append.1 hmodifier with himplied | hwritten
    · obtain rfl : modifier = ⟨"prop", ⟨start, start⟩⟩ := by simpa [Form.implied] using himplied
      exact absurd hplace (Nat.ne_of_lt hstart)
    · exact ⟨modifier, hwritten, hplace⟩
  · rintro ⟨modifier, hwritten, hplace⟩ hnone
    exact hnone modifier (List.mem_append_right _ hwritten) hplace

/-- A closing bracket that is taken away leaves the same argument exactly when nothing follows it. -/
theorem bindsSame_without_bracket_iff {inner back : List Char} (hinner : ']' ∉ inner)
    (hback : back = [] ∨ ∃ later, back = '.' :: later) :
    (Form.longform.key start ('[' :: inner ++ [']'] ++ ("prop".toList ++ back))).BindsSame
      (Form.dot.key start ('[' :: inner ++ back)) ↔ back = [] := by
  have hends : EndsBefore ('[' :: inner ++ [']']) ("prop".toList ++ back) := .closed _ hinner
  have hinside : (inner ++ [']']).takeWhile (· != ']') = inner := (takeWhile_ne_append hinner []).1
  constructor
  · intro hsame
    rcases hback with rfl | ⟨later, rfl⟩
    · rfl
    · refine absurd hsame (Form.not_bindsSame_of_inner inner hends ?_ fun hread => ?_)
      · simp only [List.cons_append, argumentAt, hinside]
      · have hread : (inner ++ '.' :: later).takeWhile (· != ']') = inner := hread
        have hall : ∀ c ∈ inner, (c != ']') = true := fun c hc => bne_iff_ne.2 fun heq => hinner (heq ▸ hc)
        rw [List.takeWhile_append_of_pos hall] at hread
        simp at hread
  · rintro rfl
    have hunclosed : '[' :: inner ++ [] = ('[' :: inner) ++ ([] : List Char) := rfl
    refine (Form.bindsSame_iff_of_endsBefore hends (.unclosed hinner)).2 ⟨?_, ?_⟩
    · simp only [List.cons_append, argumentAt, hinside, (takeWhile_ne_of_notMem hinner).1]
      exact .dynamic _ _
    · have hprop : words ("prop".toList ++ []) = ["prop"] := words_of_notMem (by decide) (by decide)
      rw [hprop]
      exact List.Perm.refl _

/-- A closing bracket is taken away from a restylable binding only if nothing follows it. -/
theorem restylable_without_bracket_iff {back : List Char} {prop : Name}
    (hprop : writtenProp? (Form.longform.key start (taken ++ ("prop".toList ++ back))) = some prop)
    (hspan : prop.span = ⟨Form.longform.argumentStart start + byteLength taken,
      Form.longform.argumentStart start + byteLength taken + 4⟩) :
    Restylable .shorthand (Form.longform.key start (taken ++ ("prop".toList ++ back)))
      (argumentAt (Form.longform.argumentStart start) taken) ↔ back = [] := by
  have hglued : prop.Glued (argumentAt (Form.longform.argumentStart start) taken) := by
    rw [Name.Glued, hspan, argumentAt_span]
  have hstop : (Form.longform.key start (taken ++ ("prop".toList ++ back))).span.stop = prop.span.stop + byteLength back := by
    have hsize : byteLength "prop".toList = 4 := rfl
    rw [hspan]
    show start + byteLength (Form.longform.opening ++ (taken ++ ("prop".toList ++ back))) = _
    simp only [Form.argumentStart, byteLength_append, hsize]
    omega
  rw [← byteLength_eq_zero_iff]
  constructor
  · intro hrestylable
    have hends := hrestylable.shorten rfl prop hprop hglued
    omega
  · intro hnothing
    refine ⟨fun _ prop' hprop' _ => ?_, nofun⟩
    rw [hprop] at hprop'
    obtain rfl := Option.some.inj hprop'
    omega

/-- What is written out behind an argument stays apart from it if the argument is closed and no modifier is glued to it. -/
theorem bindsSame_with_prop_iff (hends : EndsBefore taken rest) :
    (Form.dot.key start (taken ++ rest)).BindsSame (Form.longform.key start (taken ++ (".prop".toList ++ rest))) ↔
      (argumentAt (Form.dot.argumentStart start) taken).IsClosed ∧ (rest = [] ∨ ∃ later, rest = '.' :: later) := by
  cases hends with
  | name hne hbracket hdot hrest =>
    have hnext : EndsBefore taken (".prop".toList ++ rest) := .name hne hbracket hdot (Or.inr ⟨_, rfl⟩)
    have hclosed : (argumentAt (Form.dot.argumentStart start) taken).IsClosed := by
      rw [argumentAt_name hbracket]
      trivial
    rw [Form.bindsSame_iff_perm (.name hne hbracket hdot hrest) hnext, and_iff_right hclosed]
    exact words_with_prop_iff rest
  | @closed inner rest hinner =>
    have hinside : (inner ++ [']']).takeWhile (· != ']') = inner := (takeWhile_ne_append hinner []).1
    have hclosed : (argumentAt (Form.dot.argumentStart start) ('[' :: inner ++ [']'])).IsClosed := by
      simp only [List.cons_append, argumentAt, hinside, Argument.IsClosed, String.toList_ofList]
    rw [Form.bindsSame_iff_perm (.closed rest hinner) (.closed _ hinner), and_iff_right hclosed]
    exact words_with_prop_iff rest
  | @unclosed inner hinner =>
    refine iff_of_false ?_ fun h => ?_
    · refine Form.not_bindsSame_of_inner inner (.unclosed hinner) ?_ fun hread => ?_
      · simp only [argumentAt, (takeWhile_ne_of_notMem hinner).1]
      · have hprop : ∀ c ∈ ".prop".toList, (c != ']') = true := by simp
        have hall : ∀ c ∈ inner ++ ".prop".toList, (c != ']') = true := by
          intro c hc
          rcases List.mem_append.1 hc with hc | hc
          · exact bne_iff_ne.2 fun heq => hinner (heq ▸ hc)
          · exact hprop c hc
        have hread : (inner ++ ".prop".toList).takeWhile (· != ']') = inner := by simpa using hread
        rw [List.takeWhile_eq_self_iff.2 hall] at hread
        simp at hread
    · have hclosed := h.1
      simp only [argumentAt, (takeWhile_ne_of_notMem hinner).1, Argument.IsClosed, String.toList_ofList, byteLength_append,
        byteLength_cons] at hclosed
      have hbracket : Char.utf8Size ']' = 1 := rfl
      omega

/-- A rewriting binds the same exactly when the binding is restylable. -/
theorem bindsSame_iff_of_rewrites (h : Rewrites start taken rest form form' text') (hends : EndsBefore taken rest) :
    (form.key start (taken ++ rest)).BindsSame (form'.key start text') ↔
      Restylable form'.style (form.key start (taken ++ rest)) (argumentAt (form.argumentStart start) taken) := by
  cases h with
  | marked hnone =>
    exact iff_of_true ((Form.bindsSame_iff_perm hends hends).2 (List.Perm.refl _)) (restylable_of_none hnone _)
  | @absorbed front back prop hprop hspan hback =>
    refine iff_of_true ?_ ⟨fun _ prop' hprop' hglued => ?_, nofun⟩
    · exact (Form.bindsSame_iff_perm hends (endsBefore_without_prop hends hback)).2 (words_without_prop front hback)
    · rw [hprop] at hprop'
      obtain rfl := Option.some.inj hprop'
      rw [Name.Glued, hspan, argumentAt_span] at hglued
      simp only [byteLength_append, byteLength_cons, byteLength_nil] at hglued
      have hdot : Char.utf8Size '.' = 1 := rfl
      omega
  | @unbracketed inner back prop htaken hinner hprop hspan hback =>
    refine Iff.trans ?_ (restylable_without_bracket_iff hprop hspan).symm
    rw [htaken]
    exact bindsSame_without_bracket_iff hinner hback
  | named =>
    exact iff_of_true ((Form.bindsSame_iff_perm hends hends).2 (List.Perm.refl _)) ⟨nofun, nofun⟩
  | spelled =>
    rw [bindsSame_with_prop_iff hends, ← not_glued_iff hends start]
    exact ⟨fun h => ⟨nofun, fun _ _ => h⟩, fun h => h.lengthen rfl rfl⟩

/-! ## The rule -/

/-- A fix writes a binding in a style: it is read as a binding with an argument, written in the style, and the rule is silent
about it. -/
structure Restyles (style : DirectiveStyle) (before raw after : List Char) (fix : Fix) (raw' : List Char)
    (key' : DirectiveKey) : Prop where
  output : (Fix.applyAll (before ++ (raw ++ after)) [fix]).output = before ++ (raw' ++ after)
  parsed : Key.parse raw' (byteLength before) false = .directive key'
  name : key'.name.text = "bind"
  written : WrittenIn style raw' key'
  silent : ∀ file id attr, check style file id attr key' = []

/-- A binding with an argument, wherever it stands: either the rule has nothing to report and the binding is written in the
style, or the fix of its report writes a binding in the style, which binds the same exactly when the old one is restylable. -/
theorem check_rewrites_iff (languages : Script.Languages) (style : DirectiveStyle) {before raw : List Char}
    (after : List Char) (id : NodeId)
    (attr : Attribute) {key : DirectiveKey} {argument : Argument}
    (hkey : Key.parse raw (byteLength before) false = .directive key) (hname : key.name.text = "bind")
    (hargument : key.argument = some argument) :
    (check style (File.ofSource languages (before ++ (raw ++ after))) id attr key = [] ∧ WrittenIn style raw key) ∨
      ∃ report fix raw' key', check style (File.ofSource languages (before ++ (raw ++ after))) id attr key = [report] ∧
        report.fix = some fix ∧ Restyles style before raw after fix raw' key' ∧
        (key.BindsSame key' ↔ Restylable style key argument) := by
  obtain ⟨form, taken, rest, rfl, hends, rfl⟩ := Form.exists_form (Key.parse_cases hkey) hname hargument
  rw [Form.key_argument form (byteLength before) hends] at hargument
  obtain rfl := Option.some.inj hargument
  by_cases heq : form.style = style
  · subst heq
    exact Or.inl ⟨check_key_self form _ _ _ id attr, form, rfl, List.prefix_append _ _, rfl⟩
  · obtain ⟨form', text', rfl, hrewrites⟩ := exists_rewrites hends (byteLength before) heq
    obtain ⟨report, fix, hcheck, hfix, happlied⟩ := check_of_rewrites hrewrites hends after id attr
    exact Or.inr ⟨report, fix, form'.opening ++ text', form'.key (byteLength before) text', hcheck, hfix,
      ⟨happlied, Form.parse_opening form' _ (hrewrites.text_ne_nil hends), rfl, ⟨form', rfl, List.prefix_append _ _, rfl⟩,
        check_key_self form' _ _⟩,
      bindsSame_iff_of_rewrites hrewrites hends⟩

end

/-- A property that is computed, with one modifier more. -/
def computedProperty : List Char :=
  "v-bind:[a].prop.x".toList

theorem check_rewrites_iff_computedProperty :
    ∃ key argument, Key.parse computedProperty (byteLength "<p ".toList) false = .directive key ∧ key.name.text = "bind" ∧
      key.argument = some argument ∧ Restylable .shorthand key argument ∧ ∃ report fix raw' key',
        check .shorthand (File.ofSource Script.Dialect.language ("<p ".toList ++ (computedProperty ++ "></p>".toList))) 1
          ⟨⟨3, 20⟩, .directive key, none⟩ key = [report] ∧
        report.fix = some fix ∧ Restyles .shorthand "<p ".toList computedProperty "></p>".toList fix raw' key' ∧
        key.BindsSame key' := by
  have hkey : Key.parse computedProperty (byteLength "<p ".toList) false =
      .directive (Form.longform.key 3 "[a].prop.x".toList) := rfl
  have hargument : (Form.longform.key 3 "[a].prop.x".toList).argument = some (.dynamic ⟨10, 13⟩ "a") := rfl
  have hrestylable : Restylable .shorthand (Form.longform.key 3 "[a].prop.x".toList) (.dynamic ⟨10, 13⟩ "a") := by
    refine ⟨fun _ prop hprop hglued => ?_, nofun⟩
    obtain rfl : (⟨"prop", ⟨14, 18⟩⟩ : Name) = prop := Option.some.inj hprop
    cases hglued
  refine ⟨_, _, hkey, rfl, hargument, hrestylable, ?_⟩
  have hcases := check_rewrites_iff Script.Dialect.language .shorthand "></p>".toList 1
    ⟨⟨3, 20⟩, .directive (Form.longform.key 3 "[a].prop.x".toList), none⟩ hkey rfl hargument
  obtain ⟨hsilent, -⟩ | ⟨report, fix, raw', key', hcheck, hfix, hrestyles, hsame⟩ := hcases
  · cases hsilent
  · exact ⟨report, fix, raw', key', hcheck, hfix, hrestyles, hsame.2 hrestylable⟩

/-- With a modifier directly behind brackets the closing one is taken for the dot, and the key is another one. -/
theorem not_bindsSame_modifierBehindBracket :
    ∃ key report fix key',
      Key.parse "v-bind:[a]prop.x".toList (byteLength "<p ".toList) false = .directive key ∧ key.name.text = "bind" ∧
      check .shorthand (File.ofSource Script.Dialect.language ("<p ".toList ++ ("v-bind:[a]prop.x".toList ++ "></p>".toList))) 1
        ⟨⟨3, 19⟩, .directive key, none⟩ key = [report] ∧ report.fix = some fix ∧
      (Fix.applyAll ("<p ".toList ++ ("v-bind:[a]prop.x".toList ++ "></p>".toList)) [fix]).output =
        "<p ".toList ++ (".[a.x".toList ++ "></p>".toList) ∧
      Key.parse ".[a.x".toList (byteLength "<p ".toList) false = .directive key' ∧
      key.argument = some (.dynamic ⟨10, 13⟩ "a") ∧ key'.argument = some (.dynamic ⟨4, 8⟩ "a.x") ∧ ¬ key.BindsSame key' := by
  have hwritten : writtenProp? (Form.longform.key 3 ("[a]".toList ++ "prop.x".toList)) = some ⟨"prop", ⟨13, 17⟩⟩ := rfl
  have hback : ".x".toList = [] ∨ ∃ later, ".x".toList = '.' :: later := Or.inr ⟨['x'], rfl⟩
  have hrewrites : Rewrites (byteLength "<p ".toList) "[a]".toList "prop.x".toList .longform .dot "[a.x".toList :=
    @Rewrites.unbracketed 3 "[a]".toList ['a'] ".x".toList ⟨"prop", ⟨13, 17⟩⟩ rfl (by decide) hwritten rfl hback
  have hends : EndsBefore "[a]".toList "prop.x".toList := @EndsBefore.closed ['a'] "prop.x".toList (by decide)
  obtain ⟨report, fix, hcheck, hfix, houtput⟩ := check_of_rewrites hrewrites hends "></p>".toList 1
    ⟨⟨3, 19⟩, .directive (Form.longform.key 3 "[a]prop.x".toList), none⟩
  refine ⟨Form.longform.key 3 "[a]prop.x".toList, report, fix, Form.dot.key 3 "[a.x".toList, rfl, rfl, hcheck, hfix, houtput,
    rfl, rfl, rfl, fun hsame => ?_⟩
  have hnothing := (@bindsSame_without_bracket_iff 3 ['a'] ".x".toList (by decide) hback).1 hsame
  cases hnothing

end Rules.BindStyle

end ComponentLint
