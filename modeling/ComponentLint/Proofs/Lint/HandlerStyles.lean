import ComponentLint.Proofs.Fix.Drafting
import ComponentLint.Proofs.Fix.Splice
import ComponentLint.Proofs.Markup.KeyParts
import ComponentLint.Proofs.Markup.Moving
import ComponentLint.Rules.DirectiveStyle

/-!
# Styles of handlers

A handler with an argument is written with `@` or with `v-on:`, and what follows is read in the same way behind both. So the
fix of the rule, which exchanges what stands before the argument, keeps the argument and the modifiers
(`check_restyles`).
-/

namespace ComponentLint

open Text

namespace Markup

variable {languages : Script.Languages}

/-! ## Keys that say the same -/

/-- Two arguments are of one kind and have one text, wherever they stand. -/
inductive Argument.SameAs : Argument → Argument → Prop where
  | static {text : String} (span span' : Span) : SameAs (.static ⟨text, span⟩) (.static ⟨text, span'⟩)
  | dynamic (span span' : Span) {raw : String} : SameAs (.dynamic span raw) (.dynamic span' raw)

theorem Argument.SameAs.of_shift (argument : Argument) (distance distance' : Nat) :
    (argument.shift distance).SameAs (argument.shift distance') := by
  cases argument with
  | static name => exact .static _ _
  | dynamic span raw => exact .dynamic _ _

/-- Two keys have the same argument and the same modifiers. -/
structure DirectiveKey.SaysSame (key key' : DirectiveKey) : Prop where
  argument : ∀ argument ∈ key.argument, ∃ argument' ∈ key'.argument, argument.SameAs argument'
  modifiers : key'.modifiers.map (·.text) = key.modifiers.map (·.text)

/-- What is read behind two names that imply nothing says the same, wherever it starts. -/
theorem Key.directiveFrom_saysSame {whole whole' : Span} {name name' : Name} {shorthand shorthand' : Option Char}
    {offset offset' : Nat} (text : List Char) (hmark : shorthand ≠ some '.') (hmark' : shorthand' ≠ some '.') :
    (directiveFrom whole name shorthand true offset text).SaysSame
      (directiveFrom whole' name' shorthand' true offset' text) := by
  have hread := readArgument_shift offset 0 text
  have hread' := readArgument_shift offset' 0 text
  rw [Nat.zero_add] at hread hread'
  constructor
  · intro argument hargument
    rw [directiveFrom, if_pos rfl, hread] at hargument
    obtain ⟨found, hfound, rfl⟩ := Option.mem_map.1 hargument
    refine ⟨found.shift offset', ?_, .of_shift found offset offset'⟩
    rw [directiveFrom, if_pos rfl, hread']
    exact Option.mem_map_of_mem _ hfound
  · have htexts : ∀ distance, ((dotted ((readArgument 0 text).2.1 + distance) [] (readArgument 0 text).2.2).map (·.text)) =
        (dotted (readArgument 0 text).2.1 [] (readArgument 0 text).2.2).map (·.text) := by
      intro distance
      rw [dotted_shift, List.map_map]
      rfl
    simp only [directiveFrom, if_true, hread, hread', beq_eq_false_iff_ne.2 hmark, beq_eq_false_iff_ne.2 hmark',
      Bool.false_eq_true, if_false, List.nil_append, htexts]

end Markup

namespace Rules

open Markup

/-! ## How a handler is written -/

/-- What stands before the argument of a handler. -/
def DirectiveStyle.opening : DirectiveStyle → List Char
  | .shorthand => "@".toList
  | .longform => "v-on:".toList

/-- The mark of a handler. -/
def DirectiveStyle.mark? : DirectiveStyle → Option Char
  | .shorthand => some '@'
  | .longform => none

/-- The key of a handler with an argument, from what follows the opening of its style. -/
def DirectiveStyle.handlerKey (style : DirectiveStyle) (start : Nat) (rest : List Char) : DirectiveKey :=
  let nameLength := match style with
    | .shorthand => 1
    | .longform => 4
  Key.directiveFrom ⟨start, start + byteLength (style.opening ++ rest)⟩ ⟨"on", ⟨start, start + nameLength⟩⟩ style.mark? true
    (start + byteLength style.opening) rest

namespace OnStyle

/-- A handler is written in a style: it starts as the style says, and is read as such. -/
structure WrittenIn (style : DirectiveStyle) (raw : List Char) (key : DirectiveKey) : Prop where
  opening : style.opening <+: raw
  mark : key.shorthand = style.mark?

variable {style : DirectiveStyle} {start : Nat} {raw rest : List Char} {key : DirectiveKey} {argument : Argument}

/-- Behind the opening of a style a handler is read. -/
theorem parse_opening (style : DirectiveStyle) (start : Nat) (rest : List Char) :
    Key.parse (style.opening ++ rest) start false = .directive (style.handlerKey start rest) := by
  cases style with
  | shorthand => rfl
  | longform => rfl

theorem handlerKey_writtenIn (style : DirectiveStyle) (start : Nat) (rest : List Char) :
    WrittenIn style (style.opening ++ rest) (style.handlerKey start rest) :=
  ⟨List.prefix_append style.opening rest, rfl⟩

/-- A handler with an argument is written in one of the styles. -/
theorem exists_style (h : Key.Written start raw key) (hname : key.name.text = "on") (hargument : key.argument = some argument) :
    ∃ style rest, raw = DirectiveStyle.opening style ++ rest ∧ key = style.handlerKey start rest := by
  cases h with
  | @marked mark name rest hmark =>
    obtain rfl : name = "on" := hname
    obtain rfl : mark = '@' := by
      unfold Key.shorthandName? at hmark
      split at hmark <;> simp_all
    exact ⟨.shorthand, rest, rfl, rfl⟩
  | @argued name rest _ _ =>
    have hname : String.ofList name = "on" := hname
    obtain rfl : name = "on".toList := by rw [← hname, String.toList_ofList]
    exact ⟨.longform, rest, rfl, rfl⟩
  | bare _ _ _ => cases hargument

/-- The argument of a handler stands behind the opening of its style. -/
theorem handlerKey_argument_start (h : (style.handlerKey start rest).argument = some argument) :
    argument.span.start = start + byteLength style.opening := by
  rcases Key.readArgument_cases (start + byteLength style.opening) rest with hread | ⟨read, taken, left, -, hreads, hread⟩
  · simp [DirectiveStyle.handlerKey, Key.directiveFrom, hread] at h
  · obtain rfl : read = argument := by simpa [DirectiveStyle.handlerKey, Key.directiveFrom, hread] using h
    rw [hreads.span_eq]

/-- What is read behind the openings of two styles says the same. -/
theorem handlerKey_saysSame (style style' : DirectiveStyle) (start : Nat) (rest : List Char) :
    (style.handlerKey start rest).SaysSame (style'.handlerKey start rest) := by
  have hmark : ∀ style : DirectiveStyle, style.mark? ≠ some '.' := by
    intro style
    cases style <;> decide
  exact Key.directiveFrom_saysSame rest (hmark style) (hmark style')

/-! ## The rule -/

/-- The rule is silent about a handler in the style. -/
theorem check_handlerKey_self (style : DirectiveStyle) (start : Nat) (rest : List Char) (file : File) (id : NodeId)
    (attr : Attribute) : check style file id attr (style.handlerKey start rest) = [] := by
  have hmark : (style.handlerKey start rest).shorthand = style.mark? := rfl
  have hsilent : restyle? style (style.handlerKey start rest) file.draft = none := by
    unfold restyle?
    rw [hmark]
    cases style <;> simp [DirectiveStyle.mark?]
  rw [check, hsilent]

/-- The rule exchanges the opening of a handler in the other style. -/
theorem restyle?_handlerKey_of_ne {style style' : DirectiveStyle} (hne : style' ≠ style)
    (hargument : (style'.handlerKey start rest).argument = some argument) (draft : FixDraft) :
    ∃ message, restyle? style (style'.handlerKey start rest) draft =
      some (message, draft.replace ⟨start, start + byteLength style'.opening⟩ (String.ofList style.opening)) := by
  have hmark : (style'.handlerKey start rest).shorthand = style'.mark? := rfl
  have hspan : (style'.handlerKey start rest).span.start = start := rfl
  unfold restyle?
  rw [hargument, hmark, hspan, Option.bind_eq_bind, Option.bind_some, handlerKey_argument_start hargument]
  cases style with
  | shorthand =>
    obtain rfl : style' = .longform := by cases style' <;> trivial
    exact ⟨"expectedShorthand", rfl⟩
  | longform =>
    obtain rfl : style' = .shorthand := by cases style' <;> trivial
    exact ⟨"expectedLonghand", rfl⟩

/-- The rule reports a handler in the other style, and its fix exchanges the openings. -/
theorem check_handlerKey_of_ne {style style' : DirectiveStyle} (hne : style' ≠ style) (before after : List Char) (id : NodeId)
    (attr : Attribute) (hargument : (style'.handlerKey (byteLength before) rest).argument = some argument) :
    ∃ report fix, check style (File.ofSource languages (before ++ (style'.opening ++ rest ++ after))) id attr
        (style'.handlerKey (byteLength before) rest) = [report] ∧ report.fix = some fix ∧
      (Fix.applyAll (before ++ (style'.opening ++ rest ++ after)) [fix]).output = before ++ (style.opening ++ rest ++ after) := by
  rw [List.append_assoc, List.append_assoc]
  generalize hsource : before ++ (style'.opening ++ (rest ++ after)) = source
  obtain ⟨message, hrestyle⟩ := restyle?_handlerKey_of_ne hne hargument (File.ofSource languages source).draft
  have hfits : byteLength before + byteLength style'.opening ≤ byteLength source := by
    rw [← hsource]
    simp only [byteLength_append]
    omega
  have hbuild := @FixDraft.build?_add_of_le (File.ofSource languages source).draft rfl rfl
    ⟨byteLength before, byteLength before + byteLength style'.opening⟩ hfits (String.ofList style.opening)
  refine ⟨_, _, by rw [check, hrestyle], hbuild, ?_⟩
  rw [← hsource, Fix.applyAll_single, String.toList_ofList]

/-- An edit writes a handler in a style: it is read as a handler with the same argument and the same modifiers, and the rule
is silent about it. -/
structure Restyles (style : DirectiveStyle) (before raw after : List Char) (key : DirectiveKey) (fix : Fix) (raw' : List Char)
    (key' : DirectiveKey) : Prop where
  output : (Fix.applyAll (before ++ (raw ++ after)) [fix]).output = before ++ (raw' ++ after)
  parsed : Key.parse raw' (byteLength before) false = .directive key'
  name : key'.name.text = "on"
  written : WrittenIn style raw' key'
  same : key.SaysSame key'
  silent : ∀ file id attr, check style file id attr key' = []

/-- A handler with an argument, wherever it stands: either the rule has nothing to report and the handler is written in the
style, or the fix of its report writes it in the style. -/
theorem check_restyles (style : DirectiveStyle) (before after : List Char) (id : NodeId) (attr : Attribute)
    (hkey : Key.parse raw (byteLength before) false = .directive key) (hname : key.name.text = "on")
    (hargument : key.argument = some argument) :
    (check style (File.ofSource languages (before ++ (raw ++ after))) id attr key = [] ∧ WrittenIn style raw key) ∨
      ∃ report fix raw' key', check style (File.ofSource languages (before ++ (raw ++ after))) id attr key = [report] ∧
        report.fix = some fix ∧ Restyles style before raw after key fix raw' key' := by
  obtain ⟨style', rest, rfl, rfl⟩ := exists_style (Key.parse_cases hkey) hname hargument
  by_cases heq : style' = style
  · subst heq
    exact Or.inl ⟨check_handlerKey_self style' _ rest _ id attr, handlerKey_writtenIn style' _ rest⟩
  · obtain ⟨report, fix, hcheck, hfix, happlied⟩ := check_handlerKey_of_ne heq before after id attr hargument
    exact Or.inr ⟨report, fix, style.opening ++ rest, style.handlerKey (byteLength before) rest, hcheck, hfix, happlied,
      parse_opening style _ rest, rfl, handlerKey_writtenIn style _ rest, handlerKey_saysSame style' style _ rest,
      check_handlerKey_self style _ rest⟩

/-- A handler for an event that is computed, with a dot in its brackets and a modifier behind them. -/
def computedEvent : List Char :=
  "v-on:[a.b].stop".toList

theorem check_restyles_computedEvent :
    ∃ key argument, Key.parse computedEvent (byteLength "<p ".toList) false = .directive key ∧ key.name.text = "on" ∧
      key.argument = some argument ∧ ∃ report fix raw' key',
        check .shorthand (File.ofSource Script.Dialect.language ("<p ".toList ++ (computedEvent ++ "></p>".toList))) 1
          ⟨⟨3, 18⟩, .directive key, none⟩
          key = [report] ∧
        report.fix = some fix ∧ Restyles .shorthand "<p ".toList computedEvent "></p>".toList key fix raw' key' := by
  refine ⟨_, _, rfl, rfl, rfl, ?_⟩
  refine (check_restyles .shorthand "<p ".toList "></p>".toList 1 ⟨⟨3, 18⟩, _, none⟩ rfl rfl rfl).resolve_left ?_
  rintro ⟨hsilent, -⟩
  cases hsilent

end OnStyle

end Rules

end ComponentLint
