import ComponentLint.Proofs.Markup.Positions
import ComponentLint.Proofs.Markup.Tiling
import Mathlib.Data.List.TakeWhile

/-!
# The parts of a key

The text of a directive falls into its name, an argument and modifiers; what stands between them is a dot, or the colon
behind a name that is written out. `Key.Layout` lays parts over a text, each with the characters it spells, and
`DirectiveKey.Tiles` is what follows for a key: its spans are in order, they spell what the key says, and nothing else is
left of the text but marks.
-/

namespace ComponentLint

open Text

/-- A span cuts a part out of a text that starts at an offset. -/
def Text.Spells (text : List Char) (start : Nat) (span : Span) (part : List Char) : Prop :=
  ∃ inner : Span, slice? text inner = some part ∧ span = inner.shift start

/-- What stands behind a part at the front of a text is spelled where that part ends. -/
theorem Text.Spells.of_parts (start : Nat) (before part after : List Char) :
    Spells (before ++ (part ++ after)) start
      ⟨start + byteLength before, start + byteLength before + byteLength part⟩ part := by
  refine ⟨⟨byteLength before, byteLength before + byteLength part⟩, ?_, ?_⟩
  · exact slice?_eq_some_iff.2 ⟨⟨before, after, rfl, rfl⟩, rfl⟩
  · simp only [Span.shift, Span.mk.injEq]
    omega

namespace Markup

/-! ## Laying parts over a text -/

/-- The bytes of a part and the characters it spells. -/
structure Key.Part where
  span : Span
  chars : List Char

/-- A name is the part that spells it. -/
def Name.part (name : Name) : Key.Part :=
  ⟨name.span, name.text.toList⟩

namespace Key

/-- Parts laid over a stretch of text that starts at an offset; a character that belongs to no part is a `gap`. -/
inductive Layout (gap : Nat → Char → Prop) : Nat → List Char → List Part → Prop where
  | done (start : Nat) : Layout gap start [] []
  | skip {start : Nat} {c : Char} {rest : List Char} {parts : List Part} (hgap : gap start c)
      (hrest : Layout gap (start + c.utf8Size) rest parts) : Layout gap start (c :: rest) parts
  | part {start : Nat} {chars rest : List Char} {parts : List Part} (hne : chars ≠ [])
      (hrest : Layout gap (start + byteLength chars) rest parts) :
      Layout gap start (chars ++ rest) (⟨⟨start, start + byteLength chars⟩, chars⟩ :: parts)

namespace Layout

variable {gap gap' : Nat → Char → Prop} {start : Nat} {text : List Char} {parts : List Part}

/-- More characters may count as gaps. -/
theorem mono (h : Layout gap start text parts) (hsub : ∀ offset c, gap offset c → gap' offset c) :
    Layout gap' start text parts := by
  induction h with
  | done start => exact done start
  | skip hgap _ ih => exact skip (hsub _ _ hgap) ih
  | part hne _ ih => exact part hne ih

/-- Without what they spell, the parts are tokens that tile the text. -/
theorem tiling (h : Layout gap start text parts) :
    Tiling gap start text (parts.map fun part => ⟨.attributeName, part.span⟩) := by
  induction h with
  | done start => exact .done start
  | skip hgap _ ih => exact .skip hgap ih
  | part hne _ ih => exact .token .attributeName hne ih

/-- Each part ends where a later one starts, or before. -/
theorem pairwise (h : Layout gap start text parts) : (parts.map Part.span).Pairwise fun a b => a.stop ≤ b.start := by
  have htokens := h.tiling.pairwise
  rw [List.pairwise_map] at htokens ⊢
  exact htokens

/-- A part lies inside the text. -/
theorem within (h : Layout gap start text parts) :
    ∀ part ∈ parts, start ≤ part.span.start ∧ part.span.start < part.span.stop ∧
      part.span.stop ≤ start + byteLength text := by
  intro part hpart
  exact h.tiling.token_within _ (List.mem_map_of_mem hpart)

/-- A part spells its characters. -/
theorem spells (h : Layout gap start text parts) :
    ∀ part ∈ parts, Spells text start part.span part.chars ∧ part.chars ≠ [] := by
  suffices hparts : ∀ part ∈ parts, ∃ before after, text = before ++ (part.chars ++ after) ∧
      part.span = ⟨start + byteLength before, start + byteLength before + byteLength part.chars⟩ ∧ part.chars ≠ [] by
    intro part hpart
    obtain ⟨before, after, rfl, hspan, hne⟩ := hparts part hpart
    exact ⟨hspan ▸ Spells.of_parts start before part.chars after, hne⟩
  induction h with
  | done => simp
  | @skip start c rest parts _ _ ih =>
    intro part hpart
    obtain ⟨before, after, rfl, hspan, hne⟩ := ih part hpart
    exact ⟨c :: before, after, rfl, by simpa [Nat.add_assoc] using hspan, hne⟩
  | @part start chars rest parts hne _ ih =>
    intro part hpart
    rcases List.mem_cons.1 hpart with rfl | hpart
    · exact ⟨[], rest, rfl, by simp, hne⟩
    · obtain ⟨before, after, rfl, hspan, hne⟩ := ih part hpart
      exact ⟨chars ++ before, after, by simp, by simpa [Nat.add_assoc] using hspan, hne⟩

/-- Where gaps take one byte, a byte of the text belongs to a part or is a gap. -/
theorem held_or_gap (h : Layout gap start text parts) (hbyte : ∀ offset c, gap offset c → c.utf8Size = 1) {offset : Nat}
    (hle : start ≤ offset) (hlt : offset < start + byteLength text) :
    (∃ part ∈ parts, part.span.Holds offset) ∨
      ∃ c, gap offset c ∧ Spells text start ⟨offset, offset + 1⟩ [c] := by
  rcases h.tiling.covered_or_gap hle hlt with ⟨token, htoken, hholds⟩ | ⟨before, c, after, rfl, hfrom, hto, hgap⟩
  · obtain ⟨part, hpart, rfl⟩ := List.mem_map.1 htoken
    exact Or.inl ⟨part, hpart, hholds⟩
  · have hsize := hbyte _ c hgap
    obtain rfl : offset = start + byteLength before := by omega
    have hspells := Spells.of_parts start before [c] after
    rw [byteLength_cons, byteLength_nil, hsize] at hspells
    exact Or.inr ⟨c, hgap, hspells⟩

end Layout

/-! ## Modifiers -/

/-- The part at hand lies in front of what is laid behind it. -/
theorem ending_layout {gap : Nat → Char → Prop} {offset : Nat} (part : List Char) {rest : List Char} {parts : List Part}
    (hrest : Layout gap (offset + byteLength part) rest parts) :
    Layout gap offset (part.reverse ++ rest) ((dotted.ending offset part).map Name.part ++ parts) := by
  unfold dotted.ending
  cases part with
  | nil => simpa using hrest
  | cons c part =>
    have hlaid := Layout.part (by simp : (c :: part).reverse ≠ []) (by rwa [byteLength_reverse])
    simpa [nameAt, Name.part] using hlaid

/-- The parts between dots lie on the text one after the other, and only the dots are left. -/
theorem dotted_layout (offset : Nat) (part chars : List Char) :
    Layout (fun _ c => c = '.') offset (part.reverse ++ chars) ((dotted offset part chars).map Name.part) := by
  induction chars generalizing offset part with
  | nil => simpa [dotted] using ending_layout part (.done (offset + byteLength part))
  | cons c rest ih =>
    unfold dotted
    split
    · next hc =>
      obtain rfl : c = '.' := eq_of_beq hc
      rw [List.map_append]
      exact ending_layout part (.skip rfl (ih (offset + byteLength part + 1) []))
    · simpa using ih offset (c :: part)

/-- A part between dots has no dot in it. -/
theorem dot_notMem_of_mem_dotted {offset : Nat} {part chars : List Char} (hpart : '.' ∉ part) :
    ∀ name ∈ dotted offset part chars, '.' ∉ name.text.toList := by
  have hending : ∀ name ∈ dotted.ending offset part, '.' ∉ name.text.toList := by
    intro name hname
    unfold dotted.ending at hname
    split at hname
    · cases hname
    · rw [List.mem_singleton.1 hname]
      simpa [nameAt] using hpart
  induction chars generalizing offset part with
  | nil => exact hending
  | cons c rest ih =>
    unfold dotted
    split
    · intro name hname
      rcases List.mem_append.1 hname with hhere | hlater
      · exact hending name hhere
      · exact ih (by simp) (by simp [dotted.ending]) name hlater
    · next hc =>
      have hc : c ≠ '.' := by simpa using hc
      refine ih (by simp [hpart, hc.symm]) ?_
      intro name hname
      simp only [dotted.ending, List.isEmpty_cons, Bool.false_eq_true, if_false, List.mem_singleton] at hname
      simp [hname, nameAt, hpart, hc.symm]

/-! ## Arguments -/

/-- What an argument is read from, and what is left behind it: a name up to a dot, or brackets; brackets that are not
closed leave nothing. -/
inductive ReadsArgument (offset : Nat) : List Char → List Char → Argument → Prop where
  | static {name rest : List Char} (hne : name ≠ []) (hdot : '.' ∉ name) :
      ReadsArgument offset name rest (.static (nameAt offset name))
  | closed {inner rest : List Char} (hinner : ']' ∉ inner) :
      ReadsArgument offset ('[' :: inner ++ [']']) rest
        (.dynamic ⟨offset, offset + byteLength ('[' :: inner ++ [']'])⟩ (String.ofList inner))
  | unclosed {inner : List Char} (hinner : ']' ∉ inner) :
      ReadsArgument offset ('[' :: inner) []
        (.dynamic ⟨offset, offset + byteLength ('[' :: inner)⟩ (String.ofList inner))

namespace ReadsArgument

variable {offset : Nat} {taken rest : List Char} {argument : Argument}

theorem taken_ne_nil (h : ReadsArgument offset taken rest argument) : taken ≠ [] := by
  cases h with
  | static hne _ => exact hne
  | closed _ => simp
  | unclosed _ => simp

/-- The span of an argument is over what it is read from. -/
theorem span_eq (h : ReadsArgument offset taken rest argument) : argument.span = ⟨offset, offset + byteLength taken⟩ := by
  cases h with
  | static _ _ => rfl
  | closed _ => rfl
  | unclosed _ => rfl

end ReadsArgument

/-- Reading an argument takes it from the front of the text, or leaves all of it. -/
theorem readArgument_cases (offset : Nat) (text : List Char) :
    readArgument offset text = (none, offset, text) ∨
      ∃ argument taken rest, text = taken ++ rest ∧ ReadsArgument offset taken rest argument ∧
        readArgument offset text = (some argument, offset + byteLength taken, rest) := by
  unfold readArgument
  split
  · next rest =>
    have hinner := notMem_takeWhile_ne ']' rest
    have hsplit := List.takeWhile_append_dropWhile (p := (· != ']')) (l := rest)
    generalize rest.takeWhile (· != ']') = inner at hinner hsplit ⊢
    dsimp only
    split
    · next c after hafter =>
      obtain rfl : c = ']' := by
        have hnot := List.head?_dropWhile_not (p := (· != ']')) (l := rest)
        simpa [hafter] using hnot
      rw [hafter] at hsplit
      have hstop : byteLength ('[' :: inner ++ [']']) = 1 + byteLength inner + 1 := by
        rw [byteLength_append]
        rfl
      refine Or.inr ⟨_, '[' :: inner ++ [']'], after, by simp [← hsplit], .closed hinner, ?_⟩
      simp only [hstop, Nat.add_assoc]
    · next hafter =>
      rw [hafter, List.append_nil] at hsplit
      subst hsplit
      have hstop : byteLength ('[' :: inner) = 1 + byteLength inner := rfl
      refine Or.inr ⟨_, '[' :: inner, [], by simp, .unclosed hinner, ?_⟩
      simp only [hstop, Nat.add_assoc]
  · have hdot := notMem_takeWhile_ne '.' text
    have hsplit := List.takeWhile_append_dropWhile (p := (· != '.')) (l := text)
    generalize text.takeWhile (· != '.') = name at hdot hsplit ⊢
    generalize text.dropWhile (· != '.') = rest at hsplit ⊢
    subst hsplit
    dsimp only
    split
    · next hnil =>
      obtain rfl := List.isEmpty_iff.1 hnil
      exact Or.inl rfl
    · next hne =>
      exact Or.inr ⟨_, name, rest, rfl, .static (by simpa using hne) hdot, rfl⟩

/-! ## Keys -/

/-- The three ways in which a directive is written: with a mark, or with its name and, behind a colon, what may be an
argument, or with its name alone. -/
inductive Written (start : Nat) : List Char → DirectiveKey → Prop where
  | marked {mark : Char} {name : String} {rest : List Char} (hname : shorthandName? mark = some name) :
      Written start (mark :: rest)
        (markedDirective ⟨start, start + byteLength (mark :: rest)⟩ mark name rest)
  | argued {name rest : List Char} (hcolon : ':' ∉ name) (hdot : '.' ∉ name) :
      Written start ('v' :: '-' :: name ++ ':' :: rest)
        (directiveFrom ⟨start, start + byteLength ('v' :: '-' :: name ++ ':' :: rest)⟩
          ⟨String.ofList name, ⟨start, start + byteLength ('v' :: '-' :: name)⟩⟩ none true
          (start + byteLength ('v' :: '-' :: name) + 1) rest)
  | bare {name rest : List Char} (hcolon : ':' ∉ name) (hdot : '.' ∉ name) (hrest : rest = [] ∨ rest.head? = some '.') :
      Written start ('v' :: '-' :: name ++ rest)
        (directiveFrom ⟨start, start + byteLength ('v' :: '-' :: name ++ rest)⟩
          ⟨String.ofList name, ⟨start, start + byteLength ('v' :: '-' :: name)⟩⟩ none false
          (start + byteLength ('v' :: '-' :: name)) rest)

/-- A key that is a directive is written in one of the three ways. -/
theorem parse_cases {text : List Char} {start : Nat} {topLevel : Bool} {key : DirectiveKey}
    (h : parse text start topLevel = .directive key) : Written start text key := by
  unfold parse at h
  dsimp only at h
  split at h
  · nomatch h
  · split at h
    · next rest _ =>
      obtain rfl := Key.directive.inj h
      have hname : ∀ c ∈ rest.takeWhile (fun c => c != ':' && c != '.'), c ≠ ':' ∧ c ≠ '.' := by
        intro c hc
        simpa using List.mem_takeWhile_imp hc
      have hsplit := List.takeWhile_append_dropWhile (p := fun c => c != ':' && c != '.') (l := rest)
      have hhead := List.head?_dropWhile_not (p := fun c => c != ':' && c != '.') (l := rest)
      unfold writtenDirective
      generalize rest.takeWhile (fun c => c != ':' && c != '.') = name at hname hsplit ⊢
      generalize rest.dropWhile (fun c => c != ':' && c != '.') = after at hsplit hhead ⊢
      subst hsplit
      have hcolon : ':' ∉ name := fun hc => (hname _ hc).1 rfl
      have hdot : '.' ∉ name := fun hc => (hname _ hc).2 rfl
      have hstop : start + byteLength ('v' :: '-' :: name) = start + 2 + byteLength name := by
        have hmark : byteLength ('v' :: '-' :: name) = 1 + (1 + byteLength name) := rfl
        omega
      dsimp only
      split
      · next after =>
        rw [← hstop]
        exact .argued hcolon hdot
      · next hnot =>
        rw [← hstop]
        refine .bare hcolon hdot ?_
        cases after with
        | nil => exact Or.inl rfl
        | cons c after =>
          have hne : c ≠ ':' := fun heq => hnot after (heq ▸ rfl)
          simp [hne] at hhead
          simp [hhead]
    · next mark rest _ =>
      split at h
      · next name hname =>
        obtain rfl := Key.directive.inj h
        exact .marked hname
      · nomatch h
    · nomatch h

/-- What follows a name is an argument, if there is one, and modifiers behind it. -/
theorem directiveFrom_cases (whole : Span) (name : Name) (shorthand : Option Char) (hasArgument : Bool) (offset : Nat)
    (text : List Char) :
    ∃ argument taken rest, text = taken ++ rest ∧
      ((argument = none ∧ taken = []) ∨ ∃ read, argument = some read ∧ ReadsArgument offset taken rest read) ∧
      directiveFrom whole name shorthand hasArgument offset text =
        ⟨whole, name, shorthand, argument,
          (if shorthand == some '.' then [⟨"prop", ⟨whole.start, whole.start⟩⟩] else []) ++
            dotted (offset + byteLength taken) [] rest⟩ := by
  cases hasArgument with
  | false => exact ⟨none, [], text, rfl, Or.inl ⟨rfl, rfl⟩, rfl⟩
  | true =>
    rcases readArgument_cases offset text with hread | ⟨argument, taken, rest, rfl, hargument, hread⟩
    · exact ⟨none, [], text, rfl, Or.inl ⟨rfl, rfl⟩, by simp [directiveFrom, hread]⟩
    · exact ⟨some argument, taken, rest, rfl, Or.inr ⟨argument, rfl, hargument⟩, by simp [directiveFrom, hread]⟩

end Key

/-- A static argument spells its name, which is not empty and has no dot in it; a dynamic one spells its text in brackets,
or, at the end of the key, without the closing one. -/
def Argument.SpelledIn (text : List Char) (start : Nat) : Argument → Prop
  | .static name => Spells text start name.span name.text.toList ∧ name.text.toList ≠ [] ∧ '.' ∉ name.text.toList
  | .dynamic span raw => ']' ∉ raw.toList ∧
    (Spells text start span ('[' :: raw.toList ++ [']']) ∨
      (Spells text start span ('[' :: raw.toList) ∧ span.stop = start + byteLength text))

namespace DirectiveKey

/-- Whether a modifier spans nothing, since it is not written. -/
def isImplied (modifier : Name) : Bool :=
  modifier.span.start == modifier.span.stop

/-- The spans of a key from left to right: its name, its argument and the modifiers that are written. -/
def spans (key : DirectiveKey) : List Span :=
  key.name.span :: (key.argument.toList.map Argument.span ++
    (key.modifiers.filter fun modifier => !isImplied modifier).map Name.span)

/-- How the parts of a key lie on the text that it is read from, which starts at an offset. -/
structure Tiles (text : List Char) (start : Nat) (key : DirectiveKey) : Prop where
  span : key.span = ⟨start, start + byteLength text⟩
  within : ∀ span ∈ key.spans, span.Within key.span
  ordered : key.spans.Pairwise fun a b => a.stop ≤ b.start
  /-- A name that is written out stands behind `v-`. -/
  name : key.shorthand = none → Spells text start key.name.span ('v' :: '-' :: key.name.text.toList)
  argument : ∀ argument, key.argument = some argument → argument.SpelledIn text start
  modifiers : ∀ modifier ∈ key.modifiers, isImplied modifier = false →
    Spells text start modifier.span modifier.text.toList ∧ modifier.text.toList ≠ [] ∧ '.' ∉ modifier.text.toList
  /-- What no part covers is a dot, or the colon behind a name that is written out. -/
  rest : ∀ offset, key.span.Holds offset → (∃ span ∈ key.spans, span.Holds offset) ∨
    Spells text start ⟨offset, offset + 1⟩ ['.'] ∨
    (key.shorthand = none ∧ offset = key.name.span.stop ∧ Spells text start ⟨offset, offset + 1⟩ [':'])
  /-- The mark of a bound property implies the one modifier that is not written. -/
  implied : key.modifiers.filter isImplied =
    if key.shorthand = some '.' then [⟨"prop", ⟨start, start⟩⟩] else []

end DirectiveKey

namespace Key

/-- The argument spelled in a text, when it is read from a part of it that ends where the text does. -/
theorem ReadsArgument.spelledIn {start : Nat} {front taken rest : List Char} {argument : Argument}
    (h : ReadsArgument (start + byteLength front) taken rest argument) :
    argument.SpelledIn (front ++ (taken ++ rest)) start := by
  cases h with
  | static hne hdot =>
    refine ⟨?_, by simpa [nameAt] using hne, by simpa [nameAt] using hdot⟩
    simpa [nameAt] using Spells.of_parts start front taken rest
  | @closed inner _ hinner =>
    refine ⟨by simpa using hinner, Or.inl ?_⟩
    simpa only [String.toList_ofList] using Spells.of_parts start front ('[' :: inner ++ [']']) rest
  | @unclosed inner hinner =>
    refine ⟨by simpa using hinner, Or.inr ⟨?_, ?_⟩⟩
    · simpa only [String.toList_ofList] using Spells.of_parts start front ('[' :: inner) []
    · simp only [byteLength_append, byteLength_nil]
      omega

/-- The modifiers of a key that are written are those between dots; before them stands what the mark implies. -/
theorem filter_isImplied (shorthand : Option Char) (start offset : Nat) (text : List Char) :
    let modifiers := (if shorthand == some '.' then [(⟨"prop", ⟨start, start⟩⟩ : Name)] else []) ++ dotted offset [] text
    modifiers.filter DirectiveKey.isImplied = (if shorthand = some '.' then [⟨"prop", ⟨start, start⟩⟩] else []) ∧
      modifiers.filter (fun modifier => !DirectiveKey.isImplied modifier) = dotted offset [] text := by
  have hwritten : ∀ name ∈ dotted offset [] text, DirectiveKey.isImplied name = false := by
    intro name hname
    have hspan := ((dotted_layout offset [] text).within _ (List.mem_map_of_mem hname)).2.1
    simpa [DirectiveKey.isImplied, Name.part] using Nat.ne_of_lt hspan
  have hall : (dotted offset [] text).filter (fun modifier => !DirectiveKey.isImplied modifier) = dotted offset [] text :=
    List.filter_eq_self.2 fun name hname => by simp [hwritten name hname]
  have hnone : (dotted offset [] text).filter DirectiveKey.isImplied = [] :=
    List.filter_eq_nil_iff.2 fun name hname => by simp [hwritten name hname]
  constructor
  · rw [List.filter_append, hnone, List.append_nil]
    by_cases hmark : shorthand = some '.'
    · simp [hmark, DirectiveKey.isImplied]
    · simp [hmark]
  · rw [List.filter_append, hall]
    by_cases hmark : shorthand = some '.'
    · simp [hmark, DirectiveKey.isImplied]
    · simp [hmark]

/-- What stands between the parts of a key: dots, and the colon behind a name that is written out. -/
def Between (shorthand : Option Char) (nameStop offset : Nat) (c : Char) : Prop :=
  c = '.' ∨ (shorthand = none ∧ offset = nameStop ∧ c = ':')

section

variable (start : Nat) {front colon taken rest : List Char} {name : String} {shorthand : Option Char}

/-- The name, the argument and the written modifiers of a key lie on its text in this order. -/
theorem layout_of_parts {argument : Option Argument} (hfront : front ≠ [])
    (hcolon : colon = [] ∨ (colon = [':'] ∧ shorthand = none))
    (hargument : (argument = none ∧ taken = []) ∨
      ∃ read, argument = some read ∧ ReadsArgument (start + byteLength front + byteLength colon) taken rest read) :
    Layout (Between shorthand (start + byteLength front)) start (front ++ (colon ++ (taken ++ rest)))
      (⟨⟨start, start + byteLength front⟩, front⟩ :: (argument.toList.map (fun read => ⟨read.span, taken⟩) ++
        (dotted (start + byteLength front + byteLength colon + byteLength taken) [] rest).map Name.part)) := by
  have hdotted : Layout (Between shorthand (start + byteLength front)) _ rest _ :=
    (dotted_layout (start + byteLength front + byteLength colon + byteLength taken) [] rest).mono fun _ _ => Or.inl
  have htaken : Layout (Between shorthand (start + byteLength front)) (start + byteLength front + byteLength colon)
      (taken ++ rest) (argument.toList.map (fun read => ⟨read.span, taken⟩) ++
        (dotted (start + byteLength front + byteLength colon + byteLength taken) [] rest).map Name.part) := by
    rcases hargument with ⟨rfl, rfl⟩ | ⟨read, rfl, hread⟩
    · exact hdotted
    · simpa [hread.span_eq] using Layout.part hread.taken_ne_nil hdotted
  refine Layout.part hfront ?_
  rcases hcolon with rfl | ⟨rfl, hlong⟩
  · exact htaken
  · exact Layout.skip (Or.inr ⟨hlong, rfl, rfl⟩) htaken

/-- The parts of a key whose name is spelled by the front of a text, perhaps with a colon behind it. -/
theorem directiveFrom_tiles (shorthand : Option Char) (name : String) (colon text : List Char) (hasArgument : Bool)
    (hfront : front ≠ []) (hcolon : colon = [] ∨ (colon = [':'] ∧ shorthand = none))
    (hname : shorthand = none → front = 'v' :: '-' :: name.toList) :
    (directiveFrom ⟨start, start + byteLength (front ++ (colon ++ text))⟩ ⟨name, ⟨start, start + byteLength front⟩⟩ shorthand
      hasArgument (start + byteLength front + byteLength colon) text).Tiles (front ++ (colon ++ text)) start := by
  obtain ⟨argument, taken, rest, rfl, hargument, hkey⟩ := directiveFrom_cases
    ⟨start, start + byteLength (front ++ (colon ++ text))⟩ ⟨name, ⟨start, start + byteLength front⟩⟩ shorthand hasArgument
    (start + byteLength front + byteLength colon) text
  rw [hkey]
  obtain ⟨himplied, hwritten⟩ := filter_isImplied shorthand start
    (start + byteLength front + byteLength colon + byteLength taken) rest
  have hlaid := layout_of_parts start hfront hcolon hargument
  have hspans : DirectiveKey.spans ⟨⟨start, start + byteLength (front ++ (colon ++ (taken ++ rest)))⟩,
      ⟨name, ⟨start, start + byteLength front⟩⟩, shorthand, argument,
      (if shorthand == some '.' then [⟨"prop", ⟨start, start⟩⟩] else []) ++
        dotted (start + byteLength front + byteLength colon + byteLength taken) [] rest⟩ =
      (⟨⟨start, start + byteLength front⟩, front⟩ :: (argument.toList.map (fun read => (⟨read.span, taken⟩ : Part)) ++
        (dotted (start + byteLength front + byteLength colon + byteLength taken) [] rest).map Name.part)).map
          Part.span := by
    simp only [DirectiveKey.spans, hwritten, List.map_cons, List.map_append, List.map_map]
    rfl
  refine ⟨rfl, ?within, ?ordered, ?name, ?argument, ?modifiers, ?rest, himplied⟩
  case within =>
    rw [hspans]
    intro span hspan
    obtain ⟨part, hpart, rfl⟩ := List.mem_map.1 hspan
    obtain ⟨hstart, -, hstop⟩ := hlaid.within part hpart
    exact ⟨hstart, hstop⟩
  case ordered =>
    rw [hspans]
    exact hlaid.pairwise
  case name =>
    intro hlong
    rw [← hname hlong]
    exact (hlaid.spells _ List.mem_cons_self).1
  case argument =>
    intro read hread
    obtain ⟨rfl, rfl⟩ | ⟨read', rfl, hreads⟩ := hargument
    · cases hread
    · obtain rfl := Option.some.inj hread
      rw [Nat.add_assoc, ← byteLength_append] at hreads
      simpa using hreads.spelledIn
  case modifiers =>
    intro modifier hmodifier himplied
    have hmem : modifier ∈ dotted (start + byteLength front + byteLength colon + byteLength taken) [] rest := by
      rw [← hwritten]
      exact List.mem_filter.2 ⟨hmodifier, by simp [himplied]⟩
    obtain ⟨hspells, hne⟩ := hlaid.spells modifier.part
      (List.mem_cons_of_mem _ (List.mem_append_right _ (List.mem_map_of_mem hmem)))
    exact ⟨hspells, hne, dot_notMem_of_mem_dotted (by simp) modifier hmem⟩
  case rest =>
    intro offset hholds
    have hbyte : ∀ offset c, Between shorthand (start + byteLength front) offset c → c.utf8Size = 1 := by
      rintro offset c (rfl | ⟨-, -, rfl⟩)
      · rfl
      · rfl
    rw [hspans]
    rcases hlaid.held_or_gap hbyte hholds.1 hholds.2 with ⟨part, hpart, hpartHolds⟩ | ⟨c, hgap, hspells⟩
    · exact Or.inl ⟨part.span, List.mem_map_of_mem hpart, hpartHolds⟩
    · rcases hgap with rfl | ⟨hlong, rfl, rfl⟩
      · exact Or.inr (Or.inl hspells)
      · exact Or.inr (Or.inr ⟨hlong, rfl, hspells⟩)

end

/-- The parts of a directive tile the text that it is read from. -/
theorem parse_tiles {text : List Char} {start : Nat} {key : DirectiveKey} (h : parse text start false = .directive key) :
    key.Tiles text start := by
  cases parse_cases h with
  | @marked mark name rest hname =>
    have htiles := directiveFrom_tiles start (some mark) name [] rest true (List.cons_ne_nil mark []) (Or.inl rfl) nofun
    have hsize := utf8Size_of_shorthandName? hname
    simpa [markedDirective, hsize] using htiles
  | @argued name rest hcolon hdot =>
    exact directiveFrom_tiles start none _ [':'] rest true (by simp) (Or.inr ⟨rfl, rfl⟩) fun _ => by simp
  | @bare name rest hcolon hdot hrest =>
    exact directiveFrom_tiles start none _ [] rest false (by simp) (Or.inl rfl) fun _ => by simp

/-- `v-on:[x` is read as a directive with an argument that is not closed. -/
theorem parse_tiles_unclosed : ∃ key, parse "v-on:[x".toList 10 false = .directive key ∧ key.Tiles "v-on:[x".toList 10 :=
  ⟨_, rfl, parse_tiles rfl⟩

end Key

end Markup

end ComponentLint
