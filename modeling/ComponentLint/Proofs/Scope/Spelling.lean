import ComponentLint.Proofs.Markup.Positions
import ComponentLint.Proofs.Scope.Spans

/-!
# Names as the file spells them

Each fragment of script is parsed on its own and its tree is moved to where the fragment stands. How far depends on the
fragment: the content of a script starts behind its tag, an interpolation behind its braces, the source of a loop behind the
word of the loop, and a list of parameters behind its blanks, less a parenthesis that is put before it. Whichever it is, the
span of a name in the result cuts the name out of the file (`ofComponent_spelled`), provided that the parser gets its spans
right in the text it is given.
-/

namespace ComponentLint

open Text Markup Script

variable {languages : Script.Languages}

/-! ## Texts that are parsed -/

namespace Markup

namespace Fragment

/-- The arrow function that a list of parameters is read in; parentheses are put around the list if it has none. -/
def arrowText (text : List Char) : List Char :=
  let trimmed := trim text
  if trimmed.head? == some '(' && trimmed.getLast? == some ')' then trimmed ++ ['=', '>', '0']
  else '(' :: trimmed ++ [')', '=', '>', '0']

/-- The texts that are parsed for the value of a directive. -/
def parsedTexts (name : String) (text : List Char) : List (List Char) :=
  if name == "for" then
    match splitLoop? text with
    | some (aliasStop, _, sourceStart) =>
      [arrowText (slice text ⟨0, aliasStop⟩), slice text ⟨sourceStart, byteLength text⟩]
    | none => []
  else if name == "slot" then [arrowText text]
  else [text]

end Fragment

/-- The texts that are parsed for an attribute: none unless it is a directive whose value says something. -/
def Attribute.parsedTexts (attr : Attribute) : List (List Char) :=
  match attr.directive?, attr.value with
  | some key, some value => if value.meaning.isSome then Fragment.parsedTexts key.name.text value.raw.toList else []
  | _, _ => []

/-- The texts that are parsed for a node of the template. -/
def NodeKind.parsedTexts (source : List Char) : NodeKind → List (List Char)
  | .element found => found.attributes.flatMap Attribute.parsedTexts
  | .interpolation content => [slice source ⟨content.opening.stop, content.closing.start⟩]
  | _ => []

end Markup

/-- The texts of a component that are given to the script parser. -/
def Component.parsedTexts (component : Component) : List (List Char) :=
  component.document.nodes.toList.flatMap (·.kind.parsedTexts component.document.source) ++
    component.scripts.map fun block => component.document.text block.content

/-! ## Fragments -/

namespace Markup.Fragment

variable {source text : List Char} {language : Language} {start : Nat}

theorem expression?_spelled (hstands : Stands source start text) (hspells : language.Spells text) {tree : Script.Node}
    (h : expression? language start text = some tree) : tree.Spelled source := by
  unfold expression? at h
  split at h
  · cases h
  · obtain ⟨read, hread, h⟩ := Option.bind_eq_some_iff.1 h
    obtain ⟨⟨_, rest⟩, _, h⟩ := Option.bind_eq_some_iff.1 h
    dsimp only at h
    split at h
    · obtain rfl := Option.some.inj h
      exact (hspells.1 read hread).shift hstands
    · cases h

/-- The parameters of an arrow function are spelled as its text is. -/
theorem readArrow_spelled {whole : List Char} {offset : Nat} (hspells : language.Spells whole) {params : Script.Node}
    (h : params?.readArrow language whole offset = some params) :
    ∃ read : Script.Node, read.Spelled whole ∧ params = read.shift offset := by
  obtain ⟨arrow, harrow, h⟩ := Option.bind_eq_some_iff.1 h
  have hspelled := hspells.1 arrow harrow
  split at h
  · cases h
  · split at h
    · exact ⟨_, hspelled.parts _ List.mem_cons_self, (Option.some.inj h).symm⟩
    · cases h

theorem params?_spelled (hstands : Stands source start text) (hspells : language.Spells (arrowText text)) {params : Script.Node}
    (h : params? language start text = some params) : params.Spelled source := by
  have htrimmed := hstands.trim
  unfold arrowText at hspells
  unfold params? at h
  extract_lets trimmed at hspells
  extract_lets first at h
  split at h
  · cases h
  split at h
  · next hwrapped =>
    rw [if_pos hwrapped] at hspells
    obtain ⟨read, hread, rfl⟩ := readArrow_spelled hspells h
    exact hread.shift_middle [] (by decide) (by decide) htrimmed
  · next hwrapped =>
    rw [if_neg hwrapped] at hspells
    split at h
    · cases h
    · next hstart =>
      obtain ⟨read, hread, rfl⟩ := readArrow_spelled hspells h
      refine hread.shift_middle ['('] (by decide) (by decide) ?_
      -- The parenthesis that was put before the list is one byte, which the move takes back.
      rw [show first - 1 + byteLength ['('] = first from Nat.sub_add_cancel (Nat.pos_of_ne_zero hstart)]
      exact htrimmed

theorem loop?_spelled (hstands : Stands source start text) (hspells : ∀ part ∈ parsedTexts "for" text, language.Spells part)
    {value : DirectiveValue} (h : loop? language start text = some value) : ∀ tree ∈ value.trees, tree.Spelled source := by
  obtain ⟨⟨aliasStop, word, sourceStart⟩, hsplit, h⟩ := Option.bind_eq_some_iff.1 h
  obtain ⟨aliases, haliases, h⟩ := Option.bind_eq_some_iff.1 h
  obtain ⟨⟨before, rest⟩, hrest, h⟩ := Option.bind_eq_some_iff.1 h
  obtain ⟨expression, hexpression, h⟩ := Option.bind_eq_some_iff.1 h
  obtain rfl := Option.some.inj h
  obtain ⟨rfl, rfl⟩ := splitAt?_eq_some_iff.1 hrest
  have hsource : slice (before ++ rest) ⟨byteLength before, byteLength (before ++ rest)⟩ = rest := by
    simpa using slice_append before rest []
  simp only [parsedTexts, hsplit, hsource, beq_self_eq_true, if_true, List.forall_mem_cons] at hspells
  obtain ⟨haliasSpells, hsourceSpells, -⟩ := hspells
  have haliasStands : Stands source start (slice (before ++ rest) ⟨0, aliasStop⟩) := by
    simpa using hstands.trans (stands_slice ⟨0, aliasStop⟩ (isBoundary_zero _))
  have haliasSpelled := params?_spelled haliasStands haliasSpells haliases
  have hsourceSpelled := expression?_spelled hstands.rear hsourceSpells hexpression
  simpa [DirectiveValue.trees] using ⟨haliasSpelled, hsourceSpelled⟩

theorem handler_spelled (hstands : Stands source start text) (hspells : language.Spells text) :
    ∀ tree ∈ (handler language start text).trees, tree.Spelled source := by
  unfold handler
  split
  · next node hnode => simpa [DirectiveValue.trees] using expression?_spelled hstands hspells hnode
  · split
    · next statements hstatements =>
      intro tree htree
      obtain ⟨statement, hstatement, rfl⟩ := List.mem_map.1 htree
      obtain ⟨-, heq⟩ := Option.ite_none_left_eq_some.1 hstatements
      cases heq
      exact (hspells.2 statement hstatement).shift hstands
    · simp [DirectiveValue.trees]

/-- The names in the value of a directive are spelled as the file is, if the parser spells the texts that it is given. -/
theorem directiveValue_spelled {name : String} (hstands : Stands source start text)
    (hspells : ∀ part ∈ parsedTexts name text, language.Spells part) {value : DirectiveValue}
    (h : directiveValue language name start text = some value) : ∀ tree ∈ value.trees, tree.Spelled source := by
  have hinvalid : ∀ tree ∈ DirectiveValue.invalid.trees, tree.Spelled source := by simp [DirectiveValue.trees]
  unfold directiveValue at h
  split at h
  · cases h
  split at h
  · cases h
  split at h
  · next hname =>
    obtain rfl := eq_of_beq hname
    obtain rfl := Option.some.inj h
    cases hloop : loop? language start text with
    | none => exact hinvalid
    | some value => exact loop?_spelled hstands hspells hloop
  next hfor =>
  split at h
  · next hname =>
    obtain rfl := eq_of_beq hname
    obtain rfl := Option.some.inj h
    rw [parsedTexts, if_neg hfor, if_pos hname, List.forall_mem_singleton] at hspells
    cases hparams : params? language start text with
    | none => exact hinvalid
    | some params => simpa [DirectiveValue.trees] using params?_spelled hstands hspells hparams
  next hslot =>
  rw [parsedTexts, if_neg hfor, if_neg hslot, List.forall_mem_singleton] at hspells
  split at h
  · obtain rfl := Option.some.inj h
    exact handler_spelled hstands hspells
  · obtain rfl := Option.some.inj h
    cases hexpression : expression? language start text with
    | none => exact hinvalid
    | some tree => simpa [DirectiveValue.trees] using expression?_spelled hstands hspells hexpression

end Markup.Fragment

/-! ## Components -/

namespace Component

variable {source : List Char}

/-- The statements of a script block are spelled as the file is. -/
theorem readScript_spelled {language : Language} {document : Document} (hwritten : document.Written language) {id : NodeId}
    {element : Element} (helement : document.element? id = some element)
    (hspells : languages.Spell (document.text (contentOf document id element))) :
    ∀ tree ∈ (readScript languages document id element).1.statements, tree.Spelled document.source := by
  obtain ⟨node, hnode, hkind⟩ := Document.element?_eq_some_iff.1 helement
  have hparts := hwritten.kind id node hnode
  rw [hkind] at hparts
  have hstart : (contentOf document id element).start = element.startTag.span.stop := by
    unfold contentOf
    split <;> rfl
  have hstands := stands_slice (contentOf document id element) (hstart ▸ hparts.startTag.stop)
  intro tree htree
  obtain ⟨statement, hstatement, rfl⟩ := List.mem_map.1 htree
  exact ((hspells _).2 statement hstatement).shift hstands

/-- Every tree of a component is spelled as the file is, if the parser spells the texts that it is given. -/
theorem spelled_of_hasTree (hspells : ∀ text ∈ (parse languages source).parsedTexts, languages.Spell text) {tree : Script.Node}
    (htree : (parse languages source).HasTree tree) : tree.Spelled source := by
  have hwritten : (parse languages source).document.Written (languages ⟨usesTypes source, false⟩) := parse_written _ source
  have hnodes : ∀ (id : Nat) node, (parse languages source).document.node? id = some node →
      ∀ text ∈ node.kind.parsedTexts source, languages.Spell text := by
    intro id node hnode text htext
    refine hspells text (List.mem_append_left _ (List.mem_flatMap.2 ⟨node, ?_, htext⟩))
    exact Array.mem_toList_iff.2 (Array.mem_of_getElem? hnode)
  cases htree with
  | @value id element attr meaning _ helement hattr hmeaning htree =>
    obtain ⟨node, hnode, hkind⟩ := Document.element?_eq_some_iff.1 helement
    have hparts := hwritten.kind id node hnode
    rw [hkind] at hparts
    obtain ⟨value, hvalue, hmeaning⟩ := Option.bind_eq_some_iff.1 hmeaning
    obtain ⟨hstands, hsays⟩ := (hparts.attributes attr hattr).value value hvalue
    obtain ⟨key, hkey, hdirective⟩ := hsays.exists_key hmeaning
    refine Fragment.directiveValue_spelled hstands (fun part hpart => hnodes id node hnode part ?_ _) hdirective tree htree
    rw [hkind]
    refine List.mem_flatMap.2 ⟨attr, hattr, ?_⟩
    simpa [Attribute.parsedTexts, hkey, hvalue, hmeaning] using hpart
  | @interpolation id node content _ hnode hkind htree =>
    have hparts := hwritten.kind id node hnode
    rw [hkind] at hparts
    refine Fragment.expression?_spelled (stands_slice _ hparts.opening.stop) ?_ (hparts.expression.symm.trans htree)
    refine hnodes id node hnode _ ?_ _
    rw [hkind]
    exact List.mem_singleton_self _
  | @statement block _ hblock htree =>
    obtain ⟨id, element, -, helement, -, rfl⟩ := mem_scripts hblock
    refine readScript_spelled hwritten helement (hspells _ ?_) tree htree
    exact List.mem_append_right _ (List.mem_map_of_mem hblock)

end Component

/-- The spans of names are those of the file. In every component, the span of each binding and of each reference cuts its
name out of the file, whichever script, interpolation or value of a directive it was read from, if the parser spells the names
in the texts that it is given. -/
theorem ScopeTable.ofComponent_spelled (source : List Char)
    (hspells : ∀ text ∈ (Component.parse languages source).parsedTexts, languages.Spell text) :
    (∀ binding ∈ (ofComponent (Component.parse languages source)).bindings,
      slice? source binding.span = some binding.name.toList) ∧
    ∀ reference ∈ (ofComponent (Component.parse languages source)).references,
      slice? source reference.span = some reference.name.toList := by
  have hnamed : (ofComponent (Component.parse languages source)).Named fun item => Script.Spelled source item.1 item.2 :=
    named_ofComponent fun _ htree => Component.spelled_of_hasTree hspells htree
  exact ⟨fun binding hbinding => (hnamed.bindings binding hbinding).2,
    fun reference hreference => (hnamed.references reference hreference).2⟩

/-- A script with a syntax error in it, and a template with a loop, slots and a handler in their different forms, behind
characters of several bytes. -/
def ScopeTable.spelledSample : List Char :=
  ("<script>let a = 'é'; (\x7b k = 1 \x7d)</script><template>é<p v-for=\" ( b , c ) in a \" #d=\" \x7b e = c \x7d \"" ++
    " @f=\"g(); e\">\x7b\x7b e \x7d\x7d<i v-for=\"h of b\" #d=\"(j)\" :k=\"h+j\"/></p></template>").toList

/-- The parser spells the texts of the sample, and the names of the faulty script are among those of the table. -/
theorem ScopeTable.spelledSample_names :
    (∀ text ∈ (Component.parse Script.Dialect.language spelledSample).parsedTexts,
        Script.Languages.Spell Script.Dialect.language text) ∧
      (Component.parse Script.Dialect.language spelledSample).problems.map (·.cause) = [.script "script syntax error"] ∧
      (ofComponent (Component.parse Script.Dialect.language spelledSample)).bindings.toList.map (·.name) =
        ["a", "b", "c", "e", "h", "j"] ∧
      (ofComponent (Component.parse Script.Dialect.language spelledSample)).references.toList.map (·.name) =
        ["k", "a", "c", "g", "e", "e", "b", "h", "j"] := by
  decide +kernel

theorem ScopeTable.ofComponent_spelled_sample :
    (∀ binding ∈ (ofComponent (Component.parse Script.Dialect.language spelledSample)).bindings,
      slice? spelledSample binding.span = some binding.name.toList) ∧
    ∀ reference ∈ (ofComponent (Component.parse Script.Dialect.language spelledSample)).references,
      slice? spelledSample reference.span = some reference.name.toList :=
  ofComponent_spelled spelledSample spelledSample_names.1

end ComponentLint
