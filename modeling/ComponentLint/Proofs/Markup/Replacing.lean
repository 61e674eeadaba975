import ComponentLint.Proofs.Markup.Editing

/-!
# Replacing a part of a file

A part of a file is replaced by another text. Before it both files are read in step if the part can be exchanged for the other
text (`Passes.exchange`), and behind it they are in step to their ends if they are where the part ends (`Passes.resume`). Then the
trees are the same but for what is changed in the part (`Passes.keeps`).
-/

namespace ComponentLint.Markup

open Text

/-- A revision in which a text takes the place of another one: what stands before it stays in place, and what stands behind it is
moved. -/
structure Revision.Replaces (rev : Revision) (front text text' tail : List Char) : Prop where
  source : rev.source = front ++ (text ++ tail)
  edited : rev.edited = front ++ (text' ++ tail)
  before : ∀ offset ≤ byteLength front, rev.place offset offset
  behind : ∀ count, rev.place (byteLength front + byteLength text + count) (byteLength front + byteLength text' + count)

/-- Cutting something out of a text replaces the text. -/
theorem Revision.replaces_cut (front early text text' late tail : List Char) :
    (Revision.cut (front ++ (early ++ (text ++ late) ++ tail)) (front ++ (early ++ (text' ++ late) ++ tail))
      (byteLength (front ++ early)) (byteLength (front ++ early) + byteLength text)
      (byteLength (front ++ early) + byteLength text')).Replaces front
        (early ++ (text ++ late)) (early ++ (text' ++ late)) tail := by
  refine ⟨rfl, rfl, fun offset hle => Or.inl ⟨rfl, ?_⟩, fun count => Or.inr ⟨byteLength late + count, ?_, ?_⟩⟩
  · rw [byteLength_append]
    omega
  · simp only [byteLength_append]
    omega
  · simp only [byteLength_append]
    omega

theorem Revision.Replaces.stop {rev : Revision} {front text text' tail : List Char} (h : rev.Replaces front text text' tail) :
    rev.place (byteLength rev.source) (byteLength rev.edited) := by
  have hbehind := h.behind (byteLength tail)
  rw [h.source, h.edited]
  simpa only [byteLength_append, Nat.add_assoc] using hbehind

/-! ## Trees of files in step -/

/-- The tree of an edited file is that of the file, but for the nodes that the edit changes. -/
structure Document.Keeps (old : Document) (rev : Revision) (changed : NodeId → Prop) (new : Document) : Prop where
  size : new.size = old.size
  children : ∀ id, new.children id = old.children id
  nodes : ∀ id node, new.node? id = some node →
    ∃ node', old.node? id = some node' ∧ node'.StandsFor rev (fun other => other) (changed id) node

/-- Trees whose nodes stand for each other have the same children everywhere. -/
theorem Shaped.children_eq {old new : Document} (hold : Shaped old.nodes [0]) (hnew : Shaped new.nodes [0])
    (hsize : new.size = old.size)
    (hparent : ∀ id, new.parent? id = old.parent? id) (other : NodeId) : new.children other = old.children other := by
  have hsize' : new.nodes.size = old.nodes.size := hsize
  have hlist : ∀ {document : Document} {node : Node}, Shaped document.nodes [0] → document.node? other = some node →
      document.children other = (List.range document.nodes.size).filter fun child => document.parent? child == some other := by
    intro document node hshaped hnode
    rw [Document.children, hnode]
    exact hshaped.children other node hnode
  cases hnode : old.node? other with
  | none =>
    have hge : old.nodes.size ≤ other := Array.getElem?_eq_none_iff.1 hnode
    have hnone : new.node? other = none := Array.getElem?_eq_none_iff.2 (hsize'.symm ▸ hge)
    rw [Document.children, Document.children, hnode, hnone]
  | some node =>
    have hlt : other < old.nodes.size := (Array.getElem?_eq_some_iff.1 hnode).1
    obtain ⟨node', hnode'⟩ : ∃ node', new.node? other = some node' := ⟨_, Array.getElem?_eq_getElem (hsize'.symm ▸ hlt)⟩
    rw [hlist hnew hnode', hlist hold hnode, hsize']
    simp only [hparent]

theorem Document.Keeps.of_nodes {language : Script.Language} {rev : Revision} {changed : NodeId → Prop}
    (hsize : (parse language rev.edited).1.size = (parse language rev.source).1.size)
    (hnodes : ∀ id node, (parse language rev.edited).1.node? id = some node → ∃ node', (parse language rev.source).1.node? id =
      some node' ∧ node'.StandsFor rev (fun other => other) (changed id) node) :
    (parse language rev.source).1.Keeps rev changed (parse language rev.edited).1 := by
  refine ⟨hsize, Shaped.children_eq (parse_shaped language rev.source)
    (parse_shaped language rev.edited) hsize fun id => ?_, hnodes⟩
  rw [Document.parent?, Document.parent?]
  cases hnode : (parse language rev.edited).1.node? id with
  | none =>
    have hge : (parse language rev.edited).1.size ≤ id := Array.getElem?_eq_none_iff.1 hnode
    rw [hsize] at hge
    have hnone : (parse language rev.source).1.node? id = none := Array.getElem?_eq_none_iff.2 hge
    rw [hnone]
  | some node =>
    obtain ⟨node', hnode', hstands⟩ := hnodes id node hnode
    rw [hnode', Option.bind_some, Option.bind_some, hstands.parent, Option.map_id_fun', id_eq]

/-! ## Files with another part -/

namespace Builder

theorem Walks.shaped {language : Script.Language} {fileStop : Nat} {last builder : Builder} {rest stream : Stream}
    (h : Walks language fileStop last rest builder stream) (hshaped : Shaped builder.nodes builder.stack) :
    Shaped last.nodes last.stack := by
  induction h with
  | done => exact hshaped
  | step _ _ ih => exact ih (advance_shaped hshaped language fileStop _)

/-- A file that is read up to a part of it, over that part, and to its end. -/
structure Passes (language : Script.Language) (source front text tail : List Char) (builder closed last : Builder) : Prop where
  upTo : Walks language (byteLength source) builder ⟨byteLength front, text ++ tail⟩ (start (byteLength source)) ⟨0, source⟩
  across : Walks language (byteLength source) closed ⟨byteLength front + byteLength text, tail⟩ builder
    ⟨byteLength front, text ++ tail⟩
  behind : Walks language (byteLength source) last ⟨byteLength source, []⟩ closed ⟨byteLength front + byteLength text, tail⟩

namespace Passes

variable {rev : Revision} {language : Script.Language} {source front text text' tail : List Char} {builder closed last : Builder}

theorem walk (h : Passes language source front text tail builder closed last) :
    Walks language (byteLength source) last ⟨byteLength source, []⟩ (start (byteLength source)) ⟨0, source⟩ :=
  h.upTo.trans (h.across.trans h.behind)

theorem shaped (h : Passes language source front text tail builder closed last) : Shaped builder.nodes builder.stack :=
  h.upTo.shaped (start_standing (byteLength source)).shaped

/-- Up to the part both files are read in step. -/
theorem exchange (h : Passes language rev.source front text tail builder closed last) (hrev : rev.Replaces front text text' tail)
    (hexchange : Exchangeable (text ++ tail) (text' ++ tail))
    (hopen : ∀ name, IsTagName name → closesRaw name (text ++ tail) = true →
      ∀ more, closesRaw name (more ++ (text ++ tail)) = closesRaw name (more ++ (text' ++ tail))) (changed : Nat → Prop) :
    ∃ builder', Walks language (byteLength rev.edited) builder' ⟨byteLength front, text' ++ tail⟩ (start (byteLength rev.edited))
      ⟨0, rev.edited⟩ ∧ Lockstep rev (fun id => id) changed builder builder' := by
  have hfront : Stream.Reads ⟨0, rev.source⟩ front ⟨byteLength front, text ++ tail⟩ := ⟨hrev.source, by simp⟩
  have hedited : (⟨0, rev.edited⟩ : Stream) = ⟨0, front ++ (text' ++ tail)⟩ := by rw [hrev.edited]
  obtain ⟨builder', hwalk, hlock⟩ := h.upTo.exchange hexchange hopen
    (.start changed (hrev.before 0 (Nat.zero_le _)) hrev.stop) (start_standing (byteLength rev.source)).shaped
    (start_standing (byteLength rev.edited)).shaped hfront (.refl _) (by rw [hedited]; exact .refl _) hrev.before
  rw [← hedited] at hwalk
  exact ⟨builder', hwalk, hlock⟩

/-- Behind the part both files are read in step to their ends, if they are in step where it ends. -/
theorem resume (h : Passes language rev.source front text tail builder closed last) (hrev : rev.Replaces front text text' tail)
    {rename : Nat → Nat} {changed : Nat → Prop} {closed' : Builder} (hlock : Lockstep rev rename changed closed closed')
    (hshaped : Shaped closed'.nodes closed'.stack) :
    ∃ last', Walks language (byteLength rev.edited) last' ⟨byteLength rev.edited, []⟩ closed'
        ⟨byteLength front + byteLength text', tail⟩ ∧
      Lockstep rev rename changed (last.finish (byteLength rev.source)) (last'.finish (byteLength rev.edited)) ∧
      (last.problems = #[] → last'.problems = #[]) := by
  obtain ⟨last', count, hcount, hwalk, hlast⟩ := @Walks.resume _ _ _ _ _ _ _ (byteLength rev.edited) _ _ h.behind closed'
    (byteLength front + byteLength text') hlock (h.across.shaped h.shaped) hshaped
    ⟨front ++ text, by simp [hrev.source], by simp⟩ ⟨front ++ text', by simp [hrev.edited], by simp⟩ hrev.behind
  have hend : byteLength front + byteLength text' + count = byteLength rev.edited := by
    rw [hrev.source] at hcount
    rw [hrev.edited]
    simp only [byteLength_append] at hcount ⊢
    omega
  rw [hend] at hwalk
  exact ⟨last', hwalk, hlast.finish (hwalk.shaped hshaped) hrev.stop, hlast.problems⟩

/-- The trees of both files are the same but for what is changed in the part, if they are in step where it ends. -/
theorem keeps (h : Passes language rev.source front text tail builder closed last) (hrev : rev.Replaces front text text' tail)
    (hexchange : Exchangeable (text ++ tail) (text' ++ tail))
    (hopen : ∀ name, IsTagName name → closesRaw name (text ++ tail) = true →
      ∀ more, closesRaw name (more ++ (text ++ tail)) = closesRaw name (more ++ (text' ++ tail))) {changed : Nat → Prop}
    (hacross : ∀ builder', Walks language (byteLength rev.edited) builder' ⟨byteLength front, text' ++ tail⟩
        (start (byteLength rev.edited)) ⟨0, rev.edited⟩ → Lockstep rev (fun id => id) changed builder builder' →
      ∃ closed', Walks language (byteLength rev.edited) closed' ⟨byteLength front + byteLength text', tail⟩ builder'
        ⟨byteLength front, text' ++ tail⟩ ∧ Lockstep rev (fun id => id) changed closed closed') :
    (parse language rev.source).1.Keeps rev changed (parse language rev.edited).1 := by
  obtain ⟨builder', hbefore', hlock⟩ := h.exchange hrev hexchange hopen changed
  obtain ⟨closed', hover', hlock'⟩ := hacross builder' hbefore' hlock
  have hshaped := (hbefore'.standing (start_standing _)).shaped
  obtain ⟨last', hafter', hfinal, -⟩ := h.resume hrev hlock' (hover'.shaped hshaped)
  have hwalk' := hbefore'.trans (hover'.trans hafter')
  refine .of_nodes ?_ ?_
  · rw [h.walk.parse_eq, hwalk'.parse_eq]
    exact hfinal.size 0
  · rw [h.walk.parse_eq, hwalk'.parse_eq]
    exact hfinal.nodes

end Passes

end Builder

end ComponentLint.Markup
