import EditableText.Proofs.Document.Blocks

namespace EditableText

namespace Action

variable {σ α : Type} {x : Action σ α} {s s' : σ} {p q : Prop} {log : List Notice}

/-- The call succeeds if the condition is met, and otherwise it is refused before it has done anything. -/
structure SucceedsIff (x : Action σ α) (s : σ) (p : Prop) : Prop where
  ok (h : p) : ∃ a, (x s).outcome = .ok a
  refused (h : ¬ p) : ∃ e, x s = ⟨.refused e, s, []⟩

namespace SucceedsIff

lemma of_ok {a : α} (h : x.Runs s log (.ok a) s') (hp : p) : x.SucceedsIff s p where
  ok _ := ⟨a, by rw [h]⟩
  refused hnot := absurd hp hnot

lemma of_refused {e : DocumentError} (h : x.Runs s [] (.refused e) s) (hp : ¬ p) : x.SucceedsIff s p where
  ok hnot := absurd hnot hp
  refused _ := ⟨e, h⟩

lemma congr (h : x.SucceedsIff s p) (hpq : p ↔ q) : x.SucceedsIff s q :=
  ⟨fun hq => h.ok (hpq.mpr hq), fun hq => h.refused fun hp => hq (hpq.mp hp)⟩

end SucceedsIff

end Action

open EditableText.Action EditableText.Call

namespace Document

variable {doc start after : Document} {deeds : List (Deed × List Delivery)} {t : Text}
  {options : DocumentOptions}

structure Checks (doc : Document) : Prop where
  replaceWithMap (offset length : Nat) (t : Text) (map : OffsetMap) :
    (Document.replaceWithMap offset length t map).SucceedsIff doc (doc.Admissible offset length t map)
  replaceWithMapping (offset length : Nat) (t : Text) (mapping : ChangeMapping)
    (hword : mapping = .characterReplace → doc.textLength < UInt64.size) :
    (Document.replaceWithMapping offset length t mapping).SucceedsIff doc (offset + length ≤ doc.textLength)
  replace (offset length : Nat) (t : Text) :
    (Document.replace offset length t).SucceedsIff doc (offset + length ≤ doc.textLength)
  remove (offset length : Nat) :
    (Document.remove offset length).SucceedsIff doc (offset + length ≤ doc.textLength)
  insert (offset : Nat) (t : Text) : (Document.insert offset t).SucceedsIff doc (offset ≤ doc.textLength)
  insertWithMovement (offset : Nat) (t : Text) (movement : AnchorMovement) :
    (Document.insertWithMovement offset t movement).SucceedsIff doc (offset ≤ doc.textLength)
  setText (t : Text) : (Document.setText t).SucceedsIff doc (doc.updateDepth = 0)
  undo : Document.undo.SucceedsIff doc (doc.updateDepth = 0)
  redo : Document.redo.SucceedsIff doc (doc.updateDepth = 0)
  endUpdate : Document.endUpdate.SucceedsIff doc (0 < doc.updateDepth)

lemma admissible_offsetMap (offset length : Nat) (t : Text) (mapping : ChangeMapping)
    (hword : mapping = .characterReplace → doc.textLength < UInt64.size) :
    doc.Admissible offset length t (mapping.offsetMap offset length t.length) ↔
      offset + length ≤ doc.textLength :=
  ⟨And.left, fun h => ⟨h, .inr (mapping.fits_offsetMap fun heq _ _ _ => by have := hword heq; omega)⟩⟩

lemma insertion_ne_characterReplace (movement : AnchorMovement) :
    (if movement = .beforeInsertion then ChangeMapping.keepAnchorBeforeInsertion else .normal) ≠
      .characterReplace := by
  split <;> simp

lemma Steady.replaceWithMap_succeedsIff (h : doc.Steady) (offset length : Nat) (t : Text) (map : OffsetMap) :
    (Document.replaceWithMap offset length t map).SucceedsIff doc (doc.Admissible offset length t map) := by
  obtain ⟨o, log, after, hrun, hcases⟩ := h.runs_replaceWithMap offset length t map
  rcases hcases with ⟨⟨e, rfl⟩, hnot, rfl, rfl⟩ | ⟨rfl, hadmissible, -⟩ | ⟨rfl, hadmissible, -⟩
  · exact .of_refused hrun hnot
  · exact .of_ok hrun hadmissible
  · exact .of_ok hrun hadmissible

namespace Sound

lemma setText_succeedsIff (h : doc.Sound) (t : Text) :
    (Document.setText t).SucceedsIff doc (doc.updateDepth = 0) := by
  rcases Nat.eq_zero_or_pos doc.updateDepth with hd | hd
  · obtain ⟨_, _, hrun, -⟩ := h.runs_setText hd t
    exact .of_ok hrun hd
  · exact .of_refused (h.runs_setText_in_update hd t) (Nat.ne_of_gt hd)

lemma playBack_succeedsIff (h : doc.Sound) (d : Direction) :
    (playBack d).SucceedsIff doc (doc.updateDepth = 0) := by
  rcases Nat.eq_zero_or_pos doc.updateDepth with hd | hd
  · cases halong : d.along doc.timeline with
    | none => exact .of_ok (h.runs_playBack_nothing hd halong) hd
    | some line =>
      obtain ⟨_, _, hrun, -⟩ := h.runs_playBack hd halong
      exact .of_ok hrun hd
  · exact .of_refused (h.runs_playBack_in_update d hd) (Nat.ne_of_gt hd)

lemma endUpdate_succeedsIff (h : doc.Sound) : Document.endUpdate.SucceedsIff doc (0 < doc.updateDepth) := by
  cases hd : doc.updateDepth with
  | zero => exact .of_refused (runs_endUpdate_closed h.inChange hd) (Nat.lt_irrefl 0)
  | succ depth =>
    obtain ⟨_, _, hrun, -⟩ := Document.runs_endUpdate h.quiet h.inChange hd
      (History.endGroup_eq (h.depth.trans hd) h.single)
    exact .of_ok hrun (Nat.succ_pos depth)

theorem checks (h : doc.Sound) : doc.Checks where
  replaceWithMap := h.replaceWithMap_succeedsIff
  replaceWithMapping offset length t mapping hword :=
    (h.replaceWithMap_succeedsIff ..).congr (admissible_offsetMap offset length t mapping hword)
  replace offset length t :=
    (h.replaceWithMap_succeedsIff ..).congr (admissible_offsetMap offset length t .normal nofun)
  remove offset length :=
    (h.replaceWithMap_succeedsIff ..).congr (admissible_offsetMap offset length [] .normal nofun)
  insert offset t := (h.replaceWithMap_succeedsIff ..).congr (admissible_offsetMap offset 0 t .normal nofun)
  insertWithMovement offset t movement := (h.replaceWithMap_succeedsIff ..).congr
    (admissible_offsetMap offset 0 t _ fun heq => absurd heq (insertion_ne_characterReplace movement))
  setText := h.setText_succeedsIff
  undo := h.playBack_succeedsIff .back
  redo := h.playBack_succeedsIff .forth
  endUpdate := h.endUpdate_succeedsIff

end Sound

end Document

end EditableText
