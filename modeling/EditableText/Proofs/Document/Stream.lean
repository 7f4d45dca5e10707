import EditableText.Proofs.Document.Update

namespace EditableText

def reports (id : AnchorId) (log : List Notice) : Nat := (log.map (·.event)).count (.anchorDeleted id)

lemma reports_append (id : AnchorId) (a b : List Notice) :
    reports id (a ++ b) = reports id a + reports id b := by
  simp [reports]

lemma count_anchorDeleted (id : AnchorId) (deleted : List AnchorId) :
    (deleted.map DocumentEvent.anchorDeleted).count (.anchorDeleted id) = deleted.count id := by
  rw [List.count, List.countP_map, List.count]
  refine List.countP_congr fun a _ => ?_
  simp

inductive Changes : List Notice → Prop
  | none : Changes []
  | next {c : Change} {before after : Document} {deletions rest : List Notice}
    (hd : deletions.map (·.event) = (before.anchors.lost after.anchors).map .anchorDeleted)
    (h : Changes rest) : Changes (⟨.changing c, before⟩ :: ⟨.changed c, after⟩ :: (deletions ++ rest))

lemma Changes.append {a b : List Notice} (ha : Changes a) (hb : Changes b) : Changes (a ++ b) := by
  induction ha with
  | none => exact hb
  | next hd h ih =>
    rw [List.cons_append, List.cons_append, List.append_assoc]
    exact .next hd ih

inductive Block : List Notice → Prop
  | mk {start : Document} {changes closing : List Notice} {lineCount : Nat} (hc : Changes changes)
    (hclosing : closing.map (·.event) =
      Document.closingEvents start.lineCount lineCount (!changes.isEmpty))
    (hseen : ∀ n ∈ closing, n.seen.lineCount = lineCount) :
    Block (⟨.updateStarted, start⟩ :: (changes ++ closing))

namespace Document

variable {doc mid after : Document} {log log' : List Notice} {c : Change} {history : History}

def InBlock (doc : Document) (log : List Notice) : Prop :=
  ∃ start changes, log = ⟨.updateStarted, start⟩ :: changes ∧ Changes changes ∧
    doc.lineCountAtUpdate = start.lineCount ∧ doc.updateChangedText = !changes.isEmpty

inductive Moves : Document → List Notice → Document → Prop
  | refl (doc : Document) : Moves doc [] doc
  | opened {doc mid after : Document} {log log' : List Notice} (h : Moves doc log mid)
    (hd : 0 < mid.updateDepth) (ho : mid.Opened log' after) : Moves doc (log ++ log') after
  | changed {doc mid after : Document} {log log' : List Notice} {c : Change} {history : History}
    (h : Moves doc log mid) (hc : mid.Changed c history log' after) : Moves doc (log ++ log') after
  | closed {doc mid after : Document} {log log' : List Notice} (h : Moves doc log mid)
    (hc : mid.Closed log' after) (hd : 0 < after.updateDepth) : Moves doc (log ++ log') after

/-- Of the anchors with one handle no more are reported as deleted than are no longer live. -/
def Tallied (doc : Document) (log : List Notice) (after : Document) : Prop :=
  ∀ id, reports id log + after.anchors.liveAt id ≤ doc.anchors.liveAt id

lemma Tallied.trans (h : doc.Tallied log mid) (h' : mid.Tallied log' after) :
    doc.Tallied (log ++ log') after := by
  intro id
  have hfirst := h id
  have hsecond := h' id
  rw [reports_append]
  omega

namespace Opened

lemma depth_pos (h : doc.Opened log after) : 0 < after.updateDepth := by
  rw [h.depth]
  exact Nat.succ_pos _

lemma tallied (h : doc.Opened log after) : doc.Tallied log after := by
  intro id
  have hreports : reports id log = 0 := by
    rcases Nat.eq_zero_or_pos doc.updateDepth with hz | hpos
    · obtain ⟨⟨seen, rfl, -⟩, -⟩ := h.outer hz
      simp [reports]
    · obtain ⟨rfl, -⟩ := h.inner hpos
      rfl
  rw [hreports, h.anchors]
  omega

lemma inBlock (h : doc.Opened log after) (hd : doc.updateDepth = 0) : after.InBlock log := by
  obtain ⟨⟨start, rfl, hcount⟩, hchanged, hlines⟩ := h.outer hd
  exact ⟨start, [], rfl, .none, hlines.trans hcount.symm, hchanged⟩

lemma inBlock_inner (h : doc.Opened log' after) (hd : 0 < doc.updateDepth) (hb : doc.InBlock log) :
    after.InBlock (log ++ log') := by
  obtain ⟨rfl, hchanged, hlines⟩ := h.inner hd
  obtain ⟨start, changes, rfl, hc, hcount, hflag⟩ := hb
  exact ⟨start, changes, by simp, hc, hlines.trans hcount, hchanged.trans hflag⟩

end Opened

namespace Changed

lemma tallied (h : doc.Changed c history log after) : doc.Tallied log after := by
  intro id
  obtain ⟨before, changed, deletions, rfl, hevents, hbefore, hafter⟩ := h.announces
  have hlost := doc.anchors.count_deleted_add_liveAt_le id c.map after.text.length
  rw [AnchorTable.lost_follow, ← h.anchors] at hlost
  have hreports : reports id (⟨.changing c, before⟩ :: ⟨.changed c, changed⟩ :: deletions) =
      (doc.anchors.lost after.anchors).count id := by
    rw [reports, List.map_cons, List.map_cons, hevents, hbefore, hafter]
    simp only [List.count_cons, beq_iff_eq, reduceCtorEq, if_false, Nat.add_zero]
    exact count_anchorDeleted id _
  rw [hreports]
  exact hlost

lemma inBlock (h : doc.Changed c history log' after) (hb : doc.InBlock log) :
    after.InBlock (log ++ log') := by
  obtain ⟨before, changed, deletions, rfl, hevents, -, -⟩ := h.announces
  obtain ⟨start, changes, rfl, hc, hcount, -⟩ := hb
  refine ⟨start, changes ++ ⟨.changing c, before⟩ :: ⟨.changed c, changed⟩ :: deletions, by simp,
    hc.append ?_, h.lineCountAtUpdate.trans hcount, ?_⟩
  · have hnext := Changes.next (c := c) hevents .none
    rwa [List.append_nil] at hnext
  · rw [h.changedText]
    simp

end Changed

lemma Left.inBlock (h : doc.Left log' after) (hd : 0 < after.updateDepth) (hb : doc.InBlock log) :
    after.InBlock (log ++ log') := by
  obtain ⟨rfl, hchanged, hlines⟩ := h.inner hd
  obtain ⟨start, changes, rfl, hc, hcount, hflag⟩ := hb
  exact ⟨start, changes, by simp, hc, hlines.trans hcount, hchanged.trans hflag⟩

namespace Closed

lemma events_eq (h : doc.Closed log after) : log.map (·.event) =
    if after.updateDepth = 0 then
      closingEvents doc.lineCountAtUpdate doc.lineCount doc.updateChangedText
    else [] := by
  split
  case isTrue hz => exact (h.outer hz).1
  case isFalse hpos =>
    obtain ⟨rfl, -⟩ := h.inner (Nat.pos_of_ne_zero hpos)
    rfl

lemma tallied (h : doc.Closed log after) : doc.Tallied log after := by
  intro id
  have hreports : reports id log = 0 := by
    rw [reports, h.events_eq, List.count_eq_zero]
    unfold closingEvents
    split_ifs <;> simp
  rw [hreports, h.anchors]
  omega

lemma block (h : doc.Closed log' after) (hd : after.updateDepth = 0) (hb : doc.InBlock log) :
    Block (log ++ log') := by
  obtain ⟨hevents, hseen⟩ := h.outer hd
  obtain ⟨start, changes, rfl, hc, hcount, hflag⟩ := hb
  rw [hcount, hflag] at hevents
  exact .mk hc hevents hseen

end Closed

namespace Moves

lemma kept (h : Moves doc log after) : doc.Kept log after := by
  induction h with
  | refl => exact .refl doc
  | opened _ _ ho ih => exact ih.trans ho.toKept
  | changed _ hc ih => exact ih.trans hc.toKept
  | closed _ hc _ ih => exact ih.trans hc.toKept

lemma tallied (h : Moves doc log after) : doc.Tallied log after := by
  induction h with
  | refl => exact fun id => by simp [reports]
  | opened _ _ ho ih => exact ih.trans ho.tallied
  | changed _ hc ih => exact ih.trans hc.tallied
  | closed _ hc _ ih => exact ih.trans hc.tallied

lemma inBlock (h : Moves doc log' after) (hb : doc.InBlock log) : after.InBlock (log ++ log') := by
  induction h with
  | refl => simpa using hb
  | opened _ hd ho ih => exact List.append_assoc .. ▸ ho.inBlock_inner hd ih
  | changed _ hc ih => exact List.append_assoc .. ▸ hc.inBlock ih
  | closed _ hc hd ih => exact List.append_assoc .. ▸ hc.toLeft.inBlock hd ih

end Moves

end Document

end EditableText
