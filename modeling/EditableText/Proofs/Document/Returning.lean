import EditableText.Proofs.Change.Group
import EditableText.Proofs.Document.Anchoring
import EditableText.Proofs.Document.Guards
import EditableText.Proofs.Document.Tracking

namespace EditableText

open EditableText.Action EditableText.Change EditableText.ChangeGroup

def AnchorTable.LiveAt (table : AnchorTable) (id : AnchorId) (offset : Nat) : Prop :=
  ∃ a, table.get id = .ok a ∧ a.isDeleted = false ∧ a.offset = offset

namespace Document

open AnchorTable (get_eq_ok get_of_slot)

variable {start doc mid after : Document} {move : Move} {moves : List Move} {id : AnchorId} {slot : AnchorSlot}
  {movement : AnchorMovement} {group : ChangeGroup} {offset : Nat} {deliveries : List Delivery}

namespace Link

lemma passes (h : Link doc move after) (ht : doc.anchors.Tidy) (hslot : doc.anchors.slot id = .ok slot)
    (hlive : slot.state = .live) (hmove : move ≠ .release id) (hexact : ExactAll (Move.changes [move]) doc.text)
    (hoffset : slot.offset ≤ doc.text.length) (ho : Outside (Move.changes [move]) movement slot.offset) :
    ∃ slot', after.anchors.slot id = .ok slot' ∧ slot'.state = .live ∧
      slot'.offset = ChangeGroup.newOffset (Move.changes [move]) movement slot.offset := by
  obtain ⟨hrange, htext⟩ := h.applied
  obtain ⟨slot', hslot', hleads⟩ := h.exists_slot ht hslot hmove
  refine ⟨slot', hslot', ?_⟩
  cases h with
  | @change _ c happlied =>
    obtain ⟨slot'', hslot'', hcarried⟩ := happlied.exists_slot hslot
    obtain rfl := Except.ok.inj (hslot'.symm.trans hslot'')
    have hle : c.newOffset slot.movement slot.offset ≤ after.text.length := by
      rw [htext]
      exact ChangeGroup.newOffset_le hrange hexact slot.movement hoffset
    rw [hcarried.moved hlive (AnchorSlot.not_lostAlong_of_outside hexact.1 ho.1 hoffset), Nat.min_eq_left hle]
    exact ⟨hlive, (ho.congr hrange hexact hoffset slot.movement).2⟩
  | create | release | adjust => exact ⟨hleads.1.trans hlive, hleads.2⟩

end Link

namespace Course

lemma passes (h : Course doc moves after) (ht : doc.anchors.Tidy) (hslot : doc.anchors.slot id = .ok slot)
    (hlive : slot.state = .live) (hmoves : .release id ∉ moves) (hexact : ExactAll (Move.changes moves) doc.text)
    (hoffset : slot.offset ≤ doc.text.length) (ho : Outside (Move.changes moves) movement slot.offset) :
    ∃ slot', after.anchors.slot id = .ok slot' ∧ slot'.state = .live ∧
      slot'.offset = ChangeGroup.newOffset (Move.changes moves) movement slot.offset := by
  induction h with
  | refl => exact ⟨slot, hslot, hlive, rfl⟩
  | still _ hmatter ih =>
    rw [anchors_eq_of_matter hmatter]
    exact ih hmoves hexact ho
  | @step moves mid after move hcourse hlink ih =>
    rw [List.mem_append, List.mem_singleton, not_or] at hmoves
    rw [Move.changes_append, outside_append] at ho
    rw [Move.changes_append, exactAll_append] at hexact
    obtain ⟨hrange, htext⟩ := hcourse.applied
    obtain ⟨slot', hslot', hlive', hoffset'⟩ := ih hmoves.1 hexact.1 ho.1
    have hinside : slot'.offset ≤ mid.text.length := by
      rw [hoffset', htext]
      exact ChangeGroup.newOffset_le hrange hexact.1 movement hoffset
    rw [Move.changes_append, ChangeGroup.newOffset_append, ← hoffset']
    exact hlink.passes (hcourse.tidy ht) hslot' hlive' (fun hmove => hmoves.2 hmove.symm)
      (htext ▸ hexact.2) hinside (hoffset' ▸ ho.2)

end Course

structure Stays (id : AnchorId) (offset : Nat) (doc : Document) : Prop extends Sturdy doc where
  inChange : doc.inChange = false
  placed : ∃ slot, doc.anchors.slot id = .ok slot ∧ slot.state = .live ∧ slot.offset = offset

namespace Stays

lemma liveAt (h : Stays id offset doc) : doc.anchors.LiveAt id offset := by
  obtain ⟨slot, hslot, hlive, hoffset⟩ := h.placed
  exact ⟨_, get_of_slot hslot, by simp [hlive], hoffset⟩

lemma along (h : Stays id offset doc) {cs : ChangeGroup} (halong : Along doc (cs.map .change) after)
    (hmark : after.inChange = false) (hexact : ExactAll cs doc.text) (ho : Outside cs movement offset) :
    Stays id (ChangeGroup.newOffset cs movement offset) after ∧
      InRangeAll cs doc.text ∧ after.text = applyAll cs doc.text := by
  obtain ⟨slot, hslot, hlive, rfl⟩ := h.placed
  have happlied := halong.course.applied
  have hpasses := halong.course.passes h.tidy hslot hlive (by simp) ((Move.changes_map cs).symm ▸ hexact)
    (h.toSturdy.offset_le hslot hlive) ((Move.changes_map cs).symm ▸ ho)
  rw [Move.changes_map] at happlied hpasses
  exact ⟨⟨halong.toSturdy, hmark, hpasses⟩, happlied⟩

end Stays

section HandingOver

structure Handled (H : History → Prop) : Prop where
  startGroup {h : History} : H h → H h.startGroup
  endGroup {h after : History} : H h → h.endGroup = .ok after → H after
  push {h after : History} {c : Change} : H h → h.push c = .ok after → H after
  enterModify {h : History} : H h → H h.enterModify
  exitModify {h : History} : H h → H h.exitModify

namespace Handled

variable {H : History → Prop} (hH : Handled H)

lemma heeded : Heeded fun doc => H doc.history where
  emit event := keeps_of_state fun doc h => by
    rw [emit]
    split <;> exact h
  marked _ h := h

include hH

lemma upkeep : Upkeep fun doc => H doc.history where
  emit _ := heeded.emit _
  noted _ _ h := h
  unmarked h := h
  opened h := hH.startGroup h
  left := by
    intro doc after h hafter
    rw [leaveUpdate] at hafter
    split at hafter
    case h_1 => cases hafter
    case h_2 =>
      obtain ⟨history, hhistory, hok⟩ := exists_of_bind_eq_ok hafter
      obtain rfl := Except.ok.inj hok
      exact hH.endGroup h (eq_ok_of_mapError_eq_ok hhistory)

lemma recorded {c : Change} {deleted : List AnchorId} (h : H doc.history)
    (hok : doc.mutate c = .ok (deleted, after)) :
    H (({ after with updateChangedText := true } : Document).record c).2.history := by
  rw [record]
  cases hpush : History.push after.history c with
  | ok history => exact hH.push (history_of_mutate hok ▸ h) hpush
  | error e => exact (history_of_mutate hok).symm ▸ h

lemma keeps_applyChange (c : Change) : Keeps (fun doc => H doc.history) (applyChange c) :=
  (heeded.applyChange heeded hH.recorded).mono (fun _ h => h) (fun _ h => h) fun _ h =>
    h.elim (fun h => h) fun h => h

lemma keeps_replay (c : Change) : Keeps (fun doc => H doc.history) (replay c) :=
  Keeps.bind (.alter fun _ h => hH.enterModify h) fun _ => (hH.keeps_applyChange c).attempt.bind fun _ =>
    Keeps.bind (.alter fun _ h => hH.exitModify h) fun _ => .ofExcept _

lemma keeps_replayAll (cs : List Change) : Keeps (fun doc => H doc.history) (replayAll cs) := by
  induction cs with
  | nil => exact .pure ()
  | cons c rest ih => exact (hH.keeps_replay c).bind fun _ => ih

end Handled

def Plays (group : ChangeGroup) (doc : Document) : Prop := doc.history.phase.group = group

lemma handled_plays : Handled fun h => h.phase.group = group where
  startGroup h := h
  endGroup {h after} hgroup hafter := by
    cases hd : h.depth with
    | zero =>
      rw [History.endGroup, hd] at hafter
      cases hafter
    | succ depth =>
      obtain ⟨after', hafter', -, hphase⟩ := History.endGroup_footing hd
      obtain rfl := Except.ok.inj (hafter.symm.trans hafter')
      rw [hphase, hgroup]
  push h hpush := (History.push_footing hpush).2 ▸ h
  enterModify {h} hgroup := by
    rw [History.enterModify]
    split
    case h_1 hphase =>
      rw [hphase] at hgroup
      exact hgroup
    case h_2 => exact hgroup
  exitModify {h} hgroup := by
    rw [History.exitModify]
    split
    case h_1 hphase =>
      rw [hphase] at hgroup
      exact hgroup
    case h_2 => exact hgroup

lemma hands_back {d : Direction} {handed : History} (hgroup : handed.phase.group = group) :
    Triple (fun _ => True) (playGroup d group handed)
      (fun after => ∀ top ∈ (d.opposite.groups after.history).head?, top = group) fun _ => True := by
  have hrun : Keeps (Plays group) (runUpdate (replayAll (d.changes group))) :=
    Upkeep.keeps_runUpdate (σ := Document) handled_plays.upkeep (handled_plays.keeps_replayAll _)
  refine Triple.bind (Q := Plays group) (.alter fun _ _ => hgroup) fun _ => ?_
  refine Triple.bind (Triple.ensuring hrun (fun doc h => ?_) fun _ _ => trivial) fun _ => .pure true fun _ h => h
  exact fun top htop => (d.opposite_head?_finish doc.history top htop).trans h

lemma playBack_hands_over {d : Direction} (hhead : (d.groups doc.history).head? = some group) :
    Triple (fun doc' => doc' = doc) (playBack d)
      (fun after => ∀ top ∈ (d.opposite.groups after.history).head?, top = group) fun _ => True := by
  refine triple_playBack trivial (fun hok => ?_) fun hok => ?_
  · cases hhead.symm.trans (Direction.head?_of_handOut hok)
  · obtain rfl := Option.some.inj (hhead.symm.trans (Direction.head?_of_handOut hok))
    refine (hands_back ?_).mono (fun _ _ => trivial) (fun _ h => h) fun _ h => h
    rw [Direction.phase_of_handOut hok, Phase.group]

end HandingOver

section Rounds

variable {d : Direction}

lemma exists_of_playBack (hmark : doc.inChange = false) (h : playBack d doc = ⟨.ok true, after, deliveries⟩) :
    ∃ group, (d.groups doc.history).head? = some group := by
  rw [show playBack d doc = _ from checked_eq d.handOut _ hmark] at h
  cases hok : d.handOut doc.history with
  | error e =>
    rw [hok] at h
    cases congrArg Run.outcome h
  | ok given =>
    have hhead := Direction.head?_of_handOut hok
    obtain ⟨_ | group, handed⟩ := given
    · rw [hok] at h
      cases congrArg Run.outcome h
    · exact ⟨group, hhead⟩

namespace Stays

lemma played (h : Stays id offset doc) (htop : ∀ top ∈ (d.groups doc.history).head?, top = group)
    (hexact : ExactAll (d.changes group) doc.text) (ho : Outside (d.changes group) movement offset)
    (hplayed : playBack d doc = ⟨.ok true, after, deliveries⟩) :
    (Stays id (ChangeGroup.newOffset (d.changes group) movement offset) after ∧
      InRangeAll (d.changes group) doc.text ∧ after.text = applyAll (d.changes group) doc.text) ∧
      ∀ top ∈ (d.opposite.groups after.history).head?, top = group := by
  obtain ⟨top, hhead⟩ := exists_of_playBack h.inChange hplayed
  obtain rfl := htop top hhead
  have hstart : Along doc [] doc := ⟨h.toSturdy, .refl⟩
  have hgroup : (d.groups doc.history).headD [] = top := by rw [List.headD_eq_head?_getD, hhead]; rfl
  have halong := playBack_along d hstart (congrArg d.changes hgroup) doc rfl
  have hmark := (keeps_playBack d).state (s := doc) ⟨h.coherent, h.inChange⟩
  have hother := playBack_hands_over hhead doc rfl
  rw [hplayed] at halong hmark hother
  exact ⟨h.along halong hmark.inChange hexact ho, hother⟩

end Stays

/-- As many times an undo and a redo, none of which finds nothing to play. -/
inductive Rounds : Nat → Document → Document → Prop
  | none (doc : Document) : Rounds 0 doc doc
  | more {n : Nat} {doc mid undone after : Document} {deliveries deliveries' : List Delivery}
    (h : Rounds n doc mid) (hundo : undo mid = ⟨.ok true, undone, deliveries⟩)
    (hredo : redo undone = ⟨.ok true, after, deliveries'⟩) : Rounds (n + 1) doc after

lemma Stays.rounds {n : Nat} {t : Text} (h : Stays id (ChangeGroup.newOffset group movement offset) doc)
    (htop : ∀ top ∈ doc.history.undo.head?, top = group) (hrange : InRangeAll group t) (hexact : ExactAll group t)
    (htext : doc.text = applyAll group t) (hoffset : offset ≤ t.length) (ho : Outside group movement offset)
    (hrounds : Rounds n doc after) :
    Stays id (ChangeGroup.newOffset group movement offset) after ∧
      (∀ top ∈ after.history.undo.head?, top = group) ∧ ExactAll group.undoChanges after.text := by
  obtain ⟨hundo, hback⟩ := ho.undo hrange hexact hoffset movement
  -- the text before the changes is another one in each round, but not of another length
  suffices Stays id (ChangeGroup.newOffset group movement offset) after ∧
      (∀ top ∈ after.history.undo.head?, top = group) ∧
      ∃ t', t'.length = t.length ∧ InRangeAll group t' ∧ after.text = applyAll group t' by
    obtain ⟨hstays, htop, t', hlength, hrange', htext'⟩ := this
    exact ⟨hstays, htop, htext' ▸ exactAll_undo hrange' (hexact.congr hlength.symm)⟩
  induction hrounds with
  | none => exact ⟨h, htop, t, rfl, hrange, htext⟩
  | @more n _ mid undone after _ _ _ hundone hredone ih =>
    obtain ⟨hstays, htop, t', hlength, hrange', htext'⟩ := ih h htop htext
    have hexactBack : ExactAll group.undoChanges mid.text :=
      htext' ▸ exactAll_undo hrange' (hexact.congr hlength.symm)
    obtain ⟨⟨hstays, -, hundoneText⟩, hredo⟩ := hstays.played (d := .back) htop hexactBack hundo hundone
    rw [Direction.changes_back] at hstays hundoneText
    have hlength' : undone.text.length = t.length := by
      rw [hundoneText, htext', (inRange_undo hrange').2, hlength]
    rw [hback] at hstays
    obtain ⟨⟨hstays, hrange'', htext''⟩, htop⟩ :=
      hstays.played (d := .forth) hredo (hexact.congr hlength'.symm) ho hredone
    exact ⟨hstays, htop, undone.text, hlength', hrange'', htext''⟩

structure Turnable (group : ChangeGroup) (f : Standing) : Prop where
  closed : f.history.Closed
  top : f.history.undo.head? = some group
  room : 0 < f.history.limit
  inRange : InRangeAll group.undoChanges f.text

lemma Turnable.undo_ok {f : Standing} (ht : Turnable group f) (h : Rested True f doc) :
    ∃ undone deliveries, undo doc = ⟨.ok true, undone, deliveries⟩ ∧
      ∃ after deliveries' g, redo undone = ⟨.ok true, after, deliveries'⟩ ∧ Rested True g after ∧
        Turnable group g := by
  obtain ⟨rest, hundo⟩ : ∃ rest, f.history.undo = group :: rest := by
    cases hundo : f.history.undo with
    | nil =>
      have htop := ht.top
      rw [hundo] at htop
      cases htop
    | cons top rest =>
      have htop := ht.top
      rw [hundo] at htop
      obtain rfl := Option.some.inj htop
      exact ⟨rest, rfl⟩
  obtain ⟨undone, deliveries, hundone, hmid⟩ := h.playBack_ok (d := .back) ht.closed hundo ht.inRange
  have hforth := (inRange_undo ht.inRange).1
  rw [undoChanges_undoChanges] at hforth
  obtain ⟨after, deliveries', hredone, hafter⟩ :=
    hmid.playBack_ok (d := .forth) ⟨rfl, ht.closed.depth_eq, ht.closed.pending_eq⟩ rfl hforth
  refine ⟨undone, deliveries, hundone, after, deliveries', _, hredone, hafter, ?_⟩
  refine ⟨⟨rfl, ht.closed.depth_eq, ht.closed.pending_eq⟩, ?_, ht.room, (inRange_undo hforth).1⟩
  change ((group :: rest).take f.history.limit).head? = some group
  obtain ⟨limit, hlimit⟩ := Nat.exists_eq_succ_of_ne_zero (Nat.ne_of_gt ht.room)
  rw [hlimit, List.take_succ_cons]
  rfl

lemma Turnable.rounds {f : Standing} (ht : Turnable group f) (h : Rested True f doc) (n : Nat) :
    ∃ mid g, Rounds n doc mid ∧ Rested True g mid ∧ Turnable group g := by
  induction n with
  | zero => exact ⟨doc, f, .none doc, h, ht⟩
  | succ n ih =>
    obtain ⟨mid, g, hrounds, hrested, hturn⟩ := ih
    obtain ⟨undone, deliveries, hundo, after, deliveries', g', hredo, hafter, hturn'⟩ := hturn.undo_ok hrested
    exact ⟨after, g', .more hrounds hundo hredo, hafter, hturn'⟩

variable {t : Text} {options : DocumentOptions}

end Rounds

end Document

end EditableText
