import EditableText.Proofs.Change
import EditableText.Proofs.History.Direction
import EditableText.History.Call

namespace EditableText

lemma HistoryCall.eq_of_quiet {h after : History} {reply : HistoryReply}
    (hq : quiet h = .ok (reply, after)) : h = after := (Prod.mk.inj (Except.ok.inj hq)).2

namespace History

lemma checkPlayback_eq_ok {h : History} (hok : h.checkPlayback = .ok ()) : h.depth = 0 ∧ h.phase = .idle := by
  rw [checkPlayback] at hok
  split at hok
  · cases hok
  · split at hok
    · cases hok
    · exact ⟨by omega, by simp_all⟩

lemma enterModify_eq {h : History} {group : ChangeGroup} (hphase : h.phase = .playback group) :
    h.enterModify = { h with phase := .modifying group } := by
  rw [enterModify]
  simp only [hphase]

lemma exitModify_enterModify {h : History} {group : ChangeGroup} (hphase : h.phase = .playback group) :
    h.enterModify.exitModify = h := by
  rw [enterModify_eq hphase]
  simp only [exitModify, ← hphase]

structure OfChanges (P : Change → Prop) (h : History) : Prop where
  undo : ∀ group ∈ h.undo, ∀ c ∈ group, P c
  redo : ∀ group ∈ h.redo, ∀ c ∈ group, P c
  played : ∀ c ∈ h.phase.group, P c
  pending : ∀ c ∈ h.pending, P c

namespace OfChanges

variable {P : Change → Prop} {h after : History}

lemma withLimit (limit : Nat) : (History.withLimit limit).OfChanges P :=
  ⟨by simp [History.withLimit], by simp [History.withLimit],
    by simp [History.withLimit, Phase.group], by simp [History.withLimit]⟩

lemma enforceLimit (hh : h.OfChanges P) : h.enforceLimit.OfChanges P :=
  ⟨fun group hg => hh.undo group (List.mem_of_mem_take hg), hh.redo, hh.played, hh.pending⟩

lemma clearRedo (hh : h.OfChanges P) : h.clearRedo.OfChanges P :=
  ⟨hh.undo, by simp [History.clearRedo], hh.played, hh.pending⟩

lemma pushGroup (hh : h.OfChanges P) {group : ChangeGroup} (hg : ∀ c ∈ group, P c) :
    (h.pushGroup group).OfChanges P := by
  have hcleared := hh.clearRedo
  refine enforceLimit ⟨?_, hcleared.redo, hcleared.played, hcleared.pending⟩
  intro other hmem
  rcases List.mem_cons.mp hmem with rfl | hold
  · exact hg
  · exact hcleared.undo other hold

lemma setLimit (hh : h.OfChanges P) (limit : Nat) : (h.setLimit limit).OfChanges P :=
  enforceLimit ⟨hh.undo, hh.redo, hh.played, hh.pending⟩

lemma startGroup (hh : h.OfChanges P) : h.startGroup.OfChanges P :=
  ⟨hh.undo, hh.redo, hh.played, hh.pending⟩

lemma startContinuedGroup (hh : h.OfChanges P) : h.startContinuedGroup.OfChanges P :=
  ⟨hh.undo, hh.redo, hh.played, hh.pending⟩

lemma commit (hh : h.OfChanges P) : h.commit.OfChanges P := by
  have hcleared : ({ h with pending := [] } : History).OfChanges P :=
    ⟨hh.undo, hh.redo, hh.played, by simp⟩
  rw [History.commit]
  split
  case h_1 top rest hundo _ =>
    refine clearRedo ⟨?_, hh.redo, hh.played, by simp⟩
    intro group hmem c hc
    rcases List.mem_cons.mp hmem with rfl | hold
    · rcases List.mem_append.mp hc with htop | hpending
      · exact hh.undo top (by simp_all) c htop
      · exact hh.pending c hpending
    · exact hh.undo group (by simp_all) c hc
  case h_2 => exact hcleared.pushGroup hh.pending

lemma endGroup (hh : h.OfChanges P) (hafter : h.endGroup = .ok after) : after.OfChanges P := by
  rw [History.endGroup] at hafter
  split at hafter
  case h_1 => simp at hafter
  case h_2 depth _ =>
    have hinner : ({ h with depth } : History).OfChanges P :=
      ⟨hh.undo, hh.redo, hh.played, hh.pending⟩
    rw [← Except.ok.inj hafter]
    split
    · exact hinner.commit
    · exact hinner

lemma push (hh : h.OfChanges P) {c : Change} (hc : P c) (hafter : h.push c = .ok after) :
    after.OfChanges P := by
  rw [History.push] at hafter
  split at hafter
  case h_1 => exact Except.ok.inj hafter ▸ hh
  case h_2 => simp at hafter
  case h_3 =>
    split at hafter
    · exact Except.ok.inj hafter ▸ hh
    · split at hafter
      · rw [← Except.ok.inj hafter]
        refine ⟨hh.undo, hh.redo, hh.played, ?_⟩
        simpa [or_imp, forall_and] using ⟨hh.pending, hc⟩
      · exact Except.ok.inj hafter ▸ hh.pushGroup (by simpa using hc)

lemma groups (hh : h.OfChanges P) (d : Direction) : ∀ group ∈ d.groups h, ∀ c ∈ group, P c := by
  cases d with
  | back => exact hh.undo
  | forth => exact hh.redo

lemma handOut (hh : h.OfChanges P) {d : Direction} {given : Option ChangeGroup}
    (hafter : d.handOut h = .ok (given, after)) : after.OfChanges P ∧ ∀ group ∈ given, ∀ c ∈ group, P c := by
  rcases Direction.handOut_eq_ok hafter with ⟨-, rfl, rfl⟩ | ⟨top, rest, hgroups, rfl, rfl⟩
  · exact ⟨hh, by simp⟩
  have hboth := hh.groups d
  rw [hgroups, List.forall_mem_cons] at hboth
  obtain ⟨htop, hrest⟩ := hboth
  refine ⟨?_, by simpa using htop⟩
  cases d with
  | back => exact ⟨hrest, hh.redo, htop, hh.pending⟩
  | forth => exact ⟨hh.undo, hrest, htop, hh.pending⟩

lemma endUndo (hh : h.OfChanges P) : h.endUndo.OfChanges P := by
  refine ⟨hh.undo, ?_, by simp [History.endUndo, shiftSaved, Phase.group], hh.pending⟩
  intro group hmem
  rcases List.mem_cons.mp hmem with rfl | hold
  · exact hh.played
  · exact hh.redo group hold

lemma endRedo (hh : h.OfChanges P) : h.endRedo.OfChanges P := by
  refine enforceLimit ⟨?_, hh.redo, by simp [shiftSaved, Phase.group], hh.pending⟩
  intro group hmem
  rcases List.mem_cons.mp hmem with rfl | hold
  · exact hh.played
  · exact hh.undo group hold

lemma finish (hh : h.OfChanges P) (d : Direction) : (d.finish h).OfChanges P := by
  cases d with
  | back => exact hh.endUndo
  | forth => exact hh.endRedo

lemma enterModify (hh : h.OfChanges P) : h.enterModify.OfChanges P := by
  rw [History.enterModify]
  split
  case h_1 group hphase =>
    have hplayed := hh.played
    rw [hphase] at hplayed
    exact ⟨hh.undo, hh.redo, hplayed, hh.pending⟩
  case h_2 => exact hh

lemma exitModify (hh : h.OfChanges P) : h.exitModify.OfChanges P := by
  rw [History.exitModify]
  split
  case h_1 group hphase =>
    have hplayed := hh.played
    rw [hphase] at hplayed
    exact ⟨hh.undo, hh.redo, hplayed, hh.pending⟩
  case h_2 => exact hh

lemma setAcceptsChanges (hh : h.OfChanges P) (accepts : Bool) : (h.setAcceptsChanges accepts).OfChanges P :=
  ⟨hh.undo, hh.redo, hh.played, hh.pending⟩

lemma markSaved (hh : h.OfChanges P) : h.markSaved.OfChanges P :=
  ⟨hh.undo, hh.redo, hh.played, hh.pending⟩

lemma discardSaved (hh : h.OfChanges P) : h.discardSaved.OfChanges P :=
  ⟨hh.undo, hh.redo, hh.played, hh.pending⟩

lemma clear (hh : h.OfChanges P) (hafter : h.clear = .ok after) : after.OfChanges P := by
  rw [History.clear] at hafter
  split at hafter
  case isTrue => simp at hafter
  case isFalse =>
    rw [← Except.ok.inj hafter]
    exact ⟨by simp, by simp, hh.played, hh.pending⟩

lemma perform (hh : h.OfChanges P) (hp : ∀ offset removed inserted, P (.ofEdit offset removed inserted))
    {call : HistoryCall} {reply : HistoryReply} (hafter : call.perform h = .ok (reply, after)) :
    after.OfChanges P := by
  cases call with
  | push offset removed inserted =>
    obtain ⟨next, hnext, hquiet⟩ := exists_of_bind_eq_ok hafter
    obtain rfl := HistoryCall.eq_of_quiet hquiet
    exact hh.push (hp _ _ _) hnext
  | startGroup => exact HistoryCall.eq_of_quiet hafter ▸ hh.startGroup
  | startContinuedGroup => exact HistoryCall.eq_of_quiet hafter ▸ hh.startContinuedGroup
  | endGroup =>
    obtain ⟨next, hnext, hquiet⟩ := exists_of_bind_eq_ok hafter
    obtain rfl := HistoryCall.eq_of_quiet hquiet
    exact hh.endGroup hnext
  | beginUndo =>
    obtain ⟨next, hnext, hok⟩ := exists_of_bind_eq_ok hafter
    obtain ⟨-, rfl⟩ := Prod.mk.inj (Except.ok.inj hok)
    exact (hh.handOut (d := .back) hnext).1
  | endUndo => exact HistoryCall.eq_of_quiet hafter ▸ hh.endUndo
  | beginRedo =>
    obtain ⟨next, hnext, hok⟩ := exists_of_bind_eq_ok hafter
    obtain ⟨-, rfl⟩ := Prod.mk.inj (Except.ok.inj hok)
    exact (hh.handOut (d := .forth) hnext).1
  | endRedo => exact HistoryCall.eq_of_quiet hafter ▸ hh.endRedo
  | enterModify => exact HistoryCall.eq_of_quiet hafter ▸ hh.enterModify
  | exitModify => exact HistoryCall.eq_of_quiet hafter ▸ hh.exitModify
  | setLimit limit => exact HistoryCall.eq_of_quiet hafter ▸ hh.setLimit limit
  | setAcceptsChanges accepts => exact HistoryCall.eq_of_quiet hafter ▸ hh.setAcceptsChanges accepts
  | markSaved => exact HistoryCall.eq_of_quiet hafter ▸ hh.markSaved
  | discardSaved => exact HistoryCall.eq_of_quiet hafter ▸ hh.discardSaved
  | clear =>
    obtain ⟨next, hnext, hquiet⟩ := exists_of_bind_eq_ok hafter
    obtain rfl := HistoryCall.eq_of_quiet hquiet
    exact hh.clear hnext
  | clearRedo => exact HistoryCall.eq_of_quiet hafter ▸ hh.clearRedo

end OfChanges

end History

namespace Direction

variable {d : Direction} {h : History} {group : ChangeGroup} {handed : Option ChangeGroup × History}

lemma idle_of_handOut (hok : d.handOut h = .ok handed) : h.depth = 0 ∧ h.phase = .idle :=
  History.checkPlayback_eq_ok (checkPlayback_of_handOut hok)

lemma finish_enterModify (d : Direction) (hphase : h.phase = .playback group) :
    d.finish h.enterModify = d.finish h := by
  rw [History.enterModify_eq hphase]
  cases d <;> simp only [finish, History.endUndo, History.endRedo, hphase, Phase.group]

lemma changes_balanced (d : Direction) (hgroup : ∀ c ∈ group, c.Balanced) : ∀ c ∈ d.changes group, c.Balanced := by
  cases d with
  | back =>
    intro c hmem
    obtain ⟨original, horiginal, rfl⟩ := List.mem_map.mp hmem
    exact (hgroup original (List.mem_reverse.mp horiginal)).inverse
  | forth => exact hgroup

end Direction

end EditableText
