import EditableText.Proofs.History.Timeline

namespace EditableText

open Change

namespace Timeline

variable {line next : Timeline} {limit : Nat} {t : Text}

def first (line : Timeline) : Text := line.past.getLastD line.present

lemma first_record (h : line.past.length < limit) : (line.record limit t).first = line.first := by
  rw [record, first, List.take_of_length_le (by rw [List.length_cons]; omega), List.getLastD_cons, first]

lemma forth_of_back (h : line.back = some next) : next.forth = some line := by
  obtain ⟨past, present, future⟩ := line
  cases past with
  | nil => cases h
  | cons before past =>
    obtain rfl := Option.some.inj h
    rfl

lemma first_of_forth (h : line.forth = some next) : next.first = line.first := by
  obtain ⟨past, present, future⟩ := line
  cases future with
  | nil => cases h
  | cons later future =>
    obtain rfl := Option.some.inj h
    exact List.getLastD_cons

lemma first_of_back (h : line.back = some next) : next.first = line.first :=
  (first_of_forth (forth_of_back h)).symm

lemma first_of_back_eq_none (h : line.back = none) : line.first = line.present := by
  obtain ⟨past, present, future⟩ := line
  cases past with
  | nil => rfl
  | cons before past => cases h

end Timeline

lemma Direction.first_of_along {d : Direction} {line next : Timeline} (h : d.along line = some next) :
    next.first = line.first := by
  cases d with
  | back => exact Timeline.first_of_back h
  | forth => exact Timeline.first_of_forth h

namespace History

structure InStep (h : History) (first t : Text) : Prop where
  idle : h.phase = .idle
  single : h.continuesTop = false
  accepts : h.acceptsChanges = true
  room : h.undo.length + h.redo.length ≤ h.limit
  closed : h.depth = 0 → h.pending = []
  leads : h.Leads t
  first_eq : (h.timeline t).first = first

variable {h : History} {first t : Text} {c : Change} {depth : Nat} {group : ChangeGroup}
  {rest : List ChangeGroup}

namespace InStep

lemma startGroup (hs : h.InStep first t) : h.startGroup.InStep first t := by
  obtain ⟨hleads, htimeline⟩ := hs.leads.congr h.startGroup rfl rfl rfl
  refine ⟨hs.idle, ?_, hs.accepts, hs.room, fun hz => absurd hz (Nat.succ_ne_zero _), hleads, ?_⟩
  · simp [History.startGroup, hs.single]
  · rw [htimeline]
    exact hs.first_eq

lemma push (hs : h.InStep first t) (hd : 0 < h.depth) (hc : c.Fits t) :
    h.push c = .ok { h with pending := h.pending ++ [c] } ∧
      ({ h with pending := h.pending ++ [c] } : History).InStep first (c.apply t) := by
  obtain ⟨hleads, htimeline⟩ := hs.leads.pend hc
  refine ⟨by rw [push_eq hs.idle hd, if_pos hs.accepts], hs.idle, hs.single, hs.accepts, hs.room, ?_, hleads,
    ?_⟩
  · exact fun hz => absurd hz (Nat.ne_of_gt hd)
  · rw [htimeline]
    exact hs.first_eq

lemma endGroup (hs : h.InStep first t) (hd : h.depth = depth + 1) (hroom : h.undo.length < h.limit) :
    ∃ after, h.endGroup = .ok after ∧ after.InStep first t ∧ after.depth = depth ∧
      (0 < depth → after.undo.length < after.limit) := by
  have hinner := hs.leads.congr { h with depth } rfl rfl rfl
  refine ⟨_, endGroup_eq hd hs.single, ?_⟩
  split
  case isTrue hp =>
    obtain ⟨hleads, htimeline⟩ := hinner.1.pushPending
    refine ⟨⟨hs.idle, hs.single, hs.accepts, ?_, fun _ => rfl, hleads, ?_⟩, rfl, by omega⟩
    · change ((h.pending :: h.undo).take h.limit).length + 0 ≤ h.limit
      rw [List.length_take]
      omega
    · rw [htimeline, hinner.2, Timeline.first_record, hs.first_eq]
      change (textsAlong h.backward _).length < h.limit
      rwa [length_textsAlong, backward, List.length_map]
  case isFalse hp =>
    refine ⟨⟨hs.idle, hs.single, hs.accepts, hs.room, fun hz => ?_, hinner.1, ?_⟩, rfl, fun _ => hroom⟩
    · exact not_not.mp fun hne => hp ⟨hz, hne⟩
    · rw [hinner.2]
      exact hs.first_eq

lemma isClosed (hs : h.InStep first t) (hd : h.depth = 0) : h.Closed := ⟨hs.idle, hd, hs.closed hd⟩

lemma played {d : Direction} (hs : h.InStep first t) (hd : h.depth = 0) (hgroups : d.groups h = group :: rest) :
    let after := d.finish (d.handed group rest h)
    FitAll (d.changes group) t ∧ after.InStep first (applyAll (d.changes group) t) ∧
      d.along (h.timeline t) = some (after.timeline (applyAll (d.changes group) t)) := by
  intro after
  have hpending : after.pending = [] := by simp [after, hs.closed hd]
  obtain ⟨hfits, hleads, halong⟩ := hs.leads.played after (hs.closed hd) hgroups (by simp [after])
    (Direction.opposite_groups_finish_handed hgroups hs.room) hpending
  refine ⟨hfits, ⟨by simp [after], ?_, ?_, Direction.room_finish_handed hgroups hs.room, fun _ => hpending, hleads,
    (Direction.first_of_along halong).trans hs.first_eq⟩, halong⟩
  · cases d <;> exact hs.single
  · cases d <;> exact hs.accepts

end InStep

end History

end EditableText
