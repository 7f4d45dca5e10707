import EditableText.Proofs.History

/-!
The history as a list of texts with a cursor in it.
-/

namespace EditableText

open Change

namespace ChangeGroup

lemma undoChanges_cons (c : Change) (rest : List Change) :
    undoChanges (c :: rest) = undoChanges rest ++ [c.inverse] := by
  simp [undoChanges]

lemma undoChanges_undoChanges (group : ChangeGroup) : undoChanges (undoChanges group) = group := by
  simp [undoChanges, ← List.map_reverse, Function.comp_def, Change.inverse_inverse]

lemma undo_fits {group : ChangeGroup} {t : Text} (h : FitAll group t) :
    FitAll (undoChanges group) (applyAll group t) ∧
      applyAll (undoChanges group) (applyAll group t) = t := by
  induction group generalizing t with
  | nil => exact ⟨trivial, rfl⟩
  | cons c rest ih =>
    obtain ⟨hc, hrest⟩ := h
    obtain ⟨hfits, hback⟩ := ih hrest
    have hforth : applyAll (c :: rest) t = applyAll rest (c.apply t) := rfl
    rw [undoChanges_cons, fitAll_append, applyAll_append, hforth, hback]
    exact ⟨⟨hfits, hc.inverse, trivial⟩, hc.apply_inverse⟩

end ChangeGroup

/-- The texts before the cursor, the nearest first, the text at it, and those behind it. -/
structure Timeline where
  past : List Text
  present : Text
  future : List Text
  deriving DecidableEq

namespace Timeline

/-- A new text behind the cursor takes the place of all that were there, and the oldest texts beyond
the limit go. -/
def record (limit : Nat) (t : Text) (line : Timeline) : Timeline :=
  ⟨(line.present :: line.past).take limit, t, []⟩

def back : Timeline → Option Timeline
  | ⟨[], _, _⟩ => none
  | ⟨t :: past, present, future⟩ => some ⟨past, t, present :: future⟩

def forth : Timeline → Option Timeline
  | ⟨_, _, []⟩ => none
  | ⟨past, present, t :: future⟩ => some ⟨present :: past, t, future⟩

end Timeline

def Direction.along : Direction → Timeline → Option Timeline
  | back => Timeline.back
  | forth => Timeline.forth

def textsAlong : List (List Change) → Text → List Text
  | [], _ => []
  | group :: rest, t => applyAll group t :: textsAlong rest (applyAll group t)

lemma length_textsAlong (groups : List (List Change)) (t : Text) :
    (textsAlong groups t).length = groups.length := by
  induction groups generalizing t with
  | nil => rfl
  | cons group rest ih => simp [textsAlong, ih]

lemma textsAlong_take (groups : List (List Change)) (t : Text) (n : Nat) :
    textsAlong (groups.take n) t = (textsAlong groups t).take n := by
  induction n generalizing groups t with
  | zero => simp [textsAlong]
  | succ n ih =>
    cases groups with
    | nil => rfl
    | cons group rest => simp [textsAlong, ih]

lemma fitAll_take {groups : List (List Change)} {t : Text} (h : FitAll groups.flatten t) (n : Nat) :
    FitAll (groups.take n).flatten t := by
  rw [← List.take_append_drop n groups, List.flatten_append, fitAll_append] at h
  exact h.1

namespace History

lemma push_eq {h : History} (hidle : h.phase = .idle) (hd : 0 < h.depth) (c : Change) :
    h.push c = .ok { h with pending := if h.acceptsChanges then h.pending ++ [c] else h.pending } := by
  rw [push]
  split
  case h_1 group hphase => exact absurd (hphase.symm.trans hidle) (by simp)
  case h_2 group hphase => exact absurd (hphase.symm.trans hidle) (by simp)
  case h_3 =>
    by_cases haccepts : h.acceptsChanges = true
    · rw [if_neg (by simp [haccepts]), if_pos hd, if_pos haccepts]
    · rw [if_pos (by simpa using haccepts), if_neg haccepts]

lemma endGroup_eq {h : History} {depth : Nat} (hd : h.depth = depth + 1) (hsingle : h.continuesTop = false) :
    h.endGroup = .ok (if depth = 0 ∧ h.pending ≠ [] then
      ({ h with depth, pending := [] } : History).pushGroup h.pending else { h with depth }) := by
  rw [endGroup, hd]
  dsimp only
  split
  · rw [commit]
    simp [hsingle]
  · rfl

def singled (h : History) : History := { h with continuesTop := false }

def restarted (h : History) : History :=
  { h with undo := [], redo := [], continuesTop := false, stepsFromSaved := some 0 }

lemma singled_eq {h : History} (hsingle : h.continuesTop = false) : h.singled = h := by
  rw [singled, ← hsingle]

lemma singled_handed (d : Direction) (group : ChangeGroup) (rest : List ChangeGroup) (h : History) :
    (d.handed group rest h).singled = d.handed group rest h.singled := by
  cases d <;> rfl

lemma endGroup_startGroup {h : History} (hd : h.depth = 0) (hpending : h.pending = []) :
    h.startGroup.endGroup = .ok h.singled := by
  have hone : h.startGroup.depth = 0 + 1 := congrArg (· + 1) hd
  have hcontinues : h.startGroup.continuesTop = false := by simp [startGroup, hd]
  rw [endGroup_eq hone hcontinues, if_neg (by simp [startGroup, hpending]), singled, ← hcontinues, ← hd]
  rfl

structure Closed (h : History) : Prop where
  idle : h.phase = .idle
  depth_eq : h.depth = 0
  pending_eq : h.pending = []

namespace Closed

variable {h : History} {group : ChangeGroup} {rest : List ChangeGroup}

lemma checkPlayback_eq (hc : h.Closed) : h.checkPlayback = .ok () := by
  rw [checkPlayback, hc.depth_eq, hc.idle]
  rfl

lemma handOut_eq {d : Direction} (hc : h.Closed) (hgroups : d.groups h = group :: rest) :
    d.handOut h = .ok (some group, d.handed group rest h) := by
  rw [Direction.handOut_eq, hc.checkPlayback_eq, hgroups]
  rfl

lemma handOut_eq_none {d : Direction} (hc : h.Closed) (hgroups : d.groups h = []) :
    d.handOut h = .ok (none, h) := by
  rw [Direction.handOut_eq, hc.checkPlayback_eq, hgroups]
  rfl

end Closed

variable (h : History)

def baseOf (t : Text) : Text := applyAll (ChangeGroup.undoChanges h.pending) t

def backward : List (List Change) := h.undo.map ChangeGroup.undoChanges

def timeline (t : Text) : Timeline :=
  ⟨textsAlong h.backward (h.baseOf t), h.baseOf t, textsAlong h.redo (h.baseOf t)⟩

structure Leads (t : Text) : Prop where
  pending : FitAll (ChangeGroup.undoChanges h.pending) t
  undo : FitAll h.backward.flatten (h.baseOf t)
  redo : FitAll h.redo.flatten (h.baseOf t)

variable {h : History} {t : Text} {after : History}

lemma baseOf_nil (hp : h.pending = []) (t : Text) : h.baseOf t = t := by
  rw [baseOf, hp]
  rfl

lemma Leads.congr (hl : h.Leads t) (after : History) (hundo : after.undo = h.undo) (hredo : after.redo = h.redo)
    (hpending : after.pending = h.pending) : after.Leads t ∧ after.timeline t = h.timeline t := by
  have hbase : after.baseOf t = h.baseOf t := by rw [baseOf, baseOf, hpending]
  have hback : after.backward = h.backward := by rw [backward, backward, hundo]
  exact ⟨⟨hpending ▸ hl.pending, by rw [hbase, hback]; exact hl.undo, by rw [hbase, hredo]; exact hl.redo⟩,
    by rw [timeline, timeline, hbase, hback, hredo]⟩

lemma Leads.pend (hl : h.Leads t) {c : Change} (hc : c.Fits t) :
    ({ h with pending := h.pending ++ [c] } : History).Leads (c.apply t) ∧
      ({ h with pending := h.pending ++ [c] } : History).timeline (c.apply t) = h.timeline t := by
  have hundo : ChangeGroup.undoChanges (h.pending ++ [c]) =
      c.inverse :: ChangeGroup.undoChanges h.pending := by simp [ChangeGroup.undoChanges]
  have hbase : ({ h with pending := h.pending ++ [c] } : History).baseOf (c.apply t) = h.baseOf t := by
    rw [baseOf, hundo, applyAll, List.foldl_cons, hc.apply_inverse]
    rfl
  refine ⟨⟨?_, ?_, ?_⟩, ?_⟩
  · rw [hundo]
    refine ⟨hc.inverse, ?_⟩
    rw [hc.apply_inverse]
    exact hl.pending
  · rw [hbase]
    exact hl.undo
  · rw [hbase]
    exact hl.redo
  · rw [timeline, hbase]
    rfl

lemma Leads.pushPending (hl : h.Leads t) :
    let pushed := ({ h with pending := [] } : History).pushGroup h.pending
    pushed.Leads t ∧ pushed.timeline t = (h.timeline t).record h.limit t := by
  intro pushed
  have hbase : pushed.baseOf t = t := rfl
  have hback : pushed.backward =
      (ChangeGroup.undoChanges h.pending :: h.backward).take h.limit := by
    change ((h.pending :: h.undo).take h.limit).map ChangeGroup.undoChanges = _
    rw [List.map_take, List.map_cons]
    rfl
  refine ⟨⟨trivial, ?_, trivial⟩, ?_⟩
  · rw [hbase, hback]
    refine fitAll_take ?_ _
    rw [List.flatten_cons, fitAll_append]
    exact ⟨hl.pending, hl.undo⟩
  · rw [timeline, hbase, hback, textsAlong_take]
    rfl

lemma Leads.cleared (hp : h.pending = []) (hundo : h.undo = []) (hredo : h.redo = []) (t : Text) :
    h.Leads t ∧ h.timeline t = ⟨[], t, []⟩ := by
  refine ⟨⟨by rw [hp]; trivial, ?_, ?_⟩, ?_⟩
  · rw [backward, hundo]
    trivial
  · rw [hredo]
    trivial
  · rw [timeline, backward, hundo, hredo, baseOf_nil hp]
    rfl

lemma Leads.undone {group : ChangeGroup} {rest : List ChangeGroup} (hl : h.Leads t) (after : History)
    (hp : h.pending = []) (hundo : h.undo = group :: rest) (hafterUndo : after.undo = rest)
    (hafterRedo : after.redo = group :: h.redo) (hafterPending : after.pending = []) :
    FitAll (ChangeGroup.undoChanges group) t ∧
      after.Leads (applyAll (ChangeGroup.undoChanges group) t) ∧
      (h.timeline t).back = some (after.timeline (applyAll (ChangeGroup.undoChanges group) t)) := by
  have hback : h.backward = ChangeGroup.undoChanges group :: after.backward := by
    rw [backward, backward, hundo, hafterUndo, List.map_cons]
  have hfits := hl.undo
  rw [hback, List.flatten_cons, fitAll_append, baseOf_nil hp] at hfits
  obtain ⟨hforth, hreturn⟩ := ChangeGroup.undo_fits hfits.1
  -- undoing the undone group is the group again, so it can be redone
  rw [ChangeGroup.undoChanges_undoChanges] at hforth hreturn
  refine ⟨hfits.1, ⟨by rw [hafterPending]; trivial, ?_, ?_⟩, ?_⟩
  · rw [baseOf_nil hafterPending]
    exact hfits.2
  · rw [baseOf_nil hafterPending, hafterRedo, List.flatten_cons, fitAll_append, hreturn]
    exact ⟨hforth, baseOf_nil hp t ▸ hl.redo⟩
  · simp only [timeline, baseOf_nil hafterPending, baseOf_nil hp, hback, hafterRedo, textsAlong, hreturn,
      Timeline.back]

lemma Leads.redone {group : ChangeGroup} {rest : List ChangeGroup} (hl : h.Leads t) (after : History)
    (hp : h.pending = []) (hredo : h.redo = group :: rest) (hafterRedo : after.redo = rest)
    (hafterUndo : after.undo = group :: h.undo) (hafterPending : after.pending = []) :
    FitAll group t ∧ after.Leads (applyAll group t) ∧
      (h.timeline t).forth = some (after.timeline (applyAll group t)) := by
  have hback : after.backward = ChangeGroup.undoChanges group :: h.backward := by
    rw [backward, backward, hafterUndo, List.map_cons]
  have hfits := hl.redo
  rw [hredo, List.flatten_cons, fitAll_append, baseOf_nil hp] at hfits
  obtain ⟨hundo, hreturn⟩ := ChangeGroup.undo_fits hfits.1
  refine ⟨hfits.1, ⟨by rw [hafterPending]; trivial, ?_, ?_⟩, ?_⟩
  · rw [baseOf_nil hafterPending, hback, List.flatten_cons, fitAll_append, hreturn]
    exact ⟨hundo, baseOf_nil hp t ▸ hl.undo⟩
  · rw [baseOf_nil hafterPending, hafterRedo]
    exact hfits.2
  · simp only [timeline, baseOf_nil hafterPending, baseOf_nil hp, hback, hredo, hafterRedo, textsAlong,
      hreturn, Timeline.forth]

lemma Leads.played {d : Direction} {group : ChangeGroup} {rest : List ChangeGroup} (hl : h.Leads t)
    (after : History) (hp : h.pending = []) (hgroups : d.groups h = group :: rest)
    (hafter : d.groups after = rest) (hother : d.opposite.groups after = group :: d.opposite.groups h)
    (hafterPending : after.pending = []) :
    FitAll (d.changes group) t ∧ after.Leads (applyAll (d.changes group) t) ∧
      d.along (h.timeline t) = some (after.timeline (applyAll (d.changes group) t)) := by
  cases d with
  | back => exact hl.undone after hp hgroups hafter hother hafterPending
  | forth => exact hl.redone after hp hgroups hafter hother hafterPending

lemma along_eq_none {d : Direction} : d.along (h.timeline t) = none ↔ d.groups h = [] := by
  cases d with
  | back =>
    change (h.timeline t).back = none ↔ h.undo = []
    cases hundo : h.undo <;> simp [timeline, backward, hundo, textsAlong, Timeline.back]
  | forth =>
    change (h.timeline t).forth = none ↔ h.redo = []
    cases hredo : h.redo <;> simp [timeline, hredo, textsAlong, Timeline.forth]

lemma groups_of_along {d : Direction} {line : Timeline} (h' : d.along (h.timeline t) = some line) :
    ∃ group rest, d.groups h = group :: rest := by
  cases hgroups : d.groups h with
  | cons group rest => exact ⟨group, rest, rfl⟩
  | nil =>
    rw [along_eq_none.mpr hgroups] at h'
    cases h'

end History

end EditableText
