import EditableText.History.Call
import EditableText.Proofs.Except

namespace EditableText

inductive Direction where
  | back
  | forth

namespace Direction

def groups : Direction → History → List ChangeGroup
  | back => History.undo
  | forth => History.redo

def handOut : Direction → History → Except TextError (Option ChangeGroup × History)
  | back => History.beginUndo
  | forth => History.beginRedo

def changes : Direction → ChangeGroup → List Change
  | back => ChangeGroup.undoChanges
  | forth => ChangeGroup.redoChanges

def finish : Direction → History → History
  | back => History.endUndo
  | forth => History.endRedo

def handed (d : Direction) (group : ChangeGroup) (rest : List ChangeGroup) (h : History) : History :=
  match d with
  | back => { h with undo := rest, phase := .playback group }
  | forth => { h with redo := rest, phase := .playback group }

def opening : Direction → HistoryCall
  | back => .beginUndo
  | forth => .beginRedo

def opposite : Direction → Direction
  | back => forth
  | forth => back

variable {d : Direction} {h after : History} {group : ChangeGroup} {rest : List ChangeGroup}
  {given : Option ChangeGroup}

lemma handOut_eq (d : Direction) (h : History) : d.handOut h = do
    h.checkPlayback
    match d.groups h with
    | [] => return (none, h)
    | group :: rest => return (some group, d.handed group rest h) := by
  cases d <;> rfl

lemma changes_back (group : ChangeGroup) : back.changes group = group.undoChanges := rfl

@[simp]
lemma handed_phase (d : Direction) (group : ChangeGroup) (rest : List ChangeGroup) (h : History) :
    (d.handed group rest h).phase = .playback group := by
  cases d <;> rfl

@[simp]
lemma handed_depth (d : Direction) (group : ChangeGroup) (rest : List ChangeGroup) (h : History) :
    (d.handed group rest h).depth = h.depth := by
  cases d <;> rfl

@[simp]
lemma handed_pending (d : Direction) (group : ChangeGroup) (rest : List ChangeGroup) (h : History) :
    (d.handed group rest h).pending = h.pending := by
  cases d <;> rfl

@[simp]
lemma handed_limit (d : Direction) (group : ChangeGroup) (rest : List ChangeGroup) (h : History) :
    (d.handed group rest h).limit = h.limit := by
  cases d <;> rfl

@[simp]
lemma handed_continuesTop (d : Direction) (group : ChangeGroup) (rest : List ChangeGroup) (h : History) :
    (d.handed group rest h).continuesTop = h.continuesTop := by
  cases d <;> rfl

@[simp]
lemma finish_limit (d : Direction) (h : History) : (d.finish h).limit = h.limit := by
  cases d <;> rfl

@[simp]
lemma finish_phase (d : Direction) (h : History) : (d.finish h).phase = .idle := by
  cases d <;> rfl

@[simp]
lemma finish_depth (d : Direction) (h : History) : (d.finish h).depth = h.depth := by
  cases d <;> rfl

@[simp]
lemma finish_pending (d : Direction) (h : History) : (d.finish h).pending = h.pending := by
  cases d <;> rfl

@[simp]
lemma groups_finish_handed (d : Direction) (group : ChangeGroup) (rest : List ChangeGroup) (h : History) :
    d.groups (d.finish (d.handed group rest h)) = rest := by
  cases d <;> rfl

lemma opposite_groups_finish_handed (hgroups : d.groups h = group :: rest)
    (hroom : h.undo.length + h.redo.length ≤ h.limit) :
    d.opposite.groups (d.finish (d.handed group rest h)) = group :: d.opposite.groups h := by
  cases d with
  | back => rfl
  | forth =>
    have hredo : h.redo = group :: rest := hgroups
    rw [hredo, List.length_cons] at hroom
    -- the group came from the other stack, so the limit drops nothing
    change (group :: h.undo).take h.limit = _
    exact List.take_of_length_le (by rw [List.length_cons]; omega)

lemma room_finish_handed (hgroups : d.groups h = group :: rest) (hroom : h.undo.length + h.redo.length ≤ h.limit) :
    let after := d.finish (d.handed group rest h)
    after.undo.length + after.redo.length ≤ after.limit := by
  have hother := opposite_groups_finish_handed hgroups hroom
  cases d with
  | back =>
    have hundo : h.undo = group :: rest := hgroups
    rw [hundo, List.length_cons] at hroom
    change rest.length + (h.redo.length + 1) ≤ h.limit
    omega
  | forth =>
    have hredo : h.redo = group :: rest := hgroups
    rw [hredo, List.length_cons] at hroom
    change (forth.opposite.groups _).length + rest.length ≤ h.limit
    rw [hother, List.length_cons]
    change h.undo.length + 1 + rest.length ≤ h.limit
    omega

lemma opposite_head?_finish (d : Direction) (h : History) :
    ∀ top ∈ (d.opposite.groups (d.finish h)).head?, top = h.phase.group := by
  intro top htop
  cases d with
  | back => exact (Option.some.inj htop).symm
  | forth =>
    change top ∈ ((h.phase.group :: h.undo).take h.limit).head? at htop
    cases hlimit : h.limit with
    | zero => simp [hlimit] at htop
    | succ limit =>
      rw [hlimit, List.take_succ_cons] at htop
      exact (Option.some.inj htop).symm

lemma length_changes (d : Direction) (group : ChangeGroup) : (d.changes group).length = group.length := by
  cases d with
  | back => rw [changes, ChangeGroup.undoChanges, List.length_map, List.length_reverse]
  | forth => rfl

lemma checkPlayback_of_handOut {handed : Option ChangeGroup × History} (hok : d.handOut h = .ok handed) :
    h.checkPlayback = .ok () := by
  rw [handOut_eq] at hok
  exact (exists_of_bind_eq_ok hok).choose_spec.1

lemma handOut_eq_ok (hok : d.handOut h = .ok (given, after)) :
    d.groups h = [] ∧ given = none ∧ after = h ∨
      ∃ top rest, d.groups h = top :: rest ∧ given = some top ∧ after = d.handed top rest h := by
  rw [handOut_eq] at hok
  obtain ⟨-, -, hok⟩ := exists_of_bind_eq_ok hok
  split at hok
  case h_1 hgroups =>
    obtain ⟨rfl, rfl⟩ := Prod.mk.inj (Except.ok.inj hok)
    exact .inl ⟨hgroups, rfl, rfl⟩
  case h_2 top rest hgroups =>
    obtain ⟨rfl, rfl⟩ := Prod.mk.inj (Except.ok.inj hok)
    exact .inr ⟨top, rest, hgroups, rfl, rfl⟩

lemma head?_of_handOut (hok : d.handOut h = .ok (given, after)) : (d.groups h).head? = given := by
  rcases handOut_eq_ok hok with ⟨hgroups, rfl, -⟩ | ⟨top, rest, hgroups, rfl, -⟩
  · rw [hgroups, List.head?_nil]
  · rw [hgroups, List.head?_cons]

lemma phase_of_handOut (hok : d.handOut h = .ok (some group, after)) : after.phase = .playback group := by
  rcases handOut_eq_ok hok with ⟨-, hnone, -⟩ | ⟨_, _, -, hsome, rfl⟩
  · cases hnone
  · rw [handed_phase, Option.some.inj hsome]

end Direction

end EditableText
