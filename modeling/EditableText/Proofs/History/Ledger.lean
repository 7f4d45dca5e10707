import EditableText.Proofs.History

/-!
A ledger of a history, kept from the calls alone: the log of all changes that are made and not undone, and
where groups end in it. What the history holds is the end of this log.
-/

namespace EditableText

inductive HistoryAct where
  | record (c : Change)
  | call (call : HistoryCall)
  deriving Repr, DecidableEq

def HistoryAct.on (h : History) : HistoryAct → History
  | record c =>
    match h.push c with
    | .ok after => after
    | .error _ => h
  | .call asked =>
    match asked.perform h with
    | .ok (_, after) => after
    | .error _ => h

inductive Cycle where
  | none
  | undoing (group : ChangeGroup)
  | redoing (group : ChangeGroup)
  deriving Repr, DecidableEq

structure Ledger where
  /-- The changes that are made and not undone, in the order in which they were made. -/
  log : List Change
  /-- The finished groups in the log, the latest first. -/
  groups : List ChangeGroup
  /-- The end of the log that no group has yet. -/
  current : List Change
  /-- How many of the groups can be undone. -/
  kept : Nat
  undone : List ChangeGroup
  cycle : Cycle
  limit : Nat
  depth : Nat
  continues : Bool
  records : Bool
  deriving Repr, DecidableEq

namespace Ledger

def withLimit (limit : Nat) : Ledger :=
  { log := [], groups := [], current := [], kept := 0, undone := [], cycle := .none, limit, depth := 0
    continues := false, records := true }

variable (l : Ledger)

def add (group : ChangeGroup) : Ledger :=
  { l with groups := group :: l.groups, kept := min (l.kept + 1) l.limit }

def commit : Ledger :=
  let l' := if l.continues ∧ 0 < l.kept then { l with groups := l.groups.modifyHead (· ++ l.current) }
    else l.add l.current
  { l' with current := [], undone := [] }

def record (c : Change) : Ledger :=
  if l.cycle = .none ∧ l.records = true then
    if l.depth = 0 then { l.add [c] with log := l.log ++ [c], undone := [] }
    else { l with log := l.log ++ [c], current := l.current ++ [c] }
  else l

def startGroup (continues : Bool) : Ledger :=
  { l with depth := l.depth + 1, continues := if l.depth = 0 then continues else l.continues }

def endGroup : Ledger :=
  let l' := { l with depth := l.depth - 1 }
  if l.depth = 1 ∧ l.current ≠ [] then l'.commit else l'

def undoable : Option ChangeGroup :=
  if l.depth = 0 ∧ l.cycle = .none then (l.groups.take l.kept).head? else none

def beginUndo : Ledger :=
  match l.undoable with
  | some group =>
    { l with
      log := l.log.take (l.log.length - group.length)
      groups := l.groups.tail
      kept := l.kept - 1
      cycle := .undoing group }
  | none => l

def endUndo : Ledger :=
  match l.cycle with
  | .undoing group => { l with undone := group :: l.undone, cycle := .none }
  | _ => l

def redoable : Option ChangeGroup :=
  if l.depth = 0 ∧ l.cycle = .none then l.undone.head? else none

def beginRedo : Ledger :=
  match l.redoable with
  | some group => { l with undone := l.undone.tail, cycle := .redoing group }
  | none => l

def endRedo : Ledger :=
  match l.cycle with
  | .redoing group => { l.add group with log := l.log ++ group, cycle := .none }
  | _ => l

def clear : Ledger := if l.depth = 0 then { l with kept := 0, undone := [] } else l

def after : HistoryAct → Ledger
  | .record c => l.record c
  | .call (.push offset removed inserted) => l.record (.ofEdit offset removed inserted)
  | .call .startGroup => l.startGroup false
  | .call .startContinuedGroup => l.startGroup (0 < l.kept)
  | .call .endGroup => l.endGroup
  | .call .beginUndo => l.beginUndo
  | .call .endUndo => l.endUndo
  | .call .beginRedo => l.beginRedo
  | .call .endRedo => l.endRedo
  | .call (.setLimit limit) => { l with limit, kept := min l.kept limit }
  | .call (.setAcceptsChanges records) => { l with records }
  | .call .clear => l.clear
  | .call .clearRedo => { l with undone := [] }
  | .call .enterModify | .call .exitModify | .call .markSaved | .call .discardSaved => l

/-- An undo or redo is ended only where one was begun. -/
def allows : HistoryAct → Bool
  | .call .endUndo => (l.cycle matches .undoing _)
  | .call .endRedo => (l.cycle matches .redoing _)
  | _ => true

def allowsAll (l : Ledger) : List HistoryAct → Bool
  | [] => true
  | act :: acts => l.allows act && (l.after act).allowsAll acts

structure Describes (l : Ledger) (h : History) : Prop where
  log_eq : l.log = l.groups.reverse.flatten ++ l.current
  undo : h.undo = l.groups.take l.kept
  redo : h.redo = l.undone
  pending : h.pending = l.current
  limit : h.limit = l.limit
  depth : h.depth = l.depth
  continues : h.continuesTop = l.continues
  records : h.acceptsChanges = l.records
  idle : l.cycle = .none ↔ h.phase = .idle
  handed : ∀ group, l.cycle = .undoing group ∨ l.cycle = .redoing group → h.phase.group = group ∧ group ≠ []
  kept_le_length : l.kept ≤ l.groups.length
  kept_le_limit : l.kept ≤ l.limit
  closed : l.depth = 0 ∨ l.cycle ≠ .none → l.current = []
  ne_nil : ∀ group ∈ l.groups ++ l.undone, group ≠ []

variable {l : Ledger} {h after : History} {c : Change} {group : ChangeGroup}

lemma on_record (h : History) (c : Change) :
    (HistoryAct.record c).on h =
      if h.phase = .idle ∧ h.acceptsChanges = true then
        if h.depth = 0 then h.pushGroup [c] else { h with pending := h.pending ++ [c] }
      else h := by
  rw [HistoryAct.on, History.push]
  cases hphase : h.phase with
  | idle =>
    cases haccepts : h.acceptsChanges
    · simp
    · by_cases hdepth : h.depth = 0
      · simp [hdepth]
      · simp [hdepth, Nat.pos_of_ne_zero hdepth]
  | playback group => simp
  | modifying group => simp

lemma on_endGroup (h : History) :
    (HistoryAct.call .endGroup).on h =
      if h.depth = 1 ∧ h.pending ≠ [] then { h with depth := h.depth - 1 }.commit
      else { h with depth := h.depth - 1 } := by
  cases hdepth : h.depth with
  | zero =>
    have hrefused : h.endGroup = .error .noOpenGroup := by rw [History.endGroup, hdepth]
    have hsame : { h with depth := 0 } = h := by rw [← hdepth]
    simp [HistoryAct.on, HistoryCall.perform, hrefused, bind, Except.bind, hsame]
  | succ depth =>
    have hended : h.endGroup = .ok (if depth = 0 ∧ h.pending ≠ [] then { h with depth }.commit
        else { h with depth }) := by rw [History.endGroup, hdepth]
    simp [HistoryAct.on, HistoryCall.perform, HistoryCall.quiet, hended, bind, Except.bind]

lemma commit_eq_of_continues {top : ChangeGroup} {rest : List ChangeGroup} (hundo : h.undo = top :: rest)
    (hcontinues : h.continuesTop = true) :
    h.commit = ({ h with
      pending := []
      undo := (top ++ h.pending) :: rest
      stepsFromSaved := h.stepsFromSaved.filter (· ≠ 0) } : History).clearRedo := by
  rw [History.commit, hundo, hcontinues]

lemma commit_eq_of_not_continues (hnot : ¬ (h.continuesTop = true ∧ h.canUndo)) :
    h.commit = ({ h with pending := [] } : History).pushGroup h.pending := by
  rw [History.commit]
  split
  case h_1 top rest hundo hcontinues =>
    exact absurd ⟨hcontinues, by rw [History.canUndo, show h.undo = _ from hundo]; rfl⟩ hnot
  case h_2 => rfl

lemma checkPlayback_of_not_ready (hnot : ¬ (h.depth = 0 ∧ h.phase = .idle)) :
    ∃ e, h.checkPlayback = .error e := by
  rw [History.checkPlayback]
  by_cases hdepth : 0 < h.depth
  · exact ⟨_, if_pos hdepth⟩
  · refine ⟨_, (if_neg hdepth).trans (if_pos fun hidle => hnot ⟨by omega, hidle⟩)⟩

lemma exists_cons_of_take_eq_cons {groups rest : List ChangeGroup} {top : ChangeGroup} {n : Nat}
    (htake : groups.take n = top :: rest) :
    ∃ groups' n', groups = top :: groups' ∧ n = n' + 1 ∧ rest = groups'.take n' := by
  cases groups with
  | nil => simp at htake
  | cons other groups =>
    cases n with
    | zero => simp at htake
    | succ n =>
      obtain ⟨rfl, rfl⟩ := List.cons.inj htake
      exact ⟨groups, n, rfl, rfl, rfl⟩

lemma on_opening (d : Direction) (h : History) :
    (HistoryAct.call d.opening).on h = h ∧
        (if h.depth = 0 ∧ h.phase = .idle then (d.groups h).head? else none) = none ∨
      ∃ top rest, h.depth = 0 ∧ h.phase = .idle ∧ d.groups h = top :: rest ∧
        (HistoryAct.call d.opening).on h = d.handed top rest h := by
  have hon : (HistoryAct.call d.opening).on h = ((d.handOut h).map Prod.snd).toOption.getD h := by
    cases d with
    | back =>
      simp only [HistoryAct.on, HistoryCall.perform, Direction.handOut]
      cases h.beginUndo <;> rfl
    | forth =>
      simp only [HistoryAct.on, HistoryCall.perform, Direction.handOut]
      cases h.beginRedo <;> rfl
  rw [hon, Direction.handOut_eq]
  by_cases hready : h.depth = 0 ∧ h.phase = .idle
  case pos =>
    rw [if_pos hready, show h.checkPlayback = .ok () by simp [History.checkPlayback, hready]]
    cases hgroups : d.groups h with
    | nil => exact .inl ⟨rfl, rfl⟩
    | cons top rest => exact .inr ⟨top, rest, hready.1, hready.2, rfl, rfl⟩
  case neg =>
    obtain ⟨e, hcheck⟩ := checkPlayback_of_not_ready hready
    rw [hcheck]
    exact .inl ⟨rfl, if_neg hready⟩

namespace Describes

lemma withLimit (limit : Nat) : (Ledger.withLimit limit).Describes (.withLimit limit) := by
  constructor <;> simp [Ledger.withLimit, History.withLimit]

lemma add (hd : l.Describes h) (hcurrent : l.current = []) (hgroup : group ≠ []) (steps : Int) :
    ({ l.add group with log := l.log ++ group } : Ledger).Describes
      ({ h with undo := group :: h.undo }.shiftSaved steps).enforceLimit := by
  have hlength := hd.kept_le_length
  refine ⟨?_, ?_, hd.redo, hd.pending, hd.limit, hd.depth, hd.continues, hd.records, hd.idle, hd.handed,
    ?_, ?_, hd.closed, ?_⟩
  · simp [Ledger.add, hd.log_eq, hcurrent]
  · change (group :: h.undo).take h.limit = (group :: l.groups).take (min (l.kept + 1) l.limit)
    rw [hd.undo, hd.limit, ← List.take_succ_cons, List.take_take, Nat.min_comm]
  · simp only [Ledger.add, List.length_cons]
    omega
  · simp only [Ledger.add]
    omega
  · simpa [Ledger.add, hgroup] using hd.ne_nil

lemma clearRedo (hd : l.Describes h) : ({ l with undone := [] } : Ledger).Describes h.clearRedo := by
  refine ⟨hd.log_eq, hd.undo, rfl, hd.pending, hd.limit, hd.depth, hd.continues, hd.records, hd.idle,
    hd.handed, hd.kept_le_length, hd.kept_le_limit, hd.closed, ?_⟩
  intro group hmem
  exact hd.ne_nil group (by simp_all)

lemma pend (hd : l.Describes h) (hdepth : l.depth ≠ 0) (hnone : l.cycle = .none) :
    ({ l with log := l.log ++ [c], current := l.current ++ [c] } : Ledger).Describes
      { h with pending := h.pending ++ [c] } := by
  refine ⟨?_, hd.undo, hd.redo, ?_, hd.limit, hd.depth, hd.continues, hd.records, hd.idle, hd.handed,
    hd.kept_le_length, hd.kept_le_limit, ?_, hd.ne_nil⟩
  · simp [hd.log_eq]
  · simp [hd.pending]
  · simp [hnone, hdepth]

lemma ite {p q : Prop} [Decidable p] [Decidable q] {l' : Ledger} {h' : History} (hpq : p ↔ q)
    (hthen : p → l.Describes h) (helse : ¬ p → l'.Describes h') :
    (if p then l else l').Describes (if q then h else h') := by
  by_cases hp : p
  · rw [if_pos hp, if_pos (hpq.mp hp)]
    exact hthen hp
  · rw [if_neg hp, if_neg (hpq.not.mp hp)]
    exact helse hp

lemma record (hd : l.Describes h) : (l.record c).Describes ((HistoryAct.record c).on h) := by
  rw [on_record]
  refine ite (by rw [hd.idle, hd.records]) (fun hrecords => ?_) fun _ => hd
  refine ite (by rw [hd.depth]) (fun hdepth => ?_) fun hdepth => hd.pend hdepth hrecords.1
  exact hd.clearRedo.add (hd.closed (.inl hdepth)) (List.cons_ne_nil c []) 1

lemma canUndo_eq (hd : l.Describes h) : h.canUndo = decide (0 < l.kept) := by
  have hlength := hd.kept_le_length
  rw [History.canUndo, hd.undo]
  cases hkept : l.kept with
  | zero => rfl
  | succ kept =>
    cases hgroups : l.groups with
    | nil => simp [hgroups, hkept] at hlength
    | cons top rest => simp

lemma startGroup (hd : l.Describes h) : (l.startGroup false).Describes h.startGroup := by
  refine ⟨hd.log_eq, hd.undo, hd.redo, hd.pending, hd.limit, congrArg (· + 1) hd.depth, ?_, hd.records,
    hd.idle, hd.handed, hd.kept_le_length, hd.kept_le_limit, ?_, hd.ne_nil⟩
  · by_cases hdepth : l.depth = 0 <;>
      simp [Ledger.startGroup, History.startGroup, hd.depth, hd.continues, hdepth]
  · exact fun hclosed => hd.closed (.inr (hclosed.resolve_left (Nat.succ_ne_zero _)))

lemma startContinuedGroup (hd : l.Describes h) :
    (l.startGroup (0 < l.kept)).Describes h.startContinuedGroup := by
  refine ⟨hd.log_eq, hd.undo, hd.redo, hd.pending, hd.limit, congrArg (· + 1) hd.depth, ?_, hd.records,
    hd.idle, hd.handed, hd.kept_le_length, hd.kept_le_limit, ?_, hd.ne_nil⟩
  · simp [Ledger.startGroup, History.startContinuedGroup, hd.depth, hd.continues, hd.canUndo_eq]
  · exact fun hclosed => hd.closed (.inr (hclosed.resolve_left (Nat.succ_ne_zero _)))

lemma commit (hd : l.Describes h) (hcurrent : l.current ≠ []) :
    ({ l with depth := 0 } : Ledger).commit.Describes ({ h with depth := 0 } : History).commit := by
  have hnone : l.cycle = .none := by
    by_contra hcycle
    exact hcurrent (hd.closed (.inr hcycle))
  by_cases hcontinues : l.continues = true ∧ 0 < l.kept
  case pos =>
    obtain ⟨top, rest, hgroups⟩ :=
      List.exists_cons_of_length_pos (Nat.lt_of_lt_of_le hcontinues.2 hd.kept_le_length)
    obtain ⟨kept, hkept⟩ := Nat.exists_eq_add_one.mpr hcontinues.2
    have hundo : h.undo = top :: rest.take kept := by rw [hd.undo, hgroups, hkept, List.take_succ_cons]
    rw [commit_eq_of_continues (h := { h with depth := 0 }) hundo (hd.continues.trans hcontinues.1),
      Ledger.commit, if_pos hcontinues]
    have hlength := hd.kept_le_length
    have hsolid := hd.ne_nil
    refine ⟨?_, ?_, rfl, rfl, hd.limit, rfl, hd.continues, hd.records, hd.idle, hd.handed, ?_,
      hd.kept_le_limit, fun _ => rfl, ?_⟩
    · simp [hd.log_eq, hgroups]
    · simp [hgroups, hkept, History.clearRedo, hd.pending]
    · simpa using hlength
    · simp_all
  case neg =>
    have hnot : ¬ (h.continuesTop = true ∧ h.canUndo = true) := by
      rw [hd.continues, hd.canUndo_eq]
      simpa using hcontinues
    rw [commit_eq_of_not_continues (h := { h with depth := 0 }) hnot, Ledger.commit, if_neg hcontinues]
    -- apart from the new group, the log ends where the groups end
    have hclosed : ({ l with log := l.groups.reverse.flatten, current := [], depth := 0 } : Ledger).Describes
        { h with depth := 0, pending := [] } :=
      ⟨(List.append_nil _).symm, hd.undo, hd.redo, rfl, hd.limit, rfl, hd.continues, hd.records, hd.idle,
        hd.handed, hd.kept_le_length, hd.kept_le_limit, fun _ => rfl, hd.ne_nil⟩
    have hadded := hclosed.clearRedo.add rfl hcurrent 1
    simp only [← hd.log_eq] at hadded
    rw [← hd.pending] at hadded
    rw [← hd.pending]
    exact hadded

lemma endGroup (hd : l.Describes h) : l.endGroup.Describes ((HistoryAct.call .endGroup).on h) := by
  rw [on_endGroup]
  refine ite (by rw [hd.depth, hd.pending]) (fun hends => ?_) fun hnot => ?_
  · have hdepth : h.depth = 1 := hd.depth.trans hends.1
    rw [hends.1, hdepth]
    exact hd.commit hends.2
  · refine ⟨hd.log_eq, hd.undo, hd.redo, hd.pending, hd.limit, congrArg (· - 1) hd.depth, hd.continues,
      hd.records, hd.idle, hd.handed, hd.kept_le_length, hd.kept_le_limit, ?_, hd.ne_nil⟩
    rintro (hdepth | hcycle)
    · by_cases hclosed : l.depth = 0
      · exact hd.closed (.inl hclosed)
      · by_contra hcurrent
        exact hnot ⟨by change l.depth - 1 = 0 at hdepth; omega, hcurrent⟩
    · exact hd.closed (.inr hcycle)

lemma undoable_eq (hd : l.Describes h) :
    l.undoable = if h.depth = 0 ∧ h.phase = .idle then (Direction.back.groups h).head? else none := by
  simp only [Ledger.undoable, ← hd.depth, ← hd.undo, hd.idle, Direction.groups]

lemma redoable_eq (hd : l.Describes h) :
    l.redoable = if h.depth = 0 ∧ h.phase = .idle then (Direction.forth.groups h).head? else none := by
  simp only [Ledger.redoable, ← hd.depth, ← hd.redo, hd.idle, Direction.groups]

lemma beginUndo (hd : l.Describes h) : l.beginUndo.Describes ((HistoryAct.call Direction.back.opening).on h) := by
  rcases on_opening .back h with ⟨hsame, hnone⟩ | ⟨top, rest, hdepth, hidle, hundo, hafter⟩
  · rw [hsame, Ledger.beginUndo, hd.undoable_eq, hnone]
    exact hd
  · rw [hafter, Ledger.beginUndo, hd.undoable_eq, if_pos ⟨hdepth, hidle⟩, hundo]
    have hclosed := hd.closed (.inl (hd.depth.symm.trans hdepth))
    obtain ⟨groups, kept, hgroups, hkept, hrest⟩ := exists_cons_of_take_eq_cons (hd.undo.symm.trans hundo)
    have hlength := hd.kept_le_length
    have hlimit := hd.kept_le_limit
    have hsolid := hd.ne_nil
    refine ⟨?_, ?_, hd.redo, hd.pending, hd.limit, hd.depth, hd.continues, hd.records, by simp, ?_, ?_,
      ?_, fun _ => hclosed, ?_⟩
    · simp [hd.log_eq, hclosed, hgroups]
    · simp [Direction.handed, hgroups, hkept, hrest]
    · rintro group (hcycle | hcycle)
      · obtain rfl := Cycle.undoing.inj hcycle
        exact ⟨rfl, hsolid _ (by simp [hgroups])⟩
      · cases hcycle
    · simpa [hgroups, hkept] using hlength
    · change l.kept - 1 ≤ l.limit
      omega
    · simp_all

lemma beginRedo (hd : l.Describes h) : l.beginRedo.Describes ((HistoryAct.call Direction.forth.opening).on h) := by
  rcases on_opening .forth h with ⟨hsame, hnone⟩ | ⟨top, rest, hdepth, hidle, hredo, hafter⟩
  · rw [hsame, Ledger.beginRedo, hd.redoable_eq, hnone]
    exact hd
  · rw [hafter, Ledger.beginRedo, hd.redoable_eq, if_pos ⟨hdepth, hidle⟩, hredo]
    have hclosed := hd.closed (.inl (hd.depth.symm.trans hdepth))
    have hundone : l.undone = top :: rest := hd.redo.symm.trans hredo
    refine ⟨hd.log_eq, hd.undo, ?_, hd.pending, hd.limit, hd.depth, hd.continues, hd.records, by simp, ?_,
      hd.kept_le_length, hd.kept_le_limit, fun _ => hclosed, ?_⟩
    · simp [Direction.handed, hundone]
    · rintro group (hcycle | hcycle)
      · cases hcycle
      · obtain rfl := Cycle.redoing.inj hcycle
        exact ⟨rfl, hd.ne_nil _ (by simp [hundone])⟩
    · exact fun group hmem => hd.ne_nil group (by grind)

lemma endUndo (hd : l.Describes h) (hcycle : l.cycle = .undoing group) : l.endUndo.Describes h.endUndo := by
  obtain ⟨hhanded, hgroup⟩ := hd.handed group (.inl hcycle)
  rw [Ledger.endUndo, hcycle]
  refine ⟨hd.log_eq, hd.undo, ?_, hd.pending, hd.limit, hd.depth, hd.continues, hd.records,
    by simp [History.endUndo, History.shiftSaved], by simp, hd.kept_le_length, hd.kept_le_limit,
    fun _ => hd.closed (.inr (by simp [hcycle])), ?_⟩
  · simp [History.endUndo, History.shiftSaved, hhanded, hd.redo]
  · simpa [or_imp, forall_and, hgroup] using hd.ne_nil

lemma endRedo (hd : l.Describes h) (hcycle : l.cycle = .redoing group) : l.endRedo.Describes h.endRedo := by
  obtain ⟨hhanded, hgroup⟩ := hd.handed group (.inr hcycle)
  have hclosed := hd.closed (.inr (by simp [hcycle]))
  have hdone : ({ l with cycle := .none } : Ledger).Describes { h with phase := .idle } :=
    ⟨hd.log_eq, hd.undo, hd.redo, hd.pending, hd.limit, hd.depth, hd.continues, hd.records, by simp,
      by simp, hd.kept_le_length, hd.kept_le_limit, fun _ => hclosed, hd.ne_nil⟩
  rw [Ledger.endRedo, hcycle, History.endRedo, hhanded]
  exact hdone.add hclosed hgroup 1

lemma modify (hd : l.Describes h) {phase : Phase} (hidle : phase = .idle ↔ h.phase = .idle)
    (hgroup : phase.group = h.phase.group) : l.Describes { h with phase } :=
  ⟨hd.log_eq, hd.undo, hd.redo, hd.pending, hd.limit, hd.depth, hd.continues, hd.records,
    hd.idle.trans hidle.symm, fun group hcycle => hgroup ▸ hd.handed group hcycle, hd.kept_le_length,
    hd.kept_le_limit, hd.closed, hd.ne_nil⟩

lemma enterModify (hd : l.Describes h) : l.Describes h.enterModify := by
  rw [History.enterModify]
  split
  case h_1 group hphase => exact hd.modify (by simp [hphase]) (by rw [hphase]; rfl)
  case h_2 => exact hd

lemma exitModify (hd : l.Describes h) : l.Describes h.exitModify := by
  rw [History.exitModify]
  split
  case h_1 group hphase => exact hd.modify (by simp [hphase]) (by rw [hphase]; rfl)
  case h_2 => exact hd

lemma setLimit (hd : l.Describes h) (limit : Nat) :
    ({ l with limit, kept := min l.kept limit } : Ledger).Describes (h.setLimit limit) := by
  have hlength := hd.kept_le_length
  refine ⟨hd.log_eq, ?_, hd.redo, hd.pending, rfl, hd.depth, hd.continues, hd.records, hd.idle, hd.handed,
    ?_, Nat.min_le_right _ _, hd.closed, hd.ne_nil⟩
  · change h.undo.take limit = l.groups.take (min l.kept limit)
    rw [hd.undo, List.take_take, Nat.min_comm]
  · change min l.kept limit ≤ l.groups.length
    omega

lemma clear (hd : l.Describes h) : l.clear.Describes ((HistoryAct.call .clear).on h) := by
  have hon : (HistoryAct.call .clear).on h = if h.depth = 0 then
      { h with undo := [], redo := [], stepsFromSaved := h.stepsFromSaved.filter (· = 0) } else h := by
    by_cases hdepth : h.depth = 0
    · simp [HistoryAct.on, HistoryCall.perform, HistoryCall.quiet, History.clear, hdepth, bind, Except.bind]
    · simp [HistoryAct.on, HistoryCall.perform, History.clear, hdepth, Nat.pos_of_ne_zero hdepth, bind,
        Except.bind]
  rw [hon]
  refine ite (by rw [hd.depth]) (fun _ => ?_) fun _ => hd
  refine ⟨hd.log_eq, by simp, rfl, hd.pending, hd.limit, hd.depth, hd.continues, hd.records, hd.idle,
    hd.handed, Nat.zero_le _, Nat.zero_le _, hd.closed, ?_⟩
  exact fun group hmem => hd.ne_nil group (by simp_all)

lemma congr (hd : l.Describes h) (steps : Option Int) : l.Describes { h with stepsFromSaved := steps } :=
  ⟨hd.log_eq, hd.undo, hd.redo, hd.pending, hd.limit, hd.depth, hd.continues, hd.records, hd.idle, hd.handed,
    hd.kept_le_length, hd.kept_le_limit, hd.closed, hd.ne_nil⟩

lemma setAcceptsChanges (hd : l.Describes h) (records : Bool) :
    ({ l with records } : Ledger).Describes (h.setAcceptsChanges records) :=
  ⟨hd.log_eq, hd.undo, hd.redo, hd.pending, hd.limit, hd.depth, hd.continues, rfl, hd.idle, hd.handed,
    hd.kept_le_length, hd.kept_le_limit, hd.closed, hd.ne_nil⟩

lemma on (hd : l.Describes h) {act : HistoryAct} (hallows : l.allows act = true) :
    (l.after act).Describes (act.on h) := by
  cases act with
  | record c => exact hd.record
  | call asked =>
    cases asked with
    | push offset removed inserted =>
      have hpush : (HistoryAct.call (.push offset removed inserted)).on h =
          (HistoryAct.record (.ofEdit offset removed inserted)).on h := by
        simp only [HistoryAct.on, HistoryCall.perform]
        cases h.push (.ofEdit offset removed inserted) <;> rfl
      rw [hpush]
      exact hd.record
    | startGroup => exact hd.startGroup
    | startContinuedGroup => exact hd.startContinuedGroup
    | endGroup => exact hd.endGroup
    | beginUndo => exact hd.beginUndo
    | endUndo =>
      cases hcycle : l.cycle with
      | undoing group => exact hd.endUndo hcycle
      | none => simp [Ledger.allows, hcycle] at hallows
      | redoing group => simp [Ledger.allows, hcycle] at hallows
    | beginRedo => exact hd.beginRedo
    | endRedo =>
      cases hcycle : l.cycle with
      | redoing group => exact hd.endRedo hcycle
      | none => simp [Ledger.allows, hcycle] at hallows
      | undoing group => simp [Ledger.allows, hcycle] at hallows
    | enterModify => exact hd.enterModify
    | exitModify => exact hd.exitModify
    | setLimit limit => exact hd.setLimit limit
    | setAcceptsChanges records => exact hd.setAcceptsChanges records
    | markSaved => exact hd.congr _
    | discardSaved => exact hd.congr _
    | clear => exact hd.clear
    | clearRedo => exact hd.clearRedo

lemma onAll (hd : l.Describes h) {acts : List HistoryAct} (hallows : l.allowsAll acts = true) :
    (acts.foldl Ledger.after l).Describes (acts.foldl (fun h act => act.on h) h) := by
  induction acts generalizing l h with
  | nil => exact hd
  | cons act acts ih =>
    obtain ⟨hact, hacts⟩ := Bool.and_eq_true_iff.mp hallows
    exact ih (hd.on hact) hacts

lemma suffix_log (hd : l.Describes h) : h.undo.reverse.flatten ++ h.pending <:+ l.log := by
  refine ⟨(l.groups.drop l.kept).reverse.flatten, ?_⟩
  rw [hd.log_eq, hd.undo, hd.pending, ← List.append_assoc, ← List.flatten_append, ← List.reverse_append,
    List.take_append_drop]

end Describes

end Ledger

namespace History

/-- The history has the last groups of the log, as many as the limit and clearing have left, and what
follows them; what was undone is there to be redone. -/
theorem holds_end_of_log (limit : Nat) (acts : List HistoryAct)
    (hacts : (Ledger.withLimit limit).allowsAll acts = true) :
    let h := acts.foldl (fun h act => act.on h) (withLimit limit)
    let l := acts.foldl Ledger.after (.withLimit limit)
    (h.undo.reverse.flatten ++ h.pending <:+ l.log ∧ l.log = l.groups.reverse.flatten ++ l.current) ∧
      (h.undo = l.groups.take l.kept ∧ h.pending = l.current ∧ h.redo = l.undone) ∧
      (∀ group ∈ h.undo ++ h.redo, group ≠ []) ∧ (h.depth = 0 → h.pending = []) ∧
      h.undo.length ≤ h.limit ∧
      h.depth = l.depth ∧ h.limit = l.limit ∧ h.acceptsChanges = l.records ∧
      (h.phase = .idle ↔ l.cycle = .none) ∧
      ∀ group, l.cycle = .undoing group ∨ l.cycle = .redoing group → h.phase.group = group := by
  intro h l
  have hd : l.Describes h := (Ledger.Describes.withLimit limit).onAll hacts
  refine ⟨⟨hd.suffix_log, hd.log_eq⟩, ⟨hd.undo, hd.pending, hd.redo⟩, ?_, ?_, ?_, hd.depth, hd.limit,
    hd.records, hd.idle.symm, fun group hcycle => (hd.handed group hcycle).1⟩
  · intro group hmem
    rw [hd.undo, hd.redo] at hmem
    rcases List.mem_append.mp hmem with hundo | hredo
    · exact hd.ne_nil group (List.mem_append_left _ (List.mem_of_mem_take hundo))
    · exact hd.ne_nil group (List.mem_append_right _ hredo)
  · intro hdepth
    rw [hd.pending]
    exact hd.closed (.inl (hd.depth.symm.trans hdepth))
  · rw [hd.undo, hd.limit, List.length_take]
    exact Nat.le_trans (Nat.min_le_left _ _) hd.kept_le_limit

theorem holds_end_of_log_after_redo :
    let typed (offset : Nat) := HistoryAct.record (.ofEdit offset [] ['a'])
    let acts := [typed 0, .call .startGroup, typed 1, .call .startGroup, typed 2, .call .endGroup,
      .call .endGroup, .call .startContinuedGroup, typed 3, .call (.setLimit 1), .call .endGroup,
      .call .beginUndo, .call .enterModify, typed 4, .call .exitModify, .call .endUndo, .call .beginRedo,
      .call .endRedo]
    let h := acts.foldl (fun h act => act.on h) (withLimit 2)
    let l := acts.foldl Ledger.after (.withLimit 2)
    (Ledger.withLimit 2).allowsAll acts = true ∧ h.undo.reverse.flatten ++ h.pending <:+ l.log ∧
      h.undo.map List.length = [3] ∧ l.log.map Change.offset = [0, 1, 2, 3] := by
  intro typed acts h l
  have hacts : (Ledger.withLimit 2).allowsAll acts = true := by decide
  exact ⟨hacts, (holds_end_of_log 2 acts hacts).1.1, by decide, by decide⟩

end History

end EditableText
