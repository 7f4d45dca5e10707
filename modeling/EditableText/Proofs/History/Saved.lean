import EditableText.History.Call
import EditableText.Proofs.History.Timeline

namespace EditableText

open Change

namespace Timeline

variable {line next : Timeline} {steps : Int} {n : Nat} {t : Text}

/-- The text so many steps back, or forth if there are less than none. -/
def at? (line : Timeline) : Int → Option Text
  | .ofNat n => (line.present :: line.past)[n]?
  | .negSucc n => line.future[n]?

lemma at?_zero : line.at? 0 = some line.present := rfl

lemma at?_back (h : line.back = some next) : next.at? (steps - 1) = line.at? steps := by
  obtain ⟨past, present, future⟩ := line
  cases past with
  | nil => cases h
  | cons before past =>
    obtain rfl := Option.some.inj h
    cases steps with
    | ofNat n =>
      cases n with
      | zero => rfl
      | succ n =>
        rw [show Int.ofNat (n + 1) - 1 = .ofNat n by simp]
        rfl
    | negSucc n =>
      rw [show Int.negSucc n - 1 = .negSucc (n + 1) by omega]
      rfl

lemma at?_forth (h : line.forth = some next) : next.at? (steps + 1) = line.at? steps := by
  have hback : next.back = some line := by
    obtain ⟨past, present, future⟩ := line
    cases future with
    | nil => cases h
    | cons later future =>
      obtain rfl := Option.some.inj h
      rfl
  have hat : line.at? (steps + 1 - 1) = next.at? (steps + 1) := at?_back hback
  rwa [show steps + 1 - 1 = steps by omega, eq_comm] at hat

lemma at?_record (hsteps : 0 ≤ steps) (hlimit : steps < n) :
    (line.record n t).at? (steps + 1) = line.at? steps := by
  obtain ⟨k, rfl⟩ := Int.eq_ofNat_of_zero_le hsteps
  change ((line.present :: line.past).take n)[k]? = (line.present :: line.past)[k]?
  exact List.getElem?_take_of_lt (by omega)

end Timeline

namespace History

/-- The history leads from the text `t` along a timeline on which `saved` is where it is counted to be. -/
structure Saves (h : History) (saved t : Text) : Prop where
  leads : h.Leads t
  at_eq : ∀ steps ∈ h.stepsFromSaved, (h.timeline t).at? steps = some saved

variable {h after : History} {saved t : Text} {c : Change} {group : ChangeGroup} {rest : List ChangeGroup}

namespace Saves

lemma withLimit (limit : Nat) (t : Text) : (History.withLimit limit).Saves t t := by
  obtain ⟨hleads, htimeline⟩ := Leads.cleared (h := History.withLimit limit) rfl rfl rfl t
  refine ⟨hleads, fun steps hsteps => ?_⟩
  obtain rfl := Option.some.inj hsteps
  rw [htimeline]
  rfl

lemma baseOf_eq (hs : h.Saves saved t) (hsaved : h.isSaved = true) : h.baseOf t = saved := by
  have hsteps : h.stepsFromSaved = some 0 := by simpa [isSaved] using hsaved
  have hat := hs.at_eq 0 hsteps
  rw [Timeline.at?_zero] at hat
  exact Option.some.inj hat

lemma text_eq (hs : h.Saves saved t) (hpending : h.pending = []) (hsaved : h.isSaved = true) : t = saved :=
  (baseOf_nil hpending t).symm.trans (hs.baseOf_eq hsaved)

lemma congr (hs : h.Saves saved t) (hundo : after.undo = h.undo) (hredo : after.redo = h.redo)
    (hpending : after.pending = h.pending) (hsteps : ∀ steps ∈ after.stepsFromSaved, steps ∈ h.stepsFromSaved) :
    after.Saves saved t := by
  obtain ⟨hleads, htimeline⟩ := hs.leads.congr after hundo hredo hpending
  refine ⟨hleads, fun steps hmem => ?_⟩
  rw [htimeline]
  exact hs.at_eq steps (hsteps steps hmem)

lemma pend (hs : h.Saves saved t) (hc : c.Fits t) :
    ({ h with pending := h.pending ++ [c] } : History).Saves saved (c.apply t) := by
  obtain ⟨hleads, htimeline⟩ := hs.leads.pend hc
  refine ⟨hleads, fun steps hmem => ?_⟩
  rw [htimeline]
  exact hs.at_eq steps hmem

lemma clearRedo (hs : h.Saves saved t) : h.clearRedo.Saves saved t := by
  refine ⟨⟨hs.leads.pending, hs.leads.undo, trivial⟩, fun steps hmem => ?_⟩
  obtain ⟨hold, hpositive⟩ := Option.mem_filter_iff.mp hmem
  obtain ⟨n, rfl⟩ := Int.eq_ofNat_of_zero_le (by simpa using hpositive)
  exact hs.at_eq _ hold

lemma enforceLimit (hs : h.Saves saved t) : h.enforceLimit.Saves saved t := by
  have hback : h.enforceLimit.backward = h.backward.take h.limit := List.map_take
  refine ⟨⟨hs.leads.pending, ?_, hs.leads.redo⟩, fun steps hmem => ?_⟩
  · rw [hback]
    exact fitAll_take hs.leads.undo _
  · obtain ⟨hold, hnear⟩ := Option.mem_filter_iff.mp hmem
    have hat := hs.at_eq steps hold
    cases steps with
    | negSucc n => exact hat
    | ofNat n =>
      have hn : n ≤ h.limit := by
        have hlength : n ≤ (h.undo.take h.limit).length := by simpa using hnear
        rw [List.length_take] at hlength
        omega
      change (h.baseOf t :: textsAlong h.enforceLimit.backward (h.baseOf t))[n]? = some saved
      rw [hback, textsAlong_take, ← List.take_succ_cons, List.getElem?_take_of_lt (by omega)]
      exact hat

lemma pushPending (hs : h.Saves saved t) :
    (({ h with pending := [] } : History).pushGroup h.pending).Saves saved t := by
  obtain ⟨hleads, htimeline⟩ := hs.leads.pushPending
  refine ⟨hleads, fun steps hmem => ?_⟩
  obtain ⟨hshifted, hnear⟩ := Option.mem_filter_iff.mp hmem
  obtain ⟨before, hbefore, rfl⟩ := Option.map_eq_some_iff.mp hshifted
  obtain ⟨hold, hpositive⟩ := Option.mem_filter_iff.mp hbefore
  have hlength : before + 1 ≤ ((h.pending :: h.undo).take h.limit).length := of_decide_eq_true hnear
  rw [List.length_take] at hlength
  rw [htimeline, Timeline.at?_record (of_decide_eq_true hpositive) (by omega)]
  exact hs.at_eq before hold

lemma commit (hs : h.Saves saved t) : h.commit.Saves saved t := by
  rw [History.commit]
  dsimp only
  split
  case h_1 top rest hundo _ =>
    let joined : History := { h with
      pending := []
      undo := (top ++ h.pending) :: rest
      redo := []
      stepsFromSaved := (h.stepsFromSaved.filter (· ≠ 0)).filter (0 ≤ ·) }
    have hbackward : h.backward = top.undoChanges :: rest.map ChangeGroup.undoChanges := by
      rw [backward, hundo]
      rfl
    have hjoined : joined.backward =
        (ChangeGroup.undoChanges h.pending ++ top.undoChanges) :: rest.map ChangeGroup.undoChanges := by
      rw [← ChangeGroup.undoChanges_append]
      rfl
    have htimeline : joined.timeline t = ⟨(h.timeline t).past, t, []⟩ := by
      rw [timeline, timeline, hjoined, hbackward]
      simp only [textsAlong]
      rw [show joined.baseOf t = t from rfl, applyAll_append]
      rfl
    change joined.Saves saved t
    refine ⟨⟨trivial, ?_, trivial⟩, fun steps hmem => ?_⟩
    · have hundo := hs.leads.undo
      rw [hbackward, List.flatten_cons] at hundo
      rw [hjoined, List.flatten_cons, List.append_assoc, fitAll_append]
      exact ⟨hs.leads.pending, hundo⟩
    · obtain ⟨hfiltered, hpositive⟩ := Option.mem_filter_iff.mp hmem
      obtain ⟨hold, hne⟩ := Option.mem_filter_iff.mp hfiltered
      obtain ⟨n, rfl⟩ := Int.eq_ofNat_of_zero_le (of_decide_eq_true hpositive)
      have hat := hs.at_eq _ hold
      rw [htimeline]
      cases n with
      | zero => simp at hne
      | succ n => exact hat
  case h_2 => exact hs.pushPending

lemma endGroup (hs : h.Saves saved t) (hafter : h.endGroup = .ok after) : after.Saves saved t := by
  rw [History.endGroup] at hafter
  split at hafter
  case h_1 => cases hafter
  case h_2 depth hd =>
    obtain rfl := Except.ok.inj hafter
    have hinner : ({ h with depth } : History).Saves saved t := hs.congr rfl rfl rfl fun _ hmem => hmem
    dsimp only
    split
    · exact hinner.commit
    · exact hinner

lemma clear (hs : h.Saves saved t) (hpending : h.pending = []) (hafter : h.clear = .ok after) :
    after.Saves saved t := by
  rw [History.clear] at hafter
  split at hafter
  case isTrue => cases hafter
  case isFalse =>
    obtain rfl := Except.ok.inj hafter
    let emptied : History := { h with undo := [], redo := [], stepsFromSaved := h.stepsFromSaved.filter (· = 0) }
    obtain ⟨hleads, htimeline⟩ := Leads.cleared (h := emptied) hpending rfl rfl t
    refine ⟨hleads, fun steps hmem => ?_⟩
    obtain ⟨hold, hzero⟩ := Option.mem_filter_iff.mp hmem
    obtain rfl := of_decide_eq_true hzero
    have hat := hs.at_eq 0 hold
    rw [Timeline.at?_zero] at hat
    change (emptied.timeline t).at? 0 = some saved
    rw [htimeline, ← hat, timeline, baseOf_nil hpending]
    rfl

lemma markSaved (hs : h.Saves saved t) : h.markSaved.Saves (h.baseOf t) t := by
  obtain ⟨hleads, htimeline⟩ := hs.leads.congr h.markSaved rfl rfl rfl
  refine ⟨hleads, fun steps hmem => ?_⟩
  obtain rfl := Option.some.inj hmem
  rw [htimeline, Timeline.at?_zero, timeline]

lemma undone (hs : h.Saves saved t) (hpending : h.pending = []) (hundo : h.undo = group :: rest) :
    FitAll group.undoChanges t ∧
      { h with undo := rest, phase := .playback group }.endUndo.Saves saved (applyAll group.undoChanges t) := by
  let after : History := { h with undo := rest, phase := .playback group }.endUndo
  obtain ⟨hfits, hleads, hback⟩ := hs.leads.undone after hpending hundo rfl rfl hpending
  refine ⟨hfits, hleads, fun steps hmem => ?_⟩
  obtain ⟨before, hold, rfl⟩ := Option.map_eq_some_iff.mp hmem
  exact (Timeline.at?_back hback).trans (hs.at_eq before hold)

lemma redone (hs : h.Saves saved t) (hpending : h.pending = []) (hredo : h.redo = group :: rest) :
    FitAll group t ∧
      { h with redo := rest, phase := .playback group }.endRedo.Saves saved (applyAll group t) := by
  let grown : History :=
    ({ h with redo := rest, phase := .idle, undo := group :: h.undo } : History).shiftSaved 1
  obtain ⟨hfits, hleads, hforth⟩ := hs.leads.redone grown hpending hredo rfl rfl hpending
  have hgrown : grown.Saves saved (applyAll group t) := by
    refine ⟨hleads, fun steps hmem => ?_⟩
    obtain ⟨before, hold, rfl⟩ := Option.map_eq_some_iff.mp hmem
    exact (Timeline.at?_forth hforth).trans (hs.at_eq before hold)
  exact ⟨hfits, hgrown.enforceLimit⟩

end Saves

structure Records (h : History) (saved t : Text) : Prop extends h.Saves saved t where
  idle : h.phase = .idle
  accepts : h.acceptsChanges = true
  closed : h.depth = 0 → h.pending = []

end History

namespace HistoryCall

def IsTame : HistoryCall → Prop
  | startGroup | startContinuedGroup | endGroup | setLimit _ | discardSaved | clear | clearRedo => True
  | _ => False

end HistoryCall

namespace History.Records

variable {h after : History} {saved t : Text} {c : Change} {group : ChangeGroup} {rest : List ChangeGroup}

lemma withLimit (limit : Nat) (t : Text) : (History.withLimit limit).Records t t :=
  ⟨.withLimit limit t, rfl, rfl, fun _ => rfl⟩

lemma startGroup (hr : h.Records saved t) : h.startGroup.Records saved t :=
  ⟨hr.toSaves.congr rfl rfl rfl fun _ hmem => hmem, hr.idle, hr.accepts, fun hz => absurd hz (Nat.succ_ne_zero _)⟩

lemma startContinuedGroup (hr : h.Records saved t) : h.startContinuedGroup.Records saved t :=
  ⟨hr.toSaves.congr rfl rfl rfl fun _ hmem => hmem, hr.idle, hr.accepts, fun hz => absurd hz (Nat.succ_ne_zero _)⟩

lemma endGroup (hr : h.Records saved t) (hafter : h.endGroup = .ok after) :
    after.Records saved t ∧ h.depth = after.depth + 1 := by
  have hsaves := hr.toSaves.endGroup hafter
  rw [History.endGroup] at hafter
  split at hafter
  case h_1 => cases hafter
  case h_2 depth hd =>
    obtain rfl := Except.ok.inj hafter
    dsimp only at hsaves ⊢
    split at hsaves
    case isTrue hcommit =>
      rw [if_pos hcommit]
      rw [History.commit] at hsaves ⊢
      split at hsaves <;> exact ⟨⟨hsaves, hr.idle, hr.accepts, fun _ => rfl⟩, hd⟩
    case isFalse hkept =>
      rw [if_neg hkept]
      exact ⟨⟨hsaves, hr.idle, hr.accepts, fun hz => not_not.mp fun hne => hkept ⟨hz, hne⟩⟩, hd⟩

lemma push (hr : h.Records saved t) (hc : c.Fits t) :
    ∃ after, h.push c = .ok after ∧ after.Records saved (c.apply t) ∧ after.depth = h.depth := by
  have hpended := hr.toSaves.pend hc
  by_cases hd : 0 < h.depth
  · refine ⟨_, by rw [push_eq hr.idle hd, if_pos hr.accepts], ⟨hpended, hr.idle, hr.accepts, ?_⟩, rfl⟩
    exact fun hz => absurd hz (Nat.ne_of_gt hd)
  · -- with no group open the change is a group of its own
    have hpending := hr.closed (by omega)
    have hsaves := hpended.pushPending
    simp only [hpending, List.nil_append] at hsaves
    rw [show ({ h with pending := [] } : History) = h by rw [← hpending]] at hsaves
    refine ⟨h.pushGroup [c], ?_, ⟨hsaves, hr.idle, hr.accepts, fun _ => hpending⟩, rfl⟩
    simp [History.push, hr.idle, hr.accepts, hd]

lemma clear (hr : h.Records saved t) (hafter : h.clear = .ok after) :
    after.Records saved t ∧ after.depth = h.depth := by
  by_cases hd : 0 < h.depth
  · rw [History.clear, if_pos hd] at hafter
    cases hafter
  · have hsaves := hr.toSaves.clear (hr.closed (by omega)) hafter
    rw [History.clear, if_neg hd] at hafter
    obtain rfl := Except.ok.inj hafter
    exact ⟨⟨hsaves, hr.idle, hr.accepts, hr.closed⟩, rfl⟩

lemma perform {call : HistoryCall} {reply : HistoryReply} (hr : h.Records saved t) (hc : call.IsTame)
    (hok : call.perform h = .ok (reply, after)) :
    after.Records saved t ∧ (h.depth ≤ after.depth ∨ call = .endGroup ∧ h.depth = after.depth + 1) := by
  cases call with
  | push | beginUndo | endUndo | beginRedo | endRedo | enterModify | exitModify | setAcceptsChanges | markSaved =>
    exact hc.elim
  | startGroup =>
    obtain rfl := HistoryCall.eq_of_quiet hok
    exact ⟨hr.startGroup, .inl (Nat.le_succ _)⟩
  | startContinuedGroup =>
    obtain rfl := HistoryCall.eq_of_quiet hok
    exact ⟨hr.startContinuedGroup, .inl (Nat.le_succ _)⟩
  | endGroup =>
    obtain ⟨ended, hended, hok⟩ := exists_of_bind_eq_ok hok
    obtain rfl := HistoryCall.eq_of_quiet hok
    obtain ⟨hrecords, hdepth⟩ := hr.endGroup hended
    exact ⟨hrecords, .inr ⟨rfl, hdepth⟩⟩
  | setLimit limit =>
    obtain rfl := HistoryCall.eq_of_quiet hok
    have hlimited : ({ h with limit } : History).Saves saved t := hr.toSaves.congr rfl rfl rfl fun _ hmem => hmem
    exact ⟨⟨hlimited.enforceLimit, hr.idle, hr.accepts, hr.closed⟩, .inl (Nat.le_refl _)⟩
  | discardSaved =>
    obtain rfl := HistoryCall.eq_of_quiet hok
    have hdiscarded : h.discardSaved.Saves saved t := hr.toSaves.congr rfl rfl rfl fun _ hmem => by cases hmem
    exact ⟨⟨hdiscarded, hr.idle, hr.accepts, hr.closed⟩, .inl (Nat.le_refl _)⟩
  | clear =>
    obtain ⟨cleared, hcleared, hok⟩ := exists_of_bind_eq_ok hok
    obtain rfl := HistoryCall.eq_of_quiet hok
    obtain ⟨hrecords, hdepth⟩ := hr.clear hcleared
    exact ⟨hrecords, .inl (Nat.le_of_eq hdepth.symm)⟩
  | clearRedo =>
    obtain rfl := HistoryCall.eq_of_quiet hok
    exact ⟨⟨hr.toSaves.clearRedo, hr.idle, hr.accepts, hr.closed⟩, .inl (Nat.le_refl _)⟩

lemma markSaved (hr : h.Records saved t) : h.markSaved.Records (h.baseOf t) t :=
  ⟨hr.toSaves.markSaved, hr.idle, hr.accepts, hr.closed⟩

lemma restarted (hr : h.Records saved t) (hd : h.depth = 0) (u : Text) : h.restarted.Records u u := by
  have hpending := hr.closed hd
  obtain ⟨hleads, htimeline⟩ := Leads.cleared (h := h.restarted) hpending rfl rfl u
  refine ⟨⟨hleads, fun steps hmem => ?_⟩, hr.idle, hr.accepts, hr.closed⟩
  obtain rfl := Option.some.inj hmem
  rw [htimeline]
  rfl

lemma isClosed (hr : h.Records saved t) (hd : h.depth = 0) : h.Closed := ⟨hr.idle, hd, hr.closed hd⟩

lemma singled (hr : h.Records saved t) : h.singled.Records saved t :=
  ⟨hr.toSaves.congr rfl rfl rfl fun _ hmem => hmem, hr.idle, hr.accepts, hr.closed⟩

lemma played {d : Direction} (hr : h.Records saved t) (hd : h.depth = 0) (hgroups : d.groups h = group :: rest) :
    FitAll (d.changes group) t ∧
      (d.finish (d.handed group rest h)).Records saved (applyAll (d.changes group) t) := by
  have hpending := hr.closed hd
  cases d with
  | back =>
    obtain ⟨hfits, hsaves⟩ := hr.toSaves.undone hpending hgroups
    exact ⟨hfits, hsaves, rfl, hr.accepts, hr.closed⟩
  | forth =>
    obtain ⟨hfits, hsaves⟩ := hr.toSaves.redone hpending hgroups
    exact ⟨hfits, hsaves, rfl, hr.accepts, hr.closed⟩

end History.Records

end EditableText
