import EditableText.Proofs.Anchor.RegisterSteps
import Mathlib.Data.List.Infix
import Mathlib.Order.Bounds.Defs

namespace EditableText

def AnchorCall.target? : AnchorCall → Option AnchorId
  | release id | setMovement id _ | setSurvivesDeletion id _ => some id
  | _ => none

namespace AnchorRegister

open AnchorRecord AnchorTable

variable {r : AnchorRegister} {id : AnchorId} {x y : AnchorRecord} {slot : AnchorSlot} {i : Nat}

lemma run_concat (calls : List AnchorCall) (call : AnchorCall) :
    run (calls ++ [call]) = (run calls).perform call := by
  rw [run, List.foldl_append]
  rfl

variable {calls earlier : List AnchorCall} {call : AnchorCall}

lemma Bounded.mono (h : Bounded calls) (hearlier : earlier <+: calls) : Bounded earlier :=
  fun _ hbefore => h _ (hbefore.trans hearlier)

lemma inStep_run (h : Bounded calls) : (run calls).InStep := by
  induction calls using List.reverseRecOn with
  | nil => exact .empty
  | append_singleton calls call ih =>
    have hrun := run_concat calls call
    have hlast := h _ (List.prefix_refl _)
    rw [hrun] at hlast ⊢
    exact (ih (h.mono (List.prefix_append _ _))).perform call hlast.1 hlast.2

lemma capacity_run (h : Bounded calls) :
    IsGreatest {n | ∃ earlier, earlier <+: calls ∧ (run earlier).unreleased.length = n}
      (run calls).table.capacity := by
  induction calls using List.reverseRecOn with
  | nil =>
    refine ⟨⟨[], List.prefix_refl _, rfl⟩, ?_⟩
    rintro n ⟨earlier, hearlier, rfl⟩
    rw [List.prefix_nil.mp hearlier]
    exact Nat.le_refl _
  | append_singleton calls call ih =>
    have hbefore := h.mono (List.prefix_append calls [call])
    obtain ⟨⟨peak, hpeak, hlength⟩, hmax⟩ := ih hbefore
    have hafter := inStep_run h
    rw [run_concat] at hafter
    have hcapacity := (inStep_run hbefore).capacity_perform hafter
    rw [← run_concat] at hcapacity
    rw [hcapacity]
    -- either the peak is reached with the last call, or it is the one before
    constructor
    · rcases Nat.le_total (run calls).table.capacity (run (calls ++ [call])).unreleased.length with hle | hle
      · exact ⟨_, List.prefix_refl _, (Nat.max_eq_right hle).symm⟩
      · exact ⟨peak, hpeak.trans (List.prefix_append _ _), hlength.trans (Nat.max_eq_left hle).symm⟩
    · rintro n ⟨earlier, hearlier, rfl⟩
      rcases List.prefix_concat_iff.mp hearlier with rfl | hshorter
      · exact Nat.le_max_right _ _
      · exact Nat.le_trans (hmax ⟨earlier, hshorter, rfl⟩) (Nat.le_max_left _ _)

lemma exists_records_perform (r : AnchorRegister) (call : AnchorCall) :
    ∃ g new, (r.perform call).records = r.records.map g ++ new ∧
      ∀ x, (g x).anchor.id = x.anchor.id ∧ (x.isReleased = true → g x = x) := by
  have hamend (id : AnchorId) {f : AnchorRecord → AnchorRecord} (hf : ∀ x, (f x).anchor.id = x.anchor.id) :
      ∃ g new, amend id f r.records = r.records.map g ++ new ∧
        ∀ x, (g x).anchor.id = x.anchor.id ∧ (x.isReleased = true → g x = x) := by
    refine ⟨_, [], (List.append_nil _).symm, fun x => ⟨?_, fun hkind => ?_⟩⟩
    · split
      · exact hf x
      · rfl
    · exact if_neg (by simp [hkind])
  cases call with
  | create => exact ⟨id, _, by rw [perform, List.map_id], fun _ => ⟨rfl, fun _ => rfl⟩⟩
  | release id => exact hamend id fun _ => rfl
  | setMovement id => exact hamend id fun _ => rfl
  | setSurvivesDeletion id => exact hamend id fun _ => rfl
  | follow map textLength =>
    refine ⟨_, [], (List.append_nil _).symm, fun x => ⟨?_, fun hkind => ?_⟩⟩
    · exact (x.follow_keeps map textLength).1
    · rw [AnchorRecord.follow, if_pos (.inr (.inl hkind))]

lemma getElem?_records_run (hearlier : earlier <+: calls) {k : Nat} (hx : (run earlier).records[k]? = some x) :
    ∃ y, (run calls).records[k]? = some y ∧ y.anchor.id = x.anchor.id ∧ (x.isReleased = true → y = x) := by
  obtain ⟨more, rfl⟩ := hearlier
  induction more using List.reverseRecOn with
  | nil => exact ⟨x, by rwa [List.append_nil], rfl, fun _ => rfl⟩
  | append_singleton more call ih =>
    obtain ⟨y, hy, hid, hreleased⟩ := ih
    obtain ⟨g, new, hrecords, hg⟩ := exists_records_perform (run (earlier ++ more)) call
    rw [← List.append_assoc, run_concat, hrecords]
    refine ⟨g y, ?_, (hg y).1.trans hid, fun hkind => ?_⟩
    · have hlt := (List.getElem?_eq_some_iff.mp hy).1
      rw [List.getElem?_append_left (by rwa [List.length_map]), List.getElem?_map, hy]
      rfl
    · rw [hreleased hkind] at hy ⊢
      exact (hg x).2 hkind

lemma get_perform_of_ne (h : r.InStep) (hcall : ∀ map textLength, call ≠ .follow map textLength)
    (hx : x ∈ r.unreleased) (htarget : call.target? ≠ some x.anchor.id) :
    (r.perform call).table.get x.anchor.id = .ok x.anchor := by
  obtain ⟨hmem, hkept⟩ := mem_unreleased.mp hx
  have hget := h.known x hmem hkept
  have hmodify (id : AnchorId) (hne : id ≠ x.anchor.id) (f : AnchorSlot → AnchorSlot) :
      ((r.table.modify id f).toOption.getD r.table).get x.anchor.id = .ok x.anchor := by
    cases hok : r.table.modify id f with
    | error e => exact hget
    | ok after => exact get_modify hget hok fun heq => absurd heq hne
  cases call with
  | create => exact h.tidy.get_create hget
  | release id =>
    rw [perform]
    cases hok : r.table.release id with
    | error e => exact hget
    | ok after => exact get_release_of_ne hget hok fun heq => htarget (congrArg some heq)
  | setMovement id | setSurvivesDeletion id => exact hmodify id (fun heq => htarget (congrArg some heq)) _
  | follow map textLength => exact absurd rfl (hcall map textLength)

lemma mem_released_iff (h : r.InStep) : i ∈ r.table.released ↔
    i < r.table.capacity ∧ ∀ x ∈ r.records, x.anchor.id.index.toNat = i → x.isReleased = true := by
  constructor
  · intro hi
    obtain ⟨slot, hslot, hfree⟩ := h.tidy.free i hi
    refine ⟨(Array.getElem?_eq_some_iff.mp hslot).1, fun x hx hindex => ?_⟩
    by_contra hkept
    refine h.index_ne_of_vacant (fun other hother => ?_) (mem_unreleased.mpr ⟨hx, by simpa using hkept⟩) hindex
    obtain rfl := Option.some.inj (hslot.symm.trans hother)
    exact hfree
  · rintro ⟨hlt, hreleased⟩
    have hslot := Array.getElem?_eq_getElem hlt
    by_contra hi
    obtain ⟨x, hx, -, hindex, -⟩ := h.exists_owner hslot fun hfree => hi (h.listed i _ hslot hfree)
    obtain ⟨hmem, hkept⟩ := mem_unreleased.mp hx
    simp [hreleased x hmem hindex] at hkept

/-- Nobody is ever led to another anchor than the one that a handle was given out for. -/
theorem handles_stand_for_their_anchors {calls : List AnchorCall} (h : Bounded calls) :
    let r := run calls
    (r.unreleased.map (·.anchor.id)).Nodup ∧
      (∀ earlier, earlier <+: calls → ∀ (k : Nat) x, (run earlier).records[k]? = some x →
        ∃ y, r.records[k]? = some y ∧ y.anchor.id = x.anchor.id ∧ (x.isReleased = true → y = x)) ∧
      (∀ x ∈ r.records, x.isReleased = false → r.table.get x.anchor.id = .ok x.anchor) ∧
      (∀ x ∈ r.records, x.isReleased = true → r.table.Refuses x.anchor.id) ∧
      (∀ call, (∀ map textLength, call ≠ .follow map textLength) → ∀ x ∈ r.records, x.isReleased = false →
        call.target? ≠ some x.anchor.id → (r.perform call).table.get x.anchor.id = .ok x.anchor) ∧
      r.table.liveCount = (r.records.filter fun x => !x.isReleased && !x.anchor.isDeleted).length ∧
      r.table.released.Nodup ∧
      (∀ i, i ∈ r.table.released ↔
        i < r.table.capacity ∧ ∀ x ∈ r.records, x.anchor.id.index.toNat = i → x.isReleased = true) ∧
      IsGreatest {n | ∃ earlier, earlier <+: calls ∧ (run earlier).unreleased.length = n} r.table.capacity := by
  intro r
  have hr : r.InStep := inStep_run h
  refine ⟨?_, fun earlier hearlier k x hx => getElem?_records_run hearlier hx, hr.known, fun x hx hkind => ?_,
    fun call hcall x hx hkept htarget => ?_, ?_, hr.tidy.nodup, fun i => mem_released_iff hr, capacity_run h⟩
  · exact hr.nodup.sublist (List.filter_sublist.map _)
  · refine refuses_of_slot (hr.refused fun y hy hid => ?_)
    obtain ⟨hmem, hkept⟩ := mem_unreleased.mp hy
    obtain rfl := hr.eq_of_id hmem hx hid
    cases hkept.symm.trans hkind
  · exact get_perform_of_ne hr hcall (mem_unreleased.mpr ⟨hx, hkept⟩) htarget
  · rw [← hr.length_live, live, unreleased, List.filter_filter]
    simp only [Bool.and_comm]

lemma length_records_le (calls : List AnchorCall) : (run calls).records.length ≤ calls.length := by
  induction calls using List.reverseRecOn with
  | nil => exact Nat.le_refl _
  | append_singleton calls call ih =>
    rw [run_concat, List.length_append]
    have hstep : ((run calls).perform call).records.length ≤ (run calls).records.length + 1 := by
      cases call <;> simp [perform, amend]
    exact Nat.le_trans hstep (Nat.succ_le_succ ih)

lemma bounded_of_length (h : calls.length < UInt32.size) : Bounded calls := by
  intro earlier hearlier
  have hle := Nat.le_trans (length_records_le earlier) hearlier.length_le
  refine ⟨?_, fun index => ?_⟩
  · exact Nat.lt_of_le_of_lt (Nat.le_trans (List.length_filter_le _ _) hle) h
  · exact Nat.lt_of_le_of_lt (Nat.le_trans List.countP_le_length hle) h

theorem handles_stand_for_their_anchors_over_reuse :
    ∃ calls r, calls = [.create 3 .byEdit false, .create 5 .beforeInsertion true, .release ⟨0, 0⟩,
        .create 7 .afterInsertion false, .follow [.plain 2 4 0] 9] ∧ r = run calls ∧ Bounded calls ∧
      r.records = [⟨⟨⟨0, 0⟩, 3, .byEdit, false, false⟩, true⟩,
        ⟨⟨⟨1, 0⟩, 2, .beforeInsertion, true, false⟩, false⟩,
        ⟨⟨⟨0, 1⟩, 3, .afterInsertion, false, false⟩, false⟩] ∧
      r.table.Refuses ⟨0, 0⟩ ∧ r.table.get ⟨0, 1⟩ = .ok ⟨⟨0, 1⟩, 3, .afterInsertion, false, false⟩ ∧
      r.table.liveCount = 2 := by
  obtain ⟨calls, hcalls⟩ : ∃ calls : List AnchorCall, calls = [.create 3 .byEdit false,
    .create 5 .beforeInsertion true, .release ⟨0, 0⟩, .create 7 .afterInsertion false,
    .follow [.plain 2 4 0] 9] := ⟨_, rfl⟩
  have hbounded : Bounded calls := bounded_of_length (by subst hcalls; decide)
  have hrecords : (run calls).records = [⟨⟨⟨0, 0⟩, 3, .byEdit, false, false⟩, true⟩,
      ⟨⟨⟨1, 0⟩, 2, .beforeInsertion, true, false⟩, false⟩,
      ⟨⟨⟨0, 1⟩, 3, .afterInsertion, false, false⟩, false⟩] := by
    subst hcalls
    decide +kernel
  obtain ⟨-, -, hknown, hrefused, -, hcount, -⟩ := handles_stand_for_their_anchors hbounded
  have hgone := hrefused ⟨⟨⟨0, 0⟩, 3, .byEdit, false, false⟩, true⟩ (by simp [hrecords]) rfl
  have hthere := hknown ⟨⟨⟨0, 1⟩, 3, .afterInsertion, false, false⟩, false⟩ (by simp [hrecords]) rfl
  refine ⟨calls, _, hcalls, rfl, hbounded, hrecords, hgone, hthere, ?_⟩
  rw [hcount, hrecords]
  rfl

end AnchorRegister

end EditableText
