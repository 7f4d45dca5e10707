import EditableText.Proofs.Anchor.Following

namespace EditableText

namespace AnchorSlot

variable {slot : AnchorSlot} {map : OffsetMap} {step : OffsetStep} {offset stop stop' n m : Nat}

def followEach : AnchorSlot → Nat → OffsetMap → AnchorSlot
  | slot, _, [] => slot
  | slot, textLength, step :: rest =>
    let length := textLength - step.removal + step.insertion
    (slot.follow [step] length).followEach length rest

structure Agrees (slot other : AnchorSlot) : Prop where
  same : other = { slot with offset := other.offset }
  offset_eq : slot.state = .live → other.offset = slot.offset

lemma Agrees.state_eq {other : AnchorSlot} (h : slot.Agrees other) : other.state = slot.state := by
  rw [h.same]

lemma Agrees.eq_of_live {other : AnchorSlot} (h : slot.Agrees other) (hlive : slot.state = .live) :
    other = slot := by
  rw [h.same, h.offset_eq hlive]

lemma followEach_of_not_live (h : slot.state ≠ .live) : slot.followEach n map = slot := by
  induction map generalizing n with
  | nil => rfl
  | cons step rest ih =>
    change (slot.follow [step] _).followEach _ rest = slot
    rw [follow_of_not_live h, ih]

lemma follow_cons_of_lost (hlive : slot.state = .live)
    (h : (step.removesAround slot.offset && !slot.survivesDeletion && !step.keepsAnchors) = true) :
    slot.follow (step :: map) n = { slot with offset := min slot.offset n, state := .deleted } := by
  rw [follow, if_pos hlive, carry, if_pos h]
  rfl

lemma follow_cons_of_kept (hlive : slot.state = .live)
    (h : ¬ (step.removesAround slot.offset && !slot.survivesDeletion && !step.keepsAnchors) = true) :
    slot.follow (step :: map) n = { slot with offset := step.move slot.movement slot.offset }.follow map n := by
  rw [follow, follow, if_pos hlive, if_pos hlive, carry, if_neg h]

lemma agrees_followEach (h : map.Exact offset 0 stop' stop) (hstop : stop ≤ n)
    (hslot : slot.state = .live → slot.offset ≤ n) :
    (slot.follow map (n - stop + stop')).Agrees (slot.followEach n map) := by
  -- No step leads out of the text that it leaves, so it makes no difference that each one clamps.
  induction map generalizing slot stop n with
  | nil =>
    obtain rfl : stop = stop' := h
    rw [Nat.sub_add_cancel hstop, follow_nil hslot]
    exact ⟨rfl, fun _ => rfl⟩
  | cons step rest ih =>
    obtain ⟨hstep, hrest⟩ := h
    have hremoval : step.removal ≤ stop := Nat.le_trans (Nat.le_add_left _ _) hstep.end_le
    have hlength : n - step.removal + step.insertion - (stop - step.removal + step.insertion) = n - stop := by
      omega
    have hfollow (slot : AnchorSlot)
        (hslot : slot.state = .live → slot.offset ≤ n - step.removal + step.insertion) :
        (slot.follow rest (n - stop + stop')).Agrees
          (slot.followEach (n - step.removal + step.insertion) rest) := by
      rw [← hlength]
      exact ih hrest (by omega) hslot
    change (slot.follow (step :: rest) _).Agrees ((slot.follow [step] _).followEach _ rest)
    by_cases hlive : slot.state = .live
    · by_cases hlost : (step.removesAround slot.offset && !slot.survivesDeletion && !step.keepsAnchors) = true
      · rw [follow_cons_of_lost hlive hlost, follow_cons_of_lost hlive hlost, followEach_of_not_live (by simp)]
        exact ⟨rfl, by simp⟩
      · have hmove := hstep.move_le slot.movement hstop (hslot hlive)
        rw [follow_cons_of_kept hlive hlost, follow_cons_of_kept hlive hlost, follow_nil fun _ => hmove]
        exact hfollow _ fun _ => hmove
    · rw [follow_of_not_live hlive, follow_of_not_live hlive]
      have hstill := hfollow slot fun hlive' => absurd hlive' hlive
      rwa [follow_of_not_live hlive] at hstill

end AnchorSlot

lemma filterMap_perm_append {α β : Type} {f g h : α → Option β} {l : List α}
    (hl : ∀ x ∈ l, f x = g x ∧ h x = none ∨ g x = none ∧ f x = h x) :
    (l.filterMap f).Perm (l.filterMap g ++ l.filterMap h) := by
  induction l with
  | nil => exact .nil
  | cons x rest ih =>
    have hrest := ih fun y hy => hl y (List.mem_cons_of_mem _ hy)
    rw [List.filterMap_cons, List.filterMap_cons, List.filterMap_cons]
    rcases hl x List.mem_cons_self with ⟨hfirst, hnone⟩ | ⟨hnone, hsecond⟩
    · rw [hfirst, hnone]
      cases g x with
      | none => exact hrest
      | some b => exact hrest.cons b
    · rw [hsecond, hnone]
      cases h x with
      | none => exact hrest
      | some b => exact (hrest.cons b).trans List.perm_middle.symm

namespace AnchorTable

variable {table after other : AnchorTable} {map : OffsetMap} {f g : AnchorSlot → AnchorSlot}
  {offset stop stop' n : Nat}

def followEach : AnchorTable → Nat → OffsetMap → List AnchorId × AnchorTable
  | table, _, [] => ([], table)
  | table, textLength, step :: rest =>
    let length := textLength - step.removal + step.insertion
    let (deleted, table) := table.follow [step] length
    let (others, table) := table.followEach length rest
    (deleted ++ others, table)

def lostBy (table : AnchorTable) (f : AnchorSlot → AnchorSlot) : List AnchorId :=
  table.slots.toList.zipIdx.filterMap fun (slot, index) =>
    if slot.state = .live ∧ (f slot).state = .deleted then some (idAt index slot) else none

lemma lostBy_congr (h : ∀ slot ∈ table.slots.toList, (f slot).state = (g slot).state) :
    table.lostBy f = table.lostBy g := by
  refine List.filterMap_congr ?_
  rintro ⟨slot, index⟩ hmem
  dsimp only
  rw [h slot (List.fst_mem_of_mem_zipIdx hmem)]

lemma lostBy_follow_nil (table : AnchorTable) (n : Nat) : table.lostBy (·.follow [] n) = [] := by
  refine List.filterMap_eq_nil_iff.mpr ?_
  rintro ⟨slot, index⟩ -
  refine if_neg ?_
  rintro ⟨hlive, hdeleted⟩
  simp [AnchorSlot.follow, AnchorSlot.carry, hlive] at hdeleted

lemma follow_fst (table : AnchorTable) (map : OffsetMap) (n : Nat) :
    (table.follow map n).1 = table.lostBy (·.follow map n) := by
  cases map with
  | nil => exact (table.lostBy_follow_nil n).symm
  | cons step rest => rfl

lemma followEach_slots (table : AnchorTable) (n : Nat) (map : OffsetMap) :
    (table.followEach n map).2.slots = table.slots.map (·.followEach n map) := by
  induction map generalizing table n with
  | nil => exact (Array.map_id table.slots).symm
  | cons step rest ih =>
    let length := n - step.removal + step.insertion
    have hslots : (table.follow [step] length).2.slots = table.slots.map (·.follow [step] length) := rfl
    change ((table.follow [step] length).2.followEach length rest).2.slots = _
    rw [ih, hslots, Array.map_map]
    rfl

lemma lostBy_comp_perm (table : AnchorTable) (step : OffsetStep)
    (hg : ∀ slot : AnchorSlot, slot.state ≠ .live → g slot = slot) :
    (table.lostBy fun slot => g (slot.follow [step] n)).Perm
      (table.lostBy (·.follow [step] n) ++ (table.follow [step] n).2.lostBy g) := by
  have hslots : (table.follow [step] n).2.slots = table.slots.map (·.follow [step] n) := rfl
  rw [lostBy, lostBy, lostBy, hslots, Array.toList_map, List.zipIdx_map, List.filterMap_map]
  refine filterMap_perm_append ?_
  rintro ⟨slot, index⟩ -
  have hid : idAt index (slot.follow [step] n) = idAt index slot := by rw [idAt, follow_generation, idAt]
  simp only [Function.comp_apply, Prod.map_apply, id_eq, hid]
  by_cases hlive : slot.state = .live
  · rcases slot.follow_state [step] n hlive with hkept | hlost
    · exact .inr (by simp [hlive, hkept])
    · exact .inl (by simp [hlive, hlost, hg])
  · rw [AnchorSlot.follow_of_not_live hlive]
    exact .inl (by simp [hlive])

lemma followEach_fst_perm (table : AnchorTable) (n : Nat) (map : OffsetMap) :
    (table.followEach n map).1.Perm (table.lostBy (·.followEach n map)) := by
  induction map generalizing table n with
  | nil =>
    refine .of_eq (List.filterMap_eq_nil_iff.mpr ?_).symm
    rintro ⟨slot, index⟩ -
    exact if_neg fun ⟨hlive, hdeleted⟩ => by simp [AnchorSlot.followEach, hlive] at hdeleted
  | cons step rest ih =>
    let length := n - step.removal + step.insertion
    change (table.lostBy (·.follow [step] length) ++
      ((table.follow [step] length).2.followEach length rest).1).Perm _
    refine ((ih _ length).append_left _).trans ?_
    exact (table.lostBy_comp_perm step fun slot hslot => AnchorSlot.followEach_of_not_live hslot).symm

section Agrees

variable (h : ∀ slot ∈ table.slots.toList, (f slot).Agrees (g slot)) (hafter : after.slots = table.slots.map f)
  (hother : other.slots = table.slots.map g)

include h hafter hother

lemma live_eq_of_agrees : after.live = other.live := by
  rw [live, live, hafter, hother, Array.toList_map, Array.toList_map, List.zipIdx_map, List.zipIdx_map,
    List.filterMap_map, List.filterMap_map]
  refine List.filterMap_congr ?_
  rintro ⟨slot, index⟩ hmem
  have hagrees := h slot (List.fst_mem_of_mem_zipIdx hmem)
  simp only [Function.comp_apply, Prod.map_apply, id_eq, hagrees.state_eq]
  split
  case isTrue hlive => rw [hagrees.eq_of_live hlive]
  case isFalse => rfl

lemma isDeleted_eq_of_agrees (id : AnchorId) : after.isDeleted id = other.isDeleted id := by
  rw [isDeleted, isDeleted, AnchorTable.slot, AnchorTable.slot, hafter, hother]
  simp only [Array.getElem?_map]
  cases hslot : table.slots[id.index.toNat]? with
  | none => rfl
  | some slot =>
    obtain ⟨hlt, rfl⟩ := Array.getElem?_eq_some_iff.mp hslot
    have hagrees := h _ (Array.getElem_mem_toList hlt)
    rw [Option.map_some, Option.map_some, hagrees.same]
    dsimp only
    split <;> rfl

end Agrees

lemma follow_agrees_followEach (h : table.Within n) (hmap : map.Exact offset 0 stop' stop) (hstop : stop ≤ n) :
    (table.follow map (n - stop + stop')).1.Perm (table.followEach n map).1 ∧
      (table.follow map (n - stop + stop')).2.live = (table.followEach n map).2.live ∧
      ∀ id, (table.follow map (n - stop + stop')).2.isDeleted id = (table.followEach n map).2.isDeleted id := by
  have hagrees : ∀ slot ∈ table.slots.toList,
      (slot.follow map (n - stop + stop')).Agrees (slot.followEach n map) :=
    fun slot hmem => AnchorSlot.agrees_followEach hmap hstop (h slot hmem)
  have hlength : map = [] → n - stop + stop' = n := by
    rintro rfl
    obtain rfl : stop = stop' := hmap
    omega
  have hslots := follow_slots h hlength
  have hsteps := table.followEach_slots n map
  refine ⟨?_, live_eq_of_agrees hagrees hslots hsteps, isDeleted_eq_of_agrees hagrees hslots hsteps⟩
  rw [follow_fst, lostBy_congr fun slot hmem => (hagrees slot hmem).state_eq.symm]
  exact (table.followEach_fst_perm n map).symm

end AnchorTable

end EditableText
