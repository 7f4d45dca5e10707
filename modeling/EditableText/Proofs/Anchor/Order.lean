import EditableText.Proofs.Anchor.Lifetime
import EditableText.Proofs.Change.Confined

namespace EditableText

/-- Where both are at an insertion, the first does not go behind it if the second stays in front. -/
def AnchorMovement.LeadsUpTo (first second : AnchorMovement) : Prop :=
  first = second ∨ first = .beforeInsertion ∨ second = .afterInsertion

variable {first second : AnchorMovement} {a a' b b' n : Nat}

lemma OffsetStep.le_of_move? {step : OffsetStep} (h : first.LeadsUpTo second) (hab : a ≤ b)
    (ha : step.move? first a = .ok a') (hb : step.move? second b = .ok b') : a' ≤ b' := by
  have hresolve : step.resolve second = .beforeInsertion → step.resolve first = .beforeInsertion := by
    rcases h with rfl | rfl | rfl
    · exact fun hsecond => hsecond
    · exact fun _ => rfl
    · intro hsecond
      cases hsecond
  rw [move?_eq_ok ha, move?_eq_ok hb]
  by_cases hsecond : step.resolve second = .beforeInsertion
  · simp only [hsecond, hresolve hsecond, if_true]
    split_ifs <;> omega
  · simp only [hsecond, if_false]
    split_ifs <;> omega

lemma OffsetMap.le_of_move? {map : OffsetMap} (h : first.LeadsUpTo second) (hab : a ≤ b)
    (ha : map.move? first a = .ok a') (hb : map.move? second b = .ok b') : a' ≤ b' := by
  induction map generalizing a b with
  | nil =>
    obtain rfl := Except.ok.inj ha
    obtain rfl := Except.ok.inj hb
    exact hab
  | cons step rest ih =>
    obtain ⟨p, hp, ha⟩ := exists_of_bind_eq_ok ha
    obtain ⟨q, hq, hb⟩ := exists_of_bind_eq_ok hb
    exact ih (OffsetStep.le_of_move? h hab hp hq) ha hb

lemma OffsetMap.Exact.move_le_move {map : OffsetMap} {offset behind stop stop' : Nat}
    (hexact : map.Exact offset behind stop' stop) (h : first.LeadsUpTo second) (hab : a ≤ b)
    (hb : b ≤ stop + behind) : map.move first a ≤ map.move second b :=
  le_of_move? h hab (hexact.move?_eq first (by omega)) (hexact.move?_eq second hb)

namespace AnchorSlot

variable {slot other : AnchorSlot}

lemma offset_follow {map : OffsetMap} (hlive : (slot.follow map n).state = .live) :
    (slot.follow map n).offset = min (map.move slot.movement slot.offset) n := by
  have hbefore := AnchorTable.live_of_follow hlive
  have hkept : ¬ LostAlong slot.movement slot.survivesDeletion slot.offset map := by
    intro hlost
    rw [follow, if_pos hbefore] at hlive
    simp [carry_lost_iff.mpr hlost] at hlive
  rw [follow_of_kept hbefore hkept]

lemma follow_le_follow {map : OffsetMap} (hslot : (slot.follow map n).state = .live)
    (hother : (other.follow map n).state = .live)
    (hle : map.move slot.movement slot.offset ≤ map.move other.movement other.offset) :
    (slot.follow map n).offset ≤ (other.follow map n).offset := by
  rw [offset_follow hslot, offset_follow hother]
  omega

end AnchorSlot

namespace AnchorTable

variable {table : AnchorTable} {id other : AnchorId}

lemma follow_keeps_order {x y x' y' : Anchor} (hx : table.get id = .ok x) (hy : table.get other = .ok y)
    (hmovement : x.movement = y.movement) (hle : x.offset ≤ y.offset) (hword : y.offset < UInt64.size)
    {map : OffsetMap} (hxmove : map.move? x.movement x.offset ≠ .error .overflow)
    (hymove : map.move? y.movement y.offset ≠ .error .overflow)
    (hx' : (table.follow map n).2.get id = .ok x') (hy' : (table.follow map n).2.get other = .ok y')
    (hxlive : x'.isDeleted = false) (hylive : y'.isDeleted = false) : x'.offset ≤ y'.offset := by
  cases hmap : map.isEmpty with
  | true =>
    have hsame : (table.follow map n).2 = table := by rw [follow, if_pos hmap]
    rw [hsame] at hx' hy'
    obtain rfl := Except.ok.inj (hx.symm.trans hx')
    obtain rfl := Except.ok.inj (hy.symm.trans hy')
    exact hle
  | false =>
    obtain ⟨slot, hslot, rfl⟩ := get_eq_ok hx
    obtain ⟨slot', hslot', rfl⟩ := get_eq_ok hy
    obtain rfl := Except.ok.inj ((get_of_slot (slot_follow hslot hmap)).symm.trans hx')
    obtain rfl := Except.ok.inj ((get_of_slot (slot_follow hslot' hmap)).symm.trans hy')
    have hlive := live_of_slot (slot_follow hslot hmap) hxlive
    have hlive' := live_of_slot (slot_follow hslot' hmap) hylive
    have hxok := (map.move?_cases slot.movement (Nat.lt_of_le_of_lt hle hword)).resolve_left hxmove
    have hyok := (map.move?_cases slot'.movement hword).resolve_left hymove
    exact AnchorSlot.follow_le_follow hlive hlive' (OffsetMap.le_of_move? (.inl hmovement) hle hxok hyok)

end AnchorTable

end EditableText
