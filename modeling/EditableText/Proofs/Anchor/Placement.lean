import EditableText.Proofs.Anchor.Lifetime
import EditableText.Proofs.Anchor.Stepwise

namespace EditableText

namespace ChangeMapping

variable {offset removal insertion position n : Nat} {movement : AnchorMovement} {survives : Bool}

lemma characterReplace_of_both (h : ¬ (removal = 0 ∨ insertion = 0)) :
    characterReplace.offsetMap offset removal insertion = replaceCharacters offset removal insertion := if_neg h

lemma move_plain (hrange : offset + removal ≤ n) (hword : n < UInt64.size)
    (hword' : n - removal + insertion < UInt64.size) (hposition : position ≤ n) :
    (OffsetStep.plain offset removal insertion).move movement position =
      if position < offset then position
      else if offset < position ∧ offset + removal ≤ position then position - removal + insertion
      else if movement = .beforeInsertion then offset
      else offset + insertion := by
  rw [(OffsetStep.exact_plain hrange hword hword').move_eq movement (by omega)]
  cases movement <;> simp [OffsetStep.resolve, OffsetStep.plain]

lemma removesAround_plain_insertion : (OffsetStep.plain offset 0 insertion).removesAround position = false := by
  have hend : (OffsetStep.plain offset 0 insertion).removalEnd ≤ offset := Word.add_le offset 0
  rw [OffsetStep.removesAround, Bool.and_eq_false_iff, decide_eq_false_iff_not, decide_eq_false_iff_not]
  exact (Nat.lt_or_ge offset position).symm.imp Nat.not_lt.mpr fun h => by omega

lemma not_lostAlong_replaceCharacters :
    ¬ AnchorSlot.LostAlong movement survives position (replaceCharacters offset removal insertion) := by
  rw [replaceCharacters]
  split_ifs
  · simp [AnchorSlot.lostAlong_cons, AnchorSlot.lostAlong_nil, removesAround_plain_insertion]
  · simp [AnchorSlot.lostAlong_cons, AnchorSlot.lostAlong_nil]
  · exact AnchorSlot.lostAlong_nil

lemma move_replaceCharacters (movement : AnchorMovement) (hrange : offset + removal ≤ n) (hword : n < UInt64.size)
    (hword' : n - removal + insertion < UInt64.size) (hposition : position ≤ n) :
    (replaceCharacters offset removal insertion).move movement position =
      if position < offset + min removal insertion then position
      else if offset + removal < position then position - removal + insertion
      else if removal < insertion ∧ movement = .beforeInsertion then offset + removal
      else offset + insertion := by
  rw [replaceCharacters]
  split
  case isTrue hmore =>
    rw [Word.add_eq (by omega), OffsetMap.move, List.foldl_cons,
      move_plain (by omega) hword (by omega : n - 0 + (insertion - removal) < _) hposition, List.foldl_nil]
    simp only [hmore, true_and]
    split_ifs <;> omega
  case isFalse =>
    split
    case isTrue hless =>
      have hexact : OffsetStep.Exact (offset + insertion) (n - (offset + removal)) (offset + removal)
          ⟨offset + insertion, removal - insertion, 0, true, false⟩ :=
        ⟨Nat.le_refl _, by dsimp only; omega, by omega, by dsimp only; omega⟩
      rw [Word.add_eq (by omega), OffsetMap.move, List.foldl_cons, hexact.move_eq movement (by omega),
        List.foldl_nil]
      dsimp only
      split_ifs <;> omega
    case isFalse =>
      change position = _
      split_ifs <;> omega

lemma move_removeAndInsert (hword : offset + removal < UInt64.size) (hword' : offset + insertion < UInt64.size)
    (hlow : offset < position) (hhigh : position < offset + removal) :
    OffsetMap.move [.plain offset removal 0, .plain offset 0 insertion] movement position =
      if movement = .beforeInsertion then offset else offset + insertion := by
  have hremoved : (OffsetStep.plain offset removal 0).move movement position = offset := by
    rw [move_plain (Nat.le_refl _) hword (by omega) (by omega), if_neg (by omega), if_neg (by omega), Nat.add_zero,
      ite_self]
  have hinserted : (OffsetStep.plain offset 0 insertion).move movement offset =
      if movement = .beforeInsertion then offset else offset + insertion := by
    rw [move_plain (n := offset) (Nat.le_refl _) (by omega) hword' (Nat.le_refl _), if_neg (by omega),
      if_neg (by omega)]
  rw [OffsetMap.move, List.foldl_cons, hremoved, List.foldl_cons, hinserted, List.foldl_nil]

end ChangeMapping

namespace AnchorTable

open AnchorSlot (LostAlong)

variable {table : AnchorTable} {id : AnchorId} {map : OffsetMap} {n : Nat}

lemma get_follow {a : Anchor} (hget : table.get id = .ok a) (hlive : a.isDeleted = false)
    (hkept : ¬ LostAlong a.movement a.survivesDeletion a.offset map) (hmove : map.move a.movement a.offset ≤ n) :
    (table.follow map n).2.get id = .ok { a with offset := map.move a.movement a.offset } := by
  cases hmap : map.isEmpty with
  | true =>
    obtain rfl := List.isEmpty_iff.mp hmap
    exact hget
  | false =>
    obtain ⟨slot, hslot, rfl⟩ := get_eq_ok hget
    have hstate := live_of_slot hslot hlive
    rw [get_of_slot (slot_follow hslot hmap), AnchorSlot.follow_of_kept hstate hkept, Nat.min_eq_left hmove]

lemma follow_deletes_none (h : ∀ movement survives offset, ¬ LostAlong movement survives offset map) :
    (table.follow map n).1 = [] ∧ ∀ id, (table.follow map n).2.isDeleted id = table.isDeleted id := by
  have hstate (slot : AnchorSlot) : (slot.follow map n).state = slot.state := by
    by_cases hlive : slot.state = .live
    · rw [AnchorSlot.follow_of_kept hlive (h _ _ _)]
    · rw [AnchorSlot.follow_of_not_live hlive]
  refine ⟨?_, fun id => ?_⟩
  · rw [follow_fst]
    refine List.filterMap_eq_nil_iff.mpr ?_
    rintro ⟨slot, index⟩ -
    exact if_neg fun ⟨hlive, hdeleted⟩ => by simp [hstate, hlive] at hdeleted
  · cases hmap : map.isEmpty with
    | true => rw [follow, if_pos hmap]
    | false =>
      rw [isDeleted, isDeleted, slot_follow_eq_map hmap]
      cases table.slot id with
      | error e => rfl
      | ok slot => exact congrArg (fun state => Except.ok (decide (state = .deleted))) (hstate slot)

variable {offset removal insertion : Nat}

open ChangeMapping (characterReplace characterReplace_of_both not_lostAlong_replaceCharacters
  move_replaceCharacters move_removeAndInsert)

lemma follow_characterReplace_deletes_none (table : AnchorTable)
    (hboth : ¬ (removal = 0 ∨ insertion = 0)) (n : Nat) :
    (table.follow (characterReplace.offsetMap offset removal insertion) n).1 = [] ∧
      ∀ id, (table.follow (characterReplace.offsetMap offset removal insertion) n).2.isDeleted id =
        table.isDeleted id := by
  rw [characterReplace_of_both hboth]
  exact follow_deletes_none fun _ _ _ => not_lostAlong_replaceCharacters

lemma get_follow_characterReplace (hboth : ¬ (removal = 0 ∨ insertion = 0)) (hrange : offset + removal ≤ n)
    (hword : n < UInt64.size) (hword' : n - removal + insertion < UInt64.size) {a : Anchor}
    (hget : table.get id = .ok a) (hlive : a.isDeleted = false) (hn : a.offset ≤ n) :
    (table.follow (characterReplace.offsetMap offset removal insertion) (n - removal + insertion)).2.get id =
      .ok { a with
        offset :=
          if a.offset < offset + min removal insertion then a.offset
          else if offset + removal < a.offset then a.offset - removal + insertion
          else if removal < insertion ∧ a.movement = .beforeInsertion then offset + removal
          else offset + insertion } := by
  have hmove := move_replaceCharacters a.movement hrange hword hword' hn
  have hinside : (ChangeMapping.replaceCharacters offset removal insertion).move a.movement a.offset ≤
      n - removal + insertion := by
    rw [hmove]
    split_ifs <;> omega
  rw [characterReplace_of_both hboth, get_follow hget hlive not_lostAlong_replaceCharacters hinside, hmove]

lemma get_follow_removeAndInsert (hrange : offset + removal ≤ n) (hword : offset + removal < UInt64.size)
    (hword' : offset + insertion < UInt64.size) {a : Anchor} (hget : table.get id = .ok a)
    (hlive : a.isDeleted = false) (hsurvives : a.survivesDeletion = true) (hlow : offset < a.offset)
    (hhigh : a.offset < offset + removal) :
    (table.follow [.plain offset removal 0, .plain offset 0 insertion] (n - removal + insertion)).2.get id =
      .ok { a with offset := if a.movement = .beforeInsertion then offset else offset + insertion } := by
  have hmove : OffsetMap.move [.plain offset removal 0, .plain offset 0 insertion] a.movement a.offset =
      if a.movement = .beforeInsertion then offset else offset + insertion :=
    move_removeAndInsert hword hword' hlow hhigh
  have hinside : OffsetMap.move [.plain offset removal 0, .plain offset 0 insertion] a.movement a.offset ≤
      n - removal + insertion := by
    rw [hmove]
    split_ifs <;> omega
  rw [get_follow hget hlive (AnchorSlot.not_lostAlong_of_survives hsurvives) hinside, hmove]

end AnchorTable

end EditableText
