import EditableText.Proofs.Lines.Arena
import Mathlib.Logic.Function.Iterate

namespace EditableText

namespace NodeSupply

def xorRight (shift seed : UInt64) : UInt64 := seed ^^^ (seed >>> shift)

def xorLeft (shift seed : UInt64) : UInt64 := seed ^^^ (seed <<< shift)

variable {shift seed : UInt64}

lemma toNat_pos (h : seed ≠ 0) : 0 < seed.toNat := Nat.pos_of_ne_zero fun hzero => h (UInt64.toNat_inj.mp hzero)

lemma nextSeed_eq (seed : UInt64) : nextSeed seed = xorRight 27 (xorLeft 25 (xorRight 12 seed)) := rfl

lemma xorRight_xor (shift a b : UInt64) : xorRight shift (a ^^^ b) = xorRight shift a ^^^ xorRight shift b := by
  simp only [xorRight, UInt64.shiftRight_xor]
  ac_rfl

lemma xorLeft_xor (shift a b : UInt64) : xorLeft shift (a ^^^ b) = xorLeft shift a ^^^ xorLeft shift b := by
  simp only [xorLeft, UInt64.shiftLeft_xor]
  ac_rfl

lemma eq_zero_of_xorRight (hshift : shift.toNat % 64 ≠ 0) (h : xorRight shift seed = 0) : seed = 0 := by
  have hsame := congrArg UInt64.toNat (UInt64.xor_eq_zero_iff.mp h)
  rw [UInt64.toNat_shiftRight, Nat.shiftRight_eq_div_pow] at hsame
  by_contra hne
  exact absurd hsame (Nat.ne_of_gt (Nat.div_lt_self (toNat_pos hne) (Nat.one_lt_two_pow hshift)))

lemma eq_zero_of_xorLeft (hshift : shift.toNat % 64 ≠ 0) (h : xorLeft shift seed = 0) : seed = 0 := by
  have hsame := congrArg UInt64.toNat (UInt64.xor_eq_zero_iff.mp h)
  rw [UInt64.toNat_shiftLeft, Nat.shiftLeft_eq] at hsame
  -- the shift has zeros in its lowest places, so the seed has them there, and then the shift in more places
  have hdvd : ∀ n ≤ 64, 2 ^ n ∣ seed.toNat := by
    intro n
    induction n with
    | zero => exact fun _ => Nat.one_dvd _
    | succ n ih =>
      intro hn
      rw [hsame, Nat.dvd_mod_iff (Nat.pow_dvd_pow 2 hn), Nat.pow_add]
      exact Nat.mul_dvd_mul (ih (Nat.le_of_succ_le hn)) (Nat.pow_dvd_pow 2 (Nat.pos_of_ne_zero hshift))
  exact UInt64.toNat_inj.mp (Nat.eq_zero_of_dvd_of_lt (hdvd 64 (Nat.le_refl 64)) seed.toNat_lt)

lemma nextSeed_xor (a b : UInt64) : nextSeed (a ^^^ b) = nextSeed a ^^^ nextSeed b := by
  simp only [nextSeed_eq, xorRight_xor, xorLeft_xor]

@[simp] lemma nextSeed_zero : nextSeed 0 = 0 := rfl

lemma nextSeed_eq_zero_iff : nextSeed seed = 0 ↔ seed = 0 := by
  constructor
  · intro h
    rw [nextSeed_eq] at h
    have hleft := eq_zero_of_xorRight (by decide) h
    have hright := eq_zero_of_xorLeft (by decide) hleft
    exact eq_zero_of_xorRight (by decide) hright
  · rintro rfl
    exact nextSeed_zero

lemma nextSeed_injective : Function.Injective nextSeed := by
  intro a b h
  rw [← UInt64.xor_eq_zero_iff, ← nextSeed_xor, nextSeed_eq_zero_iff] at h
  exact UInt64.xor_eq_zero_iff.mp h

@[simp] lemma iterate_nextSeed_zero (n : Nat) : nextSeed^[n] 0 = 0 := Function.iterate_fixed nextSeed_zero n

lemma iterate_nextSeed_ne_zero (h : seed ≠ 0) (n : Nat) : nextSeed^[n] seed ≠ 0 := by
  rw [← iterate_nextSeed_zero n]
  exact (nextSeed_injective.iterate n).ne h

variable (supply : NodeSupply) (extent : LineExtent) (extents : List LineExtent) (tree : LineTree)

def taken (supply : NodeSupply) : List LineExtent → List LineEntry
  | [] => []
  | extent :: rest => (supply.take extent).1 :: (supply.take extent).2.taken rest

lemma seed_take : (supply.take extent).2.seed = nextSeed supply.seed := by
  rw [take]
  split <;> rfl

lemma priority_take : (supply.take extent).1.priority = priorityOf (nextSeed supply.seed) := by
  rw [take]
  split <;> rfl

lemma length_taken : (supply.taken extents).length = extents.length := by
  induction extents generalizing supply with
  | nil => rfl
  | cons extent rest ih => rw [taken, List.length_cons, List.length_cons, ih]

lemma seed_grow : (grow tree supply extents).2.seed = nextSeed^[extents.length] supply.seed := by
  induction extents generalizing tree supply with
  | nil => rfl
  | cons extent rest ih =>
    rw [grow, ih, seed_take, ← Function.iterate_succ_apply]
    rfl

lemma entries_grow : (grow tree supply extents).1.entries = tree.entries ++ supply.taken extents := by
  induction extents generalizing tree supply with
  | nil => simp [grow, taken]
  | cons extent rest ih =>
    rw [grow, ih, LineTree.entries_append, taken]
    simp [LineTree.single]

lemma entries_build : (supply.build extents).1.entries = supply.taken extents := supply.entries_grow extents .leaf

lemma priorities_taken :
    (supply.taken extents).map (·.priority) =
      (List.range extents.length).map fun i => priorityOf (nextSeed^[i + 1] supply.seed) := by
  induction extents generalizing supply with
  | nil => rfl
  | cons extent rest ih =>
    rw [taken, List.map_cons, ih, priority_take, seed_take, List.length_cons, List.range_succ_eq_map,
      List.map_cons, List.map_map]
    rfl

end NodeSupply

namespace LineTree

def Degenerate : LineTree → Prop
  | leaf => True
  | node left _ right _ _ => left.Degenerate ∧ right = leaf

lemma Degenerate.append_single {tree : LineTree} {entry : LineEntry} (h : tree.Degenerate)
    (hunder : tree.Under entry.priority) : (tree.append (.single entry)).Degenerate := by
  cases tree with
  | leaf => simp [single, join, Degenerate]
  | node left top right total count =>
    have htop : ¬ entry.priority < top.priority := UInt32.not_lt.mpr hunder
    rw [single, join, append, if_neg htop, append_leaf]
    exact ⟨h, rfl⟩

lemma under_of_priority_eq {tree : LineTree} {bound : UInt32}
    (h : ∀ entry ∈ tree.entries, entry.priority = bound) : tree.Under bound := by
  cases tree with
  | leaf => trivial
  | node left entry right total count => exact UInt32.le_of_eq (h entry (by simp))

end LineTree

namespace NodeSupply

variable {supply : NodeSupply}

lemma priority_of_mem_taken (hseed : supply.seed = 0) {extents : List LineExtent} {entry : LineEntry}
    (h : entry ∈ supply.taken extents) : entry.priority = 0 := by
  have hmem := List.mem_map_of_mem (f := (·.priority)) h
  rw [priorities_taken, hseed] at hmem
  obtain ⟨i, -, hi⟩ := List.mem_map.mp hmem
  rw [← hi, iterate_nextSeed_zero]
  rfl

lemma degenerate_grow (hseed : supply.seed = 0) {tree : LineTree} (h : tree.Degenerate)
    (hall : ∀ entry ∈ tree.entries, entry.priority = 0) (extents : List LineExtent) :
    (grow tree supply extents).1.Degenerate := by
  induction extents generalizing tree supply with
  | nil => exact h
  | cons extent rest ih =>
    have hpriority : (supply.take extent).1.priority = 0 := by
      rw [priority_take, hseed]
      rfl
    have hafter : (supply.take extent).2.seed = 0 := by rw [seed_take, hseed, nextSeed_zero]
    have hunder : tree.Under (supply.take extent).1.priority := hpriority ▸ LineTree.under_of_priority_eq hall
    refine ih hafter (h.append_single hunder) ?_
    intro entry hentry
    rw [LineTree.entries_append] at hentry
    rcases List.mem_append.mp hentry with hold | hnew
    · exact hall entry hold
    · rwa [List.mem_singleton.mp hnew]

end NodeSupply

end EditableText
