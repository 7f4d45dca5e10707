import EditableText.Proofs.Lines.LinkedTable
import EditableText.Proofs.Lines.Period

namespace EditableText

namespace NodeSupply

open Function

def scramble (seed : UInt64) : UInt64 := seed * 0x2545F4914F6CDD1D

lemma scramble_injective : Injective scramble := by
  have hinverse : LeftInverse (· * 0x59071D96D81ECD35) scramble := by
    intro seed
    dsimp only [scramble]
    rw [UInt64.mul_assoc]
    exact UInt64.mul_one seed
  exact hinverse.injective

lemma priorityOf_eq_zero_iff (seed : UInt64) : priorityOf seed = 0 ↔ (scramble seed).toNat < 2 ^ 32 := by
  have hlt := (scramble seed).toNat_lt
  rw [priorityOf, ← UInt32.toNat_inj, UInt64.toNat_toUInt32, UInt64.toNat_shiftRight, Nat.shiftRight_eq_div_pow]
  change (scramble seed).toNat / 2 ^ 32 % 2 ^ 32 = 0 ↔ _
  omega

theorem exists_priority_ne_zero {seed : UInt64} (h : seed ≠ 0) :
    ∃ k < 2 ^ 32, priorityOf (nextSeed^[k] seed) ≠ 0 := by
  by_contra! hall
  have hmaps : Set.MapsTo (fun k => (scramble (nextSeed^[k] seed)).toNat) (Finset.range (2 ^ 32))
      (Finset.Ico 1 (2 ^ 32)) := by
    intro k hk
    have hzero := hall k (Finset.mem_range.mp hk)
    have hne : scramble (nextSeed^[k] seed) ≠ 0 := scramble_injective.ne (iterate_nextSeed_ne_zero h k)
    rw [Finset.mem_coe, Finset.mem_Ico]
    exact ⟨toNat_pos hne, (priorityOf_eq_zero_iff _).mp hzero⟩
  have hperiod : 2 ^ 32 ≤ minimalPeriod nextSeed seed := by
    rw [minimalPeriod_nextSeed h]
    decide
  have hcard := Finset.card_le_card_of_injOn _ hmaps (injOn_iterate scramble_injective hperiod)
  rw [Finset.card_range, Nat.card_Ico] at hcard
  omega

def priorityAt (n : Nat) : UInt32 := priorityOf (nextSeed^[n + 1] initialSeed)

structure Follows (supply : NodeSupply) (made : List LineEntry) : Prop where
  seed_eq : supply.seed = nextSeed^[made.length] initialSeed
  priorities_eq : made.map (·.priority) = (List.range made.length).map priorityAt

variable {supply : NodeSupply} {made : List LineEntry}

lemma Follows.build (h : supply.Follows made) (extents : List LineExtent) :
    (supply.build extents).2.Follows (made ++ supply.taken extents) := by
  have hnext : (fun i => priorityOf (nextSeed^[i + 1] supply.seed)) = priorityAt ∘ (made.length + ·) := by
    funext i
    rw [h.seed_eq, ← iterate_add_apply, Nat.add_comm (i + 1)]
    rfl
  constructor
  · rw [NodeSupply.build, seed_grow, h.seed_eq, ← iterate_add_apply, List.length_append, length_taken,
      Nat.add_comm]
  · rw [List.map_append, h.priorities_eq, priorities_taken, hnext, List.length_append, length_taken,
      List.range_add, List.map_append, List.map_map]

end NodeSupply

namespace LineTable

open NodeSupply

def replaced (table : LineTable) (region : Region) : LineTree :=
  ((table.tree.split region.first).2.split (region.last - region.first + 1)).1

/-- The tables there can be, with the nodes that were made for them and for those before them, the first ones
first. -/
inductive Made : LineTable → List LineEntry → Prop
  | empty (breaks : LineBreaks) : Made (empty breaks) (initial.taken [⟨0, 0⟩])
  | rebuild {table : LineTable} {made : List LineEntry} (h : Made table made) (t : Text) :
    Made (table.rebuild t) (made ++ table.supply.restart.taken (LineExtent.scan table.breaks t))
  | edit {table after : LineTable} {made : List LineEntry} (h : Made table made) {σ : Type} [TextSource σ]
    {source : σ} {offset removed inserted : Nat} {region : Region}
    (hafter : table.applyEdit source offset removed inserted = .ok after)
    (hregion : table.regionOf? offset removed = some region) :
    Made after
      (made ++ (table.supply.release (table.replaced region)).taken (table.rescan source region removed inserted))

variable {table after : LineTable} {made : List LineEntry}

lemma eq_replaceRegion {σ : Type} [TextSource σ] {source : σ} {offset removed inserted : Nat} {region : Region}
    (hafter : table.applyEdit source offset removed inserted = .ok after)
    (hregion : table.regionOf? offset removed = some region) :
    after = table.replaceRegion region (table.rescan source region removed inserted) := by
  obtain ⟨-, -, hafter⟩ := exists_of_bind_eq_ok hafter
  rw [hregion] at hafter
  exact (Except.ok.inj hafter).symm

lemma mem_of_mem_replaceRegion {region : Region} {extents : List LineExtent} {entry : LineEntry}
    (h : entry ∈ (table.replaceRegion region extents).tree.entries) :
    entry ∈ table.tree.entries ∨ entry ∈ (table.supply.release (table.replaced region)).taken extents := by
  have hentries := LineTree.entries_split region.first table.tree
  have hrest := LineTree.entries_split (region.last - region.first + 1) (table.tree.split region.first).2
  have hfresh := (table.supply.release (table.replaced region)).entries_build extents
  change entry ∈ LineTree.entries (LineTree.append (LineTree.append _
    ((table.supply.release (table.replaced region)).build extents).1) _) at h
  rw [LineTree.entries_append, LineTree.entries_append, hfresh] at h
  rw [← hentries, ← hrest]
  simp only [List.mem_append] at h ⊢
  rcases h with (hfront | hnew) | hback
  · exact .inl (.inl hfront)
  · exact .inr hnew
  · exact .inl (.inr (.inr hback))

lemma Made.follows (h : Made table made) : table.supply.Follows made := by
  induction h with
  | empty breaks =>
    have hstart : initial.Follows [] := ⟨rfl, rfl⟩
    exact hstart.build [⟨0, 0⟩]
  | @rebuild table made h t ih =>
    have hrestart : table.supply.restart.Follows made := ⟨ih.seed_eq, ih.priorities_eq⟩
    exact hrestart.build _
  | @edit table after made h σ _ source offset removed inserted region hafter hregion ih =>
    have hrelease : (table.supply.release (table.replaced region)).Follows made := ⟨ih.seed_eq, ih.priorities_eq⟩
    rw [eq_replaceRegion hafter hregion]
    exact hrelease.build _

lemma Made.mem_of_mem_entries (h : Made table made) : ∀ entry ∈ table.tree.entries, entry ∈ made := by
  induction h with
  | empty breaks => exact fun entry hentry => (initial.entries_build [⟨0, 0⟩]) ▸ hentry
  | @rebuild table made h t ih =>
    intro entry hentry
    rw [← NodeSupply.entries_build]
    exact List.mem_append_right made hentry
  | @edit table after made h σ _ source offset removed inserted region hafter hregion ih =>
    intro entry hentry
    rw [eq_replaceRegion hafter hregion] at hentry
    rcases mem_of_mem_replaceRegion hentry with hold | hnew
    · exact List.mem_append_left _ (ih entry hold)
    · exact List.mem_append_right _ hnew

lemma Made.exists_reached (h : Made table made) : ∃ linked counts, Reached table linked counts := by
  induction h with
  | empty breaks =>
    obtain ⟨linked, -, hreached⟩ := Reached.exists_empty breaks
    exact ⟨linked, _, hreached⟩
  | @rebuild table made h t ih =>
    obtain ⟨linked, counts, hreached⟩ := ih
    obtain ⟨rebuilt, -, hrebuilt⟩ := hreached.exists_rebuild t
    exact ⟨rebuilt, _, hrebuilt⟩
  | edit h hafter hregion ih =>
    obtain ⟨linked, counts, hreached⟩ := ih
    obtain ⟨edited, -, hedited⟩ := hreached.exists_edit hafter
    exact ⟨edited, _, hedited⟩

/-- However many nodes are made and by whatever operations, the seed is not zero, from which all nodes would have
the priority zero and their tree would be a list. Of any `2 ^ 32` nodes in a row one has another priority. -/
theorem seed_never_vanishes (h : Made table made) :
    Function.Injective nextSeed ∧ (∀ seed, nextSeed seed = 0 ↔ seed = 0) ∧
      (∀ n, nextSeed^[n] initialSeed ≠ 0) ∧ table.supply.Follows made ∧ table.supply.seed ≠ 0 ∧
      (∃ linked counts, Reached table linked counts ∧ linked.seed = table.supply.seed) ∧
      (∀ entry ∈ table.tree.entries, entry ∈ made) ∧ (∀ n, ∃ k < 2 ^ 32, priorityAt (n + k) ≠ 0) ∧
      ∀ supply : NodeSupply, supply.seed = 0 → ∀ extents,
        (∀ entry ∈ supply.taken extents, entry.priority = 0) ∧ (supply.build extents).1.Degenerate := by
  have hseeds : ∀ n, nextSeed^[n] initialSeed ≠ 0 := iterate_nextSeed_ne_zero (by decide)
  have hnonzero : table.supply.seed ≠ 0 := h.follows.seed_eq ▸ hseeds made.length
  obtain ⟨linked, counts, hreached⟩ := h.exists_reached
  refine ⟨nextSeed_injective, fun _ => nextSeed_eq_zero_iff, hseeds, h.follows, hnonzero,
    ⟨linked, counts, hreached, hreached.holds.stands.seed⟩, h.mem_of_mem_entries, ?_, ?_⟩
  · intro n
    obtain ⟨k, hk, hne⟩ := exists_priority_ne_zero (hseeds (n + 1))
    refine ⟨k, hk, ?_⟩
    rwa [priorityAt, Nat.add_right_comm, Nat.add_comm, Function.iterate_add_apply]
  · intro supply hzero extents
    have hleaf : LineTree.leaf.Degenerate := trivial
    exact ⟨fun _ => priority_of_mem_taken hzero, degenerate_grow hzero hleaf (by simp) extents⟩

theorem seed_never_vanishes_over_edit :
    ∃ after made, (ofText ['a'] .standard).applyEdit ['a', '\n'] 1 0 1 = .ok after ∧ Made after made ∧
      made.map (·.priority) = [226735074, 1422150777, 2823156546, 2104363911] ∧ after.supply.Follows made ∧
      after.supply.seed ≠ 0 ∧ (NodeSupply.build ⟨[], 0, 0⟩ [⟨1, 1⟩, ⟨1, 1⟩, ⟨0, 0⟩]).1.Degenerate := by
  let after : LineTable :=
    ⟨.node .leaf ⟨0, 2823156546, ⟨2, 1⟩⟩ (.node .leaf ⟨1, 2104363911, ⟨0, 0⟩⟩ .leaf 0 1) 2 2,
      ⟨[], 2, 12912965123806966029⟩, .standard⟩
  have hafter : (ofText ['a'] .standard).applyEdit ['a', '\n'] 1 0 1 = .ok after := by decide +kernel
  have hregion : (ofText ['a'] .standard).regionOf? 1 0 = some ⟨0, 0, 0, 1⟩ := by decide +kernel
  have hmade := ((Made.empty .standard).rebuild ['a']).edit hafter hregion
  obtain ⟨-, -, -, hfollows, hnonzero, -, -, -, hlist⟩ := seed_never_vanishes hmade
  exact ⟨after, _, hafter, hmade, by decide +kernel, hfollows, hnonzero, (hlist ⟨[], 0, 0⟩ rfl _).2⟩

end LineTable

end EditableText
