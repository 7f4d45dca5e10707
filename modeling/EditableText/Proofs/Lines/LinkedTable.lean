import EditableText.Proofs.Except
import EditableText.Proofs.Lines.Linked

namespace EditableText

lemma LineTable.mem_of_place? {table : LineTable} {offset : Nat} {place : LineTree.Place}
    (h : table.place? offset = some place) : place.entry ∈ table.tree.entries := by
  rw [place?] at h
  split at h
  · obtain ⟨found, hfound, hplace⟩ := Option.bind_eq_some_iff.mp h
    obtain rfl := Option.some.inj hplace
    exact LineTree.mem_of_atIndex? hfound
  · exact LineTree.mem_of_holding? h

structure LinkedTable where
  nodes : Array LineNode
  released : List Nat
  root : Option Nat
  seed : UInt64
  breaks : LineBreaks

namespace LinkedTable

def take? (table : LinkedTable) (extent : LineExtent) : Option (LinkedTable × Nat) :=
  let seed := NodeSupply.nextSeed table.seed
  let node : LineNode := ⟨none, none, NodeSupply.priorityOf seed, extent, extent.total, 1⟩
  match table.released with
  | slot :: released => do return ({ table with nodes := ← put? table.nodes slot node, released, seed }, slot)
  | [] => some ({ table with nodes := table.nodes.push node, seed }, table.nodes.size)

def grow? (table : LinkedTable) (root : Option Nat) : List LineExtent → Option (LinkedTable × Option Nat)
  | [] => some (table, root)
  | extent :: rest => do
    let (table, slot) ← table.take? extent
    let (nodes, root) ← merge? table.nodes table.nodes.size root (some slot)
    grow? { table with nodes } root rest

def empty? (breaks : LineBreaks) : Option LinkedTable := do
  let (table, slot) ← take? ⟨#[], [], none, NodeSupply.initialSeed, breaks⟩ ⟨0, 0⟩
  return { table with root := some slot }

variable (table : LinkedTable)

def rebuild? (t : Text) : Option LinkedTable := do
  let (table, root) ←
    grow? { table with nodes := #[], released := [], root := none } none (LineExtent.scan table.breaks t)
  return { table with root }

def place? (offset : Nat) : Option (Nat × Nat × Nat) := do
  if (← totalAt? table.nodes table.root) ≤ offset then
    let index := (← countAt? table.nodes table.root) - 1
    let (slot, start) ← seekIndex? table.nodes table.nodes.size table.root index 0
    return (slot, index, start)
  else seekOffset? table.nodes table.nodes.size table.root offset 0 0

def regionOf? (offset removed : Nat) : Option LineTable.Region := do
  let (_, first, start) ← table.place? offset
  let (slot, last, lastStart) ← table.place? (offset + removed)
  let stop := lastStart + (← table.nodes[slot]?).extent.total
  if offset = start ∧ 0 < first then
    let (_, start) ← seekIndex? table.nodes table.nodes.size table.root (first - 1) 0
    return ⟨first - 1, last, start, stop⟩
  return ⟨first, last, start, stop⟩

def replaceRegion? (region : LineTable.Region) (extents : List LineExtent) : Option LinkedTable := do
  let (nodes, front, rest) ← splitAt? table.nodes table.nodes.size table.root region.first
  let (nodes, old, back) ← splitAt? nodes nodes.size rest (region.last - region.first + 1)
  let released ← free? nodes (2 * nodes.size + 1) table.released [old]
  let (table, fresh) ← grow? { table with nodes, released } none extents
  let (nodes, joined) ← merge? table.nodes table.nodes.size front fresh
  let (nodes, root) ← merge? nodes nodes.size joined back
  return { table with nodes, root }

def applyEdit? {σ : Type} [TextSource σ] (source : σ) (offset removed inserted : Nat) :
    Option (Except TextError LinkedTable) := do
  match checkRange offset removed (← totalAt? table.nodes table.root) with
  | .error e => return .error e
  | .ok () =>
    let region ← table.regionOf? offset removed
    let length := region.stop + inserted - removed - region.start
    let extents := LineExtent.scan table.breaks ((TextSource.charsFrom source region.start).take length)
    let count ← countAt? table.nodes table.root
    return .ok (← table.replaceRegion? region (if region.last + 1 = count then extents else extents.dropLast))

structure Stands (table : LinkedTable) (supply : NodeSupply) (breaks : LineBreaks) : Prop where
  size : table.nodes.size = supply.slotCount
  released : table.released = supply.released
  seed : table.seed = supply.seed
  breaks : table.breaks = breaks

structure Holds (linked : LinkedTable) (table : LineTable) : Prop where
  stands : linked.Stands table.supply table.breaks
  links : Links linked.nodes linked.root table.tree

namespace Stands

variable {table : LinkedTable} {supply : NodeSupply} {breaks : LineBreaks} {used : List Nat}

lemma of_size (h : table.Stands supply breaks) {nodes : Array LineNode} (hsize : nodes.size = supply.slotCount) :
    Stands { table with nodes } supply breaks :=
  ⟨hsize, h.released, h.seed, h.breaks⟩

lemma release (h : table.Stands supply breaks) (old : LineTree) :
    Stands { table with released := (old.slotsBefore []).reverse ++ table.released } (supply.release old) breaks :=
  ⟨h.size, congrArg _ h.released, h.seed, h.breaks⟩

lemma take? (h : table.Stands supply breaks) (hparts : supply.Parts used) (extent : LineExtent) :
    ∃ after, table.take? extent = some (after, (supply.take extent).1.slot) ∧
      after.Stands (supply.take extent).2 breaks ∧
      Links after.nodes (some (supply.take extent).1.slot) (.single (supply.take extent).1) ∧
      ∀ slot ∈ used, after.nodes[slot]? = table.nodes[slot]? := by
  have hnodup := hparts.nodup
  have hlt : ∀ slot, slot ∈ used ∨ slot ∈ supply.released → slot < supply.slotCount :=
    fun _ => hparts.mem_iff.mp
  obtain ⟨nodes, free, root, seed, breaks⟩ := table
  obtain ⟨released, slotCount, seed⟩ := supply
  obtain ⟨hsize, hreleased, hseed, hbreaks⟩ := h
  dsimp only at hsize hreleased hseed hbreaks
  subst hsize hreleased hseed hbreaks
  cases free with
  | nil =>
    refine ⟨_, rfl, ⟨Array.size_push _, rfl, rfl, rfl⟩, .single Array.getElem?_push_size, fun slot hs => ?_⟩
    exact Array.getElem?_push_lt (hlt slot (.inl hs)) |>.trans (Array.getElem?_eq_getElem _).symm
  | cons free released =>
    obtain ⟨after, hafter, hstands, hwrote⟩ := put?_eq (hlt free (.inr List.mem_cons_self))
      ⟨none, none, NodeSupply.priorityOf (NodeSupply.nextSeed seed), extent, extent.total, 1⟩
    refine ⟨⟨after, released, root, NodeSupply.nextSeed seed, breaks⟩, ?_, ⟨hwrote.size, rfl, rfl, rfl⟩,
      .single hstands, fun slot hs => hwrote.same slot ?_⟩
    · rw [LinkedTable.take?]
      simp only [hafter]
      rfl
    · rw [List.mem_singleton]
      rintro rfl
      exact List.disjoint_of_nodup_append hnodup hs List.mem_cons_self

lemma grow? {link : Option Nat} {tree : LineTree} {others : List Nat} (h : table.Stands supply breaks)
    (hlinks : Links table.nodes link tree) (hparts : supply.Parts (tree.slots ++ others))
    (extents : List LineExtent) :
    ∃ after grown, table.grow? link extents = some (after, grown) ∧
      after.Stands (NodeSupply.grow tree supply extents).2 breaks ∧
      Links after.nodes grown (NodeSupply.grow tree supply extents).1 ∧
      ∀ slot ∈ others, after.nodes[slot]? = table.nodes[slot]? := by
  induction extents generalizing table supply link tree with
  | nil => exact ⟨table, link, rfl, h, hlinks, fun _ _ => rfl⟩
  | cons extent rest ih =>
    obtain ⟨taken, htaken, hstands, hsingle, hsame⟩ := h.take? hparts extent
    have hgrown := hparts.append_take extent
    have hgrownNodup := (List.nodup_append.mp hgrown.nodup).1
    have hnodup := (List.nodup_append.mp hgrownNodup).1
    rw [LineTree.slots_append] at hgrownNodup hnodup
    have hkept := hlinks.congr fun slot hs => hsame slot (List.mem_append_left _ hs)
    obtain ⟨nodes, merged, hmerged, hroot, hwrote⟩ := hkept.merge? hsingle hnodup (hkept.length_le hsingle hnodup)
    have hrelinked := hstands.of_size (hwrote.size.trans hstands.size)
    obtain ⟨after, grown, hafter, hstood, hlinked, hsame'⟩ := ih hrelinked hroot hgrown
    refine ⟨after, grown, ?_, hstood, hlinked, fun slot hs => ?_⟩
    · rw [LinkedTable.grow?]
      simp only [htaken, hmerged, Option.bind_eq_bind, Option.bind_some]
      exact hafter
    · rw [hsame' slot hs, ← hsame slot (List.mem_append_right _ hs)]
      exact hwrote.same slot fun hin => List.disjoint_of_nodup_append hgrownNodup hin hs

lemma holds (h : table.Stands supply breaks) {root : Option Nat} {tree : LineTree}
    (hlinks : Links table.nodes root tree) : Holds { table with root } ⟨tree, supply, breaks⟩ :=
  ⟨⟨h.size, h.released, h.seed, h.breaks⟩, hlinks⟩

end Stands

lemma holds_empty? (breaks : LineBreaks) :
    ∃ linked, empty? breaks = some linked ∧ linked.Holds (.empty breaks) := by
  have hstands : Stands ⟨#[], [], none, NodeSupply.initialSeed, breaks⟩ .initial breaks :=
    ⟨rfl, rfl, rfl, rfl⟩
  have hparts : NodeSupply.initial.Parts [] := .refl _
  obtain ⟨after, hafter, hstood, hlinks, -⟩ := hstands.take? hparts ⟨0, 0⟩
  rw [← LineTree.leaf_append (LineTree.single _)] at hlinks
  refine ⟨_, ?_, hstood.holds hlinks⟩
  rw [empty?]
  simp only [hafter, Option.bind_eq_bind, Option.bind_some]
  rfl

namespace Holds

variable {linked : LinkedTable} {table after : LineTable}

lemma rebuild? (h : linked.Holds table) (t : Text) :
    ∃ after, linked.rebuild? t = some after ∧ after.Holds (table.rebuild t) := by
  have hstands : Stands { linked with nodes := #[], released := [], root := none } table.supply.restart
      table.breaks :=
    ⟨rfl, rfl, h.stands.seed, h.stands.breaks⟩
  have hparts : table.supply.restart.Parts (LineTree.leaf.slots ++ []) := .refl _
  obtain ⟨after, root, hafter, hstood, hlinks, -⟩ := hstands.grow? .leaf hparts (LineExtent.scan linked.breaks t)
  rw [h.stands.breaks] at hstood hlinks
  refine ⟨_, ?_, hstood.holds hlinks⟩
  rw [LinkedTable.rebuild?]
  simp only [hafter, Option.bind_eq_bind, Option.bind_some]
  rfl

lemma seekIndex?_eq (h : linked.Holds table) (hkept : table.Kept) (index : Nat) :
    seekIndex? linked.nodes linked.nodes.size linked.root index 0 =
      (table.tree.atIndex? index 0).map fun found => (found.1.slot, found.2) :=
  h.links.seekIndex?_eq (h.links.length_slots_le hkept.nodup_slots) index 0

lemma place?_eq (h : linked.Holds table) (hkept : table.Kept) (offset : Nat) :
    linked.place? offset =
      (table.place? offset).map fun place => (place.entry.slot, place.index, place.start) := by
  rw [LinkedTable.place?, LineTable.place?, LineTable.textLength, LineTable.lineCount]
  simp only [h.links.totalAt?_eq, h.links.countAt?_eq, Option.bind_eq_bind, Option.bind_some]
  split
  · rw [h.seekIndex?_eq hkept]
    cases table.tree.atIndex? (table.tree.count - 1) 0 <;> rfl
  · exact h.links.seekOffset?_eq (h.links.length_slots_le hkept.nodup_slots) offset 0 0

lemma regionOf?_eq (h : linked.Holds table) (hkept : table.Kept) (offset removed : Nat) :
    linked.regionOf? offset removed = table.regionOf? offset removed := by
  rw [LinkedTable.regionOf?, LineTable.regionOf?, h.place?_eq hkept, h.place?_eq hkept]
  cases table.place? offset with
  | none => rfl
  | some here =>
    cases hlast : table.place? (offset + removed) with
    | none => rfl
    | some last =>
      obtain ⟨node, hnode, hextent⟩ := h.links.extent_of_mem (LineTable.mem_of_place? hlast)
      simp only [Option.map_some, Option.bind_eq_bind, Option.bind_some, hnode, hextent, h.seekIndex?_eq hkept]
      split
      · cases table.tree.atIndex? (here.index - 1) 0 <;> rfl
      · rfl

lemma replaceRegion? (h : linked.Holds table) (hkept : table.Kept) (region : LineTable.Region)
    (extents : List LineExtent) :
    ∃ after, linked.replaceRegion? region extents = some after ∧
      after.Holds (table.replaceRegion region extents) := by
  have hparts := hkept.parts_release region.first (region.last - region.first + 1)
  have hslots := hkept.nodup_slots
  obtain ⟨cut, front, rest, hcut, hfront, hrest, hwrote⟩ :=
    h.links.splitAt? hslots (h.links.length_slots_le hslots) region.first
  rw [← LineTree.slots_split region.first] at hslots
  obtain ⟨-, hrestSlots, hapart⟩ := List.nodup_append.mp hslots
  obtain ⟨nodes, old, back, hcut', hold, hback, hwrote'⟩ :=
    hrest.splitAt? hrestSlots (hrest.length_slots_le hrestSlots) (region.last - region.first + 1)
  replace hfront := hwrote'.links hfront fun slot hs hin => hapart slot hs slot hin rfl
  rw [← LineTree.slots_split (region.last - region.first + 1)] at hrestSlots
  have hfreed := hold.free?_all (List.nodup_append.mp hrestSlots).1 linked.released
  have hstands := (h.stands.of_size (hwrote'.size.trans (hwrote.size.trans h.stands.size))).release
    ((table.tree.split region.first).2.split (region.last - region.first + 1)).1
  -- the nodes in front and behind are in use while the new ones are made
  obtain ⟨grown, fresh, hgrown, hstood, hfresh, hsame⟩ := hstands.grow? .leaf hparts extents
  replace hfront := hfront.congr fun slot hs => hsame slot (List.mem_append_left _ hs)
  replace hback := hback.congr fun slot hs => hsame slot (List.mem_append_right _ hs)
  have hnodup := (List.nodup_append.mp (hparts.build extents).nodup).1
  rw [LineTree.slots_append] at hnodup
  obtain ⟨hjoinedSlots, -, hbackApart⟩ := List.nodup_append.mp hnodup
  rw [LineTree.slots_append] at hjoinedSlots hbackApart
  obtain ⟨mid, joined, hmid, hjoined, hwroteMid⟩ :=
    hfront.merge? hfresh hjoinedSlots (hfront.length_le hfresh hjoinedSlots)
  replace hback := hwroteMid.links hback fun slot hs hin => hbackApart slot hin slot hs rfl
  obtain ⟨last, root, hlast, hroot, hwroteLast⟩ :=
    hjoined.merge? hback hnodup (hjoined.length_le hback hnodup)
  refine ⟨_, ?_, (hstood.of_size (hwroteLast.size.trans (hwroteMid.size.trans hstood.size))).holds hroot⟩
  rw [LinkedTable.replaceRegion?]
  simp only [hcut, hcut', hfreed, hgrown, hmid, hlast, Option.bind_eq_bind, Option.bind_some]
  rfl

lemma applyEdit? (h : linked.Holds table) (hkept : table.Kept) {σ : Type} [TextSource σ] {source : σ}
    {offset removed inserted : Nat} (hafter : table.applyEdit source offset removed inserted = .ok after) :
    ∃ edited, linked.applyEdit? source offset removed inserted = some (.ok edited) ∧ edited.Holds after := by
  obtain ⟨_, hrange, hafter⟩ := exists_of_bind_eq_ok hafter
  cases hregion : table.regionOf? offset removed with
  | none => simp [hregion] at hafter
  | some region =>
    rw [hregion] at hafter
    obtain rfl := Except.ok.inj hafter
    obtain ⟨edited, hedited, hholds⟩ :=
      h.replaceRegion? hkept region (table.rescan source region removed inserted)
    refine ⟨edited, ?_, hholds⟩
    change checkRange offset removed table.tree.total = .ok _ at hrange
    rw [LinkedTable.applyEdit?]
    simp only [h.links.totalAt?_eq, h.links.countAt?_eq, h.regionOf?_eq hkept, h.stands.breaks, hrange, hregion,
      Option.bind_eq_bind, Option.bind_some]
    rw [LineTable.rescan, LineTable.lineCount] at hedited
    simp only [hedited]
    rfl

end Holds

end LinkedTable

namespace LineTable

/-- The tables there can be and how they stand in their slots, with the line counts that they have had since they
were last built, the latest first. The table of a text is an empty one that is built again. -/
inductive Reached : LineTable → LinkedTable → List Nat → Prop
  | empty {breaks : LineBreaks} {linked : LinkedTable} (hlinked : LinkedTable.empty? breaks = some linked) :
    Reached (empty breaks) linked [(empty breaks).lineCount]
  | rebuild {table : LineTable} {linked rebuilt : LinkedTable} {counts : List Nat}
    (h : Reached table linked counts) {t : Text} (hrebuilt : linked.rebuild? t = some rebuilt) :
    Reached (table.rebuild t) rebuilt [(table.rebuild t).lineCount]
  | edit {table after : LineTable} {linked edited : LinkedTable} {counts : List Nat}
    (h : Reached table linked counts) {σ : Type} [TextSource σ] {source : σ} {offset removed inserted : Nat}
    (hafter : table.applyEdit source offset removed inserted = .ok after)
    (hedited : linked.applyEdit? source offset removed inserted = some (.ok edited)) :
    Reached after edited (after.lineCount :: counts)

namespace Reached

variable {table after : LineTable} {linked : LinkedTable} {counts : List Nat}

lemma kept (h : Reached table linked counts) :
    table.Kept ∧ table.supply.slotCount ∈ counts ∧ ∀ count ∈ counts, count ≤ table.supply.slotCount := by
  have built {table : LineTable} (h : table.Kept ∧ table.supply.slotCount = table.lineCount) :
      table.Kept ∧ table.supply.slotCount ∈ [table.lineCount] ∧
        ∀ count ∈ [table.lineCount], count ≤ table.supply.slotCount :=
    ⟨h.1, by simp [h.2], by simp [h.2]⟩
  induction h with
  | @empty breaks => exact built (kept_empty breaks)
  | @rebuild table linked rebuilt counts h t hrebuilt ih => exact built (table.kept_rebuild t)
  | edit h hafter hedited ih =>
    obtain ⟨hkept, hmem, hle⟩ := ih
    obtain ⟨hafterKept, hcount⟩ := hkept.applyEdit hafter
    rw [hcount]
    refine ⟨hafterKept, ?_, ?_⟩
    · rcases Nat.le_total _ _ with hmax | hmax
      · rw [Nat.max_eq_right hmax]
        exact List.mem_cons_self
      · rw [Nat.max_eq_left hmax]
        exact List.mem_cons_of_mem _ hmem
    · intro count hcountMem
      rcases List.mem_cons.mp hcountMem with rfl | hold
      · exact Nat.le_max_right _ _
      · exact Nat.le_trans (hle count hold) (Nat.le_max_left _ _)

lemma holds (h : Reached table linked counts) : linked.Holds table := by
  induction h with
  | @empty breaks linked hlinked =>
    obtain ⟨started, hstarted, hholds⟩ := LinkedTable.holds_empty? breaks
    obtain rfl := Option.some.inj (hlinked.symm.trans hstarted)
    exact hholds
  | @rebuild table linked rebuilt counts h t hrebuilt ih =>
    obtain ⟨again, hagain, hholds⟩ := ih.rebuild? t
    obtain rfl := Option.some.inj (hrebuilt.symm.trans hagain)
    exact hholds
  | edit h hafter hedited ih =>
    obtain ⟨again, hagain, hholds⟩ := ih.applyEdit? h.kept.1 hafter
    obtain rfl := Except.ok.inj (Option.some.inj (hedited.symm.trans hagain))
    exact hholds

theorem exists_empty (breaks : LineBreaks) :
    ∃ linked, LinkedTable.empty? breaks = some linked ∧
      Reached (LineTable.empty breaks) linked [(LineTable.empty breaks).lineCount] :=
  let ⟨linked, hlinked, _⟩ := LinkedTable.holds_empty? breaks
  ⟨linked, hlinked, .empty hlinked⟩

theorem exists_rebuild (h : Reached table linked counts) (t : Text) :
    ∃ rebuilt, linked.rebuild? t = some rebuilt ∧
      Reached (table.rebuild t) rebuilt [(table.rebuild t).lineCount] :=
  let ⟨rebuilt, hrebuilt, _⟩ := h.holds.rebuild? t
  ⟨rebuilt, hrebuilt, h.rebuild hrebuilt⟩

theorem exists_edit (h : Reached table linked counts) {σ : Type} [TextSource σ] {source : σ}
    {offset removed inserted : Nat} (hafter : table.applyEdit source offset removed inserted = .ok after) :
    ∃ edited, linked.applyEdit? source offset removed inserted = some (.ok edited) ∧
      Reached after edited (after.lineCount :: counts) :=
  let ⟨edited, hedited, _⟩ := h.holds.applyEdit? h.kept.1 hafter
  ⟨edited, hedited, h.edit hafter hedited⟩

end Reached

variable {table : LineTable} {linked : LinkedTable} {counts : List Nat}

/-- The links from the root lead through every node once, each node knows its subtree and stands above it in
priority, and each slot holds one node or is free once. There are no more slots than there were lines at one
time since the table was last built. -/
theorem nodes_share_slots (h : Reached table linked counts) :
    Links linked.nodes linked.root table.tree ∧ table.tree.slots.Nodup ∧
      table.tree.Summed ∧ table.tree.Heaped ∧
      (∀ entry ∈ table.tree.entries, entry.extent.delimiter ≤ entry.extent.total) ∧
      (linked.released.Nodup ∧
        ∀ slot, (slot ∈ table.tree.slots ∨ slot ∈ linked.released ↔ slot < linked.nodes.size) ∧
          ¬ (slot ∈ table.tree.slots ∧ slot ∈ linked.released)) ∧
      linked.nodes.size ∈ counts ∧ ∀ count ∈ counts, count ≤ linked.nodes.size := by
  obtain ⟨hkept, hmem, hle⟩ := h.kept
  obtain ⟨⟨hsize, hfree, -, -⟩, hlinks⟩ := h.holds
  obtain ⟨hslots, hreleased, hdisjoint⟩ := List.nodup_append.mp hkept.parts.nodup
  rw [hsize, hfree]
  refine ⟨hlinks, hslots, hkept.treap.summed, hkept.treap.heaped, ?_, ⟨hreleased, ?_⟩, hmem, hle⟩
  · exact fun entry hentry => hkept.delimiter_le _ (List.mem_map_of_mem hentry)
  · exact fun slot => ⟨hkept.parts.mem_iff, fun hboth => hdisjoint slot hboth.1 slot hboth.2 rfl⟩

theorem nodes_share_slots_after_edits :
    ∃ once twice linked, (ofText ['a', '\n', 'b', '\n', 'c'] .standard).applyEdit ['a', 'c'] 1 3 0 = .ok once ∧
      once.applyEdit ['a', '\n', 'c'] 1 0 1 = .ok twice ∧ Reached twice linked [2, 1, 3] ∧
      Links linked.nodes linked.root twice.tree ∧ twice.tree.slots = [0, 2] ∧ linked.released = [1] ∧
      linked.nodes.size = 3 := by
  let once : LineTable :=
    ⟨.node .leaf ⟨0, 2430129893, ⟨2, 0⟩⟩ .leaf 2 1, ⟨[2, 1], 3, 10058650540103008393⟩, .standard⟩
  let twice : LineTable :=
    ⟨.node (.node .leaf ⟨0, 2649149199, ⟨2, 1⟩⟩ .leaf 2 1) ⟨2, 3580248136, ⟨1, 0⟩⟩ .leaf 3 2,
      ⟨[1], 3, 2428097235624411265⟩, .standard⟩
  have honce : (ofText ['a', '\n', 'b', '\n', 'c'] .standard).applyEdit ['a', 'c'] 1 3 0 = .ok once := by
    decide +kernel
  have htwice : once.applyEdit ['a', '\n', 'c'] 1 0 1 = .ok twice := by decide +kernel
  have hcount : ((empty .standard).rebuild ['a', '\n', 'b', '\n', 'c']).lineCount = 3 := by decide +kernel
  obtain ⟨started, -, hstarted⟩ := Reached.exists_empty .standard
  obtain ⟨built, -, hbuilt⟩ := hstarted.exists_rebuild ['a', '\n', 'b', '\n', 'c']
  obtain ⟨edited, -, hedited⟩ := hbuilt.exists_edit honce
  obtain ⟨linked, -, hreached⟩ := hedited.exists_edit htwice
  rw [hcount] at hreached
  exact ⟨once, twice, linked, honce, htwice, hreached, (nodes_share_slots hreached).1, rfl,
    hreached.holds.stands.released, hreached.holds.stands.size⟩

end LineTable

end EditableText
