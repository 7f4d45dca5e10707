import EditableText.Proofs.Document.Blocks

namespace EditableText.Document

open Call

variable {t : Text} {options : DocumentOptions} {start doc : Document} {token : Nat}
  {deeds : List (Deed × List Delivery)}

structure Hears (token : Nat) (doc : Document) : Prop where
  between {deeds : List (Deed × List Delivery)} {after : Document} (h : Path doc deeds after)
    (hl : Listening token doc deeds) (hclosed : doc.updateDepth = 0) (hafter : after.updateDepth = 0) :
    ∃ cuts ≤ deeds.countP (·.1.fails), Blocks (deeds.countP (·.1.replaces)) cuts (heardBy token deeds)
  inside {deeds : List (Deed × List Delivery)} {after : Document} (h : Grouped doc deeds after)
    (hl : Listening token doc deeds) (hopen : 0 < after.updateDepth) :
    (∃ start changes, heardBy token deeds = ⟨.updateStarted, start⟩ :: changes ∧ Changes changes) ∧
      ∃ block, Block block ∧ heardBy token deeds <+: block
  replaced {deed : Deed} {deliveries : List Delivery} {after : Document} (h : Step doc deed deliveries after)
    (hl : Listening token doc [(deed, deliveries)]) (hreplaces : deed.replaces = true) :
    ∃ block seen, Block block ∧ heardBy token [(deed, deliveries)] = block ++ [⟨.textReplaced, seen⟩]
  silent {deed : Deed} {deliveries : List Delivery} {after : Document} (h : Step doc deed deliveries after)
    (hsilent : deed.IsSilent) : deliveries = []
  tallied {deeds : List (Deed × List Delivery)} {after : Document} (h : Path doc deeds after)
    (hl : Listening token doc deeds) (id : AnchorId) :
    reports id (heardBy token deeds) + after.anchors.liveAt id ≤
      doc.anchors.liveAt id + (deeds.flatMap (·.1.created)).count id
  call {E : GroupEnding → Prop} {s : Session} {c : Call} (hs : s.document = doc)
    (htoken : token ∈ doc.listeners.map (·.token))
    (hc : c.Each (fun c => c.Simple ∧ c ≠ .unsubscribe token) E) :
    ∃ deeds, Path doc deeds (c.perform s).state.document ∧ Listening token doc deeds ∧
      (c.perform s).deliveries = deeds.flatMap (·.2) ∧
      (¬ E .fail → deeds.countP (·.1.fails) = 0)

lemma Effect.replaced_log {log : List Notice} {deed : Deed} {after : Document} (h : Effect doc deed log after)
    (hreplaces : deed.replaces = true) : ∃ block seen, Block block ∧ log = block ++ [⟨.textReplaced, seen⟩] := by
  cases h with
  | aside _ _ hdeed | edited _ _ hdeed => exact absurd (hreplaces.symm.trans hdeed) (by simp)
  | opened _ hdeed | closed _ hdeed | unwound _ _ hdeed | undone _ _ _ hdeed | redone _ _ _ hdeed =>
    subst hdeed
    cases hreplaces
  | replaced _ hr => exact hr.block

lemma not_unsubscribes {c : Call} (hc : c ≠ .unsubscribe token) (o : Outcome Reply) :
    ¬ (Deed.call c o).Unsubscribes token := by
  intro h
  unfold Deed.Unsubscribes at h
  split at h
  case h_1 other _ heq =>
    obtain ⟨rfl, -⟩ := Deed.call.inj heq
    exact hc (congrArg Call.unsubscribe h)
  case h_2 => exact h

lemma admits_staying (token : Nat) (A : Prop) :
    Admits (fun c => c.Simple ∧ c ≠ .unsubscribe token) A
      fun deed => ¬ deed.Unsubscribes token ∧ (¬ A → deed.fails = false) where
  simple hc := hc.1
  call o hc := ⟨not_unsubscribes hc.2 o, fun _ => rfl⟩
  beginUpdate _ := ⟨fun h => h, fun _ => rfl⟩
  endUpdate _ := ⟨fun h => h, fun _ => rfl⟩
  unwind ha := ⟨fun h => h, fun hnot => absurd ha hnot⟩

theorem Sound.hears (h : doc.Sound) (token : Nat) : doc.Hears token where
  between hpath hl hclosed hafter := by
    obtain ⟨cuts, hcuts, hheard⟩ := hpath.heard h hclosed hl
    cases hheard with
    | closed _ hblocks => exact ⟨cuts, hcuts, hblocks⟩
    | opened hopen => exact absurd hafter (Nat.ne_of_gt hopen)
  inside hgrouped hl hopen := by
    have hin := hgrouped.inBlock h hl hopen
    have hblock := hin.exists_block
    obtain ⟨start, changes, hlog, hc, -, -⟩ := hin
    exact ⟨⟨start, changes, hlog, hc⟩, hblock⟩
  replaced hstep hl hreplaces := by
    obtain ⟨log, rfl, hstepped⟩ := hstep.stepped h
    rw [hstepped.heardBy_eq h hl.present]
    exact hstepped.effect.replaced_log hreplaces
  silent hstep hsilent := by
    obtain ⟨log, rfl, hstepped⟩ := hstep.stepped h
    rw [hstepped.silent hsilent, deliveriesOf_nil]
  tallied hpath hl id := hpath.tallied h hl id
  call {E s c} hs htoken hc := by
    subst hs
    have hfollows := ((admits_staying token (E .fail)).carries fun h => h).perform c hc s h
    obtain ⟨⟨deeds, hpath, hdeliveries, hall⟩, -⟩ := hfollows
    refine ⟨deeds, hpath, ⟨htoken, fun d hd => (hall d hd).1⟩, hdeliveries, fun hlives => ?_⟩
    refine List.countP_eq_zero.mpr fun d hd => ?_
    simpa using (hall d hd).2 hlives

end EditableText.Document
