import EditableText.Proofs.Document.Groups
import EditableText.Proofs.Document.Receiving

namespace EditableText

def Deed.fails : Deed → Bool
  | unwind => true
  | _ => false

/-- What is heard from one document with no open update to another, with as many replacements of the
whole text, and as many updates that their holders did not live to close, as the numbers say. -/
inductive Blocks : Nat → Nat → List Notice → Prop
  | none : Blocks 0 0 []
  | block {n k : Nat} {log block : List Notice} (h : Blocks n k log) (hb : Block block) :
    Blocks n k (log ++ block)
  | replaced {n k : Nat} {log block : List Notice} (h : Blocks n k log) (hb : Block block)
    (seen : Document) : Blocks (n + 1) k (log ++ (block ++ [⟨.textReplaced, seen⟩]))
  | cut {n k : Nat} {log changes : List Notice} (h : Blocks n k log) (start : Document)
    (hc : Changes changes) : Blocks n (k + 1) (log ++ ⟨.updateStarted, start⟩ :: changes)

lemma Changes.count_eq_zero {log : List Notice} (h : Changes log) {event : DocumentEvent}
    (hevent : event = .updateStarted ∨ event = .updateFinished ∨ event = .textReplaced) :
    (log.map (·.event)).count event = 0 := by
  induction h with
  | none => rfl
  | next hd _ ih =>
    rw [List.map_cons, List.map_cons, List.map_append, hd, List.count_cons, List.count_cons, List.count_append,
      ih, List.count_eq_zero.mpr]
    · rcases hevent with rfl | rfl | rfl <;> simp
    · rcases hevent with rfl | rfl | rfl <;> simp

lemma Block.count_eq {log : List Notice} (h : Block log) {event : DocumentEvent}
    (hevent : event = .updateStarted ∨ event = .updateFinished ∨ event = .textReplaced) :
    (log.map (·.event)).count event = if event = .textReplaced then 0 else 1 := by
  obtain ⟨hc, hclosing, -⟩ := h
  rw [List.map_cons, List.map_append, hclosing, List.count_cons, List.count_append, hc.count_eq_zero hevent]
  unfold Document.closingEvents
  rcases hevent with rfl | rfl | rfl <;> split_ifs <;> simp_all

lemma Blocks.count_textReplaced {n k : Nat} {log : List Notice} (h : Blocks n k log) :
    (log.map (·.event)).count .textReplaced = n := by
  induction h with
  | none => rfl
  | block _ hb ih =>
    rw [List.map_append, List.count_append, ih, hb.count_eq (.inr (.inr rfl))]
    rfl
  | replaced _ hb seen ih =>
    rw [List.map_append, List.map_append, List.count_append, List.count_append, ih,
      hb.count_eq (.inr (.inr rfl))]
    simp
  | cut _ start hc ih =>
    rw [List.map_append, List.map_cons, List.count_append, List.count_cons, ih,
      hc.count_eq_zero (.inr (.inr rfl))]
    simp

lemma Blocks.count_updateStarted {n k : Nat} {log : List Notice} (h : Blocks n k log) :
    (log.map (·.event)).count .updateStarted = (log.map (·.event)).count .updateFinished + k := by
  induction h with
  | none => rfl
  | block _ hb ih =>
    rw [List.map_append, List.count_append, List.count_append, hb.count_eq (.inl rfl),
      hb.count_eq (.inr (.inl rfl)), ih]
    simp
    omega
  | replaced _ hb seen ih =>
    rw [List.map_append, List.map_append, List.count_append, List.count_append, List.count_append,
      List.count_append, hb.count_eq (.inl rfl), hb.count_eq (.inr (.inl rfl)), ih]
    simp
    omega
  | cut _ start hc ih =>
    rw [List.map_append, List.map_cons, List.count_append, List.count_append, List.count_cons, List.count_cons,
      hc.count_eq_zero (.inl rfl), hc.count_eq_zero (.inr (.inl rfl)), ih]
    simp
    omega

namespace Document

variable {doc mid after : Document} {log log' part : List Notice} {deed : Deed} {deliveries : List Delivery}
  {deeds : List (Deed × List Delivery)} {n k token : Nat}

lemma InBlock.exists_block (h : doc.InBlock part) : ∃ block, Block block ∧ part <+: block := by
  obtain ⟨start, changes, rfl, hc, -, -⟩ := h
  let closing : List Notice :=
    (closingEvents start.lineCount doc.lineCount (!changes.isEmpty)).map fun event => ⟨event, doc⟩
  have hclosing : closing.map (·.event) =
      closingEvents start.lineCount doc.lineCount (!changes.isEmpty) := by
    simp [closing, Function.comp_def]
  exact ⟨_, .mk hc hclosing (by simp [closing]), ⟨closing, rfl⟩⟩

lemma Aside.inBlock (h : doc.Aside after) (hb : doc.InBlock part) : after.InBlock part := by
  obtain ⟨start, changes, rfl, hc, hcount, hflag⟩ := hb
  exact ⟨start, changes, rfl, hc, h.lineCountAtUpdate.trans hcount, h.changedText.trans hflag⟩

inductive Heard (n k : Nat) (log : List Notice) (doc : Document) : Prop
  | closed (hd : doc.updateDepth = 0) (h : Blocks n k log)
  | opened {told part : List Notice} (hd : 0 < doc.updateDepth) (hlog : log = told ++ part)
    (h : Blocks n k told) (hin : doc.InBlock part)

lemma Heard.first (h : Blocks n k log) (hd : doc.updateDepth = 0) (he : Effect doc deed log' after) :
    Heard (n + if deed.replaces then 1 else 0) k (log ++ log') after := by
  cases he with
  | aside ha hlog hdeed =>
    subst hlog
    rw [hdeed, List.append_nil]
    exact .closed (ha.depth.trans hd) h
  | edited _ he hdeed =>
    rw [hdeed]
    exact .closed (he.depth_eq.trans hd) (h.block (he.block hd))
  | opened ho hdeed =>
    subst hdeed
    exact .opened ho.depth_pos rfl h (ho.inBlock hd)
  | closed hl => exact absurd hd (Nat.ne_of_gt hl.toLeft.depth_pos)
  | unwound hl => exact absurd hd (Nat.ne_of_gt hl.depth_pos)
  | undone _ _ hp hdeed | redone _ _ hp hdeed =>
    subst hdeed
    exact .closed hp.depth (h.block hp.block)
  | replaced _ hr hdeed =>
    subst hdeed
    obtain ⟨block, seen, hb, rfl⟩ := hr.block
    exact .closed hr.depth (h.replaced hb seen)

namespace Effect

lemma replaces_eq_false (he : Effect doc deed log after) (hd : 0 < doc.updateDepth) :
    deed.replaces = false := by
  cases he with
  | aside _ _ hdeed | edited _ _ hdeed => exact hdeed
  | opened _ hdeed | closed _ hdeed | unwound _ _ hdeed | undone _ _ _ hdeed | redone _ _ _ hdeed =>
    subst hdeed
    rfl
  | replaced hz => exact absurd hz (Nat.ne_of_gt hd)

lemma inBlock (he : Effect doc deed log after) (hin : doc.InBlock part) (hd : 0 < doc.updateDepth)
    (hopen : 0 < after.updateDepth) : after.InBlock (part ++ log) := by
  cases he with
  | aside ha hlog =>
    subst hlog
    exact (List.append_nil part).symm ▸ ha.inBlock hin
  | edited _ he => exact (he.moves hd).inBlock hin
  | opened ho => exact ho.inBlock_inner hd hin
  | closed hl => exact hl.toLeft.inBlock hopen hin
  | unwound hl => exact hl.inBlock hopen hin
  | undone hz | redone hz | replaced hz => exact absurd hz (Nat.ne_of_gt hd)

lemma inBlock_first (he : Effect doc deed log after) (hd : doc.updateDepth = 0)
    (hopen : 0 < after.updateDepth) : after.InBlock log := by
  cases he with
  | aside ha => exact absurd (ha.depth.trans hd) (Nat.ne_of_gt hopen)
  | edited _ he => exact absurd (he.depth_eq.trans hd) (Nat.ne_of_gt hopen)
  | opened ho => exact ho.inBlock hd
  | closed hl => exact absurd hd (Nat.ne_of_gt hl.toLeft.depth_pos)
  | unwound hl => exact absurd hd (Nat.ne_of_gt hl.depth_pos)
  | undone _ _ hp | redone _ _ hp => exact absurd hp.depth (Nat.ne_of_gt hopen)
  | replaced _ hr => exact absurd hr.depth (Nat.ne_of_gt hopen)

lemma block (he : Effect doc deed log after) (hin : doc.InBlock part) (hd : 0 < doc.updateDepth)
    (hz : after.updateDepth = 0) :
    Block (part ++ log) ∨ deed = .unwind ∧ log = [] := by
  cases he with
  | aside ha => exact absurd (ha.depth.symm.trans hz) (Nat.ne_of_gt hd)
  | edited _ he => exact absurd (he.depth_eq.symm.trans hz) (Nat.ne_of_gt hd)
  | opened ho => exact absurd hz (Nat.ne_of_gt ho.depth_pos)
  | closed hl => exact .inl (hl.block hz hin)
  | unwound _ hlog hdeed => exact .inr ⟨hdeed, hlog⟩
  | undone hz | redone hz | replaced hz => exact absurd hz (Nat.ne_of_gt hd)

end Effect

lemma Heard.next (h : Blocks n k log) (hin : doc.InBlock part) (hd : 0 < doc.updateDepth)
    (he : Effect doc deed log' after) :
    ∃ cuts ≤ k + if deed.fails then 1 else 0,
      Heard (n + if deed.replaces then 1 else 0) cuts (log ++ part ++ log') after := by
  rw [he.replaces_eq_false hd, List.append_assoc]
  rcases Nat.eq_zero_or_pos after.updateDepth with hz | hopen
  · -- the outermost update is closed, or let go of without a word
    rcases he.block hin hd hz with hb | ⟨rfl, rfl⟩
    · exact ⟨k, Nat.le_add_right _ _, .closed hz (h.block hb)⟩
    · obtain ⟨start, changes, rfl, hc, -, -⟩ := hin
      exact ⟨k + 1, Nat.le_refl _, .closed hz (by simpa using h.cut start hc)⟩
  · exact ⟨k, Nat.le_add_right _ _, .opened hopen rfl h (he.inBlock hin hd hopen)⟩

lemma Heard.step (h : Heard n k log doc) (he : Effect doc deed log' after) :
    ∃ cuts ≤ k + if deed.fails then 1 else 0,
      Heard (n + if deed.replaces then 1 else 0) cuts (log ++ log') after := by
  cases h with
  | closed hd h => exact ⟨k, Nat.le_add_right _ _, .first h hd he⟩
  | opened hd hlog h hin => exact hlog ▸ Heard.next h hin hd he

lemma Stepped.received_eq (h : Stepped doc deed log after) (hs : doc.Sound)
    (htoken : token ∈ doc.listeners.map (·.token)) : received token (deliveriesOf log) = log := by
  refine received_deliveriesOf fun n hn => ?_
  have haudience := congrArg (List.map (·.1)) (h.seen n hn)
  have htokens : n.seen.listeners.map (·.token) = doc.listeners.map (·.token) := by
    simpa [audience, Function.comp_def, Listener.profile] using haudience
  rw [htokens]
  rw [hs.tokens.count, if_pos htoken]

structure Listening (token : Nat) (doc : Document) (deeds : List (Deed × List Delivery)) : Prop where
  present : token ∈ doc.listeners.map (·.token)
  stays : ∀ d ∈ deeds, ¬ d.1.Unsubscribes token

namespace Listening

lemma before (h : Listening token doc (deeds ++ [(deed, deliveries)])) :
    Listening token doc deeds ∧ ¬ deed.Unsubscribes token :=
  ⟨⟨h.present, fun d hd => h.stays d (List.mem_append_left _ hd)⟩,
    h.stays _ (List.mem_append_right _ (List.mem_singleton_self _))⟩

lemma path (hl : Listening token doc deeds) (h : Path doc deeds after) (hs : doc.Sound) :
    token ∈ after.listeners.map (·.token) := by
  induction h with
  | refl => exact hl.present
  | step hpath hstep ih =>
    obtain ⟨hbefore, hstays⟩ := hl.before
    obtain ⟨log, -, hstepped⟩ := hstep.stepped (hpath.sound hs)
    exact hstepped.stays token (ih hbefore) hstays

end Listening

def heardBy (token : Nat) (deeds : List (Deed × List Delivery)) : List Notice :=
  received token (deeds.flatMap (·.2))

lemma heardBy_append (token : Nat) (a b : List (Deed × List Delivery)) :
    heardBy token (a ++ b) = heardBy token a ++ heardBy token b := by
  simp [heardBy]

lemma Stepped.heardBy_eq (h : Stepped doc deed log after) (hs : doc.Sound)
    (htoken : token ∈ doc.listeners.map (·.token)) :
    heardBy token [(deed, deliveriesOf log)] = log := by
  simpa [heardBy] using h.received_eq hs htoken

structure Observed (doc : Document) (deeds : List (Deed × List Delivery)) (log : List Notice)
    (after : Document) : Prop where
  heard {token : Nat} (hl : Listening token doc deeds) : heardBy token deeds = log
  id : after.id = doc.id
  sent : after.bus.sent.toList = doc.bus.sent.toList ++ log.map (·.notification doc.id)
  faithful : Faithful doc log after
  blocks (hd : doc.updateDepth = 0) :
    ∃ cuts ≤ deeds.countP (·.1.fails), Heard (deeds.countP (·.1.replaces)) cuts log after

theorem Path.observed (h : Path doc deeds after) (hs : doc.Sound) : ∃ log, Observed doc deeds log after := by
  induction h with
  | refl =>
    exact ⟨[], fun _ => rfl, rfl, (List.append_nil _).symm, .nil (.refl doc),
      fun hd => ⟨0, Nat.le_refl _, .closed hd .none⟩⟩
  | step hpath hstep ih =>
    obtain ⟨log, ih⟩ := ih
    obtain ⟨log', rfl, hstepped⟩ := hstep.stepped (hpath.sound hs)
    refine ⟨log ++ log', fun hl => ?_, hstepped.id.trans ih.id, ?_, ih.faithful.trans hstepped.faithful,
      fun hd => ?_⟩
    · obtain ⟨hbefore, -⟩ := hl.before
      rw [heardBy_append, ih.heard hbefore, hstepped.heardBy_eq (hpath.sound hs) (hbefore.path hpath hs)]
    · rw [hstepped.sent_eq hstep, ih.sent, ih.id, List.map_append, List.append_assoc]
    · -- whole blocks, and behind them the beginning of one while an update is open
      obtain ⟨cuts, hcuts, hheard⟩ := ih.blocks hd
      obtain ⟨cuts', hcuts', hheard'⟩ := hheard.step hstepped.effect
      rw [List.countP_append, List.countP_append, List.countP_singleton, List.countP_singleton]
      exact ⟨cuts', Nat.le_trans hcuts' (Nat.add_le_add_right hcuts _), hheard'⟩

theorem Path.heard (h : Path doc deeds after) (hs : doc.Sound) (hd : doc.updateDepth = 0)
    (hl : Listening token doc deeds) :
    ∃ cuts ≤ deeds.countP (·.1.fails),
      Heard (deeds.countP (·.1.replaces)) cuts (heardBy token deeds) after := by
  obtain ⟨log, hobserved⟩ := h.observed hs
  rw [hobserved.heard hl]
  exact hobserved.blocks hd

theorem Path.tallied (h : Path doc deeds after) (hs : doc.Sound) (hl : Listening token doc deeds)
    (id : AnchorId) :
    reports id (heardBy token deeds) + after.anchors.liveAt id ≤
      doc.anchors.liveAt id + (deeds.flatMap (·.1.created)).count id := by
  induction h with
  | refl => simp [heardBy, received, reports]
  | step hpath hstep ih =>
    obtain ⟨hbefore, -⟩ := hl.before
    obtain ⟨log, rfl, hstepped⟩ := hstep.stepped (hpath.sound hs)
    have hfirst := ih hbefore
    have hlast := hstepped.tallied id
    rw [heardBy_append, hstepped.heardBy_eq (hpath.sound hs) (hbefore.path hpath hs), reports_append,
      List.flatMap_append, List.count_append]
    simp only [List.flatMap_cons, List.flatMap_nil, List.append_nil]
    omega

lemma Inside.path (h : Inside doc deeds after) : Path doc deeds after := by
  induction h with
  | refl => exact .refl _
  | step _ _ hs ih => exact ih.step hs

lemma Inside.inBlock (h : Inside doc deeds after) (hs : doc.Sound) (hl : Listening token doc deeds)
    (hin : doc.InBlock part) (hopen : 0 < after.updateDepth) :
    after.InBlock (part ++ heardBy token deeds) := by
  induction h with
  | refl => simpa [heardBy, received] using hin
  | step hinside hmid hstep ih =>
    obtain ⟨hbefore, -⟩ := hl.before
    obtain ⟨log, rfl, hstepped⟩ := hstep.stepped (hinside.sound hs)
    rw [heardBy_append, hstepped.heardBy_eq (hinside.sound hs) (hbefore.path hinside.path hs),
      ← List.append_assoc]
    exact hstepped.effect.inBlock (ih hbefore hmid) hmid hopen

lemma Inside.eq_of_closed (h : Inside doc deeds after) (hd : doc.updateDepth = 0) : after = doc := by
  induction h with
  | refl => rfl
  | step _ hopen _ ih => exact absurd (ih ▸ hd) (Nat.ne_of_gt hopen)

theorem Grouped.inBlock (h : Grouped doc deeds after) (hs : doc.Sound) (hl : Listening token doc deeds)
    (hopen : 0 < after.updateDepth) : after.InBlock (heardBy token deeds) := by
  obtain ⟨hclosed, hstep, -, -, hinside⟩ := h
  obtain ⟨log, rfl, hstepped⟩ := hstep.stepped hs
  rename_i mid deed rest
  have hmid : 0 < mid.updateDepth := by
    refine Nat.pos_of_ne_zero fun hz => ?_
    rw [hinside.eq_of_closed hz] at hopen
    exact absurd hz (Nat.ne_of_gt hopen)
  have hrest : Listening token mid rest :=
    ⟨hstepped.stays token hl.present (hl.stays _ List.mem_cons_self),
      fun d hd => hl.stays d (List.mem_cons_of_mem _ hd)⟩
  rw [← List.singleton_append, heardBy_append, hstepped.heardBy_eq hs hl.present]
  exact hinside.inBlock hstepped.sound hrest (hstepped.effect.inBlock_first hclosed hmid) hopen

end Document

end EditableText
