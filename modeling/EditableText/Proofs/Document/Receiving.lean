import EditableText.Proofs.Document.Paths

namespace EditableText

namespace Deed

def receivedBy (handler : Nat) : Deed → List Notification
  | call (.receive reader _) (.ok (.received messages)) =>
    if reader = handler then messages.filterMap Received.message? else []
  | _ => []

lemma receivedBy_eq_nil {deed : Deed} (h : deed.readsBus = false) (handler : Nat) :
    deed.receivedBy handler = [] := by
  unfold receivedBy
  split
  case h_1 => cases h
  case h_2 => rfl

end Deed

namespace Document

variable {doc mid after : Document} {log : List Notice} {deed : Deed} {deliveries : List Delivery}
  {deeds : List (Deed × List Delivery)} {handler : Nat}

lemma Step.of_readsBus (hs : Step doc deed deliveries after) (h : deed.readsBus = true) :
    (∃ o, deed = .call .addReceiver o) ∧ after.bus = doc.bus.subscribe ∨
      ∃ reader count, deed = .call (.receive reader count) (.ok (.received (doc.bus.receive reader count).1)) ∧
        after.bus = (doc.bus.receive reader count).2 := by
  cases hs with
  | @call s c hc =>
    unfold Deed.readsBus at h
    split at h
    case h_1 heq =>
      obtain ⟨rfl, -⟩ := Deed.call.inj heq
      exact .inl ⟨⟨_, rfl⟩, rfl⟩
    case h_2 heq =>
      obtain ⟨rfl, -⟩ := Deed.call.inj heq
      exact .inr ⟨_, _, rfl, rfl⟩
    case h_3 => cases h
  | unwind => cases h

inductive Abreast (handler : Nat) : Document → List (Deed × List Delivery) → Document → Prop
  | refl {doc : Document} (h : doc.bus.KeepsUp handler) : Abreast handler doc [] doc
  | step {doc mid after : Document} {deeds : List (Deed × List Delivery)} {deed : Deed}
    {deliveries : List Delivery} (h : Abreast handler doc deeds mid) (hs : Step mid deed deliveries after)
    (hkeeps : after.bus.KeepsUp handler) : Abreast handler doc (deeds ++ [(deed, deliveries)]) after

lemma Step.sent_eq_of_readsBus (hs : Step doc deed deliveries after) (h : deed.readsBus = true) :
    after.bus.sent = doc.bus.sent := by
  rcases hs.of_readsBus h with ⟨-, hbus⟩ | ⟨reader, count, -, hbus⟩
  · rw [hbus]
    rfl
  · rw [hbus, (doc.bus.receive_eq_of_ne reader count).1]

lemma Stepped.sent_eq (h : Stepped doc deed log after) (hs : Step doc deed deliveries after) :
    after.bus.sent.toList = doc.bus.sent.toList ++ log.map (·.notification doc.id) := by
  rcases h.bus with hbus | ⟨hreads, rfl⟩
  · rw [hbus, (Bus.emitAll_eq _).1]
  · rw [hs.sent_eq_of_readsBus hreads]
    exact (List.append_nil _).symm

lemma Stepped.received_unread (h : Stepped doc deed log after) (hs : Step doc deed deliveries after)
    (hkeeps : doc.bus.KeepsUp handler) :
    deed.receivedBy handler ++ after.bus.unread handler =
      doc.bus.unread handler ++ log.map (·.notification doc.id) := by
  cases hreads : deed.readsBus with
  | false =>
    rcases h.bus with hbus | ⟨hreads', -⟩
    · rw [Deed.receivedBy_eq_nil hreads, hbus, hkeeps.joined.unread_emitAll]
      rfl
    · exact absurd hreads' (by simp [hreads])
  | true =>
    have hnothing : log.map (·.notification doc.id) = [] := by
      have hsent := h.sent_eq hs
      rwa [hs.sent_eq_of_readsBus hreads, List.self_eq_append_right] at hsent
    rw [hnothing, List.append_nil]
    rcases hs.of_readsBus hreads with ⟨⟨o, rfl⟩, hbus⟩ | ⟨reader, count, rfl, hbus⟩
    · rw [hbus, hkeeps.joined.subscribe.2]
      rfl
    · by_cases hreader : reader = handler
      · subst hreader
        obtain ⟨hread, hleft⟩ := Bus.receive_eq hkeeps count
        rw [hbus, hleft, Deed.receivedBy, if_pos rfl, hread, List.take_append_drop]
      · rw [hbus, Deed.receivedBy, if_neg hreader, (hkeeps.joined.receive_of_ne (Ne.symm hreader) count).2]
        rfl

namespace Abreast

lemma path (h : Abreast handler doc deeds after) : Path doc deeds after := by
  induction h with
  | refl => exact .refl _
  | step _ hs _ ih => exact ih.step hs

lemma keepsUp (h : Abreast handler doc deeds after) : after.bus.KeepsUp handler := by
  cases h with
  | refl h => exact h
  | step _ _ hkeeps => exact hkeeps

theorem received (h : Abreast handler doc deeds after) (hd : doc.Sound) :
    ∃ sent, after.bus.sent.toList = doc.bus.sent.toList ++ sent ∧
      deeds.flatMap (·.1.receivedBy handler) ++ after.bus.unread handler =
        doc.bus.unread handler ++ sent := by
  induction h with
  | refl => exact ⟨[], (List.append_nil _).symm, (List.append_nil _).symm⟩
  | @step mid _ _ _ _ hpath hs _ ih =>
    obtain ⟨sent, hsent, hreceived⟩ := ih
    obtain ⟨log, -, hstepped⟩ := hs.stepped (hpath.path.sound hd)
    refine ⟨sent ++ log.map (·.notification mid.id), ?_, ?_⟩
    · rw [hstepped.sent_eq hs, hsent, List.append_assoc]
    · rw [List.flatMap_append, List.append_assoc, ← List.append_assoc (doc.bus.unread handler), ← hreceived,
        List.append_assoc, ← hstepped.received_unread hs hpath.keepsUp]
      simp

end Abreast

end Document

end EditableText
