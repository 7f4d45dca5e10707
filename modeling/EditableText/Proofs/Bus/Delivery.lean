import EditableText.Proofs.Bus.Ring
import Mathlib.Data.List.Range
import Mathlib.Order.Bounds.Basic

namespace EditableText

open BusCall

/-- Where a handler goes on that joined when so many messages had been sent, and has read those at `read`. -/
def standing (joined : Nat) (read : List Nat) : Nat := (read.getLast?.map (· + 1)).getD joined

structure Kept (capacity count place : Nat) : Prop where
  lt : place < count
  near : count ≤ place + capacity

/-- What the answer to a poll adds to what the handler has read of these messages. -/
inductive Answer {α : Type} (capacity joined : Nat) (messages : List α) (isClosed : Prop) (read : List Nat) :
    List Nat → Received α → Prop
  | message {place : Nat} {a : α}
    (hplace : IsLeast {p | standing joined read ≤ p ∧ Kept capacity messages.length p} place)
    (ha : messages[place]? = some a) : Answer capacity joined messages isClosed read [place] (.message a)
  | pending (hend : messages.length ≤ standing joined read) (hopen : ¬ isClosed) :
    Answer capacity joined messages isClosed read [] .pending
  | closed (hend : messages.length ≤ standing joined read) (hclosed : isClosed)
    (hread : ∀ p, joined ≤ p → Kept capacity messages.length p → p ∈ read) :
    Answer capacity joined messages isClosed read [] .closed

namespace Answer

variable {α : Type} {capacity joined : Nat} {messages : List α} {isClosed : Prop} {read more : List Nat}
  {reply : Received α}

lemma map_eq (h : Answer capacity joined messages isClosed read more reply) :
    more.map (messages[·]?) = reply.message?.toList.map some := by
  cases h with
  | message _ ha => exact congrArg (fun b => [b]) ha
  | pending | closed => rfl

lemma eq_nil_or_standing (h : Answer capacity joined messages isClosed read more reply)
    (hnear : messages.length ≤ standing joined read + capacity) : more = [] ∨ more = [standing joined read] := by
  cases h with
  | message hplace ha =>
    obtain ⟨⟨hle, hkept⟩, hleast⟩ := hplace
    have hfirst := hleast ⟨Nat.le_refl _, ⟨Nat.lt_of_le_of_lt hle hkept.lt, hnear⟩⟩
    exact .inr (congrArg (fun p => [p]) (Nat.le_antisymm hfirst hle))
  | pending | closed => exact .inl rfl

end Answer

namespace Bus

variable {α : Type} {bus : Bus α} {handler joined : Nat} {read : List Nat} {call : BusCall α}

lemma standing_append (joined : Nat) (read : List Nat) (place : Nat) :
    standing joined (read ++ [place]) = place + 1 := by
  simp [standing]

lemma standing_range' (joined n : Nat) : standing joined (List.range' joined n) = joined + n := by
  cases n with
  | zero => rfl
  | succ n => rw [List.range'_concat, standing_append, Nat.one_mul, Nat.add_assoc]

structure Reading (bus : Bus α) (handler joined : Nat) (read : List Nat) : Prop where
  place : bus.handlers[handler]? = some (some (standing joined read))
  standing_le : standing joined read ≤ bus.sent.size
  joined_le : joined ≤ standing joined read
  joined_of_read : ∀ p ∈ read, joined ≤ p
  lt_standing : ∀ p ∈ read, p < standing joined read
  increasing : read.Pairwise (· < ·)
  missed : ∀ p, joined ≤ p → p < standing joined read → p ∉ read → p + bus.capacity < bus.sent.size

namespace Reading

lemma start (h : bus.handlers[handler]? = some (some bus.sent.size)) :
    bus.Reading handler bus.sent.size [] where
  place := h
  standing_le := Nat.le_refl _
  joined_le := Nat.le_refl _
  joined_of_read := by simp
  lt_standing := by simp
  increasing := .nil
  missed p hjoined hlt := absurd hlt (Nat.not_lt.mpr hjoined)

lemma reads (h : bus.Reading handler joined read) {place : Nat}
    (hplace : place = max (standing joined read) bus.oldestKept) (hlt : place < bus.sent.size) :
    ({ bus with handlers := bus.handlers.setIfInBounds handler (some (place + 1)) } : Bus α).Reading handler joined
      (read ++ [place]) := by
  have hsize : handler < bus.handlers.size := (Array.getElem?_eq_some_iff.mp h.place).1
  have holdest : bus.oldestKept = bus.sent.size - bus.capacity := rfl
  have hjoined := h.joined_le
  have hbehind : ∀ p ∈ read, p < place := fun p hp => by
    have := h.lt_standing p hp
    omega
  refine ⟨?_, ?_, ?_, fun p hp => ?_, fun p hp => ?_, ?_, fun p hfrom hp hunread => ?_⟩
  · simp [standing_append, hsize]
  · rw [standing_append]
    exact hlt
  · rw [standing_append]
    omega
  · rcases List.mem_append.mp hp with hold | hnew
    · exact h.joined_of_read p hold
    · obtain rfl := List.mem_singleton.mp hnew
      omega
  · rw [standing_append]
    rcases List.mem_append.mp hp with hold | hnew
    · exact Nat.lt_succ_of_lt (hbehind p hold)
    · exact Nat.lt_succ_of_le (Nat.le_of_eq (List.mem_singleton.mp hnew))
  · exact List.pairwise_append.mpr ⟨h.increasing, List.pairwise_singleton _ _, fun p hp q hq =>
      List.mem_singleton.mp hq ▸ hbehind p hp⟩
  · rw [standing_append] at hp
    rw [List.mem_append, List.mem_singleton, not_or] at hunread
    change p + bus.capacity < bus.sent.size
    by_cases hread : p < standing joined read
    · exact h.missed p hfrom hread hunread.1
    · omega

lemma mem_of_kept (h : bus.Reading handler joined read) (hend : bus.sent.size ≤ standing joined read) {p : Nat}
    (hjoined : joined ≤ p) (hkept : Kept bus.capacity bus.sent.toList.length p) : p ∈ read := by
  by_contra hunread
  obtain ⟨hlt, hnear⟩ := hkept
  rw [Array.length_toList] at hlt hnear
  have := h.missed p hjoined (Nat.lt_of_lt_of_le hlt hend) hunread
  omega

lemma next (h : bus.Reading handler joined read) (hpositive : 0 < bus.capacity) :
    ∃ more, Answer bus.capacity joined bus.sent.toList (bus.isClosed = true) read more (bus.next handler).1 ∧
      (bus.next handler).2.Reading handler joined (read ++ more) := by
  have holdest : bus.oldestKept = bus.sent.size - bus.capacity := rfl
  have hstanding := h.standing_le
  obtain ⟨place, hplace⟩ : ∃ place, place = max (standing joined read) bus.oldestKept := ⟨_, rfl⟩
  cases hmessage : bus.sent[max (standing joined read) bus.oldestKept]? with
  | some a =>
    have hlt := (Array.getElem?_eq_some_iff.mp hmessage).1
    rw [next_of_message h.place hmessage]
    rw [← hplace] at hmessage hlt ⊢
    refine ⟨[place], .message ⟨⟨by omega, ?_⟩, fun p ⟨hfrom, hkept⟩ => ?_⟩ ?_, h.reads hplace hlt⟩
    · exact ⟨by simpa using hlt, by simp; omega⟩
    · have hnear : bus.sent.size ≤ p + bus.capacity := by simpa using hkept.near
      omega
    · rw [Array.getElem?_toList, hmessage]
  | none =>
    have hend : bus.sent.size ≤ standing joined read := by
      have hle := Array.getElem?_eq_none_iff.mp hmessage
      omega
    have hlength : bus.sent.toList.length ≤ standing joined read := by simpa using hend
    refine ⟨[], ?_, ?_⟩
    · rw [next_at_end h.place hmessage]
      by_cases hclosed : bus.isClosed = true
      · rw [if_pos hclosed]
        exact .closed hlength hclosed fun p hjoined hkept => h.mem_of_kept hend hjoined hkept
      · rw [if_neg hclosed]
        exact .pending hlength hclosed
    · rw [next_at_end h.place hmessage, List.append_nil]
      exact h

lemma perform (h : bus.Reading handler joined read) (hpoll : call.polls handler = false)
    (hdrop : ∀ other, call = .drop other → other ≠ handler) :
    (bus.perform call).2.Reading handler joined read := by
  -- More messages may have been sent, and what is missed stays so.
  have hsize : bus.sent.size ≤ (bus.perform call).2.sent.size := by
    rw [← Array.length_toList, ← Array.length_toList, perform_sent, List.length_append]
    exact Nat.le_add_right _ _
  refine { h with
    place := (perform_handler (Array.getElem?_eq_some_iff.mp h.place).1 hpoll hdrop).trans h.place
    standing_le := h.standing_le.trans hsize
    missed := fun p hjoined hp hunread => ?_ }
  rw [perform_capacity]
  exact Nat.lt_of_lt_of_le (h.missed p hjoined hp hunread) hsize

end Reading

structure Fresh (bus : Bus α) : Prop where
  positive : 0 < bus.capacity
  sent_eq : bus.sent = #[]
  handlers_eq : bus.handlers = #[]
  isClosed_eq : bus.isClosed = false

namespace Fresh

variable {calls : List (BusCall α)}

lemma sent_after (h : bus.Fresh) (calls : List (BusCall α)) : (bus.after calls).sent.toList = emitted calls := by
  rw [after_sent, h.sent_eq]
  rfl

lemma isClosed_after (h : bus.Fresh) (calls : List (BusCall α)) :
    (bus.after calls).isClosed = true ↔ .close ∈ calls := by
  rw [after_isClosed, h.isClosed_eq]
  simp

lemma size_after (h : bus.Fresh) (calls : List (BusCall α)) :
    (bus.after calls).handlers.size = subscriptions calls := by
  rw [after_size, h.handlers_eq]
  simp

end Fresh

/-- What a handler is told that subscribed with the last of the calls in `past`, if these calls follow and it reads
the messages at these places. -/
structure Delivery (bus : Bus α) (past : List (BusCall α)) (handler joined : Nat) (calls : List (BusCall α))
    (places : List Nat) : Prop where
  yields_eq : places.map ((emitted (past ++ calls))[·]?) = ((bus.after past).yields handler calls).map some
  increasing : places.Pairwise (· < ·)
  joined_le : ∀ p ∈ places, joined ≤ p
  /-- Each poll adds what comes next of what is kept. -/
  poll : ∀ earlier later, calls = earlier ++ .next handler :: later → .drop handler ∉ earlier →
    let read := places.take ((bus.after past).yields handler earlier).length
    ∃ more, Answer bus.capacity joined (emitted (past ++ earlier)) (.close ∈ past ++ earlier) read more
      ((bus.after (past ++ earlier)).next handler).1 ∧ read ++ more <+: places
  /-- A handler misses nothing that is never further behind than what is kept. -/
  complete : (∀ earlier later, calls = earlier ++ .next handler :: later → .drop handler ∉ earlier →
      (emitted (past ++ earlier)).length ≤
        standing joined (places.take ((bus.after past).yields handler earlier).length) + bus.capacity) →
    places = List.range' joined places.length

namespace Delivery

variable {past calls : List (BusCall α)} {places more : List Nat}

lemma start (bus : Bus α) (past : List (BusCall α)) (handler joined : Nat) :
    bus.Delivery past handler joined [] [] where
  yields_eq := rfl
  increasing := .nil
  joined_le := by simp
  poll earlier later h := by simp at h
  complete _ := rfl

lemma length_eq (h : bus.Delivery past handler joined calls places) :
    ((bus.after past).yields handler calls).length = places.length := by
  simpa using (congrArg List.length h.yields_eq).symm

lemma take_all (h : bus.Delivery past handler joined calls places) :
    (places ++ more).take ((bus.after past).yields handler calls).length = places := by
  rw [h.length_eq, List.take_left]

lemma take_earlier (h : bus.Delivery past handler joined calls places) {earlier later : List (BusCall α)}
    (hcalls : calls = earlier ++ later) :
    (places ++ more).take ((bus.after past).yields handler earlier).length =
      places.take ((bus.after past).yields handler earlier).length := by
  refine List.take_append_of_le_length ?_
  rw [← h.length_eq, hcalls, yields_append, List.length_append]
  exact Nat.le_add_right _ _

lemma split_snoc {earlier later : List (BusCall α)} {poll : BusCall α}
    (h : calls ++ [call] = earlier ++ poll :: later) :
    (∃ later', later = later' ++ [call] ∧ calls = earlier ++ poll :: later') ∨
      (later = [] ∧ earlier = calls ∧ poll = call) := by
  rcases List.eq_nil_or_concat later with rfl | ⟨later', last, rfl⟩
  · obtain ⟨rfl, hcall⟩ := List.append_inj' h rfl
    exact .inr ⟨rfl, rfl, (List.singleton_inj.mp hcall).symm⟩
  · rw [List.concat_eq_append, ← List.cons_append, ← List.append_assoc] at h
    obtain ⟨rfl, hcall⟩ := List.append_inj' h rfl
    exact .inl ⟨later', by rw [List.concat_eq_append, List.singleton_inj.mp hcall], rfl⟩

lemma map_emitted (h : bus.Delivery past handler joined calls places) (added : List (BusCall α)) :
    places.map ((emitted (past ++ (calls ++ added)))[·]?) = ((bus.after past).yields handler calls).map some := by
  rw [← h.yields_eq]
  refine List.map_congr_left fun p hp => ?_
  have hmem : (emitted (past ++ calls))[p]? ∈ ((bus.after past).yields handler calls).map some :=
    h.yields_eq ▸ List.mem_map.mpr ⟨p, hp, rfl⟩
  obtain ⟨a, -, ha⟩ := List.mem_map.mp hmem
  rw [← List.append_assoc, emitted_append, List.getElem?_append_left (List.getElem?_eq_some_iff.mp ha.symm).1]

lemma complete_of_snoc (h : bus.Delivery past handler joined calls places) (more : List Nat)
    (hkeeps : ∀ earlier later, calls ++ [call] = earlier ++ .next handler :: later → .drop handler ∉ earlier →
      (emitted (past ++ earlier)).length ≤ standing joined
        ((places ++ more).take ((bus.after past).yields handler earlier).length) + bus.capacity) :
    places = List.range' joined places.length := by
  refine h.complete fun earlier later hcalls hlive => ?_
  have hle := hkeeps earlier (later ++ [call]) (by rw [hcalls, List.append_assoc, List.cons_append]) hlive
  rwa [h.take_earlier hcalls] at hle

lemma snoc_of_nothing (h : bus.Delivery past handler joined calls places)
    (hnothing : (bus.after (past ++ calls)).yields handler [call] = [])
    (hlate : call = .next handler → .drop handler ∈ calls) :
    bus.Delivery past handler joined (calls ++ [call]) places where
  yields_eq := by
    rw [h.map_emitted, yields_append, ← after_append, hnothing, List.append_nil]
  increasing := h.increasing
  joined_le := h.joined_le
  poll earlier later hcalls hlive := by
    rcases split_snoc hcalls with ⟨later', -, hold⟩ | ⟨-, rfl, hpoll⟩
    · exact h.poll earlier later' hold hlive
    · exact absurd (hlate hpoll.symm) hlive
  complete hkeeps := h.complete_of_snoc [] (by simpa using hkeeps)

lemma snoc_of_answer (h : bus.Delivery past handler joined calls places)
    (hanswer : Answer bus.capacity joined (emitted (past ++ calls)) (.close ∈ past ++ calls) places more
      ((bus.after (past ++ calls)).next handler).1)
    (hincreasing : (places ++ more).Pairwise (· < ·)) (hjoined : ∀ p ∈ more, joined ≤ p)
    (hlive : .drop handler ∉ calls) :
    bus.Delivery past handler joined (calls ++ [.next handler]) (places ++ more) where
  yields_eq := by
    have hsame : emitted (past ++ (calls ++ [.next handler])) = emitted (past ++ calls) := by
      rw [← List.append_assoc, emitted_append]
      exact List.append_nil _
    rw [List.map_append, h.map_emitted, yields_append, ← after_append, yields_next, List.map_append, hsame,
      hanswer.map_eq]
  increasing := hincreasing
  joined_le p hp := (List.mem_append.mp hp).elim (h.joined_le p) (hjoined p)
  poll earlier later hcalls hlive := by
    rcases split_snoc hcalls with ⟨later', -, hold⟩ | ⟨-, rfl, -⟩
    · obtain ⟨one, hone, hfirst⟩ := h.poll earlier later' hold hlive
      dsimp only
      rw [h.take_earlier hold]
      exact ⟨one, hone, hfirst.trans (List.prefix_append _ _)⟩
    · dsimp only
      rw [h.take_all]
      exact ⟨more, hanswer, List.prefix_refl _⟩
  complete hkeeps := by
    have hplaces := h.complete_of_snoc more hkeeps
    have hnear := hkeeps calls [] rfl hlive
    rw [h.take_all] at hnear
    rcases hanswer.eq_nil_or_standing hnear with rfl | rfl
    · rwa [List.append_nil]
    · rw [List.length_append, List.length_singleton, List.range'_concat, Nat.one_mul, ← hplaces]
      congr 2
      rw [hplaces, standing_range', List.length_range']

end Delivery

section Run

variable {past calls : List (BusCall α)}

lemma next_of_dropped (h : bus.handlers[handler]? = some none) : bus.next handler = (.closed, bus) :=
  next_of_no_place fun _ hplace => by simp [h] at hplace

lemma perform_of_dropped (h : bus.handlers[handler]? = some none) (call : BusCall α) :
    (bus.perform call).2.handlers[handler]? = some none ∧ bus.yields handler [call] = [] := by
  have hsize : handler < bus.handlers.size := (Array.getElem?_eq_some_iff.mp h).1
  by_cases hpoll : call.polls handler = true
  · obtain rfl := eq_next_of_polls hpoll
    rw [yields_next, perform, next_of_dropped h]
    exact ⟨h, rfl⟩
  have hother : call.polls handler = false := by simpa using hpoll
  refine ⟨?_, yields_of_not_polls bus hother⟩
  by_cases hdrop : call = .drop handler
  · subst hdrop
    simp [perform, drop, hsize]
  · rw [perform_handler hsize hother fun other hcall hsame => hdrop (hsame ▸ hcall), h]

lemma Fresh.exists_delivery (h : bus.Fresh) (hstart : (bus.after past).Reading handler joined [])
    (calls : List (BusCall α)) : ∃ places, bus.Delivery past handler joined calls places ∧
      (.drop handler ∉ calls → (bus.after (past ++ calls)).Reading handler joined places) ∧
      (.drop handler ∈ calls → (bus.after (past ++ calls)).handlers[handler]? = some none) := by
  -- The last call is split off: as long as it is not dropped, the handler stands where its reading has led it.
  induction calls using List.reverseRecOn with
  | nil => exact ⟨[], .start bus past handler joined, fun _ => by simpa using hstart, by simp⟩
  | append_singleton calls call ih =>
    obtain ⟨places, hdelivery, hreading, hdropped⟩ := ih
    have hafter : bus.after (past ++ (calls ++ [call])) = ((bus.after (past ++ calls)).perform call).2 := by
      rw [← List.append_assoc, after_append]
      rfl
    rw [hafter]
    by_cases hgone : .drop handler ∈ calls
    · obtain ⟨hplace, hnothing⟩ := perform_of_dropped (hdropped hgone) call
      exact ⟨places, hdelivery.snoc_of_nothing hnothing fun _ => hgone,
        fun hlive => absurd (List.mem_append_left _ hgone) hlive, fun _ => hplace⟩
    have hreads := hreading hgone
    by_cases hpoll : call.polls handler = true
    · obtain rfl := eq_next_of_polls hpoll
      obtain ⟨more, hanswer, hnext⟩ := hreads.next (by rw [after_capacity]; exact h.positive)
      rw [after_capacity, h.sent_after, propext (h.isClosed_after _)] at hanswer
      refine ⟨places ++ more, hdelivery.snoc_of_answer hanswer hnext.increasing (fun p hp => ?_) hgone,
        fun _ => hnext, fun hdrop => absurd hdrop (by simpa using hgone)⟩
      exact hnext.joined_of_read p (List.mem_append_right _ hp)
    have hother : call.polls handler = false := by simpa using hpoll
    have hsame := hdelivery.snoc_of_nothing (yields_of_not_polls _ hother)
      fun hnext => absurd (hnext ▸ hother) (by simp [polls])
    refine ⟨places, hsame, fun hlive => ?_, fun hdrop => ?_⟩
    · exact hreads.perform hother fun other hcall hsame => hlive (by simp [hcall, hsame])
    · obtain rfl : .drop handler = call := by simpa [hgone] using hdrop
      have hsize := (Array.getElem?_eq_some_iff.mp hreads.place).1
      simp [perform, drop, hsize]

lemma Fresh.reading_of_subscribe (h : bus.Fresh) (before : List (BusCall α)) :
    (bus.after (before ++ [.subscribe])).Reading (subscriptions before) (emitted before).length [] := by
  rw [after_append, ← h.size_after before, ← h.sent_after before, Array.length_toList]
  exact .start (Array.getElem?_push_size ..)

end Run

lemma leastPowerOfTwo_isLeast {n : Nat} (h : 0 < n) :
    IsLeast {m | m.isPowerOfTwo ∧ n ≤ m} (leastPowerOfTwo n) := by
  rw [leastPowerOfTwo]
  split
  case isTrue hone => exact ⟨⟨Nat.isPowerOfTwo_one, hone⟩, fun m hm => Nat.le_trans h hm.2⟩
  case isFalse hmore =>
    rw [Nat.one_shiftLeft]
    have hlt := Nat.lt_log2_self (n := n - 1)
    refine ⟨⟨⟨_, rfl⟩, by omega⟩, ?_⟩
    rintro m ⟨⟨k, rfl⟩, hle⟩
    exact Nat.pow_le_pow_right (by omega) ((Nat.log2_lt (by omega)).mpr (by omega))

lemma create?_eq_some {capacity : Nat} (h : create? capacity = some bus) :
    bus.Fresh ∧ bus.capacity = leastPowerOfTwo (max capacity 1) := by
  rw [create?] at h
  split at h
  case isTrue =>
    obtain rfl := Option.some.inj h
    have hleast := leastPowerOfTwo_isLeast (n := max capacity 1) (by omega)
    exact ⟨⟨by have := hleast.1.2; dsimp only; omega, rfl, rfl, rfl⟩, rfl⟩
  case isFalse => cases h

/-- A ring of the least power of two of slots that is not below the capacity, read with one more attempt whenever a
reader has been overtaken, is a bus; no attempt after such a one fails if it is made at once. Each handler is told
the oldest message it has not passed and that is still kept, whatever the other handlers do. -/
theorem delivers_over_ring {capacity : Nat} (h : create? capacity = some bus) :
    let ring : Ring α := .ofCapacity bus.capacity
    IsLeast {m | m.isPowerOfTwo ∧ max capacity 1 ≤ m} bus.capacity ∧
      (∀ calls, bus.record ((ring.heard calls).map Prod.fst) = ring.heard calls) ∧
      (∀ calls handler missed after, (ring.after calls).attempt handler = (.lagged missed, after) →
        0 < missed ∧ ∃ a last, after.attempt handler = (.message a, last)) ∧
      (∀ before behind, ∃ places,
        bus.Delivery (before ++ [.subscribe]) (subscriptions before) (emitted before).length behind places) ∧
      ∀ calls handler, bus.replies handler (calls.filter (concerns handler)) = bus.replies handler calls := by
  intro ring
  obtain ⟨hfresh, hcapacity⟩ := create?_eq_some h
  have hcarries : ring.Carries bus :=
    .start bus hfresh.positive hfresh.sent_eq hfresh.handlers_eq hfresh.isClosed_eq
  refine ⟨hcapacity ▸ leastPowerOfTwo_isLeast (Nat.lt_of_lt_of_le Nat.one_pos (Nat.le_max_right _ _)),
    hcarries.record_heard, fun calls handler missed after hlagged => ?_, fun before behind => ?_,
    fun calls handler => bus.replies_filter handler calls⟩
  · obtain ⟨other, hother⟩ := hcarries.after calls
    exact hother.attempt_of_lagged hlagged
  · obtain ⟨places, hdelivery, -⟩ := hfresh.exists_delivery (hfresh.reading_of_subscribe before) behind
    exact ⟨places, hdelivery⟩

theorem delivers_over_ring_twice_overtaken : ∃ bus : Bus Nat, create? 2 = some bus ∧
    let ring : Ring Nat := .ofCapacity bus.capacity
    let behind : List (BusCall Nat) :=
      [.emit 10, .emit 20, .emit 30, .emit 40, .next 0, .next 0, .close, .next 0]
    ring.heard [.subscribe, .emit 10, .emit 20, .emit 30, .next 0, .emit 40, .next 0, .next 0, .next 0, .close,
        .next 0] = bus.record (.subscribe :: behind) ∧
      bus.replies 0 (.subscribe :: behind) = [.message 30, .message 40, .closed] ∧
      ∃ places, bus.Delivery [.subscribe] 0 0 behind places := by
  obtain ⟨bus, hbus⟩ : ∃ bus : Bus Nat, create? 2 = some bus := ⟨_, rfl⟩
  obtain ⟨-, hring, -, hdelivery, -⟩ := delivers_over_ring hbus
  have hheard := hring [.subscribe, .emit 10, .emit 20, .emit 30, .next 0, .emit 40, .next 0, .next 0, .next 0,
    .close, .next 0]
  refine ⟨bus, hbus, hheard.symm.trans ?_, ?_, hdelivery [] _⟩
  · obtain rfl := Option.some.inj hbus
    decide +kernel
  · obtain rfl := Option.some.inj hbus
    decide +kernel

end Bus

end EditableText
