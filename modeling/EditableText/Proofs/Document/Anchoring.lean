import EditableText.Proofs.Document.Lasting

namespace EditableText

open EditableText.Action EditableText.Document

def Move.ReleasesOnly (free : AnchorId → Prop) (move : Move) : Prop := ∀ id, move = .release id → free id

namespace Document

variable {first doc after : Document} {moves : List Move} {allowed : Move → Prop} {free : AnchorId → Prop}

def Led (first : Document) (allowed : Move → Prop) (doc : Document) : Prop :=
  ∃ moves, Along first moves doc ∧ ∀ move ∈ moves, allowed move

namespace Led

lemma sturdy (h : Led first allowed doc) : doc.Sturdy :=
  let ⟨_, halong, _⟩ := h
  halong.toSturdy

lemma still (h : Led first allowed doc) (hmatter : after.matter = doc.matter)
    (hh : after.history.OfChanges Change.Balanced) : Led first allowed after :=
  h.imp fun _ ⟨halong, hmoves⟩ => ⟨halong.still hmatter hh, hmoves⟩

lemma step (h : Led first allowed doc) {move : Move} (hlink : Link doc move after) (hsturdy : after.Sturdy)
    (hmove : allowed move) : Led first allowed after := by
  obtain ⟨moves, halong, hmoves⟩ := h
  refine ⟨_, ⟨hsturdy, halong.course.step hlink⟩, fun other hmem => ?_⟩
  rcases List.mem_append.mp hmem with hold | hnew
  · exact hmoves other hold
  · exact List.mem_singleton.mp hnew ▸ hmove

lemma link (h : Led first allowed doc) {move : Move} {anchors : AnchorTable}
    (hlink : Link doc move { doc with anchors }) (hwithin : anchors.Within doc.storage.content.length)
    (hmove : allowed move) : Led first allowed { doc with anchors } :=
  h.step hlink ⟨h.sturdy.coherent.withAnchors hwithin, hlink.tidy h.sturdy.tidy⟩ hmove

end Led

lemma material_led (hchange : ∀ c, allowed (.change c)) : Material (Led first allowed) where
  sturdy := Led.sturdy
  still := Led.still
  applied h happlied hsturdy := h.step (.change happlied) hsturdy (hchange _)

lemma tended_led : Tended free (fun _ _ => True) (fun _ _ => True) (Led first (Move.ReleasesOnly free)) :=
  .of_link Led.sturdy fun h hlink hwithin _ hmove => h.link hlink hwithin hmove

end Document

namespace Call

variable {first : Document} {free : AnchorId → Prop}

def ReleasesOnly (free : AnchorId → Prop) : Call → Prop
  | releaseAnchor released => free released
  | releaseAnchorSegment s => free s.start ∧ free s.stop
  | _ => True

lemma led_single {c : Call} (hsingle : ¬ c.Holds) (hc : c.ReleasesOnly free) :
    Keeps (Held (Led first (Move.ReleasesOnly free))) c.perform := by
  have hmaterial : Material (Led first (Move.ReleasesOnly free)) := material_led fun c id => by simp
  have honly : c.TendsOnly free (fun _ _ => True) fun _ _ => True := by
    cases c with
    | releaseAnchor | releaseAnchorSegment => exact hc
    | _ => trivial
  refine keeps_single hmaterial.lasting hsingle ?_
  rintro (hanchors | hobservers)
  · exact keeps_tending tended_led hanchors honly
  · exact keeps_observing hmaterial.withObservers hobservers

lemma led_rule (first : Document) (free : AnchorId → Prop) :
    EachRule (fun c => ¬ c.Holds ∧ c.ReleasesOnly free) (fun _ => True)
      (fun c => Keeps (Held (Led first (Move.ReleasesOnly free))) c.perform)
      fun calls => Keeps (Held (Led first (Move.ReleasesOnly free))) (performAll calls) :=
  lasting_rule (material_led fun c id => by simp).lasting fun hc hsingle => led_single hsingle hc

abbrev Releases (free : AnchorId → Prop) (c : Call) : Prop :=
  c.Each (fun c => ¬ c.Holds ∧ c.ReleasesOnly free) fun _ => True

lemma releases_any (c : Call) : c.Releases fun _ => True := by
  refine each_of_single (fun c hc => ⟨hc, ?_⟩) (fun _ => trivial) c
  cases c with
  | releaseAnchorSegment => exact ⟨trivial, trivial⟩
  | _ => trivial

lemma exists_course {s : Session} (h : s.document.Sturdy) {c : Call} (hc : c.Releases free) :
    (c.perform s).state.document.Sturdy ∧ ∃ moves, Course s.document moves (c.perform s).state.document ∧
      ∀ move ∈ moves, move.ReleasesOnly free := by
  have hstart : Held (Led s.document (Move.ReleasesOnly free)) s := ⟨[], ⟨h, .refl⟩, by simp⟩
  obtain ⟨moves, halong, hmoves⟩ := ((led_rule s.document free).each c hc).state hstart
  exact ⟨halong.toSturdy, moves, halong.course, hmoves⟩

end Call

namespace Document

open AnchorTable (get_eq_ok get_of_slot)

variable {t : Text} {options : DocumentOptions} {doc : Document}

lemma Reachable.sturdy (h : Reachable t options doc) : doc.Sturdy := by
  induction h with
  | start hstart =>
    refine ⟨(atRest_ofText hstart).toCoherent, ?_⟩
    obtain ⟨bus, -, hok⟩ := Option.bind_eq_some_iff.mp hstart
    obtain rfl := Option.some.inj hok
    exact .empty
  | call _ call ih => exact (Call.exists_course ih call.releases_any).1
  | @unwind doc _ ih =>
    have halong : Along doc [] doc := ⟨ih, .refl⟩
    exact (inert_along.upkeep.closeSilently halong).toSturdy
  | drive _ hh ih =>
    refine ih.congr rfl (History.ofChanges_of_holds fun c hc => ?_)
    rcases hh c hc with hold | hbuilt
    · exact ih.balanced.of_holds hold
    · exact hbuilt.balanced

end Document

end EditableText
