import TgMessenger.Interop.Durability

/-!
# Corrupt queue files

A file that is no JSON is moved aside, so that it does not wedge the worker.  What is JSON is
taken as it is: a value that is no list makes every `add` raise, or every round; an item
without the fields of a report makes every round raise from then on, and so does one of which
no request can be made, such as one whose `task_id` fits into no URL.

What the HTTP client makes a request of is a parameter here, `sends`.
-/

namespace TgMessenger.Interop

section Sends

variable (sends : Call → Bool)

/-- The flush loop can read the item. -/
def WellFormed (item : Json) : Prop := (Call.ofItem item).isSome = true

/-- The flush loop can read the item, and a request can be made of it. -/
def Deliverable (item : Json) : Prop := ∃ call, Call.ofItem item = some call ∧ sends call = true

/-- A file that is not there, or is no JSON, or holds a list of reports that can be delivered. -/
def Usable : Option Content → Prop
  | none | some .undecodable => True
  | some .tooDeep => False
  | some (.json (.arr items)) => ∀ item ∈ items, Deliverable sends item
  | some (.json _) => False

/-- What can happen with this client: it raises for a report of which it makes no request; and
the factory hands out tasks whose reports can be delivered. -/
def Possible (w : World) : Event → Prop
  | .answer a => ∀ p ∈ w.worker, ∀ item ∈ p.phase.asking, ∀ call, Call.ofItem item = some call →
    sends call = false → a = .exception
  | .executed outcome => ∀ p ∈ w.worker, ∀ task, p.phase = .executing task →
    Deliverable sends (outcomeItem task outcome)
  | _ => True

/-- The state can be reached from this file. -/
def Reached (file : Option Content) (w : World) : Prop :=
  Machine.Runs World.step (Possible sends) (.init file) w

/-- The factory has taken the report, and its answer can be read; or it holds another outcome. -/
def Answer.Settles : Answer → Prop
  | .response status .other => status = 409
  | .response status _ => status < 400 ∨ status = 409
  | _ => False

/-- A worker that is left running, in front of a factory that settles every report it gets. -/
def Healthy (w : World) (e : Event) : Prop :=
  Possible sends w e ∧
    match e with
    | .crash | .cancel => False
    | .answer a => ∀ p ∈ w.worker, ∀ item ∈ p.phase.asking, ∀ call, Call.ofItem item = some call →
      sends call = true → a.Settles
    | _ => True

/-- A task is being claimed or executed. -/
def World.Works (w : World) : Prop := ∃ p, w.worker = some p ∧ p.phase.works = true

/-- What a worker makes of a file, whatever happens from then on. -/
structure Served (file : Option Content) : Prop where
  /-- It begins with the reports of the file, or with none and the file moved aside. -/
  loaded : ∀ w, (World.init file).start true = some w → ∃ items,
    w.worker = some ⟨.arr items, .stopped⟩ ∧
      (file = some (.json (.arr items)) ∨ items = [] ∧ w.file = none ∧ w.corrupt = file)
  /-- The queue in memory is a list of well-formed reports. -/
  listed : ∀ w, Reached sends file w → ∀ p ∈ w.worker, ∃ items, p.items = .arr items ∧
    ∀ item ∈ items, WellFormed item
  /-- The outcome of every executed task is added. -/
  recorded : ∀ w, Reached sends file w → w.unrecorded = []
  /-- It is never wedged: left running in front of a healthy factory, it comes to a claim. -/
  claims : ∀ w, Reached sends file w →
    Machine.Inevitably World.step (Healthy sends) World.Works w

end Sends

variable {sends : Call → Bool}

theorem Deliverable.wellFormed {item : Json} (h : Deliverable sends item) : WellFormed item := by
  obtain ⟨call, hcall, -⟩ := h
  rw [WellFormed, hcall]
  rfl

theorem wellFormed_outcomeItem (task : Json) (outcome : Except String Json) :
    WellFormed (outcomeItem task outcome) := by
  cases outcome with
  | ok result => rfl
  | error error => rfl

/-! ## Usable files -/

theorem usable_json {value : Json} (h : Usable sends (some (.json value))) :
    ∃ items, value = .arr items ∧ ∀ item ∈ items, Deliverable sends item := by
  cases value with
  | arr items => exact ⟨items, rfl, h⟩
  | null | bool | num | special | str | obj => exact h.elim

/-- File and memory hold reports that can be delivered, the factory is asked about the first of
them, and nothing went unrecorded. -/
structure Sane (sends : Call → Bool) (w : World) : Prop where
  file : Usable sends w.file
  memory : ∀ p ∈ w.worker, ∃ items, p.items = .arr items ∧
    ∀ item ∈ items, Deliverable sends item
  unrecorded : w.unrecorded = []

namespace Sane

variable {w w' : World}

theorem goTo (h : Sane sends w) {p : Worker} (hp : w.worker = some p) (phase : Phase) :
    Sane sends (w.goTo p.items phase) where
  file := h.file
  memory := by
    rintro p' ⟨⟩
    exact h.memory p hp
  unrecorded := h.unrecorded

theorem ack (h : Sane sends w) {p : Worker} (hp : w.worker = some p) (next : Json → Phase) :
    Sane sends (w.ack p.items next) := by
  obtain ⟨items, hitems, hwell⟩ := h.memory p hp
  rw [World.ack]
  split
  · rename_i item items' hpop
    rw [hitems] at hpop
    cases items with
    | nil => cases hpop
    | cons head tail =>
      obtain ⟨rfl, rfl⟩ := Prod.mk.inj (Option.some.inj hpop)
      have htail : ∀ item ∈ tail, Deliverable sends item := fun item hitem ↦
        hwell item (List.mem_cons_of_mem _ hitem)
      refine ⟨htail, ?_, h.unrecorded⟩
      rintro p' ⟨⟩
      exact ⟨tail, rfl, htail⟩
  · exact h.goTo hp .idle

theorem record (h : Sane sends w) {p : Worker} (hp : w.worker = some p) {item : Json}
    (hitem : Deliverable sends item) : Sane sends (w.record p.items item) := by
  obtain ⟨items, hitems, hwell⟩ := h.memory p hp
  have hall : ∀ item' ∈ items ++ [item], Deliverable sends item' := by
    intro item' hitem'
    rcases List.mem_append.mp hitem' with hold | hnew
    · exact hwell item' hold
    · exact List.mem_singleton.mp hnew ▸ hitem
  rw [World.record, hitems]
  refine ⟨hall, ?_, h.unrecorded⟩
  rintro p' ⟨⟩
  exact ⟨_, rfl, hall⟩

theorem start (h : Sane sends w) {movable : Bool} (hs : w.start movable = some w') :
    Sane sends w' := by
  obtain ⟨items, hload, rfl⟩ := Option.map_eq_some_iff.mp hs
  have hfile := h.file
  cases hcontent : w.file with
  | none =>
    rw [hcontent] at hload
    obtain rfl := Option.some.inj hload
    refine ⟨h.file, ?_, h.unrecorded⟩
    rintro p ⟨⟩
    exact ⟨[], rfl, fun item hitem ↦ absurd hitem List.not_mem_nil⟩
  | some content =>
    rw [hcontent] at hload hfile
    cases content with
    | undecodable =>
      obtain rfl := Option.some.inj hload
      have hmemory : ∀ p ∈ some (Worker.mk (.arr []) .stopped), ∃ items, p.items = .arr items ∧
          ∀ item ∈ items, Deliverable sends item := by
        rintro p ⟨⟩
        exact ⟨[], rfl, fun item hitem ↦ absurd hitem List.not_mem_nil⟩
      dsimp only
      split_ifs
      · exact ⟨trivial, hmemory, h.unrecorded⟩
      · exact ⟨h.file, hmemory, h.unrecorded⟩
    | tooDeep => exact hfile.elim
    | json value =>
      obtain rfl := Option.some.inj hload
      refine ⟨h.file, ?_, h.unrecorded⟩
      rintro p ⟨⟩
      exact usable_json hfile

theorem step (h : Sane sends w) {e : Event} (he : Possible sends w e)
    (hs : w.step e = some w') : Sane sends w' := by
  rcases World.step_cases hs with ⟨-, movable, -, hs⟩ | ⟨p, hp, hcase⟩
  · exact h.start hs
  · rcases hcase with rfl | ⟨phase, -, rfl⟩ | rfl | ⟨a, item, attempt, -, -, rfl⟩ |
      ⟨a, attempt, -, -, rfl⟩ | ⟨a, item, attempt, -, -, rfl⟩ | ⟨outcome, task, rfl, hphase, rfl⟩
    · exact ⟨h.file, (fun p hp ↦ nomatch hp), h.unrecorded⟩
    · exact h.goTo hp phase
    · exact h.goTo hp _
    · cases request false attempt a with
      | retry => exact h.goTo hp _
      | value body => exact h.ack hp _
      | factoryError status =>
        rw [World.replayed]
        split_ifs
        · exact h.ack hp _
        · exact h.goTo hp _
      | exception => exact h.goTo hp _
    · obtain ⟨phase, heq, -⟩ := w.claimed_cases p.items attempt (request true attempt a)
      rw [heq]
      exact h.goTo hp phase
    · cases request false attempt a with
      | retry => exact h.goTo hp _
      | value body => exact h.ack hp _
      | factoryError status => exact h.goTo hp _
      | exception => exact h.goTo hp _
    · exact h.record hp (he p hp task hphase)

end Sane

/-! ## Coming to a claim -/

/-- A report of which a request is made is settled by a healthy factory. -/
theorem Healthy.settles {w : World} {p : Worker} (hp : w.worker = some p) {item : Json}
    (hitem : p.phase.asking = some item) (hdeliver : Deliverable sends item) {a : Answer}
    (h : Healthy sends w (.answer a)) : a.Settles := by
  obtain ⟨call, hcall, hsends⟩ := hdeliver
  exact h.2 p hp item hitem call hcall hsends

/-- An answer that settles a report is no error but a conflict. -/
theorem request_of_settles {a : Answer} (h : a.Settles) (n : ℕ) :
    (∃ body, request false n a = .value body) ∨ request false n a = .factoryError (some 409) := by
  cases a with
  | response status body =>
    by_cases hconflict : status = 409
    · subst hconflict
      exact .inr rfl
    · have hread : status < 400 ∧ body ≠ .other := by
        cases body with
        | empty => exact ⟨h.resolve_right hconflict, Body.noConfusion⟩
        | json value => exact ⟨h.resolve_right hconflict, Body.noConfusion⟩
        | other => exact absurd h hconflict
      left
      rw [request, handleResponse.eq_def, if_neg fun h ↦ Bool.false_ne_true h.1, if_neg (by omega),
        if_neg (by omega)]
      cases body with
      | empty => exact ⟨_, rfl⟩
      | json value => exact ⟨_, rfl⟩
      | other => exact absurd rfl hread.2
  | notSent | ambiguous | exception => exact h.elim

/-- A success settles every report. -/
theorem healthy_success (w : World) (hsends : ∀ p ∈ w.worker, ∀ item ∈ p.phase.asking,
    Deliverable sends item) : Healthy sends w (.answer (.response 200 .empty)) := by
  refine ⟨fun p hp item hitem call hcall hno ↦ ?_, fun _ _ _ _ _ _ _ ↦ .inl (by decide)⟩
  obtain ⟨call', hcall', hyes⟩ := hsends p hp item hitem
  obtain rfl := Option.some.inj (hcall.symm.trans hcall')
  cases hno.symm.trans hyes

section Claims

variable {w : World} {items : List Json}

/-- The first report is replayed, and the queue goes on to the next. -/
theorem step_replaying {item : Json} {n : ℕ} (hdeliver : Deliverable sends item)
    (hw : w.worker = some ⟨.arr (item :: items), .replaying item n⟩) {e : Event} {w' : World}
    (he : Healthy sends w e) (hs : w.step e = some w') :
    w'.worker = some ⟨.arr items, nextRequest (.arr items)⟩ := by
  unfold World.step at hs
  rw [hw] at hs
  cases e with
  | crash | cancel => exact he.2.elim
  | answer a =>
    obtain rfl := Option.some.inj hs
    rcases request_of_settles (he.settles hw rfl hdeliver) n with ⟨body, hbody⟩ | hconflict
    · rw [hbody]
      rfl
    · rw [hconflict]
      rfl
  | start | run | round | executed => cases hs

/-- The report of the last task is settled, or stays in the queue. -/
theorem step_reporting {item : Json} {n : ℕ} (hdeliver : Deliverable sends item)
    (hw : w.worker = some ⟨.arr (item :: items), .reporting item n⟩) {e : Event} {w' : World}
    (he : Healthy sends w e) (hs : w.step e = some w') :
    w'.worker = some ⟨.arr items, .idle⟩ ∨ w'.worker = some ⟨.arr (item :: items), .idle⟩ := by
  unfold World.step at hs
  rw [hw] at hs
  cases e with
  | crash | cancel => exact he.2.elim
  | answer a =>
    obtain rfl := Option.some.inj hs
    rcases request_of_settles (he.settles hw rfl hdeliver) n with ⟨body, hbody⟩ | hconflict
    · rw [hbody]
      exact .inl rfl
    · rw [hconflict]
      exact .inr rfl
  | start | run | round | executed => cases hs

theorem nextRequest_cons {item : Json} (items : List Json) (h : Deliverable sends item) :
    nextRequest (.arr (item :: items)) = .replaying item 1 := by
  rw [nextRequest]
  exact if_pos h.wellFormed

/-- The healthy factory takes the report it is asked about. -/
theorem exists_answer {item : Json} {p : Worker} (hw : w.worker = some p)
    (hitem : p.phase.asking = some item) (hdeliver : Deliverable sends item) :
    ∃ e w', Healthy sends w e ∧ w.step e = some w' := by
  have hhealthy : Healthy sends w (.answer (.response 200 .empty)) := by
    refine healthy_success w fun p' hp' item' hitem' ↦ ?_
    obtain rfl := Option.some.inj (hw.symm.trans hp')
    obtain rfl := Option.some.inj (hitem.symm.trans hitem')
    exact hdeliver
  have hstep : ∃ w', w.step (.answer (.response 200 .empty)) = some w' := by
    obtain ⟨items, phase⟩ := p
    unfold World.step
    rw [hw]
    cases phase with
    | replaying | reporting => exact ⟨_, rfl⟩
    | stopped | idle | claiming | executing => cases hitem
  obtain ⟨w', hw'⟩ := hstep
  exact ⟨_, w', hhealthy, hw'⟩

/-- The reports are replayed one after the other, and then a task is claimed. -/
theorem inevitably_of_replaying {item : Json} {n : ℕ}
    (hall : ∀ item' ∈ item :: items, Deliverable sends item')
    (hw : w.worker = some ⟨.arr (item :: items), .replaying item n⟩) :
    Machine.Inevitably World.step (Healthy sends) World.Works w := by
  induction items generalizing item w n with
  | nil =>
    have hdeliver := hall item List.mem_cons_self
    refine .later (exists_answer hw rfl hdeliver) fun e w' he hs ↦ .now ?_
    exact ⟨_, step_replaying hdeliver hw he hs, rfl⟩
  | cons next items ih =>
    have hdeliver := hall item List.mem_cons_self
    refine .later (exists_answer hw rfl hdeliver) fun e w' he hs ↦ ?_
    have hrest := fun item' hitem' ↦ hall item' (List.mem_cons_of_mem _ hitem')
    have hw' := step_replaying hdeliver hw he hs
    rw [nextRequest_cons _ (hrest next List.mem_cons_self)] at hw'
    exact ih hrest hw'

theorem inevitably_of_idle (hall : ∀ item ∈ items, Deliverable sends item)
    (hw : w.worker = some ⟨.arr items, .idle⟩) :
    Machine.Inevitably World.step (Healthy sends) World.Works w := by
  have hround : w.step .round = some (w.goTo (.arr items) (nextRequest (.arr items))) := by
    unfold World.step
    rw [hw]
  refine .later ⟨.round, _, ⟨trivial, trivial⟩, hround⟩ fun e w' he hs ↦ ?_
  have hw' : w' = w.goTo (.arr items) (nextRequest (.arr items)) := by
    unfold World.step at hs
    rw [hw] at hs
    cases e with
    | crash | cancel => exact he.2.elim
    | round => exact (Option.some.inj hs).symm
    | start | run | answer | executed => cases hs
  subst hw'
  cases items with
  | nil => exact .now ⟨_, rfl, rfl⟩
  | cons item items =>
    have hnext := nextRequest_cons items (hall item List.mem_cons_self)
    exact inevitably_of_replaying hall (congrArg (fun phase ↦ some (Worker.mk _ phase)) hnext)

theorem inevitably_of_stopped (hall : ∀ item ∈ items, Deliverable sends item)
    (hw : w.worker = some ⟨.arr items, .stopped⟩) :
    Machine.Inevitably World.step (Healthy sends) World.Works w := by
  have hrun : w.step .run = some (w.goTo (.arr items) .idle) := by
    unfold World.step
    rw [hw]
  refine .later ⟨.run, _, ⟨trivial, trivial⟩, hrun⟩ fun e w' he hs ↦ ?_
  have hw' : w' = w.goTo (.arr items) .idle := by
    unfold World.step at hs
    rw [hw] at hs
    cases e with
    | crash | cancel => exact he.2.elim
    | run => exact (Option.some.inj hs).symm
    | start | round | answer | executed => cases hs
  subst hw'
  exact inevitably_of_idle hall rfl

end Claims

/-- From wherever it is, a worker comes to a claim. -/
theorem Sane.inevitably {w : World} {before : List Json} (h : Sane sends w)
    (hdurable : Durable before w) :
    Machine.Inevitably World.step (Healthy sends) World.Works w := by
  cases hworker : w.worker with
  | none =>
    have hstep (movable : Bool) : w.step (.start movable) = w.start movable := by
      unfold World.step
      rw [hworker]
    have hload : ∃ items, ReportQueue.load w.file = some items := by
      have hfile := h.file
      cases hcontent : w.file with
      | none => exact ⟨_, rfl⟩
      | some content =>
        rw [hcontent] at hfile
        cases content with
        | undecodable => exact ⟨_, rfl⟩
        | tooDeep => exact hfile.elim
        | json value => exact ⟨_, rfl⟩
    obtain ⟨items, hload⟩ := hload
    have hstart : ∃ w', w.start true = some w' := by
      rw [World.start, hload]
      exact ⟨_, rfl⟩
    obtain ⟨w₁, hw₁⟩ := hstart
    refine .later ⟨.start true, w₁, ⟨trivial, trivial⟩, (hstep true).trans hw₁⟩
      fun e w' he hs ↦ ?_
    rcases World.step_cases hs with ⟨-, movable, rfl, hs'⟩ | ⟨p, hp, -⟩
    · obtain ⟨value, -, hworker', -⟩ := World.start_cases hs'
      obtain ⟨items, hitems, hall⟩ := (h.start hs').memory _ hworker'
      dsimp only at hitems
      subst hitems
      exact inevitably_of_stopped hall hworker'
    · exact nomatch hworker.symm.trans hp
  | some p =>
    obtain ⟨value, phase⟩ := p
    obtain ⟨items, hitems, hall⟩ := h.memory _ hworker
    obtain ⟨hmemory, hasking, -⟩ := hdurable.memory _ hworker
    dsimp only at hitems
    subst hitems
    cases phase with
    | stopped => exact inevitably_of_stopped hall hworker
    | idle => exact inevitably_of_idle hall hworker
    | claiming n => exact .now ⟨_, hworker, rfl⟩
    | executing task => exact .now ⟨_, hworker, rfl⟩
    | replaying item n =>
      obtain ⟨rest, rfl⟩ := List.head?_eq_some_iff.mp (hasking item rfl)
      exact inevitably_of_replaying hall hworker
    | reporting item n =>
      obtain ⟨rest, rfl⟩ := List.head?_eq_some_iff.mp (hasking item rfl)
      have hdeliver := hall item List.mem_cons_self
      refine .later (exists_answer hworker rfl hdeliver) fun e w' he hs ↦ ?_
      rcases step_reporting hdeliver hworker he hs with hw' | hw'
      · exact inevitably_of_idle (fun item' hitem' ↦ hall item' (List.mem_cons_of_mem _ hitem')) hw'
      · exact inevitably_of_idle hall hw'

theorem served_of_usable {file : Option Content} (h : Usable sends file) : Served sends file := by
  have hsane {w : World} (hrun : Reached sends file w) : Sane sends w := by
    refine Machine.Runs.preserves (fun _ _ _ hw he hs ↦ hw.step he hs) hrun ⟨h, ?_, rfl⟩
    exact fun p hp ↦ nomatch hp
  have hdurable {w : World} (hrun : Reached sends file w) :
      Durable (World.init file).reports w := by
    refine Machine.Runs.preserves (fun _ _ _ hw _ hs ↦ hw.step hs) hrun ⟨?_, List.append_nil _⟩
    exact fun p hp ↦ nomatch hp
  refine ⟨?_, fun w hrun p hp ↦ ?_, fun w hrun ↦ (hsane hrun).unrecorded,
    fun w hrun ↦ (hsane hrun).inevitably (hdurable hrun)⟩
  · intro w hs
    cases file with
    | none =>
      obtain rfl := Option.some.inj hs
      exact ⟨[], rfl, .inr ⟨rfl, rfl, rfl⟩⟩
    | some content =>
      cases content with
      | undecodable =>
        obtain rfl := Option.some.inj hs
        exact ⟨[], rfl, .inr ⟨rfl, rfl, rfl⟩⟩
      | tooDeep => exact h.elim
      | json value =>
        obtain ⟨items, rfl, -⟩ := usable_json h
        obtain rfl := Option.some.inj hs
        exact ⟨items, rfl, .inl rfl⟩
  · obtain ⟨items, hitems, hall⟩ := (hsane hrun).memory p hp
    exact ⟨items, hitems, fun item hitem ↦ (hall item hitem).wellFormed⟩

/-! ## Other files -/

/-- Only a report that can be read is asked about. -/
def Readable (w : World) : Prop :=
  ∀ p ∈ w.worker, ∀ item ∈ p.phase.asking, WellFormed item

theorem readable_of_asking {w : World} {p : Worker} (hp : w.worker = some p)
    (h : ∀ item ∈ p.phase.asking, WellFormed item) : Readable w := by
  intro p' hp'
  obtain rfl := Option.some.inj (hp.symm.trans hp')
  exact h

theorem wellFormed_nextRequest (items : Json) :
    ∀ item ∈ (nextRequest items).asking, WellFormed item := by
  rcases nextRequest_cases items with h | ⟨item, h, -, hcall⟩ | ⟨h, -⟩
  · rw [h]
    exact fun item hitem ↦ nomatch hitem
  · rw [h]
    rintro item' ⟨⟩
    exact hcall
  · rw [h]
    exact fun item hitem ↦ nomatch hitem

theorem Readable.ack (w : World) (items : Json) {next : Json → Phase}
    (hnext : ∀ items, ∀ item ∈ (next items).asking, WellFormed item) :
    Readable (w.ack items next) := by
  rw [World.ack]
  split
  · exact readable_of_asking rfl (hnext _)
  · exact readable_of_asking rfl fun item hitem ↦ by cases hitem

theorem Readable.step {w w' : World} (h : Readable w) {e : Event} (hs : w.step e = some w') :
    Readable w' := by
  have hrest {items : Json} {phase : Phase} (hphase : phase = .stopped ∨ phase = .idle) :
      Readable (w.goTo items phase) := by
    refine readable_of_asking rfl ?_
    rcases hphase with rfl | rfl
    · exact fun item hitem ↦ by cases hitem
    · exact fun item hitem ↦ by cases hitem
  rcases World.step_cases hs with ⟨-, movable, -, hs⟩ | ⟨p, hp, hcase⟩
  · obtain ⟨items, -, hworker, -⟩ := World.start_cases hs
    exact readable_of_asking hworker fun item hitem ↦ by cases hitem
  · have hasking := h p hp
    rcases hcase with rfl | ⟨phase, hphase, rfl⟩ | rfl | ⟨a, item, attempt, -, hphase, rfl⟩ |
      ⟨a, attempt, -, -, rfl⟩ | ⟨a, item, attempt, -, hphase, rfl⟩ | ⟨outcome, task, -, -, rfl⟩
    · exact fun p hp ↦ by cases hp
    · exact hrest hphase
    · exact readable_of_asking rfl (wellFormed_nextRequest _)
    · rw [hphase] at hasking
      cases request false attempt a with
      | retry => exact readable_of_asking rfl hasking
      | value body => exact Readable.ack w _ wellFormed_nextRequest
      | factoryError status =>
        rw [World.replayed]
        split_ifs
        · exact Readable.ack w _ wellFormed_nextRequest
        · exact hrest (afterFactoryError_cases status)
      | exception => exact hrest (.inr rfl)
    · obtain ⟨phase, heq, hnone⟩ := w.claimed_cases p.items attempt (request true attempt a)
      rw [heq]
      refine readable_of_asking rfl ?_
      rw [hnone]
      exact fun item hitem ↦ by cases hitem
    · rw [hphase] at hasking
      cases request false attempt a with
      | retry => exact readable_of_asking rfl hasking
      | value body => exact Readable.ack w _ fun _ item hitem ↦ by cases hitem
      | factoryError status => exact hrest (.inr rfl)
      | exception => exact hrest (.inr rfl)
    · rw [World.record]
      split
      · refine readable_of_asking rfl ?_
        rintro item ⟨⟩
        exact wellFormed_outcomeItem task outcome
      · exact readable_of_asking rfl fun item hitem ↦ by cases hitem

/-- An item that cannot be delivered stays in the file for ever, and no task is claimed. -/
theorem never_works_of_undeliverable (file : Option Content) (item : Json)
    (hitem : item ∈ (World.init file).reports) (hbad : ¬Deliverable sends item) {w : World}
    (h : Reached sends file w) : ¬w.Works := by
  have hstays : Durable (World.init file).reports w ∧ Readable w ∧ item ∈ w.reports := by
    have hinit : Durable (World.init file).reports (.init file) :=
      ⟨(fun p hp ↦ nomatch hp), List.append_nil _⟩
    refine Machine.Runs.preserves
      (I := fun w ↦ Durable (World.init file).reports w ∧ Readable w ∧ item ∈ w.reports)
      ?_ h ⟨hinit, (fun p hp ↦ nomatch hp), hitem⟩
    rintro w w' e ⟨hdurable, hreadable, hmem⟩ he hs
    refine ⟨hdurable.step hs, hreadable.step hs, ?_⟩
    rcases hdurable.keeps hs with hsame | ⟨outcome, new, -, hnew, -⟩ |
      ⟨a, taken, rfl, hasking, hreports, htaken⟩
    · exact hsame ▸ hmem
    · rw [hnew]
      exact List.mem_append_left _ hmem
    · rw [hreports] at hmem
      refine (List.mem_cons.mp hmem).resolve_left ?_
      rintro rfl
      obtain ⟨p, hp, hphase⟩ := Option.bind_eq_some_iff.mp hasking
      -- The item can be read, so no request is made of it, and nobody answers.
      obtain ⟨call, hcall⟩ := Option.isSome_iff_exists.mp (hreadable p hp _ hphase)
      have hno : sends call = false := by
        by_contra hyes
        exact hbad ⟨call, hcall, eq_true_of_ne_false hyes⟩
      obtain rfl := he p hp _ hphase call hcall hno
      exact htaken.elim id And.left
  rintro ⟨p, hp, hworks⟩
  obtain ⟨hdurable, -, hmem⟩ := hstays
  obtain ⟨hmemory, -, hfalse⟩ := hdurable.memory p hp
  have htruthy := Json.truthy_of_items (hmemory ▸ List.ne_nil_of_mem hmem)
  exact nomatch (hfalse hworks).symm.trans htruthy

/-- No worker is there when reading the file raises. -/
theorem no_worker_of_tooDeep {w : World} (h : Reached sends (some .tooDeep) w) :
    w.worker = none := by
  have hstays : w.file = some .tooDeep ∧ w.worker = none := by
    refine Machine.Runs.preserves (I := fun w ↦ w.file = some .tooDeep ∧ w.worker = none)
      ?_ h ⟨rfl, rfl⟩
    rintro w w' e ⟨hfile, hnone⟩ - hs
    rcases World.step_cases hs with ⟨-, movable, -, hs⟩ | ⟨p, hp, -⟩
    · rw [World.start, hfile] at hs
      cases hs
    · exact nomatch hnone.symm.trans hp
  exact hstays.2

/-- Exactly the usable files are served. -/
theorem served_iff_usable (sends : Call → Bool) (file : Option Content) :
    Served sends file ↔ Usable sends file := by
  refine Iff.intro (fun h ↦ ?_) served_of_usable
  obtain ⟨w, hrun, hworks⟩ := (h.claims _ .refl).exists_run
  have hreached : Reached sends file w := hrun.mono fun _ _ he ↦ he.1
  cases file with
  | none => exact trivial
  | some content =>
    cases content with
    | undecodable => exact trivial
    | tooDeep =>
      obtain ⟨p, hp, -⟩ := hworks
      exact nomatch (no_worker_of_tooDeep hreached).symm.trans hp
    | json value =>
      obtain ⟨items, hworker, -⟩ := h.loaded _ rfl
      obtain ⟨rfl, -⟩ := Worker.mk.inj (Option.some.inj hworker)
      intro item hitem
      by_contra hbad
      exact never_works_of_undeliverable (some (.json (.arr items))) _ hitem hbad hreached
        hworks

/-- With the file `null` the outcome of an executed task is lost; with the file `[{}]` no
worker ever claims a task again. -/
theorem corrupt_files_not_served :
    (∃ w, Reached (fun _ ↦ true) (some (.json .null)) w ∧
      w.unrecorded = [outcomeItem (.obj []) (.ok .null)]) ∧
    ∀ w, Reached (fun _ ↦ true) (some (.json (.arr [.obj []]))) w → ¬w.Works := by
  constructor
  · have hdeliver : Deliverable (fun _ ↦ true) (outcomeItem (.obj []) (.ok .null)) := ⟨_, rfl, rfl⟩
    set w₀ := World.init (some (.json .null)) with hw₀
    have hquiet {phase : Phase} (hphase : phase.asking = none) (a : Answer) :
        Possible (fun _ ↦ true) (w₀.goTo .null phase) (.answer a) := by
      rintro p ⟨⟩ item hitem
      cases hphase.symm.trans hitem
    refine ⟨w₀.record .null (outcomeItem (.obj []) (.ok .null)), ?_, rfl⟩
    refine .head ⟨.start true, trivial, rfl⟩ (.head ⟨.run, trivial, rfl⟩
      (.head ⟨.round, trivial, rfl⟩
        (.head ⟨.answer (.response 200 (.json (.obj []))), hquiet rfl _, rfl⟩
          (.single ⟨.executed (.ok .null), ?_, rfl⟩))))
    rintro p ⟨⟩ task ⟨⟩
    exact hdeliver
  · exact fun w ↦ never_works_of_undeliverable _ (.obj []) List.mem_cons_self
      fun ⟨_, hcall, _⟩ ↦ nomatch hcall

end TgMessenger.Interop
