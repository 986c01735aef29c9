import TgMessenger.Interop.Worker

/-!
# The durability of reports

The list in memory and the list in the file agree between any two steps, so a crash loses
nothing that was added.  The report the factory is asked to take is the first in the file,
and the one that is taken out is the one that was answered.
-/

namespace TgMessenger.Interop

/-! ## The pieces -/

/-- What a round begins with: the first report, or, with nothing in the queue, a claim. -/
theorem nextRequest_cases (items : Json) :
    nextRequest items = .idle ∨
    (∃ item, nextRequest items = .replaying item 1 ∧ items.items.head? = some item ∧
      (Call.ofItem item).isSome = true) ∨
    nextRequest items = .claiming 1 ∧ items.truthy = false := by
  rw [nextRequest]
  split_ifs with htruthy
  · split
    · rename_i item hfirst
      split_ifs with hcall
      · refine .inr (.inl ⟨item, rfl, ?_, hcall⟩)
        cases items with
        | arr l => exact hfirst
        | str text =>
          obtain ⟨c, -, rfl⟩ := Option.map_eq_some_iff.mp hfirst
          cases hcall
        | null | bool | num | special | obj => cases hfirst
      · exact .inl rfl
    · exact .inl rfl
  · exact .inr (.inr ⟨rfl, eq_false_of_ne_true htruthy⟩)

theorem ReportQueue.add_eq_some {item items items' : Json}
    (h : ReportQueue.add item items = some items') : items'.items = items.items ++ [item] := by
  cases items with
  | arr l =>
    obtain rfl := Option.some.inj h
    rfl
  | null | bool | num | special | str | obj => cases h

theorem ReportQueue.pop_eq_some {item items items' : Json}
    (h : ReportQueue.pop items = some (item, items')) : items.items = item :: items'.items := by
  cases items with
  | arr l =>
    cases l with
    | nil => cases h
    | cons head l =>
      obtain ⟨rfl, rfl⟩ := Prod.mk.inj (Option.some.inj h)
      rfl
  | null | bool | num | special | str | obj => cases h

/-- A `FactoryError` ends the round. -/
theorem afterFactoryError_cases (status : Option ℕ) :
    afterFactoryError status = .stopped ∨ afterFactoryError status = .idle := by
  cases status with
  | none => exact .inr rfl
  | some status =>
    rw [afterFactoryError]
    split_ifs
    · exact .inl rfl
    · exact .inr rfl

/-- What an event can be, with the process that is there. -/
theorem World.step_cases {w w' : World} {e : Event} (hs : w.step e = some w') :
    (w.worker = none ∧ ∃ movable, e = .start movable ∧ w.start movable = some w') ∨
    ∃ p, w.worker = some p ∧
      (w' = { w with worker := none } ∨
      (∃ phase, (phase = .stopped ∨ phase = .idle) ∧ w' = w.goTo p.items phase) ∨
      w' = w.goTo p.items (nextRequest p.items) ∨
      (∃ a item attempt, e = .answer a ∧ p.phase = .replaying item attempt ∧
        w' = w.replayed p.items item attempt (request false attempt a)) ∨
      (∃ a attempt, e = .answer a ∧ p.phase = .claiming attempt ∧
        w' = w.claimed p.items attempt (request true attempt a)) ∨
      (∃ a item attempt, e = .answer a ∧ p.phase = .reporting item attempt ∧
        w' = w.reported p.items item attempt (request false attempt a)) ∨
      ∃ outcome task, e = .executed outcome ∧ p.phase = .executing task ∧
        w' = w.record p.items (outcomeItem task outcome)) := by
  unfold World.step at hs
  split at hs
  · rename_i hnone
    refine .inl ⟨hnone, ?_⟩
    split at hs
    · exact ⟨_, rfl, hs⟩
    · cases hs
  · rename_i items phase hsome
    refine .inr ⟨_, hsome, ?_⟩
    split at hs
    · exact .inl (Option.some.inj hs).symm
    · exact .inr (.inl ⟨_, .inl rfl, (Option.some.inj hs).symm⟩)
    · exact .inr (.inl ⟨_, .inr rfl, (Option.some.inj hs).symm⟩)
    · exact .inr (.inr (.inl (Option.some.inj hs).symm))
    · exact .inr (.inr (.inr (.inl ⟨_, _, _, rfl, rfl, (Option.some.inj hs).symm⟩)))
    · exact .inr (.inr (.inr (.inr (.inl ⟨_, _, rfl, rfl, (Option.some.inj hs).symm⟩))))
    · exact .inr (.inr (.inr (.inr (.inr (.inl ⟨_, _, _, rfl, rfl, (Option.some.inj hs).symm⟩)))))
    · exact .inr (.inr (.inr (.inr (.inr (.inr ⟨_, _, rfl, rfl, (Option.some.inj hs).symm⟩)))))
    · cases hs

/-- A claim goes on to no report. -/
theorem World.claimed_cases (w : World) (items : Json) (attempt : ℕ) (r : Reply) :
    ∃ phase, w.claimed items attempt r = w.goTo items phase ∧ phase.asking = none := by
  cases r with
  | retry => exact ⟨_, rfl, rfl⟩
  | value body =>
    cases body with
    | none => exact ⟨_, rfl, rfl⟩
    | some value => cases value <;> exact ⟨_, rfl, rfl⟩
  | factoryError status =>
    refine ⟨_, rfl, ?_⟩
    rcases afterFactoryError_cases status with h | h <;> rw [h] <;> rfl
  | exception => exact ⟨_, rfl, rfl⟩

/-- A worker that is started has in memory what is in the file. -/
theorem World.start_cases {w w' : World} {movable : Bool} (hs : w.start movable = some w') :
    ∃ items, ReportQueue.load w.file = some items ∧ w'.worker = some ⟨items, .stopped⟩ ∧
      items.items = w.reports ∧ w'.reports = w.reports ∧ w'.added = w.added ∧
      w'.removed = w.removed ∧ w'.unrecorded = w.unrecorded := by
  obtain ⟨items, hload, rfl⟩ := Option.map_eq_some_iff.mp hs
  refine ⟨items, hload, ?_⟩
  cases hfile : w.file with
  | none =>
    rw [hfile] at hload
    obtain rfl := Option.some.inj hload
    refine ⟨rfl, ?_, rfl, rfl, rfl, rfl⟩
    rw [World.reports, hfile]
    rfl
  | some content =>
    rw [hfile] at hload
    cases content with
    | undecodable =>
      obtain rfl := Option.some.inj hload
      have hreports : w.reports = [] := by rw [World.reports, hfile]
      dsimp only
      split_ifs
      · exact ⟨rfl, hreports.symm, hreports.symm, rfl, rfl, rfl⟩
      · exact ⟨rfl, hreports.symm, rfl, rfl, rfl, rfl⟩
    | tooDeep => cases hload
    | json value =>
      obtain rfl := Option.some.inj hload
      refine ⟨rfl, ?_, rfl, rfl, rfl, rfl⟩
      rw [World.reports, hfile]

/-! ## The invariant -/

/-- The phase is about the first report, or about a new task when there is none. -/
def Phase.Fits (items : Json) (phase : Phase) : Prop :=
  (∀ item ∈ phase.asking, items.items.head? = some item) ∧
    (phase.works = true → items.truthy = false)

/-- The memory agrees with the file, and nothing was lost or changed its place. -/
structure Durable (before : List Json) (w : World) : Prop where
  memory : ∀ p ∈ w.worker, p.items.items = w.reports ∧ p.phase.Fits p.items
  order : before ++ w.added = w.removed ++ w.reports

theorem Phase.fits_of_rest {items : Json} {phase : Phase}
    (h : phase = .stopped ∨ phase = .idle) : phase.Fits items := by
  rcases h with rfl | rfl
  · exact ⟨(fun item hitem ↦ nomatch hitem), fun h ↦ nomatch h⟩
  · exact ⟨(fun item hitem ↦ nomatch hitem), fun h ↦ nomatch h⟩

theorem fits_nextRequest (items : Json) : (nextRequest items).Fits items := by
  rcases nextRequest_cases items with h | ⟨item, h, hhead, -⟩ | ⟨h, hfalse⟩
  · exact Phase.fits_of_rest (.inr h)
  · rw [h]
    refine ⟨?_, fun h ↦ nomatch h⟩
    rintro item' ⟨⟩
    exact hhead
  · rw [h]
    exact ⟨(fun item hitem ↦ nomatch hitem), fun _ ↦ hfalse⟩

namespace Durable

variable {before : List Json} {w w' : World} {items : Json} {phase : Phase}

theorem goTo (h : Durable before w) {p : Worker} (hp : w.worker = some p)
    (hfits : phase.Fits p.items) : Durable before (w.goTo p.items phase) where
  memory := by
    rintro p' ⟨⟩
    exact ⟨(h.memory p hp).1, hfits⟩
  order := h.order

/-- The first report is taken out. -/
theorem ack (h : Durable before w) {p : Worker} (hp : w.worker = some p) {next : Json → Phase}
    (hnext : ∀ items, (next items).Fits items) : Durable before (w.ack p.items next) := by
  rw [World.ack]
  split
  · rename_i item items hpop
    have hreports := (h.memory p hp).1.symm.trans (ReportQueue.pop_eq_some hpop)
    refine ⟨?_, ?_⟩
    · rintro p' ⟨⟩
      exact ⟨rfl, hnext items⟩
    · refine h.order.trans ?_
      rw [hreports]
      exact (List.append_assoc w.removed [item] items.items).symm
  · exact h.goTo hp (Phase.fits_of_rest (.inr rfl))

/-- A report is put in, when there is none. -/
theorem record (h : Durable before w) {p : Worker} (hp : w.worker = some p)
    (hfalse : p.items.truthy = false) (item : Json) :
    Durable before (w.record p.items item) := by
  rw [World.record]
  split
  · rename_i items hadd
    have hempty : p.items.items = [] := by
      by_contra hne
      exact nomatch hfalse.symm.trans (Json.truthy_of_items hne)
    have hitems := ReportQueue.add_eq_some hadd
    have hreports := (h.memory p hp).1
    rw [hempty] at hitems hreports
    refine ⟨?_, ?_⟩
    · rintro p' ⟨⟩
      refine ⟨rfl, ?_, fun h ↦ nomatch h⟩
      rintro item' ⟨⟩
      rw [hitems]
      rfl
    · have horder := h.order
      rw [← hreports, List.append_nil] at horder
      show before ++ (w.added ++ [item]) = w.removed ++ items.items
      rw [hitems, ← List.append_assoc, horder]
      rfl
  · refine ⟨?_, h.order⟩
    rintro p' ⟨⟩
    exact ⟨(h.memory p hp).1, Phase.fits_of_rest (.inr rfl)⟩

theorem start (h : Durable before w) {movable : Bool} (hs : w.start movable = some w') :
    Durable before w' := by
  obtain ⟨items, -, hworker, hitems, hreports, hadded, hremoved, -⟩ := World.start_cases hs
  refine ⟨?_, ?_⟩
  · intro p hp
    obtain rfl := Option.some.inj (hworker.symm.trans hp)
    exact ⟨hitems.trans hreports.symm, Phase.fits_of_rest (.inl rfl)⟩
  · rw [hadded, hremoved, hreports]
    exact h.order

theorem step (h : Durable before w) {e : Event} (hs : w.step e = some w') : Durable before w' := by
  rcases World.step_cases hs with ⟨-, movable, -, hs⟩ | ⟨p, hp, hcase⟩
  · exact h.start hs
  · obtain ⟨hasking, hworks⟩ := (h.memory p hp).2
    rcases hcase with rfl | ⟨phase, hrest, rfl⟩ | rfl | ⟨a, item, attempt, -, hphase, rfl⟩ |
      ⟨a, attempt, -, hphase, rfl⟩ | ⟨a, item, attempt, -, hphase, rfl⟩ |
      ⟨outcome, task, -, hphase, rfl⟩
    · exact ⟨(fun p hp ↦ nomatch hp), h.order⟩
    · exact h.goTo hp (Phase.fits_of_rest hrest)
    · exact h.goTo hp (fits_nextRequest _)
    · rw [hphase] at hasking
      cases request false attempt a with
      | retry => exact h.goTo hp ⟨hasking, fun h ↦ nomatch h⟩
      | value body => exact h.ack hp fits_nextRequest
      | factoryError status =>
        rw [World.replayed]
        split_ifs
        · exact h.ack hp fits_nextRequest
        · exact h.goTo hp (Phase.fits_of_rest (afterFactoryError_cases status))
      | exception => exact h.goTo hp (Phase.fits_of_rest (.inr rfl))
    · rw [hphase] at hworks
      obtain ⟨phase, heq, hnone⟩ := w.claimed_cases p.items attempt (request true attempt a)
      rw [heq]
      refine h.goTo hp ⟨?_, fun _ ↦ hworks rfl⟩
      rw [hnone]
      exact fun item hitem ↦ nomatch hitem
    · rw [hphase] at hasking
      cases request false attempt a with
      | retry => exact h.goTo hp ⟨hasking, fun h ↦ nomatch h⟩
      | value body => exact h.ack hp fun _ ↦ Phase.fits_of_rest (.inr rfl)
      | factoryError status => exact h.goTo hp (Phase.fits_of_rest (.inr rfl))
      | exception => exact h.goTo hp (Phase.fits_of_rest (.inr rfl))
    · rw [hphase] at hworks
      exact h.record hp (hworks rfl) _

end Durable

/-! ## The result -/

/-- How an event changes the reports in the file: not at all, or a new one is put in, of
which the factory is told then, or the first is taken out by the answer of the factory to it:
that it has it, or, to a replay, that it holds another outcome. -/
def World.Keeps (w : World) (e : Event) (w' : World) : Prop :=
  w'.reports = w.reports ∨
  (∃ outcome item, e = .executed outcome ∧ w'.reports = w.reports ++ [item] ∧
    w'.worker.bind (·.phase.asking) = some item) ∨
  ∃ a item, e = .answer a ∧ w.worker.bind (·.phase.asking) = some item ∧
    w.reports = item :: w'.reports ∧
    (a.acknowledges ∨ a.conflicts ∧ ∃ p n, w.worker = some p ∧ p.phase = .replaying item n)

theorem Durable.keeps {before : List Json} {w w' : World} (h : Durable before w) {e : Event}
    (hs : w.step e = some w') : w.Keeps e w' := by
  rcases World.step_cases hs with ⟨-, movable, -, hs⟩ | ⟨p, hp, hcase⟩
  · obtain ⟨items, -, -, -, hreports, -⟩ := World.start_cases hs
    exact .inl hreports
  · obtain ⟨hmemory, hasking, hworks⟩ := h.memory p hp
    -- The report that is taken out is the one the factory was asked to take.
    have hack {item : Json} {a : Answer} {next : Json → Phase} (hitem : p.phase.asking = some item)
        (ha : a.acknowledges ∨
          a.conflicts ∧ ∃ p n, w.worker = some p ∧ p.phase = .replaying item n) :
        w.Keeps (.answer a) (w.ack p.items next) := by
      rw [World.ack]
      split
      · rename_i item' items hpop
        have hreports := hmemory.symm.trans (ReportQueue.pop_eq_some hpop)
        have hhead := hasking item hitem
        rw [hmemory, hreports] at hhead
        obtain rfl := Option.some.inj hhead
        refine .inr (.inr ⟨a, item', rfl, ?_, hreports, ha⟩)
        rw [hp]
        exact hitem
      · exact .inl rfl
    rcases hcase with rfl | ⟨phase, -, rfl⟩ | rfl | ⟨a, item, attempt, rfl, hphase, rfl⟩ |
      ⟨a, attempt, -, hphase, rfl⟩ | ⟨a, item, attempt, rfl, hphase, rfl⟩ |
      ⟨outcome, task, rfl, hphase, rfl⟩
    · exact .inl rfl
    · exact .inl rfl
    · exact .inl rfl
    · have hitem : p.phase.asking = some item := by rw [hphase]; rfl
      cases hreply : request false attempt a with
      | retry => exact .inl rfl
      | value body => exact hack hitem (.inl (acknowledges_of_value hreply))
      | factoryError status =>
        rw [World.replayed]
        split_ifs with hconflict
        · rw [hconflict] at hreply
          exact hack hitem (.inr ⟨conflicts_of_factoryError hreply, p, attempt, hp, hphase⟩)
        · exact .inl rfl
      | exception => exact .inl rfl
    · obtain ⟨phase, heq, -⟩ := w.claimed_cases p.items attempt (request true attempt a)
      rw [heq]
      exact .inl rfl
    · have hitem : p.phase.asking = some item := by rw [hphase]; rfl
      cases hreply : request false attempt a with
      | retry => exact .inl rfl
      | value body => exact hack hitem (.inl (acknowledges_of_value hreply))
      | factoryError status => exact .inl rfl
      | exception => exact .inl rfl
    · rw [World.record]
      split
      · rename_i items hadd
        refine .inr (.inl ⟨outcome, _, rfl, ?_, rfl⟩)
        rw [← hmemory]
        exact ReportQueue.add_eq_some hadd
      · exact .inl rfl

/-- The answer after which the worker calls `ReportQueue.ack`: the factory took the report, or,
at a replay, holds another outcome. -/
def Phase.Acked (a : Answer) : Phase → Prop
  | .replaying _ n =>
    (∃ body, request false n a = .value body) ∨ request false n a = .factoryError (some 409)
  | .reporting _ n => ∃ body, request false n a = .value body
  | _ => False

/-- `ReportQueue.ack` with the report that was answered in front. -/
theorem World.reports_ack {w : World} {items item : Json} (hmemory : items.items = w.reports)
    (hitem : items.items.head? = some item) (next : Json → Phase) :
    w.reports = item :: (w.ack items next).reports := by
  cases items with
  | arr l =>
    obtain ⟨rest, rfl⟩ := List.head?_eq_some_iff.mp hitem
    rw [← hmemory]
    rfl
  | null | bool | num | special | str | obj => cases hitem

/-- Every `ReportQueue.ack` takes out exactly the report that was answered. -/
theorem Durable.acked {before : List Json} {w w' : World} (h : Durable before w) {p : Worker}
    (hp : w.worker = some p) {a : Answer} (hs : w.step (.answer a) = some w')
    (hacked : p.phase.Acked a) :
    ∃ item, p.phase.asking = some item ∧ w.reports = item :: w'.reports := by
  obtain ⟨items, phase⟩ := p
  obtain ⟨hmemory, hasking, -⟩ := h.memory _ hp
  unfold World.step at hs
  rw [hp] at hs
  cases phase with
  | replaying item n =>
    refine ⟨item, rfl, ?_⟩
    obtain rfl := Option.some.inj hs
    rcases hacked with ⟨body, hbody⟩ | hconflict
    · rw [hbody]
      exact World.reports_ack hmemory (hasking item rfl) nextRequest
    · rw [hconflict]
      exact World.reports_ack hmemory (hasking item rfl) nextRequest
  | reporting item n =>
    refine ⟨item, rfl, ?_⟩
    obtain rfl := Option.some.inj hs
    obtain ⟨body, hbody⟩ := hacked
    rw [hbody]
    exact World.reports_ack hmemory (hasking item rfl) fun _ ↦ .idle
  | stopped | idle | claiming | executing => exact hacked.elim

/-- In every run, from any file: an event changes the reports in the file only as described by
`World.Keeps`, and every `ReportQueue.ack` takes out exactly the report just answered; whenever
the factory is asked to take a report, that report is in the file, and is the first there;
while a task is claimed or executed there is no report; and the reports leave the file in the
order in which they came. -/
theorem reports_durable {file : Option Content} {w : World}
    (h : Machine.Runs World.step Machine.anyEvent (.init file) w) :
    (∀ e w', w.step e = some w' → w.Keeps e w') ∧
    (∀ p ∈ w.worker, ∀ a w', p.phase.Acked a → w.step (.answer a) = some w' →
      ∃ item, p.phase.asking = some item ∧ w.reports = item :: w'.reports) ∧
    (∀ p ∈ w.worker, ∀ item ∈ p.phase.asking, w.reports.head? = some item) ∧
    (∀ p ∈ w.worker, p.phase.works = true → w.reports = []) ∧
    (World.init file).reports ++ w.added = w.removed ++ w.reports := by
  have hdurable : Durable (World.init file).reports w := by
    refine h.preserves (fun _ _ _ hw _ hs ↦ hw.step hs) ⟨(fun p hp ↦ nomatch hp), ?_⟩
    exact List.append_nil _
  refine ⟨fun e w' hs ↦ hdurable.keeps hs, fun p hp a w' hacked hs ↦ hdurable.acked hp hs hacked,
    ?_, ?_, hdurable.order⟩
  · intro p hp item hitem
    obtain ⟨hmemory, hasking, -⟩ := hdurable.memory p hp
    exact hmemory ▸ hasking item hitem
  · intro p hp hworks
    obtain ⟨hmemory, -, hfalse⟩ := hdurable.memory p hp
    rw [← hmemory]
    by_contra hne
    exact nomatch (hfalse hworks).symm.trans (Json.truthy_of_items hne)

/-- The answer to a report is lost and the process goes away; the worker that is started
next replays the report before it claims anything. -/
theorem reports_durable_of_crash : ∃ w,
    Machine.Runs World.step Machine.anyEvent (.init none) w ∧ w.added.length = 1 ∧
      ∃ item, w.worker.bind (·.phase.asking) = some item ∧ w.reports.head? = some item := by
  have hexec : ((Machine.guarded World.step fun _ _ ↦ True).exec (.init none)
      [.start true, .run, .round, .answer (.response 200 (.json (.obj [("id", .str "t")]))),
        .executed (.ok (.obj [("sent", .num 5)])), .answer .ambiguous, .crash, .start true,
        .run, .round, .answer .notSent]).any
      (fun w ↦ w.added.length = 1 ∧ (w.worker.bind (·.phase.asking)).isSome = true) = true := by
    decide +kernel
  obtain ⟨w, hrun, hadded, hasking⟩ := Machine.exists_run_of_exec hexec
  obtain ⟨item, hitem⟩ := Option.isSome_iff_exists.mp hasking
  obtain ⟨p, hp, hphase⟩ := Option.bind_eq_some_iff.mp hitem
  exact ⟨w, hrun, hadded, item, hitem, (reports_durable hrun).2.2.1 p hp item hphase⟩

end TgMessenger.Interop
