import TgMessenger.Asyncio.Outline
import TgMessenger.Suggest.World
import Mathlib.Data.List.Pairwise

/-!
# Fresh receipts are kept

While the receipts of a client are recorded, passes over the dialogs drop those that are spent.
A pass loads a receipt, waits for a page and drops what is stored by then.  The largest receipt of a
dialog stays stored, or a page fetched since it arrived has shown that it is spent, in every run in
which no pass drops another receipt than it has loaded.
-/

namespace TgMessenger.Suggest

open Asyncio

namespace World

/-- The stored receipt of a dialog reaches an id, and has its time if that was stored. -/
def Covers (w : World) (d maxId : ℤ) : Prop :=
  ∃ v, w.lastRead d = some v ∧ maxId ≤ v ∧ ∀ stamp ∈ w.stamped d, stamp.1 = v →
    (w.readAt d).isSome = true

/-- A page fetched since the receipt arrived has shown that it is spent. -/
def ShownSpent (w : World) (d : ℤ) (r : Receipt) : Prop :=
  ∃ page ∈ w.pages, page.dialogId = d ∧ page.Spends r

instance (w : World) (d : ℤ) (r : Receipt) : Decidable (w.ShownSpent d r) :=
  inferInstanceAs (Decidable (∃ page ∈ w.pages, _))

/-- Of every dialog the largest receipt recorded is covered by the stored one, or was shown to be
spent. -/
def Kept (w : World) : Prop :=
  ∀ d, ∀ r ∈ w.recorded d, (∀ r' ∈ w.recorded d, r'.maxId ≤ r.maxId) →
    w.Covers d r.maxId ∨ w.ShownSpent d r

/-- The receipts of each dialog were recorded in the order of their ids, and the stored one is
the latest. -/
structure Ordered (w : World) : Prop where
  sorted : ∀ d, (w.recorded d).Pairwise fun r r' ↦ r'.maxId < r.maxId
  latest : ∀ d v, w.lastRead d = some v → ∃ r, (w.recorded d).head? = some r ∧ r.maxId = v
  dated : ∀ d v, w.lastRead d = some v → ∀ stamp ∈ w.stamped d, stamp.1 = v →
    (w.readAt d).isSome = true

/-- Receipts are taken and recorded after they have arrived. -/
structure Arrivals (w : World) : Prop where
  taken : ∀ t, w.taken t ≤ w.arrived
  recorded : ∀ d, ∀ r ∈ w.recorded d, r.arrival ≤ w.arrived

/-- All receipts of a dialog that have left a trace are below an id. -/
def Below (w : World) (d v : ℤ) : Prop :=
  (∀ r ∈ w.recorded d, r.maxId < v) ∧ ∀ stamp ∈ w.stamped d, stamp.1 < v

variable {w : World} {t : ℕ} {d : ℤ}

/-! ## Recording a receipt -/

theorem writing_setLastRead {v : ℤ} : (w.setLastRead t d v).writing t = some v :=
  Function.update_self ..

theorem Ordered.setLastRead (h : w.Ordered) {v : ℤ} (hv : w.Below d v) :
    (w.setLastRead t d v).Ordered where
  sorted d' := by
    dsimp only [World.setLastRead]
    by_cases hd : d' = d
    · subst hd
      rw [Function.update_self, List.pairwise_cons]
      exact ⟨hv.1, h.sorted d'⟩
    · rw [Function.update_of_ne hd]
      exact h.sorted d'
  latest d' v' := by
    dsimp only [World.setLastRead]
    by_cases hd : d' = d
    · subst hd
      rw [Function.update_self, Function.update_self]
      rintro ⟨⟩
      exact ⟨_, rfl, rfl⟩
    · rw [Function.update_of_ne hd, Function.update_of_ne hd]
      exact h.latest d' v'
  dated d' v' := by
    dsimp only [World.setLastRead]
    by_cases hd : d' = d
    · subst hd
      rw [Function.update_self]
      rintro ⟨⟩ stamp hstamp rfl
      exact absurd (hv.2 stamp hstamp) (lt_irrefl _)
    · rw [Function.update_of_ne hd]
      exact h.dated d' v'

theorem Kept.setLastRead (h : w.Kept) {v : ℤ} (hv : w.Below d v) :
    (w.setLastRead t d v).Kept := by
  intro d' r hr hmax
  dsimp only [World.setLastRead, Covers, ShownSpent] at hr hmax ⊢
  by_cases hd : d' = d
  · subst hd
    rw [Function.update_self] at hr hmax ⊢
    have hle : v ≤ r.maxId := hmax _ List.mem_cons_self
    rcases List.mem_cons.mp hr with rfl | hr
    · refine .inl ⟨v, rfl, le_rfl, ?_⟩
      rintro stamp hstamp rfl
      exact absurd (hv.2 stamp hstamp) (lt_irrefl _)
    · exact absurd (hv.1 r hr) hle.not_gt
  · rw [Function.update_of_ne hd] at hr hmax ⊢
    exact h d' r hr hmax

theorem Ordered.setReadAt (h : w.Ordered) {time : Time} : (w.setReadAt t d time).Ordered where
  sorted := h.sorted
  latest := h.latest
  dated d' v' hv' stamp := by
    dsimp only [World.setReadAt] at hv' ⊢
    by_cases hd : d' = d
    · subst hd
      intro _ _
      rw [Function.update_self]
      rfl
    · rw [Function.update_of_ne hd, Function.update_of_ne hd]
      exact h.dated d' v' hv' stamp

theorem Kept.setReadAt (h : w.Kept) {time : Time} : (w.setReadAt t d time).Kept := by
  intro d' r hr hmax
  dsimp only [World.setReadAt, Covers, ShownSpent] at hr hmax ⊢
  refine (h d' r hr hmax).imp ?_ id
  rintro ⟨v, hv, hle, hdated⟩
  refine ⟨v, hv, hle, ?_⟩
  by_cases hd : d' = d
  · subst hd
    intro _ _ _
    rw [Function.update_self]
    rfl
  · rw [Function.update_of_ne hd, Function.update_of_ne hd]
    exact hdated

/-! ## Dropping a receipt -/

theorem Ordered.clearLastRead (h : w.Ordered) : (w.clearLastRead d).Ordered where
  sorted := h.sorted
  latest d' v' := by
    dsimp only [World.clearLastRead]
    by_cases hd : d' = d
    · subst hd
      rw [Function.update_self]
      rintro ⟨⟩
    · rw [Function.update_of_ne hd]
      exact h.latest d' v'
  dated d' v' := by
    dsimp only [World.clearLastRead]
    by_cases hd : d' = d
    · subst hd
      rw [Function.update_self]
      rintro ⟨⟩
    · rw [Function.update_of_ne hd, Function.update_of_ne hd]
      exact h.dated d' v'

/-- Dropping the receipt of a dialog loses nothing when the stored one was shown to be spent. -/
theorem Kept.clearLastRead (h : w.Kept) (hordered : w.Ordered)
    (hspent : ∀ r ∈ w.recorded d, w.lastRead d = some r.maxId → w.ShownSpent d r) :
    (w.clearLastRead d).Kept := by
  intro d' r hr hmax
  dsimp only [World.clearLastRead, Covers, ShownSpent] at hr hmax ⊢
  refine (h d' r hr hmax).elim ?_ .inr
  rintro ⟨v, hv, hle, hdated⟩
  by_cases hd : d' = d
  · subst hd
    obtain ⟨r₀, hr₀, rfl⟩ := hordered.latest d' v hv
    obtain hsame : r₀.maxId = r.maxId := le_antisymm (hmax r₀ (List.mem_of_mem_head? hr₀)) hle
    exact .inr (hspent r hr (hv.trans (congrArg some hsame)))
  · rw [Function.update_of_ne hd, Function.update_of_ne hd]
    exact .inl ⟨v, hv, hle, hdated⟩

/-- Another page loses nothing. -/
theorem Kept.fetch (h : w.Kept) {messages : List Message} : (w.fetch t d messages).Kept := by
  intro d' r hr hmax
  refine (h d' r hr hmax).imp id ?_
  rintro ⟨page, hpage, hspends⟩
  exact ⟨page, List.mem_cons_of_mem _ hpage, hspends⟩

end World

/-! ## What the calls do to the receipts -/

/-- The writes of `record_last_read`. -/
def Op.Records : Op → Prop
  | .setLastRead .. | .setReadAt .. => True
  | _ => False

/-- An operation of a call stores the id of a receipt, or its time, drops a receipt, fetches a
page, or changes no receipt. -/
theorem handle_cases {cfg : Setup} {t : ℕ} {o : Op} {w w' : World}
    {x : Except String (effects.Ret o)} (h : handle cfg t o w = .done x w') :
    (∃ d v, o = .setLastRead d v ∧ cfg.faults w.statements = none ∧
      w' = { w with statements := w.statements + 1 }.setLastRead t d v) ∨
    (∃ d time, o = .setReadAt d time ∧ cfg.faults w.statements = none ∧
      w' = { w with statements := w.statements + 1 }.setReadAt t d time) ∨
    (∃ d, o = .clearLastRead d ∧ cfg.faults w.statements = none ∧
      w' = { w with statements := w.statements + 1 }.clearLastRead d) ∨
    (∃ d messages, o = .history d ∧
      w' = { w with requests := w.requests + 1 }.fetch t d messages) ∨
    (w'.lastRead = w.lastRead ∧ w'.readAt = w.readAt ∧ w'.recorded = w.recorded ∧
      w'.stamped = w.stamped ∧ w'.writing = w.writing ∧ w'.pages = w.pages) := by
  cases o with
  | listenReads n =>
    obtain ⟨-, -, rfl⟩ := handle_listenReads h
    exact .inr (.inr (.inr (.inr ⟨rfl, rfl, rfl, rfl, rfl, rfl⟩)))
  | setLastRead d v =>
    obtain ⟨e, -, -, rfl⟩ | ⟨hfault, -, rfl⟩ := World.statement_done h
    · exact .inr (.inr (.inr (.inr ⟨rfl, rfl, rfl, rfl, rfl, rfl⟩)))
    · exact .inl ⟨d, v, rfl, hfault, rfl⟩
  | setReadAt d time =>
    obtain ⟨e, -, -, rfl⟩ | ⟨hfault, -, rfl⟩ := World.statement_done h
    · exact .inr (.inr (.inr (.inr ⟨rfl, rfl, rfl, rfl, rfl, rfl⟩)))
    · exact .inr (.inl ⟨d, time, rfl, hfault, rfl⟩)
  | loadLastRead d | loadReadAt d =>
    obtain ⟨e, -, -, rfl⟩ | ⟨-, -, rfl⟩ := World.statement_done h <;>
      exact .inr (.inr (.inr (.inr ⟨rfl, rfl, rfl, rfl, rfl, rfl⟩)))
  | clearLastRead d =>
    obtain ⟨e, -, -, rfl⟩ | ⟨hfault, -, rfl⟩ := World.statement_done h
    · exact .inr (.inr (.inr (.inr ⟨rfl, rfl, rfl, rfl, rfl, rfl⟩)))
    · exact .inr (.inr (.inl ⟨d, rfl, hfault, rfl⟩))
  | history d =>
    obtain ⟨e, -, rfl⟩ | ⟨messages, -, rfl⟩ := handle_history h
    · exact .inr (.inr (.inr (.inr ⟨rfl, rfl, rfl, rfl, rfl, rfl⟩)))
    · exact .inr (.inr (.inr (.inl ⟨d, messages, rfl, rfl⟩)))
  | suggest d =>
    cases h
    exact .inr (.inr (.inr (.inr ⟨rfl, rfl, rfl, rfl, rfl, rfl⟩)))

/-- A call that is no recording leaves no trace of a receipt. -/
structure Passive (w w' : World) : Prop where
  recorded : w'.recorded = w.recorded
  stamped : w'.stamped = w.stamped
  writing : w'.writing = w.writing

theorem handle_passive {cfg : Setup} {t : ℕ} {o : Op} {w w' : World}
    {x : Except String (effects.Ret o)} (ho : ¬ o.Records)
    (h : handle cfg t o w = .done x w') : Passive w w' := by
  rcases handle_cases h with ⟨d, v, rfl, -⟩ | ⟨d, time, rfl, -⟩ | ⟨d, rfl, -, rfl⟩ |
    ⟨d, messages, rfl, rfl⟩ | ⟨-, -, hrecorded, hstamped, hwriting, -⟩
  · exact absurd trivial ho
  · exact absurd trivial ho
  · exact ⟨rfl, rfl, rfl⟩
  · exact ⟨rfl, rfl, rfl⟩
  · exact ⟨hrecorded, hstamped, hwriting⟩

/-- The receipts of a dialog stay, and one that is added has a larger id. -/
def World.Records (w w' : World) : Prop :=
  ∀ d, w'.recorded d = w.recorded d ∨
    ∃ r, w'.recorded d = r :: w.recorded d ∧ ∀ r' ∈ w.recorded d, r'.maxId < r.maxId

theorem handle_records {cfg : Setup} {t : ℕ} {o : Op} {w w' : World}
    {x : Except String (effects.Ret o)} (h : handle cfg t o w = .done x w')
    (hgrow : ∀ d v, o = .setLastRead d v → w.Below d v) : w.Records w' := by
  intro d
  rcases handle_cases h with ⟨d', v, rfl, -, rfl⟩ | ⟨d', time, rfl, -, rfl⟩ | ⟨d', rfl, -, rfl⟩ |
    ⟨d', messages, rfl, rfl⟩ | ⟨-, -, hrecorded, -⟩
  · dsimp only [World.setLastRead]
    by_cases hd : d = d'
    · subst hd
      rw [Function.update_self]
      exact .inr ⟨_, rfl, (hgrow d v rfl).1⟩
    · exact .inl (Function.update_of_ne hd ..)
  · exact .inl rfl
  · exact .inl rfl
  · exact .inl rfl
  · exact .inl (congrFun hrecorded d)

/-- What is true of the receipts at all times. -/
structure World.Consistent (w : World) : Prop extends w.Ordered, w.Arrivals

theorem handle_arrivals {cfg : Setup} {t : ℕ} {o : Op} {w w' : World}
    {x : Except String (effects.Ret o)} (h : handle cfg t o w = .done x w') (hw : w.Arrivals) :
    w'.Arrivals := by
  cases o with
  | listenReads n =>
    obtain ⟨hn, -, rfl⟩ := handle_listenReads h
    refine ⟨fun u ↦ ?_, hw.recorded⟩
    dsimp only
    by_cases hu : u = t
    · rw [hu, Function.update_self]
      exact hn
    · rw [Function.update_of_ne hu]
      exact hw.taken u
  | setLastRead d v =>
    obtain ⟨e, -, -, rfl⟩ | ⟨-, -, rfl⟩ := World.statement_done h
    · exact ⟨hw.taken, hw.recorded⟩
    · refine ⟨hw.taken, fun d' r hr ↦ ?_⟩
      dsimp only [World.setLastRead] at hr
      by_cases hd : d' = d
      · subst hd
        rw [Function.update_self] at hr
        rcases List.mem_cons.mp hr with rfl | hr
        · exact hw.taken t
        · exact hw.recorded d' r hr
      · rw [Function.update_of_ne hd] at hr
        exact hw.recorded d' r hr
  | setReadAt | loadLastRead | loadReadAt | clearLastRead =>
    obtain ⟨e, -, -, rfl⟩ | ⟨-, -, rfl⟩ := World.statement_done h <;>
      exact ⟨hw.taken, hw.recorded⟩
  | history d =>
    obtain ⟨e, -, rfl⟩ | ⟨messages, -, rfl⟩ := handle_history h <;>
      exact ⟨hw.taken, hw.recorded⟩
  | suggest d =>
    cases h
    exact ⟨hw.taken, hw.recorded⟩

theorem handle_ordered {cfg : Setup} {t : ℕ} {o : Op} {w w' : World}
    {x : Except String (effects.Ret o)} (h : handle cfg t o w = .done x w') (hordered : w.Ordered)
    (hgrow : ∀ d v, o = .setLastRead d v → w.Below d v) : w'.Ordered := by
  have hordered' : World.Ordered { w with statements := w.statements + 1 } :=
    ⟨hordered.sorted, hordered.latest, hordered.dated⟩
  rcases handle_cases h with ⟨d, v, rfl, -, rfl⟩ | ⟨d, time, rfl, -, rfl⟩ | ⟨d, rfl, -, rfl⟩ |
    ⟨d, messages, rfl, rfl⟩ | ⟨hlast, hreadAt, hrecorded, hstamped, -⟩
  · exact hordered'.setLastRead (hgrow d v rfl)
  · exact hordered'.setReadAt
  · exact hordered'.clearLastRead
  · exact ⟨hordered.sorted, hordered.latest, hordered.dated⟩
  · constructor
    · rw [hrecorded]
      exact hordered.sorted
    · rw [hlast, hrecorded]
      exact hordered.latest
    · rw [hlast, hstamped, hreadAt]
      exact hordered.dated

/-! ## What the calls rely on -/

/-- The receipt that a call has loaded was shown to be spent. -/
def World.Judged (w : World) (t : ℕ) (d : ℤ) : Prop :=
  ∀ r ∈ w.recorded d, w.held t = some r.maxId → w.ShownSpent d r

/-- What the watcher, which is task `0`, and the passes guarantee. -/
structure Guar (t : ℕ) (o : Op) (w w' : World) : Prop where
  growing : ∀ d v, o = .setLastRead d v → w.Below d v
  judged : ∀ d, o = .clearLastRead d → w.Judged t d
  passive : t ≠ 0 → Passive w w'
  grows : ∀ u ≠ t, Grows u w w'
  records : w.Records w'
  consistent : w.Consistent → w'.Consistent

/-- What a call relies on: the watcher on being the only one that records. -/
structure Rely (t : ℕ) (w w' : World) : Prop where
  passive : t = 0 → Passive w w'
  grows : Grows t w w'
  records : w.Records w'
  consistent : w.Consistent → w'.Consistent

theorem guar_of_done (cfg : Setup) {t : ℕ} {o : Op} {w w' : World}
    {x : Except String (effects.Ret o)} (h : handle cfg t o w = .done x w')
    (hgrow : ∀ d v, o = .setLastRead d v → w.Below d v)
    (hjudged : ∀ d, o = .clearLastRead d → w.Judged t d) (hpassive : t ≠ 0 → ¬o.Records) :
    Guar t o w w' where
  growing := hgrow
  judged := hjudged
  passive ht := handle_passive (hpassive ht) h
  grows _ hu := handle_grows h hu
  records := handle_records h hgrow
  consistent hw := ⟨handle_ordered h hw.toOrdered hgrow, handle_arrivals h hw.toArrivals⟩

/-! ## The watcher -/

/-- The events that are still to come are above all receipts recorded. -/
def World.Awaits (reads : List (MessageReadEvent × Time)) (w : World) : Prop :=
  ∀ read ∈ reads, read.1.outbox = true → w.Below read.1.dialogId read.1.maxId

theorem stable_awaits (reads : List (MessageReadEvent × Time)) :
    Asyncio.Stable (Rely 0) (World.Awaits reads) := by
  intro w w' h hrely read hread hout
  rw [World.Below, (hrely.passive rfl).recorded, (hrely.passive rfl).stamped]
  exact h read hread hout

theorem World.Awaits.tail {read : MessageReadEvent × Time}
    {reads : List (MessageReadEvent × Time)} {w : World} (h : w.Awaits (read :: reads)) :
    w.Awaits reads := fun read' hread' ↦ h read' (List.mem_cons_of_mem _ hread')

/-- A receipt that has just been recorded is below those that are still to come. -/
theorem World.Awaits.setLastRead {reads : List (MessageReadEvent × Time)} {w : World} {t : ℕ}
    {d v : ℤ} (h : w.Awaits reads)
    (hv : ∀ read ∈ reads, read.1.outbox = true → read.1.dialogId = d → v < read.1.maxId) :
    (w.setLastRead t d v).Awaits reads := by
  intro read hread hout
  obtain ⟨hrecorded, hstamped⟩ := h read hread hout
  refine ⟨?_, hstamped⟩
  dsimp only [World.setLastRead]
  by_cases hd : read.1.dialogId = d
  · rw [← hd, Function.update_self, List.forall_mem_cons]
    exact ⟨hv read hread hout hd, hrecorded⟩
  · rw [Function.update_of_ne hd]
    exact hrecorded

theorem World.Awaits.setReadAt {reads : List (MessageReadEvent × Time)} {w : World} {t : ℕ}
    {d v : ℤ} {time : Time} (h : w.Awaits reads) (hwriting : w.writing t = some v)
    (hv : ∀ read ∈ reads, read.1.outbox = true → read.1.dialogId = d → v < read.1.maxId) :
    (w.setReadAt t d time).Awaits reads := by
  intro read hread hout
  obtain ⟨hrecorded, hstamped⟩ := h read hread hout
  refine ⟨hrecorded, ?_⟩
  dsimp only [World.setReadAt]
  by_cases hd : read.1.dialogId = d
  · rw [← hd, Function.update_self, hwriting]
    simp only [Option.toList_some, List.map_cons, List.map_nil, List.cons_append, List.nil_append,
      List.forall_mem_cons]
    exact ⟨hv read hread hout hd, hstamped⟩
  · rw [Function.update_of_ne hd]
    exact hstamped

/-- The outline of a program of the watcher. -/
abbrev WatchOutline {α : Type} (cfg : Setup) (p : SuggestProg α) (P : World → Prop)
    (Q : Except String α → World → Prop) : Prop :=
  Outline (system cfg) 0 (fun _ ↦ Rely 0) (Guar 0) p P Q

section Watch

variable {cfg : Setup}

/-- Recording a receipt of the client. -/
theorem recordLastRead_outline {event : MessageReadEvent} {clock : Time}
    {reads : List (MessageReadEvent × Time)}
    (hnext : ∀ read ∈ reads, event.outbox = true → read.1.outbox = true →
      event.dialogId = read.1.dialogId → event.maxId < read.1.maxId) :
    WatchOutline cfg (recordLastRead event clock) (World.Awaits ((event, clock) :: reads))
      (fun _ ↦ World.Awaits reads) := by
  rw [recordLastRead]
  split
  · exact .ret (stable_awaits _) fun w h ↦ h.tail
  · next hout =>
    rw [Bool.not_eq_true, Bool.not_eq_false'] at hout
    have hbelow : ∀ read ∈ reads, read.1.outbox = true → read.1.dialogId = event.dialogId →
        event.maxId < read.1.maxId :=
      fun read hread hread' hd ↦ hnext read hread hout hread' hd.symm
    have hstable : Asyncio.Stable (Rely 0)
        fun w ↦ w.Awaits reads ∧ w.writing 0 = some event.maxId := by
      refine .and (stable_awaits _) fun w w' h hrely ↦ ?_
      rw [(hrely.passive rfl).writing]
      exact h
    refine .seq (R := fun _ w ↦ w.Awaits reads ∧ w.writing 0 = some event.maxId)
      (.perform (stable_awaits _) ?_ ?_ ?_) fun _ ↦ .perform hstable ?_ ?_ ?_
    · rintro (e | r)
      · exact stable_awaits _
      · exact hstable
    · exact fun w w' _ hr ↦ (not_parked hr).elim
    · intro w x w' h hr
      have hguar : Guar 0 (.setLastRead event.dialogId event.maxId) w w' := by
        refine guar_of_done cfg hr ?_ nofun (absurd rfl)
        rintro _ _ ⟨⟩
        exact h _ List.mem_cons_self hout
      refine ⟨hguar, ?_⟩
      obtain ⟨e, -, rfl, rfl⟩ | ⟨-, rfl, rfl⟩ := World.statement_done hr
      · exact h.tail
      · exact ⟨World.Awaits.setLastRead (w := { w with statements := w.statements + 1 })
          h.tail hbelow, World.writing_setLastRead⟩
    · exact fun _ ↦ stable_awaits _
    · exact fun w w' _ hr ↦ (not_parked hr).elim
    · rintro w x w' ⟨h, hwriting⟩ hr
      refine ⟨guar_of_done cfg hr nofun nofun (absurd rfl), ?_⟩
      obtain ⟨e, -, rfl, rfl⟩ | ⟨-, rfl, rfl⟩ := World.statement_done hr
      · exact h
      · exact World.Awaits.setReadAt (w := { w with statements := w.statements + 1 })
          h hwriting hbelow

/-- The receipts of one dialog come with increasing ids. -/
def Growing (reads : List (MessageReadEvent × Time)) : Prop :=
  reads.Pairwise fun read read' ↦ read.1.outbox = true → read'.1.outbox = true →
    read.1.dialogId = read'.1.dialogId → read.1.maxId < read'.1.maxId

theorem watchReadReceipts_outline {reads : List (MessageReadEvent × Time)} (hgrow : Growing reads)
    (n : ℕ) : WatchOutline cfg (watchReadReceipts n reads) (World.Awaits reads)
      fun _ _ ↦ True := by
  induction reads generalizing n with
  | nil => exact .ret (stable_awaits _) fun _ _ ↦ trivial
  | cons read reads ih =>
    obtain ⟨event, clock⟩ := read
    obtain ⟨hnext, hgrow⟩ := List.pairwise_cons.mp hgrow
    refine .seq (R := fun _ ↦ World.Awaits reads) ?_ fun _ ↦ ih hgrow (n + 1)
    refine .seq (R := fun _ ↦ World.Awaits ((event, clock) :: reads))
      (.perform (stable_awaits _) ?_ ?_ ?_) fun _ ↦ ?_
    · rintro (e | r)
      · exact .true _
      · exact stable_awaits _
    · exact fun w w' _ hr ↦ (not_parked hr).elim
    · intro w x w' h hr
      refine ⟨guar_of_done cfg hr nofun nofun (absurd rfl), ?_⟩
      obtain ⟨-, rfl, rfl⟩ := @handle_listenReads cfg 0 n w w' x hr
      exact h
    · refine .rescue (R := fun _ ↦ World.Awaits reads)
        ((recordLastRead_outline hnext).post ?_) fun e ↦ .ret (stable_awaits _) fun _ h ↦ h
      rintro (e | r) w h
      · exact h
      · exact h

end Watch

/-! ## A pass -/

section Pass

variable {cfg : Setup} {t : ℕ}

/-- The outline of a program of a pass. -/
abbrev DropOutline {α : Type} (cfg : Setup) (t : ℕ) (p : SuggestProg α) (P : World → Prop)
    (Q : α → World → Prop) : Prop :=
  Outline (system cfg) t (fun _ ↦ Rely t) (Guar t) p P (onResult Q fun _ _ ↦ True)

theorem stable_consistent : Asyncio.Stable (Rely t) World.Consistent :=
  fun _ _ h hrely ↦ hrely.consistent h

/-- One operation of a pass. -/
theorem drop_perform {o : Op} {P : World → Prop} {Q : effects.Ret o → World → Prop}
    (ho : ¬o.Records) (hP : Asyncio.Stable (Rely t) P)
    (hQ : ∀ r, Asyncio.Stable (Rely t) (Q r))
    (hjudged : ∀ d w, o = .clearLastRead d → P w → w.Judged t d)
    (hdone : ∀ w r w', P w → w'.Consistent → handle cfg t o w = .done (.ok r) w' → Q r w')
    (hconsistent : ∀ w, P w → w.Consistent) : DropOutline cfg t (perform o) P Q := by
  refine .perform hP ?_ (fun w w' _ hr ↦ (not_parked hr).elim) ?_
  · rintro (e | r)
    · exact .true _
    · exact hQ r
  · intro w x w' hw hr
    have hguar : Guar t o w w' := by
      refine guar_of_done cfg hr ?_ (fun d hd ↦ hjudged d w hd hw) fun _ ↦ ho
      rintro d v rfl
      exact absurd trivial ho
    refine ⟨hguar, ?_⟩
    cases x with
    | error e => trivial
    | ok r => exact hdone w r w' hw (hguar.consistent (hconsistent w hw)) hr

/-- What a pass has loaded of a dialog was recorded. -/
structure World.Loaded (t : ℕ) (d : ℤ) (lastReadId : Option ℤ) (w : World) : Prop
    extends w.Consistent where
  held : w.held t = lastReadId
  reached : ∀ v ∈ lastReadId, ∃ r ∈ w.recorded d, v ≤ r.maxId

/-- A page that a pass has fetched shows whether the receipt is spent that it has loaded. -/
structure World.Fetched (t : ℕ) (d v : ℤ) (history : List Message) (w : World) : Prop
    extends w.Loaded t d (some v) where
  shown : isSpent history v = true → w.Judged t d

theorem World.Loaded.of_rely {d : ℤ} {lastReadId : Option ℤ} {w w' : World}
    (h : w.Loaded t d lastReadId) (hrely : Rely t w w') : w'.Loaded t d lastReadId := by
  refine ⟨hrely.consistent h.toConsistent, hrely.grows.held.trans h.held, fun v hv ↦ ?_⟩
  obtain ⟨r, hr, hle⟩ := h.reached v hv
  rcases hrely.records d with hsame | ⟨r', hnew, -⟩
  · rw [hsame]
    exact ⟨r, hr, hle⟩
  · rw [hnew]
    exact ⟨r, List.mem_cons_of_mem _ hr, hle⟩

/-- A receipt that is recorded after a pass has loaded one is another. -/
theorem World.Fetched.of_rely {d v : ℤ} {history : List Message} {w w' : World}
    (h : w.Fetched t d v history) (hrely : Rely t w w') : w'.Fetched t d v history := by
  refine ⟨h.toLoaded.of_rely hrely, fun hspent r hr hheld ↦ ?_⟩
  rw [hrely.grows.held] at hheld
  have hr : r ∈ w.recorded d := by
    rcases hrely.records d with hsame | ⟨r', hnew, hlt⟩
    · rwa [hsame] at hr
    · rw [hnew] at hr
      rcases List.mem_cons.mp hr with rfl | hr
      · obtain ⟨r₀, hr₀, hle⟩ := h.reached v rfl
        have hv : v = r.maxId := Option.some.inj (h.held.symm.trans hheld)
        exact absurd (hlt r₀ hr₀) (hv ▸ hle).not_gt
      · exact hr
  obtain ⟨page, hpage, hspends⟩ := h.shown hspent r hr hheld
  exact ⟨page, hrely.grows.pages page hpage, hspends⟩

theorem loadLastRead_drops (d : ℤ) :
    DropOutline cfg t (perform (.loadLastRead d)) World.Consistent (World.Loaded t d) := by
  refine drop_perform id stable_consistent (fun _ _ _ h hrely ↦ h.of_rely hrely) nofun ?_
    fun _ ↦ id
  intro w lastReadId w' hw hw' hr
  obtain ⟨e, -, hx, -⟩ | ⟨-, hx, rfl⟩ := World.statement_done hr
  · cases hx
  · cases hx
    refine ⟨hw', Function.update_self .., fun v hv ↦ ?_⟩
    obtain ⟨r, hr, rfl⟩ := hw.latest d v hv
    exact ⟨r, List.mem_of_mem_head? hr, le_rfl⟩

/-- A page shows whether a receipt is spent that had arrived by then. -/
theorem history_drops (d v : ℤ) :
    DropOutline cfg t (perform (.history d)) (World.Loaded t d (some v)) (World.Fetched t d v) := by
  refine drop_perform id (fun _ _ h hrely ↦ h.of_rely hrely)
    (fun _ _ _ h hrely ↦ h.of_rely hrely) nofun ?_ fun _ h ↦ h.toConsistent
  intro w history w' hw hw' hr
  obtain ⟨e, hx, -⟩ | ⟨messages, hx, rfl⟩ := handle_history hr
  · cases hx
  · cases hx
    refine ⟨⟨hw', hw.held, hw.reached⟩, fun hspent r hr hheld ↦ ?_⟩
    obtain rfl : v = r.maxId := Option.some.inj (hw.held.symm.trans hheld)
    exact ⟨_, List.mem_cons_self, rfl, hw.recorded d r hr, hspent⟩

theorem draftNudge_drops (d : ℤ) (time : Time) :
    DropOutline cfg t (draftNudge d time) World.Consistent fun _ ↦ World.Consistent := by
  refine .rescue (R := fun _ ↦ World.Consistent) ?_ fun _ ↦ .ret stable_consistent fun _ ↦ id
  refine .seq (R := fun _ ↦ World.Consistent) ?_ fun _ ↦ .ret stable_consistent fun _ ↦ id
  refine .perform stable_consistent ?_ (fun w w' _ hr ↦ (not_parked hr).elim) ?_
  · rintro (e | r) <;> exact stable_consistent
  · intro w x w' hw hr
    have hguar : Guar t (.suggest d) w w' := guar_of_done cfg hr nofun nofun fun _ ↦ id
    cases x <;> exact ⟨hguar, hguar.consistent hw⟩

/-- A pass drops what it has loaded and a page has shown to be spent. -/
theorem nudgeCandidate_drops (now afterSec : Time) (d : ℤ) :
    DropOutline cfg t (nudgeCandidate now afterSec d) World.Consistent
      fun _ ↦ World.Consistent := by
  have hloaded (lastReadId : Option ℤ) : Asyncio.Stable (Rely t) (World.Loaded t d lastReadId) :=
    fun _ _ h hrely ↦ h.of_rely hrely
  have hdone {P : World → Prop} (hP : Asyncio.Stable (Rely t) P)
      (hconsistent : ∀ w, P w → w.Consistent) :
      DropOutline cfg t (.ret none : SuggestProg (Option Candidate)) P fun _ ↦ World.Consistent :=
    .ret hP hconsistent
  refine .seq (loadLastRead_drops d) fun lastReadId ↦ ?_
  refine .seq (R := fun _ ↦ World.Loaded t d lastReadId) (drop_perform id (hloaded _)
    (fun _ ↦ hloaded _) nofun ?_ fun _ h ↦ h.toConsistent) fun readAt ↦ ?_
  · intro w readAt w' hw hw' hr
    obtain ⟨e, -, -, rfl⟩ | ⟨-, -, rfl⟩ := World.statement_done hr <;>
      exact ⟨hw', hw.held, hw.reached⟩
  split
  case h_2 => exact hdone (hloaded _) fun _ h ↦ h.toConsistent
  case h_1 v time =>
    split
    · exact hdone (hloaded _) fun _ h ↦ h.toConsistent
    · refine .seq (history_drops d v) fun history ↦ ?_
      have hfetched : Asyncio.Stable (Rely t) (World.Fetched t d v history) :=
        fun _ _ h hrely ↦ h.of_rely hrely
      split
      · exact (draftNudge_drops d time).pre fun _ h ↦ h.toConsistent
      · split
        · next hspent =>
          refine .seq (R := fun _ ↦ World.Consistent) (drop_perform id hfetched
            (fun _ ↦ stable_consistent) ?_ (fun _ _ _ _ h _ ↦ h) fun _ h ↦ h.toConsistent)
            fun _ ↦ hdone stable_consistent fun _ ↦ id
          rintro _ w ⟨⟩ hw
          exact hw.shown hspent
        · exact hdone hfetched fun _ h ↦ h.toConsistent

theorem nudgeCandidates_drops (now afterSec : Time) (ds : List ℤ) :
    DropOutline cfg t (nudgeCandidates now afterSec ds) World.Consistent
      fun _ ↦ World.Consistent := by
  induction ds with
  | nil => exact .ret stable_consistent fun _ ↦ id
  | cons d ds ih =>
    exact .seq (nudgeCandidate_drops now afterSec d) fun _ ↦ .seq ih fun _ ↦
      .ret stable_consistent fun _ ↦ id

end Pass

/-! ## Runs -/

/-- A pass over the dialogs. -/
structure Pass where
  dialogIds : List ℤ
  now : Time
  afterSec : Time

/-- The watcher, and any number of passes beside it. -/
def watched (passes : ℕ → Pass) : ℕ → Call
  | 0 => .watchReadReceipts
  | t + 1 => .nudgeCandidates (passes t).dialogIds (passes t).now (passes t).afterSec

/-- What a call drops, when the statement does not fail, is the receipt that it has loaded. -/
def DropsLoaded (cfg : Setup) (t : ℕ) : Op → World → Prop
  | .clearLastRead d, w => cfg.faults w.statements = none → ∀ v ∈ w.lastRead d, w.held t = some v
  | _, _ => True

instance (cfg : Setup) (t : ℕ) (o : Op) (w : World) : Decidable (DropsLoaded cfg t o w) :=
  match o with
  | .clearLastRead d => inferInstanceAs (Decidable (cfg.faults w.statements = none →
      ∀ v ∈ w.lastRead d, w.held t = some v))
  | .listenReads _ | .setLastRead .. | .setReadAt .. | .loadLastRead _ | .loadReadAt _
  | .history _ | .suggest _ => inferInstanceAs (Decidable True)

/-- No pass drops another receipt than it has loaded. -/
def Timely (cfg : Setup) : SuggestConfig → Move ℕ ReadEvent → Prop := Permitted (DropsLoaded cfg)

instance (cfg : Setup) (c : SuggestConfig) (m : Move ℕ ReadEvent) : Decidable (Timely cfg c m) :=
  inferInstanceAs (Decidable (Permitted _ c m))

/-- What an operation does to the receipts, when a dropped one was loaded and judged. -/
theorem handle_kept {cfg : Setup} {t : ℕ} {o : Op} {w w' : World}
    {x : Except String (effects.Ret o)} (h : handle cfg t o w = .done x w') (hkept : w.Kept)
    (hordered : w.Ordered) (hguar : Guar t o w w') (hloaded : DropsLoaded cfg t o w) : w'.Kept := by
  have hordered' : World.Ordered { w with statements := w.statements + 1 } :=
    ⟨hordered.sorted, hordered.latest, hordered.dated⟩
  rcases handle_cases h with ⟨d, v, rfl, -, rfl⟩ | ⟨d, time, rfl, -, rfl⟩ | ⟨d, rfl, hfault, rfl⟩ |
    ⟨d, messages, rfl, rfl⟩ | ⟨hlast, hreadAt, hrecorded, hstamped, -, hpages⟩
  · exact World.Kept.setLastRead hkept (hguar.growing d v rfl)
  · exact World.Kept.setReadAt hkept
  · refine World.Kept.clearLastRead (w := { w with statements := w.statements + 1 }) hkept hordered'
      fun r hr hlast ↦ ?_
    exact hguar.judged d rfl r hr (hloaded hfault r.maxId hlast)
  · exact World.Kept.fetch hkept
  · intro d r
    rw [World.Covers, World.ShownSpent, hrecorded, hlast, hstamped, hreadAt, hpages]
    exact hkept d r

/-- The watcher and the passes, on what was stored before. -/
abbrev startWatched (cfg : Setup) (passes : ℕ → Pass) (receipts : ℤ → Option (ℤ × Time)) :
    SuggestConfig := start cfg (watched passes) receipts

/-- The receipts of the client are above those that were stored before. -/
def Fresh (receipts : ℤ → Option (ℤ × Time)) (reads : List (MessageReadEvent × Time)) : Prop :=
  ∀ read ∈ reads, read.1.outbox = true → ∀ r ∈ receipts read.1.dialogId, r.1 < read.1.maxId

theorem World.kept_init (receipts : ℤ → Option (ℤ × Time)) : (World.init receipts).Kept := by
  intro d r hr _
  dsimp only [World.init, Covers] at hr ⊢
  cases hreceipt : receipts d with
  | none =>
    rw [hreceipt] at hr
    cases hr
  | some stamp =>
    rw [hreceipt] at hr
    obtain rfl := List.mem_singleton.mp hr
    exact .inl ⟨stamp.1, rfl, le_rfl, fun _ _ _ ↦ rfl⟩

theorem World.ordered_init (receipts : ℤ → Option (ℤ × Time)) :
    (World.init receipts).Ordered := by
  constructor
  · intro d
    dsimp only [World.init]
    cases receipts d with
    | none => exact .nil
    | some stamp => exact List.pairwise_singleton ..
  · intro d v hv
    dsimp only [World.init] at hv ⊢
    obtain ⟨stamp, hstamp, rfl⟩ := Option.map_eq_some_iff.mp hv
    rw [hstamp]
    exact ⟨_, rfl, rfl⟩
  · intro d v hv _ _ _
    dsimp only [World.init] at hv ⊢
    obtain ⟨stamp, hstamp, -⟩ := Option.map_eq_some_iff.mp hv
    rw [hstamp]
    rfl

theorem World.consistent_init (receipts : ℤ → Option (ℤ × Time)) :
    (World.init receipts).Consistent := by
  refine ⟨World.ordered_init receipts, fun _ ↦ le_rfl, fun d r hr ↦ ?_⟩
  obtain ⟨stamp, -, rfl⟩ := List.mem_map.mp hr
  exact le_rfl

/-- A receipt arrives. -/
theorem World.Consistent.arrive {w : World} (h : w.Consistent) :
    World.Consistent { w with arrived := w.arrived + 1 } :=
  ⟨⟨h.sorted, h.latest, h.dated⟩, fun t ↦ (h.taken t).trans (Nat.le_succ _),
    fun d r hr ↦ (h.toArrivals.recorded d r hr).trans (Nat.le_succ _)⟩

theorem World.awaits_init {receipts : ℤ → Option (ℤ × Time)}
    {reads : List (MessageReadEvent × Time)} (hfresh : Fresh receipts reads) :
    (World.init receipts).Awaits reads := by
  intro read hread hout
  dsimp only [World.Below, World.init]
  have hbelow := hfresh read hread hout
  cases hreceipt : receipts read.1.dialogId with
  | none => exact ⟨by rintro _ ⟨⟩, by rintro _ ⟨⟩⟩
  | some stamp =>
    rw [hreceipt] at hbelow
    constructor
    · intro r hr
      obtain rfl := List.mem_singleton.mp hr
      exact hbelow stamp rfl
    · intro r hr
      obtain rfl := List.mem_singleton.mp hr
      exact hbelow r rfl

section Runs

variable {cfg : Setup} {passes : ℕ → Pass} {receipts : ℤ → Option (ℤ × Time)}

/-- All calls keep to what they guarantee. -/
abbrev Guarded (cfg : Setup) (c : SuggestConfig) : Prop :=
  Outlined (system cfg) (fun t _ ↦ Rely t) Guar (fun _ _ _ ↦ True) c

theorem guarded_start (hgrow : Growing cfg.reads) (hfresh : Fresh receipts cfg.reads) :
    Guarded cfg (startWatched cfg passes receipts) := by
  intro t
  cases t with
  | zero =>
    refine ⟨World.Awaits cfg.reads, ?_, World.awaits_init hfresh⟩
    refine .seq (R := fun _ _ ↦ True) ((watchReadReceipts_outline hgrow 0).post ?_)
      fun _ ↦ .ret (.true _) fun _ _ ↦ trivial
    rintro (e | r) _ _ <;> trivial
  | succ t =>
    refine ⟨World.Consistent, (nudgeCandidates_drops _ _ _).post fun _ _ _ ↦ trivial,
      World.consistent_init receipts⟩

theorem Guarded.step {c c' : SuggestConfig} {m : Move ℕ ReadEvent} (h : Guarded cfg c)
    (hs : c.step (system cfg) m = some c') : Guarded cfg c' := by
  have hok : anyMove c m := trivial
  refine Outlined.step ?_ ?_ h hok hs
  · intro c c' t u o k _ hu _ hguar
    exact ⟨fun ht ↦ hguar.passive (ht ▸ hu), hguar.grows t hu.symm, hguar.records,
      hguar.consistent⟩
  · intro c c' t e _ hstep
    obtain ⟨w, hw, rfl⟩ := Option.map_eq_some_iff.mp hstep
    cases e
    dsimp only [system] at hw
    split_ifs at hw
    cases hw
    exact ⟨fun _ ↦ ⟨rfl, rfl, rfl⟩, ⟨rfl, fun _ _ ↦ id, fun _ ↦ id⟩, fun _ ↦ .inl rfl,
      World.Consistent.arrive⟩

/-- What every move keeps in which no pass drops another receipt than it has loaded. -/
theorem kept_step {c c' : SuggestConfig} {m : Move ℕ ReadEvent} (hguarded : Guarded cfg c)
    (hconsistent : c.shared.Consistent) (hkept : c.shared.Kept) (htimely : Timely cfg c m)
    (hs : c.step (system cfg) m = some c') : c'.shared.Consistent ∧ c'.shared.Kept := by
  rcases Config.step_cases hs with ⟨t, o, k, x, w, rfl, hp, hr, rfl⟩ |
    ⟨t, o, k, w, rfl, hp, hr, rfl⟩ | ⟨e, w, rfl, hw, rfl⟩
  · obtain ⟨P, houtline, hP⟩ := hguarded t
    obtain ⟨⟨o', k', hp', hguar⟩, -⟩ := houtline.run_self hP hs
    obtain ⟨rfl, -⟩ := Prog.op.inj (hp.symm.trans hp')
    rw [Timely, Permitted, hp] at htimely
    exact ⟨hguar.consistent hconsistent,
      handle_kept hr hkept hconsistent.toOrdered hguar htimely⟩
  · exact (not_parked hr).elim
  · cases e
    dsimp only [system] at hw
    split_ifs at hw
    cases hw
    exact ⟨hconsistent.arrive, hkept⟩

/-- In every run in which no pass drops another receipt than it has loaded, the largest receipt of
each dialog is still covered by the stored one, or was shown to be spent by a page fetched since it
arrived. -/
theorem receipts_kept (hgrow : Growing cfg.reads) (hfresh : Fresh receipts cfg.reads)
    {c : SuggestConfig}
    (hrun : Reaches (system cfg) (Timely cfg) (startWatched cfg passes receipts) c) :
    c.shared.Kept := by
  have hinv := hrun.preserves
    (I := fun c ↦ Guarded cfg c ∧ c.shared.Consistent ∧ c.shared.Kept) ?_
    ⟨guarded_start hgrow hfresh, World.consistent_init receipts, World.kept_init receipts⟩
  · exact hinv.2.2
  · rintro c c' m ⟨hguarded, hconsistent, hkept⟩ hm hs
    exact ⟨hguarded.step hs, kept_step hguarded hconsistent hkept hm hs⟩

end Runs

/-! ## A receipt that is lost -/

/-- Both messages are ours, and the second has just been sent. -/
def twoSent : List Message :=
  [{ id := 1, dialogId := 7, senderId := 5, out := true, date := "", text := some "you there?" },
   { id := 3, dialogId := 7, senderId := 5, out := true, date := "", text := some "still around?" }]

/-- The contact reads the first message, and hours later the second. -/
def twoReads : Setup where
  reads := [(⟨7, 1, true⟩, 1000), (⟨7, 3, true⟩, 9000)]
  faults _ := none
  pages _ := .ok twoSent
  drafts _ := .ok "ping"

/-- A pass over the dialog when the first receipt has aged. -/
def onePass (_ : ℕ) : Pass := ⟨[7], 9000, 3600⟩

/-- Nothing was stored before. -/
def noReceipts : ℤ → Option (ℤ × Time) := fun _ ↦ none

theorem growing_twoReads : Growing twoReads.reads := by
  refine .cons ?_ (List.pairwise_singleton ..)
  intro read hread _ _ _
  obtain rfl := List.mem_singleton.mp hread
  decide

theorem fresh_noReceipts {reads : List (MessageReadEvent × Time)} : Fresh noReceipts reads := by
  rintro read _ _ _ ⟨⟩

/-- The pass is over when the second receipt arrives. -/
theorem receipts_kept_of_turns :
    ∃ c, Reaches (system twoReads) (Timely twoReads) (startWatched twoReads onePass noReceipts) c ∧
      c.Returned 0 [] ∧ c.Returned 1 [] ∧ c.shared.lastRead 7 = some 3 ∧
      c.shared.pages.length = 1 ∧ c.shared.Kept := by
  have hexec : ((Machine.guarded (Config.step (system twoReads)) (Timely twoReads)).exec
      (startWatched twoReads onePass noReceipts)
      (.env .arrive :: List.replicate 3 (.run 0) ++ List.replicate 4 (.run 1) ++
        .env .arrive :: List.replicate 3 (.run 0))).any
        (fun c ↦ (c.task 0).returned? = some [] ∧ (c.task 1).returned? = some [] ∧
          c.shared.lastRead 7 = some 3 ∧ c.shared.pages.length = 1) = true := by
    decide +kernel
  obtain ⟨c, hrun, h0, h1, hlast, hpages⟩ := Machine.exists_run_of_exec hexec
  rw [Prog.returned?_eq_some_iff] at h0 h1
  exact ⟨c, hrun, h0, h1, hlast, hpages, receipts_kept growing_twoReads fresh_noReceipts hrun⟩

theorem World.not_kept {w : World} {d : ℤ} {r : Receipt} (hr : r ∈ w.recorded d)
    (hmax : ∀ r' ∈ w.recorded d, r'.maxId ≤ r.maxId) (hlast : w.lastRead d = none)
    (hspent : ¬ w.ShownSpent d r) : ¬ w.Kept := by
  intro h
  rcases h d r hr hmax with ⟨v, hv, -⟩ | h
  · rw [hlast] at hv
    cases hv
  · exact hspent h

/-- The second receipt arrives while the pass waits for the history: it is dropped, although the
page that was fetched shows it to be good. -/
theorem receipt_lost :
    Growing twoReads.reads ∧ Fresh noReceipts twoReads.reads ∧
    ∃ c, Reaches (system twoReads) anyMove (startWatched twoReads onePass noReceipts) c ∧
      c.Returned 0 [] ∧ c.Returned 1 [] ∧ c.shared.recorded 7 = [⟨2, 3⟩, ⟨1, 1⟩] ∧
      c.shared.lastRead 7 = none ∧ isSpent twoSent 3 = false ∧ ¬ c.shared.Kept := by
  refine ⟨growing_twoReads, fresh_noReceipts, ?_⟩
  have hexec : ((Machine.guarded (Config.step (system twoReads)) fun _ _ ↦ True).exec
      (startWatched twoReads onePass noReceipts)
      (.env .arrive :: List.replicate 3 (.run 0) ++ List.replicate 3 (.run 1) ++
        .env .arrive :: List.replicate 3 (.run 0) ++ [.run 1])).any
        (fun c ↦ (c.task 0).returned? = some [] ∧ (c.task 1).returned? = some [] ∧
          c.shared.recorded 7 = [⟨2, 3⟩, ⟨1, 1⟩] ∧ c.shared.lastRead 7 = none ∧
          ¬ c.shared.ShownSpent 7 ⟨2, 3⟩) = true := by
    decide +kernel
  obtain ⟨c, hrun, h0, h1, hrecorded, hlast, hspent⟩ := Machine.exists_run_of_exec hexec
  rw [Prog.returned?_eq_some_iff] at h0 h1
  refine ⟨c, hrun, h0, h1, hrecorded, hlast, rfl, World.not_kept ?_ ?_ hlast hspent⟩
  · rw [hrecorded]
    exact List.mem_cons_self
  · rw [hrecorded]
    decide

end TgMessenger.Suggest
