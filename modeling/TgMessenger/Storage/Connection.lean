import TgMessenger.Asyncio.Lock
import TgMessenger.Data.Machine
import Mathlib.Algebra.Order.BigOperators.Group.Finset
import Mathlib.Data.Nat.Notation
import Mathlib.Logic.Function.Basic

/-!
# The connection of a storage

`Storage` (`core/storage.py`) has one SQLite connection.  An operation takes the lock and hands
its work to a thread; a task that is cancelled meanwhile shields the thread's future again, and
remembers the cancellation until the thread has ended.
-/

universe u v

namespace TgMessenger.Storage.Connection

open Asyncio (Lock Fut)

variable {ε : Type u} {α : Type v}

/-- The operations: `connect`, `close`, and what else goes through `_run`. -/
inductive Operation where
  | connect
  | close
  | query
deriving DecidableEq

/-- How the call of an operation ends. -/
inductive Ending (ε : Type u) (α : Type v) where
  /-- With what the worker has returned or raised. -/
  | answered (result : Except ε α)
  /-- `connect` on a connection that is open. -/
  | already
  /-- With `CancelledError`. -/
  | cancelled

/-- What `_run_locked` waits for: the work itself, or the close after a `connect` that has ended
otherwise than by returning. -/
inductive Job (ε : Type u) (α : Type v) where
  | main
  | cleanup (ending : Ending ε α)

/-- The future of `asyncio.shield`. -/
inductive Shield where
  | pending
  | done
  | cancelled
deriving DecidableEq

/-- The future of `run_in_executor`. -/
inductive Worker (ε : Type u) (α : Type v) where
  | idle
  | queued
  /-- A thread does the work. -/
  | running
  /-- The thread has ended, and the loop does not know yet. -/
  | finished (result : Except ε α)
  | done (result : Except ε α)

/-- Where a task is. -/
inductive Place (ε : Type u) (α : Type v) where
  | outside
  /-- In the queue of the lock. -/
  | waiting
  /-- In `_run_locked`: whether `cancelled` is set, and the shield it awaits. -/
  | working (job : Job ε α) (cancelled : Bool) (shield : Shield)
  | ended (ending : Ending ε α)

/-- A task. -/
structure Task (ε : Type u) (α : Type v) where
  operation : Operation
  place : Place ε α
  /-- `_must_cancel`: the task is cancelled when it next runs. -/
  mustCancel : Bool
  worker : Worker ε α
  /-- The task was cancelled during its call. -/
  asked : Bool
  /-- What its work has returned or raised. -/
  answer : Option (Except ε α)

/-- The storage and its tasks. -/
structure World (ε : Type u) (α : Type v) where
  lock : Lock ℕ
  /-- `self._conn is not None`. -/
  connected : Bool
  task : ℕ → Task ε α

/-- What happens. -/
inductive Event (ε : Type u) (α : Type v) where
  | call (t : ℕ) (operation : Operation)
  /-- `Task.cancel`. -/
  | cancel (t : ℕ)
  /-- A thread takes up the work. -/
  | start (t : ℕ)
  /-- The thread ends, and leaves the connection open or closed. -/
  | finish (t : ℕ) (result : Except ε α) (connected : Bool)
  /-- The loop learns that the thread has ended. -/
  | complete (t : ℕ)
  /-- The shield learns that its future is done. -/
  | deliver (t : ℕ)
  /-- The loop runs the task. -/
  | resume (t : ℕ)

/-- What the loop and the threads do of their own. -/
def Event.internal : Event ε α → Bool
  | .start _ | .complete _ | .deliver _ | .resume _ => true
  | _ => false

namespace World

/-- No operation has been called. -/
def init : World ε α :=
  ⟨.free, false, fun _ ↦ ⟨.query, .outside, false, .idle, false, none⟩⟩

/-- A task becomes another. -/
def set (w : World ε α) (t : ℕ) (task : Task ε α) : World ε α :=
  { w with task := Function.update w.task t task }

/-- `run_in_executor` and the first `shield`. -/
def submit (w : World ε α) (t : ℕ) (job : Job ε α) : World ε α :=
  w.set t { w.task t with place := .working job false .pending, worker := .queued }

/-- The task leaves the lock, and its call ends. -/
def leave (w : World ε α) (t : ℕ) (ending : Ending ε α) : World ε α :=
  { w with lock := w.lock.release }.set t
    { w.task t with place := .ended ending, worker := .idle }

/-- The task has the lock. -/
def enter (w : World ε α) (t : ℕ) : World ε α :=
  if (w.task t).operation = .connect ∧ w.connected then w.leave t .already
  else w.submit t .main

/-- `_run_locked` ends. -/
def settle (w : World ε α) (t : ℕ) (job : Job ε α) (ending : Ending ε α) : World ε α :=
  match job, ending with
  | .main, .answered (.ok a) => w.leave t (.answered (.ok a))
  | .main, ending =>
    if (w.task t).operation = .connect then w.submit t (.cleanup ending) else w.leave t ending
  | .cleanup ending, .answered (.ok _) => w.leave t ending
  | .cleanup _, ending => w.leave t ending

/-- The connection after the work of a task. -/
def connectedAfter (w : World ε α) (task : Task ε α) (result : Except ε α) (connected : Bool) :
    Bool :=
  match task.place, task.operation, result with
  | .working (.cleanup _) .., _, .ok _ => false
  | .working .main .., .close, .ok _ => false
  | .working .main .., .connect, .ok _ => true
  -- `_connect_sync` may fail before or after it has opened the connection.
  | .working .main .., .connect, .error _ => connected
  | _, _, _ => w.connected

/-- The events. -/
def step : Machine (World ε α) (Event ε α)
  | w, .call t operation =>
    match (w.task t).place with
    | .outside =>
      let task := { w.task t with operation }
      match w.lock.acquire? with
      | some lock => some (({ w with lock }.set t task).enter t)
      | none => some ({ w with lock := w.lock.enqueue t }.set t { task with place := .waiting })
    | _ => none
  | w, .cancel t =>
    let task := { w.task t with asked := true }
    match task.place with
    | .waiting =>
      match w.lock.waiting? t with
      | some .pending => some ({ w with lock := w.lock.cancel t }.set t task)
      | _ => some (w.set t { task with mustCancel := true })
    | .working job cancelled .pending =>
      some (w.set t { task with place := .working job cancelled .cancelled })
    | .working .. => some (w.set t { task with mustCancel := true })
    | _ => none
  | w, .start t =>
    match (w.task t).worker with
    | .queued => some (w.set t { w.task t with worker := .running })
    | _ => none
  | w, .finish t result connected =>
    match (w.task t).worker, (w.task t).place with
    | .running, .working .main _ _ =>
      some ({ w with connected := w.connectedAfter (w.task t) result connected }.set t
        { w.task t with worker := .finished result, answer := some result })
    | .running, _ =>
      some ({ w with connected := w.connectedAfter (w.task t) result connected }.set t
        { w.task t with worker := .finished result })
    | _, _ => none
  | w, .complete t =>
    match (w.task t).worker with
    | .finished result => some (w.set t { w.task t with worker := .done result })
    | _ => none
  | w, .deliver t =>
    match (w.task t).place, (w.task t).worker with
    | .working job cancelled .pending, .done _ =>
      some (w.set t { w.task t with place := .working job cancelled .done })
    | _, _ => none
  | w, .resume t =>
    match (w.task t).place with
    | .waiting =>
      match w.lock.waiting? t, (w.task t).mustCancel with
      | some .woken, false => some ({ w with lock := w.lock.resume t }.enter t)
      | some .woken, true | some .cancelled, _ =>
        some ({ w with lock := w.lock.abandon t }.set t
          { w.task t with place := .ended .cancelled, mustCancel := false })
      | _, _ => none
    | .working job cancelled shield =>
      if shield = .cancelled ∨ (w.task t).mustCancel then
        -- `CancelledError` at the `await`: `shield` of a future that is done is that future.
        match (w.task t).worker with
        | .done _ =>
          some ((w.set t { w.task t with mustCancel := false }).settle t job .cancelled)
        | _ =>
          some (w.set t { w.task t with
            place := .working job true .pending, mustCancel := false })
      else
        match shield, (w.task t).worker with
        | .done, .done result =>
          some (w.settle t job (if cancelled then .cancelled else .answered result))
        | _, _ => none
    | _ => none

/-- Closing a connection does not fail. -/
def CloseWorks (w : World ε α) : Event ε α → Prop
  | .finish t result _ =>
    match (w.task t).place with
    | .working (.cleanup _) _ _ => result.isOk
    | _ => True
  | _ => True

end World

/-! ## What a task remembers -/

/-- In the lock. -/
def Place.inside : Place ε α → Bool
  | .working .. => true
  | _ => false

/-- What a worker that has ended has returned or raised. -/
def Worker.result? : Worker ε α → Option (Except ε α)
  | .finished result | .done result => some result
  | _ => none

/-- The work of a job, and what the task has kept of the work before. -/
def Job.Sound (task : Task ε α) : Job ε α → Prop
  | .main => ∀ result, task.worker.result? = some result → task.answer = some result
  | .cleanup ending =>
    (∀ result, task.worker.result? = some result → result.isOk) ∧
      (ending = .cancelled ∨ ∃ e, ending = .answered (.error e) ∧ task.answer = some (.error e))

/-- A job looks at the result of the worker, and at what was kept. -/
theorem Job.Sound.congr {job : Job ε α} {task task' : Task ε α} (h : job.Sound task)
    (hresult : task'.worker.result? = task.worker.result?) (hanswer : task'.answer = task.answer) :
    job.Sound task' := by
  cases job with
  | main =>
    intro result
    rw [hresult, hanswer]
    exact h result
  | cleanup ending =>
    rw [Job.Sound, hresult, hanswer]
    exact h

/-- The end of a call is that of its work. -/
def Ending.Sound (task : Task ε α) : Ending ε α → Prop
  | .answered result => task.answer = some result
  | .already => task.operation = .connect
  | .cancelled => True

/-- A task that was cancelled has it written somewhere, until its call ends with it. -/
def Task.Sound (lock : Lock ℕ) (t : ℕ) (task : Task ε α) : Prop :=
  match task.place with
  | .outside => task.worker = .idle ∧ task.asked = false ∧ task.mustCancel = false
  | .waiting =>
    task.worker = .idle ∧
      (task.asked = true ↔ task.mustCancel = true ∨ (t, .cancelled) ∈ lock.waiters)
  | .working job cancelled shield =>
    task.worker ≠ .idle ∧ (shield = .done → ∃ result, task.worker = .done result) ∧
      (task.mustCancel = true → shield ≠ .pending) ∧
      (task.asked = true ↔ cancelled = true ∨ task.mustCancel = true ∨ shield = .cancelled ∨
        job = .cleanup .cancelled) ∧ job.Sound task
  | .ended ending =>
    task.worker = .idle ∧ (task.asked = true ↔ ending = .cancelled) ∧ ending.Sound task

/-- Only a waiting task looks at the lock. -/
theorem Task.Sound.congr {lock lock' : Lock ℕ} {t : ℕ} {task : Task ε α}
    (h : task.Sound lock t)
    (hlock : (t, Fut.cancelled) ∈ lock'.waiters ↔ (t, Fut.cancelled) ∈ lock.waiters) :
    task.Sound lock' t := by
  unfold Task.Sound at h ⊢
  split
  · next hplace =>
    rw [hplace] at h
    exact h
  · next hplace =>
    rw [hplace] at h
    rw [hlock]
    exact h
  · next hplace =>
    rw [hplace] at h
    exact h
  · next hplace =>
    rw [hplace] at h
    exact h

/-- What the user does: the calls and the cancellations. -/
def Event.given : Event ε α → Bool
  | .call .. | .cancel _ => true
  | _ => false

/-! A bound on what a task still goes through. -/

def Job.rank : Job ε α → ℕ
  | .main => 16
  | .cleanup _ => 0

def Shield.rank : Shield → ℕ
  | .cancelled => 2
  | .pending => 1
  | .done => 0

def Worker.rank : Worker ε α → ℕ
  | .queued => 4
  | .running => 3
  | .finished _ => 2
  | .done _ => 1
  | .idle => 0

def Task.rank (task : Task ε α) : ℕ :=
  match task.place with
  | .outside | .ended _ => 0
  | .waiting => 30
  | .working job _ shield => job.rank + 3 * task.worker.rank + shield.rank

namespace World

/-- The invariant. -/
structure Sound (w : World ε α) : Prop where
  owned : ∃ owner, w.lock.Owned owner ∧ ∀ t, owner = some t ↔ (w.task t).place.inside
  queue : ∀ t, t ∈ w.lock.waiters.map Prod.fst ↔ (w.task t).place = .waiting
  awake : w.lock.Awake
  tasks : ∀ t, (w.task t).Sound w.lock t

theorem sound_init : (init : World ε α).Sound where
  owned := by
    refine ⟨none, Lock.owned_free, fun t ↦ ?_⟩
    constructor <;> intro h <;> cases h
  queue t := by
    constructor <;> intro h <;> cases h
  awake := Lock.awake_free
  tasks _ := ⟨rfl, rfl, rfl⟩

@[simp] theorem set_task_self (w : World ε α) (t : ℕ) (task : Task ε α) :
    (w.set t task).task t = task := Function.update_self ..

theorem set_task_of_ne (w : World ε α) {t u : ℕ} (h : u ≠ t) (task : Task ε α) :
    (w.set t task).task u = w.task u := Function.update_of_ne h ..

@[simp] theorem set_lock (w : World ε α) (t : ℕ) (task : Task ε α) :
    (w.set t task).lock = w.lock := rfl

/-- All is well but for one task, which holds the lock. -/
structure Inside (w : World ε α) (t : ℕ) : Prop where
  owned : w.lock.Owned (some t)
  alone : ∀ u, u ≠ t → (w.task u).place.inside = false
  queue : ∀ u, u ≠ t → (u ∈ w.lock.waiters.map Prod.fst ↔ (w.task u).place = .waiting)
  tasks : ∀ u, u ≠ t → (w.task u).Sound w.lock u

theorem Sound.inside {w : World ε α} (h : w.Sound) {t : ℕ} (ht : (w.task t).place.inside) :
    w.Inside t := by
  obtain ⟨owner, howned, howner⟩ := h.owned
  obtain rfl := (howner t).mpr ht
  refine ⟨howned, fun u hu ↦ ?_, fun u _ ↦ h.queue u, fun u _ ↦ h.tasks u⟩
  rw [Bool.eq_false_iff]
  intro hinside
  exact hu (Option.some.inj ((howner u).mpr hinside)).symm

/-- What the task itself does in the lock. -/
theorem Inside.set {w : World ε α} {t : ℕ} (h : w.Inside t) (task : Task ε α) :
    (w.set t task).Inside t where
  owned := h.owned
  alone u hu := by
    rw [set_task_of_ne w hu]
    exact h.alone u hu
  queue u hu := by
    rw [set_task_of_ne w hu]
    exact h.queue u hu
  tasks u hu := by
    rw [set_task_of_ne w hu]
    exact h.tasks u hu

/-- The task is in the lock. -/
theorem Inside.sound {w : World ε α} {t : ℕ} (h : w.Inside t) (hinside : (w.task t).place.inside)
    (htask : (w.task t).Sound w.lock t) : w.Sound where
  owned := by
    refine ⟨some t, h.owned, fun u ↦ ?_⟩
    by_cases hu : u = t
    · subst hu
      exact ⟨fun _ ↦ hinside, fun _ ↦ rfl⟩
    · rw [h.alone u hu]
      exact ⟨fun heq ↦ absurd (Option.some.inj heq).symm hu, fun hf ↦ by cases hf⟩
  queue u := by
    by_cases hu : u = t
    · subst hu
      refine ⟨fun hmem ↦ absurd hmem (h.owned.owner_notMem u rfl), fun hwaiting ↦ ?_⟩
      rw [hwaiting] at hinside
      cases hinside
    · exact h.queue u hu
  awake := Lock.awake_of_locked h.owned.locked_eq
  tasks u := by
    by_cases hu : u = t
    · subst hu
      exact htask
    · exact h.tasks u hu

/-- The task leaves the lock. -/
theorem Inside.leave {w : World ε α} {t : ℕ} (h : w.Inside t) {ending : Ending ε α}
    (hasked : (w.task t).asked = true ↔ ending = .cancelled) (hending : ending.Sound (w.task t)) :
    (w.leave t ending).Sound where
  owned := by
    refine ⟨none, h.owned.release, fun u ↦ ?_⟩
    by_cases hu : u = t
    · subst hu
      rw [World.leave, set_task_self]
      constructor <;> intro hf <;> cases hf
    · rw [World.leave, set_task_of_ne _ hu, h.alone u hu]
      constructor <;> intro hf <;> cases hf
  queue u := by
    rw [World.leave, set_lock, Lock.map_fst_release]
    by_cases hu : u = t
    · subst hu
      rw [set_task_self]
      exact ⟨fun hmem ↦ absurd hmem (h.owned.owner_notMem u rfl), fun hf ↦ by cases hf⟩
    · rw [set_task_of_ne _ hu]
      exact h.queue u hu
  awake := Lock.awake_wakeUpFirst _
  tasks u := by
    rw [World.leave, set_lock]
    by_cases hu : u = t
    · subst hu
      rw [set_task_self]
      refine ⟨rfl, hasked, ?_⟩
      cases ending <;> exact hending
    · rw [set_task_of_ne _ hu]
      exact (h.tasks u hu).congr Lock.mem_cancelled_release

/-- The task hands its work to a thread. -/
theorem Inside.submit {w : World ε α} {t : ℕ} (h : w.Inside t) {job : Job ε α}
    (hmust : (w.task t).mustCancel = false)
    (hasked : (w.task t).asked = true ↔ job = .cleanup .cancelled)
    (hjob : ∀ ending, job = .cleanup ending → ending = .cancelled ∨
      ∃ e, ending = .answered (.error e) ∧ (w.task t).answer = some (.error e)) :
    (w.submit t job).Sound := by
  unfold World.submit
  refine (h.set _).sound (by rw [set_task_self]; rfl) ?_
  rw [set_task_self]
  refine ⟨(fun hidle ↦ by cases hidle), (fun hdone ↦ by cases hdone), ?_, ?_, ?_⟩
  · intro hmust'
    rw [hmust] at hmust'
    cases hmust'
  · simp [hasked, hmust]
  · cases job with
    | main => exact fun result hresult ↦ by cases hresult
    | cleanup ending =>
      exact ⟨(fun result hresult ↦ by cases hresult), hjob ending rfl⟩

/-- A task that was not cancelled takes the lock. -/
theorem Inside.enter {w : World ε α} {t : ℕ} (h : w.Inside t)
    (hmust : (w.task t).mustCancel = false) (hasked : (w.task t).asked = false) :
    (w.enter t).Sound := by
  unfold World.enter
  split
  · next hconnect => exact h.leave (by simp [hasked]) hconnect.1
  · exact h.submit hmust (by simp [hasked]) fun _ hjob ↦ by cases hjob

/-- `_run_locked` ends with the result of its worker, or with the cancellation. -/
theorem Inside.settle {w : World ε α} {t : ℕ} (h : w.Inside t) {job : Job ε α}
    {ending : Ending ε α} (hjob : job.Sound (w.task t))
    (hending : ending = .cancelled ∨
      ∃ result, ending = .answered result ∧ (w.task t).worker.result? = some result)
    (hmust : (w.task t).mustCancel = false)
    (hasked : (w.task t).asked = true ↔ ending = .cancelled ∨ job = .cleanup .cancelled) :
    (w.settle t job ending).Sound := by
  cases job with
  | main =>
    have hasked' : (w.task t).asked = true ↔ ending = .cancelled := by
      rw [hasked]
      exact or_iff_left fun hcleanup ↦ by cases hcleanup
    -- A call of `connect` that has not returned closes what it has opened.
    have hother (herror : ending = .cancelled ∨
        ∃ e, ending = .answered (.error e) ∧ (w.task t).answer = some (.error e)) :
        (if (w.task t).operation = .connect then w.submit t (.cleanup ending)
          else w.leave t ending).Sound := by
      split
      · refine h.submit hmust ?_ ?_
        · rw [hasked', Job.cleanup.injEq]
        · intro ending' hending'
          cases hending'
          exact herror
      · refine h.leave hasked' ?_
        rcases herror with rfl | ⟨e, rfl, hanswer⟩
        · trivial
        · exact hanswer
    rcases hending with rfl | ⟨result, rfl, hresult⟩
    · exact hother (.inl rfl)
    · cases result with
      | ok a => exact h.leave hasked' (hjob _ hresult)
      | error e => exact hother (.inr ⟨e, rfl, hjob _ hresult⟩)
  | cleanup before =>
    obtain ⟨hok, hbefore⟩ := hjob
    rcases hending with rfl | ⟨result, rfl, hresult⟩
    · exact h.leave (by simp [hasked]) trivial
    · cases result with
      | ok a =>
        refine h.leave ?_ ?_
        · rw [hasked, Job.cleanup.injEq]
          exact or_iff_right fun hcancelled ↦ by cases hcancelled
        · rcases hbefore with rfl | ⟨e, rfl, hanswer⟩
          · trivial
          · exact hanswer
      | error e => cases hok _ hresult

/-- A task takes a lock that nobody holds. -/
theorem Sound.takes {w : World ε α} (h : w.Sound) {t : ℕ} {lock : Lock ℕ}
    (howned : lock.Owned (some t)) (hfree : ∀ u, (w.task u).place.inside = false)
    (hqueue : ∀ u, u ≠ t →
      (u ∈ lock.waiters.map Prod.fst ↔ u ∈ w.lock.waiters.map Prod.fst))
    (hcancelled : ∀ u, u ≠ t →
      ((u, Fut.cancelled) ∈ lock.waiters ↔ (u, Fut.cancelled) ∈ w.lock.waiters)) :
    Inside { w with lock } t where
  owned := howned
  alone u _ := hfree u
  queue u hu := (hqueue u hu).trans (h.queue u)
  tasks u hu := (h.tasks u).congr (hcancelled u hu)

/-- A lock changes that a task does not hold. -/
theorem Sound.update {w : World ε α} (h : w.Sound) {t : ℕ} {lock : Lock ℕ} {task : Task ε α}
    (howned : ∀ owner, owner ≠ some t → w.lock.Owned owner → lock.Owned owner)
    (hbefore : (w.task t).place.inside = false) (hafter : task.place.inside = false)
    (hqueue : ∀ u, u ≠ t →
      (u ∈ lock.waiters.map Prod.fst ↔ u ∈ w.lock.waiters.map Prod.fst))
    (hqueue' : t ∈ lock.waiters.map Prod.fst ↔ task.place = .waiting)
    (hawake : lock.Awake)
    (hcancelled : ∀ u, u ≠ t →
      ((u, Fut.cancelled) ∈ lock.waiters ↔ (u, Fut.cancelled) ∈ w.lock.waiters))
    (htask : task.Sound lock t) : (({ w with lock } : World ε α).set t task).Sound where
  owned := by
    obtain ⟨owner, hw, howner⟩ := h.owned
    have hne : owner ≠ some t := by
      intro heq
      rw [(howner t).mp heq] at hbefore
      cases hbefore
    refine ⟨owner, howned owner hne hw, fun u ↦ ?_⟩
    rw [howner]
    by_cases hu : u = t
    · subst hu
      rw [set_task_self, hbefore, hafter]
    · rw [set_task_of_ne _ hu]
  queue u := by
    by_cases hu : u = t
    · subst hu
      rw [set_task_self]
      exact hqueue'
    · rw [set_task_of_ne _ hu]
      exact (hqueue u hu).trans (h.queue u)
  awake := hawake
  tasks u := by
    by_cases hu : u = t
    · subst hu
      rw [set_task_self]
      exact htask
    · rw [set_task_of_ne _ hu]
      exact (h.tasks u).congr (hcancelled u hu)

/-! ## Events -/

theorem Sound.nodup {w : World ε α} (h : w.Sound) : (w.lock.waiters.map Prod.fst).Nodup := by
  obtain ⟨_, howned, _⟩ := h.owned
  exact howned.nodup

/-- A task is outside, and calls an operation. -/
theorem Sound.call {w w' : World ε α} (h : w.Sound) {t : ℕ} {operation : Operation}
    (hstep : w.step (.call t operation) = some w') : w'.Sound := by
  dsimp only [World.step] at hstep
  split at hstep
  · next hplace =>
    have htask := h.tasks t
    rw [Task.Sound, hplace] at htask
    obtain ⟨hidle, hasked, hmust⟩ := htask
    have hout : t ∉ w.lock.waiters.map Prod.fst := by
      rw [h.queue t, hplace]
      intro hf
      cases hf
    split at hstep
    · next lock hacquire =>
      cases hstep
      obtain ⟨owner, howned, howner⟩ := h.owned
      obtain ⟨rfl, howned'⟩ := howned.acquire hacquire hout
      have hwaiters := Lock.waiters_of_acquire? hacquire
      have hinside : Inside { w with lock } t := by
        refine h.takes howned' (fun u ↦ ?_) (fun u _ ↦ by rw [hwaiters]) fun u _ ↦ by rw [hwaiters]
        rw [Bool.eq_false_iff]
        intro hu
        cases (howner u).mpr hu
      apply (hinside.set _).enter
      · rw [set_task_self]
        exact hmust
      · rw [set_task_self]
        exact hasked
    · next hacquire =>
      cases hstep
      refine h.update (fun owner hne howned ↦ howned.enqueue hout hne) (by rw [hplace]; rfl) rfl
        (fun u hu ↦ ?_) ?_ (h.awake.enqueue hacquire t) (fun u _ ↦ Lock.mem_cancelled_enqueue) ?_
      · simp [Lock.enqueue, hu]
      · simp [Lock.enqueue]
      · refine ⟨hidle, ?_⟩
        have hnot : (t, Fut.cancelled) ∉ (w.lock.enqueue t).waiters := by
          rw [Lock.mem_cancelled_enqueue]
          exact fun hmem ↦ hout (List.mem_map_of_mem hmem)
        simp [hasked, hmust, hnot]
  · cases hstep

/-- A task is cancelled. -/
theorem Sound.cancel {w w' : World ε α} (h : w.Sound) {t : ℕ}
    (hstep : w.step (.cancel t) = some w') : w'.Sound := by
  have htask := h.tasks t
  rw [Task.Sound] at htask
  dsimp only [World.step] at hstep
  split at hstep
  · next hplace =>
    rw [hplace] at htask
    obtain ⟨hidle, hasked⟩ := htask
    have hin : t ∈ w.lock.waiters.map Prod.fst := (h.queue t).mpr hplace
    have hbefore : (w.task t).place.inside = false := by
      rw [hplace]
      rfl
    split at hstep
    · next hpending =>
      cases hstep
      have hmem := (Lock.waiting?_eq_some_iff h.nodup).mp hpending
      refine h.update (fun owner _ howned ↦ howned.cancel t) hbefore hbefore
        (fun u _ ↦ by rw [Lock.map_fst_cancel]) ?_ (h.awake.cancel t)
        (fun u hu ↦ Lock.mem_cancelled_cancel hu) ?_
      · rw [Lock.map_fst_cancel]
        exact h.queue t
      · rw [Task.Sound]
        dsimp only
        rw [hplace]
        exact ⟨hidle, fun _ ↦ .inr (Lock.mem_cancelled_cancel_self hmem), fun _ ↦ rfl⟩
    · cases hstep
      refine h.update (fun owner _ howned ↦ howned) hbefore hbefore (fun u _ ↦ Iff.rfl)
        (h.queue t) h.awake (fun u _ ↦ Iff.rfl) ?_
      rw [Task.Sound]
      dsimp only
      rw [hplace]
      exact ⟨hidle, fun _ ↦ .inl rfl, fun _ ↦ rfl⟩
  · next job remembered hplace =>
    rw [hplace] at htask
    obtain ⟨hbusy, _, _, _, hjob⟩ := htask
    cases hstep
    refine ((h.inside (by rw [hplace]; rfl)).set _).sound (by rw [set_task_self]; rfl) ?_
    rw [set_task_self]
    exact ⟨hbusy, (fun hdone ↦ by cases hdone), (fun _ hpending ↦ by cases hpending),
      ⟨fun _ ↦ .inr (.inr (.inl rfl)), fun _ ↦ rfl⟩, hjob.congr rfl rfl⟩
  · next job remembered shield hne hplace =>
    rw [hplace] at htask
    obtain ⟨hbusy, hdone, _, _, hjob⟩ := htask
    cases hstep
    have hinside : (w.task t).place.inside := by
      rw [hplace]
      rfl
    refine ((h.inside hinside).set _).sound (by rw [set_task_self]; exact hinside) ?_
    rw [set_task_self, Task.Sound]
    dsimp only
    rw [hplace]
    refine ⟨hbusy, hdone, fun _ hpending ↦ ?_, ⟨fun _ ↦ .inr (.inl rfl), fun _ ↦ rfl⟩,
      hjob.congr rfl rfl⟩
    exact hne hpending
  · cases hstep

/-- Only a task in the lock has a worker. -/
theorem Sound.working {w : World ε α} (h : w.Sound) {t : ℕ} (hbusy : (w.task t).worker ≠ .idle) :
    ∃ job remembered shield, (w.task t).place = .working job remembered shield := by
  have htask := h.tasks t
  rw [Task.Sound] at htask
  cases hplace : (w.task t).place with
  | working job remembered shield => exact ⟨job, remembered, shield, rfl⟩
  | _ =>
    rw [hplace] at htask
    exact absurd htask.1 hbusy

/-- The worker of a task goes on. -/
theorem Sound.work {w : World ε α} (h : w.Sound) {t : ℕ} {worker : Worker ε α}
    {answer : Option (Except ε α)} {connected : Bool} (hbusy : (w.task t).worker ≠ .idle)
    (hbusy' : worker ≠ .idle)
    (hdone : ∀ result, (w.task t).worker = .done result → worker = .done result)
    (hjob : ∀ job remembered shield, (w.task t).place = .working job remembered shield →
      job.Sound (w.task t) → job.Sound { w.task t with worker, answer }) :
    (({ w with connected } : World ε α).set t { w.task t with worker, answer }).Sound := by
  obtain ⟨job, remembered, shield, hplace⟩ := h.working hbusy
  have hinside : (w.task t).place.inside := by
    rw [hplace]
    rfl
  have hin : Inside { w with connected } t := by
    obtain ⟨howned, halone, hqueue, htasks⟩ := h.inside hinside
    exact ⟨howned, halone, hqueue, htasks⟩
  refine (hin.set _).sound (by rw [set_task_self]; exact hinside) ?_
  have htask := h.tasks t
  rw [Task.Sound, hplace] at htask
  obtain ⟨_, hshield, hmust, hasked, hsound⟩ := htask
  rw [set_task_self, Task.Sound]
  dsimp only
  rw [hplace]
  refine ⟨hbusy', fun hs ↦ ?_, hmust, hasked, hjob _ _ _ hplace hsound⟩
  obtain ⟨result, hresult⟩ := hshield hs
  exact ⟨result, hdone result hresult⟩

theorem Sound.start {w w' : World ε α} (h : w.Sound) {t : ℕ}
    (hstep : w.step (.start t) = some w') : w'.Sound := by
  dsimp only [World.step] at hstep
  split at hstep
  · next hworker =>
    cases hstep
    refine h.work (by rw [hworker]; intro hf; cases hf) (fun hf ↦ by cases hf) ?_ ?_
    · intro result hdone
      rw [hworker] at hdone
      cases hdone
    · intro job _ _ _ hjob
      cases job with
      | main => exact fun result hresult ↦ by cases hresult
      | cleanup ending => exact ⟨(fun result hresult ↦ by cases hresult), hjob.2⟩
  · cases hstep

theorem Sound.finish {w w' : World ε α} (h : w.Sound) {t : ℕ} {result : Except ε α}
    {connected : Bool} (hclose : w.CloseWorks (.finish t result connected))
    (hstep : w.step (.finish t result connected) = some w') : w'.Sound := by
  dsimp only [World.step] at hstep
  split at hstep
  · next remembered shield hworker hplace =>
    cases hstep
    refine h.work (by rw [hworker]; intro hf; cases hf) (fun hf ↦ by cases hf) ?_ ?_
    · intro result hdone
      rw [hworker] at hdone
      cases hdone
    · intro job _ _ hplace' _
      rw [hplace] at hplace'
      cases hplace'
      intro result' hresult
      cases hresult
      rfl
  · next hworker hnot =>
    cases hstep
    refine h.work (by rw [hworker]; intro hf; cases hf) (fun hf ↦ by cases hf) ?_ ?_
    · intro result hdone
      rw [hworker] at hdone
      cases hdone
    · intro job remembered shield hplace hjob
      cases job with
      | main => exact absurd hplace (hnot remembered shield)
      | cleanup ending =>
        dsimp only [CloseWorks] at hclose
        rw [hplace] at hclose
        refine ⟨fun result' hresult ↦ ?_, hjob.2⟩
        cases hresult
        exact hclose
  · cases hstep

theorem Sound.complete {w w' : World ε α} (h : w.Sound) {t : ℕ}
    (hstep : w.step (.complete t) = some w') : w'.Sound := by
  dsimp only [World.step] at hstep
  split at hstep
  · next result hworker =>
    cases hstep
    refine h.work (by rw [hworker]; intro hf; cases hf) (fun hf ↦ by cases hf) ?_ ?_
    · intro result hdone
      rw [hworker] at hdone
      cases hdone
    · intro job _ _ _ hjob
      refine hjob.congr ?_ rfl
      rw [hworker]
      rfl
  · cases hstep

theorem Sound.deliver {w w' : World ε α} (h : w.Sound) {t : ℕ}
    (hstep : w.step (.deliver t) = some w') : w'.Sound := by
  have htask := h.tasks t
  rw [Task.Sound] at htask
  dsimp only [World.step] at hstep
  split at hstep
  · next job remembered result hplace hworker =>
    rw [hplace] at htask
    obtain ⟨hbusy, _, hmust, hasked, hjob⟩ := htask
    cases hstep
    refine ((h.inside (by rw [hplace]; rfl)).set _).sound (by rw [set_task_self]; rfl) ?_
    rw [set_task_self]
    refine ⟨hbusy, fun _ ↦ ⟨result, hworker⟩, (fun _ hpending ↦ by cases hpending), ?_,
      hjob.congr rfl rfl⟩
    rw [hasked]
    simp
  · cases hstep

/-- A waiter that was cancelled leaves the queue. -/
theorem Sound.abandon {w : World ε α} (h : w.Sound) {t : ℕ} (hplace : (w.task t).place = .waiting)
    (hasked : (w.task t).asked = true) :
    (({ w with lock := w.lock.abandon t } : World ε α).set t
      { w.task t with place := .ended .cancelled, mustCancel := false }).Sound := by
  have htask := h.tasks t
  rw [Task.Sound, hplace] at htask
  have hbefore : (w.task t).place.inside = false := by
    rw [hplace]
    rfl
  refine h.update (fun owner _ howned ↦ howned.abandon t) hbefore rfl (fun u hu ↦ ?_) ?_
    (Lock.awake_abandon _ t) (fun u hu ↦ Lock.mem_cancelled_abandon hu) ?_
  · rw [Lock.map_fst_abandon, Lock.mem_map_fst_remove]
    exact and_iff_left hu
  · rw [Lock.map_fst_abandon]
    exact ⟨fun hmem ↦ absurd hmem (Lock.notMem_remove _ t), fun hf ↦ by cases hf⟩
  · exact ⟨htask.1, ⟨fun _ ↦ rfl, fun _ ↦ hasked⟩, trivial⟩

/-- The loop runs a waiter. -/
theorem Sound.resume_waiting {w w' : World ε α} (h : w.Sound) {t : ℕ}
    (hplace : (w.task t).place = .waiting) (hstep : w.step (.resume t) = some w') : w'.Sound := by
  have htask := h.tasks t
  rw [Task.Sound, hplace] at htask
  obtain ⟨-, hasked⟩ := htask
  dsimp only [World.step] at hstep
  rw [hplace] at hstep
  dsimp only at hstep
  split at hstep
  · next hwoken hmust =>
    cases hstep
    obtain ⟨owner, howned, howner⟩ := h.owned
    obtain ⟨rfl, howned'⟩ := howned.resume hwoken
    have hinside : Inside { w with lock := w.lock.resume t } t := by
      refine h.takes howned' (fun u ↦ ?_) (fun u hu ↦ ?_) fun u hu ↦ ?_
      · rw [Bool.eq_false_iff]
        intro hu
        cases (howner u).mpr hu
      · exact Lock.mem_map_fst_remove.trans (and_iff_left hu)
      · exact Lock.mem_cancelled_remove hu
    refine hinside.enter hmust ?_
    -- A waiter that was woken was not cancelled.
    rw [Bool.eq_false_iff]
    intro hcancelled
    rcases hasked.mp hcancelled with hmust' | hmem
    · rw [hmust] at hmust'
      cases hmust'
    · rw [(Lock.waiting?_eq_some_iff h.nodup).mpr hmem] at hwoken
      cases hwoken
  · next hwoken hmust =>
    cases hstep
    exact h.abandon hplace (hasked.mpr (.inl hmust))
  · next hcancelled =>
    cases hstep
    exact h.abandon hplace (hasked.mpr (.inr (Lock.mem_waiters_of_waiting hcancelled)))
  · cases hstep

/-- The loop runs a task in the lock. -/
theorem Sound.resume_working {w w' : World ε α} (h : w.Sound) {t : ℕ} {job : Job ε α}
    {remembered : Bool} {shield : Shield}
    (hplace : (w.task t).place = .working job remembered shield)
    (hstep : w.step (.resume t) = some w') : w'.Sound := by
  have htask := h.tasks t
  rw [Task.Sound, hplace] at htask
  obtain ⟨hbusy, hdone, hmust, hasked, hjob⟩ := htask
  have hin := h.inside (by rw [hplace]; rfl)
  dsimp only [World.step] at hstep
  rw [hplace] at hstep
  dsimp only at hstep
  split at hstep
  · next hcancelled =>
    have hasked' : (w.task t).asked = true := by
      rw [hasked]
      rcases hcancelled with hs | hm
      · exact .inr (.inr (.inl hs))
      · exact .inr (.inl hm)
    split at hstep
    · next result hworker =>
      cases hstep
      apply (hin.set _).settle
      · rw [set_task_self]
        exact hjob.congr rfl rfl
      · exact .inl rfl
      · rw [set_task_self]
      · rw [set_task_self]
        exact ⟨fun _ ↦ .inl rfl, fun _ ↦ hasked'⟩
    · cases hstep
      refine (hin.set _).sound (by rw [set_task_self]; rfl) ?_
      rw [set_task_self]
      exact ⟨hbusy, (fun hf ↦ by cases hf), (fun hf ↦ by cases hf),
        ⟨fun _ ↦ .inl rfl, fun _ ↦ hasked'⟩, hjob.congr rfl rfl⟩
  · next hnot =>
    rw [not_or] at hnot
    split at hstep
    · next result hworker =>
      cases hstep
      refine hin.settle hjob ?_ (Bool.eq_false_iff.mpr hnot.2) ?_
      · split
        · exact .inl rfl
        · refine .inr ⟨result, rfl, ?_⟩
          rw [hworker]
          rfl
      · rw [hasked]
        cases remembered <;> simp [hnot.2]
    · cases hstep

/-- The loop runs a task. -/
theorem Sound.resume {w w' : World ε α} (h : w.Sound) {t : ℕ}
    (hstep : w.step (.resume t) = some w') : w'.Sound := by
  cases hplace : (w.task t).place with
  | waiting => exact h.resume_waiting hplace hstep
  | working job remembered shield => exact h.resume_working hplace hstep
  | _ =>
    dsimp only [World.step] at hstep
    rw [hplace] at hstep
    cases hstep

theorem Sound.step {w w' : World ε α} (h : w.Sound) {e : Event ε α} (hclose : w.CloseWorks e)
    (hstep : w.step e = some w') : w'.Sound := by
  cases e with
  | call t operation => exact h.call hstep
  | cancel t => exact h.cancel hstep
  | start t => exact h.start hstep
  | finish t result connected => exact h.finish hclose hstep
  | complete t => exact h.complete hstep
  | deliver t => exact h.deliver hstep
  | resume t => exact h.resume hstep

/-! ## No call goes on for ever -/

/-- Where no thread is at work, a task in the lock can go on. -/
theorem Sound.inside_goes_on {w : World ε α} (h : w.Sound) {t : ℕ}
    (ht : (w.task t).place.inside) :
    (w.task t).worker = .running ∨ ∃ e : Event ε α, e.internal ∧ (w.step e).isSome := by
  have htask := h.tasks t
  rw [Task.Sound] at htask
  cases hplace : (w.task t).place with
  | working job remembered shield =>
    rw [hplace] at htask
    obtain ⟨hbusy, hdone, _, _, _⟩ := htask
    cases hworker : (w.task t).worker with
    | idle => exact absurd hworker hbusy
    | queued =>
      refine .inr ⟨.start t, rfl, ?_⟩
      dsimp only [World.step]
      rw [hworker]
      rfl
    | running => exact .inl rfl
    | finished result =>
      refine .inr ⟨.complete t, rfl, ?_⟩
      dsimp only [World.step]
      rw [hworker]
      rfl
    | done result =>
      cases shield with
      | pending =>
        refine .inr ⟨.deliver t, rfl, ?_⟩
        dsimp only [World.step]
        rw [hplace, hworker]
        rfl
      | done =>
        refine .inr ⟨.resume t, rfl, ?_⟩
        dsimp only [World.step]
        rw [hplace]
        dsimp only
        rw [hworker]
        split <;> rfl
      | cancelled =>
        refine .inr ⟨.resume t, rfl, ?_⟩
        dsimp only [World.step]
        rw [hplace]
        dsimp only
        rw [hworker, if_pos (.inl rfl)]
        rfl
  | _ =>
    rw [hplace] at ht
    cases ht

/-- Where no thread is at work, a call that has not ended goes on, or waits for one that does. -/
theorem Sound.goes_on {w : World ε α} (h : w.Sound) {t : ℕ} (hcalled : (w.task t).place ≠ .outside)
    (hgoes : ∀ ending, (w.task t).place ≠ .ended ending) :
    (∃ u, (w.task u).worker = .running) ∨ ∃ e : Event ε α, e.internal ∧ (w.step e).isSome := by
  cases hplace : (w.task t).place with
  | outside => exact absurd hplace hcalled
  | ended ending => exact absurd hplace (hgoes ending)
  | working job remembered shield =>
    exact (h.inside_goes_on (by rw [hplace]; rfl)).imp_left fun hrunning ↦ ⟨t, hrunning⟩
  | waiting =>
    obtain ⟨owner, howned, howner⟩ := h.owned
    cases hlocked : w.lock.locked with
    | true =>
      obtain ⟨u, rfl⟩ := Option.isSome_iff_exists.mp (howned.locked_eq.symm.trans hlocked)
      exact (h.inside_goes_on ((howner u).mp rfl)).imp_left fun hrunning ↦ ⟨u, hrunning⟩
    | false =>
      -- The first waiter of a lock that is free is not asleep.
      have hin := (h.queue t).mpr hplace
      cases hwaiters : w.lock.waiters with
      | nil =>
        rw [hwaiters] at hin
        cases hin
      | cons first rest =>
        obtain ⟨u, f⟩ := first
        have hawake := h.awake hlocked (u, f) (by rw [hwaiters]; rfl)
        have hmem : (u, f) ∈ w.lock.waiters := hwaiters ▸ List.mem_cons_self
        have hwaiting := (Lock.waiting?_eq_some_iff h.nodup).mpr hmem
        have hplace' := (h.queue u).mp (List.mem_map_of_mem hmem)
        refine .inr ⟨.resume u, rfl, ?_⟩
        dsimp only [World.step]
        rw [hplace']
        dsimp only
        rw [hwaiting]
        cases f with
        | pending => exact absurd rfl hawake
        | cancelled => rfl
        | woken => cases (w.task u).mustCancel <;> rfl

/-- A task becomes another of smaller rank. -/
theorem rank_set {w : World ε α} {t : ℕ} {task : Task ε α} (h : task.rank < (w.task t).rank) :
    ((w.set t task).task t).rank < (w.task t).rank ∧ ∀ u, u ≠ t →
      (w.set t task).task u = w.task u := by
  rw [set_task_self]
  exact ⟨h, fun u hu ↦ set_task_of_ne w hu task⟩

theorem rank_leave (w : World ε α) (t : ℕ) (ending : Ending ε α) :
    ((w.leave t ending).task t).rank = 0 ∧ ∀ u, u ≠ t →
      (w.leave t ending).task u = w.task u := by
  rw [leave, set_task_self]
  exact ⟨rfl, fun u hu ↦ set_task_of_ne _ hu _⟩

theorem rank_submit (w : World ε α) (t : ℕ) (job : Job ε α) :
    ((w.submit t job).task t).rank = job.rank + 13 ∧ ∀ u, u ≠ t →
      (w.submit t job).task u = w.task u := by
  rw [submit, set_task_self]
  exact ⟨rfl, fun u hu ↦ set_task_of_ne _ hu _⟩

/-- A task that takes the lock has at most its work before it. -/
theorem rank_enter (w : World ε α) (t : ℕ) :
    ((w.enter t).task t).rank ≤ 29 ∧ ∀ u, u ≠ t → (w.enter t).task u = w.task u := by
  unfold enter
  split
  · obtain ⟨hrank, hother⟩ := rank_leave w t .already
    exact ⟨hrank ▸ Nat.zero_le _, hother⟩
  · obtain ⟨hrank, hother⟩ := rank_submit w t .main
    exact ⟨hrank ▸ Nat.le_refl _, hother⟩

/-- After the work only the close is left. -/
theorem rank_settle (w : World ε α) (t : ℕ) (job : Job ε α) (ending : Ending ε α) :
    ((w.settle t job ending).task t).rank < job.rank + 1 ∧ ∀ u, u ≠ t →
      (w.settle t job ending).task u = w.task u := by
  have hleave (ending : Ending ε α) : ((w.leave t ending).task t).rank < job.rank + 1 ∧
      ∀ u, u ≠ t → (w.leave t ending).task u = w.task u := by
    obtain ⟨hrank, hother⟩ := rank_leave w t ending
    exact ⟨hrank ▸ Nat.succ_pos _, hother⟩
  unfold settle
  split
  · exact hleave _
  · split
    · obtain ⟨hrank, hother⟩ := rank_submit w t (.cleanup ending)
      rw [hrank]
      exact ⟨Nat.lt_of_sub_eq_succ rfl, hother⟩
    · exact hleave _
  · exact hleave _
  · exact hleave _

/-- One task comes nearer to its end, and the others stay where they are. -/
def Nearer (w w' : World ε α) : Prop :=
  ∃ t, (w'.task t).rank < (w.task t).rank ∧ ∀ u, u ≠ t → w'.task u = w.task u

/-- The worker of a task goes on. -/
theorem Sound.nearer_work {w : World ε α} (h : w.Sound) {t : ℕ} {worker : Worker ε α}
    {answer : Option (Except ε α)} {connected : Bool} (hbusy : (w.task t).worker ≠ .idle)
    (hrank : worker.rank < (w.task t).worker.rank) :
    w.Nearer (({ w with connected } : World ε α).set t { w.task t with worker, answer }) := by
  obtain ⟨job, remembered, shield, hplace⟩ := h.working hbusy
  refine ⟨t, rank_set (w := { w with connected }) ?_⟩
  rw [Task.rank, Task.rank, hplace]
  dsimp only
  omega

/-- The loop runs a waiter. -/
theorem nearer_resume_waiting {w w' : World ε α} {t : ℕ} (hplace : (w.task t).place = .waiting)
    (hstep : w.step (.resume t) = some w') : w.Nearer w' := by
  have hrank : (w.task t).rank = 30 := by rw [Task.rank, hplace]
  dsimp only [World.step] at hstep
  rw [hplace] at hstep
  dsimp only at hstep
  split at hstep
  · cases hstep
    obtain ⟨hle, hother⟩ := rank_enter { w with lock := w.lock.resume t } t
    exact ⟨t, by rw [hrank]; exact Nat.lt_succ_of_le hle, hother⟩
  · cases hstep
    exact ⟨t, rank_set (by rw [hrank]; exact Nat.succ_pos _)⟩
  · cases hstep
    exact ⟨t, rank_set (by rw [hrank]; exact Nat.succ_pos _)⟩
  · cases hstep

/-- The loop runs a task in the lock. -/
theorem Sound.nearer_resume_working {w w' : World ε α} (h : w.Sound) {t : ℕ} {job : Job ε α}
    {remembered : Bool} {shield : Shield}
    (hplace : (w.task t).place = .working job remembered shield)
    (hstep : w.step (.resume t) = some w') : w.Nearer w' := by
  have htask := h.tasks t
  rw [Task.Sound, hplace] at htask
  obtain ⟨hbusy, hdone, hmust, -, -⟩ := htask
  have hrank : (w.task t).rank = job.rank + 3 * (w.task t).worker.rank + shield.rank := by
    rw [Task.rank, hplace]
  have hsettled (hworker : (w.task t).worker.rank = 1) : job.rank + 1 ≤ (w.task t).rank := by
    rw [hrank, hworker]
    omega
  dsimp only [World.step] at hstep
  rw [hplace] at hstep
  dsimp only at hstep
  split at hstep
  · next hcancelled =>
    split at hstep
    · next hworker =>
      cases hstep
      have hend (task : Task ε α) := rank_settle (w.set t task) t job .cancelled
      refine ⟨t, (hend _).1.trans_le (hsettled (by rw [hworker]; rfl)), fun u hu ↦ ?_⟩
      exact ((hend _).2 u hu).trans (set_task_of_ne w hu _)
    · next hworker =>
      cases hstep
      -- The worker has not ended, so the shield was cancelled.
      have hshield : shield = .cancelled := by
        cases shield with
        | cancelled => rfl
        | pending => exact absurd rfl (hmust (hcancelled.resolve_left fun hf ↦ by cases hf))
        | done =>
          obtain ⟨result, hresult⟩ := hdone rfl
          exact absurd hresult (hworker result)
      refine ⟨t, rank_set ?_⟩
      rw [hrank, hshield]
      exact Nat.lt_succ_self _
  · next hnot =>
    split at hstep
    · next result hworker =>
      cases hstep
      obtain ⟨hlt, hother⟩ := rank_settle w t job
        (if remembered then .cancelled else .answered result)
      exact ⟨t, hlt.trans_le (hsettled (by rw [hworker]; rfl)), hother⟩
    · cases hstep

/-- What is not a call or a cancellation brings one task nearer to its end, and leaves the others
where they are. -/
theorem Sound.nearer {w w' : World ε α} (h : w.Sound) {e : Event ε α} (hcall : e.given = false)
    (hstep : w.step e = some w') : w.Nearer w' := by
  cases e with
  | call t operation => cases hcall
  | cancel t => cases hcall
  | start t =>
    dsimp only [World.step] at hstep
    split at hstep
    · next hworker =>
      cases hstep
      refine h.nearer_work ?_ ?_
      · simp [hworker]
      · simp [hworker, Worker.rank]
    · cases hstep
  | finish t result connected =>
    dsimp only [World.step] at hstep
    split at hstep
    · next hworker hplace =>
      cases hstep
      refine h.nearer_work ?_ ?_
      · simp [hworker]
      · simp [hworker, Worker.rank]
    · next hworker _ =>
      cases hstep
      refine h.nearer_work ?_ ?_
      · simp [hworker]
      · simp [hworker, Worker.rank]
    · cases hstep
  | complete t =>
    dsimp only [World.step] at hstep
    split at hstep
    · next hworker =>
      cases hstep
      refine h.nearer_work ?_ ?_
      · simp [hworker]
      · simp [hworker, Worker.rank]
    · cases hstep
  | deliver t =>
    dsimp only [World.step] at hstep
    split at hstep
    · next hplace hworker =>
      cases hstep
      refine ⟨t, rank_set ?_⟩
      simp [Task.rank, hplace, Shield.rank]
    · cases hstep
  | resume t =>
    cases hplace : (w.task t).place with
    | waiting => exact nearer_resume_waiting hplace hstep
    | working job remembered shield => exact h.nearer_resume_working hplace hstep
    | _ =>
      dsimp only [World.step] at hstep
      rw [hplace] at hstep
      cases hstep

/-- A call changes no other task. -/
theorem task_of_given {w w' : World ε α} {e : Event ε α} (hgiven : e.given = true)
    (hstep : w.step e = some w') : ∃ t, ∀ u, u ≠ t → w'.task u = w.task u := by
  cases e with
  | call t operation =>
    refine ⟨t, fun u hu ↦ ?_⟩
    dsimp only [World.step] at hstep
    split at hstep
    · split at hstep
      · next lock _ =>
        cases hstep
        rw [(rank_enter _ t).2 u hu]
        exact Function.update_of_ne hu ..
      · cases hstep
        exact Function.update_of_ne hu ..
    · cases hstep
  | cancel t =>
    refine ⟨t, fun u hu ↦ ?_⟩
    dsimp only [World.step] at hstep
    split at hstep
    · split at hstep <;> cases hstep <;> exact Function.update_of_ne hu ..
    · cases hstep
      exact Function.update_of_ne hu ..
    · cases hstep
      exact Function.update_of_ne hu ..
    · cases hstep
  | _ => cases hgiven

/-- The tasks that have called are finitely many. -/
theorem exists_bound {w : World ε α} (h : World.step.Runs CloseWorks .init w) :
    ∃ n, ∀ t, n ≤ t → (w.task t).rank = 0 := by
  refine (h.preserves (I := fun w : World ε α ↦ w.Sound ∧ ∃ n, ∀ t, n ≤ t → (w.task t).rank = 0)
    ?_ ⟨sound_init, 0, fun _ _ ↦ rfl⟩).2
  rintro w w' e ⟨hw, n, hn⟩ hclose hstep
  have hone : ∃ t, ∀ u, u ≠ t → w'.task u = w.task u := by
    cases hgiven : e.given with
    | true => exact task_of_given hgiven hstep
    | false =>
      obtain ⟨t, -, hother⟩ := hw.nearer hgiven hstep
      exact ⟨t, hother⟩
  obtain ⟨t, hother⟩ := hone
  refine ⟨hw.step hclose hstep, max n (t + 1), fun u hu ↦ ?_⟩
  obtain ⟨hn', ht⟩ := max_le_iff.mp hu
  rw [hother u (Nat.lt_of_succ_le ht).ne']
  exact hn u hn'

/-- Without further calls and cancellations every call ends. -/
theorem calls_end [Nonempty α] {w : World ε α} (h : World.step.Runs CloseWorks .init w) :
    World.step.Inevitably (fun w e ↦ e.given = false ∧ w.CloseWorks e)
      (fun w ↦ ∀ t, (w.task t).place = .outside ∨ ∃ ending, (w.task t).place = .ended ending)
      w := by
  obtain ⟨n, hn⟩ := exists_bound h
  have hsound : w.Sound :=
    h.preserves (fun _ _ _ hw hclose hstep ↦ hw.step hclose hstep) sound_init
  refine Machine.inevitably_of_rank
    (I := fun w : World ε α ↦ w.Sound ∧ ∀ t, n ≤ t → (w.task t).rank = 0)
    (fun w ↦ ∑ t ∈ Finset.range n, (w.task t).rank) ?_ ?_ ⟨hsound, hn⟩
  · rintro w ⟨hw, -⟩ hgoing
    rw [not_forall] at hgoing
    obtain ⟨t, hgoing⟩ := hgoing
    rw [not_or, not_exists] at hgoing
    rcases hw.goes_on hgoing.1 hgoing.2 with ⟨u, hrunning⟩ | ⟨e, hinternal, hpossible⟩
    · obtain ⟨a⟩ := ‹Nonempty α›
      have hpossible : (w.step (.finish u (.ok a) false)).isSome := by
        dsimp only [World.step]
        rw [hrunning]
        split
        · rfl
        · rfl
        · next hidle _ => exact (hidle rfl).elim
      obtain ⟨w', hstep⟩ := Option.isSome_iff_exists.mp hpossible
      refine ⟨_, w', ⟨rfl, ?_⟩, hstep⟩
      dsimp only [CloseWorks]
      split <;> trivial
    · obtain ⟨w', hstep⟩ := Option.isSome_iff_exists.mp hpossible
      refine ⟨e, w', ⟨?_, ?_⟩, hstep⟩
      · cases e <;> first | rfl | cases hinternal
      · cases e <;> trivial
  · rintro w e w' ⟨hw, hn⟩ ⟨hgiven, hclose⟩ hstep
    obtain ⟨t, hlt, hother⟩ := hw.nearer hgiven hstep
    have htn : t < n := by
      by_contra hge
      rw [hn t (Nat.le_of_not_lt hge)] at hlt
      exact absurd hlt (Nat.not_lt_zero _)
    refine ⟨⟨hw.step hclose hstep, fun u hu ↦ ?_⟩, ?_⟩
    · rw [hother u (htn.trans_le hu).ne']
      exact hn u hu
    · refine Finset.sum_lt_sum (fun u _ ↦ ?_) ⟨t, Finset.mem_range.mpr htn, hlt⟩
      by_cases hu : u = t
      · rw [hu]
        exact hlt.le
      · rw [hother u hu]

/-! ## The connection is used by one thread at a time -/

/-- Whatever is called and cancelled, in whatever order the threads and the loop go on: at most one
thread uses the connection; while a worker has not ended, its task and no other is in the lock; a
call that was cancelled ends with the cancellation and no other does, and what it ends with
otherwise is what its own work has returned or raised; and while no thread is at work, a call that
has not ended is not stuck. -/
theorem connection_serialised {w : World ε α} (h : World.step.Runs CloseWorks .init w) :
    (∀ t u, (w.task t).worker = .running → (w.task u).worker = .running → t = u) ∧
      (∀ t, (w.task t).worker = .queued ∨ (w.task t).worker = .running →
        w.lock.locked = true ∧ ∀ u, (w.task u).place.inside ↔ u = t) ∧
      (∀ t ending, (w.task t).place = .ended ending →
        ((w.task t).asked = true ↔ ending = .cancelled) ∧ ending.Sound (w.task t)) ∧
      ∀ t, (w.task t).place ≠ .outside → (∀ ending, (w.task t).place ≠ .ended ending) →
        (∃ u, (w.task u).worker = .running) ∨
          ∃ e : Event ε α, e.internal ∧ (w.step e).isSome := by
  have hsound : w.Sound :=
    h.preserves (fun _ _ _ hw hclose hstep ↦ hw.step hclose hstep) sound_init
  have hlock (t : ℕ) (hbusy : (w.task t).worker = .queued ∨ (w.task t).worker = .running) :
      w.lock.locked = true ∧ ∀ u, (w.task u).place.inside ↔ u = t := by
    have hworker : (w.task t).worker ≠ .idle := by
      rintro hidle
      rcases hbusy with hb | hb <;> rw [hidle] at hb <;> cases hb
    obtain ⟨job, remembered, shield, hplace⟩ := hsound.working hworker
    have hin := hsound.inside (t := t) (by rw [hplace]; rfl)
    refine ⟨hin.owned.locked_eq, fun u ↦ ⟨fun hu ↦ ?_, fun hu ↦ ?_⟩⟩
    · by_contra hne
      rw [hin.alone u hne] at hu
      cases hu
    · rw [hu, hplace]
      rfl
  refine ⟨fun t u ht hu ↦ ?_, hlock, fun t ending hended ↦ ?_, fun t ↦ hsound.goes_on⟩
  · have hinside := ((hlock u (.inr hu)).2 u).mpr rfl
    exact (((hlock t (.inr ht)).2 u).mp hinside).symm
  · have htask := hsound.tasks t
    rw [Task.Sound, hended] at htask
    exact htask.2

instance (w : World ε α) (e : Event ε α) : Decidable (w.CloseWorks e) :=
  match e with
  | .finish t result _ =>
    match h : (w.task t).place with
    | .working (.cleanup _) _ _ =>
      decidable_of_iff (result.isOk = true) (by simp only [CloseWorks, h])
    | .working .main _ _ | .outside | .waiting | .ended _ =>
      .isTrue (by simp only [CloseWorks, h])
  | .call .. | .cancel _ | .start _ | .complete _ | .deliver _ | .resume _ => .isTrue trivial

/-- A query is cancelled twice while its thread is at work, and another one waits for the lock. -/
theorem connection_serialised_of_cancelled_twice : ∃ w : World ℕ ℕ,
    World.step.Runs CloseWorks .init w ∧ (w.task 0).asked = true ∧
      ((w.task 0).place matches .ended .cancelled) = true ∧
      ((w.task 1).place matches .ended (.answered (.ok 8))) = true ∧
      ∀ t u, (w.task t).worker = .running → (w.task u).worker = .running → t = u := by
  have hexec : ((Machine.guarded World.step CloseWorks).exec (.init : World ℕ ℕ)
      [.call 0 .query, .start 0, .cancel 0, .resume 0, .call 1 .query, .cancel 0, .resume 0,
        .finish 0 (.ok 7) false, .complete 0, .deliver 0, .resume 0, .resume 1, .start 1,
        .finish 1 (.ok 8) false, .complete 1, .deliver 1, .resume 1]).any
      (fun w ↦ (w.task 0).asked = true ∧ ((w.task 0).place matches .ended .cancelled) ∧
        ((w.task 1).place matches .ended (.answered (.ok 8)))) = true := by
    decide +kernel
  obtain ⟨w, hrun, hasked, hfirst, hsecond⟩ := Machine.exists_run_of_exec hexec
  exact ⟨w, hrun, hasked, hfirst, hsecond, (connection_serialised hrun).1⟩

end World

end TgMessenger.Storage.Connection
