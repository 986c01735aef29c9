import TgMessenger.Asyncio.Lock

/-!
# `asyncio.Queue`

A bounded queue and the futures of the readers that wait for an item.  An item that is put wakes
the first reader whose future is not done; the reader takes an item later, when the event loop
resumes it.  Nobody waits to put: the writers here use `put_nowait`.
-/

namespace Asyncio

universe u v

/-- An `asyncio.Queue` of items `α` with readers of type `ι`. -/
structure Queue (ι : Type u) (α : Type v) where
  items : List α
  /-- The futures of the readers that wait, first come first; they are pending or cancelled. -/
  getters : List (ι × Fut)
deriving DecidableEq

namespace Queue

variable {ι : Type u} {α : Type v}

/-- A new queue. -/
def empty : Queue ι α := ⟨[], []⟩

/-- `full()`; a bound of zero is none. -/
def isFull (maxsize : ℕ) (q : Queue ι α) : Bool := 0 < maxsize && maxsize ≤ q.items.length

/-- `get_nowait`; `none` is `QueueEmpty`. -/
def getNowait (q : Queue ι α) : Option (α × Queue ι α) :=
  match q.items with
  | [] => none
  | a :: items => some (a, { q with items })

/-- `_wakeup_next`, of the readers: futures that are done are left out. -/
def wakeupNext (q : Queue ι α) : Option ι × Queue ι α :=
  match q.getters.dropWhile (·.2 ≠ .pending) with
  | [] => (none, { q with getters := [] })
  | (t, _) :: getters => (some t, { q with getters })

/-- `put_nowait`, and the reader it wakes; `none` is `QueueFull`. -/
def putNowait (maxsize : ℕ) (a : α) (q : Queue ι α) : Option (Option ι × Queue ι α) :=
  if q.isFull maxsize then none
  else some { q with items := q.items ++ [a] }.wakeupNext

/-- A reader begins to wait. -/
def wait (t : ι) (q : Queue ι α) : Queue ι α := { q with getters := q.getters ++ [(t, .pending)] }

section DecidableEq

variable [DecidableEq ι]

/-- `getter.cancel()`. -/
def cancel (t : ι) (q : Queue ι α) : Queue ι α :=
  { q with getters := q.getters.map fun g ↦ if g.1 = t then (t, .cancelled) else g }

/-- A reader is cancelled in `get`: its future leaves the queue, and when it was woken already
the wake-up is passed on. -/
def giveUp (t : ι) (woken : Bool) (q : Queue ι α) : Option ι × Queue ι α :=
  let q := { q with getters := q.getters.filter fun g ↦ g.1 ≠ t }
  if woken && !q.items.isEmpty then q.wakeupNext else (none, q)

@[simp] theorem items_cancel (t : ι) (q : Queue ι α) : (q.cancel t).items = q.items := rfl

end DecidableEq

@[simp] theorem items_wakeupNext (q : Queue ι α) : q.wakeupNext.2.items = q.items := by
  rw [wakeupNext]
  split <;> rfl

@[simp] theorem items_wait (t : ι) (q : Queue ι α) : (q.wait t).items = q.items := rfl

@[simp] theorem items_giveUp [DecidableEq ι] (t : ι) (woken : Bool) (q : Queue ι α) :
    (q.giveUp t woken).2.items = q.items := by
  rw [giveUp]
  dsimp only
  split
  · exact items_wakeupNext _
  · rfl

theorem getNowait_eq_none_iff {q : Queue ι α} : q.getNowait = none ↔ q.items = [] := by
  rw [getNowait]
  cases q.items <;> simp

/-- What is taken is the oldest item. -/
theorem items_of_getNowait {q q' : Queue ι α} {a : α} (h : q.getNowait = some (a, q')) :
    q.items = a :: q'.items ∧ q'.getters = q.getters := by
  rw [getNowait] at h
  split at h
  · cases h
  · next items heq =>
    cases h
    exact ⟨heq, rfl⟩

/-- What is put into a queue that is not full is the newest item. -/
theorem exists_putNowait {maxsize : ℕ} {q : Queue ι α} (hfull : q.isFull maxsize = false) (a : α) :
    ∃ woken q', q.putNowait maxsize a = some (woken, q') ∧ q'.items = q.items ++ [a] := by
  refine ⟨_, _, by rw [putNowait, if_neg (Bool.eq_false_iff.mp hfull)], ?_⟩
  rw [items_wakeupNext]

theorem isFull_eq_false_iff {maxsize : ℕ} {q : Queue ι α} :
    q.isFull maxsize = false ↔ maxsize = 0 ∨ q.items.length < maxsize := by
  rw [isFull, Bool.and_eq_false_iff, decide_eq_false_iff_not, decide_eq_false_iff_not]
  omega

end Queue

end Asyncio
