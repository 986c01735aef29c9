import Mathlib.Data.List.Nodup
import Mathlib.Tactic.Common

/-!
# `asyncio.Lock`

The lock of Python's `asyncio` keeps a flag and a queue of futures, one for each waiting
task.  It is fair: a newcomer takes the lock at once only when it is free and nobody
waits.  Releasing it clears the flag and marks the first future as done; the task behind
that future takes the lock later, when the event loop resumes it.  In between `locked`
reads `false` although the lock is promised to a waiter.

A waiter may be cancelled.  Its future is then done without waking it into the lock, and
when it resumes it leaves the queue and passes a wake-up on.

`Lock.Owned l o` is the invariant that ties the flag and the queue to the task `o` that
is inside the lock; since `o` is at most one task, an invariant of this form is mutual
exclusion.
-/

namespace Asyncio

universe u

/-- The future a waiter sleeps on. -/
inductive Fut where
  | /-- Not done. -/
    pending
  | /-- Done: the waiter will take the lock when it resumes. -/
    woken
  | /-- Cancelled: the waiter will leave when it resumes. -/
    cancelled
deriving DecidableEq, Repr

/-- An `asyncio.Lock` with waiting tasks of type `ι`. -/
structure Lock (ι : Type u) where
  /-- `locked()`. -/
  locked : Bool
  /-- The queue of waiters, first come first. -/
  waiters : List (ι × Fut)

namespace Lock

variable {ι : Type u}

/-- A new lock. -/
def free : Lock ι := ⟨false, []⟩

/-- `acquire`, when it does not have to wait. -/
def acquire? (l : Lock ι) : Option (Lock ι) :=
  if !l.locked && l.waiters.all (fun w ↦ w.2 == .cancelled) then some { l with locked := true }
  else none

/-- `acquire`, when it has to wait: a new future at the end of the queue. -/
def enqueue (t : ι) (l : Lock ι) : Lock ι := { l with waiters := l.waiters ++ [(t, .pending)] }

/-- `_wake_up_first`: the first future is set done unless it is done already. -/
def wakeUpFirst (l : Lock ι) : Lock ι :=
  match l.waiters with
  | (t, .pending) :: ws => { l with waiters := (t, .woken) :: ws }
  | _ => l

/-- `release`. -/
def release (l : Lock ι) : Lock ι := wakeUpFirst { l with locked := false }

section DecidableEq

variable [DecidableEq ι]

/-- The state of the future `t` sleeps on. -/
def waiting? (t : ι) (l : Lock ι) : Option Fut := l.waiters.lookup t

/-- `t` leaves the queue. -/
def remove (t : ι) (l : Lock ι) : Lock ι :=
  { l with waiters := l.waiters.filter fun w ↦ w.1 ≠ t }

/-- A woken waiter resumes: it leaves the queue and takes the lock. -/
def resume (t : ι) (l : Lock ι) : Lock ι := { l.remove t with locked := true }

/-- `fut.cancel()`: a future that is not done becomes cancelled. -/
def cancel (t : ι) (l : Lock ι) : Lock ι :=
  { l with
    waiters := l.waiters.map fun w ↦ if w.1 = t ∧ w.2 = .pending then (t, .cancelled) else w }

/-- A cancelled waiter resumes: it leaves the queue and, when the lock is free, makes
sure that somebody is woken. -/
def abandon (t : ι) (l : Lock ι) : Lock ι :=
  if l.locked then l.remove t else (l.remove t).wakeUpFirst

end DecidableEq

/-! ## The owner -/

/-- The lock is held by `owner` and consistent with its queue. -/
structure Owned (l : Lock ι) (owner : Option ι) : Prop where
  /-- The flag says whether somebody is inside. -/
  locked_eq : l.locked = owner.isSome
  /-- A task waits at most once. -/
  nodup : (l.waiters.map Prod.fst).Nodup
  /-- Nobody waits for a lock it holds. -/
  owner_notMem : ∀ t, owner = some t → t ∉ l.waiters.map Prod.fst
  /-- Only the first waiter can be woken, and only while the lock is free. -/
  woken : ∀ w ∈ l.waiters, w.2 = .woken → l.locked = false ∧ l.waiters.head? = some w

theorem owned_free : (free : Lock ι).Owned none where
  locked_eq := rfl
  nodup := List.nodup_nil
  owner_notMem := fun _ h ↦ by simp at h
  woken := fun _ h ↦ absurd h List.not_mem_nil

theorem Owned.owner_eq_none {l : Lock ι} {o : Option ι} (h : l.Owned o)
    (hl : l.locked = false) : o = none := by
  rw [← Option.not_isSome_iff_eq_none, ← h.locked_eq, hl]
  exact Bool.false_ne_true

/-- Taking the lock without waiting. -/
theorem Owned.acquire {l l' : Lock ι} {o : Option ι} (h : l.Owned o) (ha : l.acquire? = some l')
    {t : ι} (ht : t ∉ l.waiters.map Prod.fst) : o = none ∧ l'.Owned (some t) := by
  rw [acquire?] at ha
  split_ifs at ha with hc
  obtain rfl := Option.some.inj ha
  simp only [Bool.and_eq_true, Bool.not_eq_true', List.all_eq_true, beq_iff_eq] at hc
  refine ⟨h.owner_eq_none hc.1, rfl, h.nodup, ?_, ?_⟩
  · rintro _ ⟨⟩
    exact ht
  · intro w hw hwoken
    rw [hc.2 w hw] at hwoken
    cases hwoken

theorem waiters_of_acquire? {l l' : Lock ι} (h : l.acquire? = some l') :
    l'.waiters = l.waiters := by
  rw [acquire?] at h
  split_ifs at h
  obtain rfl := Option.some.inj h
  rfl

theorem locked_of_acquire? {l l' : Lock ι} (h : l.acquire? = some l') : l'.locked = true := by
  rw [acquire?] at h
  split_ifs at h
  obtain rfl := Option.some.inj h
  rfl

theorem map_fst_wakeUpFirst (l : Lock ι) :
    l.wakeUpFirst.waiters.map Prod.fst = l.waiters.map Prod.fst := by
  rw [Lock.wakeUpFirst]
  split
  · rename_i t ws heq
    rw [heq]
    rfl
  · rfl

theorem map_fst_release (l : Lock ι) :
    l.release.waiters.map Prod.fst = l.waiters.map Prod.fst :=
  map_fst_wakeUpFirst { l with locked := false }

/-- Going to sleep in the queue. -/
theorem Owned.enqueue {l : Lock ι} {o : Option ι} (h : l.Owned o) {t : ι}
    (ht : t ∉ l.waiters.map Prod.fst) (ho : o ≠ some t) : (l.enqueue t).Owned o where
  locked_eq := h.locked_eq
  nodup := by
    rw [Lock.enqueue, List.map_append]
    refine List.Nodup.append h.nodup (List.nodup_singleton t) ?_
    intro x hx hxt
    rw [List.mem_singleton.mp hxt] at hx
    exact ht hx
  owner_notMem := by
    intro u hu
    rw [Lock.enqueue, List.map_append, List.mem_append]
    rintro (hmem | hmem)
    · exact h.owner_notMem u hu hmem
    · rw [List.mem_singleton.mp hmem] at hu
      exact ho hu
  woken := by
    intro w hw hwoken
    rcases List.mem_append.mp hw with hw | hw
    · obtain ⟨hl, hhd⟩ := h.woken w hw hwoken
      exact ⟨hl, by rw [Lock.enqueue, List.head?_append, hhd]; rfl⟩
    · rw [List.mem_singleton.mp hw] at hwoken
      cases hwoken

/-- Waking the first waiter of a free lock. -/
theorem Owned.wakeUpFirst {l : Lock ι} (h : l.Owned none) : l.wakeUpFirst.Owned none := by
  rw [Lock.wakeUpFirst]
  split
  · rename_i t ws heq
    refine ⟨h.locked_eq, by simpa [heq] using h.nodup, fun _ hu ↦ by simp at hu, ?_⟩
    intro w hw hwoken
    rcases List.mem_cons.mp hw with rfl | hw
    · exact ⟨h.locked_eq, rfl⟩
    · have hhd := (h.woken w (heq ▸ List.mem_cons_of_mem _ hw) hwoken).2
      rw [heq, List.head?_cons, Option.some.injEq] at hhd
      subst hhd
      cases hwoken
  · exact h

/-- Releasing the lock. -/
theorem Owned.release {l : Lock ι} {t : ι} (h : l.Owned (some t)) : l.release.Owned none := by
  refine Owned.wakeUpFirst ⟨rfl, h.nodup, fun _ hu ↦ by simp at hu, ?_⟩
  intro w hw hwoken
  exact ⟨rfl, (h.woken w hw hwoken).2⟩

section DecidableEq

variable [DecidableEq ι]

theorem mem_waiters_of_waiting {l : Lock ι} {t : ι} {f : Fut} (h : l.waiting? t = some f) :
    (t, f) ∈ l.waiters := by
  obtain ⟨l₁, l₂, hl, -⟩ := List.lookup_eq_some_iff.mp h
  rw [hl]
  simp

theorem mem_remove {l : Lock ι} {t : ι} {w : ι × Fut} :
    w ∈ (l.remove t).waiters ↔ w ∈ l.waiters ∧ w.1 ≠ t := by
  simp [remove]

theorem mem_map_fst_remove {l : Lock ι} {t u : ι} :
    u ∈ (l.remove t).waiters.map Prod.fst ↔ u ∈ l.waiters.map Prod.fst ∧ u ≠ t := by
  simp only [List.mem_map, mem_remove]
  constructor
  · rintro ⟨w, ⟨hw, hne⟩, rfl⟩
    exact ⟨⟨w, hw, rfl⟩, hne⟩
  · rintro ⟨⟨w, hw, rfl⟩, hne⟩
    exact ⟨w, ⟨hw, hne⟩, rfl⟩

theorem notMem_remove (l : Lock ι) (t : ι) : t ∉ (l.remove t).waiters.map Prod.fst := by
  simp [remove]

theorem nodup_remove {l : Lock ι} (h : (l.waiters.map Prod.fst).Nodup) (t : ι) :
    ((l.remove t).waiters.map Prod.fst).Nodup := h.sublist (List.filter_sublist.map Prod.fst)

/-- A woken waiter takes the lock, which nobody holds. -/
theorem Owned.resume {l : Lock ι} {o : Option ι} (h : l.Owned o) {t : ι}
    (ht : l.waiting? t = some .woken) : o = none ∧ (l.resume t).Owned (some t) := by
  have hmem := mem_waiters_of_waiting ht
  obtain ⟨hl, hhd⟩ := h.woken _ hmem rfl
  refine ⟨h.owner_eq_none hl, rfl, nodup_remove h.nodup t, ?_, ?_⟩
  · rintro _ ⟨⟩
    exact l.notMem_remove t
  · intro w hw hwoken
    obtain ⟨hw, hne⟩ := mem_remove.mp hw
    have := (h.woken w hw hwoken).2
    rw [hhd, Option.some.injEq] at this
    exact absurd (congrArg Prod.fst this).symm hne

/-- Removing a waiter leaves the others in order. -/
theorem Owned.remove {l : Lock ι} {o : Option ι} (h : l.Owned o) (t : ι) :
    (l.remove t).Owned o := by
  refine ⟨h.locked_eq, nodup_remove h.nodup t, fun u hu hmem ↦ ?_, ?_⟩
  · exact h.owner_notMem u hu (List.filter_sublist.map Prod.fst |>.subset hmem)
  · intro w hw hwoken
    obtain ⟨hw, hne⟩ := mem_remove.mp hw
    obtain ⟨hl, hhd⟩ := h.woken w hw hwoken
    refine ⟨hl, ?_⟩
    obtain ⟨ws, hws⟩ := List.head?_eq_some_iff.mp hhd
    simp [Lock.remove, hws, hne]

theorem map_fst_abandon (l : Lock ι) (t : ι) :
    (l.abandon t).waiters.map Prod.fst = (l.remove t).waiters.map Prod.fst := by
  rw [Lock.abandon]
  split_ifs
  · rfl
  · exact map_fst_wakeUpFirst _

/-- A cancelled waiter leaves. -/
theorem Owned.abandon {l : Lock ι} {o : Option ι} (h : l.Owned o) (t : ι) :
    (l.abandon t).Owned o := by
  rw [Lock.abandon]
  split_ifs with hl
  · exact h.remove t
  · obtain rfl := h.owner_eq_none (Bool.not_eq_true _ ▸ hl)
    exact (h.remove t).wakeUpFirst

theorem map_fst_cancel (l : Lock ι) (t : ι) :
    (l.cancel t).waiters.map Prod.fst = l.waiters.map Prod.fst := by
  simp only [cancel, List.map_map]
  refine List.map_congr_left fun w _ ↦ ?_
  by_cases hw : w.1 = t ∧ w.2 = .pending
  · simp [hw]
  · simp [hw]

/-- Cancelling a waiter wakes nobody. -/
theorem Owned.cancel {l : Lock ι} {o : Option ι} (h : l.Owned o) (t : ι) :
    (l.cancel t).Owned o := by
  refine ⟨h.locked_eq, by rw [map_fst_cancel]; exact h.nodup,
    by rw [map_fst_cancel]; exact h.owner_notMem, ?_⟩
  intro w hw hwoken
  obtain ⟨w', hw', rfl⟩ := List.mem_map.mp hw
  by_cases hc : w'.1 = t ∧ w'.2 = .pending
  · rw [if_pos hc] at hwoken
    cases hwoken
  · rw [if_neg hc] at hwoken ⊢
    obtain ⟨hl, hhd⟩ := h.woken w' hw' hwoken
    refine ⟨hl, ?_⟩
    rw [Lock.cancel, List.head?_map, hhd, Option.map_some, if_neg hc]

end DecidableEq

/-! ## The users of a lock -/

/-- How many tasks hold the lock or wait for it. -/
def users (l : Lock ι) : ℕ := l.waiters.length + l.locked.toNat

/-- A lock somebody uses is held or has waiters. -/
theorem users_pos_iff {l : Lock ι} : 0 < l.users ↔ l.locked = true ∨ l.waiters ≠ [] := by
  rw [users, ← List.length_pos_iff]
  cases l.locked <;> simp

theorem users_acquire? {l l' : Lock ι} (h : l.acquire? = some l') : l'.users = l.users + 1 := by
  rw [acquire?] at h
  split_ifs at h with hc
  obtain rfl := Option.some.inj h
  have hl : l.locked = false := (Bool.not_eq_true' _).mp (Bool.and_eq_true_iff.mp hc).1
  rw [users, users, hl]
  rfl

theorem users_enqueue (l : Lock ι) (t : ι) : (l.enqueue t).users = l.users + 1 := by
  simp only [users, enqueue, List.length_append, List.length_singleton]
  omega

theorem users_wakeUpFirst (l : Lock ι) : l.wakeUpFirst.users = l.users := by
  rw [wakeUpFirst]
  split
  · rename_i t ws heq
    rw [users, users, heq]
    rfl
  · rfl

theorem users_release {l : Lock ι} (h : l.locked = true) : l.release.users + 1 = l.users := by
  rw [release, users_wakeUpFirst, users, users, h]
  rfl

section DecidableEq

variable [DecidableEq ι]

theorem users_remove {l : Lock ι} {t : ι} (hnodup : (l.waiters.map Prod.fst).Nodup)
    (ht : t ∈ l.waiters.map Prod.fst) : (l.remove t).users + 1 = l.users := by
  have hlen : ((l.remove t).waiters.map Prod.fst).length + 1 = l.waiters.length := by
    have herase : (l.remove t).waiters.map Prod.fst = (l.waiters.map Prod.fst).erase t := by
      rw [hnodup.erase_eq_filter, remove, List.filter_map]
      congr 1
      refine List.filter_congr fun w _ ↦ ?_
      rw [Function.comp_apply, bne, decide_not]
      rfl
    rw [herase, List.length_erase_of_mem ht, List.length_map]
    have := List.length_pos_of_mem ht
    rw [List.length_map] at this
    omega
  rw [List.length_map] at hlen
  rw [users, users, ← hlen]
  simp only [remove]
  omega

/-- A waiter takes the lock, which is free. -/
theorem users_resume {l : Lock ι} {t : ι} (hnodup : (l.waiters.map Prod.fst).Nodup)
    (ht : t ∈ l.waiters.map Prod.fst) (hl : l.locked = false) : (l.resume t).users = l.users := by
  rw [← users_remove hnodup ht, users, users, resume, show (l.remove t).locked = false from hl]
  rfl

theorem users_abandon {l : Lock ι} {t : ι} (hnodup : (l.waiters.map Prod.fst).Nodup)
    (ht : t ∈ l.waiters.map Prod.fst) : (l.abandon t).users + 1 = l.users := by
  rw [abandon]
  split_ifs
  · exact users_remove hnodup ht
  · rw [users_wakeUpFirst, users_remove hnodup ht]

theorem users_cancel (l : Lock ι) (t : ι) : (l.cancel t).users = l.users := by
  rw [users, users, cancel, List.length_map]

end DecidableEq

/-! ## No lost wake-up -/

/-- No waiter was cancelled, and the first waiter of a free lock is woken. -/
structure Alert (l : Lock ι) : Prop where
  uncancelled : ∀ w ∈ l.waiters, w.2 ≠ .cancelled
  woken : l.locked = false → ∀ w, l.waiters.head? = some w → w.2 = .woken

theorem alert_free : (free : Lock ι).Alert := ⟨fun _ h ↦ absurd h List.not_mem_nil, nofun⟩

/-- A lock that is held again. -/
theorem Alert.of_locked {l l' : Lock ι} (h : l.Alert) (hl : l'.locked = true)
    (hsub : l'.waiters ⊆ l.waiters) : l'.Alert :=
  ⟨fun w hw ↦ h.uncancelled w (hsub hw), fun hl' ↦ absurd (hl.symm.trans hl') nofun⟩

/-- A newcomer goes to sleep behind somebody who was woken. -/
theorem Alert.enqueue {l : Lock ι} (h : l.Alert) (ha : l.acquire? = none) (t : ι) :
    (l.enqueue t).Alert := by
  refine ⟨fun w hw ↦ ?_, fun hl w hw ↦ ?_⟩
  · rcases List.mem_append.mp hw with hw | hw
    · exact h.uncancelled w hw
    · rw [List.mem_singleton.mp hw]
      exact nofun
  · cases hws : l.waiters with
    | nil =>
      rw [acquire?, hws, show l.locked = false from hl] at ha
      cases ha
    | cons v ws =>
      rw [Lock.enqueue, hws] at hw
      refine h.woken hl w ?_
      rw [hws]
      exact hw

/-- Releasing the lock wakes the first waiter. -/
theorem Alert.release {l : Lock ι} (h : l.Alert) : l.release.Alert := by
  rw [Lock.release, Lock.wakeUpFirst]
  dsimp only
  cases hws : l.waiters with
  | nil => exact ⟨fun w hw ↦ absurd hw List.not_mem_nil, fun _ w hw ↦ nomatch hw⟩
  | cons v ws =>
    obtain ⟨t, f⟩ := v
    cases f with
    | pending =>
      refine ⟨fun w hw ↦ ?_, fun _ w hw ↦ ?_⟩
      · rcases List.mem_cons.mp hw with rfl | hw
        · exact nofun
        · exact h.uncancelled w (hws ▸ List.mem_cons_of_mem _ hw)
      · rw [← Option.some.inj hw]
    | woken =>
      refine ⟨fun w hw ↦ h.uncancelled w (hws ▸ hw), fun _ w hw ↦ ?_⟩
      rw [← Option.some.inj hw]
    | cancelled => exact absurd rfl (h.uncancelled (t, .cancelled) (hws ▸ List.mem_cons_self))

/-! ## Cancelled waiters -/

theorem mem_cancelled_wakeUpFirst {l : Lock ι} {u : ι} :
    (u, Fut.cancelled) ∈ l.wakeUpFirst.waiters ↔ (u, Fut.cancelled) ∈ l.waiters := by
  rw [wakeUpFirst]
  split
  · rename_i t ws heq
    simp [heq]
  · rfl

theorem mem_cancelled_release {l : Lock ι} {u : ι} :
    (u, Fut.cancelled) ∈ l.release.waiters ↔ (u, Fut.cancelled) ∈ l.waiters :=
  mem_cancelled_wakeUpFirst

theorem mem_cancelled_enqueue {l : Lock ι} {t u : ι} :
    (u, Fut.cancelled) ∈ (l.enqueue t).waiters ↔ (u, Fut.cancelled) ∈ l.waiters := by
  simp [enqueue]

/-- No waiter sleeps while the lock is free and it is the first. -/
def Awake (l : Lock ι) : Prop := l.locked = false → ∀ w, l.waiters.head? = some w → w.2 ≠ .pending

theorem awake_free : (free : Lock ι).Awake := fun _ _ hw ↦ by cases hw

theorem awake_of_locked {l : Lock ι} (h : l.locked = true) : l.Awake := by
  intro hfree
  rw [h] at hfree
  cases hfree

theorem awake_wakeUpFirst (l : Lock ι) : l.wakeUpFirst.Awake := by
  intro _ w hw hpending
  rw [wakeUpFirst] at hw
  split at hw
  · obtain rfl := Option.some.inj hw
    cases hpending
  · rename_i hne
    obtain ⟨ws, hws⟩ := List.head?_eq_some_iff.mp hw
    obtain ⟨t, f⟩ := w
    cases hpending
    exact hne t ws hws

/-- A newcomer that has to wait is not the first, or the lock is held. -/
theorem Awake.enqueue {l : Lock ι} (h : l.Awake) (ha : l.acquire? = none) (t : ι) :
    (l.enqueue t).Awake := by
  intro hfree w hw
  cases hws : l.waiters with
  | nil =>
    rw [acquire?, hws, show l.locked = false from hfree] at ha
    cases ha
  | cons v ws =>
    rw [Lock.enqueue, hws] at hw
    refine h hfree w ?_
    rw [hws]
    exact hw

section DecidableEq

variable [DecidableEq ι]

theorem mem_cancelled_remove {l : Lock ι} {t u : ι} (h : u ≠ t) :
    (u, Fut.cancelled) ∈ (l.remove t).waiters ↔ (u, Fut.cancelled) ∈ l.waiters := by
  rw [mem_remove]
  exact and_iff_left h

theorem mem_cancelled_abandon {l : Lock ι} {t u : ι} (h : u ≠ t) :
    (u, Fut.cancelled) ∈ (l.abandon t).waiters ↔ (u, Fut.cancelled) ∈ l.waiters := by
  rw [abandon]
  split_ifs
  · exact mem_cancelled_remove h
  · exact mem_cancelled_wakeUpFirst.trans (mem_cancelled_remove h)

theorem mem_cancelled_cancel {l : Lock ι} {t u : ι} (h : u ≠ t) :
    (u, Fut.cancelled) ∈ (l.cancel t).waiters ↔ (u, Fut.cancelled) ∈ l.waiters := by
  rw [cancel, List.mem_map]
  constructor
  · rintro ⟨w, hw, heq⟩
    split_ifs at heq
    · exact absurd (congrArg Prod.fst heq).symm h
    · exact heq ▸ hw
  · intro hw
    exact ⟨_, hw, if_neg fun hc ↦ h hc.1⟩

/-- A waiter that sleeps is cancelled. -/
theorem mem_cancelled_cancel_self {l : Lock ι} {t : ι} (h : (t, Fut.pending) ∈ l.waiters) :
    (t, Fut.cancelled) ∈ (l.cancel t).waiters :=
  List.mem_map.mpr ⟨_, h, if_pos ⟨rfl, rfl⟩⟩

/-- A waiter sleeps on one future. -/
theorem waiting?_eq_some_iff {l : Lock ι} (hnodup : (l.waiters.map Prod.fst).Nodup) {t : ι}
    {f : Fut} : l.waiting? t = some f ↔ (t, f) ∈ l.waiters := by
  refine ⟨mem_waiters_of_waiting, fun h ↦ ?_⟩
  obtain ⟨l₁, l₂, hl⟩ := List.append_of_mem h
  rw [waiting?, List.lookup_eq_some_iff]
  refine ⟨l₁, l₂, hl, fun p hp ↦ ?_⟩
  rw [hl, List.map_append, List.map_cons] at hnodup
  have hne := (List.nodup_append.mp hnodup).2.2 p.1 (List.mem_map_of_mem hp) t List.mem_cons_self
  exact bne_iff_ne.mpr hne.symm

/-- Who leaves wakes the next. -/
theorem awake_abandon (l : Lock ι) (t : ι) : (l.abandon t).Awake := by
  rw [Lock.abandon]
  split_ifs with hl
  · exact awake_of_locked hl
  · exact awake_wakeUpFirst _

/-- A cancelled waiter does not sleep. -/
theorem Awake.cancel {l : Lock ι} (h : l.Awake) (t : ι) : (l.cancel t).Awake := by
  intro hfree w hw hpending
  rw [Lock.cancel, List.head?_map, Option.map_eq_some_iff] at hw
  obtain ⟨v, hv, rfl⟩ := hw
  split_ifs at hpending with hc
  exact h hfree v hv hpending

end DecidableEq

end Lock

end Asyncio
