import TgMessenger.Asyncio.KeyedLocks
import TgMessenger.Cache.Basic
import TgMessenger.Data.Machine

/-!
# The calls of a cache

A cache that any number of tasks use: each task is one call of `get_or_fetch`, and
between its suspensions anybody may read, write and invalidate.  An event is one
uninterrupted stretch of code, or the moment a fetch ends or a waiting call is cancelled.

The cache itself is the code; the rest of `World` is bookkeeping about a run.  Events are
numbered, values carry the number of the event that started the fetch they come from, and
invalidations and returned values are written down.
-/

namespace TgMessenger.Cache

open Asyncio

/-- A value, and when the fetch that produced it started; `none` for a value that was
handed to `set`. -/
structure Sourced (V : Type) where
  value : V
  started : Option ℕ

/-- Where a call of `get_or_fetch` stands. -/
inductive Status (K : Type) where
  | idle
  | /-- In the queue of the lock of an entry, called at event `since`. -/
    waiting (key : K) (entry since : ℕ)
  | /-- In the fetch, which was started at event `started` and epoch `epoch`. -/
    fetching (key : K) (entry epoch since started : ℕ)
  | ended

/-- An invalidation: when it happened and which keys it covers. -/
structure Invalidation (K : Type) where
  time : ℕ
  covers : K → Bool

/-- A value returned by a call for `key` that started at event `since`. -/
structure Returned (K V : Type) where
  key : K
  since : ℕ
  value : Sourced V

/-- A cache with its calls. -/
structure World (K V : Type) where
  cache : TTLCache K (Sourced V)
  status : ℕ → Status K
  /-- The number of the next event. -/
  now : ℕ
  invalidations : List (Invalidation K)
  returns : List (Returned K V)

/-- What can happen to a cache. -/
inductive Event (K V : Type) where
  | getOrFetch (t : ℕ) (key : K)
  | /-- A call that was woken in the queue goes on. -/
    resume (t : ℕ)
  | /-- A fetch produces a value. -/
    fetched (t : ℕ) (value : V)
  | /-- A fetch raises, or is cancelled. -/
    failed (t : ℕ)
  | /-- A call in the queue is cancelled. -/
    cancel (t : ℕ)
  | /-- A call that was cancelled in the queue goes on. -/
    abandon (t : ℕ)
  | get (key : K)
  | set (key : K) (value : V)
  | invalidate (key : Option K)
  | invalidateIf (predicate : K → Bool)

namespace World

variable {K V : Type}

/-- A new cache. -/
def init : World K V := ⟨.init, fun _ ↦ .idle, 0, [], []⟩

/-- A call ends. -/
def finish (t : ℕ) (cache : TTLCache K (Sourced V)) (returns : List (Returned K V))
    (w : World K V) : World K V :=
  { w with cache, status := Function.update w.status t .ended, returns }

/-- A call has run up to a suspension or to its end. -/
def settle (t : ℕ) (key : K) (since : ℕ) (w : World K V) :
    Outcome (Sourced V) × TTLCache K (Sourced V) → World K V
  | (.returned value, cache) => w.finish t cache (⟨key, since, value⟩ :: w.returns)
  | (.waits entry, cache) =>
    { w with cache, status := Function.update w.status t (.waiting key entry since) }
  | (.fetches entry epoch, cache) =>
    { w with cache, status := Function.update w.status t (.fetching key entry epoch since w.now) }

/-- An invalidation. -/
def invalidate (covers : K → Bool) (cache : TTLCache K (Sourced V)) (w : World K V) :
    World K V :=
  { w with cache, invalidations := ⟨w.now, covers⟩ :: w.invalidations }

variable [DecidableEq K]

/-- What an event does. -/
def react (cfg : Setup) (w : World K V) : Event K V → Option (World K V)
  | .getOrFetch t key =>
    match w.status t with
    | .idle => some (w.settle t key w.now (w.cache.getOrFetch cfg t key))
    | _ => none
  | .resume t =>
    match w.status t with
    | .waiting key entry since =>
      if (w.cache.lock entry).waiting? t = some .woken then
        some (w.settle t key since (w.cache.resume cfg t key entry))
      else none
    | _ => none
  | .fetched t value =>
    match w.status t with
    | .fetching key entry epoch since started =>
      let value : Sourced V := ⟨value, some started⟩
      some (w.finish t (w.cache.fetched cfg key entry epoch value)
        (⟨key, since, value⟩ :: w.returns))
    | _ => none
  | .failed t =>
    match w.status t with
    | .fetching key entry _ _ _ => some (w.finish t (w.cache.failed key entry) w.returns)
    | _ => none
  | .cancel t =>
    match w.status t with
    | .waiting _ entry _ => some { w with cache := w.cache.cancel t entry }
    | _ => none
  | .abandon t =>
    match w.status t with
    | .waiting key entry _ =>
      -- A call that was woken may be cancelled before it goes on.
      if (w.cache.lock entry).waiting? t = some .pending then none
      else some (w.finish t (w.cache.abandon t key entry) w.returns)
    | _ => none
  | .get key => some { w with cache := (w.cache.get cfg key).2 }
  | .set key value => some { w with cache := w.cache.set cfg key ⟨value, none⟩ }
  | .invalidate key => some (w.invalidate (TTLCache.coversKey key) (w.cache.invalidate key))
  | .invalidateIf predicate => some (w.invalidate predicate (w.cache.invalidateIf predicate))

/-- One event. -/
def step (cfg : Setup) : Machine (World K V) (Event K V) := fun w e ↦
  (w.react cfg e).map fun w ↦ { w with now := w.now + 1 }

/-- The states a new cache can reach. -/
def Reachable (cfg : Setup) (w : World K V) : Prop :=
  Machine.Runs (step cfg) Machine.anyEvent init w

theorem Reachable.react {cfg : Setup} {w w' : World K V} {e : Event K V} (h : w.Reachable cfg)
    (hr : w.react cfg e = some w') : Reachable cfg { w' with now := w'.now + 1 } := by
  refine Relation.ReflTransGen.tail h ⟨e, trivial, ?_⟩
  rw [step, hr]
  rfl

/-- What every event preserves in a reachable state holds in every state reached. -/
theorem Reachable.invariant {cfg : Setup} {I : World K V → Prop} (hinit : I init)
    (hreact : ∀ w w' e, w.Reachable cfg → I w → w.react cfg e = some w' →
      I { w' with now := w'.now + 1 })
    {w : World K V} (h : w.Reachable cfg) : I w := by
  have hboth : w.Reachable cfg ∧ I w := by
    refine Machine.Runs.preserves (I := fun w ↦ w.Reachable cfg ∧ I w) (fun w w' e hw _ hs ↦ ?_) h
      ⟨.refl, hinit⟩
    obtain ⟨w₁, hr, rfl⟩ := Option.map_eq_some_iff.mp hs
    exact ⟨hw.1.react hr, hreact w w₁ e hw.1 hw.2 hr⟩
  exact hboth.2

/-! ## When an event is possible -/

section React

variable {cfg : Setup} {w w' : World K V} {t : ℕ}

theorem react_getOrFetch {key : K} (h : w.react cfg (.getOrFetch t key) = some w') :
    w.status t = .idle ∧ w' = w.settle t key w.now (w.cache.getOrFetch cfg t key) := by
  rw [react] at h
  split at h
  · exact ⟨‹_›, (Option.some.inj h).symm⟩
  · cases h

theorem react_resume (h : w.react cfg (.resume t) = some w') :
    ∃ key entry since, w.status t = .waiting key entry since ∧
      (w.cache.lock entry).waiting? t = some .woken ∧
      w' = w.settle t key since (w.cache.resume cfg t key entry) := by
  rw [react] at h
  split at h
  · split_ifs at h with hwoken
    exact ⟨_, _, _, ‹_›, hwoken, (Option.some.inj h).symm⟩
  · cases h

theorem react_fetched {value : V} (h : w.react cfg (.fetched t value) = some w') :
    ∃ key entry epoch since started, w.status t = .fetching key entry epoch since started ∧
      w' = w.finish t (w.cache.fetched cfg key entry epoch ⟨value, some started⟩)
        (⟨key, since, ⟨value, some started⟩⟩ :: w.returns) := by
  rw [react] at h
  split at h
  · exact ⟨_, _, _, _, _, ‹_›, (Option.some.inj h).symm⟩
  · cases h

theorem react_failed (h : w.react cfg (.failed t) = some w') :
    ∃ key entry epoch since started, w.status t = .fetching key entry epoch since started ∧
      w' = w.finish t (w.cache.failed key entry) w.returns := by
  rw [react] at h
  split at h
  · exact ⟨_, _, _, _, _, ‹_›, (Option.some.inj h).symm⟩
  · cases h

theorem react_cancel (h : w.react cfg (.cancel t) = some w') :
    ∃ key entry since, w.status t = .waiting key entry since ∧
      w' = { w with cache := w.cache.cancel t entry } := by
  rw [react] at h
  split at h
  · exact ⟨_, _, _, ‹_›, (Option.some.inj h).symm⟩
  · cases h

theorem react_abandon (h : w.react cfg (.abandon t) = some w') :
    ∃ key entry since, w.status t = .waiting key entry since ∧
      w' = w.finish t (w.cache.abandon t key entry) w.returns := by
  rw [react] at h
  split at h
  · split_ifs at h
    exact ⟨_, _, _, ‹_›, (Option.some.inj h).symm⟩
  · cases h

end React

end World

end TgMessenger.Cache
