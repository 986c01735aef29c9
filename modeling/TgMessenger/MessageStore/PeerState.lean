import TgMessenger.Core.Models
import TgMessenger.Data.OrderedDict
import TgMessenger.Asyncio.Lock
import Mathlib.Logic.Function.Basic

/-!
# The in-memory state of the message store

For each peer the store remembers a lock and the time of the last sync, in two
dictionaries ordered by recency.  Both are bounded: when one outgrows
`MESSAGE_STORE_PEER_STATE_MAX`, `_evict_idle_peer_state` drops the oldest entries whose
lock does not read as locked.

Lock objects live in a heap, so that a lock dropped from the dictionary is still the one
its holder and its waiters use, and a fresh lock for the same peer is another object.
-/

namespace TgMessenger.MessageStore

open Asyncio

/-- `MESSAGE_STORE_PEER_STATE_MAX`. -/
def peerStateMax : ℕ := 1000

/-- The per-peer state of a `MessageStore`. -/
structure PeerState where
  /-- `_sync_locks`: the lock object of each peer. -/
  syncLocks : OrderedDict ℤ ℕ
  /-- `_last_sync`. -/
  lastSync : OrderedDict ℤ Time
  /-- The lock objects. -/
  locks : ℕ → Lock ℕ
  /-- The next lock object. -/
  nextLock : ℕ
  /-- How often the clock was read. -/
  ticks : ℕ

namespace PeerState

/-- The state of a new store. -/
def init : PeerState := ⟨.empty, .empty, fun _ ↦ .free, 0, 0⟩

/-- `self._clock()`; the clock is the sequence of its readings. -/
def readClock (clock : ℕ → Time) (s : PeerState) : Time × PeerState :=
  (clock s.ticks, { s with ticks := s.ticks + 1 })

/-- The first loop of `_evict_idle_peer_state`.  The first argument bounds the number of
iterations. -/
def evictLocks : ℕ → ℕ → PeerState → PeerState
  | 0, _, s => s
  | fuel + 1, checked, s =>
    if peerStateMax < s.syncLocks.size ∧ checked < s.syncLocks.size then
      match s.syncLocks.items with
      | [] => s
      | (oldPeer, oldLock) :: _ =>
        if (s.locks oldLock).locked then
          evictLocks fuel (checked + 1) { s with syncLocks := s.syncLocks.moveToEnd oldPeer }
        else
          evictLocks fuel 0 { s with syncLocks := s.syncLocks.popFirst
                                     lastSync := s.lastSync.erase oldPeer }
    else s

/-- The second loop of `_evict_idle_peer_state`. -/
def evictLastSync (clock : ℕ → Time) : ℕ → PeerState → PeerState
  | 0, s => s
  | fuel + 1, s =>
    if peerStateMax < s.lastSync.size then
      match s.lastSync.items with
      | [] => s
      | (oldPeer, _) :: _ =>
        let s := { s with lastSync := s.lastSync.popFirst }
        match s.syncLocks.get? oldPeer with
        | none => evictLastSync clock fuel s
        | some lock =>
          if (s.locks lock).locked then
            let (now, s) := s.readClock clock
            { s with lastSync := (s.lastSync.set oldPeer now).moveToEnd oldPeer }
          else evictLastSync clock fuel { s with syncLocks := s.syncLocks.erase oldPeer }
    else s

/-- `_evict_idle_peer_state`. -/
def evictIdlePeerState (clock : ℕ → Time) (s : PeerState) : PeerState :=
  let s := evictLocks (s.syncLocks.size * (s.syncLocks.size + 2)) 0 s
  evictLastSync clock s.lastSync.size s

/-- `_peer_lock` up to the eviction: the lock of `peer`, a new one if there is none, as
the most recent entry. -/
def touchLock (peer : ℤ) (s : PeerState) : ℕ × PeerState :=
  match s.syncLocks.get? peer with
  | some lock => (lock, { s with syncLocks := s.syncLocks.moveToEnd peer })
  | none =>
    (s.nextLock,
      { s with syncLocks := (s.syncLocks.set peer s.nextLock).moveToEnd peer
               locks := Function.update s.locks s.nextLock Lock.free
               nextLock := s.nextLock + 1 })

/-- `_peer_lock`. -/
def peerLock (clock : ℕ → Time) (peer : ℤ) (s : PeerState) : ℕ × PeerState :=
  let (lock, s) := s.touchLock peer
  (lock, s.evictIdlePeerState clock)

theorem peerLock_snd (clock : ℕ → Time) (peer : ℤ) (s : PeerState) :
    (s.peerLock clock peer).2 = (s.touchLock peer).2.evictIdlePeerState clock := rfl

/-- `_remember_sync` up to the eviction. -/
def touchSync (clock : ℕ → Time) (peer : ℤ) (s : PeerState) : PeerState :=
  let (now, s) := s.readClock clock
  { s with lastSync := (s.lastSync.set peer now).moveToEnd peer }

/-- `_remember_sync`. -/
def rememberSync (clock : ℕ → Time) (peer : ℤ) (s : PeerState) : PeerState :=
  (s.touchSync clock peer).evictIdlePeerState clock

/-- `last is None or self._clock() - last >= self._sync_ttl`. -/
def syncStale (syncTtl : Time) (clock : ℕ → Time) (peer : ℤ) (s : PeerState) :
    Bool × PeerState :=
  match s.lastSync.get? peer with
  | none => (true, s)
  | some last =>
    let (now, s) := s.readClock clock
    (decide (now - last ≥ syncTtl), s)

/-! ## Eviction touches no lock object -/

@[simp] theorem locks_evictLocks (fuel checked : ℕ) (s : PeerState) :
    (evictLocks fuel checked s).locks = s.locks := by
  induction fuel generalizing checked s with
  | zero => rfl
  | succ fuel ih =>
    rw [evictLocks]
    split_ifs
    · split
      · rfl
      · split_ifs <;> rw [ih]
    · rfl

@[simp] theorem nextLock_evictLocks (fuel checked : ℕ) (s : PeerState) :
    (evictLocks fuel checked s).nextLock = s.nextLock := by
  induction fuel generalizing checked s with
  | zero => rfl
  | succ fuel ih =>
    rw [evictLocks]
    split_ifs
    · split
      · rfl
      · split_ifs <;> rw [ih]
    · rfl

@[simp] theorem locks_evictLastSync (clock : ℕ → Time) (fuel : ℕ) (s : PeerState) :
    (evictLastSync clock fuel s).locks = s.locks := by
  induction fuel generalizing s with
  | zero => rfl
  | succ fuel ih =>
    rw [evictLastSync]
    split_ifs
    · split
      · rfl
      · dsimp only
        split
        · rw [ih]
        · split_ifs
          · rfl
          · rw [ih]
    · rfl

@[simp] theorem nextLock_evictLastSync (clock : ℕ → Time) (fuel : ℕ) (s : PeerState) :
    (evictLastSync clock fuel s).nextLock = s.nextLock := by
  induction fuel generalizing s with
  | zero => rfl
  | succ fuel ih =>
    rw [evictLastSync]
    split_ifs
    · split
      · rfl
      · dsimp only
        split
        · rw [ih]
        · split_ifs
          · rfl
          · rw [ih]
    · rfl

@[simp] theorem locks_evictIdlePeerState (clock : ℕ → Time) (s : PeerState) :
    (s.evictIdlePeerState clock).locks = s.locks := by
  rw [evictIdlePeerState, locks_evictLastSync, locks_evictLocks]

@[simp] theorem nextLock_evictIdlePeerState (clock : ℕ → Time) (s : PeerState) :
    (s.evictIdlePeerState clock).nextLock = s.nextLock := by
  rw [evictIdlePeerState, nextLock_evictLastSync, nextLock_evictLocks]

@[simp] theorem locks_rememberSync (clock : ℕ → Time) (peer : ℤ) (s : PeerState) :
    (s.rememberSync clock peer).locks = s.locks := by
  rw [rememberSync, locks_evictIdlePeerState]
  rfl

@[simp] theorem locks_syncStale (syncTtl : Time) (clock : ℕ → Time) (peer : ℤ) (s : PeerState) :
    (s.syncStale syncTtl clock peer).2.locks = s.locks := by
  unfold syncStale
  split <;> rfl

@[simp] theorem syncLocks_syncStale (syncTtl : Time) (clock : ℕ → Time) (peer : ℤ)
    (s : PeerState) : (s.syncStale syncTtl clock peer).2.syncLocks = s.syncLocks := by
  unfold syncStale
  split <;> rfl

@[simp] theorem lastSync_syncStale (syncTtl : Time) (clock : ℕ → Time) (peer : ℤ)
    (s : PeerState) : (s.syncStale syncTtl clock peer).2.lastSync = s.lastSync := by
  unfold syncStale
  split <;> rfl

@[simp] theorem nextLock_syncStale (syncTtl : Time) (clock : ℕ → Time) (peer : ℤ)
    (s : PeerState) : (s.syncStale syncTtl clock peer).2.nextLock = s.nextLock := by
  unfold syncStale
  split <;> rfl

@[simp] theorem nextLock_rememberSync (clock : ℕ → Time) (peer : ℤ) (s : PeerState) :
    (s.rememberSync clock peer).nextLock = s.nextLock := by
  rw [rememberSync, nextLock_evictIdlePeerState]
  rfl

end PeerState

end TgMessenger.MessageStore
