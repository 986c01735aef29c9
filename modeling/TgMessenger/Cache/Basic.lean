import TgMessenger.Asyncio.Lock
import TgMessenger.Core.Models
import TgMessenger.Data.OrderedDict
import Mathlib.Data.List.Basic
import Mathlib.Logic.Function.Basic

/-!
# The cache

`TTLCache` (`core/cache.py`) keeps values for a limited time and lets concurrent misses on
a key share one fetch.  Three dictionaries belong to it: the stored values with their
expiry, the entries of the keys that some call of `get_or_fetch` is busy with, and the
epochs, which count the invalidations of a key.

`get_or_fetch` suspends in two places, in the queue of the lock of its key and in the
fetch.  Between them it runs without interruption, so it is modelled by what happens from
one suspension to the next: `getOrFetch` up to the first, `resume` from the queue on,
`fetched` and `failed` after the fetch, `abandon` when it is cancelled in the queue.
-/

namespace TgMessenger.Cache

open Asyncio

/-- The constructor arguments of a cache. -/
structure Setup where
  /-- `ttl`. -/
  ttl : Time
  /-- `maxsize`. -/
  maxsize : ℕ
  /-- The readings of the clock. -/
  clock : ℕ → Time

/-- The state of a `TTLCache`.  An entry, the pair of a lock and a count, is an object of
its own that the calls keep a reference to. -/
structure TTLCache (K V : Type) where
  /-- `_store`: each value with its expiry. -/
  store : OrderedDict K (V × Time)
  /-- `_locks`: the entry of each key. -/
  locks : OrderedDict K ℕ
  /-- `_epochs`. -/
  epochs : OrderedDict K ℕ
  /-- `entry[0]`. -/
  lock : ℕ → Lock ℕ
  /-- `entry[1]`. -/
  count : ℕ → ℤ
  /-- The next entry. -/
  nextEntry : ℕ
  /-- How often the clock was read. -/
  ticks : ℕ

/-- How far a call gets before it suspends. -/
inductive Outcome (V : Type) where
  | /-- It returns a value. -/
    returned (value : V)
  | /-- It waits for the lock of the entry. -/
    waits (entry : ℕ)
  | /-- It holds the lock of the entry and has called `fetch` at an epoch. -/
    fetches (entry epoch : ℕ)

namespace TTLCache

variable {K V : Type}

/-- A new cache. -/
def init : TTLCache K V := ⟨.empty, .empty, .empty, fun _ ↦ .free, fun _ ↦ 0, 0, 0⟩

/-- `self._clock()`; the clock is the sequence of its readings. -/
def readClock (cfg : Setup) (s : TTLCache K V) : Time × TTLCache K V :=
  (cfg.clock s.ticks, { s with ticks := s.ticks + 1 })

section DecidableEq

variable [DecidableEq K]

/-- `get`; `none` stands for the default. -/
def get (cfg : Setup) (key : K) (s : TTLCache K V) : Option V × TTLCache K V :=
  match s.store.get? key with
  | none => (none, s)
  | some (value, expiresAt) =>
    let (now, s) := s.readClock cfg
    if now ≥ expiresAt then (none, { s with store := s.store.erase key }) else (some value, s)

/-- `self._epochs.get(key, 0)`. -/
def epoch (key : K) (s : TTLCache K V) : ℕ := (s.epochs.get? key).getD 0

/-- `_bump_epoch`. -/
def bumpEpoch (key : K) (s : TTLCache K V) : TTLCache K V :=
  { s with epochs := s.epochs.set key (s.epoch key + 1) }

/-- `_prune_epoch`. -/
def pruneEpoch (key : K) (s : TTLCache K V) : TTLCache K V :=
  if ¬s.store.contains key ∧ ¬s.locks.contains key then { s with epochs := s.epochs.erase key }
  else s

/-- The loop of `set` that drops the oldest values.  The first argument bounds the number of
iterations. -/
def shrink (maxsize : ℕ) : ℕ → TTLCache K V → TTLCache K V
  | 0, s => s
  | fuel + 1, s =>
    if maxsize < s.store.size then
      match s.store.items with
      | [] => s
      | (oldest, _) :: _ =>
        shrink maxsize fuel (pruneEpoch oldest { s with store := s.store.popFirst })
    else s

/-- `set`. -/
def set (cfg : Setup) (key : K) (value : V) (s : TTLCache K V) : TTLCache K V :=
  let store := if s.store.contains key then s.store.moveToEnd key else s.store
  let (now, s) := s.readClock cfg
  let s := { s with store := store.set key (value, now + cfg.ttl) }
  s.shrink cfg.maxsize s.store.size

/-- Bump the epoch of a key, drop its value, prune the epoch. -/
def discard (key : K) (s : TTLCache K V) : TTLCache K V :=
  let s := s.bumpEpoch key
  pruneEpoch key { s with store := s.store.erase key }

/-- `invalidate`. -/
def invalidate (key : Option K) (s : TTLCache K V) : TTLCache K V :=
  match key with
  | none =>
    let s := (s.epochs.keys ∪ s.locks.keys).foldl (fun s k ↦ s.bumpEpoch k) s
    { s with store := .empty }
  | some key => s.discard key

/-- `invalidate_if`. -/
def invalidateIf (predicate : K → Bool) (s : TTLCache K V) : TTLCache K V :=
  let candidates := s.store.keys ∪ s.locks.keys ∪ s.epochs.keys
  (candidates.filter predicate).foldl (fun s k ↦ s.discard k) s

/-! ## `get_or_fetch` -/

/-- A lock of an entry changes. -/
def setLock (entry : ℕ) (l : Lock ℕ) (s : TTLCache K V) : TTLCache K V :=
  { s with lock := Function.update s.lock entry l }

/-- The entry of a key, created when there is none. -/
def entryOf (key : K) (s : TTLCache K V) : ℕ × TTLCache K V :=
  match s.locks.get? key with
  | some entry => (entry, s)
  | none =>
    (s.nextEntry, { s with locks := s.locks.set key s.nextEntry
                           lock := Function.update s.lock s.nextEntry .free
                           count := Function.update s.count s.nextEntry 0
                           nextEntry := s.nextEntry + 1 })

/-- `entry[1] += d`. -/
def addCount (entry : ℕ) (d : ℤ) (s : TTLCache K V) : TTLCache K V :=
  { s with count := Function.update s.count entry (s.count entry + d) }

/-- The `finally` block. -/
def leave (key : K) (entry : ℕ) (s : TTLCache K V) : TTLCache K V :=
  let s := s.addCount entry (-1)
  if s.count entry ≤ 0 then pruneEpoch key { s with locks := s.locks.erase key } else s

/-- The way out of `async with entry[0]`, and the `finally` block. -/
def exit (key : K) (entry : ℕ) (s : TTLCache K V) : TTLCache K V :=
  leave key entry (s.setLock entry (s.lock entry).release)

/-- The body of `async with entry[0]` up to the fetch. -/
def holding (cfg : Setup) (key : K) (entry : ℕ) (s : TTLCache K V) :
    Outcome V × TTLCache K V :=
  match s.get cfg key with
  | (some hit, s) => (.returned hit, s.exit key entry)
  | (none, s) => (.fetches entry (s.epoch key), s)

/-- `get_or_fetch`, called by task `t`. -/
def getOrFetch (cfg : Setup) (t : ℕ) (key : K) (s : TTLCache K V) : Outcome V × TTLCache K V :=
  match s.get cfg key with
  | (some hit, s) => (.returned hit, s)
  | (none, s) =>
    let (entry, s) := s.entryOf key
    let s := s.addCount entry 1
    match (s.lock entry).acquire? with
    | some taken => (s.setLock entry taken).holding cfg key entry
    | none => (.waits entry, s.setLock entry ((s.lock entry).enqueue t))

/-- `get_or_fetch` is woken in the queue. -/
def resume (cfg : Setup) (t : ℕ) (key : K) (entry : ℕ) (s : TTLCache K V) :
    Outcome V × TTLCache K V :=
  (s.setLock entry ((s.lock entry).resume t)).holding cfg key entry

/-- The fetch of `get_or_fetch` has produced a value. -/
def fetched (cfg : Setup) (key : K) (entry epoch : ℕ) (value : V) (s : TTLCache K V) :
    TTLCache K V :=
  let s := if s.epoch key = epoch then s.set cfg key value else s
  s.exit key entry

/-- The fetch of `get_or_fetch` has raised an exception or was cancelled. -/
def failed (key : K) (entry : ℕ) (s : TTLCache K V) : TTLCache K V := s.exit key entry

/-- `get_or_fetch` is cancelled in the queue; it resumes later. -/
def cancel (t entry : ℕ) (s : TTLCache K V) : TTLCache K V :=
  s.setLock entry ((s.lock entry).cancel t)

/-- `get_or_fetch` resumes in the queue with a `CancelledError`. -/
def abandon (t : ℕ) (key : K) (entry : ℕ) (s : TTLCache K V) : TTLCache K V :=
  leave key entry (s.setLock entry ((s.lock entry).abandon t))

end DecidableEq

/-! ## The entries stay -/

/-- The entries and their locks are the same. -/
structure SameEntries (s s' : TTLCache K V) : Prop where
  locks : s'.locks = s.locks
  lock : s'.lock = s.lock
  count : s'.count = s.count
  nextEntry : s'.nextEntry = s.nextEntry

namespace SameEntries

variable {s s' s'' : TTLCache K V}

theorem refl (s : TTLCache K V) : SameEntries s s := ⟨rfl, rfl, rfl, rfl⟩

theorem trans (h : SameEntries s s') (h' : SameEntries s' s'') : SameEntries s s'' :=
  ⟨h'.locks.trans h.locks, h'.lock.trans h.lock, h'.count.trans h.count,
    h'.nextEntry.trans h.nextEntry⟩

end SameEntries

section DecidableEq

variable [DecidableEq K]

/-- No epoch of a key that has an entry changes. -/
def EpochsKept (s s' : TTLCache K V) : Prop :=
  ∀ k, s.locks.contains k → s'.epoch k = s.epoch k

theorem epoch_bumpEpoch (s : TTLCache K V) (key k : K) :
    (s.bumpEpoch key).epoch k = if k = key then s.epoch k + 1 else s.epoch k := by
  rw [epoch, bumpEpoch, OrderedDict.get?_set]
  split_ifs with hk
  · rw [hk]
    rfl
  · rfl

/-- Pruning touches no epoch of a key that has an entry. -/
theorem epoch_pruneEpoch {s : TTLCache K V} (key : K) {k : K} (hk : s.locks.contains k) :
    (s.pruneEpoch key).epoch k = s.epoch k := by
  rw [pruneEpoch]
  split_ifs with hc
  · have hne : k ≠ key := fun heq ↦ hc.2 (heq ▸ hk)
    rw [epoch, OrderedDict.get?_erase_ne _ hne, epoch]
  · rfl

@[simp] theorem store_pruneEpoch (s : TTLCache K V) (key : K) :
    (s.pruneEpoch key).store = s.store := by
  rw [pruneEpoch]
  split <;> rfl

theorem sameEntries_pruneEpoch (s : TTLCache K V) (key : K) :
    SameEntries s (s.pruneEpoch key) := by
  rw [pruneEpoch]
  split <;> exact ⟨rfl, rfl, rfl, rfl⟩

/-! ## `get` -/

/-- What `get` does. -/
structure Got (key : K) (s : TTLCache K V) (r : Option V) (s' : TTLCache K V) : Prop where
  entries : SameEntries s s'
  epochs : s'.epochs = s.epochs
  /-- Nothing is stored. -/
  store : ∀ k x, s'.store.get? k = some x → s.store.get? k = some x
  /-- What is returned was stored. -/
  stored : ∀ v, r = some v → ∃ expiresAt, s.store.get? key = some (v, expiresAt)

theorem got (cfg : Setup) (key : K) (s : TTLCache K V) :
    Got key s (s.get cfg key).1 (s.get cfg key).2 := by
  rw [get]
  split
  · exact ⟨.refl s, rfl, fun _ _ h ↦ h, nofun⟩
  · rename_i value expiresAt hstored
    dsimp only [readClock]
    split_ifs
    · refine ⟨⟨rfl, rfl, rfl, rfl⟩, rfl, fun k x hk ↦ ?_, nofun⟩
      rw [OrderedDict.get?_erase] at hk
      split_ifs at hk
      exact hk
    · refine ⟨⟨rfl, rfl, rfl, rfl⟩, rfl, fun _ _ h ↦ h, fun v hv ↦ ⟨expiresAt, ?_⟩⟩
      rw [← Option.some.inj hv]
      exact hstored

/-! ## `set` -/

/-- What `set` does. -/
structure Stored (key : K) (value : V) (s s' : TTLCache K V) : Prop where
  entries : SameEntries s s'
  epochs : EpochsKept s s'
  /-- Only the new value is stored. -/
  store : ∀ k x, s'.store.get? k = some x → (k = key ∧ x.1 = value) ∨ s.store.get? k = some x

/-- Dropping the oldest values stores nothing. -/
theorem shrink_spec (maxsize fuel : ℕ) (s : TTLCache K V) :
    SameEntries s (s.shrink maxsize fuel) ∧ EpochsKept s (s.shrink maxsize fuel) ∧
      ∀ k x, (s.shrink maxsize fuel).store.get? k = some x → s.store.get? k = some x := by
  induction fuel generalizing s with
  | zero => exact ⟨.refl s, fun _ _ ↦ rfl, fun _ _ h ↦ h⟩
  | succ fuel ih =>
    rw [shrink]
    split_ifs
    · split
      · exact ⟨.refl s, fun _ _ ↦ rfl, fun _ _ h ↦ h⟩
      · rename_i oldest value rest hitems
        set s₁ : TTLCache K V := { s with store := s.store.popFirst } with hs₁
        obtain ⟨hentries, hepochs, hstore⟩ := ih (s₁.pruneEpoch oldest)
        have hprune := s₁.sameEntries_pruneEpoch oldest
        refine ⟨SameEntries.trans ⟨hprune.locks, hprune.lock, hprune.count, hprune.nextEntry⟩
          hentries, fun k hk ↦ ?_, fun k x hx ↦ ?_⟩
        · rw [hepochs k (by rw [hprune.locks]; exact hk), epoch_pruneEpoch oldest (s := s₁) hk]
          rfl
        · have hx := hstore k x hx
          rw [store_pruneEpoch, hs₁, OrderedDict.get?_popFirst hitems] at hx
          split_ifs at hx
          exact hx
    · exact ⟨.refl s, fun _ _ ↦ rfl, fun _ _ h ↦ h⟩

theorem stored (cfg : Setup) (key : K) (value : V) (s : TTLCache K V) :
    Stored key value s (s.set cfg key value) := by
  set d : OrderedDict K (V × Time) :=
    (if s.store.contains key then s.store.moveToEnd key else s.store).set key
      (value, cfg.clock s.ticks + cfg.ttl) with hd
  have hlookup (k : K) :
      d.get? k = if k = key then some (value, cfg.clock s.ticks + cfg.ttl) else s.store.get? k := by
    rw [hd, OrderedDict.get?_set]
    congr 1
    split_ifs
    · exact OrderedDict.get?_moveToEnd ..
    · rfl
  obtain ⟨hentries, hepochs, hstore⟩ :=
    shrink_spec cfg.maxsize d.size { s with store := d, ticks := s.ticks + 1 }
  refine ⟨⟨hentries.locks, hentries.lock, hentries.count, hentries.nextEntry⟩, hepochs,
    fun k x hx ↦ ?_⟩
  have hx := hstore k x hx
  rw [hlookup] at hx
  split_ifs at hx with hk
  · exact .inl ⟨hk, by rw [← Option.some.inj hx]⟩
  · exact .inr hx

/-- The loop of `set` runs until it is done. -/
theorem size_shrink_le {maxsize fuel : ℕ} {s : TTLCache K V}
    (h : s.store.size ≤ maxsize + fuel) : (s.shrink maxsize fuel).store.size ≤ maxsize := by
  induction fuel generalizing s with
  | zero => exact h
  | succ fuel ih =>
    rw [shrink]
    split_ifs with hc
    · split
      · rename_i hnil
        exact (congrArg List.length hnil).trans_le (Nat.zero_le _)
      · refine ih ?_
        rw [store_pruneEpoch, OrderedDict.size_popFirst]
        omega
    · exact Nat.le_of_not_lt hc

/-- No more than `maxsize` values are kept. -/
theorem size_set_le (cfg : Setup) (key : K) (value : V) (s : TTLCache K V) :
    (s.set cfg key value).store.size ≤ cfg.maxsize :=
  size_shrink_le (Nat.le_add_left _ _)

/-! ## Invalidation -/

/-- What an invalidation of the keys in `covers` does. -/
structure Invalidates (covers : K → Prop) (s s' : TTLCache K V) : Prop where
  entries : SameEntries s s'
  /-- The values of the keys are dropped. -/
  store : ∀ k x, s'.store.get? k = some x → s.store.get? k = some x ∧ ¬covers k
  /-- No epoch in use goes down. -/
  epoch_le : ∀ k, s.locks.contains k → s.epoch k ≤ s'.epoch k
  /-- The epochs of the keys in use go up. -/
  epoch_lt : ∀ k, s.locks.contains k → covers k → s.epoch k < s'.epoch k

theorem Invalidates.refl (s : TTLCache K V) : Invalidates (fun _ ↦ False) s s :=
  ⟨.refl s, fun _ _ h ↦ ⟨h, id⟩, fun _ _ ↦ le_refl _, fun _ _ h ↦ h.elim⟩

theorem Invalidates.trans {p q : K → Prop} {s s' s'' : TTLCache K V} (h : Invalidates p s s')
    (h' : Invalidates q s' s'') : Invalidates (fun k ↦ p k ∨ q k) s s'' where
  entries := h.entries.trans h'.entries
  store k x hx := by
    obtain ⟨hx', hq⟩ := h'.store k x hx
    obtain ⟨hx'', hp⟩ := h.store k x hx'
    exact ⟨hx'', fun hpq ↦ hpq.elim hp hq⟩
  epoch_le k hk :=
    (h.epoch_le k hk).trans (h'.epoch_le k (by rw [h.entries.locks]; exact hk))
  epoch_lt k hk hpq := by
    have hk' : s'.locks.contains k := by rw [h.entries.locks]; exact hk
    rcases hpq with hp | hq
    · exact (h.epoch_lt k hk hp).trans_le (h'.epoch_le k hk')
    · exact (h.epoch_le k hk).trans_lt (h'.epoch_lt k hk' hq)

theorem Invalidates.congr {p q : K → Prop} {s s' : TTLCache K V} (h : Invalidates p s s')
    (hpq : ∀ k, p k ↔ q k) : Invalidates q s s' := by
  rwa [← funext fun k ↦ propext (hpq k)]

theorem invalidates_discard (key : K) (s : TTLCache K V) :
    Invalidates (· = key) s (s.discard key) := by
  have hepoch {k : K} (hk : s.locks.contains k) :
      (s.discard key).epoch k = if k = key then s.epoch k + 1 else s.epoch k := by
    rw [discard, epoch_pruneEpoch key (by exact hk), ← epoch_bumpEpoch]
    rfl
  refine ⟨?_, fun k x hx ↦ ?_, fun k hk ↦ ?_, fun k hk hcovers ↦ ?_⟩
  · have hentries := sameEntries_pruneEpoch
      { s.bumpEpoch key with store := s.store.erase key } key
    exact ⟨hentries.locks, hentries.lock, hentries.count, hentries.nextEntry⟩
  · rw [discard, store_pruneEpoch, OrderedDict.get?_erase] at hx
    split_ifs at hx with hk
    exact ⟨hx, hk⟩
  · rw [hepoch hk]
    split_ifs <;> omega
  · rw [hepoch hk, if_pos hcovers]
    exact Nat.lt_succ_self _

theorem invalidates_foldl_discard (ks : List K) (s : TTLCache K V) :
    Invalidates (· ∈ ks) s (ks.foldl (fun s k ↦ s.discard k) s) := by
  induction ks generalizing s with
  | nil => exact (Invalidates.refl s).congr fun k ↦ ⟨False.elim, List.not_mem_nil⟩
  | cons k ks ih =>
    exact ((invalidates_discard k s).trans (ih (s.discard k))).congr fun _ ↦ List.mem_cons.symm

theorem foldl_bumpEpoch_spec (ks : List K) (s : TTLCache K V) :
    SameEntries s (ks.foldl (fun s k ↦ s.bumpEpoch k) s) ∧
      (∀ k, s.epoch k ≤ (ks.foldl (fun s k ↦ s.bumpEpoch k) s).epoch k) ∧
      ∀ k ∈ ks, s.epoch k < (ks.foldl (fun s k ↦ s.bumpEpoch k) s).epoch k := by
  induction ks generalizing s with
  | nil => exact ⟨.refl s, fun _ ↦ le_refl _, fun _ h ↦ absurd h List.not_mem_nil⟩
  | cons key ks ih =>
    obtain ⟨hentries, hle, hlt⟩ := ih (s.bumpEpoch key)
    have hbump (k : K) : s.epoch k ≤ (s.bumpEpoch key).epoch k := by
      rw [epoch_bumpEpoch]
      split_ifs <;> omega
    refine ⟨⟨hentries.locks, hentries.lock, hentries.count, hentries.nextEntry⟩,
      fun k ↦ (hbump k).trans (hle k), fun k hk ↦ ?_⟩
    rcases List.mem_cons.mp hk with rfl | hk
    · refine lt_of_lt_of_le ?_ (hle k)
      rw [epoch_bumpEpoch, if_pos rfl]
      exact Nat.lt_succ_self _
    · exact (hbump k).trans_lt (hlt k hk)

/-- The keys `invalidate` is about. -/
def coversKey (key : Option K) (k : K) : Bool :=
  match key with
  | none => true
  | some key => k = key

/-- `invalidate`. -/
theorem invalidates_invalidate (key : Option K) (s : TTLCache K V) :
    Invalidates (fun k ↦ coversKey key k) s (s.invalidate key) := by
  cases key with
  | none =>
    obtain ⟨hentries, hle, hlt⟩ := foldl_bumpEpoch_spec (s.epochs.keys ∪ s.locks.keys) s
    refine ⟨⟨hentries.locks, hentries.lock, hentries.count, hentries.nextEntry⟩,
      fun k x hx ↦ (nomatch hx), fun k _ ↦ hle k, fun k hk _ ↦ hlt k ?_⟩
    exact List.mem_union_iff.mpr (.inr (OrderedDict.contains_iff_mem_keys.mp hk))
  | some key => exact (invalidates_discard key s).congr fun k ↦ decide_eq_true_iff.symm

/-- `invalidate_if`. -/
theorem invalidates_invalidateIf (predicate : K → Bool) (s : TTLCache K V) :
    Invalidates (fun k ↦ predicate k) s (s.invalidateIf predicate) := by
  have h := invalidates_foldl_discard
    ((s.store.keys ∪ s.locks.keys ∪ s.epochs.keys).filter predicate) s
  have hmem (k : K) : k ∈ (s.store.keys ∪ s.locks.keys ∪ s.epochs.keys).filter predicate ↔
      ((k ∈ s.store.keys ∨ k ∈ s.locks.keys) ∨ k ∈ s.epochs.keys) ∧ predicate k := by
    rw [List.mem_filter, List.mem_union_iff, List.mem_union_iff]
  refine ⟨h.entries, fun k x hx ↦ ?_, h.epoch_le, fun k hk hcovers ↦ ?_⟩
  · obtain ⟨hx', hnot⟩ := h.store k x hx
    refine ⟨hx', fun hcovers ↦ hnot ((hmem k).mpr ⟨.inl (.inl ?_), hcovers⟩)⟩
    exact List.mem_map_of_mem (f := Prod.fst) (OrderedDict.get?_eq_some_iff.mp hx')
  · refine h.epoch_lt k hk ((hmem k).mpr ⟨.inl (.inr ?_), hcovers⟩)
    exact OrderedDict.contains_iff_mem_keys.mp hk

end DecidableEq

end TTLCache

end TgMessenger.Cache
