import TgMessenger.Cache.Calls
import Mathlib.Tactic.Ring

/-!
# Single flight

The entries of a cache are counted by hand: a call that gets past the first lookup adds
one to the count of the entry of its key, every way out of the call takes one off, and
who reaches zero drops the entry.  `Counted` says that the count is right, that is, equal
to the number of users of the lock of the entry, and that entries, locks and calls agree
in the sense of `KeyedLocks.Sound`.  So an entry is there exactly while some call uses it,
and nobody can get a second lock for a key while a first one is in use.
-/

namespace TgMessenger.Cache

open Asyncio

variable {K V : Type}

/-- Where a call stands with respect to the lock of its key. -/
def Status.place : Status K → Place K
  | .idle => .outside
  | .waiting key entry _ => .waiting key entry
  | .fetching key entry _ _ _ => .inside key entry
  | .ended => .outside

/-- The call waits for the lock of a key. -/
def Status.WaitsFor (q : Status K) (key : K) : Prop := ∃ entry since, q = .waiting key entry since

/-- The call is in a fetch of a key. -/
def Status.Fetches (q : Status K) (key : K) : Prop :=
  ∃ entry epoch since started, q = .fetching key entry epoch since started

/-- Where an outcome leaves a call. -/
def Outcome.place (key : K) : Outcome V → Place K
  | .returned _ => .outside
  | .waits entry => .waiting key entry
  | .fetches entry _ => .inside key entry

namespace TTLCache

variable [DecidableEq K] {s s' : TTLCache K V} {place : ℕ → Place K}

/-- The entries of a cache as locks by key. -/
def keyedLocks (s : TTLCache K V) (place : ℕ → Place K) : KeyedLocks K ℕ :=
  ⟨s.locks.get?, s.nextEntry, s.lock, place⟩

/-- Entries, locks and calls agree, and the counts are right. -/
structure Counted (s : TTLCache K V) (place : ℕ → Place K) : Prop where
  sound : (s.keyedLocks place).Sound
  /-- The count of an entry is the number of its users, and there is one. -/
  count : ∀ key entry, s.locks.get? key = some entry →
    s.count entry = (s.lock entry).users ∧ 0 < (s.lock entry).users

omit [DecidableEq K] in
theorem lock_setLock_self (s : TTLCache K V) (entry : ℕ) (l : Lock ℕ) :
    (s.setLock entry l).lock entry = l := Function.update_self ..

omit [DecidableEq K] in
theorem lock_setLock_ne (s : TTLCache K V) (l : Lock ℕ) {entry entry' : ℕ}
    (h : entry' ≠ entry) : (s.setLock entry l).lock entry' = s.lock entry' :=
  Function.update_of_ne h ..

omit [DecidableEq K] in
theorem count_addCount_ne (s : TTLCache K V) (d : ℤ) {entry entry' : ℕ} (h : entry' ≠ entry) :
    (s.addCount entry d).count entry' = s.count entry' := Function.update_of_ne h ..

namespace Counted

theorem init : (TTLCache.init : TTLCache K V).Counted fun _ ↦ .outside :=
  ⟨.init 0, fun _ _ h ↦ nomatch h⟩

/-- Only the entries matter. -/
theorem congr (h : s.Counted place) (hs : SameEntries s s') : s'.Counted place := by
  refine ⟨?_, ?_⟩
  · rw [keyedLocks, hs.locks, hs.nextEntry, hs.lock]
    exact h.sound
  · rw [hs.locks, hs.count, hs.lock]
    exact h.count

/-- A key has an entry exactly while some call waits or holds the lock. -/
theorem contains_iff (h : s.Counted place) (key : K) :
    s.locks.contains key ↔
      ∃ t entry, place t = .waiting key entry ∨ place t = .inside key entry := by
  constructor
  · intro hkey
    obtain ⟨entry, hentry⟩ := Option.isSome_iff_exists.mp hkey
    have hsame {key' : K} {t : ℕ} (hu : (s.keyedLocks place).Uses t key' entry) : key' = key :=
      h.sound.injective key' key entry (h.sound.tracked t key' entry hu) hentry
    rcases Lock.users_pos_iff.mp (h.count key entry hentry).2 with hlocked | hwaiters
    · obtain ⟨owner, howned, howner⟩ := h.sound.owned entry
      obtain ⟨t, rfl⟩ := Option.isSome_iff_exists.mp (howned.locked_eq.symm.trans hlocked)
      obtain ⟨key', ht⟩ := (howner t).mp rfl
      exact ⟨t, entry, .inr (hsame (.inr ht) ▸ ht)⟩
    · obtain ⟨v, hv⟩ := List.exists_mem_of_ne_nil _ hwaiters
      obtain ⟨key', ht⟩ := (h.sound.queued entry v.1).mp (List.mem_map_of_mem hv)
      exact ⟨v.1, entry, .inl (hsame (.inl ht) ▸ ht)⟩
  · rintro ⟨t, entry, ht⟩
    exact Option.isSome_iff_exists.mpr ⟨entry, h.sound.tracked t key entry ht⟩

/-! ## The way in -/

/-- A call that has no lock yet gets an entry, and one user more is counted for it. -/
theorem entryOf (h : s.Counted place) (key : K) :
    ((s.entryOf key).2.keyedLocks place).Sound ∧
      (s.entryOf key).2.locks.get? key = some (s.entryOf key).1 ∧
      (s.entryOf key).2.count (s.entryOf key).1 =
        ((s.entryOf key).2.lock (s.entryOf key).1).users ∧
      ∀ key', key' ≠ key → ∀ entry, (s.entryOf key).2.locks.get? key' = some entry →
        entry ≠ (s.entryOf key).1 ∧ s.locks.get? key' = some entry ∧
          (s.entryOf key).2.count entry = s.count entry ∧
          (s.entryOf key).2.lock entry = s.lock entry := by
  rw [TTLCache.entryOf]
  cases hkey : s.locks.get? key with
  | some entry =>
    refine ⟨h.sound, hkey, (h.count key entry hkey).1, fun key' hne entry' hentry' ↦ ?_⟩
    refine ⟨?_, hentry', rfl, rfl⟩
    rintro rfl
    exact hne (h.sound.injective key' key entry' hentry' hkey)
  | none =>
    have hentries : (s.locks.set key s.nextEntry).get? =
        Function.update s.locks.get? key (some s.nextEntry) := by
      funext key'
      rw [OrderedDict.get?_set, Function.update_apply]
    refine ⟨?_, ?_, ?_, fun key' hne entry hentry ↦ ?_⟩
    · rw [keyedLocks, hentries]
      exact h.sound.create hkey
    · rw [hentries, Function.update_self]
    · simp only [Function.update_self]
      rfl
    · rw [hentries, Function.update_of_ne hne] at hentry
      have hlt : entry ≠ s.nextEntry := (h.sound.fresh key' entry hentry).ne
      exact ⟨hlt, hentry, Function.update_of_ne hlt .., Function.update_of_ne hlt ..⟩

/-- One user more, who takes the lock of the entry or goes to sleep in its queue. -/
theorem arrive (h : s.Counted place) (key : K) {l : Lock ℕ} {place' : ℕ → Place K}
    (hl : l.users = ((s.entryOf key).2.lock (s.entryOf key).1).users + 1)
    (hsound : (((s.entryOf key).2.addCount (s.entryOf key).1 1).setLock (s.entryOf key).1 l
      |>.keyedLocks place').Sound) :
    (((s.entryOf key).2.addCount (s.entryOf key).1 1).setLock (s.entryOf key).1 l).Counted
      place' := by
  obtain ⟨-, hkey, hcount, hothers⟩ := h.entryOf key
  refine ⟨hsound, fun key' entry hentry ↦ ?_⟩
  by_cases hk : key' = key
  · obtain rfl : (s.entryOf key).1 = entry := Option.some.inj (hkey.symm.trans (hk ▸ hentry))
    rw [lock_setLock_self, hl, Nat.cast_succ, ← hcount]
    exact ⟨Function.update_self .., Nat.succ_pos _⟩
  · obtain ⟨hne, hold, hc, hlock⟩ := hothers key' hk entry hentry
    rw [lock_setLock_ne _ _ hne, TTLCache.setLock, count_addCount_ne _ _ hne, hc]
    rw [show ((s.entryOf key).2.addCount (s.entryOf key).1 1).lock entry = _ from hlock]
    exact h.count key' entry hold

/-! ## The way out -/

/-- One user less, who has released the lock of the entry or left its queue; the last one
drops the entry. -/
theorem leave (h : s.Counted place) {key : K} {entry : ℕ} {l : Lock ℕ} {place' : ℕ → Place K}
    (hkey : s.locks.get? key = some entry) (hl : l.users + 1 = (s.lock entry).users)
    (hsound : ((s.setLock entry l).keyedLocks place').Sound) :
    (TTLCache.leave key entry (s.setLock entry l)).Counted place' := by
  have hcount : ((s.setLock entry l).addCount entry (-1)).count entry = l.users := by
    refine (Function.update_self ..).trans ?_
    rw [show (s.setLock entry l).count entry = _ from (h.count key entry hkey).1, ← hl]
    push_cast
    ring
  have hothers {key' : K} {entry' : ℕ} (hne : key' ≠ key)
      (hentry' : s.locks.get? key' = some entry') :
      ((s.setLock entry l).addCount entry (-1)).count entry' =
          (((s.setLock entry l).addCount entry (-1)).lock entry').users ∧
        0 < (((s.setLock entry l).addCount entry (-1)).lock entry').users := by
    have he : entry' ≠ entry := by
      rintro rfl
      exact hne (h.sound.injective key' key entry' hentry' hkey)
    rw [count_addCount_ne _ _ he]
    rw [show ((s.setLock entry l).addCount entry (-1)).lock entry' = s.lock entry' from
      lock_setLock_ne s l he]
    exact h.count key' entry' hentry'
  rw [TTLCache.leave, hcount]
  split_ifs with hzero
  · have hunused : l.users = 0 := by omega
    refine Counted.congr ?_ (sameEntries_pruneEpoch _ key)
    refine ⟨hsound.drop (s.locks.erase key).get? (fun key' entry' hentry' ↦ ?_)
      fun t key' entry' ht ↦ ?_, fun key' entry' hentry' ↦ ?_⟩
    · rw [OrderedDict.get?_erase] at hentry'
      split_ifs at hentry'
      exact hentry'
    · rw [OrderedDict.get?_erase]
      split_ifs with hk
      · have htracked : s.locks.get? key' = some entry' := hsound.tracked t key' entry' ht
        obtain rfl : entry = entry' := Option.some.inj (hkey.symm.trans (hk ▸ htracked))
        have hbusy := Lock.users_pos_iff.mpr (hsound.busy_of_uses ht)
        rw [show (((s.setLock entry l).keyedLocks place').locks entry).users = 0 from
          (congrArg Lock.users (s.lock_setLock_self entry l)).trans hunused] at hbusy
        exact absurd hbusy (Nat.lt_irrefl 0)
      · exact fun hnone ↦ by cases hnone.symm.trans (hsound.tracked t key' entry' ht)
    · rw [OrderedDict.get?_erase] at hentry'
      split_ifs at hentry' with hk
      exact hothers hk hentry'
  · refine ⟨hsound, fun key' entry' hentry' ↦ ?_⟩
    by_cases hk : key' = key
    · obtain rfl : entry = entry' := Option.some.inj (hkey.symm.trans (hk ▸ hentry'))
      rw [hcount]
      rw [show ((s.setLock entry l).addCount entry (-1)).lock entry = l from
        s.lock_setLock_self entry l]
      exact ⟨rfl, by omega⟩
    · exact hothers hk hentry'

/-- A call leaves `async with`. -/
theorem exit (h : s.Counted place) {t : ℕ} {key : K} {entry : ℕ}
    (ht : place t = .inside key entry) :
    (s.exit key entry).Counted (Function.update place t .outside) := by
  obtain ⟨owner, howned, howner⟩ := h.sound.owned entry
  have hlocked : (s.lock entry).locked = true := by
    rw [show (s.lock entry).locked = owner.isSome from howned.locked_eq, (howner t).mpr ⟨key, ht⟩]
    rfl
  exact h.leave (h.sound.tracked t key entry (.inr ht)) (Lock.users_release hlocked)
    (h.sound.leave ht)

/-- A call leaves the queue. -/
theorem abandon (h : s.Counted place) {t : ℕ} {key : K} {entry : ℕ}
    (ht : place t = .waiting key entry) :
    (s.abandon t key entry).Counted (Function.update place t .outside) := by
  obtain ⟨owner, howned, -⟩ := h.sound.owned entry
  have hqueued := (h.sound.queued entry t).mpr ⟨key, ht⟩
  exact h.leave (h.sound.tracked t key entry (.inl ht)) (Lock.users_abandon howned.nodup hqueued)
    (h.sound.abandon ht)

/-! ## In between -/

/-- The lock of an entry changes and its number of users does not. -/
theorem setLock (h : s.Counted place) {entry : ℕ} {l : Lock ℕ} {place' : ℕ → Place K}
    (hl : l.users = (s.lock entry).users)
    (hsound : ((s.setLock entry l).keyedLocks place').Sound) :
    (s.setLock entry l).Counted place' := by
  refine ⟨hsound, fun key' entry' hentry' ↦ ?_⟩
  have husers : ((s.setLock entry l).lock entry').users = (s.lock entry').users := by
    by_cases he : entry' = entry
    · rw [he, lock_setLock_self, hl]
    · rw [lock_setLock_ne s l he]
  rw [husers]
  exact h.count key' entry' hentry'

/-- A call in the queue is cancelled. -/
theorem cancel (h : s.Counted place) (t entry : ℕ) : (s.cancel t entry).Counted place :=
  h.setLock (Lock.users_cancel ..) (h.sound.cancel t entry)

/-- A call in the queue takes the lock. -/
theorem resume (h : s.Counted place) {t : ℕ} {key : K} {entry : ℕ}
    (ht : place t = .waiting key entry) (hwoken : (s.lock entry).waiting? t = some .woken) :
    (s.setLock entry ((s.lock entry).resume t)).Counted
      (Function.update place t (.inside key entry)) := by
  obtain ⟨owner, howned, -⟩ := h.sound.owned entry
  have hqueued := (h.sound.queued entry t).mpr ⟨key, ht⟩
  have hfree := (howned.woken _ (Lock.mem_waiters_of_waiting hwoken) rfl).1
  exact h.setLock (Lock.users_resume howned.nodup hqueued hfree) (h.sound.resume ht hwoken)

/-! ## Whole stretches -/

/-- From the lock to the fetch, or to a hit. -/
theorem holding (h : s.Counted place) (cfg : Setup) {t : ℕ} {key : K} {entry : ℕ}
    (ht : place t = .inside key entry) :
    (s.holding cfg key entry).2.Counted
      (Function.update place t ((s.holding cfg key entry).1.place key)) := by
  have hgot := h.congr (got cfg key s).entries
  rw [TTLCache.holding]
  split
  · rename_i hit s₁ heq
    rw [heq] at hgot
    exact hgot.exit ht
  · rename_i s₁ heq
    rw [heq] at hgot
    rw [Outcome.place, ← ht, Function.update_eq_self]
    exact hgot

/-- From the call to the queue, to the fetch, or to a hit. -/
theorem getOrFetch (h : s.Counted place) (cfg : Setup) {t : ℕ} {key : K}
    (ht : place t = .outside) :
    (s.getOrFetch cfg t key).2.Counted
      (Function.update place t ((s.getOrFetch cfg t key).1.place key)) := by
  have hgot := h.congr (got cfg key s).entries
  rw [TTLCache.getOrFetch]
  split
  · rename_i hit s₁ heq
    rw [heq] at hgot
    rw [Outcome.place, ← ht, Function.update_eq_self]
    exact hgot
  · rename_i s₁ heq
    rw [heq] at hgot
    obtain ⟨hsound, hkey, -, -⟩ := hgot.entryOf key
    dsimp only
    split
    · rename_i taken htaken
      have hin := hgot.arrive key (Lock.users_acquire? htaken) (hsound.enter ht hkey htaken)
      have hdone := hin.holding cfg (Function.update_self t _ place)
      rwa [Function.update_idem] at hdone
    · exact hgot.arrive key (Lock.users_enqueue ..) (hsound.wait ht hkey)

/-- The end of a fetch that produced a value. -/
theorem fetched (h : s.Counted place) (cfg : Setup) {t : ℕ} {key : K} {entry epoch : ℕ} (v : V)
    (ht : place t = .inside key entry) :
    (s.fetched cfg key entry epoch v).Counted (Function.update place t .outside) := by
  rw [TTLCache.fetched]
  split_ifs
  · exact (h.congr (stored cfg key v s).entries).exit ht
  · exact h.exit ht

end Counted

end TTLCache

/-! ## Runs -/

namespace World

/-- Where the calls stand. -/
def place (w : World K V) (t : ℕ) : Place K := (w.status t).place

theorem place_finish (w : World K V) (t : ℕ) (cache : TTLCache K (Sourced V))
    (returns : List (Returned K V)) :
    (w.finish t cache returns).place = Function.update w.place t .outside :=
  Function.comp_update Status.place w.status t .ended

theorem place_settle (w : World K V) (t : ℕ) (key : K) (since : ℕ)
    (r : Outcome (Sourced V) × TTLCache K (Sourced V)) :
    (w.settle t key since r).place = Function.update w.place t (r.1.place key) ∧
      (w.settle t key since r).cache = r.2 := by
  obtain ⟨o, cache⟩ := r
  cases o with
  | returned value => exact ⟨w.place_finish .., rfl⟩
  | waits entry => exact ⟨Function.comp_update Status.place w.status t _, rfl⟩
  | fetches entry epoch => exact ⟨Function.comp_update Status.place w.status t _, rfl⟩

variable [DecidableEq K]

/-- The counts are right in every state. -/
theorem Reachable.counted {cfg : Setup} {w : World K V} (h : w.Reachable cfg) :
    w.cache.Counted w.place := by
  refine h.invariant (I := fun w ↦ w.cache.Counted w.place) .init fun w w' e _ hw hr ↦ ?_
  have hsettle {t : ℕ} {key : K} {since : ℕ} {r : Outcome (Sourced V) × TTLCache K (Sourced V)}
      (hcounted : r.2.Counted (Function.update w.place t (r.1.place key))) :
      (w.settle t key since r).cache.Counted (w.settle t key since r).place := by
    obtain ⟨hplace, hcache⟩ := w.place_settle t key since r
    rwa [hplace, hcache]
  have hfinish {t : ℕ} {cache : TTLCache K (Sourced V)}
      (hcounted : cache.Counted (Function.update w.place t .outside)) :
      cache.Counted (w.finish t cache []).place := by
    rwa [place_finish]
  have hplace {t : ℕ} {q : Status K} (ht : w.status t = q) : w.place t = q.place :=
    congrArg Status.place ht
  cases e with
  | getOrFetch t key =>
    obtain ⟨ht, rfl⟩ := react_getOrFetch hr
    exact hsettle (hw.getOrFetch cfg (hplace ht))
  | resume t =>
    obtain ⟨key, entry, since, ht, hwoken, rfl⟩ := react_resume hr
    refine hsettle ?_
    have hin := (hw.resume (hplace ht) hwoken).holding cfg (Function.update_self t _ w.place)
    rwa [Function.update_idem] at hin
  | fetched t value =>
    obtain ⟨key, entry, epoch, since, started, ht, rfl⟩ := react_fetched hr
    exact hfinish (hw.fetched cfg _ (hplace ht))
  | failed t =>
    obtain ⟨key, entry, epoch, since, started, ht, rfl⟩ := react_failed hr
    exact hfinish (hw.exit (hplace ht))
  | cancel t =>
    obtain ⟨key, entry, since, ht, rfl⟩ := react_cancel hr
    exact hw.cancel t entry
  | abandon t =>
    obtain ⟨key, entry, since, ht, rfl⟩ := react_abandon hr
    exact hfinish (hw.abandon (hplace ht))
  | get key =>
    obtain rfl := Option.some.inj hr
    exact hw.congr (TTLCache.got cfg key w.cache).entries
  | set key value =>
    obtain rfl := Option.some.inj hr
    exact hw.congr (TTLCache.stored cfg key _ w.cache).entries
  | invalidate key =>
    obtain rfl := Option.some.inj hr
    exact hw.congr (TTLCache.invalidates_invalidate key w.cache).entries
  | invalidateIf predicate =>
    obtain rfl := Option.some.inj hr
    exact hw.congr (TTLCache.invalidates_invalidateIf predicate w.cache).entries

omit [DecidableEq K] in
/-- A call waits or fetches exactly when it stands at the lock of its key. -/
theorem busy_iff_place (w : World K V) (t : ℕ) (key : K) :
    (w.status t).WaitsFor key ∨ (w.status t).Fetches key ↔
      ∃ entry, w.place t = .waiting key entry ∨ w.place t = .inside key entry := by
  rw [place, Status.WaitsFor, Status.Fetches]
  cases w.status t <;> simp [Status.place]

/-- In every state at most one call is in a fetch of a key, and a key has an entry exactly
while some call waits for its lock or is in a fetch of it. -/
theorem single_flight {cfg : Setup} {w : World K V} (h : w.Reachable cfg) :
    (∀ t u key, (w.status t).Fetches key → (w.status u).Fetches key → t = u) ∧
      ∀ key, w.cache.locks.contains key ↔
        ∃ t, (w.status t).WaitsFor key ∨ (w.status t).Fetches key := by
  have hcounted := h.counted
  refine ⟨fun t u key ht hu ↦ ?_, fun key ↦ ?_⟩
  · obtain ⟨entry, _, _, _, ht⟩ := ht
    obtain ⟨entry', _, _, _, hu⟩ := hu
    exact hcounted.sound.exclusive (congrArg Status.place ht) (congrArg Status.place hu)
  · rw [hcounted.contains_iff key]
    exact exists_congr fun t ↦ (w.busy_iff_place t key).symm

/-- The second of two callers goes on with a fetch of its own when the first fetch fails. -/
theorem single_flight_of_two_callers : ∃ w : World ℕ ℕ, w.Reachable ⟨30, 128, fun _ ↦ 0⟩ ∧
    (w.status 1).Fetches 7 ∧ (∀ t, (w.status t).Fetches 7 → t = 1) ∧ w.cache.locks.contains 7 := by
  obtain ⟨w, hexec, hstatus⟩ : ∃ w : World ℕ ℕ, Machine.exec (step ⟨30, 128, fun _ ↦ 0⟩) init
      [.getOrFetch 0 7, .getOrFetch 1 7, .failed 0, .resume 1] = some w ∧
      w.status 1 = .fetching 7 0 0 1 3 := ⟨_, rfl, rfl⟩
  have hrun : w.Reachable ⟨30, 128, fun _ ↦ 0⟩ :=
    Machine.runs_of_exec (fun _ _ _ ↦ trivial) hexec
  have hfetch : (w.status 1).Fetches 7 := ⟨_, _, _, _, hstatus⟩
  obtain ⟨hone, hentry⟩ := single_flight hrun
  exact ⟨w, hrun, hfetch, fun t ht ↦ hone t 1 7 ht hfetch, (hentry 7).mpr ⟨1, .inr hfetch⟩⟩

end World

end TgMessenger.Cache
