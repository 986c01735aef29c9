import TgMessenger.Cache.SingleFlight

/-!
# The table of epochs

`_prune_epoch` is to drop the epoch of a key once nothing refers to the key: no value is stored
and no fetch is waiting or running.  Two paths take a stored value away and do not call it, the
lookup that finds it expired and the invalidation of everything.
-/

namespace TgMessenger.Cache

open Asyncio

variable {K V : Type} [DecidableEq K]

namespace TTLCache

variable {s : TTLCache K V} {key : K}

/-- Something refers to the key. -/
def Held (s : TTLCache K V) (k : K) : Prop :=
  s.store.contains k = true ∨ s.locks.contains k = true

/-- Every key in the table of epochs is referred to, but perhaps this one. -/
def BoundedBut (s : TTLCache K V) (key : K) : Prop :=
  ∀ k, k ≠ key → s.epochs.contains k = true → s.Held k

/-- Every key in the table of epochs is referred to. -/
def Bounded (s : TTLCache K V) : Prop := ∀ k, s.epochs.contains k = true → s.Held k

theorem Bounded.but (h : s.Bounded) (key : K) : s.BoundedBut key := fun k _ ↦ h k

/-- Pruning mends the table where it was not in order. -/
theorem BoundedBut.pruneEpoch (h : s.BoundedBut key) : (s.pruneEpoch key).Bounded := by
  intro k hk
  rw [TTLCache.pruneEpoch] at hk ⊢
  split_ifs at hk ⊢ with hgone
  · obtain ⟨hne, hk⟩ := OrderedDict.contains_erase_iff.mp hk
    exact h k hne hk
  · by_cases hkey : k = key
    · rw [hkey]
      rwa [← not_or, not_not] at hgone
    · exact h k hkey hk

/-- A key that something refers to is in order. -/
theorem BoundedBut.bounded (h : s.BoundedBut key) (hkey : s.Held key) : s.Bounded := by
  intro k hk
  by_cases hne : k = key
  · exact hne ▸ hkey
  · exact h k hne hk

/-- The tables are looked at only. -/
theorem Bounded.congr {s' : TTLCache K V} (h : s.Bounded) (hstore : s'.store = s.store)
    (hlocks : s'.locks = s.locks) (hepochs : s'.epochs = s.epochs) : s'.Bounded := by
  intro k hk
  rw [hepochs] at hk
  rw [Held, hstore, hlocks]
  exact h k hk

theorem boundedBut_of_erase (h : s.Bounded) (key : K) :
    BoundedBut { s with store := s.store.erase key } key := by
  intro k hne hk
  exact (h k hk).imp_left fun hstored ↦ OrderedDict.contains_erase_iff.mpr ⟨hne, hstored⟩

/-! ## The operations -/

/-- The value of the key is found to be expired. -/
def Expired (cfg : Setup) (s : TTLCache K V) (key : K) : Prop :=
  ∃ x, s.store.get? key = some x ∧ x.2 ≤ cfg.clock s.ticks

/-- A lookup changes nothing, or drops an expired value. -/
theorem get_cases (cfg : Setup) (s : TTLCache K V) (key : K) :
    (Expired cfg s key ∧ (s.get cfg key).1 = none ∧
      (s.get cfg key).2 = { s with store := s.store.erase key, ticks := s.ticks + 1 }) ∨
    (¬ Expired cfg s key ∧ (s.get cfg key).2.store = s.store ∧
      (s.get cfg key).2.locks = s.locks ∧ (s.get cfg key).2.epochs = s.epochs) := by
  rw [Expired, get]
  cases hget : s.store.get? key with
  | none =>
    refine .inr ⟨?_, rfl, rfl, rfl⟩
    rintro ⟨x, hx, -⟩
    cases hx
  | some x =>
    obtain ⟨value, expiresAt⟩ := x
    dsimp only [readClock]
    split_ifs with hexpired
    · exact .inl ⟨⟨_, rfl, hexpired⟩, rfl, rfl⟩
    · refine .inr ⟨?_, rfl, rfl, rfl⟩
      rintro ⟨x, hx, hle⟩
      obtain rfl := Option.some.inj hx
      exact hexpired hle

theorem Bounded.get_but (h : s.Bounded) (cfg : Setup) (key : K) :
    (s.get cfg key).2.BoundedBut key := by
  rcases get_cases cfg s key with ⟨-, -, hget⟩ | ⟨-, hstore, hlocks, hepochs⟩
  · rw [hget]
    exact boundedBut_of_erase h key
  · exact (h.congr hstore hlocks hepochs).but key

/-- A lookup that finds its value keeps it. -/
theorem Bounded.get_hit (h : s.Bounded) {cfg : Setup} {value : V}
    (hhit : (s.get cfg key).1 = some value) : (s.get cfg key).2.Bounded := by
  rcases get_cases cfg s key with ⟨-, hmiss, -⟩ | ⟨-, hstore, hlocks, hepochs⟩
  · rw [hmiss] at hhit
    cases hhit
  · exact h.congr hstore hlocks hepochs

/-- A lookup leaves the table in order exactly when it drops no value whose key has an epoch and
no fetch. -/
theorem Bounded.get_iff (h : s.Bounded) (cfg : Setup) (key : K) :
    (s.get cfg key).2.Bounded ↔
      (Expired cfg s key → s.epochs.contains key = true → s.locks.contains key = true) := by
  rcases get_cases cfg s key with ⟨hexpired, -, hget⟩ | ⟨hfresh, hstore, hlocks, hepochs⟩
  · rw [hget]
    constructor
    · intro hbounded _ hepoch
      refine (hbounded key hepoch).resolve_left ?_
      intro hstored
      exact (OrderedDict.contains_erase_iff.mp hstored).1 rfl
    · intro hlocked k hk
      by_cases hne : k = key
      · rw [hne] at hk ⊢
        exact .inr (hlocked hexpired hk)
      · exact boundedBut_of_erase h key k hne hk
  · exact iff_of_true (h.congr hstore hlocks hepochs) fun hexpired ↦ absurd hexpired hfresh

theorem Bounded.shrink (h : s.Bounded) (maxsize fuel : ℕ) : (s.shrink maxsize fuel).Bounded := by
  induction fuel generalizing s with
  | zero => exact h
  | succ fuel ih =>
    rw [TTLCache.shrink]
    split_ifs
    · split
      · exact h
      · next oldest value rest hitems =>
        refine ih (BoundedBut.pruneEpoch ?_)
        intro k hne hk
        refine (h k hk).imp_left fun hstored ↦ ?_
        rw [OrderedDict.contains, OrderedDict.get?_popFirst hitems, if_neg hne]
        exact hstored
    · exact h

theorem Bounded.set (h : s.Bounded) (cfg : Setup) (key : K) (value : V) :
    (s.set cfg key value).Bounded := by
  rw [TTLCache.set]
  apply Bounded.shrink
  intro k hk
  refine (h k hk).imp_left fun hstored ↦ OrderedDict.contains_set_iff.mpr (.inr ?_)
  split_ifs
  · rw [OrderedDict.contains, OrderedDict.get?_moveToEnd]
    exact hstored
  · exact hstored

theorem Bounded.discard (h : s.Bounded) (key : K) : (s.discard key).Bounded := by
  rw [TTLCache.discard]
  apply BoundedBut.pruneEpoch
  intro k hne hk
  have hold := (OrderedDict.contains_set_iff.mp hk).resolve_left hne
  exact (h k hold).imp_left fun hstored ↦ OrderedDict.contains_erase_iff.mpr ⟨hne, hstored⟩

theorem Bounded.invalidateIf (h : s.Bounded) (predicate : K → Bool) :
    (s.invalidateIf predicate).Bounded := by
  rw [TTLCache.invalidateIf]
  generalize (s.store.keys ∪ s.locks.keys ∪ s.epochs.keys).filter predicate = doomed
  induction doomed generalizing s with
  | nil => exact h
  | cons k doomed ih => exact ih (h.discard k)

theorem contains_foldl_bumpEpoch {ks : List K} {k : K} :
    (ks.foldl (fun s k ↦ s.bumpEpoch k) s).epochs.contains k = true ↔
      k ∈ ks ∨ s.epochs.contains k = true := by
  induction ks generalizing s with
  | nil => exact (or_iff_right List.not_mem_nil).symm
  | cons k' ks ih =>
    rw [List.foldl_cons, ih, bumpEpoch, OrderedDict.contains_set_iff, List.mem_cons, or_assoc,
      or_left_comm]

/-- The invalidation of everything leaves the table in order exactly when every key in it has a
fetch. -/
theorem bounded_invalidate_none_iff :
    (s.invalidate none).Bounded ↔
      ∀ k, s.epochs.contains k = true → s.locks.contains k = true := by
  have hlocks := (foldl_bumpEpoch_spec (s.epochs.keys ∪ s.locks.keys) s).1.locks
  have hheld : ∀ k, (s.invalidate none).Held k ↔ s.locks.contains k = true := by
    intro k
    rw [Held, invalidate, hlocks]
    exact or_iff_right Bool.false_ne_true
  have hepochs : ∀ k, (s.invalidate none).epochs.contains k = true ↔
      s.epochs.contains k = true ∨ s.locks.contains k = true := by
    intro k
    rw [invalidate, contains_foldl_bumpEpoch, List.mem_union_iff,
      ← OrderedDict.contains_iff_mem_keys, ← OrderedDict.contains_iff_mem_keys, or_assoc, or_comm,
      or_assoc, or_self, or_comm]
  constructor
  · intro h k hk
    exact (hheld k).mp (h k ((hepochs k).mpr (.inl hk)))
  · intro h k hk
    exact (hheld k).mpr (((hepochs k).mp hk).elim (h k) id)

/-! ## `get_or_fetch` -/

theorem Bounded.setLock (h : s.Bounded) (entry : ℕ) (l : Lock ℕ) : (s.setLock entry l).Bounded := h

/-- The key of a new entry is in order. -/
theorem BoundedBut.entryOf (h : s.BoundedBut key) : (s.entryOf key).2.Bounded := by
  rw [TTLCache.entryOf]
  cases hentry : s.locks.get? key with
  | some entry => exact h.bounded (.inr (by rw [OrderedDict.contains, hentry]; rfl))
  | none =>
    intro k hk
    by_cases hne : k = key
    · exact .inr (OrderedDict.contains_set_iff.mpr (.inl hne))
    · exact (h k hne hk).imp_right fun hlocked ↦ OrderedDict.contains_set_iff.mpr (.inr hlocked)

theorem Bounded.leave (h : s.Bounded) (key : K) (entry : ℕ) : (s.leave key entry).Bounded := by
  rw [TTLCache.leave]
  split_ifs
  · apply BoundedBut.pruneEpoch
    intro k hne hk
    exact (h k hk).imp_right fun hlocked ↦ OrderedDict.contains_erase_iff.mpr ⟨hne, hlocked⟩
  · exact h

theorem Bounded.exit (h : s.Bounded) (key : K) (entry : ℕ) : (s.exit key entry).Bounded :=
  (h.setLock entry _).leave key entry

/-- With the lock of its key, the lookup does no harm. -/
theorem Bounded.holding (h : s.Bounded) (cfg : Setup) (entry : ℕ)
    (hlocked : s.locks.contains key = true) : (s.holding cfg key entry).2.Bounded := by
  have hget : (s.get cfg key).2.Bounded := by
    refine (h.get_but cfg key).bounded (.inr ?_)
    rw [(got cfg key s).entries.locks]
    exact hlocked
  rw [TTLCache.holding]
  split
  · next hit s' heq =>
    rw [heq] at hget
    exact hget.exit key entry
  · next s' heq =>
    rw [heq] at hget
    exact hget

theorem contains_entryOf (s : TTLCache K V) (key : K) :
    (s.entryOf key).2.locks.contains key = true := by
  rw [entryOf]
  cases hentry : s.locks.get? key with
  | some entry =>
    rw [OrderedDict.contains, hentry]
    rfl
  | none => exact OrderedDict.contains_set_iff.mpr (.inl rfl)

theorem Bounded.getOrFetch (h : s.Bounded) (cfg : Setup) (t : ℕ) (key : K) :
    (s.getOrFetch cfg t key).2.Bounded := by
  have hbut := h.get_but cfg key
  have hhit := @Bounded.get_hit _ _ _ s key h cfg
  rw [TTLCache.getOrFetch]
  split
  · next hit s' heq =>
    rw [heq] at hhit
    exact hhit rfl
  · next s' heq =>
    rw [heq] at hbut
    have hin : ((s'.entryOf key).2.addCount (s'.entryOf key).1 1).Bounded := hbut.entryOf
    dsimp only
    split
    · exact (hin.setLock _ _).holding cfg _ (contains_entryOf s' key)
    · exact hin.setLock _ _

theorem Bounded.fetched (h : s.Bounded) (cfg : Setup) (key : K) (entry epoch : ℕ) (value : V) :
    (s.fetched cfg key entry epoch value).Bounded := by
  rw [TTLCache.fetched]
  split_ifs
  · exact (h.set cfg key value).exit key entry
  · exact h.exit key entry

end TTLCache

/-! ## Runs -/

namespace World

/-- Every key in the table of epochs has a stored value, or a fetch that waits or runs. -/
def Bounded (w : World K V) : Prop :=
  ∀ k, w.cache.epochs.contains k = true →
    w.cache.store.contains k = true ∨ ∃ t, (w.status t).WaitsFor k ∨ (w.status t).Fetches k

/-- The event takes no stored value away from a key that keeps its epoch without any fetch. -/
def sparesEpochs (cfg : Setup) (w : World K V) (e : Event K V) : Bool :=
  match e with
  | .get key =>
    match w.cache.store.get? key with
    | none => true
    | some (_, expiresAt) =>
      cfg.clock w.cache.ticks < expiresAt || !w.cache.epochs.contains key ||
        w.cache.locks.contains key
  | .invalidate none => w.cache.epochs.keys.all w.cache.locks.contains
  | _ => true

theorem sparesEpochs_get_iff {cfg : Setup} {w : World K V} {key : K} :
    sparesEpochs cfg w (.get key) = true ↔
      (w.cache.Expired cfg key → w.cache.epochs.contains key = true →
        w.cache.locks.contains key = true) := by
  rw [sparesEpochs, TTLCache.Expired]
  cases w.cache.store.get? key with
  | none =>
    refine iff_of_true rfl ?_
    rintro ⟨x, hx, -⟩
    cases hx
  | some x =>
    obtain ⟨value, expiresAt⟩ := x
    simp only [Bool.or_eq_true, decide_eq_true_eq, Bool.not_eq_true', Option.some.injEq,
      exists_eq_left']
    constructor
    · rintro ((hfresh | hnone) | hlocked) hexpired hepoch
      · exact absurd hexpired (not_le_of_gt hfresh)
      · rw [hnone] at hepoch
        cases hepoch
      · exact hlocked
    · intro h
      by_cases hexpired : expiresAt ≤ cfg.clock w.cache.ticks
      · cases hepoch : w.cache.epochs.contains key with
        | false => exact .inl (.inr rfl)
        | true => exact .inr (h hexpired hepoch)
      · exact .inl (.inl (lt_of_not_ge hexpired))

theorem sparesEpochs_invalidate_none_iff {cfg : Setup} {w : World K V} :
    sparesEpochs cfg w (.invalidate none) = true ↔
      ∀ k, w.cache.epochs.contains k = true → w.cache.locks.contains k = true := by
  rw [sparesEpochs, List.all_eq_true]
  exact forall_congr' fun k ↦ imp_congr_left OrderedDict.contains_iff_mem_keys.symm

/-- In every state the keys with an entry are those with a fetch. -/
theorem Reachable.bounded_iff {cfg : Setup} {w : World K V} (h : w.Reachable cfg) :
    w.Bounded ↔ w.cache.Bounded := by
  refine forall_congr' fun k ↦ imp_congr_right fun _ ↦ or_congr_right ?_
  exact ((single_flight h).2 k).symm

/-- One event keeps the table in order exactly when it spares the epochs. -/
theorem cache_bounded_iff {cfg : Setup} {w w' : World K V} {e : Event K V} (h : w.Reachable cfg)
    (hbounded : w.cache.Bounded) (hr : w.react cfg e = some w') :
    w'.cache.Bounded ↔ sparesEpochs cfg w e = true := by
  cases e with
  | getOrFetch t key =>
    obtain ⟨-, rfl⟩ := react_getOrFetch hr
    refine iff_of_true ?_ rfl
    rw [(w.place_settle t key _ _).2]
    exact hbounded.getOrFetch cfg t key
  | resume t =>
    obtain ⟨key, entry, since, ht, -, rfl⟩ := react_resume hr
    refine iff_of_true ?_ rfl
    rw [(w.place_settle t key _ _).2]
    refine TTLCache.Bounded.holding (hbounded.setLock _ _) cfg entry ?_
    exact ((single_flight h).2 key).mpr ⟨t, .inl ⟨entry, since, ht⟩⟩
  | fetched t value =>
    obtain ⟨key, entry, epoch, since, started, -, rfl⟩ := react_fetched hr
    exact iff_of_true (hbounded.fetched cfg key entry epoch _) rfl
  | failed t =>
    obtain ⟨key, entry, epoch, since, started, -, rfl⟩ := react_failed hr
    exact iff_of_true (hbounded.exit key entry) rfl
  | cancel t =>
    obtain ⟨key, entry, since, -, rfl⟩ := react_cancel hr
    exact iff_of_true (hbounded.setLock entry _) rfl
  | abandon t =>
    obtain ⟨key, entry, since, -, rfl⟩ := react_abandon hr
    exact iff_of_true ((hbounded.setLock entry _).leave key entry) rfl
  | get key =>
    obtain rfl := Option.some.inj hr
    rw [sparesEpochs_get_iff]
    exact hbounded.get_iff cfg key
  | set key value =>
    obtain rfl := Option.some.inj hr
    exact iff_of_true (hbounded.set cfg key _) rfl
  | invalidate key =>
    obtain rfl := Option.some.inj hr
    cases key with
    | none =>
      rw [sparesEpochs_invalidate_none_iff]
      exact TTLCache.bounded_invalidate_none_iff
    | some key => exact iff_of_true (hbounded.discard key) rfl
  | invalidateIf predicate =>
    obtain rfl := Option.some.inj hr
    exact iff_of_true (hbounded.invalidateIf predicate) rfl

/-- One event, with the calls instead of the entries. -/
theorem step_bounded_iff {cfg : Setup} {w w' : World K V} {e : Event K V} (h : w.Reachable cfg)
    (hbounded : w.Bounded) (hs : step cfg w e = some w') :
    w'.Bounded ↔ sparesEpochs cfg w e = true := by
  have hreachable : w'.Reachable cfg := h.tail ⟨e, trivial, hs⟩
  obtain ⟨w₁, hr, rfl⟩ := Option.map_eq_some_iff.mp hs
  rw [hreachable.bounded_iff]
  show w₁.cache.Bounded ↔ sparesEpochs cfg w e = true
  exact cache_bounded_iff h (h.bounded_iff.mp hbounded) hr

/-- In every run whose events spare the epochs, every key in the table has a stored value or a
fetch; and in the states of such a run an event keeps this exactly when it spares them. -/
theorem epochs_bounded {cfg : Setup} {w : World K V}
    (hrun : Machine.Runs (step cfg) (fun w e ↦ sparesEpochs cfg w e = true) init w) :
    w.Bounded ∧ ∀ e w', step cfg w e = some w' → (w'.Bounded ↔ sparesEpochs cfg w e = true) := by
  have hinv : w.Reachable cfg ∧ w.Bounded := by
    refine hrun.preserves (I := fun w ↦ w.Reachable cfg ∧ w.Bounded) ?_ ⟨.refl, ?_⟩
    · rintro w w' e ⟨hreachable, hbounded⟩ hspares hs
      exact ⟨hreachable.tail ⟨e, trivial, hs⟩,
        (step_bounded_iff hreachable hbounded hs).mpr hspares⟩
    · rintro k ⟨⟩
  exact ⟨hinv.2, fun e w' hs ↦ step_bounded_iff hinv.1 hinv.2 hs⟩

/-- The fetch of a page that was invalidated in the meantime, and another one after it. -/
def refetched : List (Event ℕ ℕ) :=
  [.getOrFetch 0 7, .getOrFetch 1 7, .invalidate (some 7), .fetched 0 5, .resume 1, .fetched 1 6]

/-- The clock of a cache in which everything expires at once. -/
def expiring : Setup := ⟨0, 128, fun _ ↦ 0⟩

/-- The value of the second fetch is stored, and its key has the epoch of the invalidation. -/
theorem epochs_bounded_of_refetched : ∃ w : World ℕ ℕ,
    Machine.Runs (step expiring) (fun w e ↦ sparesEpochs expiring w e = true) init w ∧
      w.cache.epochs.contains 7 = true ∧ w.Bounded := by
  have hexec : (((step expiring).guarded fun w e ↦ sparesEpochs expiring w e = true).exec
      (init : World ℕ ℕ) refetched).any (fun w ↦ w.cache.epochs.contains 7 = true) = true := by
    decide +kernel
  obtain ⟨w, hrun, hepoch⟩ := Machine.exists_run_of_exec hexec
  exact ⟨w, hrun, hepoch, (epochs_bounded hrun).1⟩

/-- It expires, a lookup drops it, and the epoch stays. -/
theorem epoch_left_by_get : ∃ w : World ℕ ℕ, w.Reachable expiring ∧ ¬ w.Bounded := by
  have hexec : (((step expiring).guarded fun _ _ ↦ True).exec
      (init : World ℕ ℕ) (refetched ++ [.get 7])).any (fun w ↦
        w.cache.epochs.contains 7 = true ∧ w.cache.store.contains 7 = false ∧
          w.cache.locks.contains 7 = false) = true := by
    decide +kernel
  obtain ⟨w, hrun, hepoch, hstore, hlocks⟩ := Machine.exists_run_of_exec hexec
  have hreachable : w.Reachable expiring := hrun
  refine ⟨w, hreachable, fun hbounded ↦ ?_⟩
  rcases hreachable.bounded_iff.mp hbounded 7 hepoch with hstored | hlocked
  · rw [hstore] at hstored
    cases hstored
  · rw [hlocks] at hlocked
    cases hlocked

end World

end TgMessenger.Cache
