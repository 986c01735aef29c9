import TgMessenger.Cache.SingleFlight

/-!
# Freshness

A call of `get_or_fetch` that starts after an invalidation of its key returns nothing a
fetch has produced that started before it.  What is stored is fresh, because the epoch of
the key was the same when the fetch ended as when it started, and every invalidation in
between would have bumped it: the key had an entry all the while, so its epoch was neither
overlooked nor pruned.
-/

namespace TgMessenger.Cache

open Asyncio

variable {K V : Type}

/-- The value comes from no fetch that started before an invalidation of the key. -/
def Sourced.FreshFor (v : Sourced V) (invalidations : List (Invalidation K)) (key : K) : Prop :=
  ∀ started, v.started = some started → ∀ i ∈ invalidations, i.covers key → i.time < started

namespace TTLCache

variable [DecidableEq K]

/-- Nothing new is stored, and no epoch in use changes. -/
structure Calm (s s' : TTLCache K V) : Prop where
  store : ∀ key x, s'.store.get? key = some x → s.store.get? key = some x
  epoch : ∀ key, s'.locks.contains key → s'.epoch key = s.epoch key

theorem calm_leave (key : K) (entry : ℕ) (s : TTLCache K V) : Calm s (s.leave key entry) := by
  rw [leave]
  split_ifs
  · constructor
    · intro k x hx
      rw [store_pruneEpoch] at hx
      exact hx
    · intro k hk
      rw [(sameEntries_pruneEpoch _ key).locks] at hk
      exact epoch_pruneEpoch key hk
  · exact ⟨fun _ _ h ↦ h, fun _ _ ↦ rfl⟩

/-- Leaving creates no entry. -/
theorem contains_of_leave {key : K} {entry : ℕ} {s : TTLCache K V} {k : K}
    (h : (s.leave key entry).locks.contains k) : s.locks.contains k := by
  rw [leave] at h
  split_ifs at h
  · rw [(sameEntries_pruneEpoch _ key).locks, OrderedDict.contains, OrderedDict.get?_erase] at h
    split_ifs at h
    · cases h
    · exact h
  · exact h

/-- The end of a fetch: its value is stored when the epoch is still the same. -/
theorem fetched_spec (cfg : Setup) (key : K) (entry epoch : ℕ) (value : V) (s : TTLCache K V) :
    (∀ k x, (s.fetched cfg key entry epoch value).store.get? k = some x →
      s.store.get? k = some x ∨ k = key ∧ x.1 = value ∧ s.epoch key = epoch) ∧
    ∀ k, (s.fetched cfg key entry epoch value).locks.contains k →
      (s.fetched cfg key entry epoch value).epoch k = s.epoch k := by
  rw [fetched]
  split_ifs with hepoch
  · have hset := stored cfg key value s
    have hcalm := calm_leave key entry ((s.set cfg key value).setLock entry
      ((s.set cfg key value).lock entry).release)
    constructor
    · intro k x hx
      rcases hset.store k x (hcalm.store k x hx) with ⟨hk, hx⟩ | hold
      · exact .inr ⟨hk, hx, hepoch⟩
      · exact .inl hold
    · intro k hk
      have hk' := contains_of_leave hk
      rw [setLock, hset.entries.locks] at hk'
      exact (hcalm.epoch k hk).trans (hset.epochs k hk')
  · have hcalm := calm_leave key entry (s.setLock entry (s.lock entry).release)
    exact ⟨fun k x hx ↦ .inl (hcalm.store k x hx), hcalm.epoch⟩

/-- What a call finds out before it suspends. -/
structure Found (key : K) (s : TTLCache K V) (r : Outcome V × TTLCache K V) : Prop where
  calm : Calm s r.2
  stored : ∀ v, r.1 = .returned v → ∃ expiresAt, s.store.get? key = some (v, expiresAt)
  epoch : ∀ entry epoch, r.1 = .fetches entry epoch → r.2.epoch key = epoch

theorem found_holding (cfg : Setup) (key : K) (entry : ℕ) (s : TTLCache K V) :
    Found key s (s.holding cfg key entry) := by
  have hgot := got cfg key s
  rw [holding]
  split
  · rename_i hit s₁ heq
    rw [heq] at hgot
    have hcalm := calm_leave key entry (s₁.setLock entry (s₁.lock entry).release)
    refine ⟨⟨?_, ?_⟩, ?_, fun _ _ h ↦ by cases h⟩
    · intro k x hx
      exact hgot.store k x (hcalm.store k x hx)
    · intro k hk
      refine (hcalm.epoch k hk).trans ?_
      exact congrArg (fun d : OrderedDict K ℕ ↦ (d.get? k).getD 0) hgot.epochs
    · intro v hv
      obtain rfl := Outcome.returned.inj hv
      exact hgot.stored _ rfl
  · rename_i s₁ heq
    rw [heq] at hgot
    refine ⟨⟨hgot.store, ?_⟩, ?_, ?_⟩
    · intro k _
      exact congrArg (fun d : OrderedDict K ℕ ↦ (d.get? k).getD 0) hgot.epochs
    · intro v hv
      cases hv
    · intro e ep hfetch
      exact (Outcome.fetches.inj hfetch).2

theorem found_getOrFetch (cfg : Setup) (t : ℕ) (key : K) (s : TTLCache K V) :
    Found key s (s.getOrFetch cfg t key) := by
  have hgot := got cfg key s
  have hepoch (k : K) : (s.get cfg key).2.epoch k = s.epoch k :=
    congrArg (fun d : OrderedDict K ℕ ↦ (d.get? k).getD 0) hgot.epochs
  rw [getOrFetch]
  split
  · rename_i hit s₁ heq
    rw [heq] at hgot hepoch
    refine ⟨⟨hgot.store, fun k _ ↦ hepoch k⟩, ?_, fun _ _ h ↦ by cases h⟩
    intro v hv
    obtain rfl := Outcome.returned.inj hv
    exact hgot.stored _ rfl
  · rename_i s₁ heq
    rw [heq] at hgot hepoch
    have hentry : (s₁.entryOf key).2.store = s₁.store ∧ (s₁.entryOf key).2.epochs = s₁.epochs := by
      rw [entryOf]
      split <;> exact ⟨rfl, rfl⟩
    have hepoch' (k : K) : (s₁.entryOf key).2.epoch k = s.epoch k := by
      rw [epoch, hentry.2]
      exact hepoch k
    have hstore (k : K) (x : V × Time) (hx : (s₁.entryOf key).2.store.get? k = some x) :
        s.store.get? k = some x := by
      rw [hentry.1] at hx
      exact hgot.store k x hx
    dsimp only
    split
    · rename_i taken _
      obtain ⟨hcalm, hstored, hfetch⟩ := found_holding cfg key (s₁.entryOf key).1
        (((s₁.entryOf key).2.addCount (s₁.entryOf key).1 1).setLock (s₁.entryOf key).1 taken)
      refine ⟨⟨?_, ?_⟩, ?_, hfetch⟩
      · intro k x hx
        exact hstore k x (hcalm.store k x hx)
      · intro k hk
        exact (hcalm.epoch k hk).trans (hepoch' k)
      · intro v hv
        obtain ⟨expiresAt, hx⟩ := hstored v hv
        exact ⟨expiresAt, hstore key _ hx⟩
    · refine ⟨⟨hstore, fun k _ ↦ hepoch' k⟩, ?_, ?_⟩
      · intro v hv
        cases hv
      · intro e ep hfetch
        cases hfetch

end TTLCache

/-- Stored values are fresh, and epochs tell whether a fetch in progress still is. -/
structure Fresh [DecidableEq K] (w : World K V) : Prop where
  past : ∀ i ∈ w.invalidations, i.time < w.now
  stored : ∀ key x, w.cache.store.get? key = some x → x.1.FreshFor w.invalidations key
  waiting : ∀ t key entry since, w.status t = .waiting key entry since → since ≤ w.now
  fetching : ∀ t key entry epoch since started,
    w.status t = .fetching key entry epoch since started →
      since ≤ started ∧ started ≤ w.now ∧ epoch ≤ w.cache.epoch key ∧
        (w.cache.epoch key = epoch → ∀ i ∈ w.invalidations, i.covers key → i.time < started)
  returned : ∀ r ∈ w.returns, r.since ≤ w.now ∧ ∀ i ∈ w.invalidations, i.covers r.key →
    i.time < r.since → ∀ started, r.value.started = some started → i.time < started

namespace Fresh

variable [DecidableEq K] {w w' : World K V}

theorem init : Fresh (World.init : World K V) where
  past _ h := absurd h List.not_mem_nil
  stored _ _ h := nomatch h
  waiting _ _ _ _ h := nomatch h
  fetching _ _ _ _ _ _ h := nomatch h
  returned _ h := absurd h List.not_mem_nil

/-- An event that is not an invalidation. -/
theorem advance (h : Fresh w) (hinv : w'.invalidations = w.invalidations) (hnow : w'.now = w.now)
    (hstored : ∀ key x, w'.cache.store.get? key = some x →
      w.cache.store.get? key = some x ∨ x.1.FreshFor w.invalidations key)
    (hwaiting : ∀ t key entry since, w'.status t = .waiting key entry since →
      w.status t = .waiting key entry since ∨ since ≤ w.now)
    (hfetching : ∀ t key entry epoch since started,
      w'.status t = .fetching key entry epoch since started →
        w.status t = .fetching key entry epoch since started ∧
          w'.cache.epoch key = w.cache.epoch key ∨
        since ≤ w.now ∧ started = w.now ∧ w'.cache.epoch key = epoch)
    (hreturned : ∀ r ∈ w'.returns, r ∈ w.returns ∨ r.since ≤ w.now ∧
      (r.value.FreshFor w.invalidations r.key ∨
        ∀ started, r.value.started = some started → r.since ≤ started)) :
    Fresh { w' with now := w'.now + 1 } := by
  refine ⟨?_, ?_, ?_, ?_, ?_⟩ <;> simp only [hinv, hnow]
  · intro i hi
    exact Nat.lt_succ_of_lt (h.past i hi)
  · intro key x hx
    rcases hstored key x hx with hold | hfresh
    · exact h.stored key x hold
    · exact hfresh
  · intro t key entry since ht
    rcases hwaiting t key entry since ht with hold | hle
    · exact Nat.le_succ_of_le (h.waiting t key entry since hold)
    · exact Nat.le_succ_of_le hle
  · intro t key entry epoch since started ht
    rcases hfetching t key entry epoch since started ht with ⟨hold, hepoch⟩ | ⟨hle, rfl, hepoch⟩
    · obtain ⟨hsince, hstarted, hle, hfresh⟩ := h.fetching t key entry epoch since started hold
      rw [hepoch]
      exact ⟨hsince, Nat.le_succ_of_le hstarted, hle, hfresh⟩
    · exact ⟨hle, Nat.le_succ _, hepoch.ge, fun _ i hi _ ↦ h.past i hi⟩
  · intro r hr
    rcases hreturned r hr with hold | ⟨hle, hfresh⟩
    · obtain ⟨hle, hfresh⟩ := h.returned r hold
      exact ⟨Nat.le_succ_of_le hle, hfresh⟩
    · refine ⟨Nat.le_succ_of_le hle, ?_⟩
      intro i hi hcovers hlt started hstarted
      rcases hfresh with hfresh | hlate
      · exact hfresh started hstarted i hi hcovers
      · exact hlt.trans_le (hlate started hstarted)

/-- A call that is in a fetch keeps the entry of its key. -/
theorem contains_of_fetching (hcounted : w.cache.Counted w.place) {t : ℕ} {key : K}
    {entry epoch since started : ℕ} (ht : w.status t = .fetching key entry epoch since started) :
    w.cache.locks.contains key :=
  (hcounted.contains_iff key).mpr ⟨t, entry, .inr (congrArg Status.place ht)⟩

/-- An invalidation. -/
theorem invalidate (h : Fresh w) (hcounted : w.cache.Counted w.place) {covers : K → Bool}
    {cache : TTLCache K (Sourced V)}
    (hcache : TTLCache.Invalidates (fun k ↦ covers k) w.cache cache) :
    Fresh { w.invalidate covers cache with now := w.now + 1 } := by
  have hmem {i : Invalidation K} (hi : i ∈ ⟨w.now, covers⟩ :: w.invalidations) :
      i = ⟨w.now, covers⟩ ∨ i ∈ w.invalidations := List.mem_cons.mp hi
  refine ⟨?_, ?_, ?_, ?_, ?_⟩
  · intro i hi
    rcases hmem hi with rfl | hi
    · exact Nat.lt_succ_self _
    · exact Nat.lt_succ_of_lt (h.past i hi)
  · intro key x hx started hstarted i hi hcovers
    obtain ⟨hold, hnot⟩ := hcache.store key x hx
    rcases hmem hi with rfl | hi
    · exact absurd hcovers hnot
    · exact h.stored key x hold started hstarted i hi hcovers
  · intro t key entry since ht
    exact Nat.le_succ_of_le (h.waiting t key entry since ht)
  · intro t key entry epoch since started ht
    obtain ⟨hsince, hstarted, hle, hfresh⟩ := h.fetching t key entry epoch since started ht
    have hkey := contains_of_fetching hcounted ht
    have hup := hcache.epoch_le key hkey
    refine ⟨hsince, Nat.le_succ_of_le hstarted, hle.trans hup, ?_⟩
    intro hepoch i hi hcovers
    rw [show cache.epoch key = epoch from hepoch] at hup
    rcases hmem hi with rfl | hi
    · have hlt := hcache.epoch_lt key hkey hcovers
      rw [show cache.epoch key = epoch from hepoch] at hlt
      exact absurd hle hlt.not_ge
    · exact hfresh (le_antisymm hup hle) i hi hcovers
  · intro r hr
    obtain ⟨hle, hfresh⟩ := h.returned r hr
    refine ⟨Nat.le_succ_of_le hle, ?_⟩
    intro i hi hcovers hlt
    rcases hmem hi with rfl | hi
    · exact absurd hle hlt.not_ge
    · exact hfresh i hi hcovers hlt

/-- A call runs up to a suspension or to its end. -/
theorem settle (h : Fresh w) {t : ℕ} {key : K} {since : ℕ} (hsince : since ≤ w.now)
    {r : Outcome (Sourced V) × TTLCache K (Sourced V)} (hfound : TTLCache.Found key w.cache r)
    (hcounted : (w.settle t key since r).cache.Counted (w.settle t key since r).place) :
    Fresh { w.settle t key since r with now := (w.settle t key since r).now + 1 } := by
  obtain ⟨o, cache⟩ := r
  obtain ⟨⟨hstore, hepoch⟩, hstored, hfetch⟩ := hfound
  cases o with
  | returned value =>
    refine h.advance rfl rfl (fun k x hx ↦ .inl (hstore k x hx)) ?_ ?_ ?_
    · intro u k entry since' hu
      simp only [World.settle, World.finish, Function.update_apply] at hu
      split_ifs at hu
      exact .inl hu
    · intro u k entry epoch since' started hu
      have hkey := (hcounted.contains_iff k).mpr ⟨u, entry, .inr (congrArg Status.place hu)⟩
      simp only [World.settle, World.finish, Function.update_apply] at hu
      split_ifs at hu
      exact .inl ⟨hu, hepoch k hkey⟩
    · intro r hr
      rcases List.mem_cons.mp hr with rfl | hr
      · obtain ⟨expiresAt, hx⟩ := hstored value rfl
        exact .inr ⟨hsince, .inl (h.stored key _ hx)⟩
      · exact .inl hr
  | waits entry =>
    refine h.advance rfl rfl (fun k x hx ↦ .inl (hstore k x hx)) ?_ ?_ fun r hr ↦ .inl hr
    · intro u k entry' since' hu
      simp only [World.settle, Function.update_apply] at hu
      split_ifs at hu
      · obtain ⟨rfl, rfl, rfl⟩ := Status.waiting.inj hu
        exact .inr hsince
      · exact .inl hu
    · intro u k entry' epoch since' started hu
      have hkey := (hcounted.contains_iff k).mpr ⟨u, entry', .inr (congrArg Status.place hu)⟩
      simp only [World.settle, Function.update_apply] at hu
      split_ifs at hu
      exact .inl ⟨hu, hepoch k hkey⟩
  | fetches entry epoch =>
    refine h.advance rfl rfl (fun k x hx ↦ .inl (hstore k x hx)) ?_ ?_ fun r hr ↦ .inl hr
    · intro u k entry' since' hu
      simp only [World.settle, Function.update_apply] at hu
      split_ifs at hu
      exact .inl hu
    · intro u k entry' epoch' since' started hu
      have hkey := (hcounted.contains_iff k).mpr ⟨u, entry', .inr (congrArg Status.place hu)⟩
      simp only [World.settle, Function.update_apply] at hu
      split_ifs at hu
      · obtain ⟨rfl, rfl, rfl, rfl, rfl⟩ := Status.fetching.inj hu
        exact .inr ⟨hsince, rfl, hfetch _ _ rfl⟩
      · exact .inl ⟨hu, hepoch k hkey⟩

/-- A call ends. -/
theorem finish (h : Fresh w) {t : ℕ} {cache : TTLCache K (Sourced V)}
    {returns : List (Returned K V)}
    (hstored : ∀ key x, cache.store.get? key = some x →
      w.cache.store.get? key = some x ∨ x.1.FreshFor w.invalidations key)
    (hepoch : ∀ key, cache.locks.contains key → cache.epoch key = w.cache.epoch key)
    (hcounted : cache.Counted (w.finish t cache returns).place)
    (hreturned : ∀ r ∈ returns, r ∈ w.returns ∨ r.since ≤ w.now ∧
      (r.value.FreshFor w.invalidations r.key ∨
        ∀ started, r.value.started = some started → r.since ≤ started)) :
    Fresh { w.finish t cache returns with now := w.now + 1 } := by
  have hinv : (w.finish t cache returns).invalidations = w.invalidations := rfl
  refine h.advance hinv rfl hstored ?_ ?_ hreturned
  · intro u k entry since hu
    simp only [World.finish, Function.update_apply] at hu
    split_ifs at hu
    exact .inl hu
  · intro u k entry epoch since started hu
    have hkey := (hcounted.contains_iff k).mpr ⟨u, entry, .inr (congrArg Status.place hu)⟩
    simp only [World.finish, Function.update_apply] at hu
    split_ifs at hu
    exact .inl ⟨hu, hepoch k hkey⟩

end Fresh

namespace World

variable [DecidableEq K]

/-- Stored values are fresh in every state. -/
theorem Reachable.fresh {cfg : Setup} {w : World K V} (h : w.Reachable cfg) : Fresh w := by
  refine h.invariant .init fun w w' e hreach hw hr ↦ ?_
  have hcounted := (hreach.react hr).counted
  cases e with
  | getOrFetch t key =>
    obtain ⟨-, rfl⟩ := react_getOrFetch hr
    exact hw.settle (le_refl _) (TTLCache.found_getOrFetch cfg t key _) hcounted
  | resume t =>
    obtain ⟨key, entry, since, ht, -, rfl⟩ := react_resume hr
    obtain ⟨⟨hstore, hepoch⟩, hstored, hfetch⟩ := TTLCache.found_holding cfg key entry
      (w.cache.setLock entry ((w.cache.lock entry).resume t))
    exact hw.settle (hw.waiting t key entry since ht) ⟨⟨hstore, hepoch⟩, hstored, hfetch⟩ hcounted
  | fetched t value =>
    obtain ⟨key, entry, epoch, since, started, ht, rfl⟩ := react_fetched hr
    obtain ⟨hsince, hstarted, -, hfresh⟩ := hw.fetching t key entry epoch since started ht
    obtain ⟨hstore, hepoch⟩ :=
      TTLCache.fetched_spec cfg key entry epoch ⟨value, some started⟩ w.cache
    refine hw.finish ?_ hepoch hcounted ?_
    · intro k x hx
      rcases hstore k x hx with hold | ⟨rfl, hx, hsame⟩
      · exact .inl hold
      · refine .inr fun f hf i hi hcovers ↦ ?_
        rw [hx] at hf
        obtain rfl : started = f := Option.some.inj hf
        exact hfresh hsame i hi hcovers
    · intro r hr
      rcases List.mem_cons.mp hr with rfl | hr
      · refine .inr ⟨hsince.trans hstarted, .inr fun f hf ↦ ?_⟩
        obtain rfl : started = f := Option.some.inj hf
        exact hsince
      · exact .inl hr
  | failed t =>
    obtain ⟨key, entry, epoch, since, started, -, rfl⟩ := react_failed hr
    obtain ⟨hstore, hepoch⟩ := TTLCache.calm_leave key entry
      (w.cache.setLock entry (w.cache.lock entry).release)
    exact hw.finish (fun k x hx ↦ .inl (hstore k x hx)) hepoch hcounted fun r hr ↦ .inl hr
  | cancel t =>
    obtain ⟨key, entry, since, -, rfl⟩ := react_cancel hr
    have hinv : { w with cache := w.cache.cancel t entry }.invalidations = w.invalidations := rfl
    exact hw.advance hinv rfl (fun _ _ hx ↦ .inl hx) (fun _ _ _ _ hu ↦ .inl hu)
      (fun _ _ _ _ _ _ hu ↦ .inl ⟨hu, rfl⟩) fun r hr ↦ .inl hr
  | abandon t =>
    obtain ⟨key, entry, since, -, rfl⟩ := react_abandon hr
    obtain ⟨hstore, hepoch⟩ := TTLCache.calm_leave key entry
      (w.cache.setLock entry ((w.cache.lock entry).abandon t))
    exact hw.finish (fun k x hx ↦ .inl (hstore k x hx)) hepoch hcounted fun r hr ↦ .inl hr
  | get key =>
    obtain rfl := Option.some.inj hr
    have hgot := TTLCache.got cfg key w.cache
    refine hw.advance rfl rfl (fun k x hx ↦ .inl (hgot.store k x hx))
      (fun _ _ _ _ hu ↦ .inl hu) (fun _ k _ _ _ _ hu ↦ .inl ⟨hu, ?_⟩) fun r hr ↦ .inl hr
    exact congrArg (fun d : OrderedDict K ℕ ↦ (d.get? k).getD 0) hgot.epochs
  | set key value =>
    obtain rfl := Option.some.inj hr
    have hset := TTLCache.stored cfg key ⟨value, none⟩ w.cache
    refine hw.advance rfl rfl (fun k x hx ↦ ?_) (fun _ _ _ _ hu ↦ .inl hu)
      (fun _ k _ _ _ _ hu ↦ .inl ⟨hu, ?_⟩) fun r hr ↦ .inl hr
    · rcases hset.store k x hx with ⟨-, hx⟩ | hold
      · rw [hx]
        exact .inr fun f hf ↦ nomatch hf
      · exact .inl hold
    · exact hset.epochs k (Fresh.contains_of_fetching hreach.counted hu)
  | invalidate key =>
    obtain rfl := Option.some.inj hr
    exact hw.invalidate hreach.counted (TTLCache.invalidates_invalidate key w.cache)
  | invalidateIf predicate =>
    obtain rfl := Option.some.inj hr
    exact hw.invalidate hreach.counted (TTLCache.invalidates_invalidateIf predicate w.cache)

/-- A call that starts after an invalidation of its key returns no value of a fetch that
started before it. -/
theorem never_stale {cfg : Setup} {w : World K V} (h : w.Reachable cfg) {r : Returned K V}
    (hr : r ∈ w.returns) {i : Invalidation K} (hi : i ∈ w.invalidations) (hcovers : i.covers r.key)
    (hafter : i.time < r.since) {started : ℕ} (hstarted : r.value.started = some started) :
    ¬started < i.time :=
  Nat.not_lt_of_gt ((h.fresh.returned r hr).2 i hi hcovers hafter started hstarted)

/-- The key is invalidated during the first fetch, so the second call fetches again. -/
theorem never_stale_of_race : ∃ w : World ℕ ℕ, w.Reachable ⟨30, 128, fun _ ↦ 0⟩ ∧
    ∃ r ∈ w.returns, ∃ i ∈ w.invalidations, i.covers r.key ∧ i.time < r.since ∧
      r.value.started = some 3 ∧ ¬3 < i.time := by
  obtain ⟨w, hexec, hreturns, hinvalidations⟩ : ∃ w : World ℕ ℕ,
      Machine.exec (step ⟨30, 128, fun _ ↦ 0⟩) init
        [.getOrFetch 0 7, .invalidate (some 7), .fetched 0 1, .getOrFetch 1 7, .fetched 1 2] =
          some w ∧
      ⟨7, 3, ⟨2, some 3⟩⟩ ∈ w.returns ∧ ⟨1, TTLCache.coversKey (some 7)⟩ ∈ w.invalidations :=
    ⟨_, rfl, List.mem_cons_self, List.mem_cons_self⟩
  have hrun : w.Reachable ⟨30, 128, fun _ ↦ 0⟩ :=
    Machine.runs_of_exec (fun _ _ _ ↦ trivial) hexec
  exact ⟨w, hrun, _, hreturns, _, hinvalidations, rfl, by decide, rfl,
    never_stale hrun hreturns hinvalidations rfl (by decide) rfl⟩

end World

end TgMessenger.Cache
