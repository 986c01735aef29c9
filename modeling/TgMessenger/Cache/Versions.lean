import TgMessenger.Cache.Freshness

/-!
# What changes while it is cached

What the fetches of a cache read is outside, and changes: every source has versions, and a fetch
makes something of the versions of its source that its requests see.  When the cache is invalidated
because a version became known, a call that starts after that returns nothing older than that
version.
-/

namespace TgMessenger.Cache

variable {K P V : Type}

/-! ## Values -/

/-- Everything that is stored or was returned for a key has a property. -/
structure World.Holds [DecidableEq K] (Q : K → Sourced V → Prop) (w : World K V) : Prop where
  stored : ∀ key x, w.cache.store.get? key = some x → Q key x.1
  returned : ∀ r ∈ w.returns, Q r.key r.value

namespace World.Holds

variable [DecidableEq K] {Q : K → Sourced V → Prop} {w w' : World K V} {cfg : Setup}
  {e : Event K V}

theorem mono {Q' : K → Sourced V → Prop} (h : w.Holds Q) (hQ : ∀ key v, Q key v → Q' key v) :
    w.Holds Q' :=
  ⟨fun key x hx ↦ hQ key _ (h.stored key x hx), fun r hr ↦ hQ _ _ (h.returned r hr)⟩

theorem init : (World.init : World K V).Holds Q := by
  constructor
  · rintro key x ⟨⟩
  · rintro r ⟨⟩

/-- A call runs up to a suspension or to its end. -/
theorem settle (h : w.Holds Q) (t : ℕ) {key : K} (since : ℕ)
    {r : Outcome (Sourced V) × TTLCache K (Sourced V)} (hfound : TTLCache.Found key w.cache r) :
    (w.settle t key since r).Holds Q := by
  obtain ⟨o, cache⟩ := r
  obtain ⟨hcalm, hstored, -⟩ := hfound
  have hstore (k : K) (x : Sourced V × Time) (hx : cache.store.get? k = some x) : Q k x.1 :=
    h.stored k x (hcalm.store k x hx)
  cases o with
  | waits entry => exact ⟨hstore, h.returned⟩
  | fetches entry epoch => exact ⟨hstore, h.returned⟩
  | returned value =>
    refine ⟨hstore, fun r hr ↦ ?_⟩
    obtain rfl | hr := List.mem_cons.mp hr
    · obtain ⟨expiresAt, hx⟩ := hstored value rfl
      exact h.stored key _ hx
    · exact h.returned r hr

/-- An event keeps a property that the value of a fetch that ends has. -/
theorem react (h : w.Holds Q) (hr : w.react cfg e = some w')
    (hfetched : ∀ t value, e = .fetched t value → ∀ key entry epoch since started,
      w.status t = .fetching key entry epoch since started → Q key ⟨value, some started⟩)
    (hset : ∀ key value, e = .set key value → Q key ⟨value, none⟩) : w'.Holds Q := by
  cases e with
  | getOrFetch t key =>
    obtain ⟨-, rfl⟩ := react_getOrFetch hr
    exact h.settle t _ (TTLCache.found_getOrFetch cfg t key _)
  | resume t =>
    obtain ⟨key, entry, since, -, -, rfl⟩ := react_resume hr
    obtain ⟨⟨hstore, hepoch⟩, hstored, hfetch⟩ := TTLCache.found_holding cfg key entry
      (w.cache.setLock entry ((w.cache.lock entry).resume t))
    exact h.settle t since ⟨⟨hstore, hepoch⟩, hstored, hfetch⟩
  | fetched t value =>
    obtain ⟨key, entry, epoch, since, started, ht, rfl⟩ := react_fetched hr
    have hnew := hfetched t value rfl key entry epoch since started ht
    obtain ⟨hstore, -⟩ := TTLCache.fetched_spec cfg key entry epoch ⟨value, some started⟩ w.cache
    constructor
    · intro k x hx
      obtain hold | ⟨rfl, hvalue, -⟩ := hstore k x hx
      · exact h.stored k x hold
      · rw [hvalue]
        exact hnew
    · intro r hr
      obtain rfl | hr := List.mem_cons.mp hr
      · exact hnew
      · exact h.returned r hr
  | failed t =>
    obtain ⟨key, entry, epoch, since, started, -, rfl⟩ := react_failed hr
    obtain ⟨hstore, -⟩ := TTLCache.calm_leave key entry
      (w.cache.setLock entry (w.cache.lock entry).release)
    exact ⟨fun k x hx ↦ h.stored k x (hstore k x hx), h.returned⟩
  | cancel t =>
    obtain ⟨key, entry, since, -, rfl⟩ := react_cancel hr
    exact ⟨h.stored, h.returned⟩
  | abandon t =>
    obtain ⟨key, entry, since, -, rfl⟩ := react_abandon hr
    obtain ⟨hstore, -⟩ := TTLCache.calm_leave key entry
      (w.cache.setLock entry ((w.cache.lock entry).abandon t))
    exact ⟨fun k x hx ↦ h.stored k x (hstore k x hx), h.returned⟩
  | get key =>
    obtain rfl := Option.some.inj hr
    exact ⟨fun k x hx ↦ h.stored k x ((TTLCache.got cfg key w.cache).store k x hx), h.returned⟩
  | set key value =>
    obtain rfl := Option.some.inj hr
    refine ⟨fun k x hx ↦ ?_, h.returned⟩
    obtain ⟨rfl, hvalue⟩ | hold := (TTLCache.stored cfg key ⟨value, none⟩ w.cache).store k x hx
    · rw [hvalue]
      exact hset _ _ rfl
    · exact h.stored k x hold
  | invalidate key =>
    obtain rfl := Option.some.inj hr
    exact ⟨fun k x hx ↦ h.stored k x ((TTLCache.invalidates_invalidate key w.cache).store k x hx).1,
      h.returned⟩
  | invalidateIf predicate =>
    obtain rfl := Option.some.inj hr
    exact ⟨fun k x hx ↦
      h.stored k x ((TTLCache.invalidates_invalidateIf predicate w.cache).store k x hx).1,
      h.returned⟩

end World.Holds

/-- What no event does: set the number of the event, forget an invalidation, or change when a fetch
has started. -/
structure World.Extends (w w' : World K V) : Prop where
  now : w'.now = w.now
  invalidations : ∀ i ∈ w.invalidations, i ∈ w'.invalidations
  started : ∀ t key entry epoch since started,
    w'.status t = .fetching key entry epoch since started →
      w.status t = .fetching key entry epoch since started ∨ started = w.now

namespace World.Extends

theorem settle (w : World K V) (t : ℕ) (key : K) (since : ℕ)
    (r : Outcome (Sourced V) × TTLCache K (Sourced V)) : w.Extends (w.settle t key since r) := by
  obtain ⟨o, cache⟩ := r
  cases o with
  | returned value =>
    refine ⟨rfl, fun i hi ↦ hi, fun u k entry epoch since' started hu ↦ ?_⟩
    simp only [World.settle, finish, Function.update_apply] at hu
    split_ifs at hu
    exact .inl hu
  | waits entry' =>
    refine ⟨rfl, fun i hi ↦ hi, fun u k entry epoch since' started hu ↦ ?_⟩
    simp only [World.settle, Function.update_apply] at hu
    split_ifs at hu
    exact .inl hu
  | fetches entry' epoch' =>
    refine ⟨rfl, fun i hi ↦ hi, fun u k entry epoch since' started hu ↦ ?_⟩
    simp only [World.settle, Function.update_apply] at hu
    split_ifs at hu
    · exact .inr (Status.fetching.inj hu).2.2.2.2.symm
    · exact .inl hu

theorem finish (w : World K V) (t : ℕ) (cache : TTLCache K (Sourced V))
    (returns : List (Returned K V)) : w.Extends (w.finish t cache returns) := by
  refine ⟨rfl, fun i hi ↦ hi, fun u k entry epoch since started hu ↦ ?_⟩
  simp only [World.finish, Function.update_apply] at hu
  split_ifs at hu
  exact .inl hu

theorem react [DecidableEq K] {w w' : World K V} {cfg : Setup} {e : Event K V}
    (hr : w.react cfg e = some w') : w.Extends w' := by
  cases e with
  | getOrFetch t key =>
    obtain ⟨-, rfl⟩ := react_getOrFetch hr
    exact settle ..
  | resume t =>
    obtain ⟨key, entry, since, -, -, rfl⟩ := react_resume hr
    exact settle ..
  | fetched t value =>
    obtain ⟨key, entry, epoch, since, started, -, rfl⟩ := react_fetched hr
    exact finish ..
  | failed t =>
    obtain ⟨key, entry, epoch, since, started, -, rfl⟩ := react_failed hr
    exact finish ..
  | cancel t =>
    obtain ⟨key, entry, since, -, rfl⟩ := react_cancel hr
    exact ⟨rfl, fun i hi ↦ hi, fun _ _ _ _ _ _ ht ↦ .inl ht⟩
  | abandon t =>
    obtain ⟨key, entry, since, -, rfl⟩ := react_abandon hr
    exact finish ..
  | get key =>
    obtain rfl := Option.some.inj hr
    exact ⟨rfl, fun i hi ↦ hi, fun _ _ _ _ _ _ ht ↦ .inl ht⟩
  | set key value =>
    obtain rfl := Option.some.inj hr
    exact ⟨rfl, fun i hi ↦ hi, fun _ _ _ _ _ _ ht ↦ .inl ht⟩
  | invalidate key =>
    obtain rfl := Option.some.inj hr
    exact ⟨rfl, fun i hi ↦ List.mem_cons_of_mem _ hi, fun _ _ _ _ _ _ ht ↦ .inl ht⟩
  | invalidateIf predicate =>
    obtain rfl := Option.some.inj hr
    exact ⟨rfl, fun i hi ↦ List.mem_cons_of_mem _ hi, fun _ _ _ _ _ _ ht ↦ .inl ht⟩

end World.Extends

/-! ## Versions -/

/-- What a fetch has produced, and the versions that its requests have seen. -/
structure Reading (V : Type) where
  value : V
  versions : List ℕ

/-- What the fetches of a cache read. -/
structure Source (K P V : Type) where
  /-- The source that a key is about. -/
  scope : K → P
  /-- What a fetch makes of the versions that its requests see. -/
  read : K → List ℕ → V

/-- A version that became known, and the number of the invalidation made for it. -/
structure Told (P : Type) where
  time : ℕ
  source : P
  version : ℕ

/-- A cache and what it caches. -/
structure Versioned (K P V : Type) where
  calls : World K (Reading V)
  /-- The newest version of every source. -/
  version : P → ℕ
  /-- What it was when an event of the cache happened. -/
  log : ℕ → P → ℕ
  told : List (Told P)

/-- The keys that an event invalidates. -/
def Event.covers? [DecidableEq K] : Event K V → Option (K → Bool)
  | .invalidate key => some (TTLCache.coversKey key)
  | .invalidateIf predicate => some predicate
  | _ => none

theorem World.mem_invalidations_react [DecidableEq K] {w w' : World K V} {cfg : Setup}
    {e : Event K V} {covers : K → Bool} (he : e.covers? = some covers)
    (hr : w.react cfg e = some w') : ⟨w.now, covers⟩ ∈ w'.invalidations := by
  cases e with
  | invalidate key =>
    obtain rfl := Option.some.inj he
    obtain rfl := Option.some.inj hr
    exact List.mem_cons_self
  | invalidateIf predicate =>
    obtain rfl := Option.some.inj he
    obtain rfl := Option.some.inj hr
    exact List.mem_cons_self
  | getOrFetch => cases he
  | resume => cases he
  | fetched => cases he
  | failed => cases he
  | cancel => cases he
  | abandon => cases he
  | get => cases he
  | set => cases he

namespace Versioned

/-- A new cache. -/
def init : Versioned K P V := ⟨.init, fun _ ↦ 0, fun _ _ ↦ 0, []⟩

/-! ## What stays known -/

section

variable {src : Source K P V} {w w' w'' : Versioned K P V}

/-- A source changes. -/
def change [DecidableEq P] (p : P) (w : Versioned K P V) : Versioned K P V :=
  { w with version := Function.update w.version p (w.version p + 1) }

theorem le_version_change [DecidableEq P] (w : Versioned K P V) (p q : P) :
    w.version q ≤ (w.change p).version q := by
  show w.version q ≤ Function.update w.version p (w.version p + 1) q
  rw [Function.update_apply]
  split_ifs with hq
  · subst hq
    exact Nat.le_succ _
  · exact le_refl _

/-- A version became known before the event with this number. -/
def Knows (w : Versioned K P V) (p : P) (n time : ℕ) : Prop :=
  ∃ a ∈ w.told, a.source = p ∧ a.version = n ∧ a.time < time

/-- A reading from versions none of which is older than what was known at an event. -/
def Recent (src : Source K P V) (w : Versioned K P V) (key : K) (since : ℕ) (x : Reading V) :
    Prop :=
  x.value = src.read key x.versions ∧ ∀ n ∈ x.versions, n ≤ w.version (src.scope key) ∧
    ∀ a ∈ w.told, a.source = src.scope key → a.time < since → a.version ≤ n

theorem Recent.le {key : K} {since n m time : ℕ} {x : Reading V} (h : w.Recent src key since x)
    (hknows : w.Knows (src.scope key) m time) (htime : time ≤ since) (hn : n ∈ x.versions) :
    m ≤ n := by
  obtain ⟨a, ha, hsource, rfl, hlt⟩ := hknows
  exact (h.2 n hn).2 a ha hsource (hlt.trans_le htime)

/-- What happens to the cache and its sources from one moment to a later one. -/
structure Grows (w w' : Versioned K P V) : Prop where
  now : w.calls.now ≤ w'.calls.now
  version : ∀ p, w.version p ≤ w'.version p
  told : ∀ a ∈ w.told, a ∈ w'.told
  later : ∀ a ∈ w'.told, a ∈ w.told ∨ w.calls.now ≤ a.time

namespace Grows

theorem refl (w : Versioned K P V) : w.Grows w :=
  ⟨le_refl _, fun _ ↦ le_refl _, fun _ ha ↦ ha, fun _ ha ↦ .inl ha⟩

theorem trans (h : w.Grows w') (h' : w'.Grows w'') : w.Grows w'' where
  now := h.now.trans h'.now
  version p := (h.version p).trans (h'.version p)
  told a ha := h'.told a (h.told a ha)
  later a ha := by
    obtain ha | hle := h'.later a ha
    · exact h.later a ha
    · exact .inr (h.now.trans hle)

theorem change [DecidableEq P] (w : Versioned K P V) (p : P) : w.Grows (w.change p) :=
  ⟨le_refl _, le_version_change w p, fun _ ha ↦ ha, fun _ ha ↦ .inl ha⟩

theorem knows {p : P} {n time : ℕ} (h : w.Grows w') (hknows : w.Knows p n time) :
    w'.Knows p n time := by
  obtain ⟨a, ha, hrest⟩ := hknows
  exact ⟨a, h.told a ha, hrest⟩

theorem recent {key : K} {since : ℕ} {x : Reading V} (h : w.Grows w') (hsince : since ≤ w.calls.now)
    (hrecent : w.Recent src key since x) : w'.Recent src key since x := by
  refine ⟨hrecent.1, fun n hn ↦ ⟨((hrecent.2 n hn).1).trans (h.version _), ?_⟩⟩
  intro a ha hsource hlt
  obtain ha | hle := h.later a ha
  · exact (hrecent.2 n hn).2 a ha hsource hlt
  · exact absurd (hlt.trans_le hsince) hle.not_gt

end Grows

end

/-! ## The cache -/

variable [DecidableEq K] (cfg : Setup) (src : Source K P V)

/-- An event of the cache. -/
def cacheEvent (e : Event K (Reading V)) (w : Versioned K P V) : Option (Versioned K P V) :=
  (World.step cfg w.calls e).map fun calls ↦
    { w with calls, log := Function.update w.log w.calls.now w.version }

/-- The last request of a fetch is answered.  What it has seen was the newest at some moment since
the fetch has started. -/
def fetched (t : ℕ) (versions : List ℕ) (w : Versioned K P V) : Option (Versioned K P V) :=
  match w.calls.status t with
  | .fetching key _ _ _ started =>
    if ∀ n ∈ versions, w.log started (src.scope key) ≤ n ∧ n ≤ w.version (src.scope key) then
      w.cacheEvent cfg (.fetched t ⟨src.read key versions, versions⟩)
    else none
  | _ => none

/-- A version becomes known, and the cache is invalidated. -/
def learn (e : Event K (Reading V)) (p : P) (n : ℕ) (w : Versioned K P V) :
    Option (Versioned K P V) :=
  if n ≤ w.version p then
    (w.cacheEvent cfg e).map fun w' ↦ { w' with told := ⟨w.calls.now, p, n⟩ :: w'.told }
  else none

variable {cfg src} {w w' : Versioned K P V}

theorem cacheEvent_eq_some {e : Event K (Reading V)} (h : w.cacheEvent cfg e = some w') :
    ∃ calls, w.calls.react cfg e = some calls ∧
      w' = { w with calls := { calls with now := w.calls.now + 1 }
                    log := Function.update w.log w.calls.now w.version } := by
  obtain ⟨calls, hstep, rfl⟩ := Option.map_eq_some_iff.mp h
  obtain ⟨calls, hr, rfl⟩ := Option.map_eq_some_iff.mp hstep
  rw [(World.Extends.react hr).now]
  exact ⟨calls, hr, rfl⟩

theorem fetched_eq_some {t : ℕ} {versions : List ℕ} (h : w.fetched cfg src t versions = some w') :
    ∃ key entry epoch since started,
      w.calls.status t = .fetching key entry epoch since started ∧
      (∀ n ∈ versions, w.log started (src.scope key) ≤ n ∧ n ≤ w.version (src.scope key)) ∧
      w.cacheEvent cfg (.fetched t ⟨src.read key versions, versions⟩) = some w' := by
  rw [fetched] at h
  split at h
  · obtain ⟨hversions, h⟩ := Option.ite_none_right_eq_some.mp h
    exact ⟨_, _, _, _, _, ‹_›, hversions, h⟩
  · cases h

theorem learn_eq_some {e : Event K (Reading V)} {p : P} {n : ℕ}
    (h : w.learn cfg e p n = some w') :
    n ≤ w.version p ∧ ∃ w₁, w.cacheEvent cfg e = some w₁ ∧
      w' = { w₁ with told := ⟨w.calls.now, p, n⟩ :: w₁.told } := by
  obtain ⟨hn, h⟩ := Option.ite_none_right_eq_some.mp h
  obtain ⟨w₁, hevent, rfl⟩ := Option.map_eq_some_iff.mp h
  exact ⟨hn, w₁, hevent, rfl⟩

/-! ## What stays known -/

/-- A value is what a fetch made of versions of its source that were the newest at some moments
since it started. -/
def IsReading (src : Source K P V) (w : Versioned K P V) (key : K) (v : Sourced (Reading V)) :
    Prop :=
  v.value.value = src.read key v.value.versions ∧ ∃ started, v.started = some started ∧
    started < w.calls.now ∧
    ∀ n ∈ v.value.versions, w.log started (src.scope key) ≤ n ∧ n ≤ w.version (src.scope key)

/-- The cache and its sources, in every state. -/
structure Current (cfg : Setup) (src : Source K P V) (w : Versioned K P V) : Prop where
  reachable : w.calls.Reachable cfg
  /-- The versions only grow. -/
  log : ∀ n < w.calls.now, ∀ p, w.log n p ≤ w.version p ∧
    ∀ n' < w.calls.now, n ≤ n' → w.log n p ≤ w.log n' p
  /-- What became known was there, and its keys were invalidated. -/
  told : ∀ a ∈ w.told, a.version ≤ w.log a.time a.source ∧
    ∃ i ∈ w.calls.invalidations, i.time = a.time ∧ ∀ key, src.scope key = a.source → i.covers key
  started : ∀ t key entry epoch since started,
    w.calls.status t = .fetching key entry epoch since started → started < w.calls.now
  values : w.calls.Holds (w.IsReading src)

namespace Current

theorem init : Current cfg src (Versioned.init : Versioned K P V) where
  reachable := .refl
  log _ h := absurd h (Nat.not_lt_zero _)
  told _ h := absurd h List.not_mem_nil
  started := by
    rintro t key entry epoch since started ⟨⟩
  values := .init

/-- A source changes. -/
theorem change [DecidableEq P] (h : Current cfg src w) (p : P) : Current cfg src (w.change p) := by
  have hle (q : P) : w.version q ≤ (w.change p).version q := le_version_change w p q
  refine ⟨h.reachable, fun n hn q ↦ ?_, h.told, h.started, h.values.mono fun key v hv ↦ ?_⟩
  · exact ⟨((h.log n hn q).1).trans (hle q), (h.log n hn q).2⟩
  · obtain ⟨hread, started, hstarted, hlt, hversions⟩ := hv
    exact ⟨hread, started, hstarted, hlt, fun n hn ↦
      ⟨(hversions n hn).1, (hversions n hn).2.trans (hle _)⟩⟩

/-- An event of the cache, other than the end of a fetch that read something else. -/
theorem cacheEvent {e : Event K (Reading V)} (h : Current cfg src w)
    (hfetched : ∀ t value, e = .fetched t value → ∀ key entry epoch since started,
      w.calls.status t = .fetching key entry epoch since started →
        w.IsReading src key ⟨value, some started⟩)
    (hset : ∀ key value, e ≠ .set key value) (hs : w.cacheEvent cfg e = some w') :
    Current cfg src w' := by
  obtain ⟨calls, hr, rfl⟩ := cacheEvent_eq_some hs
  obtain ⟨hnow, hinvalidations, hstarted⟩ := World.Extends.react hr
  have hlog (n : ℕ) (hn : n < w.calls.now) :
      Function.update w.log w.calls.now w.version n = w.log n :=
    Function.update_of_ne hn.ne _ _
  have hreachable := h.reachable.react hr
  rw [hnow] at hreachable
  refine ⟨hreachable, ?_, ?_, ?_, ?_⟩
  · intro n hn p
    dsimp only at hn ⊢
    obtain hn | rfl := Nat.lt_succ_iff_lt_or_eq.mp hn
    · rw [hlog n hn]
      refine ⟨(h.log n hn p).1, fun n' hn' hle ↦ ?_⟩
      obtain hn' | rfl := Nat.lt_succ_iff_lt_or_eq.mp hn'
      · rw [hlog n' hn']
        exact (h.log n hn p).2 n' hn' hle
      · rw [Function.update_self]
        exact (h.log n hn p).1
    · rw [Function.update_self]
      refine ⟨le_refl _, fun n' hn' hle ↦ ?_⟩
      rw [le_antisymm (Nat.lt_succ_iff.mp hn') hle, Function.update_self]
  · intro a ha
    obtain ⟨hversion, i, hi, htime, hcovers⟩ := h.told a ha
    refine ⟨?_, i, hinvalidations i hi, htime, hcovers⟩
    dsimp only
    rw [hlog a.time (htime ▸ h.reachable.fresh.past i hi)]
    exact hversion
  · intro t key entry epoch since started ht
    obtain hold | rfl := hstarted t key entry epoch since started ht
    · exact Nat.lt_succ_of_lt (h.started t key entry epoch since started hold)
    · exact Nat.lt_succ_self _
  · have hvalues := h.values.react hr hfetched fun key value he ↦ absurd he (hset key value)
    refine ⟨fun key x hx ↦ ?_, fun r hr ↦ ?_⟩
    · obtain ⟨hread, started, hstarted, hlt, hversions⟩ := hvalues.stored key x hx
      refine ⟨hread, started, hstarted, Nat.lt_succ_of_lt hlt, ?_⟩
      dsimp only
      rw [hlog started hlt]
      exact hversions
    · obtain ⟨hread, started, hstarted, hlt, hversions⟩ := hvalues.returned r hr
      refine ⟨hread, started, hstarted, Nat.lt_succ_of_lt hlt, ?_⟩
      dsimp only
      rw [hlog started hlt]
      exact hversions

/-- The end of a fetch. -/
theorem fetched {t : ℕ} {versions : List ℕ} (h : Current cfg src w)
    (hs : w.fetched cfg src t versions = some w') : Current cfg src w' := by
  obtain ⟨key, entry, epoch, since, started, ht, hversions, hs⟩ := fetched_eq_some hs
  refine h.cacheEvent ?_ ?_ hs
  · rintro _ _ ⟨⟩ key' entry' epoch' since' started' ht'
    obtain ⟨rfl, -, -, -, rfl⟩ := Status.fetching.inj (ht.symm.trans ht')
    exact ⟨rfl, started, rfl, h.started t key entry epoch since started ht, hversions⟩
  · rintro key' value ⟨⟩

/-- A version becomes known, and the cache is invalidated. -/
theorem learn {e : Event K (Reading V)} {p : P} {n : ℕ} {covers : K → Bool} (h : Current cfg src w)
    (he : e.covers? = some covers) (hcovers : ∀ key, src.scope key = p → covers key)
    (hs : w.learn cfg e p n = some w') : Current cfg src w' := by
  obtain ⟨hn, w₁, hevent, rfl⟩ := learn_eq_some hs
  have hnext : Current cfg src w₁ := by
    refine h.cacheEvent ?_ ?_ hevent
    · rintro t value rfl
      cases he
    · rintro key value rfl
      cases he
  refine ⟨hnext.reachable, hnext.log, fun a ha ↦ ?_, hnext.started, hnext.values⟩
  obtain rfl | ha := List.mem_cons.mp ha
  · obtain ⟨calls, hr, rfl⟩ := cacheEvent_eq_some hevent
    have hmem := World.mem_invalidations_react he hr
    refine ⟨?_, _, hmem, rfl, hcovers⟩
    dsimp only
    rw [Function.update_self]
    exact hn
  · exact hnext.told a ha

/-- What a call returns was made of versions of its source, none of them older than a version that
had become known when the call started. -/
theorem returned (h : Current cfg src w) {r : Returned K (Reading V)} (hr : r ∈ w.calls.returns) :
    w.Recent src r.key r.since r.value.value := by
  obtain ⟨hread, started, hstarted, hlt, hversions⟩ := h.values.returned r hr
  refine ⟨hread, fun n hn ↦ ⟨(hversions n hn).2, fun a ha hsource hsince ↦ ?_⟩⟩
  obtain ⟨hversion, i, hi, htime, hcovers⟩ := h.told a ha
  -- the fetch has started after the invalidation, so it has seen what was known then
  have hafter : i.time < started :=
    (h.reachable.fresh.returned r hr).2 i hi (hcovers _ hsource.symm) (htime ▸ hsince) started
      hstarted
  have hbefore : i.time < w.calls.now := h.reachable.fresh.past i hi
  calc a.version
    _ ≤ w.log a.time a.source := hversion
    _ ≤ w.log started a.source := by
      rw [← htime]
      exact (h.log i.time hbefore a.source).2 started hlt hafter.le
    _ ≤ n := by
      rw [hsource]
      exact (hversions n hn).1

end Current

namespace Grows

theorem cacheEvent {e : Event K (Reading V)} (h : w.cacheEvent cfg e = some w') : w.Grows w' := by
  obtain ⟨calls, -, rfl⟩ := cacheEvent_eq_some h
  exact ⟨Nat.le_succ _, fun _ ↦ le_refl _, fun _ ha ↦ ha, fun _ ha ↦ .inl ha⟩

theorem fetched {t : ℕ} {versions : List ℕ} (h : w.fetched cfg src t versions = some w') :
    w.Grows w' := by
  obtain ⟨key, entry, epoch, since, started, -, -, h⟩ := fetched_eq_some h
  exact cacheEvent h

theorem learn {e : Event K (Reading V)} {p : P} {n : ℕ} (h : w.learn cfg e p n = some w') :
    w.Grows w' := by
  obtain ⟨-, w₁, hevent, rfl⟩ := learn_eq_some h
  obtain ⟨hnow, hversion, htold, hlater⟩ := cacheEvent hevent
  refine ⟨hnow, hversion, fun a ha ↦ List.mem_cons_of_mem _ (htold a ha), fun a ha ↦ ?_⟩
  obtain rfl | ha := List.mem_cons.mp ha
  · exact .inr (le_refl _)
  · exact hlater a ha

end Grows

/-- What becomes known is known from then on. -/
theorem knows_learn {e : Event K (Reading V)} {p : P} {n : ℕ} (h : w.learn cfg e p n = some w') :
    w'.Knows p n w'.calls.now := by
  obtain ⟨-, w₁, hevent, rfl⟩ := learn_eq_some h
  obtain ⟨calls, -, rfl⟩ := cacheEvent_eq_some hevent
  exact ⟨_, List.mem_cons_self, rfl, rfl, Nat.lt_succ_self _⟩

/-- A version that was there can always become known. -/
theorem isSome_learn (cfg : Setup) {e : Event K (Reading V)} {p : P} {n : ℕ} {covers : K → Bool}
    (he : e.covers? = some covers) (hn : n ≤ w.version p) : (w.learn cfg e p n).isSome := by
  rw [learn, if_pos hn, Option.isSome_map, cacheEvent, Option.isSome_map, World.step,
    Option.isSome_map]
  cases e with
  | invalidate key => rfl
  | invalidateIf predicate => rfl
  | getOrFetch => cases he
  | resume => cases he
  | fetched => cases he
  | failed => cases he
  | cancel => cases he
  | abandon => cases he
  | get => cases he
  | set => cases he

end Versioned

end TgMessenger.Cache
