import TgMessenger.MessageStore.PeerState
import Mathlib.Tactic.Linarith

/-!
# What `_evict_idle_peer_state` drops

The first loop drops the oldest entries whose lock does not read as locked, until the
dictionary is small enough or nothing but locked entries is left: `lockVictims`.  The
second loop drops the oldest syncs, and with each of them the lock of its peer, until it
meets a locked one: `syncVictims`.  Both are described from the state before the eviction.

The loops are modelled with a bound on their iterations; `evictLocks_spec` needs the bound
to be at least the number of iterations the loop can take, so the bound that
`evictIdlePeerState` passes is never met.
-/

namespace TgMessenger.MessageStore

open Asyncio

namespace PeerState

/-- `not old_lock.locked()`, for an entry of `_sync_locks`. -/
def unlocked (s : PeerState) (e : ℤ × ℕ) : Bool := !(s.locks e.2).locked

/-- The peers the first loop drops. -/
def lockVictims (s : PeerState) : List ℤ :=
  ((s.syncLocks.items.filter s.unlocked).take (s.syncLocks.size - peerStateMax)).map Prod.fst

/-- The lock of a peer reads as locked. -/
def peerLocked (s : PeerState) (peer : ℤ) : Bool :=
  match s.syncLocks.get? peer with
  | some lock => (s.locks lock).locked
  | none => false

/-- The peers the second loop drops when it finds these syncs. -/
def idleSyncs (s : PeerState) (syncs : List (ℤ × Time)) : List ℤ :=
  ((syncs.take (syncs.length - peerStateMax)).takeWhile fun e ↦ !s.peerLocked e.1).map Prod.fst

/-- The peers the second loop drops, from the syncs the first one leaves. -/
def syncVictims (s : PeerState) : List ℤ :=
  s.idleSyncs (s.lastSync.items.filter fun e ↦ e.1 ∉ s.lockVictims)

/-- The peers whose lock `_evict_idle_peer_state` drops. -/
def victims (s : PeerState) : List ℤ := s.lockVictims ++ s.syncVictims

/-- The last `n` entries are locked. -/
def LockedTail (s : PeerState) (n : ℕ) : Prop :=
  ∃ l l', s.syncLocks.items = l ++ l' ∧ l'.length = n ∧ ∀ e ∈ l', s.unlocked e = false

/-- Nothing to drop. -/
theorem evictLocks_stop {s : PeerState} (h : s.lockVictims = []) :
    (∀ p, s.syncLocks.get? p = if p ∈ s.lockVictims then none else s.syncLocks.get? p) ∧
      s.lastSync.items = s.lastSync.items.filter fun e ↦ e.1 ∉ s.lockVictims := by
  rw [h]
  refine ⟨fun p ↦ (if_neg List.not_mem_nil).symm, (List.filter_eq_self.mpr fun e _ ↦ ?_).symm⟩
  exact decide_eq_true List.not_mem_nil

/-- Rotating a locked entry. -/
theorem lockVictims_moveToEnd {s : PeerState} {e : ℤ × ℕ} {l : List (ℤ × ℕ)}
    (h : s.syncLocks.items = e :: l) (he : s.unlocked e = false) :
    ({ s with syncLocks := s.syncLocks.moveToEnd e.1 } : PeerState).lockVictims =
      s.lockVictims := by
  have hitems := OrderedDict.items_moveToEnd_oldest h
  have hunlocked : ({ s with syncLocks := s.syncLocks.moveToEnd e.1 } : PeerState).unlocked =
      s.unlocked := rfl
  simp only [lockVictims, OrderedDict.size_moveToEnd, hunlocked, hitems, h,
    List.filter_append, List.filter_cons, he, Bool.false_eq_true, if_false, List.filter_nil,
    List.append_nil]

/-- Dropping the oldest entry. -/
theorem lockVictims_popFirst {s : PeerState} {e : ℤ × ℕ} {l : List (ℤ × ℕ)}
    (h : s.syncLocks.items = e :: l) (he : s.unlocked e = true)
    (hsize : peerStateMax < s.syncLocks.size) (lastSync : OrderedDict ℤ Time) :
    s.lockVictims = e.1 ::
      ({ s with syncLocks := s.syncLocks.popFirst, lastSync } : PeerState).lockVictims := by
  have hunlocked : ({ s with syncLocks := s.syncLocks.popFirst, lastSync } : PeerState).unlocked =
      s.unlocked := rfl
  have hnext : s.syncLocks.size - peerStateMax =
      (s.syncLocks.popFirst.size - peerStateMax) + 1 := by
    rw [OrderedDict.size_popFirst]
    omega
  simp only [lockVictims, hunlocked, hnext, OrderedDict.items_popFirst, h, List.tail_cons,
    List.filter_cons, he, if_true, List.take_succ_cons, List.map_cons]

/-- Rotating a locked entry makes the locked tail longer. -/
theorem LockedTail.moveToEnd {s : PeerState} {n : ℕ} {e : ℤ × ℕ} {rest : List (ℤ × ℕ)}
    (h : s.LockedTail n) (hitems : s.syncLocks.items = e :: rest) (he : s.unlocked e = false)
    (hlt : n < s.syncLocks.size) :
    ({ s with syncLocks := s.syncLocks.moveToEnd e.1 } : PeerState).LockedTail (n + 1) := by
  obtain ⟨l, l', hl, hlen, hlocked⟩ := h
  cases l with
  | nil =>
    have : s.syncLocks.size = l'.length := congrArg List.length hl
    omega
  | cons a l =>
    rw [hitems] at hl
    obtain ⟨rfl, rfl⟩ := List.cons.inj hl
    refine ⟨l, l' ++ [e], ?_, by rw [List.length_append, hlen]; rfl, ?_⟩
    · exact (OrderedDict.items_moveToEnd_oldest hitems).trans (List.append_assoc l l' [e])
    · intro e' hmem
      rcases List.mem_append.mp hmem with hmem | hmem
      · exact hlocked e' hmem
      · rw [List.mem_singleton.mp hmem]
        exact he

/-- When every entry is locked there is nothing to drop. -/
theorem LockedTail.lockVictims_eq_nil {s : PeerState} {n : ℕ} (h : s.LockedTail n)
    (hn : s.syncLocks.size ≤ n) : s.lockVictims = [] := by
  obtain ⟨l, l', hl, hlen, hlocked⟩ := h
  have hnil : s.syncLocks.items.filter s.unlocked = [] := by
    have hsize : s.syncLocks.size = l.length + l'.length :=
      (congrArg List.length hl).trans List.length_append
    obtain rfl : l = [] := List.eq_nil_of_length_eq_zero (by omega)
    rw [hl, List.nil_append, List.filter_eq_nil_iff]
    exact fun e he ↦ by rw [hlocked e he]; exact Bool.false_ne_true
  rw [lockVictims, hnil, List.take_nil, List.map_nil]

/-- A pop pays for a whole new round of the loop. -/
theorem fuel_popFirst {s : PeerState} {fuel checked : ℕ}
    (hfuel : s.syncLocks.size * (s.syncLocks.size + 2) ≤ fuel + 1 + checked)
    (hlt : checked < s.syncLocks.size) :
    s.syncLocks.popFirst.size * (s.syncLocks.popFirst.size + 2) ≤ fuel + 0 := by
  rw [OrderedDict.size_popFirst]
  obtain ⟨n, hn⟩ : ∃ n, s.syncLocks.size = n + 1 := ⟨s.syncLocks.size - 1, by omega⟩
  rw [hn] at hfuel hlt ⊢
  simp only [Nat.add_sub_cancel]
  nlinarith

/-- The first loop, with a sufficient bound, drops exactly its victims. -/
theorem evictLocks_spec {fuel checked : ℕ} {s : PeerState}
    (hfuel : s.syncLocks.size * (s.syncLocks.size + 2) ≤ fuel + checked)
    (hchecked : checked ≤ s.syncLocks.size) (htail : s.LockedTail checked) :
    (∀ p, (evictLocks fuel checked s).syncLocks.get? p =
      if p ∈ s.lockVictims then none else s.syncLocks.get? p) ∧
    (evictLocks fuel checked s).lastSync.items =
      s.lastSync.items.filter fun e ↦ e.1 ∉ s.lockVictims := by
  induction fuel generalizing checked s with
  | zero =>
    have hsize : s.syncLocks.size = 0 := by
      by_contra h
      nlinarith [Nat.pos_of_ne_zero h]
    refine evictLocks_stop (s := s) ?_
    rw [lockVictims, List.eq_nil_of_length_eq_zero hsize, List.filter_nil, List.take_nil,
      List.map_nil]
  | succ fuel ih =>
    rw [evictLocks]
    split_ifs with hloop
    · obtain ⟨hsize, hlt⟩ := hloop
      cases hitems : s.syncLocks.items with
      | nil =>
        have : s.syncLocks.size = 0 := congrArg List.length hitems
        omega
      | cons e rest =>
        dsimp only
        by_cases he : (s.locks e.2).locked = true
        · have he' : s.unlocked e = false := by rw [unlocked, he]; rfl
          rw [if_pos he]
          have := @ih (checked + 1) { s with syncLocks := s.syncLocks.moveToEnd e.1 } ?_ ?_
            (htail.moveToEnd hitems he' hlt)
          · simpa only [lockVictims_moveToEnd hitems he', OrderedDict.get?_moveToEnd] using this
          · rw [OrderedDict.size_moveToEnd]
            omega
          · rw [OrderedDict.size_moveToEnd]
            omega
        · have he' : s.unlocked e = true := by
            rw [unlocked, Bool.eq_false_iff.mpr he]
            rfl
          have hvictims := lockVictims_popFirst hitems he' hsize (s.lastSync.erase e.1)
          rw [if_neg he]
          obtain ⟨hget, hlast⟩ := @ih 0
            { s with syncLocks := s.syncLocks.popFirst, lastSync := s.lastSync.erase e.1 }
            (fuel_popFirst hfuel hlt) (Nat.zero_le _)
            ⟨_, [], (List.append_nil _).symm, rfl, fun _ h ↦ absurd h List.not_mem_nil⟩
          refine ⟨fun p ↦ ?_, ?_⟩
          · rw [hget, hvictims, OrderedDict.get?_popFirst hitems]
            by_cases hp : p = e.1
            · simp [hp]
            · simp [hp]
          · rw [hlast, hvictims, OrderedDict.erase, OrderedDict.items_retain, List.filter_filter]
            refine List.filter_congr fun e' _ ↦ ?_
            by_cases he'' : e'.1 = e.1
            · simp [he'']
            · simp [he'']
    · refine evictLocks_stop ?_
      rcases not_and_or.mp hloop with hsize | hall
      · rw [lockVictims, Nat.sub_eq_zero_of_le (not_lt.mp hsize), List.take_zero, List.map_nil]
      · exact htail.lockVictims_eq_nil (not_lt.mp hall)

/-! ## The second loop -/

/-- Only the locks of the peers in question matter. -/
theorem idleSyncs_congr {s s' : PeerState} {syncs : List (ℤ × Time)}
    (h : ∀ e ∈ syncs, s.peerLocked e.1 = s'.peerLocked e.1) :
    s.idleSyncs syncs = s'.idleSyncs syncs := by
  have htake : ∀ e ∈ syncs.take (syncs.length - peerStateMax),
      s.peerLocked e.1 = s'.peerLocked e.1 := fun e he ↦ h e (List.mem_of_mem_take he)
  rw [idleSyncs, idleSyncs]
  generalize syncs.take (syncs.length - peerStateMax) = l at htake
  induction l with
  | nil => rfl
  | cons e l ih =>
    rw [List.takeWhile_cons, List.takeWhile_cons, htake e List.mem_cons_self]
    split_ifs
    · rw [List.map_cons, List.map_cons, ih fun e' he' ↦ htake e' (List.mem_cons_of_mem _ he')]
    · rfl

/-- The oldest sync goes, unless the lock of its peer is locked. -/
theorem idleSyncs_cons (s : PeerState) {e : ℤ × Time} {l : List (ℤ × Time)}
    (h : peerStateMax < (e :: l).length) :
    s.idleSyncs (e :: l) = if s.peerLocked e.1 = true then [] else e.1 :: s.idleSyncs l := by
  have hlen : (e :: l).length - peerStateMax = (l.length - peerStateMax) + 1 := by
    rw [List.length_cons] at h ⊢
    omega
  rw [idleSyncs, hlen, List.take_succ_cons, List.takeWhile_cons]
  by_cases he : s.peerLocked e.1 = true
  · rw [if_pos he, he]
    rfl
  · rw [if_neg he, Bool.eq_false_iff.mpr he]
    rfl

/-- The second loop, with a sufficient bound, drops exactly its victims. -/
theorem evictLastSync_spec {clock : ℕ → Time} {fuel : ℕ} {s : PeerState}
    (hfuel : s.lastSync.size ≤ fuel) (p : ℤ) :
    (evictLastSync clock fuel s).syncLocks.get? p =
      if p ∈ s.idleSyncs s.lastSync.items then none else s.syncLocks.get? p := by
  have hstop {s : PeerState} (hsize : ¬peerStateMax < s.lastSync.size) :
      s.idleSyncs s.lastSync.items = [] := by
    rw [OrderedDict.size] at hsize
    rw [idleSyncs, Nat.sub_eq_zero_of_le (not_lt.mp hsize), List.take_zero, List.takeWhile_nil,
      List.map_nil]
  induction fuel generalizing s with
  | zero =>
    rw [hstop (by omega), if_neg List.not_mem_nil]
    rfl
  | succ fuel ih =>
    rw [evictLastSync]
    by_cases hsize : peerStateMax < s.lastSync.size
    · rw [if_pos hsize]
      cases hitems : s.lastSync.items with
      | nil => simp [OrderedDict.size, hitems] at hsize
      | cons e rest =>
        have hrest (s' : PeerState) (hs' : s'.lastSync = s.lastSync.popFirst) :
            s'.lastSync.size ≤ fuel ∧ s'.lastSync.items = rest := by
          rw [hs', OrderedDict.size_popFirst, OrderedDict.items_popFirst, hitems]
          exact ⟨by omega, rfl⟩
        have hlen : peerStateMax < (e :: rest).length := hitems ▸ hsize
        dsimp only
        rw [idleSyncs_cons s hlen]
        cases hlock : s.syncLocks.get? e.1 with
        | none =>
          have hunlocked : s.peerLocked e.1 = false := by rw [peerLocked, hlock]
          obtain ⟨hfuel', hitems'⟩ := hrest { s with lastSync := s.lastSync.popFirst } rfl
          dsimp only
          rw [ih hfuel', hitems', if_neg (Bool.eq_false_iff.mp hunlocked)]
          have hsame : ({ s with lastSync := s.lastSync.popFirst } : PeerState).idleSyncs rest =
              s.idleSyncs rest := idleSyncs_congr fun _ _ ↦ rfl
          rw [hsame]
          by_cases hp : p = e.1
          · rw [hp, hlock, ite_self, ite_self]
          · simp only [List.mem_cons, hp, false_or]
        | some lock =>
          by_cases hl : (s.locks lock).locked = true
          · have hlocked : s.peerLocked e.1 = true := by rw [peerLocked, hlock]; exact hl
            dsimp only
            rw [if_pos hl, if_pos hlocked, if_neg List.not_mem_nil]
            rfl
          · have hunlocked : ¬s.peerLocked e.1 = true := by rw [peerLocked, hlock]; exact hl
            obtain ⟨hfuel', hitems'⟩ := hrest { s with
              lastSync := s.lastSync.popFirst, syncLocks := s.syncLocks.erase e.1 } rfl
            dsimp only
            rw [if_neg hl, if_neg hunlocked, ih hfuel', hitems']
            have hsame : ({ s with
                lastSync := s.lastSync.popFirst
                syncLocks := s.syncLocks.erase e.1 } : PeerState).idleSyncs rest =
                s.idleSyncs rest := by
              refine idleSyncs_congr fun e' he' ↦ ?_
              rw [peerLocked, peerLocked, OrderedDict.get?_erase_ne _
                (OrderedDict.fst_ne_of_mem_tail hitems he')]
            rw [hsame, OrderedDict.get?_erase]
            by_cases hp : p = e.1
            · simp only [hp, List.mem_cons, true_or, if_true, ite_self]
            · simp only [List.mem_cons, hp, false_or, if_false]
    · rw [if_neg hsize, hstop hsize, if_neg List.not_mem_nil]

/-! ## The whole eviction -/

/-- The first loop with the bound `_evict_idle_peer_state` gives it. -/
theorem evictLocks_whole (s : PeerState) :
    (∀ p, (evictLocks (s.syncLocks.size * (s.syncLocks.size + 2)) 0 s).syncLocks.get? p =
      if p ∈ s.lockVictims then none else s.syncLocks.get? p) ∧
    (evictLocks (s.syncLocks.size * (s.syncLocks.size + 2)) 0 s).lastSync.items =
      s.lastSync.items.filter fun e ↦ e.1 ∉ s.lockVictims :=
  evictLocks_spec (Nat.le_refl _) (Nat.zero_le _)
    ⟨_, [], (List.append_nil _).symm, rfl, fun _ h ↦ absurd h List.not_mem_nil⟩

/-- `_evict_idle_peer_state` drops the locks of its victims and no other. -/
theorem get?_evictIdlePeerState (clock : ℕ → Time) (s : PeerState) (p : ℤ) :
    (s.evictIdlePeerState clock).syncLocks.get? p =
      if p ∈ s.victims then none else s.syncLocks.get? p := by
  obtain ⟨hget, hlast⟩ := evictLocks_whole s
  rw [evictIdlePeerState, evictLastSync_spec (Nat.le_refl _), hlast, hget, victims, syncVictims]
  have hsame : (evictLocks (s.syncLocks.size * (s.syncLocks.size + 2)) 0 s).idleSyncs
      (s.lastSync.items.filter fun e ↦ e.1 ∉ s.lockVictims) =
      s.idleSyncs (s.lastSync.items.filter fun e ↦ e.1 ∉ s.lockVictims) := by
    refine idleSyncs_congr fun e he ↦ ?_
    rw [peerLocked, peerLocked, hget, locks_evictLocks,
      if_neg (of_decide_eq_true (List.mem_filter.mp he).2)]
  rw [hsame]
  by_cases hp : p ∈ s.idleSyncs (s.lastSync.items.filter fun e ↦ e.1 ∉ s.lockVictims)
  · rw [if_pos hp, if_pos (List.mem_append_right _ hp)]
  · simp only [List.mem_append, hp, or_false, if_false]

/-- The second loop brings the syncs below their bound, unless it meets a locked peer. -/
theorem size_evictLastSync {clock : ℕ → Time} {fuel : ℕ} {s : PeerState}
    (hfuel : s.lastSync.size ≤ fuel)
    (hidle : ∀ e ∈ s.lastSync.items.take (s.lastSync.size - peerStateMax),
      s.peerLocked e.1 = false) :
    (evictLastSync clock fuel s).lastSync.size ≤ peerStateMax := by
  induction fuel generalizing s with
  | zero => exact hfuel.trans (Nat.zero_le _)
  | succ fuel ih =>
    rw [evictLastSync]
    by_cases hsize : peerStateMax < s.lastSync.size
    · rw [if_pos hsize]
      cases hitems : s.lastSync.items with
      | nil => simp [OrderedDict.size, hitems] at hsize
      | cons e rest =>
        have hnext : s.lastSync.size - peerStateMax =
            (s.lastSync.popFirst.size - peerStateMax) + 1 := by
          rw [OrderedDict.size_popFirst]
          omega
        rw [hnext, hitems, List.take_succ_cons] at hidle
        have hfuel' : s.lastSync.popFirst.size ≤ fuel := by
          rw [OrderedDict.size_popFirst]
          omega
        have hrest {s' : PeerState} (hs' : s'.lastSync = s.lastSync.popFirst)
            (hlocked : ∀ e' ∈ rest, s'.peerLocked e'.1 = s.peerLocked e'.1) :
            (evictLastSync clock fuel s').lastSync.size ≤ peerStateMax := by
          refine ih (by rw [hs']; exact hfuel') fun e' he' ↦ ?_
          rw [hs', OrderedDict.items_popFirst, hitems, List.tail_cons] at he'
          rw [hlocked e' (List.mem_of_mem_take he')]
          exact hidle e' (List.mem_cons_of_mem _ he')
        have hfirst := hidle e List.mem_cons_self
        rw [peerLocked] at hfirst
        dsimp only
        cases hlock : s.syncLocks.get? e.1 with
        | none => exact hrest rfl fun _ _ ↦ rfl
        | some lock =>
          rw [hlock] at hfirst
          dsimp only
          rw [if_neg (Bool.eq_false_iff.mp hfirst)]
          refine hrest rfl fun e' he' ↦ ?_
          rw [peerLocked, peerLocked, OrderedDict.get?_erase_ne _
            (OrderedDict.fst_ne_of_mem_tail hitems he')]
    · rw [if_neg hsize]
      exact not_lt.mp hsize

/-- The syncs stay below their bound when nothing the second loop meets is locked. -/
theorem size_lastSync_evictIdlePeerState {clock : ℕ → Time} {s : PeerState}
    (hidle : ∀ e ∈ (s.lastSync.items.filter fun e ↦ e.1 ∉ s.lockVictims).take
      ((s.lastSync.items.filter fun e ↦ e.1 ∉ s.lockVictims).length - peerStateMax),
      s.peerLocked e.1 = false) :
    (s.evictIdlePeerState clock).lastSync.size ≤ peerStateMax := by
  obtain ⟨hget, hlast⟩ := evictLocks_whole s
  rw [evictIdlePeerState]
  refine size_evictLastSync (le_refl _) ?_
  rw [OrderedDict.size, hlast]
  intro e he
  have hkept := (List.mem_filter.mp (List.mem_of_mem_take he)).2
  rw [peerLocked, hget, if_neg (of_decide_eq_true hkept), locks_evictLocks, ← peerLocked]
  exact hidle e he

theorem evictIdlePeerState_of_size_le {s : PeerState} (clock : ℕ → Time)
    (hlocks : s.syncLocks.size ≤ peerStateMax) (hsyncs : s.lastSync.size ≤ peerStateMax) :
    s.evictIdlePeerState clock = s := by
  have hfirst (fuel : ℕ) : evictLocks fuel 0 s = s := by
    cases fuel with
    | zero => rfl
    | succ fuel => rw [evictLocks, if_neg fun h ↦ absurd h.1 (not_lt.mpr hlocks)]
  have hsecond (fuel : ℕ) : evictLastSync clock fuel s = s := by
    cases fuel with
    | zero => rfl
    | succ fuel => rw [evictLastSync, if_neg (not_lt.mpr hsyncs)]
  rw [evictIdlePeerState, hfirst, hsecond]

/-- A victim's lock does not read as locked. -/
theorem not_locked_of_mem_victims {s : PeerState} {p : ℤ} {lock : ℕ} (h : p ∈ s.victims)
    (hlock : s.syncLocks.get? p = some lock) : (s.locks lock).locked = false := by
  rcases List.mem_append.mp h with h | h
  · obtain ⟨e, he, rfl⟩ := List.mem_map.mp h
    obtain ⟨hmem, hunlocked⟩ := List.mem_filter.mp (List.mem_of_mem_take he)
    obtain rfl : e.2 = lock :=
      Option.some.inj ((OrderedDict.get?_eq_some_iff.mpr hmem).symm.trans hlock)
    rwa [unlocked, Bool.not_eq_true'] at hunlocked
  · obtain ⟨e, he, rfl⟩ := List.mem_map.mp h
    have hunlocked := List.all_eq_true.mp List.all_takeWhile e he
    rw [peerLocked, hlock] at hunlocked
    rwa [Bool.not_eq_true'] at hunlocked

/-! ## Room for the locks in use -/

/-- The entries of `_sync_locks` with their lock objects, oldest first. -/
def entries (s : PeerState) : List (ℤ × Lock ℕ) :=
  s.syncLocks.items.map fun e ↦ (e.1, s.locks e.2)

/-- The peers of `_last_sync`, oldest first. -/
def synced (s : PeerState) : List ℤ := s.lastSync.items.map Prod.fst

end PeerState

/-- Nobody holds the lock of the entry, and nobody waits for it. -/
def idle (e : ℤ × Lock ℕ) : Bool := !e.2.locked && e.2.waiters.isEmpty

/-- Nobody holds the lock of the entry, but somebody is about to: a waiter of its queue, or
the task it is being handed to. -/
def promised (handed : Option ℤ) (e : ℤ × Lock ℕ) : Bool :=
  !e.2.locked && (!e.2.waiters.isEmpty || handed == some e.1)

/-- The oldest idle entries, one for each entry above the bound. -/
def surplus (entries : List (ℤ × Lock ℕ)) : List ℤ :=
  ((entries.filter idle).take (entries.length - peerStateMax)).map Prod.fst

/-- There is room for the promised locks: each has, for every entry above the bound, an idle
one in front of it, and its sync is among the newest `peerStateMax` or behind that of a peer
whose lock is held. -/
structure Roomy (handed : Option ℤ) (entries : List (ℤ × Lock ℕ)) (syncs : List ℤ) : Prop where
  locks : ∀ l e l', entries = l ++ e :: l' → promised handed e →
    entries.length ≤ peerStateMax + l.countP idle
  syncs : ∀ l p l', syncs = l ++ p :: l' → (∃ e ∈ entries, e.1 = p ∧ promised handed e) →
    (l'.filter (· ∉ surplus entries)).length < peerStateMax ∨
      ∃ e ∈ entries, e.1 ∈ l ∧ e.2.locked

/-- There is room in small dictionaries. -/
theorem Roomy.of_length_le {handed : Option ℤ} {entries : List (ℤ × Lock ℕ)} {syncs : List ℤ}
    (hentries : entries.length ≤ peerStateMax) (hsyncs : syncs.length ≤ peerStateMax) :
    Roomy handed entries syncs where
  locks _ _ _ _ _ := hentries.trans (Nat.le_add_right ..)
  syncs l p l' hl _ := by
    rw [hl, List.length_append, List.length_cons] at hsyncs
    have hle := List.length_filter_le (fun q ↦ decide (q ∉ surplus entries)) l'
    exact .inl (by omega)

/-- One of the first elements that satisfy `f`, and what is in front of it. -/
theorem exists_append_of_mem_take_filter {α : Type} {f : α → Bool} {a : α} {l : List α} {n : ℕ}
    (h : a ∈ (l.filter f).take n) :
    ∃ l₁ l₂, l = l₁ ++ a :: l₂ ∧ f a ∧ l₁.countP f < n := by
  induction l generalizing n with
  | nil =>
    rw [List.filter_nil, List.take_nil] at h
    exact absurd h List.not_mem_nil
  | cons b l ih =>
    by_cases hb : f b = true
    · rw [List.filter_cons_of_pos hb] at h
      cases n with
      | zero => exact absurd h List.not_mem_nil
      | succ n =>
        rw [List.take_succ_cons] at h
        rcases List.mem_cons.mp h with rfl | h
        · exact ⟨[], l, rfl, hb, Nat.succ_pos n⟩
        · obtain ⟨l₁, l₂, rfl, ha, hlt⟩ := ih h
          exact ⟨b :: l₁, l₂, rfl, ha, by rw [List.countP_cons_of_pos hb]; omega⟩
    · rw [List.filter_cons_of_neg hb] at h
      obtain ⟨l₁, l₂, rfl, ha, hlt⟩ := ih h
      exact ⟨b :: l₁, l₂, rfl, ha, by rwa [List.countP_cons_of_neg hb]⟩

/-- One of the first elements up to which all satisfy `f`, and what is in front of it. -/
theorem exists_append_of_mem_takeWhile_take {α : Type} {f : α → Bool} {a : α} {l : List α}
    {n : ℕ} (h : a ∈ (l.take n).takeWhile f) :
    ∃ l₁ l₂, l = l₁ ++ a :: l₂ ∧ l₁.length < n ∧ ∀ b ∈ l₁, f b := by
  induction l generalizing n with
  | nil =>
    rw [List.take_nil] at h
    exact absurd h List.not_mem_nil
  | cons b l ih =>
    cases n with
    | zero => exact absurd h List.not_mem_nil
    | succ n =>
      rw [List.take_succ_cons, List.takeWhile_cons] at h
      split_ifs at h with hb
      · rcases List.mem_cons.mp h with rfl | h
        · exact ⟨[], l, rfl, Nat.succ_pos n, fun _ h ↦ absurd h List.not_mem_nil⟩
        · obtain ⟨l₁, l₂, rfl, hlt, hall⟩ := ih h
          refine ⟨b :: l₁, l₂, rfl, Nat.succ_lt_succ hlt, fun c hc ↦ ?_⟩
          rcases List.mem_cons.mp hc with rfl | hc
          · exact hb
          · exact hall c hc
      · exact absurd h List.not_mem_nil

/-- Where the first elements that satisfy `f` satisfy the stronger `g`, they are the first
that satisfy `g`. -/
theorem take_filter_congr {α : Type} {f g : α → Bool} (hgf : ∀ a, g a → f a) {l : List α}
    {n : ℕ} (h : ∀ a ∈ (l.filter f).take n, g a) :
    (l.filter f).take n = (l.filter g).take n := by
  induction l generalizing n with
  | nil => rfl
  | cons b l ih =>
    by_cases hb : f b = true
    · rw [List.filter_cons_of_pos hb] at h ⊢
      cases n with
      | zero => rw [List.take_zero, List.take_zero]
      | succ n =>
        rw [List.take_succ_cons] at h ⊢
        rw [List.filter_cons_of_pos (h b List.mem_cons_self), List.take_succ_cons,
          ih fun a ha ↦ h a (List.mem_cons_of_mem _ ha)]
    · rw [List.filter_cons_of_neg hb] at h ⊢
      rw [List.filter_cons_of_neg (fun hg ↦ hb (hgf b hg)), ih h]

theorem promised_eq_false {handed : Option ℤ} {e : ℤ × Lock ℕ} (he : e.2.locked = false) :
    promised handed e = false ↔ idle e ∧ handed ≠ some e.1 := by
  simp [promised, idle, he]

namespace PeerState

variable {s : PeerState} {handed : Option ℤ}

theorem mem_entries {e : ℤ × Lock ℕ} :
    e ∈ s.entries ↔ ∃ lock, s.syncLocks.get? e.1 = some lock ∧ e.2 = s.locks lock := by
  constructor
  · intro h
    obtain ⟨⟨p, lock⟩, hmem, rfl⟩ := List.mem_map.mp h
    exact ⟨lock, OrderedDict.get?_eq_some_iff.mpr hmem, rfl⟩
  · rintro ⟨lock, hlock, heq⟩
    exact List.mem_map.mpr ⟨(e.1, lock), OrderedDict.get?_eq_some_iff.mp hlock,
      Prod.ext rfl heq.symm⟩

theorem length_entries : s.entries.length = s.syncLocks.size := List.length_map ..

/-- The first loop drops the oldest entries whose lock is not held. -/
theorem lockVictims_eq : s.lockVictims =
    ((s.entries.filter fun e ↦ !e.2.locked).take (s.entries.length - peerStateMax)).map
      Prod.fst := by
  rw [length_entries, entries, List.filter_map, ← List.map_take, List.map_map]
  rfl

/-- The entries the first loop drops are idle, where there is room. -/
theorem idle_of_roomy {syncs : List ℤ} (h : Roomy handed s.entries syncs) {e : ℤ × Lock ℕ}
    (he : e ∈ (s.entries.filter fun e ↦ !e.2.locked).take (s.entries.length - peerStateMax)) :
    idle e ∧ handed ≠ some e.1 := by
  obtain ⟨l, l', hl, hfree, hlt⟩ := exists_append_of_mem_take_filter he
  rw [← promised_eq_false (Bool.not_eq_true' _ ▸ hfree)]
  by_contra hp
  have hroom := h.locks l e l' hl (Bool.not_eq_false _ ▸ hp)
  have hle : l.countP idle ≤ l.countP fun e ↦ !e.2.locked :=
    List.countP_mono_left fun e _ he ↦ (Bool.and_eq_true_iff.mp he).1
  omega

/-- Where there is room, the first loop drops the surplus of the idle entries. -/
theorem lockVictims_of_roomy {syncs : List ℤ} (h : Roomy handed s.entries syncs) :
    s.lockVictims = surplus s.entries := by
  rw [lockVictims_eq, surplus, take_filter_congr (g := idle)
    (fun e he ↦ (Bool.and_eq_true_iff.mp he).1) fun e he ↦ (idle_of_roomy h he).1]

/-- A peer whose sync the second loop drops. -/
theorem mem_syncVictims {p : ℤ} (h : p ∈ s.syncVictims) :
    ∃ l l', s.synced = l ++ p :: l' ∧
      peerStateMax ≤ (l'.filter (· ∉ s.lockVictims)).length ∧
      ∀ q ∈ l, q ∉ s.lockVictims → s.peerLocked q = false := by
  obtain ⟨e, he, rfl⟩ := List.mem_map.mp h
  obtain ⟨k, k', hk, hlt, hfree⟩ := exists_append_of_mem_takeWhile_take he
  obtain ⟨l, r, hitems, hl, hr⟩ := List.filter_eq_append_iff.mp hk
  obtain ⟨m, l', rfl, hm, -, hl'⟩ := List.filter_eq_cons_iff.mp hr
  refine ⟨(l ++ m).map Prod.fst, l'.map Prod.fst, ?_, ?_, fun q hq hkept ↦ ?_⟩
  · rw [synced, hitems, ← List.map_cons, ← List.map_append, List.append_assoc]
  · rw [hk, List.length_append, List.length_cons] at hlt
    simp only [List.filter_map, List.length_map, Function.comp_def, hl']
    omega
  · obtain ⟨e', he', rfl⟩ := List.mem_map.mp hq
    rcases List.mem_append.mp he' with he' | he'
    · have hmem : e' ∈ k := hl ▸ List.mem_filter.mpr ⟨he', decide_eq_true hkept⟩
      exact (Bool.not_eq_true' _).mp (hfree e' hmem)
    · exact absurd (decide_eq_true hkept) (hm e' he')

/-- Where there is room, an eviction drops no lock that is promised to somebody. -/
theorem not_promised_of_mem_victims (h : Roomy handed s.entries s.synced) {p : ℤ} {lock : ℕ}
    (hp : p ∈ s.victims) (hlock : s.syncLocks.get? p = some lock) :
    promised handed (p, s.locks lock) = false := by
  rcases List.mem_append.mp hp with hfirst | hsecond
  · rw [lockVictims_eq] at hfirst
    obtain ⟨e, he, rfl⟩ := List.mem_map.mp hfirst
    obtain ⟨lock', hlock', heq⟩ := mem_entries.mp (List.mem_filter.mp (List.mem_of_mem_take he)).1
    obtain rfl := Option.some.inj (hlock.symm.trans hlock')
    rw [← heq]
    exact (promised_eq_false (heq ▸ not_locked_of_mem_victims hp hlock)).mpr (idle_of_roomy h he)
  · by_contra hpromised
    obtain ⟨l, l', hl, hlen, hfree⟩ := mem_syncVictims hsecond
    rw [Bool.not_eq_false] at hpromised
    rcases h.syncs l p l' hl ⟨_, mem_entries.mpr ⟨lock, hlock, rfl⟩, rfl, hpromised⟩ with
      hlt | ⟨e, he, hel, hheld⟩
    · rw [← lockVictims_of_roomy h] at hlt
      omega
    · obtain ⟨lock', hlock', heq⟩ := mem_entries.mp he
      rw [heq] at hheld
      have hkept : e.1 ∉ s.lockVictims := fun hmem ↦ nomatch hheld.symm.trans
        (not_locked_of_mem_victims (List.mem_append_left _ hmem) hlock')
      have hidle := hfree e.1 hel hkept
      rw [peerLocked, hlock'] at hidle
      exact nomatch hheld.symm.trans hidle

/-! ## What a step is about to evict from -/

/-- The entries when the lock of `peer` is asked for: its entry is the newest, with a fresh lock
if it had none. -/
def entriesFor (s : PeerState) (peer : ℤ) : List (ℤ × Lock ℕ) :=
  s.entries.filter (·.1 ≠ peer) ++ [(peer, ((s.syncLocks.get? peer).map s.locks).getD .free)]

/-- The syncs when one of `peer` is recorded. -/
def syncedFor (s : PeerState) (peer : ℤ) : List ℤ := s.synced.filter (· ≠ peer) ++ [peer]

theorem lastSync_touchLock (s : PeerState) (peer : ℤ) :
    (s.touchLock peer).2.lastSync = s.lastSync := by
  rw [touchLock]
  split <;> rfl

theorem synced_touchSync (clock : ℕ → Time) (s : PeerState) (peer : ℤ) :
    (s.touchSync clock peer).synced = s.syncedFor peer := by
  rw [synced, touchSync]
  dsimp only [readClock]
  rw [OrderedDict.items_moveToEnd_set, OrderedDict.items_erase, List.map_append, syncedFor,
    synced, List.filter_map]
  rfl

theorem entries_touchLock {s : PeerState} {peer : ℤ}
    (hfresh : ∀ p lock, s.syncLocks.get? p = some lock → lock < s.nextLock) :
    (s.touchLock peer).2.entries = s.entriesFor peer := by
  have hothers (locks : ℕ → Lock ℕ)
      (hlocks : ∀ p lock, s.syncLocks.get? p = some lock → locks lock = s.locks lock) :
      ((s.syncLocks.erase peer).items.map fun e ↦ (e.1, locks e.2)) =
        s.entries.filter (·.1 ≠ peer) := by
    rw [entries, List.filter_map, OrderedDict.items_erase]
    refine List.map_congr_left fun e he ↦ ?_
    rw [hlocks e.1 e.2 (OrderedDict.get?_eq_some_iff.mpr (List.mem_filter.mp he).1)]
  rw [touchLock, entriesFor]
  cases hpeer : s.syncLocks.get? peer with
  | some lock =>
    rw [entries, OrderedDict.moveToEnd, hpeer]
    dsimp only
    rw [List.map_append, hothers s.locks fun _ _ _ ↦ rfl]
    rfl
  | none =>
    rw [entries]
    dsimp only
    rw [OrderedDict.items_moveToEnd_set, List.map_append, hothers _ fun p lock hlock ↦
      Function.update_of_ne (Nat.ne_of_lt (hfresh p lock hlock)) ..]
    simp

end PeerState

end TgMessenger.MessageStore
