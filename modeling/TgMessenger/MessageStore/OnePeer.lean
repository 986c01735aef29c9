import TgMessenger.MessageStore.Exclusion

/-!
# A store that is used for one peer

When all calls in progress are about one peer, an eviction meets no lock in use but that
of this peer, and the peer is the most recent one.  So nothing in use is dropped, however
many other peers the store remembers: such a run never leaves `SparingMove`.
-/

namespace TgMessenger.MessageStore

open Asyncio

/-- Nobody uses the lock of another peer. -/
structure OnlyPeer (peer : ℤ) (w : World) : Prop where
  guarded : Guarded w
  places : ∀ t p lock, w.place t = .waiting p lock ∨ w.place t = .inside p lock → p = peer
  syncs : w.peers.lastSync.size ≤ peerStateMax

namespace OnlyPeer

variable {peer : ℤ} {w : World}

/-- The locks of the other peers are free. -/
theorem idle (h : OnlyPeer peer w) {p : ℤ} {lock : ℕ} (hp : p ≠ peer)
    (hlock : w.peers.syncLocks.get? p = some lock) :
    (w.peers.locks lock).locked = false ∧ (w.peers.locks lock).waiters = [] := by
  have hunused (t : ℕ) (q : ℤ) : ¬(w.place t = .waiting q lock ∨ w.place t = .inside q lock) := by
    intro ht
    have hq := h.guarded.tracked t q lock ht
    rw [h.places t q lock ht] at hq
    exact hp (h.guarded.sound.injective p peer lock hlock hq)
  obtain ⟨owner, howned, howner⟩ := h.guarded.owned lock
  constructor
  · rw [howned.locked_eq]
    cases owner with
    | none => rfl
    | some t =>
      obtain ⟨q, hq⟩ := (howner t).mp rfl
      exact absurd (.inr hq) (hunused t q)
  · cases hw : (w.peers.locks lock).waiters with
    | nil => rfl
    | cons v ws =>
      obtain ⟨q, hq⟩ := (h.guarded.queued lock v.1).mp (by rw [hw]; exact List.mem_cons_self)
      exact absurd (.inl hq) (hunused v.1 q)

/-- Nothing in use is dropped unless it is the lock of the peer. -/
theorem spares (h : OnlyPeer peer w) (hpeer : peer ∉ w.peers.victims) : w.peers.Spares :=
  fun _ hp _ hlock ↦ (h.idle (fun heq ↦ hpeer (heq ▸ hp)) hlock).2

/-- The peers of other entries are not locked. -/
theorem not_peerLocked (h : OnlyPeer peer w) {p : ℤ} (hp : p ≠ peer) :
    w.peers.peerLocked p = false := by
  rw [PeerState.peerLocked]
  cases hlock : w.peers.syncLocks.get? p with
  | none => rfl
  | some lock => exact (h.idle hp hlock).1

/-! ## `_peer_lock` -/

theorem touchLock (h : OnlyPeer peer w) :
    OnlyPeer peer { w with peers := (w.peers.touchLock peer).2 } :=
  ⟨(h.guarded.touchLock peer).1, h.places, by
    dsimp only
    rw [PeerState.lastSync_touchLock]
    exact h.syncs⟩

/-- The entry that was just used is the newest one. -/
theorem syncLocks_touchLock (s : PeerState) (peer : ℤ) :
    ∃ d : OrderedDict ℤ ℕ, (s.touchLock peer).2.syncLocks = d.moveToEnd peer := by
  rw [PeerState.touchLock]
  split
  · exact ⟨_, rfl⟩
  · exact ⟨_, rfl⟩

/-- The lock just handed out is kept. -/
theorem not_mem_victims_touchLock (h : OnlyPeer peer w) :
    peer ∉ (w.peers.touchLock peer).2.victims := by
  have htouch := h.touchLock
  obtain ⟨d, hd⟩ := syncLocks_touchLock w.peers peer
  have hentry := (h.guarded.touchLock peer).2
  set s := (w.peers.touchLock peer).2 with hs
  set lock := (w.peers.touchLock peer).1
  intro hmem
  have hunlocked := PeerState.not_locked_of_mem_victims hmem hentry
  rcases List.mem_append.mp hmem with hmem | hmem
  · -- all locks are free, so the filter keeps every entry and the peer is the last one
    obtain ⟨e, he, hpeer⟩ := List.mem_map.mp hmem
    have hall : s.syncLocks.items.filter s.unlocked = s.syncLocks.items := by
      refine List.filter_eq_self.mpr fun e' he' ↦ ?_
      have hget := OrderedDict.get?_eq_some_iff.mpr (show (e'.1, e'.2) ∈ s.syncLocks.items from he')
      rw [PeerState.unlocked, Bool.not_eq_true']
      by_cases heq : e'.1 = peer
      · rw [heq, hentry] at hget
        rw [← Option.some.inj hget]
        exact hunlocked
      · exact (htouch.idle heq hget).1
    refine OrderedDict.fst_ne_of_mem_take_filter (d := d) (k := peer) (p := s.unlocked)
      (n := s.syncLocks.size - peerStateMax) (e := e) ?_ ?_ hpeer
    · rw [← hd]
      exact he
    · rw [← hd, hall]
      have hpos : 0 < s.syncLocks.items.length :=
        List.length_pos_of_mem (OrderedDict.get?_eq_some_iff.mp hentry)
      exact Nat.sub_lt hpos (by decide)
  · have hnil : s.syncVictims = [] := by
      have hlen : (s.lastSync.items.filter fun e ↦ e.1 ∉ s.lockVictims).length ≤ peerStateMax :=
        (List.length_filter_le ..).trans htouch.syncs
      rw [PeerState.syncVictims, PeerState.idleSyncs, Nat.sub_eq_zero_of_le hlen, List.take_zero,
        List.takeWhile_nil, List.map_nil]
    rw [hnil] at hmem
    exact absurd hmem List.not_mem_nil

theorem size_lastSync_peerLock (h : OnlyPeer peer w) (clock : ℕ → Time) :
    (w.peers.peerLock clock peer).2.lastSync.size ≤ peerStateMax := by
  rw [PeerState.peerLock_snd]
  refine PeerState.size_lastSync_evictIdlePeerState fun e he ↦ ?_
  have hlen : ((w.peers.touchLock peer).2.lastSync.items.filter
      fun e ↦ e.1 ∉ (w.peers.touchLock peer).2.lockVictims).length ≤ peerStateMax :=
    (List.length_filter_le ..).trans h.touchLock.syncs
  rw [Nat.sub_eq_zero_of_le hlen, List.take_zero] at he
  exact absurd he List.not_mem_nil

/-! ## `_remember_sync` -/

theorem touchSync (h : OnlyPeer peer w) (clock : ℕ → Time) :
    Guarded { w with peers := w.peers.touchSync clock peer } ∧
      ∀ p, p ≠ peer → (w.peers.touchSync clock peer).peerLocked p = false :=
  ⟨h.guarded.congr rfl, fun _ hp ↦ h.not_peerLocked hp⟩

/-- The lock of a task inside the section is kept. -/
theorem spares_touchSync (h : OnlyPeer peer w) (clock : ℕ → Time) {t lock : ℕ}
    (ht : w.place t = .inside peer lock) : (w.peers.touchSync clock peer).Spares := by
  intro p hp lock' hlock'
  by_cases heq : p = peer
  · subst heq
    have hunlocked := PeerState.not_locked_of_mem_victims hp hlock'
    have hentry : w.peers.syncLocks.get? p = some lock := h.guarded.tracked t p lock (.inr ht)
    obtain rfl : lock = lock' := Option.some.inj (hentry.symm.trans hlock')
    obtain ⟨owner, howned, howner⟩ := h.guarded.owned lock
    have hnone := howned.owner_eq_none hunlocked
    exact nomatch hnone.symm.trans ((howner t).mpr ⟨p, ht⟩)
  · exact (h.idle heq hlock').2

theorem size_lastSync_rememberSync (h : OnlyPeer peer w) (clock : ℕ → Time) :
    (w.peers.rememberSync clock peer).lastSync.size ≤ peerStateMax := by
  refine PeerState.size_lastSync_evictIdlePeerState fun e he ↦
    (h.touchSync clock).2 e.1 (OrderedDict.fst_ne_of_mem_take_filter he ?_)
  have hpos := List.length_pos_of_mem (List.mem_of_mem_take he)
  exact Nat.sub_lt hpos (by decide)

end OnlyPeer

/-! ## One operation -/

/-- The operation uses the lock of no other peer, and remembers a sync of the peer from
inside its section. -/
def Op.OnlyFor (peer : ℤ) (t : ℕ) (w : World) : Op → Prop
  | .lockPeer p => p = peer
  | .rememberSync p => p = peer ∧ ∃ lock, w.place t = .inside peer lock
  | _ => True

namespace OnlyPeer

variable {peer : ℤ} {w w' : World} {cfg : Setup} {t : ℕ} {o : Op}

theorem sparing (h : OnlyPeer peer w) (ho : o.OnlyFor peer t w) : o.Sparing cfg t w := by
  cases o with
  | lockPeer p =>
    obtain rfl : p = peer := ho
    exact fun _ ↦ ⟨h.touchLock.spares h.not_mem_victims_touchLock, h.not_mem_victims_touchLock⟩
  | rememberSync p =>
    obtain ⟨rfl, lock, hlock⟩ := ho
    exact h.spares_touchSync cfg.clock hlock
  | _ => trivial

theorem handle_done (h : OnlyPeer peer w) (ho : o.OnlyFor peer t w) (hguarded : Guarded w')
    {x : Except String (effects.Ret o)} (hr : handle cfg t o w = .done x w') :
    OnlyPeer peer w' := by
  have hstays (hplace : w'.place = w.place) :
      ∀ u p lock, w'.place u = .waiting p lock ∨ w'.place u = .inside p lock → p = peer := by
    rw [hplace]
    exact h.places
  cases o with
  | lockPeer p =>
    obtain rfl : p = peer := ho
    refine ⟨hguarded, fun u q lock hu ↦ ?_, ?_⟩
    · obtain ⟨q', lock', hq', -, hplace⟩ := World.place_lockPeer_done hr
      rw [hplace] at hu
      by_cases hut : u = t
      · rw [hut, Function.update_self] at hu
        rcases hu with hu | hu
        · cases hu
        · obtain ⟨rfl, rfl⟩ := Place.inside.inj hu
          exact hq'.elim id fun hq ↦ h.places t _ _ (.inl hq)
      · rw [Function.update_of_ne hut] at hu
        exact h.places u q lock hu
    · rw [handle, World.lockPeer] at hr
      split at hr
      · split_ifs at hr
        obtain ⟨-, rfl⟩ := Reply.done.inj hr
        exact h.syncs
      · dsimp only at hr
        split at hr
        · obtain ⟨-, rfl⟩ := Reply.done.inj hr
          exact h.size_lastSync_peerLock cfg.clock
        · cases hr
  | release lock =>
    obtain ⟨-, rfl⟩ := Reply.done.inj hr
    refine ⟨hguarded, fun u p lock' hu ↦ ?_, h.syncs⟩
    by_cases hut : u = t
    · simp only [World.release, hut, Function.update_self] at hu
      rcases hu with hu | hu <;> cases hu
    · simp only [World.release, Function.update_of_ne hut] at hu
      exact h.places u p lock' hu
  | historySince peer minId limit =>
    obtain ⟨y, hy, -⟩ := w.request_eq cfg (.since peer minId limit)
      (w.server.historySince peer minId limit)
    obtain ⟨-, rfl⟩ := Reply.done.inj (hy.symm.trans hr)
    exact ⟨hguarded, hstays rfl, h.syncs⟩
  | clientHistory peer limit offsetId =>
    obtain ⟨y, hy, -⟩ := w.request_eq cfg (.before peer limit offsetId)
      (w.server.history peer limit offsetId)
    obtain ⟨-, rfl⟩ := Reply.done.inj (hy.symm.trans hr)
    exact ⟨hguarded, hstays rfl, h.syncs⟩
  | syncStale p =>
    obtain ⟨-, rfl⟩ := Reply.done.inj hr
    have hsame : (w.peers.syncStale cfg.syncTtl cfg.clock p).2.lastSync = w.peers.lastSync :=
      PeerState.lastSync_syncStale ..
    exact ⟨hguarded, hstays rfl, (congrArg OrderedDict.size hsame).trans_le h.syncs⟩
  | rememberSync p =>
    obtain ⟨rfl, -⟩ := ho
    obtain ⟨-, rfl⟩ := Reply.done.inj hr
    exact ⟨hguarded, hstays rfl, h.size_lastSync_rememberSync cfg.clock⟩
  | _ =>
    obtain ⟨-, rfl⟩ := Reply.done.inj hr
    exact ⟨hguarded, hstays rfl, h.syncs⟩

theorem handle_parked (h : OnlyPeer peer w) (ho : o.OnlyFor peer t w) (hguarded : Guarded w')
    (hr : handle cfg t o w = .parked w') : OnlyPeer peer w' := by
  obtain ⟨⟨p, rfl⟩, -⟩ := MessageStore.handle_parked hr
  obtain rfl : p = peer := ho
  refine ⟨hguarded, fun u q lock hu ↦ ?_, ?_⟩
  · obtain ⟨-, lock', hplace⟩ := World.place_lockPeer_parked hr
    rw [hplace] at hu
    by_cases hut : u = t
    · rw [hut, Function.update_self] at hu
      rcases hu with hu | hu
      · exact (Place.waiting.inj hu).1.symm
      · cases hu
    · rw [Function.update_of_ne hut] at hu
      exact h.places u q lock hu
  · rw [handle, World.lockPeer] at hr
    split at hr
    · split_ifs at hr
    · dsimp only at hr
      split at hr
      · cases hr
      · obtain rfl := Reply.parked.inj hr
        exact h.size_lastSync_peerLock cfg.clock

end OnlyPeer

end TgMessenger.MessageStore
