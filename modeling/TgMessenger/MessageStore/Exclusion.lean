import TgMessenger.MessageStore.Discipline
import TgMessenger.MessageStore.Eviction

/-!
# Mutual exclusion in the critical section of a peer

`Guarded` ties the three places where the store keeps track of a critical section: the
lock object, the dictionary entry of the peer, and where the tasks stand.  It implies that
at most one task is inside the section of a peer.  It survives everything but one step:
an eviction that drops a lock which does not read as locked although tasks are waiting for
it, or that drops the lock just handed out (`Op.Sparing` excludes that step).  The eviction
takes no such lock where there is room for it: enough idle locks before it, and few enough
syncs after its own (`Op.Roomy`).  With more than `MESSAGE_STORE_PEER_STATE_MAX` peers there
may be none (`section_shared`).
-/

namespace TgMessenger.MessageStore

open Asyncio

/-- No lock that would be dropped has waiters. -/
def PeerState.Spares (s : PeerState) : Prop :=
  ∀ p ∈ s.victims, ∀ lock, s.syncLocks.get? p = some lock → (s.locks lock).waiters = []

/-- The locks of the peers, and where the tasks stand. -/
def World.keyedLocks (w : World) : KeyedLocks ℤ ℕ :=
  ⟨w.peers.syncLocks.get?, w.peers.nextLock, w.peers.locks, w.place⟩

theorem World.keyedLocks_syncStale (w : World) (ttl : Time) (clock : ℕ → Time) (peer : ℤ) :
    World.keyedLocks { w with peers := (w.peers.syncStale ttl clock peer).2 } = w.keyedLocks := by
  simp only [World.keyedLocks, PeerState.syncLocks_syncStale, PeerState.nextLock_syncStale,
    PeerState.locks_syncStale]

/-- Locks and places agree, and no wake-up is lost. -/
structure Guarded (w : World) : Prop where
  sound : w.keyedLocks.Sound
  alert : ∀ lock, (w.peers.locks lock).Alert

namespace Guarded

variable {w : World}

/-- The states in front of a server that nobody has called yet. -/
theorem init (s : Server) : Guarded (.init s) := ⟨.init 0, fun _ ↦ Lock.alert_free⟩

/-- The lock a task holds or waits for is still the lock of the peer. -/
theorem tracked (h : Guarded w) (t : ℕ) (p : ℤ) (lock : ℕ)
    (ht : w.place t = .waiting p lock ∨ w.place t = .inside p lock) :
    w.peers.syncLocks.get? p = some lock := h.sound.tracked t p lock ht

/-- The owner of a lock is the task inside. -/
theorem owned (h : Guarded w) (lock : ℕ) : ∃ owner, (w.peers.locks lock).Owned owner ∧
    ∀ t, owner = some t ↔ ∃ p, w.place t = .inside p lock := h.sound.owned lock

/-- The queue of a lock holds the tasks that wait. -/
theorem queued (h : Guarded w) (lock t : ℕ) :
    t ∈ (w.peers.locks lock).waiters.map Prod.fst ↔ ∃ p, w.place t = .waiting p lock :=
  h.sound.queued lock t

/-- At most one task is inside the section of a peer. -/
theorem exclusive (h : Guarded w) {t u : ℕ} {p : ℤ} {lock lock' : ℕ}
    (ht : w.place t = .inside p lock) (hu : w.place u = .inside p lock') : t = u :=
  h.sound.exclusive ht hu

/-- Only the locks and the places matter. -/
theorem congr {w' : World} (h : Guarded w) (hkeyed : w'.keyedLocks = w.keyedLocks) :
    Guarded w' where
  sound := hkeyed ▸ h.sound
  alert := by
    rw [show w'.peers.locks = w.peers.locks from congrArg KeyedLocks.locks hkeyed]
    exact h.alert

/-! ## The dictionary -/

/-- Somebody uses the lock of a peer. -/
theorem not_mem_victims (h : Guarded w) (hspare : w.peers.Spares) {t : ℕ} {p : ℤ} {lock : ℕ}
    (ht : w.keyedLocks.Uses t p lock) : p ∉ w.peers.victims := by
  intro hmem
  have hentry := h.tracked t p lock ht
  rcases h.sound.busy_of_uses ht with hlocked | hwaiters
  · exact nomatch hlocked.symm.trans (PeerState.not_locked_of_mem_victims hmem hentry)
  · exact hwaiters (hspare p hmem lock hentry)

/-- An eviction that spares the locks in use. -/
theorem evict (h : Guarded w) (hspare : w.peers.Spares) (clock : ℕ → Time) :
    Guarded { w with peers := w.peers.evictIdlePeerState clock } := by
  have hdrop := h.sound.drop (w.peers.evictIdlePeerState clock).syncLocks.get?
    (fun p lock hp ↦ ?_) fun t p lock ht ↦ ?_
  · refine ⟨?_, ?_⟩
    · rw [World.keyedLocks, PeerState.nextLock_evictIdlePeerState,
        PeerState.locks_evictIdlePeerState]
      exact hdrop
    · rw [PeerState.locks_evictIdlePeerState]
      exact h.alert
  · rw [PeerState.get?_evictIdlePeerState] at hp
    split_ifs at hp
    exact hp
  · rw [PeerState.get?_evictIdlePeerState, if_neg (h.not_mem_victims hspare ht)]
    exact fun hnone ↦ by cases hnone.symm.trans (h.tracked t p lock ht)

/-- Handing out the lock of a peer, before the eviction. -/
theorem touchLock (h : Guarded w) (peer : ℤ) :
    Guarded { w with peers := (w.peers.touchLock peer).2 } ∧
      (w.peers.touchLock peer).2.syncLocks.get? peer = some (w.peers.touchLock peer).1 := by
  rw [PeerState.touchLock]
  cases hpeer : w.peers.syncLocks.get? peer with
  | some lock =>
    have hentries : (w.peers.syncLocks.moveToEnd peer).get? = w.peers.syncLocks.get? :=
      funext fun p ↦ OrderedDict.get?_moveToEnd ..
    refine ⟨h.congr ?_, ?_⟩
    · rw [World.keyedLocks, hentries]
      rfl
    · rw [hentries]
      exact hpeer
  | none =>
    have hentries : ((w.peers.syncLocks.set peer w.peers.nextLock).moveToEnd peer).get? =
        Function.update w.peers.syncLocks.get? peer (some w.peers.nextLock) := by
      funext p
      rw [OrderedDict.get?_moveToEnd, OrderedDict.get?_set, Function.update_apply]
    refine ⟨⟨?_, ?_⟩, ?_⟩
    · rw [World.keyedLocks, hentries]
      exact h.sound.create hpeer
    · exact Lock.alert_update h.alert Lock.alert_free
    · rw [hentries, Function.update_self]

/-- `_peer_lock`. -/
theorem peerLock (h : Guarded w) (clock : ℕ → Time) {peer : ℤ}
    (hspare : (w.peers.touchLock peer).2.Spares)
    (hpeer : peer ∉ (w.peers.touchLock peer).2.victims) :
    Guarded { w with peers := (w.peers.peerLock clock peer).2 } ∧
      (w.peers.peerLock clock peer).2.syncLocks.get? peer =
        some (w.peers.peerLock clock peer).1 := by
  obtain ⟨htouch, hentry⟩ := h.touchLock peer
  refine ⟨htouch.evict hspare clock, ?_⟩
  rw [PeerState.peerLock]
  rw [PeerState.get?_evictIdlePeerState, if_neg hpeer]
  exact hentry

/-- `_remember_sync`. -/
theorem rememberSync (h : Guarded w) (clock : ℕ → Time) {peer : ℤ}
    (hspare : (w.peers.touchSync clock peer).Spares) :
    Guarded { w with peers := w.peers.rememberSync clock peer } :=
  Guarded.evict (w := { w with peers := w.peers.touchSync clock peer })
    (h.congr rfl) hspare clock

/-! ## The lock objects -/

/-- A task takes the lock of a peer without waiting. -/
theorem enter (h : Guarded w) {t lock : ℕ} {p : ℤ} {taken : Lock ℕ}
    (ht : w.place t = .outside) (hp : w.peers.syncLocks.get? p = some lock)
    (htaken : (w.peers.locks lock).acquire? = some taken) :
    Guarded { w with peers := { w.peers with locks := Function.update w.peers.locks lock taken }
                     place := Function.update w.place t (.inside p lock) } :=
  ⟨h.sound.enter ht hp htaken, Lock.alert_update h.alert ((h.alert lock).of_locked
    (Lock.locked_of_acquire? htaken) fun _ hw ↦ Lock.waiters_of_acquire? htaken ▸ hw)⟩

/-- A task goes to sleep in the queue of the lock of a peer. -/
theorem wait (h : Guarded w) {t lock : ℕ} {p : ℤ} (ht : w.place t = .outside)
    (hp : w.peers.syncLocks.get? p = some lock) (hbusy : (w.peers.locks lock).acquire? = none) :
    Guarded { w with
      peers := { w.peers with
        locks := Function.update w.peers.locks lock ((w.peers.locks lock).enqueue t) }
      place := Function.update w.place t (.waiting p lock) } :=
  ⟨h.sound.wait ht hp, Lock.alert_update h.alert ((h.alert lock).enqueue hbusy t)⟩

/-- A woken task takes the lock it waits for. -/
theorem resume (h : Guarded w) {t lock : ℕ} {p : ℤ} (ht : w.place t = .waiting p lock)
    (hwoken : (w.peers.locks lock).waiting? t = some .woken) :
    Guarded { w with
      peers := { w.peers with
        locks := Function.update w.peers.locks lock ((w.peers.locks lock).resume t) }
      place := Function.update w.place t (.inside p lock) } :=
  ⟨h.sound.resume ht hwoken,
    Lock.alert_update h.alert ((h.alert lock).of_locked rfl List.filter_sublist.subset)⟩

/-- A task leaves its section. -/
theorem leave (h : Guarded w) {t lock : ℕ} {p : ℤ} (ht : w.place t = .inside p lock) :
    Guarded (w.release t lock) :=
  ⟨h.sound.leave ht, Lock.alert_update h.alert (h.alert lock).release⟩

end Guarded

/-! ## Programs and places -/

/-- What a task still has to do fits where it stands. -/
def Place.Fits {α : Type} : Place → StoreProg α → Prop
  | .outside, p => Bracketed none none p
  | .waiting peer _, p => Bracketed none none p ∧ ∃ k, p = .op (.lockPeer peer) k
  | .inside _ lock, p => Bracketed (some lock) none p

/-- An operation that is not about locks. -/
theorem Place.Fits.next {α : Type} {q : Place} {o : Op}
    {k : Except String (effects.Ret o) → StoreProg α} (h : q.Fits (.op o k))
    (ho : ∀ peer, o ≠ .lockPeer peer) (hafter : ∀ held x, o.after held x = held)
    (x : Except String (effects.Ret o)) : q.Fits (k x) := by
  have hnext {held : Option ℕ} (hb : Bracketed held none (.op o k)) : Bracketed held none (k x) :=
    cast (congrArg (fun held ↦ Bracketed held none (k x)) (hafter held x)) (hb.2 x)
  cases q with
  | outside => exact hnext h
  | waiting peer lock =>
    obtain ⟨-, k', hk⟩ := h
    exact absurd (Prog.op.inj hk).1 (ho peer)
  | inside peer lock => exact hnext h

/-- The operation drops no lock that is in use: no victim of the eviction in it has
waiters, or is the lock just handed out. -/
def Op.Sparing (cfg : Setup) (t : ℕ) (w : World) : Op → Prop
  | .lockPeer peer => w.place t = .outside →
    (w.peers.touchLock peer).2.Spares ∧ peer ∉ (w.peers.touchLock peer).2.victims
  | .rememberSync peer => (w.peers.touchSync cfg.clock peer).Spares
  | _ => True

namespace Guarded

variable {w w' : World} {cfg : Setup} {t : ℕ}

theorem lockPeer_done (h : Guarded w) {peer : ℤ} {x : Except String ℕ}
    (hplace : w.place t = .outside ∨ ∃ lock, w.place t = .waiting peer lock)
    (hspare : (Op.lockPeer peer).Sparing cfg t w)
    (hr : w.lockPeer cfg t peer = .done x w') :
    Guarded w' ∧ ∃ lock, x = .ok lock ∧
      w'.place = Function.update w.place t (.inside peer lock) := by
  rw [World.lockPeer] at hr
  rcases hplace with hplace | ⟨lock, hplace⟩
  · obtain ⟨hspares, hpeer⟩ := hspare hplace
    obtain ⟨hguarded, hentry⟩ := h.peerLock cfg.clock hspares hpeer
    rw [hplace] at hr
    dsimp only at hr
    split at hr
    · rename_i taken htaken
      obtain ⟨rfl, rfl⟩ := Reply.done.inj hr
      exact ⟨hguarded.enter hplace hentry htaken, _, rfl, rfl⟩
    · cases hr
  · rw [hplace] at hr
    dsimp only at hr
    split_ifs at hr with hwoken
    obtain ⟨rfl, rfl⟩ := Reply.done.inj hr
    exact ⟨h.resume hplace hwoken, _, rfl, rfl⟩

theorem lockPeer_parked (h : Guarded w) {peer : ℤ}
    (hplace : w.place t = .outside ∨ ∃ lock, w.place t = .waiting peer lock)
    (hspare : (Op.lockPeer peer).Sparing cfg t w)
    (hr : w.lockPeer cfg t peer = .parked w') :
    Guarded w' ∧ ∃ lock, w'.place = Function.update w.place t (.waiting peer lock) := by
  rw [World.lockPeer] at hr
  rcases hplace with hplace | ⟨lock, hplace⟩
  · obtain ⟨hspares, hpeer⟩ := hspare hplace
    obtain ⟨hguarded, hentry⟩ := h.peerLock cfg.clock hspares hpeer
    rw [hplace] at hr
    dsimp only at hr
    split at hr
    · cases hr
    · rename_i hbusy
      obtain rfl := Reply.parked.inj hr
      exact ⟨hguarded.wait hplace hentry hbusy, _, rfl⟩
  · rw [hplace] at hr
    dsimp only at hr
    split_ifs at hr

/-- A task at the entrance of a section does not hold a lock. -/
theorem place_of_lockPeer {α : Type} {q : Place} {peer : ℤ}
    {k : Except String ℕ → StoreProg α} (h : q.Fits (.op (.lockPeer peer) k)) :
    q = .outside ∨ ∃ lock, q = .waiting peer lock := by
  cases q with
  | outside => exact .inl rfl
  | waiting p lock =>
    obtain ⟨-, k', hk⟩ := h
    obtain rfl := Op.lockPeer.inj (Prog.op.inj hk).1
    exact .inr ⟨lock, rfl⟩
  | inside p lock => exact nomatch h.1

/-- One operation of a disciplined task. -/
theorem handle_done (h : Guarded w) {α : Type} {o : Op}
    {k : Except String (effects.Ret o) → StoreProg α} (hfits : (w.place t).Fits (.op o k))
    (hspare : o.Sparing cfg t w) {x : Except String (effects.Ret o)}
    (hr : handle cfg t o w = .done x w') :
    Guarded w' ∧ (w'.place t).Fits (k x) ∧ ∀ u, u ≠ t → w'.place u = w.place u := by
  have hkeep (hkeyed : w'.keyedLocks = w.keyedLocks) (ho : ∀ peer, o ≠ .lockPeer peer)
      (hafter : ∀ held x, o.after held x = held) :
      Guarded w' ∧ (w'.place t).Fits (k x) ∧ ∀ u, u ≠ t → w'.place u = w.place u := by
    have hplace : w'.place = w.place := congrArg KeyedLocks.place hkeyed
    exact ⟨h.congr hkeyed, by rw [hplace]; exact hfits.next ho hafter x, fun u _ ↦ by rw [hplace]⟩
  cases o with
  | lockPeer peer =>
    have hplace := place_of_lockPeer hfits
    obtain ⟨hguarded, lock, rfl, hw'⟩ := h.lockPeer_done hplace hspare hr
    have hb : Bracketed (some lock) none (k (.ok lock)) := by
      rcases hplace with hplace | ⟨lock', hplace⟩ <;> rw [hplace] at hfits
      · exact hfits.2 (.ok lock)
      · exact hfits.1.2 (.ok lock)
    refine ⟨hguarded, ?_, fun u hu ↦ ?_⟩
    · rw [hw', Function.update_self]
      exact hb
    · rw [hw', Function.update_of_ne hu]
  | release lock =>
    obtain ⟨rfl, rfl⟩ := Reply.done.inj hr
    obtain ⟨p, hplace⟩ : ∃ p, w.place t = .inside p lock := by
      cases hplace : w.place t with
      | outside =>
        rw [hplace] at hfits
        cases hfits.1
      | waiting p lock' =>
        rw [hplace] at hfits
        cases hfits.1.1
      | inside p lock' =>
        rw [hplace] at hfits
        exact ⟨p, by rw [Option.some.inj hfits.1]⟩
    rw [hplace] at hfits
    refine ⟨h.leave hplace, ?_, fun u hu ↦ Function.update_of_ne hu ..⟩
    simp only [World.release, Function.update_self]
    exact hfits.2 _
  | historySince peer minId limit =>
    obtain ⟨y, hy, -⟩ := w.request_eq cfg (.since peer minId limit)
      (w.server.historySince peer minId limit)
    obtain ⟨rfl, rfl⟩ := Reply.done.inj (hy.symm.trans hr)
    exact hkeep rfl (fun _ h ↦ by cases h) fun _ _ ↦ rfl
  | clientHistory peer limit offsetId =>
    obtain ⟨y, hy, -⟩ := w.request_eq cfg (.before peer limit offsetId)
      (w.server.history peer limit offsetId)
    obtain ⟨rfl, rfl⟩ := Reply.done.inj (hy.symm.trans hr)
    exact hkeep rfl (fun _ h ↦ by cases h) fun _ _ ↦ rfl
  | syncStale peer =>
    obtain ⟨rfl, rfl⟩ := Reply.done.inj hr
    exact hkeep (w.keyedLocks_syncStale ..) (fun _ h ↦ by cases h) fun _ _ ↦ rfl
  | rememberSync peer =>
    obtain ⟨rfl, rfl⟩ := Reply.done.inj hr
    exact ⟨h.rememberSync cfg.clock hspare, hfits.next (fun _ h ↦ by cases h) (fun _ _ ↦ rfl) _,
      fun _ _ ↦ rfl⟩
  | _ =>
    obtain ⟨rfl, rfl⟩ := Reply.done.inj hr
    exact hkeep rfl (fun _ h ↦ by cases h) fun _ _ ↦ rfl

theorem handle_parked (h : Guarded w) {α : Type} {o : Op}
    {k : Except String (effects.Ret o) → StoreProg α} (hfits : (w.place t).Fits (.op o k))
    (hspare : o.Sparing cfg t w) (hr : handle cfg t o w = .parked w') :
    Guarded w' ∧ (w'.place t).Fits (.op o k) ∧ ∀ u, u ≠ t → w'.place u = w.place u := by
  obtain ⟨⟨peer, rfl⟩, -⟩ := MessageStore.handle_parked hr
  have hplace := place_of_lockPeer hfits
  obtain ⟨hguarded, lock, hw'⟩ := h.lockPeer_parked hplace hspare hr
  refine ⟨hguarded, ?_, fun u hu ↦ by rw [hw', Function.update_of_ne hu]⟩
  rw [hw', Function.update_self]
  rcases hplace with hplace | ⟨lock', hplace⟩ <;> rw [hplace] at hfits
  · exact ⟨hfits, k, rfl⟩
  · exact hfits

end Guarded

/-! ## Runs -/

/-- Calls in front of a store nobody has used yet. -/
structure Calls (c : StoreConfig) : Prop where
  store : ∃ s, c.shared = .init s
  calls : ∀ t, (∃ call : Call, c.task t = call.prog) ∨ c.Ended t

/-- The move drops no lock in use. -/
def SparingMove (cfg : Setup) (c : StoreConfig) (m : Move ℕ ServerEvent) : Prop :=
  ∀ t o k, m = .run t → c.task t = .op o k → o.Sparing cfg t c.shared

/-- The dictionaries, as the operation is about to find them, have room for the locks that are
promised to somebody. -/
def Op.Roomy (t : ℕ) (w : World) : Op → Prop
  | .lockPeer peer => w.place t = .outside →
    MessageStore.Roomy (some peer) (w.peers.entriesFor peer) w.peers.synced
  | .rememberSync peer => MessageStore.Roomy none w.peers.entries (w.peers.syncedFor peer)
  | _ => True

/-- The task that moves finds room. -/
def RoomyMove (c : StoreConfig) (m : Move ℕ ServerEvent) : Prop :=
  ∀ t o k, m = .run t → c.task t = .op o k → o.Roomy t c.shared

/-- The invariant of whole runs. -/
structure Exclusive (c : StoreConfig) : Prop where
  guarded : Guarded c.shared
  fits : ∀ t, (c.shared.place t).Fits (c.task t)

theorem Calls.exclusive {c : StoreConfig} (h : Calls c) : Exclusive c := by
  obtain ⟨s, hs⟩ := h.store
  refine ⟨hs ▸ .init s, fun t ↦ ?_⟩
  rw [hs]
  rcases h.calls t with ⟨call, hcall⟩ | ⟨a, ha⟩ | ⟨e, he⟩
  · rw [hcall]
    exact .prog call
  · rw [ha]
    rfl
  · rw [he]
    rfl

theorem Exclusive.step {cfg : Setup} {c c' : StoreConfig} {m : Move ℕ ServerEvent}
    (h : Exclusive c) (hm : SparingMove cfg c m) (hs : c.step (system cfg) m = some c') :
    Exclusive c' := by
  rcases Config.step_cases hs with ⟨t, o, k, x, w, rfl, hp, hr, rfl⟩ |
    ⟨t, o, k, w, rfl, hp, hr, rfl⟩ | ⟨e, w, rfl, henv, rfl⟩
  · obtain ⟨hguarded, hfits, hothers⟩ :=
      h.guarded.handle_done (hp ▸ h.fits t) (hm t o k rfl hp) hr
    refine ⟨hguarded, fun u ↦ ?_⟩
    by_cases hu : u = t
    · simp only [hu, Function.update_self]
      exact hfits
    · simp only [Function.update_of_ne hu, hothers u hu]
      exact h.fits u
  · obtain ⟨hguarded, hfits, hothers⟩ :=
      h.guarded.handle_parked (hp ▸ h.fits t) (hm t o k rfl hp) hr
    refine ⟨hguarded, fun u ↦ ?_⟩
    by_cases hu : u = t
    · simp only [hu, hp]
      exact hfits
    · simp only [hothers u hu]
      exact h.fits u
  · obtain ⟨server, -, rfl⟩ := Option.map_eq_some_iff.mp henv
    exact ⟨h.guarded.congr rfl, h.fits⟩

/-- Where there is room, an eviction drops no lock with waiters and not the one handed out. -/
theorem PeerState.spares_of_roomy {s : PeerState} {handed : Option ℤ}
    (h : Roomy handed s.entries s.synced) :
    s.Spares ∧ ∀ peer lock, handed = some peer → s.syncLocks.get? peer = some lock →
      peer ∉ s.victims := by
  have hidle {p : ℤ} {lock : ℕ} (hp : p ∈ s.victims) (hlock : s.syncLocks.get? p = some lock) :
      idle (p, s.locks lock) ∧ handed ≠ some p :=
    (promised_eq_false (not_locked_of_mem_victims hp hlock)).mp
      (not_promised_of_mem_victims h hp hlock)
  constructor
  · intro p hp lock hlock
    exact List.isEmpty_iff.mp (Bool.and_eq_true_iff.mp (hidle hp hlock).1).2
  · intro peer lock hpeer hlock hp
    exact (hidle hp hlock).2 hpeer

theorem Guarded.sparing {cfg : Setup} {w : World} {t : ℕ} {o : Op} (h : Guarded w)
    (hroom : o.Roomy t w) : o.Sparing cfg t w := by
  cases o with
  | lockPeer peer =>
    intro hplace
    have hroom := hroom hplace
    rw [← PeerState.entries_touchLock h.sound.fresh, PeerState.synced,
      ← PeerState.lastSync_touchLock w.peers peer] at hroom
    obtain ⟨hspares, hhanded⟩ := PeerState.spares_of_roomy hroom
    exact ⟨hspares, hhanded peer _ rfl (h.touchLock peer).2⟩
  | rememberSync peer =>
    rw [Op.Roomy, ← PeerState.synced_touchSync cfg.clock] at hroom
    exact (PeerState.spares_of_roomy (s := w.peers.touchSync cfg.clock peer) hroom).1
  | _ => trivial

/-- In every run in which there is room for the locks in use, at most one task is inside the
section of a peer, and the lock a task holds or waits for stays the lock of the peer. -/
theorem section_exclusive {cfg : Setup} {c c' : StoreConfig} (hstart : Calls c)
    (hrun : Reaches (system cfg) RoomyMove c c') :
    (∀ t u p lock lock', c'.shared.place t = .inside p lock →
      c'.shared.place u = .inside p lock' → t = u) ∧
    ∀ t p lock, c'.shared.place t = .waiting p lock ∨ c'.shared.place t = .inside p lock →
      c'.shared.peers.syncLocks.get? p = some lock := by
  have hinv : Exclusive c' := hrun.preserves
    (fun _ _ _ h hm hs ↦ h.step (fun t o k ht hp ↦ h.guarded.sparing (hm t o k ht hp)) hs)
    hstart.exclusive
  exact ⟨fun t u p lock lock' ht hu ↦ hinv.guarded.exclusive ht hu, hinv.guarded.tracked⟩

/-! ## Progress -/

/-- A task moves unless its operation blocks. -/
theorem exists_step {cfg : Setup} {c : StoreConfig} {t : ℕ} {o : Op}
    {k : Except String (effects.Ret o) → StoreProg (List Message)} (hp : c.task t = .op o k)
    (hr : handle cfg t o c.shared ≠ .blocked) : ∃ c', c.step (system cfg) (.run t) = some c' := by
  simp only [Config.step, hp]
  cases h : (system cfg).handle t o c.shared with
  | done x w => exact ⟨_, rfl⟩
  | parked w => exact ⟨_, rfl⟩
  | blocked => exact absurd h hr

/-- The store does not deadlock: while some call has not ended, some call can move.  The
owner of a lock can always move, and the first waiter of a free lock was woken. -/
theorem Exclusive.progress {cfg : Setup} {c : StoreConfig} (h : Exclusive c)
    (hrunning : ∃ t, ¬c.Ended t) : ∃ t c', c.step (system cfg) (.run t) = some c' := by
  obtain ⟨t, ht⟩ := hrunning
  obtain ⟨o, k, hp⟩ : ∃ o k, c.task t = .op o k := by
    cases hp : c.task t with
    | ret a => exact absurd (.inl ⟨a, hp⟩) ht
    | raise e => exact absurd (.inr ⟨e, hp⟩) ht
    | op o k => exact ⟨o, k, rfl⟩
  by_cases hblocked : handle cfg t o c.shared = .blocked
  swap
  · exact ⟨t, exists_step hp hblocked⟩
  obtain ⟨p, lock, hplace, -⟩ := handle_blocked hblocked
  obtain ⟨owner, howned, howner⟩ := h.guarded.owned lock
  cases owner with
  | some u =>
    obtain ⟨q, hu⟩ := (howner u).mp rfl
    have hfits : Bracketed (some lock) none (c.task u) := by
      have hfits := h.fits u
      rw [hu] at hfits
      exact hfits
    cases hpu : c.task u with
    | ret a =>
      rw [hpu] at hfits
      exact nomatch hfits
    | raise e =>
      rw [hpu] at hfits
      exact nomatch hfits
    | op o' k' =>
      refine ⟨u, exists_step hpu fun hb ↦ ?_⟩
      obtain ⟨_, _, hw, -⟩ := handle_blocked hb
      exact nomatch hu.symm.trans hw
  | none =>
    have hmem := (h.guarded.queued lock t).mpr ⟨p, hplace⟩
    cases hws : (c.shared.peers.locks lock).waiters with
    | nil =>
      rw [hws] at hmem
      exact absurd hmem List.not_mem_nil
    | cons v ws =>
      obtain ⟨u, f⟩ := v
      have hwoken : f = .woken :=
        (h.guarded.alert lock).woken howned.locked_eq (u, f) (by rw [hws]; rfl)
      have hwaiting : (c.shared.peers.locks lock).waiting? u = some .woken := by
        rw [Lock.waiting?, hws, hwoken, List.lookup_cons_self]
      obtain ⟨q, hu⟩ := (h.guarded.queued lock u).mp (by rw [hws]; exact List.mem_cons_self)
      have hfits := h.fits u
      rw [hu] at hfits
      obtain ⟨-, k', hpu⟩ := hfits
      refine ⟨u, exists_step hpu fun hb ↦ ?_⟩
      obtain ⟨_, lock', hw, hnot⟩ := handle_blocked hb
      obtain ⟨-, rfl⟩ := Place.waiting.inj (hu.symm.trans hw)
      exact hnot hwaiting

/-! ## Few peers -/

/-- A store that knows fewer peers than it may has room for all their locks. -/
theorem Op.roomy_of_size_lt {t : ℕ} {w : World} {o : Op}
    (hlocks : w.peers.syncLocks.size < peerStateMax)
    (hsyncs : w.peers.lastSync.size < peerStateMax) : o.Roomy t w := by
  have hentries : w.peers.entries.length < peerStateMax :=
    PeerState.length_entries.trans_lt hlocks
  have hsynced : w.peers.synced.length < peerStateMax := (List.length_map ..).trans_lt hsyncs
  cases o with
  | lockPeer peer =>
    refine fun _ ↦ .of_length_le ?_ hsynced.le
    rw [PeerState.entriesFor, List.length_append]
    exact (Nat.succ_le_succ (List.length_filter_le ..)).trans hentries
  | rememberSync peer =>
    refine .of_length_le hentries.le ?_
    rw [PeerState.syncedFor, List.length_append]
    exact (Nat.succ_le_succ (List.length_filter_le ..)).trans hsynced
  | _ => trivial

/-- Two calls of `history` for one dialog with three messages. -/
def twoReaders (limit limit' : ℕ) : StoreConfig :=
  ⟨.init (.ofIds 7 [1, 2, 3]), fun
    | 0 => history 7 limit 0
    | 1 => history 7 limit' 0
    | _ => .ret []⟩

/-- The second call waits for the first. -/
theorem section_exclusive_of_two_readers :
    ∃ c, Reaches (system .calm) RoomyMove (twoReaders 3 1) c ∧
      c.shared.place 1 = .waiting 7 0 ∧ ∀ t lock, c.shared.place t = .inside 7 lock → t = 0 := by
  have hok {c : StoreConfig} {m : Move ℕ ServerEvent}
      (hlocks : c.shared.peers.syncLocks.size < peerStateMax)
      (hsyncs : c.shared.peers.lastSync.size < peerStateMax) : RoomyMove c m :=
    fun _ _ _ _ _ ↦ Op.roomy_of_size_lt hlocks hsyncs
  have hfirst : Steps (system .calm) RoomyMove (twoReaders 3 1) _ :=
    ⟨.run 0, hok (by decide) (by decide), rfl⟩
  have hrun := (Relation.ReflTransGen.single hfirst).tail
    ⟨.run 1, hok (by decide) (by decide), rfl⟩
  have hstart : Calls (twoReaders 3 1) := by
    refine ⟨⟨_, rfl⟩, fun t ↦ ?_⟩
    match t with
    | 0 => exact .inl ⟨.history 7 3 0, rfl⟩
    | 1 => exact .inl ⟨.history 7 1 0, rfl⟩
    | t + 2 => exact .inr (.inl ⟨[], rfl⟩)
  exact ⟨_, hrun, by decide, fun t lock ht ↦ (section_exclusive hstart hrun).1 t 0 7 lock 0 ht
    (by decide)⟩

/-! ## One peer too many -/

/-- Calls for peers 0, 1, …, 999, and then one after the other for peer 1000. -/
def crowd : StoreConfig := ⟨.init .empty, fun t ↦ history (min t peerStateMax : ℕ) 1 0⟩

theorem crowd_task (t : ℕ) : crowd.task t = history (min t peerStateMax : ℕ) 1 0 := rfl

/-- The first `n` calls are inside their sections. -/
structure Crowded (n : ℕ) (c : StoreConfig) : Prop where
  size_eq : c.shared.peers.syncLocks.size = n
  entries : ∀ p lock, c.shared.peers.syncLocks.get? p = some lock ↔ lock < n ∧ p = lock
  lastSync_eq : c.shared.peers.lastSync = .empty
  nextLock_eq : c.shared.peers.nextLock = n
  locked : ∀ lock, lock < n → (c.shared.peers.locks lock).locked = true
  outside : ∀ t, n ≤ t → c.shared.place t = .outside ∧ c.task t = crowd.task t

/-- The next call creates a lock. -/
theorem Crowded.touchLock {n : ℕ} {c : StoreConfig} (h : Crowded n c) :
    c.shared.peers.syncLocks.get? (n : ℤ) = none ∧
      c.shared.peers.touchLock (n : ℤ) = (n, { c.shared.peers with
        syncLocks := (c.shared.peers.syncLocks.set (n : ℤ) n).moveToEnd n
        locks := Function.update c.shared.peers.locks n .free
        nextLock := n + 1 }) := by
  have hnone : c.shared.peers.syncLocks.get? (n : ℤ) = none := by
    rw [Option.eq_none_iff_forall_ne_some]
    intro lock hlock
    obtain ⟨hlt, heq⟩ := (h.entries ..).mp hlock
    omega
  refine ⟨hnone, ?_⟩
  rw [PeerState.touchLock, hnone, h.nextLock_eq]

/-- The dictionary with the lock of one more peer. -/
theorem Crowded.get?_touchLock {n : ℕ} {c : StoreConfig} (h : Crowded n c) (p : ℤ) (lock : ℕ) :
    ((c.shared.peers.syncLocks.set (n : ℤ) n).moveToEnd n).get? p = some lock ↔
      lock < n + 1 ∧ p = lock := by
  rw [OrderedDict.get?_moveToEnd, OrderedDict.get?_set]
  split_ifs with hp
  · subst hp
    exact ⟨fun heq ↦ by rw [← Option.some.inj heq]; omega, fun heq ↦ congrArg some (by omega)⟩
  · rw [h.entries]
    constructor
    · rintro ⟨hlt, heq⟩
      exact ⟨by omega, heq⟩
    · rintro ⟨hlt, heq⟩
      exact ⟨by omega, heq⟩

/-- A call enters the section of a peer that has no lock yet. -/
theorem step_newcomer (cfg : Setup) {c : StoreConfig} {t : ℕ} {peer : ℤ}
    (htask : c.task t = history peer 1 0) (hplace : c.shared.place t = .outside)
    (hnone : c.shared.peers.syncLocks.get? peer = none) :
    ∃ c', c.step (system cfg) (.run t) = some c' ∧
      c'.shared = { c.shared with
        peers := { (c.shared.peers.peerLock cfg.clock peer).2 with
          locks := Function.update (c.shared.peers.peerLock cfg.clock peer).2.locks
            (c.shared.peers.peerLock cfg.clock peer).1 ⟨true, []⟩ }
        place := Function.update c.shared.place t
          (.inside peer (c.shared.peers.peerLock cfg.clock peer).1) } ∧
      ∀ u, u ≠ t → c'.task u = c.task u := by
  have hlock : c.shared.lockPeer cfg t peer = _ := World.lockPeer_free hplace
    fun lock hlock ↦ nomatch hnone.symm.trans hlock
  obtain ⟨k, hk⟩ : ∃ k, c.task t = .op (.lockPeer peer) k := ⟨_, htask⟩
  refine ⟨⟨_, Function.update c.task t (k (.ok (c.shared.peers.peerLock cfg.clock peer).1))⟩,
    ?_, rfl, fun u hu ↦ Function.update_of_ne hu ..⟩
  simp only [Config.step, hk]
  rw [show (system cfg).handle t (.lockPeer peer) c.shared = _ from hlock]

/-- One more call enters its section. -/
theorem Crowded.next {n : ℕ} {c : StoreConfig} (h : Crowded n c) (hn : n < peerStateMax) :
    ∃ c', c.step (system .calm) (.run n) = some c' ∧ Crowded (n + 1) c' := by
  obtain ⟨hplace, htask⟩ := h.outside n (le_refl n)
  obtain ⟨hnone, htouch⟩ := h.touchLock
  rw [crowd_task, min_eq_left hn.le] at htask
  obtain ⟨c', hstep, hshared, hothers⟩ := step_newcomer .calm htask hplace hnone
  have hsize := OrderedDict.size_set_new n hnone
  have hlock : c.shared.peers.peerLock Setup.calm.clock n =
      c.shared.peers.touchLock (n : ℤ) := by
    rw [PeerState.peerLock, htouch]
    refine congrArg (Prod.mk n) (PeerState.evictIdlePeerState_of_size_le _ ?_ ?_)
    · exact (OrderedDict.size_moveToEnd ..).trans_le (hsize.trans_le (by rw [h.size_eq]; exact hn))
    · dsimp only
      rw [h.lastSync_eq]
      exact Nat.zero_le _
  rw [hlock, htouch] at hshared
  refine ⟨c', hstep, ?_, fun p lock ↦ ?_, ?_, ?_, fun lock hlt ↦ ?_, fun t ht ↦ ?_⟩
  · rw [hshared]
    exact (OrderedDict.size_moveToEnd ..).trans (hsize.trans (by rw [h.size_eq]))
  · rw [hshared]
    exact h.get?_touchLock p lock
  · rw [hshared]
    exact h.lastSync_eq
  · rw [hshared]
  · rw [hshared]
    by_cases hl : lock = n
    · simp only [hl, Function.update_self]
    · simp only [Function.update_of_ne hl]
      exact h.locked lock (by omega)
  · obtain ⟨hplace', htask'⟩ := h.outside t (by omega)
    have hne : t ≠ n := by omega
    refine ⟨?_, (hothers t hne).trans htask'⟩
    rw [hshared]
    exact (Function.update_of_ne hne ..).trans hplace'

/-- With all sections of `peerStateMax` peers taken, the lock of one more peer is dropped
as soon as it is handed out. -/
theorem Crowded.get?_peerLock {c : StoreConfig} (h : Crowded peerStateMax c) :
    (c.shared.peers.peerLock Setup.calm.clock peerStateMax).2.syncLocks.get? peerStateMax =
      none := by
  obtain ⟨hnone, htouch⟩ := h.touchLock
  have hsize := (OrderedDict.size_moveToEnd
    (c.shared.peers.syncLocks.set (peerStateMax : ℤ) peerStateMax) peerStateMax).trans
      (OrderedDict.size_set_new peerStateMax hnone)
  rw [PeerState.peerLock, PeerState.get?_evictIdlePeerState]
  refine if_pos (List.mem_append_left _ ?_)
  rw [htouch, PeerState.lockVictims]
  set s : PeerState := { c.shared.peers with
    syncLocks := (c.shared.peers.syncLocks.set (peerStateMax : ℤ) peerStateMax).moveToEnd
      peerStateMax
    locks := Function.update c.shared.peers.locks peerStateMax .free
    nextLock := peerStateMax + 1 } with hs
  have hmem (e : ℤ × ℕ) : e ∈ s.syncLocks.items.filter s.unlocked ↔
      e = ((peerStateMax : ℤ), peerStateMax) := by
    rw [List.mem_filter, ← OrderedDict.get?_eq_some_iff, h.get?_touchLock, PeerState.unlocked]
    constructor
    · rintro ⟨⟨hlt, heq⟩, hunlocked⟩
      have hl : e.2 = peerStateMax := by
        by_contra hne
        simp only [hs, Function.update_of_ne hne, h.locked e.2 (by omega)] at hunlocked
        cases hunlocked
      exact Prod.ext (heq.trans (congrArg Nat.cast hl)) hl
    · rintro rfl
      exact ⟨⟨by omega, rfl⟩, by simp only [hs, Function.update_self]; rfl⟩
  have hone : s.syncLocks.size - peerStateMax = 1 := by
    rw [hs, hsize, h.size_eq, Nat.add_sub_cancel_left]
  rw [hone]
  cases hitems : s.syncLocks.items.filter s.unlocked with
  | nil => exact absurd ((hmem _).mpr rfl) (hitems ▸ List.not_mem_nil)
  | cons e l =>
    obtain rfl := (hmem e).mp (hitems ▸ List.mem_cons_self)
    exact List.mem_cons_self

/-- The calls of the crowd enter one after the other, until there are as many as the store
keeps locks. -/
theorem crowded_reaches {n : ℕ} (hn : n ≤ peerStateMax) :
    ∃ c, Reaches (system .calm) anyMove crowd c ∧ Crowded n c := by
  induction n with
  | zero =>
    refine ⟨crowd, .refl, rfl, fun p lock ↦ ?_, rfl, rfl, fun _ h ↦ absurd h (Nat.not_lt_zero _),
      fun t _ ↦ ⟨rfl, rfl⟩⟩
    exact ⟨nofun, fun h ↦ absurd h.1 (Nat.not_lt_zero _)⟩
  | succ n ih =>
    obtain ⟨c, hrun, hc⟩ := ih (Nat.le_of_succ_le hn)
    obtain ⟨c', hstep, hc'⟩ := hc.next hn
    exact ⟨c', hrun.tail ⟨.run n, trivial, hstep⟩, hc'⟩

/-- Two tasks are inside the section of the same peer. -/
theorem section_shared :
    ∃ c, Reaches (system .calm) anyMove crowd c ∧ ∃ t u p lock lock', t ≠ u ∧
      c.shared.place t = .inside p lock ∧ c.shared.place u = .inside p lock' := by
  obtain ⟨c, hrun, hc⟩ := crowded_reaches (le_refl peerStateMax)
  obtain ⟨hplace, htask⟩ := hc.outside peerStateMax (le_refl _)
  obtain ⟨hplace', htask'⟩ := hc.outside (peerStateMax + 1) (Nat.le_succ _)
  have hne : peerStateMax + 1 ≠ peerStateMax := Nat.succ_ne_self _
  rw [crowd_task, min_self] at htask
  rw [crowd_task, min_eq_right (Nat.le_succ _)] at htask'
  obtain ⟨c₁, hstep, hshared, hothers⟩ :=
    step_newcomer .calm htask hplace hc.touchLock.1
  have hnone : c₁.shared.peers.syncLocks.get? peerStateMax = none := by
    rw [hshared]
    exact hc.get?_peerLock
  have houtside : c₁.shared.place (peerStateMax + 1) = .outside := by
    rw [hshared]
    simp only [Function.update_of_ne hne]
    exact hplace'
  obtain ⟨c₂, hstep', hshared', -⟩ := step_newcomer .calm
    ((hothers _ hne).trans htask') houtside hnone
  have hrun' : Reaches (system .calm) anyMove crowd c₂ :=
    (hrun.tail ⟨_, trivial, hstep⟩).tail ⟨_, trivial, hstep'⟩
  have hinside : c₂.shared.place peerStateMax = .inside peerStateMax
      (c.shared.peers.peerLock Setup.calm.clock peerStateMax).1 := by
    rw [hshared']
    simp only [Function.update_of_ne hne.symm]
    rw [hshared]
    simp only [Function.update_self]
  have hinside' : c₂.shared.place (peerStateMax + 1) = .inside peerStateMax
      (c₁.shared.peers.peerLock Setup.calm.clock peerStateMax).1 := by
    rw [hshared']
    simp only [Function.update_self]
  exact ⟨c₂, hrun', _, _, _, _, _, hne.symm, hinside, hinside'⟩

end TgMessenger.MessageStore
