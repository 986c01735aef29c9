import TgMessenger.Asyncio.KeyedLocks
import TgMessenger.MessageStore.PeerState
import TgMessenger.MessageStore.Program
import TgMessenger.MessageStore.Server

/-!
# Running the message store

The state a store runs on, and what its operations do to it: the database, the in-memory
state of the store, the server behind the client, and for each task where it stands with
respect to the lock of a peer.

The clock is the sequence of its readings and the network the sequence of its answers:
request `n` raises when `faults n` holds a text and is answered with a page of the server
otherwise.  The environment of the store is the server, whose dialogs grow and shrink
between any two operations.
-/

namespace TgMessenger.MessageStore

open Asyncio

/-- The constructor arguments of a store and the world outside the model. -/
structure Setup where
  /-- `sync_ttl`. -/
  syncTtl : Time
  /-- The readings of the clock. -/
  clock : ℕ → Time
  /-- The exception the `n`-th request to the client raises, if it raises one. -/
  faults : ℕ → Option String

/-- A client that never fails and a clock that stands still, with the default `sync_ttl`. -/
def Setup.calm : Setup := ⟨15, fun _ ↦ 0, fun _ ↦ none⟩

/-- A request to the client. -/
inductive Request where
  | since (peer minId : ℤ) (limit : ℕ)
  | before (peer : ℤ) (limit : ℕ) (offsetId : ℤ)
deriving DecidableEq, Repr

/-- Where a task stands with respect to `_peer_lock`. -/
abbrev Place := Asyncio.Place ℤ

/-- The state shared by the calls of a store. -/
structure World where
  db : Db
  peers : PeerState
  server : Server
  /-- The requests made to the client, latest first. -/
  requests : List Request
  /-- Where each task stands. -/
  place : ℕ → Place

namespace World

/-- A new store in front of a server. -/
def init (server : Server) : World := ⟨.empty, .init, server, [], fun _ ↦ .outside⟩

/-- Apply a statement to the database. -/
def onDb (f : Db → Db) (w : World) : World := { w with db := f w.db }

/-- A request to the client: logged, and answered with a page or an exception. -/
def request (cfg : Setup) (r : Request) (page : List Message) (w : World) :
    Reply String (List Message) World :=
  let w' := { w with requests := r :: w.requests }
  match cfg.faults w.requests.length with
  | some e => .done (.error e) w'
  | none => .done (.ok page) w'

/-- `async with self._peer_lock(peer)`, the entrance.  A newcomer is handed the lock and
takes it or goes to sleep in its queue; a sleeper takes the lock when it was woken. -/
def lockPeer (cfg : Setup) (t : ℕ) (peer : ℤ) (w : World) : Reply String ℕ World :=
  match w.place t with
  | .waiting p lock =>
    if (w.peers.locks lock).waiting? t = some .woken then
      .done (.ok lock)
        { w with peers := { w.peers with
                   locks := Function.update w.peers.locks lock ((w.peers.locks lock).resume t) }
                 place := Function.update w.place t (.inside p lock) }
    else .blocked
  | _ =>
    let (lock, peers) := w.peers.peerLock cfg.clock peer
    match (peers.locks lock).acquire? with
    | some taken =>
      .done (.ok lock)
        { w with peers := { peers with locks := Function.update peers.locks lock taken }
                 place := Function.update w.place t (.inside peer lock) }
    | none =>
      .parked
        { w with peers := { peers with
                   locks := Function.update peers.locks lock ((peers.locks lock).enqueue t) }
                 place := Function.update w.place t (.waiting peer lock) }

/-- The release of a lock. -/
def release (t lock : ℕ) (w : World) : World :=
  { w with peers := { w.peers with
             locks := Function.update w.peers.locks lock (w.peers.locks lock).release }
           place := Function.update w.place t .outside }

end World

/-- What the operations of the store do. -/
def handle (cfg : Setup) (t : ℕ) : (o : Op) → World → Reply String (effects.Ret o) World
  | .historySince peer minId limit, w =>
    w.request cfg (.since peer minId limit) (w.server.historySince peer minId limit)
  | .clientHistory peer limit offsetId, w =>
    w.request cfg (.before peer limit offsetId) (w.server.history peer limit offsetId)
  | .syncRow peer, w => .done (.ok (w.db.syncRow peer)) w
  | .setSyncRow peer low high, w => .done (.ok ()) (w.onDb (.setSyncRow peer low high))
  | .windowCount peer low high, w => .done (.ok (w.db.windowCount peer low high)) w
  | .upsert m tt tl pt, w => .done (.ok ()) (w.onDb (.upsertMessage m tt tl pt))
  | .deleteDialog peer, w => .done (.ok ()) (w.onDb (.deleteDialog peer))
  | .pruneWindow peer low high ids, w =>
    .done (.ok ()) (w.onDb (.pruneWindow peer low high ids))
  | .loadWindow peer low high limit, w => .done (.ok (w.db.loadWindow peer low high limit)) w
  | .loadBefore peer limit offsetId low, w =>
    .done (.ok (w.db.loadBefore peer limit offsetId low)) w
  | .deleteIds peer ids, w => .done (.ok ()) (w.onDb (.deleteIds peer ids))
  | .selectIds ids, w => .done (.ok (w.db.selectIds ids)) w
  | .deleteRow peer id, w => .done (.ok ()) (w.onDb (.deleteRow peer id))
  | .lockPeer peer, w => w.lockPeer cfg t peer
  | .release lock, w => .done (.ok ()) (w.release t lock)
  | .syncStale peer, w =>
    let (stale, peers) := w.peers.syncStale cfg.syncTtl cfg.clock peer
    .done (.ok stale) { w with peers }
  | .rememberSync peer, w =>
    .done (.ok ()) { w with peers := w.peers.rememberSync cfg.clock peer }

/-- The store in front of a changing server. -/
def system (cfg : Setup) : System effects ℕ World ServerEvent where
  handle := handle cfg
  env e w := (w.server.apply e).map fun server ↦ { w with server }

/-- The calls of a store in progress, and what they still have to do. -/
abbrev StoreConfig := Config effects ℕ World (List Message)

namespace World

@[simp] theorem db_onDb (f : Db → Db) (w : World) : (w.onDb f).db = f w.db := rfl

@[simp] theorem server_onDb (f : Db → Db) (w : World) : (w.onDb f).server = w.server := rfl

@[simp] theorem peers_onDb (f : Db → Db) (w : World) : (w.onDb f).peers = w.peers := rfl

@[simp] theorem place_onDb (f : Db → Db) (w : World) : (w.onDb f).place = w.place := rfl

@[simp] theorem requests_onDb (f : Db → Db) (w : World) : (w.onDb f).requests = w.requests := rfl

@[simp] theorem db_release (t lock : ℕ) (w : World) : (w.release t lock).db = w.db := rfl

@[simp] theorem server_release (t lock : ℕ) (w : World) :
    (w.release t lock).server = w.server := rfl

@[simp] theorem requests_release (t lock : ℕ) (w : World) :
    (w.release t lock).requests = w.requests := rfl

end World

/-- Two states differ at most in the in-memory state of the store and in where the tasks
stand. -/
def SameData (w w' : World) : Prop :=
  w'.db = w.db ∧ w'.server = w.server ∧ w'.requests = w.requests

theorem World.lockPeer_done {cfg : Setup} {t : ℕ} {peer : ℤ} {w w' : World}
    {x : Except String ℕ} (h : w.lockPeer cfg t peer = .done x w') :
    (∃ lock, x = .ok lock) ∧ SameData w w' := by
  rw [lockPeer] at h
  split at h
  · split_ifs at h
    obtain ⟨rfl, rfl⟩ := Reply.done.inj h
    exact ⟨⟨_, rfl⟩, rfl, rfl, rfl⟩
  · dsimp only at h
    split at h
    · obtain ⟨rfl, rfl⟩ := Reply.done.inj h
      exact ⟨⟨_, rfl⟩, rfl, rfl, rfl⟩
    · cases h

theorem World.lockPeer_parked {cfg : Setup} {t : ℕ} {peer : ℤ} {w w' : World}
    (h : w.lockPeer cfg t peer = .parked w') : SameData w w' := by
  rw [lockPeer] at h
  split at h
  · split_ifs at h
  · dsimp only at h
    split at h
    · cases h
    · obtain rfl := Reply.parked.inj h
      exact ⟨rfl, rfl, rfl⟩

/-- `async with self._peer_lock(peer)`, the entrance, when the lock of the peer, if it has
one, is free. -/
theorem World.lockPeer_free {cfg : Setup} {t : ℕ} {peer : ℤ} {w : World}
    (hplace : w.place t = .outside)
    (hfree : ∀ lock, w.peers.syncLocks.get? peer = some lock → w.peers.locks lock = .free) :
    w.lockPeer cfg t peer = .done (.ok (w.peers.peerLock cfg.clock peer).1)
      { w with peers := { (w.peers.peerLock cfg.clock peer).2 with
                 locks := Function.update (w.peers.peerLock cfg.clock peer).2.locks
                   (w.peers.peerLock cfg.clock peer).1 ⟨true, []⟩ }
               place := Function.update w.place t
                 (.inside peer (w.peers.peerLock cfg.clock peer).1) } := by
  have hlock : (w.peers.peerLock cfg.clock peer).2.locks (w.peers.peerLock cfg.clock peer).1 =
      .free := by
    rw [PeerState.peerLock, PeerState.locks_evictIdlePeerState, PeerState.touchLock]
    cases h : w.peers.syncLocks.get? peer with
    | some lock => exact hfree lock h
    | none => exact Function.update_self ..
  rw [lockPeer, hplace]
  dsimp only
  rw [hlock]
  rfl

/-- A request raises or is answered with the page; only the log changes. -/
theorem World.request_eq (cfg : Setup) (r : Request) (page : List Message) (w : World) :
    ∃ x, w.request cfg r page = .done x { w with requests := r :: w.requests } ∧
      ∀ p, x = .ok p → p = page := by
  rw [request]
  split
  · exact ⟨_, rfl, fun _ h ↦ nomatch h⟩
  · exact ⟨_, rfl, fun _ h ↦ (Except.ok.inj h).symm⟩

/-- What an operation does to the database. -/
def Op.onDb : Op → Db → Db
  | .setSyncRow peer low high => .setSyncRow peer low high
  | .upsert m tt tl pt => .upsertMessage m tt tl pt
  | .deleteDialog peer => .deleteDialog peer
  | .pruneWindow peer low high ids => .pruneWindow peer low high ids
  | .deleteIds peer ids => .deleteIds peer ids
  | .deleteRow peer id => .deleteRow peer id
  | _ => id

/-- An operation changes the database as it says and leaves the server alone. -/
theorem handle_done {cfg : Setup} {t : ℕ} {o : Op} {w w' : World}
    {x : Except String (effects.Ret o)} (h : handle cfg t o w = .done x w') :
    w'.db = o.onDb w.db ∧ w'.server = w.server := by
  cases o with
  | historySince peer minId limit =>
    obtain ⟨y, hy, -⟩ := w.request_eq cfg (.since peer minId limit)
      (w.server.historySince peer minId limit)
    obtain ⟨-, rfl⟩ := Reply.done.inj (hy.symm.trans h)
    exact ⟨rfl, rfl⟩
  | clientHistory peer limit offsetId =>
    obtain ⟨y, hy, -⟩ := w.request_eq cfg (.before peer limit offsetId)
      (w.server.history peer limit offsetId)
    obtain ⟨-, rfl⟩ := Reply.done.inj (hy.symm.trans h)
    exact ⟨rfl, rfl⟩
  | lockPeer peer =>
    obtain ⟨-, hdb, hserver, -⟩ := World.lockPeer_done h
    exact ⟨hdb, hserver⟩
  | _ =>
    obtain ⟨-, rfl⟩ := Reply.done.inj h
    exact ⟨rfl, rfl⟩

/-- Only an entrance into a critical section can put a task to sleep. -/
theorem handle_parked {cfg : Setup} {t : ℕ} {o : Op} {w w' : World}
    (h : handle cfg t o w = .parked w') : (∃ peer, o = .lockPeer peer) ∧ SameData w w' := by
  cases o with
  | historySince peer minId limit =>
    obtain ⟨y, hy, -⟩ := w.request_eq cfg (.since peer minId limit)
      (w.server.historySince peer minId limit)
    cases hy.symm.trans h
  | clientHistory peer limit offsetId =>
    obtain ⟨y, hy, -⟩ := w.request_eq cfg (.before peer limit offsetId)
      (w.server.history peer limit offsetId)
    cases hy.symm.trans h
  | lockPeer peer => exact ⟨⟨peer, rfl⟩, World.lockPeer_parked h⟩
  | _ => cases h

/-! ## Places -/

/-- Where the entrance into a section leads. -/
theorem World.place_lockPeer_done {cfg : Setup} {t : ℕ} {peer : ℤ} {w w' : World}
    {x : Except String ℕ} (h : w.lockPeer cfg t peer = .done x w') :
    ∃ p lock, (p = peer ∨ w.place t = .waiting p lock) ∧ x = .ok lock ∧
      w'.place = Function.update w.place t (.inside p lock) := by
  rw [lockPeer] at h
  split at h
  · rename_i p lock hplace
    split_ifs at h
    obtain ⟨rfl, rfl⟩ := Reply.done.inj h
    exact ⟨p, lock, .inr hplace, rfl, rfl⟩
  · dsimp only at h
    split at h
    · obtain ⟨rfl, rfl⟩ := Reply.done.inj h
      exact ⟨peer, _, .inl rfl, rfl, rfl⟩
    · cases h

theorem World.place_lockPeer_parked {cfg : Setup} {t : ℕ} {peer : ℤ} {w w' : World}
    (h : w.lockPeer cfg t peer = .parked w') :
    (∀ p lock, w.place t ≠ .waiting p lock) ∧
      ∃ lock, w'.place = Function.update w.place t (.waiting peer lock) := by
  rw [lockPeer] at h
  split at h
  · split_ifs at h
  · rename_i hplace
    dsimp only at h
    split at h
    · cases h
    · obtain rfl := Reply.parked.inj h
      exact ⟨hplace, _, rfl⟩

/-- Only the entrance into a section blocks, and only a task that waits for its turn. -/
theorem handle_blocked {cfg : Setup} {t : ℕ} {o : Op} {w : World}
    (h : handle cfg t o w = .blocked) :
    ∃ p lock, w.place t = .waiting p lock ∧ (w.peers.locks lock).waiting? t ≠ some .woken := by
  cases o with
  | historySince peer minId limit =>
    obtain ⟨y, hy, -⟩ := w.request_eq cfg (.since peer minId limit)
      (w.server.historySince peer minId limit)
    cases hy.symm.trans h
  | clientHistory peer limit offsetId =>
    obtain ⟨y, hy, -⟩ := w.request_eq cfg (.before peer limit offsetId)
      (w.server.history peer limit offsetId)
    cases hy.symm.trans h
  | lockPeer peer =>
    rw [handle, World.lockPeer] at h
    split at h
    · rename_i p lock hplace
      split_ifs at h with hwoken
      exact ⟨p, lock, hplace, hwoken⟩
    · dsimp only at h
      split at h <;> cases h
  | _ => cases h

/-- An operation that is neither an entrance nor a release leaves the tasks where they
stand. -/
def Op.StaysInPlace : Op → Prop
  | .lockPeer _ => False
  | .release _ => False
  | _ => True

/-- Such an operation does not wait, and makes at most one request. -/
theorem handle_stays {cfg : Setup} {t : ℕ} {o : Op} {w w' : World}
    {x : Except String (effects.Ret o)} (ho : o.StaysInPlace)
    (h : handle cfg t o w = .done x w') :
    w'.place = w.place ∧ w.requests.length ≤ w'.requests.length := by
  cases o with
  | lockPeer peer => exact ho.elim
  | release lock => exact ho.elim
  | historySince peer minId limit =>
    obtain ⟨y, hy, -⟩ := w.request_eq cfg (.since peer minId limit)
      (w.server.historySince peer minId limit)
    obtain ⟨-, rfl⟩ := Reply.done.inj (hy.symm.trans h)
    exact ⟨rfl, Nat.le_succ _⟩
  | clientHistory peer limit offsetId =>
    obtain ⟨y, hy, -⟩ := w.request_eq cfg (.before peer limit offsetId)
      (w.server.history peer limit offsetId)
    obtain ⟨-, rfl⟩ := Reply.done.inj (hy.symm.trans h)
    exact ⟨rfl, Nat.le_succ _⟩
  | _ =>
    obtain ⟨-, rfl⟩ := Reply.done.inj h
    exact ⟨rfl, le_refl _⟩

/-- An operation of one task does not move the others, and takes back no request. -/
theorem handle_others {cfg : Setup} {t : ℕ} {o : Op} {w w' : World}
    {x : Except String (effects.Ret o)} (h : handle cfg t o w = .done x w') :
    (∀ u, u ≠ t → w'.place u = w.place u) ∧ w.requests.length ≤ w'.requests.length := by
  cases o with
  | lockPeer peer =>
    obtain ⟨-, -, -, hreq⟩ := World.lockPeer_done h
    obtain ⟨p, lock, -, -, hplace⟩ := World.place_lockPeer_done h
    exact ⟨fun u hu ↦ by rw [hplace, Function.update_of_ne hu], by rw [hreq]⟩
  | release lock =>
    obtain ⟨-, rfl⟩ := Reply.done.inj h
    exact ⟨fun u hu ↦ Function.update_of_ne hu .., le_refl _⟩
  | _ =>
    obtain ⟨hplace, hreq⟩ := handle_stays (by trivial) h
    exact ⟨fun u _ ↦ by rw [hplace], hreq⟩

theorem handle_others_parked {cfg : Setup} {t : ℕ} {o : Op} {w w' : World}
    (h : handle cfg t o w = .parked w') : ∀ u, u ≠ t → w'.place u = w.place u := by
  obtain ⟨⟨peer, rfl⟩, -⟩ := handle_parked h
  obtain ⟨-, lock, hplace⟩ := World.place_lockPeer_parked h
  exact fun u hu ↦ by rw [hplace, Function.update_of_ne hu]

end TgMessenger.MessageStore
