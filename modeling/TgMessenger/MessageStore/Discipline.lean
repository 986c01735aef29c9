import TgMessenger.Asyncio.Protocol
import TgMessenger.MessageStore.Session

/-!
# The lock discipline of the store's programs

`Bracketed held held' p` says how a program uses the locks of the peers when it starts
inside the critical section of `held` and ends inside that of `held'`: sections do not
nest, and whoever enters one leaves it, whatever the operations in between return or
raise.  Every call of the store is bracketed.

A call that runs while no other one is in progress therefore never waits, and leaves all
locks free: `Bracketed.handle` is one operation, `Bracketed.run` the whole call, and
`Session.solo` a whole session.
-/

namespace TgMessenger.MessageStore

open Asyncio

/-- Sections do not nest, and a task releases the lock it holds. -/
def Op.Legal (held : Option ℕ) : Op → Prop
  | .lockPeer _ => held = none
  | .release lock => held = some lock
  | _ => True

/-- The section a task is in after an operation. -/
def Op.after (held : Option ℕ) : (o : Op) → Except String (effects.Ret o) → Option ℕ
  | .lockPeer _, .ok lock => some lock
  | .lockPeer _, .error _ => held
  | .release _, _ => none
  | _, _ => held

/-- Whether an operation is about locks. -/
def Op.usesLock : Op → Bool
  | .lockPeer _ | .release _ => true
  | _ => false

/-- The use of locks as a protocol, whose state is the lock a task holds. -/
def lockProtocol : Protocol effects (Option ℕ) := ⟨Op.Legal, Op.after⟩

/-- The program uses the locks in a disciplined way, from `held` to `held'`. -/
abbrev Bracketed {α : Type} (held held' : Option ℕ) (p : StoreProg α) : Prop :=
  p.Follows lockProtocol (· = held') held

namespace Bracketed

variable {α β : Type} {held : Option ℕ}

theorem ret (a : α) : Bracketed held held (.ret a) := rfl

theorem bind {p : StoreProg α} {f : α → StoreProg β} (hp : Bracketed held held p)
    (hf : ∀ a, Bracketed held held (f a)) : Bracketed held held (p >>= f) :=
  Prog.Follows.bind hp (fun a _ hj ↦ hj ▸ hf a) fun _ hj ↦ hj

/-- An operation that is not about locks. -/
theorem perform {o : Op} (h : o.usesLock = false) : Bracketed held held (perform o) := by
  cases o with
  | lockPeer peer => cases h
  | release lock => cases h
  | _ => exact Prog.Follows.perform trivial fun _ ↦ rfl

theorem forEach {κ : Type} {f : κ → StoreProg Unit} (hf : ∀ i, Bracketed held held (f i))
    (is : List κ) : Bracketed held held (Prog.forEach f is) :=
  Prog.Follows.forEach (fun i _ _ hj ↦ hj ▸ hf i) rfl

/-- `async with self._peer_lock(peer)`. -/
theorem withPeerLock {peer : ℤ} {body : StoreProg α}
    (h : ∀ lock, Bracketed (some lock) (some lock) body) :
    Bracketed none none (withPeerLock peer body) := by
  refine ⟨rfl, ?_⟩
  rintro (e | lock)
  · rfl
  · exact (h lock).always fun _ hj ↦ Prog.Follows.perform hj fun _ ↦ rfl

/-! ## The calls of the store -/

theorem upsertMessage (m : Message) : Bracketed held held (upsertMessage m) := perform rfl

theorem replaceWindow (peer : ℤ) (fetched : List Message) (limit : ℕ) :
    Bracketed held held (replaceWindow peer fetched limit) :=
  Prog.Follows.ite (bind (perform rfl) fun _ ↦ bind (perform rfl) fun _ ↦ ret _)
    (bind (forEach upsertMessage _) fun _ ↦
      bind (perform rfl) fun _ ↦ bind (perform rfl) fun _ ↦ ret _)

theorem syncFullWindow (peer : ℤ) (limit : ℕ) :
    Bracketed held held (syncFullWindow peer limit) :=
  bind (perform rfl) fun _ ↦ bind (replaceWindow ..) fun _ ↦ perform rfl

theorem syncHistory (peer : ℤ) (limit : ℕ) (row : Option (ℤ × ℤ)) :
    Bracketed held held (syncHistory peer limit row) :=
  bind (perform rfl) fun _ ↦
    Prog.Follows.ite
      (Prog.Follows.ite (bind (replaceWindow ..) fun _ ↦ perform rfl) (syncFullWindow ..))
      (Prog.Follows.ite (bind (replaceWindow ..) fun _ ↦ perform rfl) (syncFullWindow ..))

theorem historyBefore (peer : ℤ) (limit : ℕ) (offsetId : ℤ) :
    Bracketed held held (historyBefore peer limit offsetId) := by
  refine bind (perform rfl) fun row ↦ ?_
  cases row with
  | none => exact bind (perform rfl) fun _ ↦ bind (forEach upsertMessage _) fun _ ↦ ret _
  | some row =>
    refine Prog.Follows.ite (bind (perform rfl) fun _ ↦ Prog.Follows.ite (ret _) ?_)
      (bind (perform rfl) fun _ ↦ bind (forEach upsertMessage _) fun _ ↦ ret _)
    exact bind (perform rfl) fun _ ↦ bind (forEach upsertMessage _) fun _ ↦
      Prog.Follows.ite (bind (perform rfl) fun _ ↦ ret _) (ret _)

theorem syncWindow (peer : ℤ) (limit : ℕ) : Bracketed held held (syncWindow peer limit) := by
  refine bind (perform rfl) fun row ↦ bind ?_ fun row' ↦
    Prog.Follows.ite (syncHistory ..)
      (bind (perform rfl) fun _ ↦ Prog.Follows.ite (syncHistory ..) (ret ()))
  cases row with
  | none => exact ret none
  | some row =>
    refine Prog.Follows.ite (bind (perform rfl) fun _ ↦ ?_) (ret _)
    exact Prog.Follows.ite (bind (syncFullWindow ..) fun _ ↦ perform rfl) (ret _)

theorem loadWindow (peer : ℤ) (limit : ℕ) : Bracketed held held (loadWindow peer limit) := by
  refine bind (perform rfl) fun row ↦ ?_
  cases row with
  | none => exact ret []
  | some row => exact perform rfl

theorem applyDeletion (event : MessagesDeletedEvent) :
    Bracketed held held (applyDeletion event) := by
  refine Prog.Follows.ite (ret ()) ?_
  cases event.chatId with
  | some chat => exact perform rfl
  | none =>
    exact bind (perform rfl) fun rows ↦
      forEach (fun row ↦ Prog.Follows.ite (ret ()) (perform rfl)) rows

/-- Every call of the store is bracketed. -/
theorem prog (call : Call) : Bracketed none none call.prog := by
  cases call with
  | history peer limit offsetId =>
    exact Prog.Follows.ite (withPeerLock fun _ ↦ historyBefore ..)
      (bind (withPeerLock fun _ ↦ syncWindow ..) fun _ ↦ loadWindow ..)
  | ingest m => exact bind (withPeerLock fun _ ↦ upsertMessage m) fun _ ↦ ret []
  | recordOutgoing d m text lang => exact bind (withPeerLock fun _ ↦ perform rfl) fun _ ↦ ret []
  | applyDeletion event => exact bind (applyDeletion event) fun _ ↦ ret []

end Bracketed

/-! ## A call alone -/

/-- Nobody but task `t` uses a lock, and `t` is inside the section of `held`. -/
structure Alone (t : ℕ) (held : Option ℕ) (w : World) : Prop where
  locks_eq : ∀ lock, w.peers.locks lock = if held = some lock then ⟨true, []⟩ else .free
  others : ∀ u, u ≠ t → w.place u = .outside
  here : held = none → w.place t = .outside

namespace Alone

variable {t : ℕ} {held : Option ℕ} {w : World}

theorem congr {w' : World} (h : Alone t held w) (hlocks : w'.peers.locks = w.peers.locks)
    (hplace : w'.place = w.place) : Alone t held w' :=
  ⟨by rw [hlocks]; exact h.locks_eq, by rw [hplace]; exact h.others,
    by rw [hplace]; exact h.here⟩

theorem init (t : ℕ) (s : Server) : Alone t none (.init s) :=
  ⟨fun _ ↦ rfl, fun _ _ ↦ rfl, fun _ ↦ rfl⟩

/-- It does not matter who is alone outside. -/
theorem change (h : Alone t none w) (u : ℕ) : Alone u none w := by
  have hall (v : ℕ) : w.place v = .outside := by
    by_cases hv : v = t
    · rw [hv]
      exact h.here rfl
    · exact h.others v hv
  exact ⟨h.locks_eq, fun v _ ↦ hall v, fun _ ↦ hall u⟩

/-- The task enters a section without waiting. -/
theorem lockPeer (h : Alone t none w) (cfg : Setup) (peer : ℤ) :
    ∃ lock w', w.lockPeer cfg t peer = .done (.ok lock) w' ∧ Alone t (some lock) w' := by
  have hheap (lock : ℕ) : (w.peers.peerLock cfg.clock peer).2.locks lock = .free := by
    have hfree : w.peers.locks = fun _ ↦ .free := funext h.locks_eq
    rw [PeerState.peerLock, PeerState.locks_evictIdlePeerState, PeerState.touchLock]
    cases w.peers.syncLocks.get? peer with
    | some _ => exact congrFun hfree lock
    | none =>
      dsimp only
      rw [hfree, Function.update_eq_self_iff.mpr rfl]
  refine ⟨_, _, World.lockPeer_free (h.here rfl) fun lock _ ↦ h.locks_eq lock, fun lock ↦ ?_,
    fun u hu ↦ ?_, fun hnone ↦ by cases hnone⟩
  · dsimp only
    by_cases hlock : lock = (w.peers.peerLock cfg.clock peer).1
    · rw [hlock, Function.update_self, if_pos rfl]
    · rw [Function.update_of_ne hlock, hheap, if_neg fun hs ↦ hlock (Option.some.inj hs).symm]
  · exact (Function.update_of_ne hu ..).trans (h.others u hu)

/-- The task leaves its section. -/
theorem release {lock : ℕ} (h : Alone t (some lock) w) : Alone t none (w.release t lock) := by
  refine ⟨fun l ↦ ?_, fun u hu ↦ ?_, fun _ ↦ Function.update_self ..⟩
  · rw [World.release, if_neg (nomatch ·)]
    by_cases hl : l = lock
    · simp only [hl, Function.update_self, h.locks_eq, if_true]
      rfl
    · simp only [Function.update_of_ne hl, h.locks_eq,
        if_neg fun hs ↦ hl (Option.some.inj hs).symm]
  · exact (Function.update_of_ne hu ..).trans (h.others u hu)

/-- No operation of a disciplined task has to wait. -/
theorem handle (h : Alone t held w) (cfg : Setup) {o : Op} (ho : o.Legal held) :
    ∃ x w', MessageStore.handle cfg t o w = .done x w' ∧ Alone t (o.after held x) w' := by
  cases o with
  | lockPeer peer =>
    obtain rfl : held = none := ho
    obtain ⟨lock, w', hw', h'⟩ := h.lockPeer cfg peer
    exact ⟨_, w', hw', h'⟩
  | release lock =>
    obtain rfl : held = some lock := ho
    exact ⟨_, _, rfl, h.release⟩
  | historySince peer minId limit =>
    obtain ⟨x, hx, -⟩ := w.request_eq cfg (.since peer minId limit)
      (w.server.historySince peer minId limit)
    exact ⟨x, _, hx, h.congr rfl rfl⟩
  | clientHistory peer limit offsetId =>
    obtain ⟨x, hx, -⟩ := w.request_eq cfg (.before peer limit offsetId)
      (w.server.history peer limit offsetId)
    exact ⟨x, _, hx, h.congr rfl rfl⟩
  | syncStale peer => exact ⟨_, _, rfl, h.congr (PeerState.locks_syncStale ..) rfl⟩
  | rememberSync peer => exact ⟨_, _, rfl, h.congr (PeerState.locks_rememberSync ..) rfl⟩
  | _ => exact ⟨_, _, rfl, h.congr rfl rfl⟩

end Alone

/-- A disciplined program that runs alone ends, with all locks free again. -/
theorem Bracketed.run {α : Type} {held : Option ℕ} {p : StoreProg α}
    (hp : Bracketed held none p) (cfg : Setup) {t : ℕ} {w : World} (hw : Alone t held w) :
    ∃ x w', p.run (system cfg) t w = some (x, w') ∧ Alone t none w' := by
  induction p generalizing held w with
  | ret a =>
    obtain rfl : held = none := hp
    exact ⟨_, w, rfl, hw⟩
  | raise e =>
    obtain rfl : held = none := hp
    exact ⟨_, w, rfl, hw⟩
  | op o k ih =>
    obtain ⟨x, w', hr, hw'⟩ := hw.handle cfg hp.1
    rw [Prog.run_op_done (system cfg) t hr]
    exact ih x (hp.2 x) hw'

/-! ## Sessions -/

/-- At most one task is running, and it is alone. -/
def Solo (c : StoreConfig) : Prop :=
  ∃ t held, (∀ u, u ≠ t → c.Ended u) ∧ Bracketed held none (c.task t) ∧ Alone t held c.shared

/-- When every task has ended, nobody uses a lock. -/
theorem Solo.alone {c : StoreConfig} (h : Solo c) (hended : ∀ u, c.Ended u) (t : ℕ) :
    Alone t none c.shared := by
  obtain ⟨u, held, -, hb, ha⟩ := h
  have hheld : held = none := by
    rcases hended u with ⟨a, hu⟩ | ⟨e, hu⟩ <;> rw [hu] at hb <;> exact hb
  exact (hheld ▸ ha).change t

theorem Solo.step {cfg : Setup} {c c' : StoreConfig} {m : Move ℕ ServerEvent} (h : Solo c)
    (hs : c.step (system cfg) m = some c') : Solo c' := by
  obtain ⟨t, held, hended, hb, ha⟩ := h
  have hrun {u : ℕ} {o : Op} {k : Except String (effects.Ret o) → StoreProg (List Message)}
      (hp : c.task u = .op o k) :
      u = t ∧ o.Legal held ∧ ∀ x, Bracketed (o.after held x) none (k x) := by
    have hu : u = t := by
      by_contra hu
      rcases hended u hu with ⟨a, he⟩ | ⟨e, he⟩ <;> rw [hp] at he <;> cases he
    subst hu
    rw [hp] at hb
    exact ⟨rfl, hb⟩
  rcases Config.step_cases hs with ⟨u, o, k, x, s, -, hp, hr, rfl⟩ |
    ⟨u, o, k, s, -, hp, hr, rfl⟩ | ⟨e, s, -, henv, rfl⟩
  · obtain ⟨rfl, hlegal, hk⟩ := hrun hp
    obtain ⟨x', w', hr', ha'⟩ := ha.handle cfg hlegal
    obtain ⟨rfl, rfl⟩ := Reply.done.inj (hr.symm.trans hr')
    refine ⟨u, _, fun v hv ↦ (hended v hv).of_task_eq (Function.update_of_ne hv ..), ?_, ha'⟩
    simp only [Function.update_self]
    exact hk x
  · obtain ⟨rfl, hlegal, -⟩ := hrun hp
    obtain ⟨x', w', hr', -⟩ := ha.handle cfg hlegal
    cases hr.symm.trans hr'
  · obtain ⟨server, -, rfl⟩ := Option.map_eq_some_iff.mp henv
    exact ⟨t, held, hended, hb, ha.congr rfl rfl⟩

theorem Session.solo {cfg : Setup} {c : StoreConfig} (h : Session cfg c) : Solo c := by
  induction h with
  | init s => exact ⟨0, none, fun u _ ↦ .inl ⟨[], rfl⟩, .ret [], .init 0 s⟩
  | @call c t call _ hended _ ih =>
    refine ⟨t, none, fun u hu ↦ (hended u).of_task_eq (Function.update_of_ne hu ..), ?_,
      ih.alone hended t⟩
    simp only [Function.update_self]
    exact .prog call
  | step m _ hs ih => exact ih.step hs

end TgMessenger.MessageStore
