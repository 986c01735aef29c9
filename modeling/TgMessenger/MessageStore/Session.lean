import TgMessenger.Asyncio.Outline
import TgMessenger.MessageStore.World

/-!
# Sessions and the windows of their dialogs

A `Session` is a run of a store whose calls follow one another, in any order and for any
dialogs, while the server moves between any two operations.  `Covered` is the invariant
of the sync rows: whatever the server still has between the low and the high id of a
window has a row.

`Keeps` is the proof outline logic of `TgMessenger.Asyncio.Outline` with this invariant
built into every assertion, so that an outline only says what a program knows beside it.
What a program knows about the server must survive the moves of the server; facts of the
form `Server.Complete` do, because a dialog never gets a message below its largest id.
-/

namespace TgMessenger.MessageStore

open Asyncio

/-! ## Sessions -/

/-- Message `id`, of a dialog that is neither channel nor supergroup, was deleted. -/
def Server.DirectDeleted (s : Server) (id : ℤ) : Prop :=
  id ∈ s.direct ∧ ∀ d, isChannelOrMegagroupId d = false → ∀ m ∈ s.live d, m.id ≠ id

/-- What the callers of a store promise: a page has at least one message, and a deletion
event reports messages that are deleted. -/
def Call.Allowed (s : Server) : Call → Prop
  | .history _ limit _ => 1 ≤ limit
  | .ingest _ => True
  | .recordOutgoing .. => True
  | .applyDeletion event =>
    match event.chatId with
    | some chat => ∀ id ∈ event.messageIds, s.Deleted chat id
    | none => ∀ id ∈ event.messageIds, s.DirectDeleted id

/-- The configurations of a store whose calls follow one another. -/
inductive Session (cfg : Setup) : StoreConfig → Prop
  | /-- A new store in front of some server. -/
    init (s : Server) : Session cfg ⟨.init s, fun _ ↦ .ret []⟩
  | /-- A call starts once all earlier ones have ended. -/
    call {c : StoreConfig} (t : ℕ) (call : Call) (h : Session cfg c) (hended : ∀ u, c.Ended u)
      (hallowed : call.Allowed c.shared.server) :
      Session cfg { c with task := Function.update c.task t call.prog }
  | /-- The call in progress or the server moves. -/
    step {c c' : StoreConfig} (m : Move ℕ ServerEvent) (h : Session cfg c)
      (hstep : c.step (system cfg) m = some c') : Session cfg c'

/-- A session goes on through every schedule that can be executed. -/
theorem Session.exec {cfg : Setup} {c c' : StoreConfig} (h : Session cfg c)
    {ms : List (Move ℕ ServerEvent)} (hms : c.exec (system cfg) ms = some c') :
    Session cfg c' := by
  induction ms generalizing c with
  | nil =>
    obtain rfl := Option.some.inj hms
    exact h
  | cons m ms ih =>
    obtain ⟨c₁, hs, hms⟩ := Option.bind_eq_some_iff.mp hms
    exact ih (.step m h hs) hms

/-- A call that runs alone to its end is part of a session, and leaves every task ended. -/
theorem Session.run {cfg : Setup} {c : StoreConfig} (h : Session cfg c)
    (hended : ∀ u, c.Ended u) (call : Call) (hallowed : call.Allowed c.shared.server) {t : ℕ}
    {x : Except String (List Message)} {w : World}
    (hrun : call.prog.run (system cfg) t c.shared = some (x, w)) :
    ∃ c', Session cfg c' ∧ c'.shared = w ∧ ∀ u, c'.Ended u := by
  have hcall := h.call t call hended hallowed
  obtain ⟨n, hn⟩ := Config.exec_of_run (S := system cfg) (t := t) (x := x) (s := w)
    (c := { c with task := Function.update c.task t call.prog })
    (by simp only [Function.update_self]; exact hrun)
  refine ⟨_, hcall.exec hn, rfl, fun u ↦ ?_⟩
  by_cases hu : u = t
  · subst hu
    cases x with
    | ok a => exact .inl ⟨a, Function.update_self ..⟩
    | error e => exact .inr ⟨e, Function.update_self ..⟩
  · refine (hended u).of_task_eq ?_
    simp only [Function.update_of_ne hu]

/-! ## Facts about the server that last -/

/-- Every message a dialog has between two ids satisfies `p`, now and later: the range
ends below the ids still to be given out. -/
structure Server.Complete (s : Server) (peer low high : ℤ) (p : ℤ → Prop) : Prop where
  high_le : high ≤ max (s.top peer) 0
  holds : ∀ m ∈ s.live peer, low ≤ m.id → m.id ≤ high → p m.id

namespace Server

variable {s s' : Server} {peer low high : ℤ} {p q : ℤ → Prop}

theorem Complete.mono (h : s.Complete peer low high p) (hpq : ∀ id, p id → q id) :
    s.Complete peer low high q := ⟨h.high_le, fun m hm hl hh ↦ hpq _ (h.holds m hm hl hh)⟩

/-- Two ranges that touch. -/
theorem Complete.union {mid : ℤ} (h : s.Complete peer low (mid - 1) p)
    (h' : s.Complete peer mid high p) : s.Complete peer low high p := by
  refine ⟨h'.high_le, fun m hm hl hh ↦ ?_⟩
  rcases lt_or_ge m.id mid with hlt | hge
  · exact h.holds m hm hl (by omega)
  · exact h'.holds m hm hge hh

theorem Complete.narrow {low' high' : ℤ} (h : s.Complete peer low high p) (hl : low ≤ low')
    (hh : high' ≤ high) : s.Complete peer low' high' p :=
  ⟨hh.trans h.high_le, fun m hm hl' hh' ↦ h.holds m hm (hl.trans hl') (hh'.trans hh)⟩

theorem Complete.apply {e : ServerEvent} (h : s.Complete peer low high p)
    (he : s.apply e = some s') : s'.Complete peer low high p := by
  refine ⟨h.high_le.trans (max_le_max_right 0 (top_le_apply he peer)), fun m hm hl hh ↦ ?_⟩
  rcases mem_live_apply he hm with hm | ⟨hf, rfl⟩
  · exact h.holds m hm hl hh
  · have hle := h.high_le
    have hpos := hf.1
    have htop := hf.2.1
    exfalso
    rcases le_max_iff.mp hle with hle | hle <;> omega

theorem DirectDeleted.apply {e : ServerEvent} {id : ℤ} (h : s.DirectDeleted id)
    (he : s.apply e = some s') : s'.DirectDeleted id := by
  refine ⟨direct_subset_apply he h.1, fun d hd m hm ↦ ?_⟩
  rcases mem_live_apply he hm with hm | ⟨hf, rfl⟩
  · exact h.2 d hd m hm
  · exact fun hid ↦ hf.2.2 hd (hid ▸ h.1)

end Server

/-! ## The invariant -/

/-- No window has a hole, and none begins below zero. -/
def Covered (w : World) : Prop :=
  ∀ peer low high, w.db.sync peer = some (low, high) →
    0 ≤ low ∧ w.server.Complete peer low high (w.db.Has peer)

/-- The moves of the server. -/
def ServerMoves (w w' : World) : Prop :=
  ∃ e s, w.server.apply e = some s ∧ w' = { w with server := s }

theorem serverMoves_of_env {cfg : Setup} {e : ServerEvent} {w w' : World}
    (h : (system cfg).env e w = some w') : ServerMoves w w' := by
  obtain ⟨s, hs, rfl⟩ := Option.map_eq_some_iff.mp h
  exact ⟨e, s, hs, rfl⟩

/-- A statement about the database alone survives the moves of the server. -/
theorem stable_db (p : Db → Prop) : Stable ServerMoves fun w ↦ p w.db := by
  rintro w w' h ⟨e, s, -, rfl⟩
  exact h

theorem stable_complete (peer low high : ℤ) (p : ℤ → Prop) :
    Stable ServerMoves fun w ↦ w.server.Complete peer low high p := by
  rintro w w' h ⟨e, s, hs, rfl⟩
  exact h.apply hs

theorem stable_covered : Stable ServerMoves Covered := by
  rintro w w' h ⟨e, s, hs, rfl⟩ peer low high hrow
  exact (h peer low high hrow).imp_right fun hc ↦ hc.apply hs

namespace Covered

variable {w : World}

theorem congr {w' : World} (h : Covered w) (hs : SameData w w') : Covered w' := by
  obtain ⟨hdb, hserver, -⟩ := hs
  rw [Covered, hdb, hserver]
  exact h

/-- A statement that keeps the sync rows and every row of a message the server has. -/
theorem onDb {f : Db → Db} (h : Covered w) (hsync : (f w.db).sync = w.db.sync)
    (hrow : ∀ d, ∀ m ∈ w.server.live d, w.db.Has d m.id → (f w.db).Has d m.id) :
    Covered (w.onDb f) := by
  intro peer low high hwin
  rw [World.db_onDb, hsync] at hwin
  obtain ⟨hlow, hc⟩ := h peer low high hwin
  exact ⟨hlow, hc.high_le, fun m hm hl hh ↦ hrow peer m hm (hc.holds m hm hl hh)⟩

theorem upsert (h : Covered w) (m : Message) (tt tl : Option String) (pt : Bool) :
    Covered (w.onDb (.upsertMessage m tt tl pt)) :=
  h.onDb rfl fun _ _ _ hrow ↦ (Db.has_upsertMessage ..).mpr (.inr hrow)

/-- Deleting the rows of a dialog whose window covers no message. -/
theorem deleteDialog {peer : ℤ} (h : Covered w)
    (hempty : ∀ low high, w.db.sync peer = some (low, high) →
      w.server.Complete peer low high fun _ ↦ False) :
    Covered (w.onDb (.deleteDialog peer)) := by
  intro d low high hrow
  rw [World.db_onDb, Db.sync_deleteDialog] at hrow
  by_cases hd : d = peer
  · subst hd
    exact ⟨(h d low high hrow).1, (hempty low high hrow).mono fun _ hf ↦ hf.elim⟩
  · exact (h d low high hrow).imp_right fun hc ↦ hc.mono fun id hid ↦
      (Db.has_deleteDialog ..).mpr ⟨hid, hd⟩

/-- Pruning a range down to ids that are all the server has there. -/
theorem pruneWindow {peer low high : ℤ} {ids : List ℤ} (h : Covered w)
    (hids : w.server.Complete peer low high (· ∈ ids)) :
    Covered (w.onDb (.pruneWindow peer low high ids)) := by
  refine h.onDb rfl fun d m hm hrow ↦ (Db.has_pruneWindow ..).mpr ⟨hrow, ?_⟩
  rintro ⟨rfl, hl, hh, hid⟩
  exact hid (hids.holds m hm hl hh)

/-- A new window without a hole. -/
theorem setSyncRow {peer low high : ℤ} (h : Covered w) (hlow : 0 ≤ low)
    (hwin : w.server.Complete peer low high (w.db.Has peer)) :
    Covered (w.onDb (.setSyncRow peer low high)) := by
  intro p l hi hrow
  by_cases hp : p = peer
  · subst hp
    rw [World.db_onDb, Db.sync_setSyncRow_self, Option.some.injEq, Prod.mk.injEq] at hrow
    obtain ⟨rfl, rfl⟩ := hrow
    exact ⟨hlow, hwin⟩
  · rw [World.db_onDb, Db.sync_setSyncRow_ne _ _ _ hp] at hrow
    exact h p l hi hrow

end Covered

/-! ## The logic -/

/-- The program keeps the invariant and leads from `P` to `R`. -/
def Keeps (cfg : Setup) (t : ℕ) {α : Type} (p : StoreProg α) (P : World → Prop)
    (R : α → World → Prop) : Prop :=
  Outline (system cfg) t (fun _ ↦ ServerMoves) (fun _ _ ↦ Covered) p (fun w ↦ Covered w ∧ P w)
    (onResult (fun a w ↦ Covered w ∧ R a w) fun _ ↦ Covered)

namespace Keeps

variable {cfg : Setup} {t : ℕ} {α β : Type} {P P' : World → Prop}

theorem pre {p : StoreProg α} {R : α → World → Prop} (h : Keeps cfg t p P R)
    (hP : ∀ w, Covered w → P' w → P w) : Keeps cfg t p P' R :=
  Outline.pre h fun w hw ↦ ⟨hw.1, hP w hw.1 hw.2⟩

theorem post {p : StoreProg α} {R R' : α → World → Prop} (h : Keeps cfg t p P R)
    (hR : ∀ a w, Covered w → R a w → R' a w) : Keeps cfg t p P R' := by
  refine Outline.post h ?_
  rintro (e | a) w hw
  · exact hw
  · exact ⟨hw.1, hR a w hw.1 hw.2⟩

theorem assuming {p : StoreProg α} {φ : Prop} {R : α → World → Prop} (hφ : ∀ w, P w → φ)
    (h : φ → Keeps cfg t p P R) : Keeps cfg t p P R :=
  Outline.assuming (fun w hw ↦ hφ w hw.2) h

theorem ret {a : α} {R : α → World → Prop} (hP : Stable ServerMoves P)
    (h : ∀ w, Covered w → P w → R a w) : Keeps cfg t (.ret a) P R :=
  Outline.ret (stable_covered.and hP) fun w hw ↦ ⟨hw.1, h w hw.1 hw.2⟩

theorem ite {c : Prop} [Decidable c] {p q : StoreProg α} {R : α → World → Prop}
    (hp : c → Keeps cfg t p P R) (hq : ¬c → Keeps cfg t q P R) :
    Keeps cfg t (if c then p else q) P R := by
  split_ifs with hc
  · exact hp hc
  · exact hq hc

theorem bind {p : StoreProg α} {f : α → StoreProg β} {R : α → World → Prop}
    {Q : β → World → Prop} (hp : Keeps cfg t p P R) (hf : ∀ a, Keeps cfg t (f a) (R a) Q) :
    Keeps cfg t (p >>= f) P Q := Outline.seq hp hf

theorem forEach {κ : Type} {f : κ → StoreProg Unit} {P : List κ → World → Prop}
    (hst : Stable ServerMoves (P [])) (hf : ∀ i is, Keeps cfg t (f i) (P (i :: is)) fun _ ↦ P is)
    (is : List κ) : Keeps cfg t (Prog.forEach f is) (P is) fun _ ↦ P [] :=
  Outline.forEach (P := fun is w ↦ Covered w ∧ P is w) (stable_covered.and hst) hf is

/-- One operation. -/
theorem perform {o : Op} {R : effects.Ret o → World → Prop} (hP : Stable ServerMoves P)
    (hR : ∀ r, Stable ServerMoves (R r))
    (hpark : ∀ w w', Covered w → P w → handle cfg t o w = .parked w' → Covered w' ∧ P w')
    (hdone : ∀ w x w', Covered w → P w → handle cfg t o w = .done x w' →
      Covered w' ∧ ∀ r, x = .ok r → R r w') : Keeps cfg t (perform o) P R := by
  refine Outline.perform (stable_covered.and hP) ?_ ?_ ?_
  · rintro (e | r)
    · exact stable_covered
    · exact stable_covered.and (hR r)
  · intro w w' hw hr
    have h := hpark w w' hw.1 hw.2 hr
    exact ⟨h.1, h⟩
  · rintro w (e | r) w' hw hr
    · have h := (hdone w _ w' hw.1 hw.2 hr).1
      exact ⟨h, h⟩
    · obtain ⟨hc, hR⟩ := hdone w _ w' hw.1 hw.2 hr
      exact ⟨hc, hc, hR r rfl⟩

/-- An operation that always returns. -/
theorem statement {o : Op} {R : effects.Ret o → World → Prop} (result : World → effects.Ret o)
    (effect : World → World) (hh : ∀ w, handle cfg t o w = .done (.ok (result w)) (effect w))
    (hP : Stable ServerMoves P) (hR : ∀ r, Stable ServerMoves (R r))
    (h : ∀ w, Covered w → P w → Covered (effect w) ∧ R (result w) (effect w)) :
    Keeps cfg t (MessageStore.perform o) P R := by
  refine perform hP hR ?_ ?_
  · intro w w' _ _ hr
    rw [hh] at hr
    cases hr
  · intro w x w' hc hw hr
    rw [hh] at hr
    obtain ⟨rfl, rfl⟩ := Reply.done.inj hr
    refine ⟨(h w hc hw).1, fun r hr ↦ ?_⟩
    obtain rfl := Except.ok.inj hr
    exact (h w hc hw).2

/-- A statement that returns nothing. -/
theorem update {o : Op} {R : effects.Ret o → World → Prop} (f : Db → Db) (r : effects.Ret o)
    (hh : ∀ w, handle cfg t o w = .done (.ok r) (w.onDb f))
    (hP : Stable ServerMoves P) (hR : ∀ r, Stable ServerMoves (R r))
    (h : ∀ w, Covered w → P w → Covered (w.onDb f) ∧ R r (w.onDb f)) :
    Keeps cfg t (MessageStore.perform o) P R := statement (fun _ ↦ r) _ hh hP hR h

/-- A statement that reads. -/
theorem query {o : Op} {R : effects.Ret o → World → Prop} (result : World → effects.Ret o)
    (hh : ∀ w, handle cfg t o w = .done (.ok (result w)) w)
    (hP : Stable ServerMoves P) (hR : ∀ r, Stable ServerMoves (R r))
    (h : ∀ w, Covered w → P w → R (result w) w) : Keeps cfg t (MessageStore.perform o) P R :=
  statement result id hh hP hR fun w hc hw ↦ ⟨hc, h w hc hw⟩

/-- A request to the client, with the page it is answered with when it does not raise. -/
theorem request {o : Op} {R : effects.Ret o → World → Prop} (page : World → effects.Ret o)
    (hh : ∀ w, ∃ r x, handle cfg t o w = .done x { w with requests := r :: w.requests } ∧
      ∀ p, x = .ok p → p = page w)
    (hP : Stable ServerMoves P) (hR : ∀ p, Stable ServerMoves (R p))
    (h : ∀ w rs, Covered w → P w → R (page w) { w with requests := rs }) :
    Keeps cfg t (MessageStore.perform o) P R := by
  refine perform hP hR ?_ ?_
  · intro w w' _ _ hr
    obtain ⟨r, x, hx, -⟩ := hh w
    cases hx.symm.trans hr
  · intro w x w' hc hw hr
    obtain ⟨r, x', hx, hpage⟩ := hh w
    obtain ⟨rfl, rfl⟩ := Reply.done.inj (hx.symm.trans hr)
    refine ⟨hc, fun p hp ↦ ?_⟩
    rw [hpage p hp]
    exact h w _ hc hw

end Keeps

/-- The program keeps the invariant, whatever else holds. -/
abbrev Preserves (cfg : Setup) (t : ℕ) {α : Type} (p : StoreProg α) : Prop :=
  Keeps cfg t p (fun _ ↦ True) fun _ _ ↦ True

namespace Preserves

variable {cfg : Setup} {t : ℕ} {α β : Type}

theorem ret (a : α) : Preserves cfg t (.ret a) := Keeps.ret (.true _) fun _ _ _ ↦ trivial

theorem bind {p : StoreProg α} {f : α → StoreProg β} (hp : Preserves cfg t p)
    (hf : ∀ a, Preserves cfg t (f a)) : Preserves cfg t (p >>= f) := Keeps.bind hp hf

/-- An operation on the in-memory state. -/
theorem sameData {o : Op}
    (hpark : ∀ w w', handle cfg t o w = .parked w' → SameData w w')
    (hdone : ∀ w x w', handle cfg t o w = .done x w' → SameData w w') :
    Preserves cfg t (perform o) :=
  Keeps.perform (.true _) (fun _ ↦ .true _)
    (fun w w' hc _ hr ↦ ⟨hc.congr (hpark w w' hr), trivial⟩)
    fun w x w' hc _ hr ↦ ⟨hc.congr (hdone w x w' hr), fun _ _ ↦ trivial⟩

/-- A statement that reads, when nothing has to be known about the answer. -/
theorem query {o : Op} (result : World → effects.Ret o)
    (hh : ∀ w, handle cfg t o w = .done (.ok (result w)) w) : Preserves cfg t (perform o) :=
  Keeps.query result hh (.true _) (fun _ ↦ .true _) fun _ _ _ ↦ trivial

/-- `async with self._peer_lock(peer)`. -/
theorem withPeerLock {peer : ℤ} {body : StoreProg α} (h : Preserves cfg t body) :
    Preserves cfg t (MessageStore.withPeerLock peer body) := by
  refine bind (sameData (fun w w' hr ↦ World.lockPeer_parked hr)
    fun w x w' hr ↦ (World.lockPeer_done hr).2) fun lock ↦ ?_
  have hrelease : Preserves cfg t (perform (.release lock)) := by
    refine sameData (fun _ _ hr ↦ nomatch hr) fun w x w' hr ↦ ?_
    obtain ⟨-, rfl⟩ := Reply.done.inj hr
    exact ⟨rfl, rfl, rfl⟩
  refine Outline.always h (fun x ↦ ?_) fun x ↦ ?_
  · refine Outline.conseq hrelease (fun w hw ↦ ?_) ?_
    · cases x with
      | ok a => exact hw
      | error e => exact ⟨hw, trivial⟩
    · rintro (e | r) w hw
      · exact hw
      · cases x with
        | ok a => exact hw
        | error e => exact hw.1
  · cases x with
    | ok a => exact stable_covered.and (.true _)
    | error e => exact stable_covered

end Preserves

end TgMessenger.MessageStore
