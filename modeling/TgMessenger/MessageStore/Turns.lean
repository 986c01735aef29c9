import TgMessenger.Asyncio.Loop
import TgMessenger.MessageStore.Readers

/-!
# Concurrent reads in one process

`history` reads its window after it has left its section, so that another call may sync in
between.  In one process it does not: nothing is awaited between the release of the lock and the
statement that reads the sync row, and every statement goes through the lock of the storage, first
come first served.  So whoever enters the section next has its first statement behind that one.

`Read` is where a call stands, `Queued` is the invariant that says this of the queue, and
`reads_independent` is what follows for the interleavings of an event loop.
-/

namespace TgMessenger.MessageStore

open Asyncio

/-- What an operation waits for.  A statement waits for the lock of the storage; the release of a
lock and the steps on the in-memory state belong to the turn that reaches them. -/
def Op.wait : Op → Wait
  | .historySince .. => .reply
  | .clientHistory .. => .reply
  | .lockPeer _ => .reply
  | .release _ => .nothing
  | .syncStale _ => .nothing
  | .rememberSync _ => .nothing
  | _ => .queue

/-- The calls of a store on an event loop. -/
abbrev StoreLoop := Loop effects ℕ World (List Message)

/-- One operation of a call, under the rules of the event loop. -/
abbrev StoreLoop.step (cfg : Setup) : StoreLoop → Move ℕ ServerEvent → Option StoreLoop :=
  Loop.step (system cfg) Op.wait

/-- The server stands still. -/
def Still (_ : StoreLoop) (m : Move ℕ ServerEvent) : Prop := ∀ e, m ≠ .env e

/-! ## Where a call stands -/

/-- A call of `history` is in front of its section, inside it, about to read the sync row, about
to read the rows, or over. -/
inductive Read (peer : ℤ) (limit : ℕ) (q : Place) : StoreProg (List Message) → Prop
  | start : Read peer limit q (history peer limit 0)
  | inside (lock : ℕ) (body : StoreProg Unit) (hplace : q = .inside peer lock)
      (hbody : ∀ held, Bracketed held held body) :
      Read peer limit q
        (body.always (perform (.release lock)) >>= fun _ ↦ loadWindow peer limit)
  | loads : Read peer limit q (loadWindow peer limit)
  | selects (low high : ℤ) : Read peer limit q (perform (.loadWindow peer low high limit))
  | ended (p : StoreProg (List Message)) (hp : p.hasEnded = true) : Read peer limit q p

/-- A call that is about to read the sync row is outside of its section. -/
theorem not_inside_of_loads {peer p : ℤ} {limit lock : ℕ} :
    ¬Place.Fits (.inside p lock) (loadWindow peer limit) := by
  rw [loadWindow_eq]
  exact fun h ↦ nomatch h.2 (.ok none)

section Step

variable {cfg : Setup} {peer : ℤ} {limit : ℕ} {t : ℕ} {w w' : World} {o : Op}
  {k : Except String (effects.Ret o) → StoreProg (List Message)} {x : Except String (effects.Ret o)}

/-- One operation of a call.  It enters the section, with a statement to come; or it is inside
afterwards only if it was before, and about to read the sync row only if it was inside before. -/
theorem Read.step {p : StoreProg (List Message)} (h : Read peer limit (w.place t) p)
    (hp : p = .op o k) (honly : ∀ p lock, w.place t = .waiting p lock → p = peer)
    (hr : handle cfg t o w = .done x w') :
    Read peer limit (w'.place t) (k x) ∧
      ((∃ lock, w'.place t = .inside peer lock ∧ (k x).wait? Op.wait = some .queue) ∨
        (∀ lock, w'.place t = .inside peer lock → w.place t = .inside peer lock) ∧
          (k x = loadWindow peer limit → ∃ lock, w.place t = .inside peer lock)) := by
  cases h with
  | start =>
    rw [history_eq] at hp
    obtain ⟨rfl, hk⟩ := Prog.op.inj hp
    obtain rfl := eq_of_heq hk
    obtain ⟨p, lock, hpeer, rfl, hplace⟩ := World.place_lockPeer_done hr
    obtain rfl : p = peer := hpeer.elim id (honly p lock)
    have hinside : w'.place t = .inside p lock := by rw [hplace, Function.update_self]
    exact ⟨.inside lock (syncWindow p limit) hinside fun _ ↦ .syncWindow p limit,
      .inl ⟨lock, hinside, rfl⟩⟩
  | inside lock body hplace hbody =>
    cases body with
    | ret a =>
      obtain ⟨rfl, hk⟩ := Prog.op.inj hp
      obtain rfl := eq_of_heq hk
      obtain ⟨rfl, rfl⟩ := Reply.done.inj hr
      refine ⟨.loads, .inr ⟨fun lock' hlock' ↦ ?_, fun _ ↦ ⟨lock, hplace⟩⟩⟩
      cases (Function.update_self ..).symm.trans hlock'
    | raise e =>
      obtain ⟨rfl, hk⟩ := Prog.op.inj hp
      obtain rfl := eq_of_heq hk
      obtain ⟨rfl, rfl⟩ := Reply.done.inj hr
      refine ⟨.ended _ rfl, .inr ⟨fun lock' hlock' ↦ ?_, fun _ ↦ ⟨lock, hplace⟩⟩⟩
      cases (Function.update_self ..).symm.trans hlock'
    | op o' k' =>
      obtain ⟨rfl, hk⟩ := Prog.op.inj hp
      obtain rfl := eq_of_heq hk
      have hstays : o'.StaysInPlace ∧ ∀ held y, o'.after held y = held := by
        cases o' with
        | lockPeer p => exact nomatch (hbody (some lock)).1
        | release l => exact nomatch (hbody none).1
        | _ => exact ⟨trivial, fun _ _ ↦ rfl⟩
      obtain ⟨hstays, hafter⟩ := hstays
      obtain ⟨hsame, -⟩ := handle_stays hstays hr
      refine ⟨.inside lock (k' x) (hsame ▸ hplace) fun held ↦ ?_,
        .inr ⟨fun _ hlock ↦ hsame ▸ hlock, fun _ ↦ ⟨lock, hplace⟩⟩⟩
      have hrest : Bracketed (o'.after held x) held (k' x) := (hbody held).2 x
      rwa [hafter] at hrest
  | loads =>
    rw [loadWindow_eq] at hp
    obtain ⟨rfl, hk⟩ := Prog.op.inj hp
    obtain rfl := eq_of_heq hk
    obtain ⟨rfl, rfl⟩ := Reply.done.inj hr
    rcases w.db.syncRow peer with _ | ⟨low, high⟩
    · exact ⟨.ended _ rfl, .inr ⟨fun _ hlock ↦ hlock, nofun⟩⟩
    · exact ⟨.selects low high, .inr ⟨fun _ hlock ↦ hlock, nofun⟩⟩
  | selects low high =>
    obtain ⟨rfl, hk⟩ := Prog.op.inj hp
    obtain rfl := eq_of_heq hk
    obtain ⟨rfl, rfl⟩ := Reply.done.inj hr
    exact ⟨.ended _ rfl, .inr ⟨fun _ hlock ↦ hlock, nofun⟩⟩
  | ended p hended =>
    rw [hp] at hended
    cases hended

/-- A call goes to sleep in front of its section only. -/
theorem Read.parked {p : StoreProg (List Message)} (h : Read peer limit (w.place t) p)
    (hp : p = .op o k) (hr : handle cfg t o w = .parked w') : p = history peer limit 0 := by
  obtain ⟨⟨p', rfl⟩, -⟩ := handle_parked hr
  cases h with
  | start => rfl
  | inside lock body hplace hbody =>
    cases body with
    | ret a => cases hp
    | raise e => cases hp
    | op o' k' =>
      obtain ⟨rfl, -⟩ := Prog.op.inj hp
      exact nomatch (hbody (some lock)).1
  | loads =>
    rw [loadWindow_eq] at hp
    cases hp
  | selects low high => cases hp
  | ended p hended =>
    rw [hp] at hended
    cases hended

end Step

/-! ## The queue -/

section Runs

variable {cfg : Setup} {s : Server} {peer : ℤ} {base : Db} {calls : Finset ℕ} {limit : ℕ → ℕ}
  {l l' : StoreLoop} {m : Move ℕ ServerEvent}

/-- Whoever is inside the section waits in the queue behind all calls that are about to read the
sync row. -/
structure Queued (cfg : Setup) (s : Server) (peer : ℤ) (base : Db) (calls : Finset ℕ)
    (limit : ℕ → ℕ) (l : StoreLoop) : Prop where
  reading : Reading cfg s peer base calls limit l.config
  orderly : l.Orderly Op.wait
  read : ∀ t, Read peer (limit t) (l.config.shared.place t) (l.config.task t)
  behind : ∀ t u lock, t ≠ u → l.config.task t = loadWindow peer (limit t) →
    l.config.shared.place u = .inside peer lock → l.Before t u

/-- The call that moves sets no sync row while another one is about to read it. -/
theorem Queued.notNarrowed (h : Queued cfg s peer base calls limit l) (hm : Still l m)
    (hs : l.step cfg m = some l') : NotNarrowed peer limit l.config m := by
  refine ⟨hm, fun u low high k hu hp t htu hload msg hmsg ↦ ?_⟩
  subst hu
  obtain ⟨P, hP, hPs⟩ := h.reading.outlined u
  obtain ⟨⟨o, k', hp', hpermitted⟩, -⟩ := hP.run_self hPs (Loop.config_step hs)
  obtain ⟨rfl, -⟩ := Prog.op.inj (hp.symm.trans hp')
  obtain ⟨lock, hplace⟩ := hpermitted.inside trivial
  exact absurd (Loop.step_run hs).1
    ((h.behind t u lock htu hload hplace).not_ready h.orderly htu)

/-- What a move of call `v` does to where it stands. -/
theorem Queued.read_step {v : ℕ} (h : Queued cfg s peer base calls limit l)
    (hs : l.step cfg (.run v) = some l') :
    Read peer (limit v) (l'.config.shared.place v) (l'.config.task v) ∧
      ((∃ lock, l'.config.shared.place v = .inside peer lock ∧
          (l'.config.task v).wait? Op.wait = some .queue) ∨
        (∀ lock, l'.config.shared.place v = .inside peer lock →
          l.config.shared.place v = .inside peer lock) ∧
          (l'.config.task v = loadWindow peer (limit v) →
            ∃ lock, l.config.shared.place v = .inside peer lock)) := by
  rcases Config.step_cases (Loop.config_step hs) with ⟨u, o, k, x, w, hm, hp, hr, hc⟩ |
    ⟨u, o, k, w, hm, hp, hr, hc⟩ | ⟨e, w, hm, -⟩
  · obtain rfl := Move.run.inj hm
    rw [hc]
    simp only [Function.update_self]
    exact (h.read v).step hp (fun p lock hlock ↦ h.reading.only.places v p lock (.inl hlock)) hr
  · obtain rfl := Move.run.inj hm
    have hstart := (h.read v).parked hp hr
    obtain ⟨⟨p, rfl⟩, -⟩ := handle_parked hr
    obtain ⟨-, lock, hplace⟩ := World.place_lockPeer_parked hr
    rw [hc]
    simp only [hstart]
    refine ⟨.start, .inr ⟨fun lock' hlock' ↦ ?_, fun hload ↦ ?_⟩⟩
    · rw [hplace, Function.update_self] at hlock'
      cases hlock'
    · rw [history_eq, loadWindow_eq] at hload
      cases hload
  · cases hm

theorem Queued.step (h : Queued cfg s peer base calls limit l) (hm : Still l m)
    (hs : l.step cfg m = some l') : Queued cfg s peer base calls limit l' := by
  have hconfig := Loop.config_step hs
  have hreading := h.reading.step (h.notNarrowed hm hs) hconfig
  cases m with
  | env e => exact absurd rfl (hm e)
  | run v =>
    obtain ⟨hread, hmove⟩ := h.read_step hs
    have hothers (u : ℕ) (hu : u ≠ v) : l'.config.task u = l.config.task u ∧
        l'.config.shared.place u = l.config.shared.place u := by
      obtain ⟨P, hP, hPs⟩ := h.reading.outlined v
      obtain ⟨⟨o, k, hp, -⟩, -⟩ := hP.run_self hPs hconfig
      exact ⟨Config.task_step_ne hconfig hu.symm, (shared_step hp hconfig).2.2.1 u hu⟩
    refine ⟨hreading, h.orderly.step hs, fun t ↦ ?_, fun t u lock htu hload hplace ↦ ?_⟩
    · by_cases ht : t = v
      · exact ht ▸ hread
      · obtain ⟨htask, hsame⟩ := hothers t ht
        rw [htask, hsame]
        exact h.read t
    · by_cases ht : t = v
      · -- only a call that leaves the section comes to read the sync row, and nobody else is in it
        subst ht
        rw [(hothers u htu.symm).2] at hplace
        rcases hmove with ⟨lock', hinside, -⟩ | ⟨-, hleft⟩
        · have hfits := hreading.exclusive.fits t
          rw [hinside, hload] at hfits
          exact absurd hfits not_inside_of_loads
        · obtain ⟨lock', hlock'⟩ := hleft hload
          exact absurd (h.reading.exclusive.guarded.exclusive hlock' hplace) htu
      · rw [(hothers t ht).1] at hload
        by_cases hu : u = v
        · subst hu
          rcases hmove with ⟨-, -, hwait⟩ | ⟨hstayed, -⟩
          · refine Loop.before_of_step hs ((h.orderly.mem_queue t).mpr ?_) htu hwait
            rw [hload, loadWindow_eq]
            rfl
          · exact absurd (Loop.step_run hs).1
              ((h.behind t u lock htu hload (hstayed lock hplace)).not_ready h.orderly htu)
        · rw [(hothers u hu).2] at hplace
          exact Loop.before_step (h.behind t u lock htu hload hplace) hs
            (fun heq ↦ ht (Move.run.inj heq).symm) fun heq ↦ hu (Move.run.inj heq).symm

theorem Readers.queued {c : StoreConfig} (h : Readers cfg peer calls limit c) :
    Queued cfg c.shared.server peer c.shared.db calls limit (.start c) where
  reading := h.reading
  orderly := by
    refine Loop.start_orderly fun t ↦ ?_
    by_cases ht : t ∈ calls
    · rw [(h.history t ht).2, history_eq]
      exact ⟨nofun, nofun⟩
    · rcases h.ended t ht with ⟨a, ha⟩ | ⟨e, he⟩
      · rw [ha]
        exact ⟨nofun, nofun⟩
      · rw [he]
        exact ⟨nofun, nofun⟩
  read t := by
    by_cases ht : t ∈ calls
    · exact (h.history t ht).2 ▸ .start
    · exact .ended _ (Config.ended_iff_hasEnded.mp (h.ended t ht))
  behind t u lock _ _ hplace := nomatch (h.outside u).symm.trans hplace

/-- While some call has not ended, some call can move. -/
theorem Queued.progress (h : Queued cfg s peer base calls limit l)
    (hrunning : ∃ t, ¬l.config.Ended t) : ∃ t l', l.step cfg (.run t) = some l' := by
  refine Loop.exists_step h.orderly (fun t o k hp hwait ↦ MessageStore.exists_step hp ?_)
    (h.reading.exclusive.progress hrunning)
  intro hblocked
  obtain ⟨p, lock, hplace, -⟩ := handle_blocked hblocked
  have hfits := h.reading.exclusive.fits t
  rw [hplace, hp] at hfits
  obtain ⟨-, k', hlock⟩ := hfits
  obtain ⟨rfl, -⟩ := Prog.op.inj hlock
  exact hwait rfl

/-- The calls do not go on forever. -/
theorem Queued.terminates (h : Queued cfg s peer base calls limit l) :
    Loop.Terminates (system cfg) Op.wait Still l :=
  Loop.terminates_of_config (I := Queued cfg s peer base calls limit)
    (fun _ _ _ h hm hs ↦ ⟨h.notNarrowed hm hs, h.step hm hs⟩) h.reading.terminates h

/-- Concurrent `history` calls for one dialog do not disturb each other: in every run of the event
loop each call that has ended has returned the newest page, as it would alone, and every run goes
on until all calls have ended. -/
theorem reads_independent {c : StoreConfig} (hstart : Readers cfg peer calls limit c)
    (hrun : Machine.Runs (StoreLoop.step cfg) Still (.start c) l) :
    (∀ t ∈ calls, l.config.Ended t → ∃ msgs w, l.config.task t = .ret msgs ∧
      List.Forall₂ (fun m r ↦ Refreshes (c.shared.db.row? peer m.id) m r)
        (c.shared.server.newest peer (limit t)) msgs ∧
      (history peer (limit t) 0).run (system cfg) t c.shared = some (.ok msgs, w)) ∧
    ((∃ t, ¬l.config.Ended t) → ∃ t l', l.step cfg (.run t) = some l') ∧
    Loop.Terminates (system cfg) Op.wait Still l := by
  have hinv : Queued cfg c.shared.server peer c.shared.db calls limit l :=
    hrun.preserves (fun _ _ _ h hm hs ↦ h.step hm hs) hstart.queued
  refine ⟨fun t ht hended ↦ ?_, hinv.progress, hinv.terminates⟩
  obtain ⟨w, hw⟩ := hstart.run_alone ht
  refine ⟨_, w, hinv.reading.returned ht hended, ?_, hw⟩
  rw [expected, List.forall₂_map_right_iff]
  exact List.forall₂_same.mpr fun m _ ↦ refreshes_refreshed _ m

end Runs

/-- The narrow call waits for the wide one, and enters the section before the wide one has read
its window. -/
theorem reads_independent_of_two_readers :
    let cfg : Setup := { Setup.calm with syncTtl := 0 }
    ∃ l, Machine.Runs (StoreLoop.step cfg) Still (.start (twoReaders 3 1)) l ∧
      (∃ msgs, l.config.task 0 = .ret msgs ∧ msgs.map Message.id = [1, 2, 3]) ∧
      ∃ msgs, l.config.task 1 = .ret msgs ∧ msgs.map Message.id = [3] := by
  intro cfg
  have hstart := readers_twoReaders cfg (fun _ ↦ rfl) (by decide : 1 ≤ 3) (by decide : 1 ≤ 1)
  have hcompute : (Machine.exec (StoreLoop.step cfg) (.start (twoReaders 3 1))
      ([.run 0, .run 1] ++ List.replicate 9 (.run 0) ++ [.run 1, .run 0, .run 1, .run 0] ++
        List.replicate 11 (.run 1))).map
      (fun l ↦ ((l.config.task 0).hasEnded, (l.config.task 1).hasEnded)) = some (true, true) := by
    decide +kernel
  obtain ⟨l, hl, hended⟩ := Option.map_eq_some_iff.mp hcompute
  obtain ⟨hzero, hone⟩ := Prod.mk.inj hended
  have hrun : Machine.Runs (StoreLoop.step cfg) Still (.start (twoReaders 3 1)) l := by
    refine Machine.runs_of_exec (fun m hm _ e heq ↦ ?_) hl
    subst heq
    simp at hm
  obtain ⟨hreturned, -⟩ := reads_independent hstart hrun
  obtain ⟨msgs, -, hret, hmsgs, -⟩ :=
    hreturned 0 (by decide) (Config.ended_iff_hasEnded.mpr hzero)
  obtain ⟨msgs', -, hret', hmsgs', -⟩ :=
    hreturned 1 (by decide) (Config.ended_iff_hasEnded.mpr hone)
  exact ⟨l, hrun, ⟨msgs, hret, (ids_of_refreshes hmsgs).trans (by decide)⟩,
    msgs', hret', (ids_of_refreshes hmsgs').trans (by decide)⟩

end TgMessenger.MessageStore
