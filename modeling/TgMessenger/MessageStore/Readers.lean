import TgMessenger.Asyncio.Termination
import TgMessenger.MessageStore.Coherence
import TgMessenger.MessageStore.OnePeer

/-!
# Concurrent reads of one dialog

Any number of `history` calls without an offset for one dialog, interleaved in any order,
in front of a server that does not move.

The calls have proof outlines.  A call that holds the lock relies on the database, since
all others only write while they hold it; a call that has released the lock and not yet
read the sync row relies on nobody setting a narrower one.  The lock does not ensure the
latter, so it is a condition on the moves here (`NotNarrowed`); the event loop ensures it.
-/

namespace TgMessenger.MessageStore

open Asyncio

/-- The operations a call performs only while it holds the lock. -/
def Op.Writes : Op → Prop
  | .upsert .. => True
  | .deleteDialog _ => True
  | .pruneWindow .. => True
  | .setSyncRow .. => True
  | .deleteIds .. => True
  | .deleteRow .. => True
  | .rememberSync _ => True
  | _ => False

theorem Op.onDb_of_not_writes {o : Op} (h : ¬o.Writes) (db : Db) : o.onDb db = db := by
  cases o with
  | upsert _ _ _ _ => exact absurd trivial h
  | deleteDialog _ => exact absurd trivial h
  | pruneWindow _ _ _ _ => exact absurd trivial h
  | setSyncRow _ _ _ => exact absurd trivial h
  | deleteIds _ _ => exact absurd trivial h
  | deleteRow _ _ => exact absurd trivial h
  | _ => rfl

/-! ## What the calls do to each other -/

section Outlines

variable (cfg : Setup) (s : Server) (peer : ℤ) (base : Db) (t : ℕ)

/-- What a call guarantees of each of its operations. -/
structure Permitted (o : Op) (w : World) : Prop where
  harmless : o.Harmless s peer
  inside : o.Writes → ∃ lock, w.place t = .inside peer lock
  set : ∀ low high, o = .setSyncRow peer low high →
    ∃ limit, Windowed s peer limit base (w.db.setSyncRow peer low high)

/-- What a call relies on when the others move. -/
structure Others (w w' : World) : Prop where
  server_eq : w'.server = w.server
  requests_le : w.requests.length ≤ w'.requests.length
  place_eq : w'.place t = w.place t
  db_eq : ∀ lock, w.place t = .inside peer lock → w'.db = w.db
  coherent : Coherent s peer base w.db → Coherent s peer base w'.db
  rows : ∀ limit, 1 ≤ limit → WindowRows s peer limit base w.db →
    WindowRows s peer limit base w'.db

/-- The call holds the lock, and the database is `db`. -/
structure Held (db : Db) (w : World) : Prop where
  server_eq : w.server = s
  online : Online cfg w
  inside : ∃ lock, w.place t = .inside peer lock
  kept : Kept s peer base db
  db_eq : w.db = db

variable {s peer base t} in
theorem Others.online {w w' : World} (h : Others s peer base t w w') (hon : Online cfg w) :
    Online cfg w' := hon.later h.requests_le

theorem stable_held (db : Db) : Stable (Others s peer base t) (Held cfg s peer base t db) := by
  intro w w' h hm
  obtain ⟨lock, hlock⟩ := h.inside
  exact ⟨hm.server_eq.trans h.server_eq, hm.online cfg h.online, ⟨lock, hm.place_eq.trans hlock⟩,
    h.kept, (hm.db_eq lock hlock).trans h.db_eq⟩

/-- The program, executed while holding the lock, leads from the database `db` to one with
`Q`, and returns. -/
def Holding {α : Type} (p : StoreProg α) (db : Db) (Q : α → Db → Prop) : Prop :=
  Outline (system cfg) t (fun _ ↦ Others s peer base t) (fun o w _ ↦ Permitted s peer base t o w)
    p (Held cfg s peer base t db)
    (onResult (fun a w ↦ ∃ db', Q a db' ∧ Held cfg s peer base t db' w) fun _ _ ↦ False)

end Outlines

namespace Holding

variable {cfg : Setup} {s : Server} {peer : ℤ} {base : Db} {t : ℕ} {α β : Type} {db : Db}

theorem stable_result {α : Type} (Q : α → Db → Prop) (x : Except String α) :
    Stable (Others s peer base t) (onResult (E := effects)
      (fun a w ↦ ∃ db', Q a db' ∧ Held cfg s peer base t db' w) (fun _ _ ↦ False) x) := by
  cases x with
  | ok a => exact fun w w' ⟨db', hQ, h⟩ hm ↦ ⟨db', hQ, stable_held cfg s peer base t db' w w' h hm⟩
  | error e => exact fun _ _ h _ ↦ h

theorem ret {a : α} {Q : α → Db → Prop} (h : Q a db) : Holding cfg s peer base t (.ret a) db Q :=
  Outline.ret (stable_held cfg s peer base t db) fun _ hw ↦ ⟨db, h, hw⟩

theorem bind {p : StoreProg α} {f : α → StoreProg β} {R : α → Db → Prop} {Q : β → Db → Prop}
    (hp : Holding cfg s peer base t p db R)
    (hf : ∀ a db', R a db' → Holding cfg s peer base t (f a) db' Q) :
    Holding cfg s peer base t (p >>= f) db Q :=
  Outline.seq hp fun a ↦ Outline.ofExists fun db' ↦
    Outline.assuming (fun _ hw ↦ hw.1) fun hR ↦ (hf a db' hR).pre fun _ hw ↦ hw.2

theorem ite {c : Prop} [Decidable c] {p q : StoreProg α} {Q : α → Db → Prop}
    (hp : c → Holding cfg s peer base t p db Q) (hq : ¬c → Holding cfg s peer base t q db Q) :
    Holding cfg s peer base t (if c then p else q) db Q := by
  split_ifs with hc
  · exact hp hc
  · exact hq hc

/-- The rows of the messages on the server are the stored ones at any time. -/
theorem kept {p : StoreProg α} {Q : α → Db → Prop}
    (h : Kept s peer base db → Holding cfg s peer base t p db Q) :
    Holding cfg s peer base t p db Q := Outline.assuming (fun _ hw ↦ hw.kept) h

/-- One operation. -/
theorem perform {o : Op} {Q : effects.Ret o → Db → Prop} (hstays : o.StaysInPlace)
    (ho : o.Harmless s peer)
    (hset : ∀ low high, o = .setSyncRow peer low high →
      ∃ limit, Windowed s peer limit base (db.setSyncRow peer low high))
    (h : ∀ w, Held cfg s peer base t db w →
      ∃ r w', handle cfg t o w = .done (.ok r) w' ∧ Q r (o.onDb db)) :
    Holding cfg s peer base t (perform o) db Q := by
  refine Outline.perform (stable_held cfg s peer base t db) (stable_result Q) (fun w w' hw hr ↦ ?_)
    fun w x w' hw hr ↦ ?_
  · obtain ⟨r, w₁, hr', -⟩ := h w hw
    cases hr'.symm.trans hr
  · obtain ⟨r, w₁, hr', hQ⟩ := h w hw
    obtain ⟨rfl, rfl⟩ := Reply.done.inj (hr'.symm.trans hr)
    obtain ⟨hplace, hreq⟩ := handle_stays hstays hr
    obtain ⟨hdb, hserver⟩ := handle_done hr
    refine ⟨⟨ho, fun _ ↦ hw.inside, by rw [hw.db_eq]; exact hset⟩, o.onDb db, hQ,
      hserver.trans hw.server_eq, hw.online.later hreq, by rw [hplace]; exact hw.inside,
      hw.kept.onDb ho, by rw [hdb, hw.db_eq]⟩

/-- A statement. -/
theorem statement {o : Op} {Q : effects.Ret o → Db → Prop} (r : effects.Ret o)
    (hh : ∀ w, handle cfg t o w = .done (.ok r) (w.onDb o.onDb)) (hstays : o.StaysInPlace)
    (ho : o.Harmless s peer)
    (hset : ∀ low high, o = .setSyncRow peer low high →
      ∃ limit, Windowed s peer limit base (db.setSyncRow peer low high))
    (hQ : Q r (o.onDb db)) : Holding cfg s peer base t (MessageStore.perform o) db Q :=
  perform hstays ho hset fun w _ ↦ ⟨r, _, hh w, hQ⟩

/-- A statement that reads. -/
theorem query {o : Op} {Q : effects.Ret o → Db → Prop} (result : Db → effects.Ret o)
    (hh : ∀ w, handle cfg t o w = .done (.ok (result w.db)) w) (hstays : o.StaysInPlace)
    (ho : o.Harmless s peer) (hset : ∀ low high, o ≠ .setSyncRow peer low high)
    (hdb : o.onDb db = db) (hQ : Q (result db) db) :
    Holding cfg s peer base t (MessageStore.perform o) db Q := by
  refine perform hstays ho (fun low high heq ↦ absurd heq (hset low high)) fun w hw ↦
    ⟨result w.db, w, hh w, ?_⟩
  rw [hdb, hw.db_eq]
  exact hQ

/-! ## The coroutines -/

variable {limit : ℕ}

theorem syncRow {Q : Option (ℤ × ℤ) → Db → Prop} (hQ : Q (db.sync peer) db) :
    Holding cfg s peer base t (MessageStore.perform (.syncRow peer)) db Q :=
  query (fun db ↦ db.sync peer) (fun _ ↦ rfl) trivial trivial (fun _ _ ↦ nofun) rfl hQ

/-- A request for a page. -/
theorem historySince {minId : ℤ} {Q : List Message → Db → Prop}
    (hQ : Q (s.historySince peer minId limit) db) :
    Holding cfg s peer base t (MessageStore.perform (.historySince peer minId limit)) db Q := by
  refine perform trivial trivial (fun _ _ ↦ nofun) fun w hw ↦ ⟨_, _, request_ok hw.online _ _, ?_⟩
  rw [hw.server_eq]
  exact hQ

theorem rememberSync {Q : Unit → Db → Prop} (hQ : Q () db) :
    Holding cfg s peer base t (MessageStore.perform (.rememberSync peer)) db Q :=
  perform trivial rfl (fun _ _ ↦ nofun) fun _ _ ↦ ⟨(), _, rfl, hQ⟩

/-- Whether the window is stale is up to the clock. -/
theorem syncStale {Q : Bool → Db → Prop} (hQ : ∀ stale, Q stale db) :
    Holding cfg s peer base t (MessageStore.perform (.syncStale peer)) db Q :=
  perform trivial trivial (fun _ _ ↦ nofun) fun _ _ ↦ ⟨_, _, rfl, hQ _⟩

theorem upsertAll {page : List Message} (hpage : page ⊆ s.live peer) :
    Holding cfg s peer base t (Prog.forEach upsertMessage page) db
      fun _ db' ↦ db' = db.upsertAll page := by
  induction page generalizing db with
  | nil => exact ret rfl
  | cons m page ih =>
    obtain ⟨hm, hpage⟩ := List.cons_subset.mp hpage
    have hupsert : Holding cfg s peer base t (upsertMessage m) db
        fun _ db' ↦ db' = db.upsertMessage m none none true :=
      statement () (fun _ ↦ rfl) trivial ⟨hm, rfl, rfl, rfl⟩ (fun _ _ ↦ nofun) rfl
    refine bind hupsert fun _ db' hdb' ↦ ?_
    subst hdb'
    exact ih hpage

/-- A sync row that says what the rows are. -/
theorem setSyncRow {low high : ℤ} (h : Windowed s peer limit base (db.setSyncRow peer low high)) :
    Holding cfg s peer base t (MessageStore.perform (.setSyncRow peer low high)) db
      fun _ db' ↦ Windowed s peer limit base db' := by
  refine statement () (fun _ ↦ rfl) trivial rfl (fun low' high' heq ↦ ?_) h
  obtain ⟨-, rfl, rfl⟩ := Op.setSyncRow.inj heq
  exact ⟨limit, h⟩

/-- The window `_replace_window` leaves. -/
theorem windowed_replaceWindow (hlimit : 1 ≤ limit) (hkept : Kept s peer base db) :
    Windowed s peer limit base (db.replaceWindow peer (s.newest peer limit) limit) :=
  Windowed.rebase hlimit hkept
    (synced_replaceWindow hlimit (ascending_newest ..) dialogId_newest db)

/-- `_replace_window` with the newest page. -/
theorem replaceWindow (hlimit : 1 ≤ limit) :
    Holding cfg s peer base t (replaceWindow peer (s.newest peer limit) limit) db
      fun _ db' ↦ Windowed s peer limit base db' := by
  refine kept fun hkept ↦ ?_
  have hwin := windowed_replaceWindow hlimit hkept
  rw [MessageStore.replaceWindow]
  by_cases hpage : s.newest peer limit = []
  · rw [Db.replaceWindow, if_pos hpage] at hwin
    rw [if_pos (by rw [hpage]; rfl)]
    have hlive : s.live peer = [] := by
      have hlen : (s.newest peer limit).length < limit := by
        rw [hpage]
        exact hlimit
      exact (List.eq_of_length_rtake_lt hlen).symm.trans hpage
    have hdelete : Holding cfg s peer base t (MessageStore.perform (.deleteDialog peer)) db
        fun _ db' ↦ db' = db.deleteDialog peer :=
      statement () (fun _ ↦ rfl) trivial ⟨rfl, hlive⟩ (fun _ _ h ↦ by cases h) rfl
    refine bind hdelete fun _ db' hdb' ↦ ?_
    subst hdb'
    exact bind (setSyncRow hwin) fun _ _ hdb' ↦ ret hdb'
  · rw [Db.replaceWindow, if_neg hpage] at hwin
    rw [if_neg (by simpa using hpage)]
    refine bind (upsertAll (List.rtake_suffix ..).subset) fun _ db' hdb' ↦ ?_
    subst hdb'
    have hprune : Holding cfg s peer base t (MessageStore.perform (.pruneWindow peer
        (pageLow (s.newest peer limit) limit) (pageHigh (s.newest peer limit))
        ((s.newest peer limit).map Message.id))) (db.upsertAll (s.newest peer limit))
        fun _ db' ↦ db' = (db.upsertAll (s.newest peer limit)).pruneWindow peer
          (pageLow (s.newest peer limit) limit) (pageHigh (s.newest peer limit))
          ((s.newest peer limit).map Message.id) :=
      statement () (fun _ ↦ rfl) trivial ⟨rfl, fun m hm hl _ ↦ List.mem_map_of_mem
        (mem_rtake_of_pageLow_le (s.ascending peer) hlimit hm hl)⟩ (fun _ _ h ↦ by cases h) rfl
    refine bind hprune fun _ db' hdb' ↦ ?_
    subst hdb'
    exact bind (setSyncRow hwin) fun _ _ hdb' ↦ ret hdb'

/-- Replacing the window by the newest page. -/
theorem replaceNewest (hlimit : 1 ≤ limit) {page : List Message}
    (hpage : page = s.newest peer limit) :
    Holding cfg s peer base t (MessageStore.replaceWindow peer page limit >>= fun _ ↦
      MessageStore.perform (.rememberSync peer)) db
      fun _ db' ↦ Windowed s peer limit base db' := by
  subst hpage
  exact bind (replaceWindow hlimit) fun _ _ hdb' ↦ rememberSync hdb'

/-- `_sync_full_window`. -/
theorem syncFullWindow (hlimit : 1 ≤ limit) :
    Holding cfg s peer base t (syncFullWindow peer limit) db
      fun _ db' ↦ Windowed s peer limit base db' := by
  have hpage : Holding cfg s peer base t (MessageStore.perform (.historySince peer 0 limit)) db
      fun page db' ↦ page = s.newest peer limit ∧ db' = db :=
    historySince ⟨s.historySince_zero peer limit, rfl⟩
  exact bind hpage fun _ _ ⟨hpage, _⟩ ↦ replaceNewest hlimit hpage

/-- `_sync_history`. -/
theorem syncHistory (hlimit : 1 ≤ limit) (row : Option (ℤ × ℤ)) :
    Holding cfg s peer base t (syncHistory peer limit row) db
      fun _ db' ↦ Windowed s peer limit base db' := by
  have hpage : Holding cfg s peer base t
      (MessageStore.perform (.historySince peer ((row.map Prod.snd).getD 0) limit)) db
      fun page _ ↦ page = s.historySince peer ((row.map Prod.snd).getD 0) limit :=
    historySince rfl
  refine bind hpage fun page db' hpage ↦ ?_
  have hreplace (hrow : row = none ∨ limit ≤ page.length) : page = s.newest peer limit :=
    hpage.trans (historySince_eq_rtake (by
      rw [← hpage]
      exact hrow.imp_left fun h ↦ by rw [h]; rfl))
  refine ite (fun _ ↦ ite (fun hlen ↦ ?_) fun _ ↦ syncFullWindow hlimit)
    fun _ ↦ ite (fun hrow ↦ ?_) fun _ ↦ syncFullWindow hlimit
  · exact replaceNewest hlimit (hreplace (by simpa using hlen))
  · exact replaceNewest hlimit (hreplace (.inl (Option.isNone_iff_eq_none.mp hrow)))

/-- The part of `history` that grows a window with fewer rows than asked for. -/
theorem growWindow (hlimit : 1 ≤ limit) (hdb : Coherent s peer base db) :
    Holding cfg s peer base t (growWindow peer limit (db.sync peer)) db
      fun row' db' ↦ row' = none ∨ Wide s peer limit base db' := by
  rcases hrow : db.sync peer with _ | ⟨low, high⟩
  · exact ret (.inl rfl)
  · obtain ⟨limit', hw⟩ := hdb.window.resolve_left (by rw [hrow]; exact nofun)
    have hsync := hw.2.sync_eq
    rw [hrow, Option.some.injEq, Prod.mk.injEq] at hsync
    obtain ⟨rfl, rfl⟩ := hsync
    refine ite (fun _ ↦ ?_) fun hlow ↦ ret (.inr (hw.wide_of_nonpos (not_lt.mp hlow)))
    have hcount : Holding cfg s peer base t (MessageStore.perform (.windowCount peer
        (pageLow (s.newest peer limit') limit') (pageHigh (s.newest peer limit')))) db
        fun count db' ↦ db' = db ∧ count = db.windowCount peer
          (pageLow (s.newest peer limit') limit') (pageHigh (s.newest peer limit')) :=
      query (fun db ↦ db.windowCount peer _ _) (fun _ ↦ rfl) trivial trivial (fun _ _ ↦ nofun) rfl
        ⟨rfl, rfl⟩
    refine bind hcount fun count db' ⟨hdb', hcount⟩ ↦ ?_
    subst hdb' hcount
    refine ite (fun _ ↦ ?_) fun hcount ↦ ret (.inr (hw.wide_of_count (not_lt.mp hcount)))
    exact bind (syncFullWindow hlimit) fun _ _ hdb' ↦ syncRow (.inr hdb'.wide)

/-- The critical section of `history`. -/
theorem syncWindow (hlimit : 1 ≤ limit) (hdb : Coherent s peer base db) :
    Holding cfg s peer base t (syncWindow peer limit) db
      fun _ db' ↦ Wide s peer limit base db' := by
  have hrow : Holding cfg s peer base t (MessageStore.perform (.syncRow peer)) db
      fun row db' ↦ db' = db ∧ row = db.sync peer := syncRow ⟨rfl, rfl⟩
  refine bind hrow fun row db₁ ⟨hdb₁, hrow⟩ ↦ ?_
  subst hdb₁ hrow
  refine bind (growWindow hlimit hdb) fun row' db₂ hrow' ↦ ?_
  have hsync {db : Db} : Holding cfg s peer base t (MessageStore.syncHistory peer limit row') db
      fun _ db' ↦ Wide s peer limit base db' := by
    rw [← bind_pure (MessageStore.syncHistory peer limit row')]
    exact bind (syncHistory hlimit row') fun _ _ hdb' ↦ ret hdb'.wide
  refine ite (fun _ ↦ hsync) fun hnone ↦ ?_
  have hwide := hrow'.resolve_left fun h ↦ hnone (Option.isNone_iff_eq_none.mpr h)
  have hstale : Holding cfg s peer base t (MessageStore.perform (.syncStale peer)) db₂
      fun _ db' ↦ db' = db₂ := syncStale fun _ ↦ rfl
  refine bind hstale fun stale db₃ hdb₃ ↦ ?_
  subst hdb₃
  exact ite (fun _ ↦ hsync) fun _ ↦ ret hwide

end Holding

/-! ## The whole call -/

section Call

variable (cfg : Setup) (s : Server) (peer : ℤ) (base : Db) (t limit : ℕ)

/-- The call has not entered its section yet. -/
structure Entering (w : World) : Prop where
  server_eq : w.server = s
  online : Online cfg w
  coherent : Coherent s peer base w.db
  place : w.place t = .outside ∨ ∃ lock, w.place t = .waiting peer lock

/-- The call has left its section with a window that is wide enough. -/
structure Loading (w : World) : Prop where
  server_eq : w.server = s
  wide : Wide s peer limit base w.db

/-- The call has read the sync row `row`, and the rows of this window are there. -/
def Selecting (row : Option (ℤ × ℤ)) (w : World) : Prop :=
  ∃ limit', row = some (pageLow (s.newest peer limit') limit', pageHigh (s.newest peer limit')) ∧
    1 ≤ limit' ∧ WindowRows s peer limit' base w.db ∧ (s.newest peer limit).length ≤ limit'

/-- What a call relies on, given what it still has to do: before it reads the sync row, a
window that is wide enough for it has to stay so. -/
def Relies (p : StoreProg (List Message)) (w w' : World) : Prop :=
  Others s peer base t w w' ∧
    (p = loadWindow peer limit → Wide s peer limit base w.db → Wide s peer limit base w'.db)

end Call

variable {cfg : Setup} {s : Server} {peer : ℤ} {base : Db} {t limit : ℕ}

theorem history_eq (peer : ℤ) (limit : ℕ) :
    history peer limit 0 = .op (.lockPeer peer) fun
      | .ok lock => (syncWindow peer limit).always (perform (.release lock)) >>= fun _ ↦
          loadWindow peer limit
      | .error e => .raise e := by
  rw [history, if_neg (lt_irrefl 0), withPeerLock, bind_assoc, Prog.perform_bind]
  refine congrArg (Prog.op _) (funext fun x ↦ ?_)
  cases x <;> rfl

theorem loadWindow_eq (peer : ℤ) (limit : ℕ) :
    loadWindow peer limit = .op (.syncRow peer) fun
      | .ok none => .ret []
      | .ok (some (low, high)) => perform (.loadWindow peer low high limit)
      | .error e => .raise e := by
  rw [loadWindow, Prog.perform_bind]
  refine congrArg (Prog.op _) (funext fun x ↦ ?_)
  rcases x with e | _ | ⟨low, high⟩ <;> rfl

/-- An operation that needs no lock. -/
theorem Permitted.reading {o : Op} (ho : o.Harmless s peer) (hw : ¬o.Writes) (w : World) :
    Permitted s peer base t o w :=
  ⟨ho, fun h ↦ absurd h hw, fun _ _ heq ↦ absurd (heq ▸ trivial) hw⟩

/-- The load of a wide window. -/
theorem outline_loadWindow :
    Outline (system cfg) t (Relies s peer base t limit) (fun o w _ ↦ Permitted s peer base t o w)
      (loadWindow peer limit) (Loading s peer base limit)
      fun x _ ↦ x = .ok (expected s peer limit base) := by
  rw [loadWindow_eq]
  refine Outline.op (R := fun x w ↦ ∃ row, x = .ok row ∧ Selecting s peer base limit row w)
    (fun w w' h hm ↦ ?_) (fun _ _ _ hr ↦ nomatch hr) (fun w x w' h hr ↦ ?_) fun x ↦ ?_
  · exact ⟨hm.1.server_eq.trans h.server_eq, hm.2 (loadWindow_eq peer limit).symm h.wide⟩
  · obtain ⟨rfl, rfl⟩ := Reply.done.inj hr
    obtain ⟨limit', hw, hlen⟩ := h.wide
    exact ⟨.reading (by trivial) (by exact id) w, _, rfl, limit', hw.2.sync_eq, hw.1,
      hw.2.row?_eq, hlen⟩
  · rcases x with e | _ | ⟨low, high⟩
    · exact (Outline.vacuous _ _).pre fun _ ⟨_, h, _⟩ ↦ nomatch h
    · refine (Outline.vacuous _ _).pre fun w ⟨row, hrow, limit', hsome, _⟩ ↦ ?_
      obtain rfl := Except.ok.inj hrow
      cases hsome
    · refine Outline.pre (P := Selecting s peer base limit (some (low, high))) ?_
        fun w ⟨row, hrow, h⟩ ↦ Except.ok.inj hrow ▸ h
      refine Outline.op (R := fun x _ ↦ x = .ok (expected s peer limit base))
        (fun w w' h hm ↦ ?_) (fun _ _ _ hr ↦ nomatch hr) (fun w x w' h hr ↦ ?_) fun x ↦ ?_
      · obtain ⟨limit', hrow, hlimit', hrows, hlen⟩ := h
        exact ⟨limit', hrow, hlimit', hm.1.rows limit' hlimit' hrows, hlen⟩
      · obtain ⟨rfl, rfl⟩ := Reply.done.inj hr
        obtain ⟨limit', hrow, -, hrows, hlen⟩ := h
        obtain ⟨rfl, rfl⟩ := Prod.mk.inj (Option.some.inj hrow)
        exact ⟨.reading (by trivial) (by exact id) w, congrArg _ (hrows.loadWindow_eq hlen)⟩
      · cases x with
        | ok msgs => exact Outline.ret (fun _ _ h _ ↦ h) fun _ h ↦ h
        | error e => exact (Outline.vacuous _ _).pre fun _ h ↦ nomatch h

/-- `history` without an offset. -/
theorem outline_history (hlimit : 1 ≤ limit) :
    Outline (system cfg) t (Relies s peer base t limit) (fun o w _ ↦ Permitted s peer base t o w)
      (history peer limit 0) (Entering cfg s peer base t)
      fun x _ ↦ x = .ok (expected s peer limit base) := by
  rw [history_eq]
  refine Outline.op
    (R := fun x w ↦ (∃ lock, x = .ok lock) ∧
      ∃ db, Coherent s peer base db ∧ Held cfg s peer base t db w)
    (fun w w' h hm ↦ ?_) (fun w w' h hr ↦ ?_) (fun w x w' h hr ↦ ?_) fun x ↦ ?_
  · exact ⟨hm.1.server_eq.trans h.server_eq, hm.1.online cfg h.online, hm.1.coherent h.coherent,
      by rw [hm.1.place_eq]; exact h.place⟩
  · obtain ⟨hdb, hserver, hreq⟩ := World.lockPeer_parked hr
    obtain ⟨-, lock, hplace⟩ := World.place_lockPeer_parked hr
    refine ⟨.reading (by exact rfl) (by exact id) w, hserver.trans h.server_eq,
      h.online.later (by rw [hreq]), by rw [hdb]; exact h.coherent, .inr ⟨lock, ?_⟩⟩
    rw [hplace, Function.update_self]
  · obtain ⟨-, hdb, hserver, hreq⟩ := World.lockPeer_done hr
    obtain ⟨p, lock, hp, rfl, hplace⟩ := World.place_lockPeer_done hr
    have hpeer : p = peer := by
      rcases hp with hp | hp
      · exact hp
      · rcases h.place with hout | ⟨lock', hwait⟩
        · cases hout.symm.trans hp
        · exact (Place.waiting.inj (hwait.symm.trans hp)).1.symm
    subst hpeer
    refine ⟨.reading (by exact rfl) (by exact id) w, ⟨lock, rfl⟩, w.db, h.coherent,
      hserver.trans h.server_eq, h.online.later (by rw [hreq]), ⟨lock, ?_⟩, h.coherent.kept, hdb⟩
    rw [hplace, Function.update_self]
  · rcases x with e | lock
    · exact (Outline.vacuous _ _).pre fun _ ⟨⟨_, h⟩, _⟩ ↦ nomatch h
    · have hbody : Outline (system cfg) t (fun _ ↦ Others s peer base t)
          (fun o w _ ↦ Permitted s peer base t o w) (syncWindow peer limit)
          (fun w ↦ ∃ db, Coherent s peer base db ∧ Held cfg s peer base t db w)
          (onResult (fun _ w ↦ ∃ db, Wide s peer limit base db ∧ Held cfg s peer base t db w)
            fun _ _ ↦ False) :=
        Outline.ofExists fun db ↦ Outline.assuming (fun _ hw ↦ hw.1) fun hdb ↦
          (Holding.syncWindow hlimit hdb).pre fun _ hw ↦ hw.2
      refine Outline.alwaysBind (hbody.pre fun _ hw ↦ hw.2) (fun _ _ _ hm ↦ hm.1) fun x ↦ ?_
      rcases x with e | _
      · exact Outline.vacuous _ _
      · rw [Prog.perform_bind]
        refine Outline.op (R := fun x w ↦ x = .ok () ∧ Loading s peer base limit w)
          (fun w w' ⟨db, hdb, h⟩ hm ↦ ⟨db, hdb, stable_held cfg s peer base t db w w' h hm.1⟩)
          (fun _ _ _ hr ↦ nomatch hr) (fun w x w' ⟨db, hdb, h⟩ hr ↦ ?_) fun x ↦ ?_
        · obtain ⟨rfl, rfl⟩ := Reply.done.inj hr
          refine ⟨.reading (by trivial) (by exact id) w, rfl, h.server_eq, ?_⟩
          rw [World.db_release, h.db_eq]
          exact hdb
        · rcases x with e | _
          · exact (Outline.vacuous _ _).pre fun _ h ↦ nomatch h.1
          · exact outline_loadWindow.pre fun _ h ↦ h.2

/-! ## Interleavings -/

/-- Some tasks are about to read one dialog of a store at rest, whose window agrees with
the server; no request fails. -/
structure Readers (cfg : Setup) (peer : ℤ) (calls : Finset ℕ) (limit : ℕ → ℕ)
    (c : StoreConfig) : Prop where
  history : ∀ t ∈ calls, 1 ≤ limit t ∧ c.task t = history peer (limit t) 0
  ended : ∀ t, t ∉ calls → c.Ended t
  guarded : Guarded c.shared
  outside : ∀ t, c.shared.place t = .outside
  syncs : c.shared.peers.lastSync.size ≤ peerStateMax
  online : Online cfg c.shared
  window : c.shared.db.sync peer = none ∨
    ∃ l, 1 ≤ l ∧ Synced peer (c.shared.server.newest peer l) l c.shared.db c.shared.db

/-- The server stands still, and nobody sets a sync row above the newest page of a call
that has left its section and still has to read the sync row. -/
def NotNarrowed (peer : ℤ) (limit : ℕ → ℕ) (c : StoreConfig) (m : Move ℕ ServerEvent) : Prop :=
  (∀ e, m ≠ .env e) ∧
    ∀ u low high k, m = .run u → c.task u = .op (.setSyncRow peer low high) k →
      ∀ t, t ≠ u → c.task t = loadWindow peer (limit t) →
        ∀ msg ∈ c.shared.server.newest peer (limit t), low ≤ msg.id

/-- The invariant of whole runs. -/
structure Reading (cfg : Setup) (s : Server) (peer : ℤ) (base : Db) (calls : Finset ℕ)
    (limit : ℕ → ℕ) (c : StoreConfig) : Prop where
  exclusive : Exclusive c
  only : OnlyPeer peer c.shared
  server_eq : c.shared.server = s
  ended : ∀ t, t ∉ calls → c.Ended t
  outlined : ∀ t, ∃ P, Outline (system cfg) t (Relies s peer base t (limit t))
    (fun o w _ ↦ Permitted s peer base t o w) (c.task t) P
    (fun x _ ↦ t ∈ calls → x = .ok (expected s peer (limit t) base)) ∧ P c.shared

section Runs

variable {calls : Finset ℕ} {limit : ℕ → ℕ} {c c' : StoreConfig} {m : Move ℕ ServerEvent}

theorem Readers.reading (h : Readers cfg peer calls limit c) :
    Reading cfg c.shared.server peer c.shared.db calls limit c := by
  refine ⟨⟨h.guarded, fun t ↦ ?_⟩, ⟨h.guarded, fun t p lock ht ↦ ?_, h.syncs⟩, rfl, h.ended,
    fun t ↦ ?_⟩
  · rw [h.outside t]
    by_cases ht : t ∈ calls
    · rw [(h.history t ht).2]
      exact .prog (.history peer (limit t) 0)
    · rcases h.ended t ht with ⟨a, ha⟩ | ⟨e, he⟩
      · rw [ha]
        rfl
      · rw [he]
        rfl
  · rw [h.outside t] at ht
    rcases ht with ht | ht <;> cases ht
  · by_cases ht : t ∈ calls
    · obtain ⟨hlimit, hp⟩ := h.history t ht
      rw [hp]
      exact ⟨_, (outline_history hlimit).post fun _ _ hx _ ↦ hx, rfl, h.online,
        ⟨.refl _ _ _, h.window⟩, .inl (h.outside t)⟩
    · rcases h.ended t ht with ⟨a, ha⟩ | ⟨e, he⟩
      · rw [ha]
        exact ⟨fun _ ↦ True, Outline.ret (.true _) fun _ _ hmem ↦ absurd hmem ht, trivial⟩
      · rw [he]
        exact ⟨fun _ ↦ True, ⟨fun _ ↦ True, fun _ h ↦ h, .true _, fun _ _ hmem ↦ absurd hmem ht⟩,
          trivial⟩

/-- What a move of one call does to the parts of the state the others look at. -/
theorem shared_step {u : ℕ} {o : Op} {k : Except String (effects.Ret o) → StoreProg (List Message)}
    (hp : c.task u = .op o k) (hs : c.step (system cfg) (.run u) = some c') :
    c'.shared.db = o.onDb c.shared.db ∧ c'.shared.server = c.shared.server ∧
      (∀ v, v ≠ u → c'.shared.place v = c.shared.place v) ∧
      c.shared.requests.length ≤ c'.shared.requests.length := by
  rcases Config.step_cases hs with ⟨v, o', k', x, w, hm, hp', hr, rfl⟩ |
    ⟨v, o', k', w, hm, hp', hr, rfl⟩ | ⟨e, w, hm, -⟩
  · obtain rfl := Move.run.inj hm
    obtain ⟨rfl, -⟩ := Prog.op.inj (hp.symm.trans hp')
    obtain ⟨hdb, hserver⟩ := handle_done hr
    obtain ⟨hplace, hreq⟩ := handle_others hr
    exact ⟨hdb, hserver, hplace, hreq⟩
  · obtain rfl := Move.run.inj hm
    obtain ⟨rfl, -⟩ := Prog.op.inj (hp.symm.trans hp')
    obtain ⟨⟨p, rfl⟩, hdb, hserver, hreq⟩ := handle_parked hr
    exact ⟨hdb, hserver, handle_others_parked (o := .lockPeer p) hr, by rw [hreq]⟩
  · cases hm

theorem Permitted.onlyFor {u : ℕ} {o : Op} {w : World} (h : Permitted s peer base u o w) :
    o.OnlyFor peer u w := by
  cases o with
  | lockPeer p => exact h.harmless
  | rememberSync p => exact ⟨h.harmless, h.inside trivial⟩
  | _ => trivial

theorem Reading.step (h : Reading cfg s peer base calls limit c) (hm : NotNarrowed peer limit c m)
    (hs : c.step (system cfg) m = some c') : Reading cfg s peer base calls limit c' := by
  cases m with
  | env e => exact absurd rfl (hm.1 e)
  | run u =>
    obtain ⟨P, hP, hPs⟩ := h.outlined u
    obtain ⟨⟨o, k, hp, hpermitted⟩, hself⟩ := hP.run_self hPs hs
    have honly := hpermitted.onlyFor
    have hsparing : SparingMove cfg c (.run u) := by
      intro t o' k' ht hp'
      obtain rfl := Move.run.inj ht
      obtain ⟨rfl, -⟩ := Prog.op.inj (hp.symm.trans hp')
      exact h.only.sparing honly
    have hexclusive := h.exclusive.step hsparing hs
    obtain ⟨hdb, hserver, hplace, hreq⟩ := shared_step hp hs
    refine ⟨hexclusive, ?_, hserver.trans h.server_eq, fun t ht ↦ ?_, fun t ↦ ?_⟩
    · rcases Config.step_cases hs with ⟨v, o', k', x, w, hv, hp', hr, rfl⟩ |
        ⟨v, o', k', w, hv, hp', hr, rfl⟩ | ⟨e, w, hv, -⟩
      · obtain rfl := Move.run.inj hv
        obtain ⟨rfl, -⟩ := Prog.op.inj (hp.symm.trans hp')
        exact h.only.handle_done honly hexclusive.guarded hr
      · obtain rfl := Move.run.inj hv
        obtain ⟨rfl, -⟩ := Prog.op.inj (hp.symm.trans hp')
        exact h.only.handle_parked honly hexclusive.guarded hr
      · cases hv
    · refine (h.ended t ht).of_task_eq (Config.task_step_ne hs ?_)
      rintro rfl
      rw [(h.ended u ht).step_eq_none] at hs
      cases hs
    · by_cases htu : t = u
      · rw [htu]
        exact hself
      · obtain ⟨P', hP', hPs'⟩ := h.outlined t
        rw [Config.task_step_ne hs (Ne.symm htu)]
        refine hP'.run_other hPs' ⟨⟨hserver, hreq, hplace t htu, fun lock hlock ↦ ?_,
          fun hc ↦ ?_, fun l hl hrows ↦ ?_⟩, fun hload hwide ↦ ?_⟩
        · by_cases hwrites : o.Writes
          · obtain ⟨lock', hlock'⟩ := hpermitted.inside hwrites
            exact absurd (h.exclusive.guarded.exclusive hlock hlock') htu
          · rw [hdb, Op.onDb_of_not_writes hwrites]
        · rw [hdb]
          exact hc.onDb hpermitted.harmless hpermitted.set
        · rw [hdb]
          exact hrows.onDb hl hpermitted.harmless
        · rw [hdb]
          refine hwide.onDb hpermitted.harmless fun low high heq ↦
            ⟨hpermitted.set low high heq, fun msg hmsg ↦ ?_⟩
          subst heq
          rw [← h.server_eq] at hmsg
          exact hm.2 u low high k rfl hp t htu hload msg hmsg

/-- A task that waits has been put to sleep. -/
def sleepRank (t : ℕ) (w : World) : ℕ :=
  match w.place t with
  | .waiting _ _ => 0
  | _ => 1

theorem Reading.terminates (h : Reading cfg s peer base calls limit c) :
    Terminates (system cfg) (NotNarrowed peer limit) c := by
  refine terminates_of_rank (I := Reading cfg s peer base calls limit) calls sleepRank
    (fun c c' m h hm hs ↦ h.step hm hs) (fun c e hm ↦ hm.1 e rfl)
    (fun c t h ht ↦ h.ended t ht) (fun c c' t u h hm hs htu ↦ ?_) (fun t o w w' hr ↦ ?_) h
  · obtain ⟨P, hP, hPs⟩ := h.outlined u
    obtain ⟨⟨o, k, hp, -⟩, -⟩ := hP.run_self hPs hs
    rw [sleepRank, sleepRank, (shared_step hp hs).2.2.1 t htu]
  · obtain ⟨⟨p, rfl⟩, -⟩ := handle_parked hr
    obtain ⟨hawake, lock, hplace⟩ := World.place_lockPeer_parked hr
    rw [sleepRank, sleepRank, hplace, Function.update_self]
    cases ht : w.place t with
    | waiting p lock => exact absurd ht (hawake p lock)
    | outside => exact Nat.zero_lt_one
    | inside p lock => exact Nat.zero_lt_one

/-- A call that has ended returned the newest page. -/
theorem Reading.returned (h : Reading cfg s peer base calls limit c) {t : ℕ} (ht : t ∈ calls)
    (hended : c.Ended t) : c.task t = .ret (expected s peer (limit t) base) := by
  obtain ⟨P, hP, hPs⟩ := h.outlined t
  rcases hended with ⟨a, ha⟩ | ⟨e, he⟩
  · rw [ha] at hP ⊢
    obtain ⟨I, hI, -, hpost⟩ := hP
    exact congrArg _ (Except.ok.inj (hpost _ (hI _ hPs) ht))
  · rw [he] at hP
    obtain ⟨I, hI, -, hpost⟩ := hP
    exact nomatch hpost _ (hI _ hPs) ht

theorem Reaches.reading (hrun : Reaches (system cfg) (NotNarrowed peer limit) c c')
    (h : Reading cfg s peer base calls limit c) : Reading cfg s peer base calls limit c' :=
  hrun.preserves (fun _ _ _ h hm hs ↦ h.step hm hs) h

/-- When nobody is inside a section or waits for one, all locks are free. -/
theorem Guarded.alone {w : World} (h : Guarded w) (houtside : ∀ t, w.place t = .outside) (t : ℕ) :
    Alone t none w := by
  refine ⟨fun lock ↦ ?_, fun u _ ↦ houtside u, fun _ ↦ houtside t⟩
  rw [if_neg nofun]
  obtain ⟨owner, howned, howner⟩ := h.owned lock
  have hnone : owner = none := by
    cases owner with
    | none => rfl
    | some u =>
      obtain ⟨p, hp⟩ := (howner u).mp rfl
      cases (houtside u).symm.trans hp
  have hlocked := howned.locked_eq
  rw [hnone] at hlocked
  cases hl : w.peers.locks lock with
  | mk locked waiters =>
    rw [hl] at hlocked
    cases waiters with
    | nil =>
      rw [show locked = false from hlocked]
      rfl
    | cons v ws =>
      obtain ⟨p, hp⟩ := (h.queued lock v.1).mp (by rw [hl]; exact List.mem_cons_self)
      cases (houtside v.1).symm.trans hp

/-- Before a call has entered its section, it loads nothing. -/
theorem Readers.notNarrowed_of_alone (h : Readers cfg peer calls limit c) {t : ℕ}
    (hc' : ∀ u, u ≠ t → c'.task u = c.task u) : NotNarrowed peer limit c' (.run t) := by
  refine ⟨fun _ ↦ nofun, fun u low high k hu _ v hv hload ↦ ?_⟩
  obtain rfl := Move.run.inj hu
  rw [hc' v hv, loadWindow_eq] at hload
  by_cases hmem : v ∈ calls
  · rw [(h.history v hmem).2, history_eq] at hload
    cases hload
  · rcases h.ended v hmem with ⟨a, ha⟩ | ⟨e, he⟩
    · cases ha.symm.trans hload
    · cases he.symm.trans hload

/-- A call that runs alone returns the newest page. -/
theorem Readers.run_alone (h : Readers cfg peer calls limit c) {t : ℕ} (ht : t ∈ calls) :
    ∃ w, (MessageStore.history peer (limit t) 0).run (system cfg) t c.shared =
      some (.ok (expected c.shared.server peer (limit t) c.shared.db), w) := by
  obtain ⟨x, w, hrun, -⟩ := Bracketed.run (.prog (.history peer (limit t) 0)) cfg
    (h.guarded.alone h.outside t)
  have hp := (h.history t ht).2
  obtain ⟨n, hn⟩ := Config.exec_of_run (S := system cfg) (c := c) (t := t) (x := x) (s := w)
    (by rw [hp]; exact hrun)
  have hinv := Reaches.reading
    (reaches_of_exec_replicate (fun _ hc' ↦ h.notNarrowed_of_alone hc') hn) h.reading
  have htask : (Function.update c.task t (.ended x)) t = .ended x := Function.update_self ..
  refine ⟨w, ?_⟩
  cases x with
  | ok msgs =>
    have hret := hinv.returned ht (.inl ⟨msgs, htask⟩)
    rw [show Config.task _ t = _ from htask] at hret
    obtain rfl := Prog.ret.inj hret
    exact hrun
  | error e =>
    have hret := hinv.returned ht (.inr ⟨e, htask⟩)
    rw [show Config.task _ t = _ from htask] at hret
    cases hret

end Runs

theorem readers_twoReaders (cfg : Setup) (hon : ∀ n, cfg.faults n = none) {l l' : ℕ} (hl : 1 ≤ l)
    (hl' : 1 ≤ l') : Readers cfg 7 {0, 1} (fun t ↦ if t = 0 then l else l') (twoReaders l l') where
  history t ht := by
    rcases Finset.mem_insert.mp ht with rfl | ht
    · exact ⟨hl, rfl⟩
    · obtain rfl := Finset.mem_singleton.mp ht
      exact ⟨hl', rfl⟩
  ended t ht := by
    match t with
    | 0 => exact absurd (Finset.mem_insert_self ..) ht
    | 1 => exact absurd (Finset.mem_insert_of_mem (Finset.mem_singleton_self 1)) ht
    | t + 2 => exact .inl ⟨[], rfl⟩
  guarded := .init _
  outside _ := rfl
  syncs := Nat.zero_le _
  online n _ := hon n
  window := .inl rfl

end TgMessenger.MessageStore
