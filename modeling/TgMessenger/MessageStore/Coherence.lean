import TgMessenger.MessageStore.Sync

/-!
# A window that agrees with a server that does not move

Several calls of `history` sync the window of one dialog, each with its own limit, while
the server stands still.  `Coherent` is what they keep true of the database after every
single statement: a row of a message on the server is the stored row, possibly merged
with the message, and the window is the newest page for some limit.  `Op.Harmless` says
which statements keep it, and that they keep the rows of every such window, wide or
narrow.  Only the sync row tells the windows apart.
-/

namespace TgMessenger.MessageStore

open Asyncio

/-- Two messages of a dialog have different ids. -/
theorem Server.eq_of_id {s : Server} {peer : ℤ} {m m' : Message} (hm : m ∈ s.live peer)
    (hm' : m' ∈ s.live peer) (hid : m.id = m'.id) : m = m' := by
  have h := pageMessage?_of_mem (s.ascending peer) hm
  rw [hid, pageMessage?_of_mem (s.ascending peer) hm'] at h
  exact (Option.some.inj h).symm

/-- The newest page has the message. -/
theorem pageMessage?_newest {s : Server} {peer : ℤ} {limit : ℕ} {m : Message}
    (hlimit : 1 ≤ limit) (hm : m ∈ s.live peer)
    (hlow : pageLow (s.newest peer limit) limit ≤ m.id) :
    pageMessage? (s.newest peer limit) m.id = some m :=
  pageMessage?_of_mem (ascending_newest ..)
    (mem_rtake_of_pageLow_le (s.ascending peer) hlimit hm hlow)

/-! ## Statements of a sync -/

/-- What the `history` calls for a dialog do to the store, as far as a single operation
shows it. -/
def Op.Harmless (s : Server) (peer : ℤ) : Op → Prop
  | .upsert m tt tl pt => m ∈ s.live peer ∧ tt = none ∧ tl = none ∧ pt = true
  | .deleteDialog d => d = peer ∧ s.live peer = []
  | .pruneWindow d low high ids =>
    d = peer ∧ ∀ m ∈ s.live peer, low ≤ m.id → m.id ≤ high → m.id ∈ ids
  | .setSyncRow d _ _ => d = peer
  | .lockPeer d => d = peer
  | .rememberSync d => d = peer
  | .deleteIds .. => False
  | .deleteRow .. => False
  | _ => True

/-- The rows of the messages on the server are the stored ones, possibly merged. -/
def Kept (s : Server) (peer : ℤ) (base db : Db) : Prop :=
  ∀ m ∈ s.live peer, db.row? peer m.id = base.row? peer m.id ∨
    db.row? peer m.id = some (fetchedRow m (base.row? peer m.id))

section Harmless

variable {s : Server} {peer : ℤ} {base db : Db} {o : Op}

theorem Kept.refl (s : Server) (peer : ℤ) (base : Db) : Kept s peer base base :=
  fun _ _ ↦ .inl rfl

/-- Merging a message again gives what merging it once gave. -/
theorem Kept.fetchedRow_eq (h : Kept s peer base db) {m : Message} (hm : m ∈ s.live peer) :
    fetchedRow m (db.row? peer m.id) = fetchedRow m (base.row? peer m.id) := by
  rcases h m hm with h | h
  · rw [h]
  · rw [h, fetchedRow_fetchedRow]

/-- The row an upsert of a message on the server leaves. -/
theorem row?_upsert_live {m : Message} (hm : m ∈ s.live peer) (db : Db) (id : ℤ) :
    (db.upsertMessage m none none true).row? peer id =
      if id = m.id then some (fetchedRow m (db.row? peer m.id)) else db.row? peer id := by
  rw [Db.row?_upsertMessage, s.owned peer m hm]
  simp only [true_and]

theorem Kept.onDb (h : Kept s peer base db) (ho : o.Harmless s peer) :
    Kept s peer base (o.onDb db) := by
  intro m hm
  cases o with
  | upsert m' tt tl pt =>
    obtain ⟨hm', rfl, rfl, rfl⟩ := ho
    rw [Op.onDb, row?_upsert_live hm']
    split_ifs with hid
    · obtain rfl := Server.eq_of_id hm hm' hid
      exact .inr (congrArg some (h.fetchedRow_eq hm))
    · exact h m hm
  | deleteDialog d =>
    rw [ho.2] at hm
    exact absurd hm List.not_mem_nil
  | pruneWindow d low high ids =>
    rw [Op.onDb, Db.row?_pruneWindow, if_neg]
    · exact h m hm
    · exact fun ⟨_, hl, hh, hid⟩ ↦ hid (ho.2 m hm hl hh)
  | deleteIds _ _ => exact ho.elim
  | deleteRow _ _ => exact ho.elim
  | setSyncRow d low high => exact h m hm
  | _ => exact h m hm

/-- The rows of the window for some limit. -/
def WindowRows (s : Server) (peer : ℤ) (limit : ℕ) (base db : Db) : Prop :=
  ∀ id, pageLow (s.newest peer limit) limit ≤ id → id ≤ pageHigh (s.newest peer limit) →
    db.row? peer id =
      (pageMessage? (s.newest peer limit) id).map fun m ↦ fetchedRow m (base.row? peer id)

theorem WindowRows.onDb {limit : ℕ} (h : WindowRows s peer limit base db) (hlimit : 1 ≤ limit)
    (ho : o.Harmless s peer) : WindowRows s peer limit base (o.onDb db) := by
  intro id hl hh
  cases o with
  | upsert m tt tl pt =>
    obtain ⟨hm, rfl, rfl, rfl⟩ := ho
    rw [Op.onDb, row?_upsert_live hm]
    split_ifs with hid
    · subst hid
      rw [h m.id hl hh, pageMessage?_newest hlimit hm hl]
      exact congrArg some (fetchedRow_fetchedRow m _)
    · exact h id hl hh
  | deleteDialog d =>
    obtain ⟨rfl, hlive⟩ := ho
    have hnone : pageMessage? (s.newest d limit) id = none := by
      rw [pageMessage?_eq_none_iff, Server.newest, hlive]
      exact fun m hm ↦ absurd ((List.rtake_suffix ..).subset hm) List.not_mem_nil
    rw [hnone]
    exact Option.eq_none_iff_forall_ne_some.mpr fun r hr ↦
      ((Db.has_deleteDialog db d id d).mp ⟨r, hr⟩).2 rfl
  | pruneWindow d low high ids =>
    rw [Op.onDb, Db.row?_pruneWindow]
    split_ifs with hid
    · obtain ⟨-, hlow, hhigh, hnotMem⟩ := hid
      refine (Option.map_eq_none_iff.mpr (pageMessage?_eq_none_iff.mpr fun m hm hmid ↦ ?_)).symm
      have hlive := (List.rtake_suffix ..).subset hm
      exact hnotMem (hmid ▸ ho.2 m hlive (hmid ▸ hlow) (hmid ▸ hhigh))
    · exact h id hl hh
  | deleteIds _ _ => exact ho.elim
  | deleteRow _ _ => exact ho.elim
  | setSyncRow d low high => exact h id hl hh
  | _ => exact h id hl hh

end Harmless

/-! ## Coherence -/

/-- The window of a dialog is the newest page for some limit. -/
def Windowed (s : Server) (peer : ℤ) (limit : ℕ) (base db : Db) : Prop :=
  1 ≤ limit ∧ Synced peer (s.newest peer limit) limit base db

/-- Nothing is synced yet, or the window agrees with the server. -/
structure Coherent (s : Server) (peer : ℤ) (base db : Db) : Prop where
  kept : Kept s peer base db
  window : db.sync peer = none ∨ ∃ limit, Windowed s peer limit base db

/-- The window holds all messages the newest page for `limit` has. -/
def Wide (s : Server) (peer : ℤ) (limit : ℕ) (base db : Db) : Prop :=
  ∃ limit', Windowed s peer limit' base db ∧ (s.newest peer limit).length ≤ limit'

section Coherence

variable {s : Server} {peer : ℤ} {base db : Db} {o : Op} {limit : ℕ}

theorem length_newest_le (s : Server) (peer : ℤ) (limit : ℕ) :
    (s.newest peer limit).length ≤ limit := by
  rw [Server.newest, List.length_rtake]
  exact min_le_left ..

/-- A sync with the limit itself. -/
theorem Windowed.wide (h : Windowed s peer limit base db) : Wide s peer limit base db :=
  ⟨limit, h, length_newest_le ..⟩

/-- A window that begins below the newest page for `limit`. -/
theorem Windowed.wide_of_low {limit' : ℕ} (h : Windowed s peer limit' base db)
    (hlow : ∀ m ∈ s.newest peer limit, pageLow (s.newest peer limit') limit' ≤ m.id) :
    Wide s peer limit base db := by
  refine ⟨limit', h, ?_⟩
  have hsub : s.newest peer limit ⊆ s.newest peer limit' := fun m hm ↦
    mem_rtake_of_pageLow_le (s.ascending peer) h.1 ((List.rtake_suffix ..).subset hm) (hlow m hm)
  have hnodup : (s.newest peer limit).Nodup :=
    (ascending_newest s peer limit).imp fun hlt heq ↦ absurd (congrArg Message.id heq) hlt.ne
  exact (List.subperm_of_subset hnodup hsub).length_le.trans (length_newest_le ..)

/-- A window that begins at the first message. -/
theorem Windowed.wide_of_nonpos {limit' : ℕ} (h : Windowed s peer limit' base db)
    (hlow : pageLow (s.newest peer limit') limit' ≤ 0) : Wide s peer limit base db := by
  refine h.wide_of_low fun m hm ↦ hlow.trans (newest_pos m hm).le

/-- Another window with its own rows: what a sync row says is all that changes. -/
theorem Windowed.onDb (h : Windowed s peer limit base db) (ho : o.Harmless s peer)
    (hsync : (o.onDb db).sync = db.sync) : Windowed s peer limit base (o.onDb db) :=
  ⟨h.1, by rw [hsync]; exact h.2.sync_eq, WindowRows.onDb h.2.row?_eq h.1 ho⟩

/-- Syncing on top of rows that were kept is syncing on top of the stored ones. -/
theorem Windowed.rebase {db' : Db} (hlimit : 1 ≤ limit) (hkept : Kept s peer base db)
    (h : Synced peer (s.newest peer limit) limit db db') : Windowed s peer limit base db' := by
  refine ⟨hlimit, h.sync_eq, fun id hl hh ↦ ?_⟩
  rw [h.row?_eq id hl hh]
  cases hm : pageMessage? (s.newest peer limit) id with
  | none => rfl
  | some m =>
    obtain ⟨hmem, rfl⟩ := mem_of_pageMessage? hm
    exact congrArg some (hkept.fetchedRow_eq ((List.rtake_suffix ..).subset hmem))

/-- Either the sync row stays or it is the operation that sets it. -/
theorem Op.sync_onDb (o : Op) (db : Db) :
    (o.onDb db).sync = db.sync ∨ ∃ d low high, o = .setSyncRow d low high := by
  cases o with
  | setSyncRow d low high => exact .inr ⟨d, low, high, rfl⟩
  | _ => exact .inl rfl

/-- Harmless operations keep the database coherent, when sync rows are only set to what
the rows already are. -/
theorem Coherent.onDb (h : Coherent s peer base db) (ho : o.Harmless s peer)
    (hset : ∀ low high, o = .setSyncRow peer low high →
      ∃ limit, Windowed s peer limit base (db.setSyncRow peer low high)) :
    Coherent s peer base (o.onDb db) := by
  refine ⟨h.kept.onDb ho, ?_⟩
  rcases o.sync_onDb db with hsync | ⟨d, low, high, rfl⟩
  · rcases h.window with hnone | ⟨limit, hw⟩
    · exact .inl (by rw [hsync]; exact hnone)
    · exact .inr ⟨limit, hw.onDb ho hsync⟩
  · obtain rfl : d = peer := ho
    exact .inr (hset low high rfl)

/-- They keep a wide window wide, when sync rows are only set to windows that begin below
the newest page for the limit. -/
theorem Wide.onDb (h : Wide s peer limit base db) (ho : o.Harmless s peer)
    (hset : ∀ low high, o = .setSyncRow peer low high →
      (∃ limit, Windowed s peer limit base (db.setSyncRow peer low high)) ∧
        ∀ m ∈ s.newest peer limit, low ≤ m.id) :
    Wide s peer limit base (o.onDb db) := by
  rcases o.sync_onDb db with hsync | ⟨d, low, high, rfl⟩
  · obtain ⟨limit', hw, hlen⟩ := h
    exact ⟨limit', hw.onDb ho hsync, hlen⟩
  · obtain rfl : d = peer := ho
    obtain ⟨⟨limit', hw⟩, hlow⟩ := hset low high rfl
    refine hw.wide_of_low ?_
    have hrow := hw.2.sync_eq
    rw [Db.sync_setSyncRow_self, Option.some.injEq, Prod.mk.injEq] at hrow
    exact hrow.1 ▸ hlow

/-! ## Reading the window -/

/-- What a call returns: the newest page, each message merged into its stored row. -/
def expected (s : Server) (peer : ℤ) (limit : ℕ) (base : Db) : List Message :=
  (s.newest peer limit).map fun m ↦ refreshed (base.row? peer m.id) m

/-- The newest page is the end of a wider one. -/
theorem rtake_newest {limit' : ℕ} (h : (s.newest peer limit).length ≤ limit') :
    (s.newest peer limit').rtake limit = s.newest peer limit := by
  rw [Server.newest, List.length_rtake] at h
  rw [Server.newest, Server.newest, List.rtake, List.rtake, List.rtake, List.length_drop,
    List.drop_drop]
  congr 1
  omega

/-- The rows of a window. -/
theorem WindowRows.selected_eq (h : WindowRows s peer limit base db) :
    db.selected (Db.inWindow peer (pageLow (s.newest peer limit) limit)
      (pageHigh (s.newest peer limit))) = expected s peer limit base := by
  have hsynced : Synced peer (s.newest peer limit) limit base (db.setSyncRow peer
      (pageLow (s.newest peer limit) limit) (pageHigh (s.newest peer limit))) :=
    ⟨Db.sync_setSyncRow_self .., h⟩
  exact hsynced.selected_eq (ascending_newest ..) dialogId_newest newest_pos

/-- Selecting the rows of a wide window with a limit. -/
theorem WindowRows.loadWindow_eq {limit' : ℕ} (h : WindowRows s peer limit' base db)
    (hlen : (s.newest peer limit).length ≤ limit') :
    db.loadWindow peer (pageLow (s.newest peer limit') limit') (pageHigh (s.newest peer limit'))
      limit = expected s peer limit base := by
  rw [Db.loadWindow, Db.load_eq_rtake, h.selected_eq, expected, ← List.map_rtake,
    rtake_newest hlen, expected]

/-- A window with as many rows as asked for is wide. -/
theorem Windowed.wide_of_count {limit' : ℕ} (h : Windowed s peer limit' base db)
    (hcount : limit ≤ db.windowCount peer (pageLow (s.newest peer limit') limit')
      (pageHigh (s.newest peer limit'))) : Wide s peer limit base db := by
  have hlen : limit ≤ (s.newest peer limit').length := by
    rw [Db.windowCount, ← Db.length_selected, WindowRows.selected_eq h.2.row?_eq, expected,
      List.length_map] at hcount
    exact hcount
  exact ⟨limit', h, (length_newest_le ..).trans (hlen.trans (length_newest_le ..))⟩

end Coherence

end TgMessenger.MessageStore
