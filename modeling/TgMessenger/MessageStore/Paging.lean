import TgMessenger.MessageStore.Discipline
import TgMessenger.MessageStore.Sync

/-!
# Paging twice at the same offset

`_history_before` serves a page below an offset from the database when the window covers
it, and otherwise fetches the page and, when the offset lies in the window, extends the
window down to the page's low id.  Unlike `_replace_window` it does not prune the range it
adds: a row there that the server has no message for becomes part of the window.

So the page that is fetched and the page that the same call serves from the database
afterwards have the same ids exactly when no such row was stored: `Stale` is the condition,
and `paging_agrees_iff` holds between any two calls of a session.
-/

namespace TgMessenger.MessageStore

open Asyncio

/-- Some row between two ids has no message on the server. -/
def Stale (db : Db) (s : Server) (peer low offset : ℤ) : Prop :=
  ∃ id, low ≤ id ∧ id < offset ∧ db.Has peer id ∧ ∀ m ∈ s.live peer, m.id ≠ id

/-! ## The coroutine alone -/

/-- What a call of `history` with an offset does, by where the offset lies. -/
inductive PageOutcome (peer : ℤ) (limit : ℕ) (offset : ℤ) (w w' : World) :
    List Message → Prop where
  | /-- The window covers the page. -/
    cached {low high : ℤ} (hrow : w.db.sync peer = some (low, high))
      (hin : low ≤ offset ∧ offset ≤ high)
      (hfull : low = 0 ∨ limit ≤ (w.db.loadBefore peer limit offset low).length)
      (hsame : SameData w w') : PageOutcome peer limit offset w w'
        (w.db.loadBefore peer limit offset low)
  | /-- The offset lies in the window, which is extended by the fetched page. -/
    absorbed {low high : ℤ} (hrow : w.db.sync peer = some (low, high))
      (hin : low ≤ offset ∧ offset ≤ high)
      (hfull : ¬(low = 0 ∨ limit ≤ (w.db.loadBefore peer limit offset low).length))
      (hserver : w'.server = w.server) (hreq : w.requests.length < w'.requests.length)
      (hmessages : w'.db.messages = (w.db.upsertAll (w.server.history peer limit offset)).messages)
      (hsync : w'.db.sync peer =
        some (min (pageLow (w.server.history peer limit offset) limit) low, high)) :
      PageOutcome peer limit offset w w' (w.server.history peer limit offset)
  | /-- The offset lies outside the window, which stays as it is. -/
    fetched (hout : ∀ low high, w.db.sync peer = some (low, high) →
        ¬(low ≤ offset ∧ offset ≤ high))
      (hserver : w'.server = w.server) (hreq : w.requests.length < w'.requests.length)
      (hsync : w'.db.sync peer = w.db.sync peer) :
      PageOutcome peer limit offset w w' (w.server.history peer limit offset)

section Run

variable {cfg : Setup} {t : ℕ} {peer offset : ℤ} {limit : ℕ} {w : World}

/-- `_history_before`. -/
theorem run_historyBefore (hon : Online cfg w) :
    ∃ msgs w', (historyBefore peer limit offset).run (system cfg) t w = some (.ok msgs, w') ∧
      PageOutcome peer limit offset w w' msgs := by
  have hfetch : (do
      let fetched : List Message ← perform (.clientHistory peer limit offset)
      Prog.forEach upsertMessage fetched
      return fetched).run (system cfg) t w = some (.ok (w.server.history peer limit offset),
        { w with requests := .before peer limit offset :: w.requests
                 db := w.db.upsertAll (w.server.history peer limit offset) }) := by
    rw [Prog.run_bind_ok _ _ (Prog.run_perform_ok _ _ (request_ok hon ..)),
      Prog.run_bind_ok _ _ (run_upsertAll ..)]
    rfl
  rw [historyBefore, Prog.run_bind_ok _ _ (Prog.run_perform_ok _ _ rfl)]
  cases hrow : w.db.syncRow peer with
  | none =>
    refine ⟨_, _, hfetch, .fetched (fun low high h ↦ ?_) rfl (Nat.lt_succ_self _) ?_⟩
    · cases h.symm.trans hrow
    · exact congrFun (Db.sync_upsertAll ..) peer
  | some row =>
    obtain ⟨low, high⟩ := row
    by_cases hin : low ≤ offset ∧ offset ≤ high
    · dsimp only
      rw [if_pos hin, Prog.run_bind_ok _ _ (Prog.run_perform_ok _ _ rfl)]
      by_cases hfull : low = 0 ∨ limit ≤ (w.db.loadBefore peer limit offset low).length
      · rw [if_pos hfull]
        exact ⟨_, w, rfl, .cached hrow hin hfull ⟨rfl, rfl, rfl⟩⟩
      · rw [if_neg hfull, Prog.run_bind_ok _ _ (Prog.run_perform_ok _ _ (request_ok hon ..)),
          Prog.run_bind_ok _ _ (run_upsertAll ..)]
        by_cases hlow : pageLow (w.server.history peer limit offset) limit < low
        · refine ⟨_, _, (congrArg (Prog.run _ _ · _) (if_pos hlow)).trans rfl,
            .absorbed hrow hin hfull rfl (Nat.lt_succ_self _) rfl ?_⟩
          rw [min_eq_left hlow.le]
          exact Db.sync_setSyncRow_self ..
        · refine ⟨_, _, (congrArg (Prog.run _ _ · _) (if_neg hlow)).trans rfl,
            .absorbed hrow hin hfull rfl (Nat.lt_succ_self _) rfl ?_⟩
          rw [min_eq_right (not_lt.mp hlow)]
          exact (congrFun (Db.sync_upsertAll ..) peer).trans hrow
    · refine ⟨_, _, (congrArg (Prog.run _ _ · _) (if_neg hin)).trans hfetch,
        .fetched (fun l h hrow' ↦ ?_) rfl (Nat.lt_succ_self _) ?_⟩
      · obtain ⟨rfl, rfl⟩ := Prod.mk.inj (Option.some.inj (hrow'.symm.trans hrow))
        exact hin
      · exact congrFun (Db.sync_upsertAll ..) peer

/-- An outcome only depends on the data. -/
theorem PageOutcome.congr {w₁ w₂ w' : World} {msgs : List Message} (hpre : SameData w w₁)
    (h : PageOutcome peer limit offset w₁ w₂ msgs) (hpost : SameData w₂ w') :
    PageOutcome peer limit offset w w' msgs := by
  obtain ⟨hdb, hserver, hreq⟩ := hpre
  obtain ⟨hdb', hserver', hreq'⟩ := hpost
  cases h with
  | cached hrow hin hfull hsame =>
    rw [hdb] at hrow hfull ⊢
    exact .cached hrow hin hfull (SameData.trans ⟨hdb, hserver, hreq⟩
      (hsame.trans ⟨hdb', hserver', hreq'⟩))
  | absorbed hrow hin hfull hs hr hm hsync =>
    rw [hdb] at hrow hfull hm
    rw [hserver] at hs hm hsync ⊢
    rw [hreq] at hr
    rw [← hdb'] at hm hsync
    rw [← hserver'] at hs
    rw [← hreq'] at hr
    exact .absorbed hrow hin hfull hs hr hm hsync
  | fetched hout hs hr hsync =>
    rw [hdb] at hout hsync
    rw [hserver] at hs ⊢
    rw [hreq] at hr
    rw [← hdb'] at hsync
    rw [← hserver'] at hs
    rw [← hreq'] at hr
    exact .fetched hout hs hr hsync

/-- A whole call of `history` with an offset. -/
theorem run_history_before (hon : Online cfg w) (hoffset : 0 < offset) (halone : Alone t none w) :
    ∃ msgs w', (history peer limit offset).run (system cfg) t w = some (.ok msgs, w') ∧
      PageOutcome peer limit offset w w' msgs ∧ Alone t none w' := by
  obtain ⟨msgs, w', hrun, h⟩ := run_withPeerLock
    (Q := fun msgs w' ↦ PageOutcome peer limit offset w w' msgs)
    ⟨halone.here rfl, fun lock _ ↦ halone.locks_eq lock⟩
    (fun w₁ h₁ ↦ (run_historyBefore (hon.later (by rw [h₁.2.2]))).imp
      fun msgs ↦ Exists.imp fun w' h ↦ ⟨h.1, h.2.congr h₁ ⟨rfl, rfl, rfl⟩⟩)
    fun msgs w₁ w₂ h₁₂ h ↦ h.congr ⟨rfl, rfl, rfl⟩ h₁₂
  have hhistory : history peer limit offset = withPeerLock peer (historyBefore peer limit offset) :=
    if_pos hoffset
  obtain ⟨x, w'', hrun', halone'⟩ := (Bracketed.prog (.history peer limit offset)).run cfg halone
  rw [Call.prog, hhistory] at hrun'
  obtain ⟨rfl, rfl⟩ := Prod.mk.inj (Option.some.inj (hrun.symm.trans hrun'))
  exact ⟨msgs, w', hhistory ▸ hrun, h, halone'⟩

end Run

/-! ## The fetched page and the stored page -/

section Pages

variable {db : Db} {s : Server} {peer low offset : ℤ} {limit : ℕ}

/-- The ids of the rows below an offset, down to some id. -/
def storedIds (db : Db) (peer low offset : ℤ) : List ℤ :=
  (db.selected (Db.beforeOffset peer offset low)).map Message.id

theorem mem_storedIds {id : ℤ} :
    id ∈ storedIds db peer low offset ↔ low ≤ id ∧ id < offset ∧ db.Has peer id := by
  simp only [storedIds, List.mem_map, Db.mem_selected, Db.beforeOffset_key]
  constructor
  · rintro ⟨m, ⟨⟨rfl, hl, ho⟩, r, hr, -⟩, rfl⟩
    exact ⟨hl, ho, r, hr⟩
  · rintro ⟨hl, ho, r, hr⟩
    exact ⟨rowToMessage (key peer id) r, ⟨⟨rfl, hl, ho⟩, r, hr, rfl⟩, rfl⟩

theorem ascending_storedIds : (storedIds db peer low offset).Pairwise (· < ·) := by
  refine List.pairwise_map.mpr (Db.ascending_selected peer (fun k hk ↦ ?_) db)
  simp only [Db.beforeOffset, decide_eq_true_eq] at hk
  exact hk.1

theorem ids_loadBefore : (db.loadBefore peer limit offset low).map Message.id =
    (storedIds db peer low offset).rtake limit := by
  rw [Db.loadBefore, Db.load_eq_rtake, List.map_rtake, storedIds]

theorem ascending_history : (s.history peer limit offset).Pairwise fun a b ↦ a.id < b.id :=
  (s.ascending peer).sublist (s.history_sublist ..)

theorem length_history_le : (s.history peer limit offset).length ≤ limit := by
  rw [Server.history, List.length_rtake]
  exact min_le_left ..

theorem mem_history (hoffset : 0 < offset) {m : Message} (hm : m ∈ s.history peer limit offset) :
    m ∈ s.live peer ∧ m.id < offset := by
  have hmem := List.mem_filter.mp ((List.rtake_suffix ..).subset hm)
  refine ⟨hmem.1, ?_⟩
  have := of_decide_eq_true hmem.2
  omega

/-- What the server has from the low id of a page up to the offset is on the page. -/
theorem mem_history_of_pageLow_le (hlimit : 1 ≤ limit) {m : Message} (hm : m ∈ s.live peer)
    (hlow : pageLow (s.history peer limit offset) limit ≤ m.id) (hoffset : m.id < offset) :
    m ∈ s.history peer limit offset :=
  mem_rtake_of_pageLow_le ((s.ascending peer).filter _) hlimit
    (List.mem_filter.mpr ⟨hm, decide_eq_true (.inr hoffset)⟩) hlow

theorem has_upsertAll {page : List Message} (hpage : page.Pairwise fun a b ↦ a.id < b.id)
    (hdialog : ∀ m ∈ page, m.dialogId = peer) {id : ℤ} :
    (db.upsertAll page).Has peer id ↔ db.Has peer id ∨ ∃ m ∈ page, m.id = id := by
  rw [Db.has_iff_row?, Db.row?_upsertAll hpage hdialog]
  cases hm : pageMessage? page id with
  | none =>
    have := pageMessage?_eq_none_iff.mp hm
    exact ⟨.inl, fun h ↦ h.resolve_right fun ⟨m, hmem, hid⟩ ↦ this m hmem hid⟩
  | some m => exact ⟨fun _ ↦ .inr ⟨m, mem_of_pageMessage? hm⟩, fun _ ↦ ⟨_, rfl⟩⟩

/-- A page fetched because the window had too few rows begins below the window. -/
theorem pageLow_lt {w : World} {high : ℤ} (hc : Covered w)
    (hoffset : 0 < offset) (hrow : w.db.sync peer = some (low, high))
    (hin : low ≤ offset ∧ offset ≤ high)
    (hfull : ¬(low = 0 ∨ limit ≤ (w.db.loadBefore peer limit offset low).length)) :
    pageLow (w.server.history peer limit offset) limit < low := by
  obtain ⟨hnonneg, hwindow⟩ := hc peer low high hrow
  rcases lt_or_ge (w.server.history peer limit offset).length limit with hlen | hlen
  · rw [pageLow, if_pos hlen]
    omega
  · by_contra hge
    -- The whole page would lie in the window and have rows there.
    have hsub : (w.server.history peer limit offset).map Message.id ⊆
        storedIds w.db peer low offset := by
      intro id hid
      obtain ⟨m, hm, rfl⟩ := List.mem_map.mp hid
      obtain ⟨hlive, hlt⟩ := mem_history hoffset hm
      have hlow := (not_lt.mp hge).trans (pageLow_le hlen hm)
      exact mem_storedIds.mpr ⟨hlow, hlt, hwindow.holds m hlive hlow (by omega)⟩
    have hnodup : ((w.server.history peer limit offset).map Message.id).Nodup :=
      List.pairwise_map.mpr (ascending_history.imp fun h ↦ ne_of_lt h)
    have hle := (List.subperm_of_subset hnodup hsub).length_le
    have hcached := congrArg List.length (@ids_loadBefore w.db peer low offset limit)
    rw [List.length_map, List.length_rtake] at hcached
    rw [List.length_map] at hle
    omega

/-- After a page was written, the database serves the same ids exactly when no stale row
was stored beside it. -/
theorem ids_loadBefore_eq_iff (hlimit : 1 ≤ limit) (hoffset : 0 < offset) {db' : Db}
    (hmessages : db'.messages = (db.upsertAll (s.history peer limit offset)).messages) :
    (db'.loadBefore peer limit offset (pageLow (s.history peer limit offset) limit)).map
        Message.id = (s.history peer limit offset).map Message.id ↔
      ¬Stale db s peer (pageLow (s.history peer limit offset) limit) offset := by
  have hhas (id : ℤ) : db'.Has peer id ↔
      db.Has peer id ∨ ∃ m ∈ s.history peer limit offset, m.id = id := by
    rw [← has_upsertAll ascending_history fun m hm ↦ s.owned peer m (mem_history hoffset hm).1,
      Db.Has, hmessages]
    rfl
  have hpage : ∀ m ∈ s.history peer limit offset,
      m.id ∈ storedIds db' peer (pageLow (s.history peer limit offset) limit) offset := by
    intro m hm
    have hlow : pageLow (s.history peer limit offset) limit ≤ m.id := pageLow_le_of_mem
      (fun m hm ↦ (s.bounded peer m (mem_history hoffset hm).1).1) hm
    exact mem_storedIds.mpr ⟨hlow, (mem_history hoffset hm).2, (hhas m.id).mpr (.inr ⟨m, hm, rfl⟩)⟩
  rw [ids_loadBefore, List.rtake_eq_iff (f := id) ascending_storedIds
    (List.pairwise_map.mpr ascending_history)]
  · constructor
    · rintro h ⟨id, hl, ho, hrow, hgone⟩
      obtain ⟨m, hm, hid⟩ := List.mem_map.mp
        (h id (mem_storedIds.mpr ⟨hl, ho, (hhas id).mpr (.inl hrow)⟩))
      exact hgone m (mem_history hoffset hm).1 hid
    · intro h id hid
      obtain ⟨hl, ho, hrow⟩ := mem_storedIds.mp hid
      by_contra hnot
      have hnone : ∀ m ∈ s.history peer limit offset, m.id ≠ id :=
        fun m hm hmid ↦ hnot (hmid ▸ List.mem_map_of_mem hm)
      have hstored : db.Has peer id := by
        rcases (hhas id).mp hrow with hold | ⟨m, hm, hmid⟩
        · exact hold
        · exact absurd hmid (hnone m hm)
      refine h ⟨id, hl, ho, hstored, fun m hm hmid ↦ ?_⟩
      subst hmid
      exact hnone m (mem_history_of_pageLow_le hlimit hm hl ho) rfl
  · intro id hid
    obtain ⟨m, hm, rfl⟩ := List.mem_map.mp hid
    exact hpage m hm
  · rw [List.length_map]
    exact length_history_le
  · rw [List.length_map]
    refine (lt_or_ge _ limit).imp_right fun hlen ↦ ?_
    obtain ⟨m, hm, hid⟩ := exists_mem_pageLow hlen hlimit
    refine ⟨m.id, List.mem_map_of_mem hm, fun id hid' ↦ ?_⟩
    rw [hid]
    exact (mem_storedIds.mp hid').1

end Pages

/-! ## Two calls -/

/-- Two calls of `history` at the same offset, the first served by the client, the second
from the database: their pages have the same ids exactly when no stale row was stored
from the low id of the page up to the offset. -/
theorem paging_agrees_iff {cfg : Setup} {c : StoreConfig} (h : Session cfg c)
    (hended : ∀ u, c.Ended u) (hon : Online cfg c.shared) {peer offset : ℤ} {limit : ℕ}
    (hlimit : 1 ≤ limit) (hoffset : 0 < offset) (t u : ℕ) :
    ∃ first w₁ second w₂,
      (history peer limit offset).run (system cfg) t c.shared = some (.ok first, w₁) ∧
      (history peer limit offset).run (system cfg) u w₁ = some (.ok second, w₂) ∧
      (w₁.requests ≠ c.shared.requests → w₂.requests = w₁.requests →
        (second.map Message.id = first.map Message.id ↔
          ¬Stale c.shared.db c.shared.server peer
            (pageLow (c.shared.server.history peer limit offset) limit) offset)) := by
  obtain ⟨first, w₁, hrun₁, h₁, halone⟩ := run_history_before
    hon hoffset (h.solo.alone hended t)
  have hon₁ : Online cfg w₁ := by
    refine hon.later ?_
    cases h₁ with
    | cached _ _ _ hsame => rw [hsame.2.2]
    | absorbed _ _ _ _ hreq _ _ => exact hreq.le
    | fetched _ _ hreq _ => exact hreq.le
  obtain ⟨second, w₂, hrun₂, h₂, -⟩ := run_history_before
    hon₁ hoffset (halone.change u)
  refine ⟨first, w₁, second, w₂, hrun₁, hrun₂, fun hfirst hsecond ↦ ?_⟩
  cases h₁ with
  | cached _ _ _ hsame => exact absurd hsame.2.2 hfirst
  | fetched hout hserver hreq hsync =>
    cases h₂ with
    | cached hrow hin _ _ => exact absurd hin (hout _ _ (hsync ▸ hrow))
    | absorbed _ _ _ _ hreq' _ _ => exact absurd (congrArg List.length hsecond) (ne_of_gt hreq')
    | fetched _ _ hreq' _ => exact absurd (congrArg List.length hsecond) (ne_of_gt hreq')
  | absorbed hrow hin hfull hserver hreq hmessages hsync =>
    cases h₂ with
    | absorbed _ _ _ _ hreq' _ _ => exact absurd (congrArg List.length hsecond) (ne_of_gt hreq')
    | fetched _ _ hreq' _ => exact absurd (congrArg List.length hsecond) (ne_of_gt hreq')
    | cached hrow' _ _ _ =>
      have hlow := pageLow_lt h.covered hoffset hrow hin hfull
      rw [min_eq_left hlow.le] at hsync
      obtain ⟨rfl, -⟩ := Prod.mk.inj (Option.some.inj (hrow'.symm.trans hsync))
      exact ids_loadBefore_eq_iff hlimit hoffset hmessages

/-- The newest three of five messages were synced, then message 3 was deleted while the
client was offline, and the page below 5 was asked for twice. -/
theorem offline_deletion :
    ∃ c first w₁ second w₂, Session .calm c ∧ (∀ u, c.Ended u) ∧
      (history 7 3 5).run (system .calm) 0 c.shared = some (.ok first, w₁) ∧
      (history 7 3 5).run (system .calm) 0 w₁ = some (.ok second, w₂) ∧
      w₁.requests ≠ c.shared.requests ∧ w₂.requests = w₁.requests ∧
      first.map Message.id = [1, 2, 4] ∧ second.map Message.id = [2, 3, 4] := by
  have hrun : ((history 7 3 0).run (system .calm) 0 (.init (.ofIds 7 [1, 2, 3, 4, 5]))).bind
      (fun a ↦ ((history 7 3 5).run (system .calm) 0
          { a.2 with server := a.2.server.delete 7 [3] }).bind
        fun b ↦ ((history 7 3 5).run (system .calm) 0 b.2).map fun d ↦
          ((b.1.map (List.map Message.id), d.1.map (List.map Message.id)),
            (a.2.requests, b.2.requests, d.2.requests))) =
      some ((.ok [1, 2, 4], .ok [2, 3, 4]),
        ([.since 7 0 3], [.before 7 3 5, .since 7 0 3], [.before 7 3 5, .since 7 0 3])) := by
    decide
  obtain ⟨⟨x, w⟩, hrun₀, hrun⟩ := Option.bind_eq_some_iff.mp hrun
  obtain ⟨⟨first, w₁⟩, hrun₁, hrun⟩ := Option.bind_eq_some_iff.mp hrun
  obtain ⟨⟨second, w₂⟩, hrun₂, hres⟩ := Option.map_eq_some_iff.mp hrun
  simp only [Prod.mk.injEq] at hres
  obtain ⟨⟨hfirst, hsecond⟩, hreq, hreq₁, hreq₂⟩ := hres
  obtain ⟨c, hc, rfl, hended⟩ := (Session.init (.ofIds 7 [1, 2, 3, 4, 5]) : Session .calm _).run
    (fun _ ↦ .inl ⟨[], rfl⟩) (.history 7 3 0) (by decide : 1 ≤ 3) hrun₀
  have hc' := hc.step (.env (.delete 7 [3])) rfl
  cases first with
  | error e => cases hfirst
  | ok first =>
    cases second with
    | error e => cases hsecond
    | ok second =>
      refine ⟨_, first, w₁, second, w₂, hc', fun u ↦ hended u, hrun₁, hrun₂, ?_, ?_,
        Except.ok.inj hfirst, Except.ok.inj hsecond⟩
      · rw [hreq₁, show _ = _ from hreq]
        decide
      · rw [hreq₁, hreq₂]

/-- The server no longer has the row of message 3. -/
theorem paging_agrees_iff_offline_deletion :
    ∃ c, Session .calm c ∧ Stale c.shared.db c.shared.server 7
      (pageLow (c.shared.server.history 7 3 5) 3) 5 := by
  obtain ⟨c, first, w₁, second, w₂, hc, hended, hrun₁, hrun₂, hreq₁, hreq₂, hfirst, hsecond⟩ :=
    offline_deletion
  obtain ⟨first', w₁', second', w₂', hrun₁', hrun₂', h⟩ := @paging_agrees_iff .calm c hc hended
    (fun _ _ ↦ rfl) 7 5 3 (by decide) (by decide) 0 0
  cases hrun₁.symm.trans hrun₁'
  cases hrun₂.symm.trans hrun₂'
  have hiff := h hreq₁ hreq₂
  rw [hfirst, hsecond] at hiff
  exact ⟨c, hc, not_not.mp fun hstale ↦ absurd (hiff.mpr hstale) (by decide)⟩

/-- The page served from the database is not the page the client served. -/
theorem paging_disagrees :
    ∃ c first w₁ second w₂, Session .calm c ∧ (∀ u, c.Ended u) ∧
      (history 7 3 5).run (system .calm) 0 c.shared = some (.ok first, w₁) ∧
      (history 7 3 5).run (system .calm) 0 w₁ = some (.ok second, w₂) ∧
      w₁.requests ≠ c.shared.requests ∧ w₂.requests = w₁.requests ∧
      second.map Message.id ≠ first.map Message.id := by
  obtain ⟨c, first, w₁, second, w₂, hc, hended, hrun₁, hrun₂, hreq₁, hreq₂, hfirst, hsecond⟩ :=
    offline_deletion
  refine ⟨c, first, w₁, second, w₂, hc, hended, hrun₁, hrun₂, hreq₁, hreq₂, ?_⟩
  rw [hfirst, hsecond]
  decide

end TgMessenger.MessageStore
