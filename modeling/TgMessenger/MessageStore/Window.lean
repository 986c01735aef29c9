import TgMessenger.MessageStore.Session

/-!
# The window of a dialog has no hole

Proof outlines for the coroutines of the store.  What a sync has to know before it
replaces the window of a dialog is `Ready`; a page that `history_since` returned is
`Ready` when it was asked for from the beginning or is full.  Paging down extends the
window by a page that reaches up to an offset inside the window.
-/

namespace TgMessenger.MessageStore

open Asyncio

/-- `low` of `_replace_window`, and `new_low` of `_history_before`. -/
def pageLow (page : List Message) (limit : ℕ) : ℤ :=
  if page.length < limit then 0 else (page.map Message.id).min?.getD 0

/-- `high` of `_replace_window`. -/
def pageHigh (page : List Message) : ℤ := (page.map Message.id).max?.getD 0

/-! ## Pages -/

section Pages

variable {s : Server} {peer : ℤ} {limit : ℕ} {page : List Message}

theorem exists_mem_pageLow (h : limit ≤ page.length) (hlimit : 1 ≤ limit) :
    ∃ m ∈ page, m.id = pageLow page limit := by
  have hne : page.map Message.id ≠ [] := by
    rintro hnil
    rw [List.map_eq_nil_iff.mp hnil] at h
    exact absurd (hlimit.trans h) (by simp)
  rw [pageLow, if_neg (not_lt.mpr h)]
  exact List.mem_map.mp (List.min?_getD_mem hne)

theorem pageLow_le {m : Message} (h : limit ≤ page.length) (hm : m ∈ page) :
    pageLow page limit ≤ m.id := by
  rw [pageLow, if_neg (not_lt.mpr h)]
  exact List.min?_getD_le (List.mem_map_of_mem hm)

theorem pageLow_nonneg (h : ∀ m ∈ page, 0 < m.id) : 0 ≤ pageLow page limit := by
  rw [pageLow]
  split_ifs
  · exact le_refl _
  · by_cases hne : page.map Message.id = []
    · rw [hne]
      exact le_refl _
    · obtain ⟨m, hm, hid⟩ := List.mem_map.mp (List.min?_getD_mem hne)
      exact hid ▸ (h m hm).le

theorem le_pageHigh {m : Message} (hm : m ∈ page) : m.id ≤ pageHigh page :=
  List.le_max?_getD (List.mem_map_of_mem hm)

theorem exists_mem_pageHigh (hne : page ≠ []) : ∃ m ∈ page, m.id = pageHigh page :=
  List.mem_map.mp (List.max?_getD_mem fun h ↦ hne (List.map_eq_nil_iff.mp h))

/-- A page of the newest messages holds everything from its low id on. -/
theorem mem_rtake_of_pageLow_le {l : List Message} (hl : l.Pairwise fun a b ↦ a.id < b.id)
    (hlimit : 1 ≤ limit) {m : Message} (hm : m ∈ l) (hlow : pageLow (l.rtake limit) limit ≤ m.id) :
    m ∈ l.rtake limit := by
  by_cases hlen : (l.rtake limit).length < limit
  · rw [List.eq_of_length_rtake_lt hlen]
    exact hm
  · obtain ⟨x, hx, hxid⟩ := exists_mem_pageLow (not_lt.mp hlen) hlimit
    exact List.mem_rtake_of_le hl hx hm (hxid ▸ hlow)

/-- A page `history_since` returned from the beginning, or a full one, is the newest page. -/
theorem historySince_eq_rtake {minId : ℤ}
    (h : minId = 0 ∨ limit ≤ (s.historySince peer minId limit).length) :
    s.historySince peer minId limit = (s.live peer).rtake limit := by
  rcases h with rfl | h
  · exact s.historySince_zero peer limit
  · exact s.historySince_full h

/-- The newest page is complete from its low id to its high id. -/
theorem complete_newest (hlimit : 1 ≤ limit) (hpage : page = (s.live peer).rtake limit)
    (hne : page ≠ []) :
    s.Complete peer (pageLow page limit) (pageHigh page) (· ∈ page.map Message.id) := by
  subst hpage
  refine ⟨?_, fun m hm hl _ ↦ ?_⟩
  · obtain ⟨m, hm, hid⟩ := exists_mem_pageHigh hne
    exact hid ▸ le_max_of_le_left (s.bounded peer m ((List.rtake_suffix ..).subset hm)).2
  · exact List.mem_map_of_mem (mem_rtake_of_pageLow_le (s.ascending peer) hlimit hm hl)

/-- A page below an offset is complete from its low id to the offset. -/
theorem complete_before {offset : ℤ} (hlimit : 1 ≤ limit)
    (hpage : page = s.history peer limit offset) (htop : offset ≤ max (s.top peer) 0) :
    s.Complete peer (pageLow page limit) (offset - 1) (· ∈ page.map Message.id) := by
  subst hpage
  refine ⟨by omega, fun m hm hl hh ↦ List.mem_map_of_mem ?_⟩
  refine mem_rtake_of_pageLow_le ((s.ascending peer).filter _) hlimit ?_ hl
  exact List.mem_filter.mpr ⟨hm, decide_eq_true (.inr (by omega))⟩

end Pages

/-! ## Syncs -/

/-- What a sync knows of a page before it replaces the window by it. -/
def Ready (peer : ℤ) (page : List Message) (limit : ℕ) (w : World) : Prop :=
  (∀ m ∈ page, m.dialogId = peer ∧ 0 < m.id) ∧
    if page = [] then ∀ low high, w.db.sync peer = some (low, high) →
      w.server.Complete peer low high fun _ ↦ False
    else w.server.Complete peer (pageLow page limit) (pageHigh page) (· ∈ page.map Message.id)

theorem stable_ready (peer : ℤ) (page : List Message) (limit : ℕ) :
    Stable ServerMoves (Ready peer page limit) := by
  rintro w w' ⟨hdialog, h⟩ ⟨e, s, hs, rfl⟩
  refine ⟨hdialog, ?_⟩
  split_ifs with hpage
  · rw [if_pos hpage] at h
    exact fun low high hrow ↦ (h low high hrow).apply hs
  · rw [if_neg hpage] at h
    exact h.apply hs

/-- The newest page is ready to become the window. -/
theorem ready_newest {w : World} {peer : ℤ} {limit : ℕ} (hlimit : 1 ≤ limit) (hc : Covered w) :
    Ready peer ((w.server.live peer).rtake limit) limit w := by
  refine ⟨fun m hm ↦ ?_, ?_⟩
  · have hmem := (List.rtake_suffix ..).subset hm
    exact ⟨w.server.owned peer m hmem, (w.server.bounded peer m hmem).1⟩
  split_ifs with hpage
  · have hlive : w.server.live peer = [] := by
      have hlen : ((w.server.live peer).rtake limit).length < limit := by
        rw [hpage]
        exact hlimit
      exact (List.eq_of_length_rtake_lt hlen).symm.trans hpage
    refine fun low high hrow ↦ ⟨(hc peer low high hrow).2.high_le, fun m hm ↦ ?_⟩
    rw [hlive] at hm
    exact absurd hm List.not_mem_nil
  · exact complete_newest hlimit rfl hpage

namespace Keeps

variable {cfg : Setup} {t : ℕ} {peer : ℤ} {limit : ℕ}

/-- `client.history_since`. -/
theorem historySince {minId : ℤ} {R : List Message → World → Prop}
    (hR : ∀ page, Stable ServerMoves (R page))
    (h : ∀ w rs, Covered w →
      R (w.server.historySince peer minId limit) { w with requests := rs }) :
    Keeps cfg t (MessageStore.perform (.historySince peer minId limit)) (fun _ ↦ True) R :=
  request (fun w ↦ w.server.historySince peer minId limit)
    (fun w ↦ ⟨_, w.request_eq cfg (.since peer minId limit) _⟩) (.true _) hR
    fun w rs hc _ ↦ h w rs hc

theorem upsertMessage (m : Message) {P R : World → Prop} (hP : Stable ServerMoves P)
    (hR : Stable ServerMoves R)
    (h : ∀ w, P w → R (w.onDb (.upsertMessage m none none true))) :
    Keeps cfg t (MessageStore.upsertMessage m) P fun _ ↦ R :=
  update (.upsertMessage m none none true) () (fun _ ↦ rfl) hP (fun _ ↦ hR)
    fun w hc hw ↦ ⟨hc.upsert m none none true, h w hw⟩

theorem setSyncRow {low high : ℤ} {P : World → Prop} (hlow : 0 ≤ low)
    (hP : Stable ServerMoves P)
    (h : ∀ w, Covered w → P w → w.server.Complete peer low high (w.db.Has peer)) :
    Keeps cfg t (MessageStore.perform (.setSyncRow peer low high)) P fun _ _ ↦ True :=
  update (.setSyncRow peer low high) () (fun _ ↦ rfl) hP (fun _ ↦ .true _)
    fun w hc hw ↦ ⟨hc.setSyncRow hlow (h w hc hw), trivial⟩

/-- `client.history`. -/
theorem clientHistory {offsetId : ℤ} {P : World → Prop} {R : List Message → World → Prop}
    (hP : Stable ServerMoves P) (hR : ∀ page, Stable ServerMoves (R page))
    (h : ∀ w rs, Covered w → P w →
      R (w.server.history peer limit offsetId) { w with requests := rs }) :
    Keeps cfg t (MessageStore.perform (.clientHistory peer limit offsetId)) P R :=
  request (fun w ↦ w.server.history peer limit offsetId)
    (fun w ↦ ⟨_, w.request_eq cfg (.before peer limit offsetId) _⟩) hP hR h

/-- Writing a page: what is still to be written shrinks to nothing. -/
theorem writePage {page : List Message} {K : World → Prop} (hK : Stable ServerMoves K)
    (hKup : ∀ w m, K w → K (w.onDb (.upsertMessage m none none true)))
    (hdialog : ∀ m ∈ page, m.dialogId = peer) :
    Keeps cfg t (Prog.forEach MessageStore.upsertMessage page) K
      fun _ w ↦ K w ∧ ∀ m ∈ page, w.db.Has peer m.id := by
  have hst : ∀ is : List Message, Stable ServerMoves fun w ↦
      K w ∧ ∀ m ∈ page, m ∈ is ∨ w.db.Has peer m.id :=
    fun is ↦ hK.and (stable_db fun db ↦ ∀ m ∈ page, m ∈ is ∨ db.Has peer m.id)
  have hloop : Keeps cfg t (Prog.forEach MessageStore.upsertMessage page) _ _ := forEach
    (P := fun is w ↦ K w ∧ ∀ m ∈ page, m ∈ is ∨ w.db.Has peer m.id) (hst [])
    (fun i is ↦ upsertMessage i (hst (i :: is)) (hst is) ?_) page
  · exact (hloop.pre fun w _ hw ↦ ⟨hw, fun m hm ↦ .inl hm⟩).post fun _ w _ hw ↦
      ⟨hw.1, fun m hm ↦ (hw.2 m hm).resolve_left List.not_mem_nil⟩
  · rintro w ⟨hw, hrows⟩
    refine ⟨hKup w i hw, fun m hm ↦ ?_⟩
    rcases hrows m hm with hmem | hrow
    · rcases List.mem_cons.mp hmem with rfl | hmem
      · exact .inr ((Db.has_upsertMessage ..).mpr (.inl ⟨(hdialog m hm).symm, rfl⟩))
      · exact .inl hmem
    · exact .inr ((Db.has_upsertMessage ..).mpr (.inr hrow))

/-- `_sync_row`. -/
theorem syncRow {P : World → Prop} (hP : Stable ServerMoves P) :
    Keeps cfg t (MessageStore.perform (.syncRow peer)) P
      fun row w ↦ P w ∧ w.db.sync peer = row :=
  query (fun w ↦ w.db.syncRow peer) (fun _ ↦ rfl) hP
    (fun row ↦ hP.and (stable_db fun db ↦ db.sync peer = row)) fun _ _ hw ↦ ⟨hw, rfl⟩

/-- `_replace_window`. -/
theorem replaceWindow {page : List Message} :
    Keeps cfg t (MessageStore.replaceWindow peer page limit) (Ready peer page limit)
      fun _ _ ↦ True := by
  refine assuming (fun w hw ↦ hw.1) fun hmem ↦ ?_
  have hdialog : ∀ m ∈ page, m.dialogId = peer := fun m hm ↦ (hmem m hm).1
  rw [MessageStore.replaceWindow]
  by_cases hpage : page = []
  · subst hpage
    refine bind (R := fun _ _ ↦ True) ?_ fun _ ↦ ?_
    · refine update (.deleteDialog peer) () (fun _ ↦ rfl) (stable_ready peer [] limit)
        (fun _ ↦ .true _) fun w hc hw ↦ ⟨hc.deleteDialog fun low high hrow ↦ ?_, trivial⟩
      have hempty := hw.2
      rw [if_pos rfl] at hempty
      exact hempty low high hrow
    · refine bind (setSyncRow (le_refl 0) (.true _) ?_) fun _ ↦ ret (.true _) fun _ _ _ ↦ trivial
      intro w _ _
      refine ⟨le_max_right _ _, fun m hm _ hh ↦ ?_⟩
      have := (w.server.bounded peer m hm).1
      omega
  · rw [if_neg (by simpa using hpage)]
    have hcomplete : ∀ w, Ready peer page limit w → w.server.Complete peer
        (pageLow page limit) (pageHigh page) (· ∈ page.map Message.id) := fun w hw ↦ by
      have hw := hw.2
      rwa [if_neg hpage] at hw
    have hlow : 0 ≤ pageLow page limit := pageLow_nonneg fun m hm ↦ (hmem m hm).2
    have hst := (stable_ready peer page limit).and
      (stable_db fun db ↦ ∀ m ∈ page, db.Has peer m.id)
    refine bind (writePage (stable_ready peer page limit) (fun w m hw ↦ hw) hdialog) fun _ ↦ ?_
    refine bind (update (.pruneWindow peer _ _ _) () (fun _ ↦ rfl) hst (fun _ ↦ hst) ?_)
      fun _ ↦ bind (setSyncRow hlow hst ?_) fun _ ↦ ret (.true _) fun _ _ _ ↦ trivial
    · rintro w hc ⟨hw, hrows⟩
      refine ⟨hc.pruneWindow (hcomplete w hw), hw, fun m hm ↦ ?_⟩
      exact (Db.has_pruneWindow ..).mpr
        ⟨hrows m hm, fun h ↦ h.2.2.2 (List.mem_map_of_mem hm)⟩
    · rintro w - ⟨hw, hrows⟩
      refine (hcomplete w hw).mono fun id hid ↦ ?_
      obtain ⟨m, hm, rfl⟩ := List.mem_map.mp hid
      exact hrows m hm

end Keeps

namespace Preserves

variable {cfg : Setup} {t : ℕ} {peer : ℤ} {limit : ℕ}

theorem rememberSync : Preserves cfg t (MessageStore.perform (.rememberSync peer)) := by
  refine sameData (fun _ _ h ↦ nomatch h) fun w x w' h ↦ ?_
  obtain ⟨-, rfl⟩ := Reply.done.inj h
  exact ⟨rfl, rfl, rfl⟩

/-- `_sync_full_window`. -/
theorem syncFullWindow (hlimit : 1 ≤ limit) :
    Preserves cfg t (MessageStore.syncFullWindow peer limit) := by
  refine Keeps.bind (Keeps.historySince (fun page ↦ stable_ready peer page limit) fun w rs hc ↦ ?_)
    fun page ↦ Keeps.bind Keeps.replaceWindow fun _ ↦ rememberSync
  rw [Server.historySince_zero]
  exact ready_newest hlimit (w := { w with requests := rs }) hc

/-- `_sync_history`. -/
theorem syncHistory (hlimit : 1 ≤ limit) (row : Option (ℤ × ℤ)) :
    Preserves cfg t (MessageStore.syncHistory peer limit row) := by
  refine Keeps.bind (R := fun page w ↦ row = none ∨ limit ≤ page.length → Ready peer page limit w)
    (Keeps.historySince (fun page w w' h hm hfull ↦ stable_ready peer page limit w w' (h hfull) hm)
      fun w rs hc hfull ↦ ?_) fun page ↦ ?_
  · rw [historySince_eq_rtake (hfull.imp_left fun h ↦ by rw [h]; rfl)]
    exact ready_newest hlimit (w := { w with requests := rs }) hc
  · have hreplace (hfull : row = none ∨ limit ≤ page.length) :
        Keeps cfg t (MessageStore.replaceWindow peer page limit >>= fun _ ↦
          MessageStore.perform (.rememberSync peer))
          (fun w ↦ row = none ∨ limit ≤ page.length → Ready peer page limit w) fun _ _ ↦ True :=
      (Keeps.bind Keeps.replaceWindow fun _ ↦ rememberSync).pre fun w _ hw ↦ hw hfull
    have hsync : Keeps cfg t (MessageStore.syncFullWindow peer limit)
        (fun w ↦ row = none ∨ limit ≤ page.length → Ready peer page limit w) fun _ _ ↦ True :=
      (syncFullWindow hlimit).pre fun w _ _ ↦ trivial
    refine Keeps.ite (fun _ ↦ Keeps.ite (fun hfull ↦ hreplace ?_) fun _ ↦ hsync)
      fun _ ↦ Keeps.ite (fun hrow ↦ hreplace ?_) fun _ ↦ hsync
    · simpa using hfull
    · exact .inl (by simpa using hrow)

/-- The critical section of `history` without an offset. -/
theorem syncWindow (hlimit : 1 ≤ limit) :
    Preserves cfg t (MessageStore.syncWindow peer limit) := by
  have hsyncRow : Preserves cfg t (MessageStore.perform (.syncRow peer)) :=
    query (fun w ↦ w.db.syncRow peer) fun _ ↦ rfl
  have hgrow (row : Option (ℤ × ℤ)) : Preserves cfg t (MessageStore.growWindow peer limit row) := by
    rcases row with _ | ⟨low, high⟩
    · exact ret _
    · refine Keeps.ite (fun _ ↦ bind ?_ fun count ↦ Keeps.ite (fun _ ↦ ?_) fun _ ↦ ret _)
        fun _ ↦ ret _
      · exact query (fun w ↦ w.db.windowCount peer low high) fun _ ↦ rfl
      · exact bind (syncFullWindow hlimit) fun _ ↦ hsyncRow
  have hstale : Preserves cfg t (MessageStore.perform (.syncStale peer)) := by
    refine sameData (fun _ _ h ↦ nomatch h) fun w x w' h ↦ ?_
    obtain ⟨-, rfl⟩ := Reply.done.inj h
    exact ⟨rfl, rfl, rfl⟩
  refine bind hsyncRow fun row ↦ bind (hgrow row) fun row' ↦ ?_
  refine Keeps.ite (fun _ ↦ syncHistory hlimit row') fun _ ↦ bind hstale fun stale ↦ ?_
  exact Keeps.ite (fun _ ↦ syncHistory hlimit row') fun _ ↦ ret ()

/-- `_history_before`: the page below an offset inside the window ends where the window
begins, or above. -/
theorem historyBefore (hlimit : 1 ≤ limit) (offsetId : ℤ) :
    Preserves cfg t (MessageStore.historyBefore peer limit offsetId) := by
  have hfetch : Preserves cfg t (do
      let page : List Message ← MessageStore.perform (.clientHistory peer limit offsetId)
      Prog.forEach MessageStore.upsertMessage page
      return page) := by
    refine bind (Keeps.clientHistory (.true _) (fun _ ↦ .true _) fun _ _ _ _ ↦ trivial)
      fun page ↦ ?_
    exact bind (Keeps.forEach (.true _) (fun m _ ↦ Keeps.upsertMessage m (.true _) (.true _)
      fun _ _ ↦ trivial) page) fun _ ↦ ret page
  refine Keeps.bind (Keeps.syncRow (.true _)) fun row ↦ ?_
  have hrow := stable_db fun db ↦ db.sync peer = row
  rcases row with _ | ⟨low, high⟩
  · exact hfetch.pre fun _ _ _ ↦ trivial
  · refine Keeps.ite (fun hin ↦ ?_) fun _ ↦ hfetch.pre fun _ _ _ ↦ trivial
    refine Keeps.bind (R := fun _ w ↦ w.db.sync peer = some (low, high))
      (Keeps.query (fun w ↦ w.db.loadBefore peer limit offsetId low) (fun _ ↦ rfl)
        ((Stable.true _).and hrow) (fun _ ↦ hrow) fun _ _ hw ↦ hw.2) fun cached ↦ ?_
    refine Keeps.ite (fun _ ↦ Keeps.ret hrow fun _ _ _ ↦ trivial) fun _ ↦ ?_
    refine Keeps.bind (R := fun page w ↦ (∀ m ∈ page, m.dialogId = peer ∧ 0 < m.id) ∧
      w.db.sync peer = some (low, high) ∧ w.server.Complete peer (pageLow page limit)
        (offsetId - 1) (· ∈ page.map Message.id)) (Keeps.clientHistory hrow ?_ ?_) fun page ↦ ?_
    · exact fun page ↦ (stable_db fun _ ↦ _).and (hrow.and (stable_complete _ _ _ _))
    · intro w rs hc hw
      refine ⟨fun m hm ↦ ?_, hw,
        complete_before hlimit rfl (hin.2.trans (hc peer low high hw).2.high_le)⟩
      have hmem := (Server.history_sublist ..).subset hm
      exact ⟨w.server.owned peer m hmem, (w.server.bounded peer m hmem).1⟩
    · refine Keeps.assuming (fun w hw ↦ hw.1) fun hmem ↦ ?_
      have hK := hrow.and (stable_complete peer (pageLow page limit) (offsetId - 1)
        (· ∈ page.map Message.id))
      refine (Keeps.bind (Keeps.writePage hK (fun _ _ hw ↦ hw) fun m hm ↦ (hmem m hm).1)
        fun _ ↦ ?_).pre fun _ _ hw ↦ hw.2
      have hlow : 0 ≤ pageLow page limit := pageLow_nonneg fun m hm ↦ (hmem m hm).2
      have hst := hK.and (stable_db fun db ↦ ∀ m ∈ page, db.Has peer m.id)
      refine Keeps.ite (fun _ ↦ Keeps.bind (Keeps.setSyncRow hlow hst ?_) fun _ ↦ ret page)
        fun _ ↦ Keeps.ret hst fun _ _ _ ↦ trivial
      rintro w hc ⟨⟨hw, hpage⟩, hrows⟩
      refine Server.Complete.union (hpage.mono fun id hid ↦ ?_)
        ((hc peer low high hw).2.narrow hin.1 (le_refl _))
      obtain ⟨m, hm, rfl⟩ := List.mem_map.mp hid
      exact hrows m hm

/-- `history`. -/
theorem history (hlimit : 1 ≤ limit) (offsetId : ℤ) :
    Preserves cfg t (MessageStore.history peer limit offsetId) := by
  rw [MessageStore.history]
  refine Keeps.ite (fun _ ↦ withPeerLock (historyBefore hlimit offsetId)) fun _ ↦ ?_
  refine bind (withPeerLock (syncWindow hlimit)) fun _ ↦
    bind (query (fun w ↦ w.db.syncRow peer) fun _ ↦ rfl) fun row ↦ ?_
  rcases row with _ | ⟨low, high⟩
  · exact ret []
  · exact query (fun w ↦ w.db.loadWindow peer low high limit) fun _ ↦ rfl

/-- `ingest`. -/
theorem ingest (m : Message) : Preserves cfg t (MessageStore.ingest m) :=
  withPeerLock (Keeps.upsertMessage m (.true _) (.true _) fun _ _ ↦ trivial)

/-- `record_outgoing`. -/
theorem recordOutgoing (dialogId : ℤ) (m : Message) (text lang : String) :
    Preserves cfg t (MessageStore.recordOutgoing dialogId m text lang) :=
  withPeerLock (Keeps.update
    (.upsertMessage { m with dialogId } (some text) (some lang) false) () (fun _ ↦ rfl) (.true _)
    (fun _ ↦ .true _) fun _ hc _ ↦ ⟨hc.upsert _ _ _ _, trivial⟩)

end Preserves

namespace Keeps

variable {cfg : Setup} {t : ℕ}

/-- `apply_deletion` only removes rows the server has no message for. -/
theorem applyDeletion (event : MessagesDeletedEvent) :
    Keeps cfg t (MessageStore.applyDeletion event)
      (fun w ↦ (Call.applyDeletion event).Allowed w.server) fun _ _ ↦ True := by
  obtain ⟨chat, ids⟩ := event
  refine ite (fun _ ↦ (Preserves.ret ()).pre fun _ _ _ ↦ trivial) fun _ ↦ ?_
  cases chat with
  | some chat =>
    refine update (.deleteIds chat ids) () (fun _ ↦ rfl) ?_ (fun _ ↦ .true _) ?_
    · rintro w w' h ⟨e, s, hs, rfl⟩ id hid
      exact (h id hid).apply hs
    · intro w hc h
      refine ⟨hc.onDb rfl fun d m hm hrow ↦ (Db.has_deleteIds ..).mpr ⟨hrow, ?_⟩, trivial⟩
      rintro ⟨rfl, hid⟩
      exact (h m.id hid).2.2 m hm rfl
  | none =>
    have hst : Stable ServerMoves fun w ↦ ∀ id ∈ ids, w.server.DirectDeleted id := by
      rintro w w' h ⟨e, s, hs, rfl⟩ id hid
      exact (h id hid).apply hs
    have hst' (rows : List (ℤ × ℤ)) : Stable ServerMoves fun w ↦
        ∀ row ∈ rows, w.server.DirectDeleted row.2 := by
      rintro w w' h ⟨e, s, hs, rfl⟩ row hrow
      exact (h row hrow).apply hs
    refine bind (query (fun w ↦ w.db.selectIds ids) (fun _ ↦ rfl) hst hst' ?_) fun rows ↦
      (forEach (P := fun rows w ↦ ∀ row ∈ rows, w.server.DirectDeleted row.2) (hst' []) ?_
        rows).post fun _ _ _ _ ↦ trivial
    · rintro w - h ⟨d, id⟩ hrow
      exact h id (Db.mem_selectIds w.db d id |>.mp hrow).2
    · rintro ⟨d, id⟩ rows
      refine ite (fun _ ↦ ret (hst' _) fun w _ h row hrow ↦ h row (List.mem_cons_of_mem _ hrow))
        fun hd ↦ update (.deleteRow d id) () (fun _ ↦ rfl) (hst' _) (fun _ ↦ hst' _) ?_
      intro w hc h
      refine ⟨hc.onDb rfl fun d' m hm hrow ↦ (Db.has_deleteRow ..).mpr ⟨hrow, ?_⟩,
        fun row hrow ↦ h row (List.mem_cons_of_mem _ hrow)⟩
      rintro ⟨rfl, hid⟩
      exact (h _ List.mem_cons_self).2 d' (Bool.not_eq_true _ ▸ hd) m hm hid

/-- Every call a session makes keeps the invariant. -/
theorem prog (call : Call) :
    Keeps cfg t call.prog (fun w ↦ call.Allowed w.server) fun _ _ ↦ True := by
  cases call with
  | history peer limit offsetId =>
    exact assuming (fun _ h ↦ h) fun hlimit ↦
      (Preserves.history hlimit offsetId).pre fun _ _ _ ↦ trivial
  | ingest m =>
    exact (Preserves.bind (Preserves.ingest m) fun _ ↦ Preserves.ret []).pre fun _ _ _ ↦ trivial
  | recordOutgoing d m text lang =>
    exact (Preserves.bind (Preserves.recordOutgoing d m text lang) fun _ ↦
      Preserves.ret []).pre fun _ _ _ ↦ trivial
  | applyDeletion event => exact bind (applyDeletion event) fun _ ↦ Preserves.ret []

end Keeps

/-! ## Sessions -/

/-- What holds throughout a session: at most one task is running, and it has an outline
that fits the state. -/
def Annotated (cfg : Setup) (c : StoreConfig) : Prop :=
  Covered c.shared ∧ ∃ t P, (∀ u, u ≠ t → c.Ended u) ∧
    Outline (system cfg) t (fun _ ↦ ServerMoves) (fun _ _ ↦ Covered) (c.task t) P
      (fun _ _ ↦ True) ∧ P c.shared

theorem Annotated.init (cfg : Setup) (s : Server) :
    Annotated cfg ⟨.init s, fun _ ↦ .ret []⟩ := by
  refine ⟨fun peer low high h ↦ (nomatch h), 0, fun _ ↦ True, fun u _ ↦ .inl ⟨[], rfl⟩, ?_, trivial⟩
  exact Outline.ret (.true _) fun _ _ ↦ trivial

theorem Annotated.call {cfg : Setup} {c : StoreConfig} {t : ℕ} {call : Call}
    (h : Annotated cfg c) (hended : ∀ u, c.Ended u) (hallowed : call.Allowed c.shared.server) :
    Annotated cfg { c with task := Function.update c.task t call.prog } := by
  refine ⟨h.1, t, fun w ↦ Covered w ∧ call.Allowed w.server,
    fun u hu ↦ (hended u).of_task_eq (Function.update_of_ne hu ..), ?_, h.1, hallowed⟩
  simp only [Function.update_self]
  exact Outline.post (Keeps.prog call) fun _ _ _ ↦ trivial

theorem Annotated.step {cfg : Setup} {c c' : StoreConfig} {m : Move ℕ ServerEvent}
    (h : Annotated cfg c) (hs : c.step (system cfg) m = some c') : Annotated cfg c' := by
  obtain ⟨hc, t, P, hended, hkeeps, hP⟩ := h
  cases m with
  | run u =>
    by_cases hu : u = t
    · subst hu
      obtain ⟨⟨o, k, -, hc'⟩, P', hkeeps', hP'⟩ := hkeeps.run_self hP hs
      refine ⟨hc', u, P', fun v hv ↦ ?_, hkeeps', hP'⟩
      exact (hended v hv).of_task_eq (Config.task_step_ne hs (Ne.symm hv))
    · rw [(hended u hu).step_eq_none] at hs
      cases hs
  | env e =>
    have htask := Config.task_step_env hs
    obtain ⟨s, henv, rfl⟩ := Option.map_eq_some_iff.mp hs
    have hmove := serverMoves_of_env henv
    obtain ⟨P', hkeeps', hP'⟩ := hkeeps.run_other hP hmove
    exact ⟨stable_covered _ _ hc hmove, t, P', fun u hu ↦ hended u hu, hkeeps', hP'⟩

/-- In every state of a session no window has a hole. -/
theorem Session.covered {cfg : Setup} {c : StoreConfig} (h : Session cfg c) :
    Covered c.shared := by
  suffices Annotated cfg c from this.1
  induction h with
  | init s => exact .init cfg s
  | call t call _ hended hallowed ih => exact ih.call hended hallowed
  | step m _ hs ih => exact ih.step hs

/-- Whenever a dialog has a sync row, every message the server has between its two ids
has a row in the store. -/
theorem window_has_no_hole {cfg : Setup} {c : StoreConfig} (h : Session cfg c)
    {peer low high : ℤ} (hrow : c.shared.db.sync peer = some (low, high)) {m : Message}
    (hm : m ∈ c.shared.server.live peer) (hlow : low ≤ m.id) (hhigh : m.id ≤ high) :
    c.shared.db.Has peer m.id :=
  (h.covered peer low high hrow).2.holds m hm hlow hhigh

/-- A store that was asked for the newest two of three messages. -/
theorem window_has_no_hole_of_three :
    ∃ c, Session .calm c ∧ c.shared.db.sync 7 = some (2, 3) ∧
      ∀ m ∈ c.shared.server.live 7, 2 ≤ m.id → m.id ≤ 3 → c.shared.db.Has 7 m.id := by
  have hcall := (Session.init (.ofIds 7 [1, 2, 3]) : Session .calm _).call 0 (.history 7 2 0)
    (fun _ ↦ .inl ⟨[], rfl⟩) (by decide : 1 ≤ 2)
  have hexec : ((Config.exec (system .calm) ⟨.init (.ofIds 7 [1, 2, 3]), Function.update
      (fun _ ↦ .ret []) 0 (Call.history 7 2 0).prog⟩ (List.replicate 7 (.run 0))).map
      fun c ↦ c.shared.db.sync 7) = some (some (2, 3)) := by decide
  obtain ⟨c, hc, hrow⟩ := Option.map_eq_some_iff.mp hexec
  have hsession := hcall.exec hc
  exact ⟨c, hsession, hrow, fun m hm hl hh ↦ window_has_no_hole hsession hrow hm hl hh⟩

end TgMessenger.MessageStore
