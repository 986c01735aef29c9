import TgMessenger.MessageStore.Window

/-!
# One call of `history` on a server that does not move

The exact effect of the coroutines of the store when they run alone and no request
raises.  A sync leaves the window `Synced` with the newest page: between the low and the
high id of the page exactly the page has rows, and each row is the fetched message merged
into what was stored under its id.  The merge is idempotent, so it does not matter that a
call may sync twice.
-/

namespace TgMessenger.MessageStore

open Asyncio

/-! ## Fetching a message again -/

/-- A message as the store returns it after it was fetched: the fields of the server,
with the author's names kept where the server has none, and with the translation kept
while the text is unchanged. -/
def refreshed (stored : Option Row) (m : Message) : Message :=
  let username := (m.sender.bind User.username).or (stored.bind Row.senderUsername)
  let firstName := (m.sender.bind User.firstName).or (stored.bind Row.senderFirstName)
  let lastName := (m.sender.bind User.lastName).or (stored.bind Row.senderLastName)
  { m with
    translatedText :=
      if stored.map Row.text = some m.text then
        (stored.bind Row.translatedText).or m.translatedText
      else m.translatedText
    sender :=
      if username.isSome ∨ firstName.isSome ∨ lastName.isSome then
        some { id := m.senderId, username, firstName, lastName }
      else none }

/-- The author of a message under the id of its sender, with the names that are stored where the
server gives none. -/
def keptAuthor (stored : Option Row) (m : Message) : User where
  id := m.senderId
  username := (m.sender.bind User.username).or (stored.bind Row.senderUsername)
  firstName := (m.sender.bind User.firstName).or (stored.bind Row.senderFirstName)
  lastName := (m.sender.bind User.lastName).or (stored.bind Row.senderLastName)

/-- `r` is the message `m` of the server, with the translation kept while the text is unchanged,
and with the author that is kept if any name of it is known. -/
structure Refreshes (stored : Option Row) (m r : Message) : Prop where
  fields : { r with sender := none } =
    { m with
      sender := none
      translatedText :=
        if stored.map Row.text = some m.text then
          (stored.bind Row.translatedText).or m.translatedText
        else m.translatedText }
  author : (keptAuthor stored m).username.isSome ∨ (keptAuthor stored m).firstName.isSome ∨
    (keptAuthor stored m).lastName.isSome → r.sender = some (keptAuthor stored m)

theorem refreshes_refreshed (stored : Option Row) (m : Message) :
    Refreshes stored m (refreshed stored m) where
  fields := rfl
  author h := if_pos h

/-- The row a fetched message leaves. -/
abbrev fetchedRow (m : Message) (stored : Option Row) : Row :=
  Db.upsertedRow m none none true stored

theorem rowToMessage_fetchedRow (m : Message) (stored : Option Row) :
    rowToMessage (key m.dialogId m.id) (fetchedRow m stored) = refreshed stored m := by
  cases stored with
  | none =>
    simp only [refreshed, Option.bind_none, Option.or_none, Option.map_none, reduceCtorEq, if_false]
    rfl
  | some r =>
    simp only [refreshed, Option.bind_some, Option.map_some, Option.some.injEq]
    by_cases h : r.text = m.text
    · simp [fetchedRow, Db.upsertedRow, Row.onConflict, rowToMessage, Row.ofMessage, h]
    · simp [fetchedRow, Db.upsertedRow, Row.onConflict, rowToMessage, Row.ofMessage, h]

/-- Fetching a message twice leaves the same row as fetching it once. -/
theorem fetchedRow_fetchedRow (m : Message) (stored : Option Row) :
    fetchedRow m (some (fetchedRow m stored)) = fetchedRow m stored := by
  have hleft (a b : Option String) : a.or (a.or b) = a.or b := by
    rw [← Option.or_assoc, Option.or_self]
  have hright (a b : Option String) : (a.or b).or b = a.or b := by
    rw [Option.or_assoc, Option.or_self]
  cases stored with
  | none => simp [fetchedRow, Db.upsertedRow, Row.onConflict]
  | some r =>
    by_cases h : r.text = m.text
    · simp [fetchedRow, Db.upsertedRow, Row.onConflict, Row.ofMessage, h, hleft, hright]
    · simp [fetchedRow, Db.upsertedRow, Row.onConflict, Row.ofMessage, h, hleft]

/-! ## Writing a page -/

/-- The message of a page with some id. -/
def pageMessage? (page : List Message) (id : ℤ) : Option Message := page.find? fun m ↦ m.id = id

section Pages

variable {page : List Message} {id : ℤ}

theorem pageMessage?_eq_none_iff : pageMessage? page id = none ↔ ∀ m ∈ page, m.id ≠ id := by
  simp [pageMessage?]

/-- When ids ascend, a message is the one with its id. -/
theorem pageMessage?_of_mem (hpage : page.Pairwise fun a b ↦ a.id < b.id) {m : Message}
    (hm : m ∈ page) : pageMessage? page m.id = some m := by
  induction page with
  | nil => exact absurd hm List.not_mem_nil
  | cons a page ih =>
    obtain ⟨hhd, htl⟩ := List.pairwise_cons.mp hpage
    rw [pageMessage?, List.find?_cons]
    rcases List.mem_cons.mp hm with rfl | hm
    · simp
    · rw [decide_eq_false (ne_of_lt (hhd m hm))]
      exact ih htl hm

theorem mem_of_pageMessage? {m : Message} (h : pageMessage? page id = some m) :
    m ∈ page ∧ m.id = id :=
  ⟨List.mem_of_find?_eq_some h, by simpa using List.find?_some h⟩

end Pages

/-- The database after the messages of a page were upserted. -/
def Db.upsertAll (page : List Message) (db : Db) : Db :=
  page.foldl (fun db m ↦ db.upsertMessage m none none true) db

theorem Db.sync_upsertAll (page : List Message) (db : Db) : (db.upsertAll page).sync = db.sync := by
  induction page generalizing db with
  | nil => rfl
  | cons m page ih => exact ih _

/-- Every message of the page is merged into its row; no other row changes. -/
theorem Db.row?_upsertAll {page : List Message} {peer : ℤ}
    (hpage : page.Pairwise fun a b ↦ a.id < b.id) (hdialog : ∀ m ∈ page, m.dialogId = peer)
    (db : Db) (id : ℤ) :
    (db.upsertAll page).row? peer id =
      match pageMessage? page id with
      | some m => some (fetchedRow m (db.row? peer id))
      | none => db.row? peer id := by
  induction page generalizing db with
  | nil => rfl
  | cons a page ih =>
    obtain ⟨hhd, htl⟩ := List.pairwise_cons.mp hpage
    have hstep : (db.upsertAll (a :: page)).row? peer id =
        ((db.upsertMessage a none none true).upsertAll page).row? peer id := rfl
    rw [hstep, ih htl (fun m hm ↦ hdialog m (List.mem_cons_of_mem _ hm)), Db.row?_upsertMessage,
      hdialog a List.mem_cons_self, pageMessage?, pageMessage?, List.find?_cons]
    by_cases hid : a.id = id
    · have hnone : List.find? (fun m ↦ decide (m.id = id)) page = none := by
        rw [List.find?_eq_none]
        intro m hm
        rw [decide_eq_true_eq]
        exact ne_of_gt (hid ▸ hhd m hm)
      rw [hnone, decide_eq_true hid, if_pos ⟨rfl, hid.symm⟩, hid]
    · rw [decide_eq_false hid, if_neg fun h ↦ hid h.2.symm]

/-- The database after `_replace_window`. -/
def Db.replaceWindow (peer : ℤ) (page : List Message) (limit : ℕ) (db : Db) : Db :=
  if page = [] then (db.deleteDialog peer).setSyncRow peer 0 0
  else
    let low := pageLow page limit
    let high := pageHigh page
    ((db.upsertAll page).pruneWindow peer low high (page.map Message.id)).setSyncRow peer low high

/-- The window of a dialog is a page: its sync row has the ids of the page, and in
between exactly the messages of the page have rows, merged into the rows of `db`. -/
structure Synced (peer : ℤ) (page : List Message) (limit : ℕ) (db db' : Db) : Prop where
  sync_eq : db'.sync peer = some (pageLow page limit, pageHigh page)
  row?_eq : ∀ id, pageLow page limit ≤ id → id ≤ pageHigh page →
    db'.row? peer id = (pageMessage? page id).map fun m ↦ fetchedRow m (db.row? peer id)

theorem synced_replaceWindow {peer : ℤ} {page : List Message} {limit : ℕ} (hlimit : 1 ≤ limit)
    (hpage : page.Pairwise fun a b ↦ a.id < b.id) (hdialog : ∀ m ∈ page, m.dialogId = peer)
    (db : Db) : Synced peer page limit db (db.replaceWindow peer page limit) := by
  rw [Db.replaceWindow]
  split_ifs with hnil
  · subst hnil
    have hlow : pageLow [] limit = 0 := if_pos hlimit
    refine ⟨?_, fun id _ _ ↦ ?_⟩
    · rw [hlow]
      exact Db.sync_setSyncRow_self ..
    · rw [Db.row?_setSyncRow]
      exact Option.eq_none_iff_forall_ne_some.mpr fun r hr ↦
        ((Db.has_deleteDialog db peer id peer).mp ⟨r, hr⟩).2 rfl
  · refine ⟨Db.sync_setSyncRow_self .., fun id hl hh ↦ ?_⟩
    rw [Db.row?_setSyncRow, Db.row?_pruneWindow, Db.row?_upsertAll hpage hdialog]
    cases hm : pageMessage? page id with
    | some m =>
      obtain ⟨hmem, rfl⟩ := mem_of_pageMessage? hm
      rw [if_neg fun h ↦ h.2.2.2 (List.mem_map_of_mem hmem)]
      rfl
    | none =>
      refine if_pos ⟨rfl, hl, hh, fun h ↦ ?_⟩
      obtain ⟨m, hmem, hid⟩ := List.mem_map.mp h
      exact pageMessage?_eq_none_iff.mp hm m hmem hid

/-- A second sync with the same page changes nothing in the window. -/
theorem Synced.trans {peer : ℤ} {page : List Message} {limit : ℕ} {db db' db'' : Db}
    (h : Synced peer page limit db db') (h' : Synced peer page limit db' db'') :
    Synced peer page limit db db'' := by
  refine ⟨h'.sync_eq, fun id hl hh ↦ ?_⟩
  rw [h'.row?_eq id hl hh, h.row?_eq id hl hh]
  cases pageMessage? page id with
  | none => rfl
  | some m => exact congrArg some (fetchedRow_fetchedRow m (db.row? peer id))

/-! ## Loading the window -/

section Load

variable {peer : ℤ} {page : List Message} {limit : ℕ} {db db' : Db}

theorem pageLow_le_of_mem (hpos : ∀ m ∈ page, 0 < m.id) {m : Message} (hm : m ∈ page) :
    pageLow page limit ≤ m.id := by
  rcases lt_or_ge page.length limit with hlen | hlen
  · rw [pageLow, if_pos hlen]
    exact (hpos m hm).le
  · exact pageLow_le hlen hm

/-- A synced window has exactly the rows of the page. -/
theorem Synced.has_iff (h : Synced peer page limit db db') {id : ℤ}
    (hl : pageLow page limit ≤ id) (hh : id ≤ pageHigh page) :
    db'.Has peer id ↔ ∃ m ∈ page, m.id = id := by
  rw [Db.has_iff_row?, h.row?_eq id hl hh]
  cases hm : pageMessage? page id with
  | none =>
    have := pageMessage?_eq_none_iff.mp hm
    simpa using this
  | some m =>
    obtain ⟨hmem, hid⟩ := mem_of_pageMessage? hm
    exact ⟨fun _ ↦ ⟨m, hmem, hid⟩, fun _ ↦ ⟨_, rfl⟩⟩

/-- The rows of a synced window are the page, each message merged into its row. -/
theorem Synced.selected_eq (h : Synced peer page limit db db')
    (hpage : page.Pairwise fun a b ↦ a.id < b.id) (hdialog : ∀ m ∈ page, m.dialogId = peer)
    (hpos : ∀ m ∈ page, 0 < m.id) :
    db'.selected (Db.inWindow peer (pageLow page limit) (pageHigh page)) =
      page.map fun m ↦ refreshed (db.row? peer m.id) m := by
  refine List.eq_of_ascending (f := Message.id)
    (Db.ascending_selected peer (fun k hk ↦ ?_) db')
    (List.pairwise_map.mpr (hpage.imp fun hab ↦ hab)) fun x ↦ ?_
  · simp only [Db.inWindow, decide_eq_true_eq] at hk
    exact hk.1
  · rw [Db.mem_selected, List.mem_map, Db.inWindow_key]
    constructor
    · rintro ⟨⟨hd, hl, hh⟩, r, hr, hx⟩
      rw [hd, h.row?_eq _ hl hh] at hr
      obtain ⟨m, hm, rfl⟩ := Option.map_eq_some_iff.mp hr
      obtain ⟨hmem, hid⟩ := mem_of_pageMessage? hm
      refine ⟨m, hmem, ?_⟩
      rw [hx, ← rowToMessage_fetchedRow, hdialog m hmem, hd, hid]
    · rintro ⟨m, hm, rfl⟩
      have hl : pageLow page limit ≤ m.id := pageLow_le_of_mem hpos hm
      have hh := le_pageHigh hm
      refine ⟨⟨hdialog m hm, hl, hh⟩, fetchedRow m (db.row? peer m.id), ?_, ?_⟩
      · have hrow := h.row?_eq m.id hl hh
        rw [pageMessage?_of_mem hpage hm] at hrow
        exact (congrArg (db'.row? · m.id) (hdialog m hm)).trans hrow
      · exact (rowToMessage_fetchedRow m _).symm

/-- The load of a synced window returns the page, each message merged into its row. -/
theorem Synced.loadWindow_eq (h : Synced peer page limit db db')
    (hpage : page.Pairwise fun a b ↦ a.id < b.id) (hdialog : ∀ m ∈ page, m.dialogId = peer)
    (hpos : ∀ m ∈ page, 0 < m.id) (hlen : page.length ≤ limit) :
    db'.loadWindow peer (pageLow page limit) (pageHigh page) limit =
      page.map fun m ↦ refreshed (db.row? peer m.id) m := by
  rw [Db.loadWindow, Db.load_eq_rtake, h.selected_eq hpage hdialog hpos,
    List.rtake_of_length_le (by rw [List.length_map]; exact hlen)]

end Load

/-! ## The coroutines alone -/

section Run

variable {cfg : Setup} {t : ℕ} {peer : ℤ} {limit : ℕ} {w : World}

/-- The newest page of a dialog. -/
abbrev Server.newest (s : Server) (peer : ℤ) (limit : ℕ) : List Message :=
  (s.live peer).rtake limit

theorem ascending_newest (s : Server) (peer : ℤ) (limit : ℕ) :
    (s.newest peer limit).Pairwise fun a b ↦ a.id < b.id :=
  (s.ascending peer).sublist (List.rtake_suffix ..).sublist

theorem dialogId_newest {s : Server} {peer : ℤ} {limit : ℕ} :
    ∀ m ∈ s.newest peer limit, m.dialogId = peer :=
  fun m hm ↦ s.owned peer m ((List.rtake_suffix ..).subset hm)

theorem newest_pos {s : Server} {peer : ℤ} {limit : ℕ} : ∀ m ∈ s.newest peer limit, 0 < m.id :=
  fun m hm ↦ (s.bounded peer m ((List.rtake_suffix ..).subset hm)).1

/-- The window was replaced by the newest page of the server, which did not move. -/
structure AfterSync (peer : ℤ) (limit : ℕ) (w w' : World) : Prop where
  server_eq : w'.server = w.server
  requests_lt : w.requests.length < w'.requests.length
  synced : Synced peer (w.server.newest peer limit) limit w.db w'.db

theorem AfterSync.trans {w' w'' : World} (h : AfterSync peer limit w w')
    (h' : AfterSync peer limit w' w'') : AfterSync peer limit w w'' := by
  refine ⟨h'.server_eq.trans h.server_eq, h.requests_lt.trans h'.requests_lt, ?_⟩
  have := h'.synced
  rw [h.server_eq] at this
  exact h.synced.trans this

theorem run_upsertAll (page : List Message) (w : World) :
    (Prog.forEach upsertMessage page).run (system cfg) t w =
      some (.ok (), w.onDb (.upsertAll page)) := by
  induction page generalizing w with
  | nil => rfl
  | cons m page ih => exact ih (w.onDb (.upsertMessage m none none true))

/-- `_replace_window`. -/
theorem run_replaceWindow (peer : ℤ) (page : List Message) (limit : ℕ) (w : World) :
    ∃ r, (replaceWindow peer page limit).run (system cfg) t w =
      some (.ok r, w.onDb (.replaceWindow peer page limit)) := by
  rw [replaceWindow]
  by_cases hpage : page = []
  · subst hpage
    exact ⟨(0, 0), rfl⟩
  · rw [if_neg (by simpa using hpage), Prog.run_bind_ok _ _ (run_upsertAll page w)]
    refine ⟨(pageLow page limit, pageHigh page), ?_⟩
    have hdb : World.onDb (.replaceWindow peer page limit) w = World.onDb (fun db ↦
        ((db.upsertAll page).pruneWindow peer (pageLow page limit) (pageHigh page)
          (page.map Message.id)).setSyncRow peer (pageLow page limit) (pageHigh page)) w := by
      rw [World.onDb, Db.replaceWindow, if_neg hpage]
      rfl
    rw [hdb]
    rfl

/-- From now on no request raises. -/
def Online (cfg : Setup) (w : World) : Prop := ∀ n, w.requests.length ≤ n → cfg.faults n = none

theorem Online.later {w' : World} (h : Online cfg w)
    (hle : w.requests.length ≤ w'.requests.length) : Online cfg w' := fun n hn ↦ h n (hle.trans hn)

theorem request_ok (hon : Online cfg w) (r : Request) (page : List Message) :
    w.request cfg r page = .done (.ok page) { w with requests := r :: w.requests } := by
  rw [World.request, hon _ (le_refl _)]

/-- Replacing the window by a page that is the newest one. -/
theorem run_replace_newest (hlimit : 1 ≤ limit) {r : Request} {page : List Message}
    (hpage : page = w.server.newest peer limit) :
    ∃ w', (replaceWindow peer page limit >>= fun _ ↦ perform (.rememberSync peer)).run
        (system cfg) t { w with requests := r :: w.requests } = some (.ok (), w') ∧
      AfterSync peer limit w w' := by
  obtain ⟨x, hx⟩ := run_replaceWindow (t := t) peer page limit
    { w with requests := r :: w.requests }
  rw [Prog.run_bind_ok _ _ hx]
  subst hpage
  refine ⟨_, rfl, rfl, Nat.lt_succ_self _, ?_⟩
  exact synced_replaceWindow hlimit (ascending_newest ..) dialogId_newest w.db

/-- `_sync_full_window`. -/
theorem run_syncFullWindow (hon : Online cfg w) (hlimit : 1 ≤ limit) :
    ∃ w', (syncFullWindow peer limit).run (system cfg) t w = some (.ok (), w') ∧
      AfterSync peer limit w w' := by
  rw [syncFullWindow, Prog.run_bind_ok _ _ (Prog.run_perform_ok _ _ (request_ok hon ..))]
  exact run_replace_newest hlimit (w.server.historySince_zero peer limit)

/-- `_sync_history`. -/
theorem run_syncHistory (hon : Online cfg w) (hlimit : 1 ≤ limit) (row : Option (ℤ × ℤ)) :
    ∃ w', (syncHistory peer limit row).run (system cfg) t w = some (.ok (), w') ∧
      AfterSync peer limit w w' := by
  have hfull (r : Request) : ∃ w', (syncFullWindow peer limit).run (system cfg) t
      { w with requests := r :: w.requests } = some (.ok (), w') ∧ AfterSync peer limit w w' := by
    have hon' : Online cfg { w with requests := r :: w.requests } := hon.later (Nat.le_succ _)
    obtain ⟨w', hw', h⟩ := run_syncFullWindow (t := t) hon' hlimit
    exact ⟨w', hw', h.server_eq, (Nat.lt_succ_self _).trans h.requests_lt, h.synced⟩
  have hreplace (r : Request) (hrow : row = none ∨
      limit ≤ (w.server.historySince peer ((row.map Prod.snd).getD 0) limit).length) :=
    @run_replace_newest cfg t peer limit w hlimit r _
      (historySince_eq_rtake (hrow.imp_left fun h ↦ by rw [h]; rfl))
  rw [syncHistory, Prog.run_bind_ok _ _ (Prog.run_perform_ok _ _ (request_ok hon ..))]
  cases hpage : (w.server.historySince peer ((row.map Prod.snd).getD 0) limit).isEmpty with
  | false =>
    rw [if_pos (show (!false) = true from rfl)]
    by_cases hlen : (row.isNone || decide (limit ≤
        (w.server.historySince peer ((row.map Prod.snd).getD 0) limit).length)) = true
    · rw [if_pos hlen]
      exact hreplace _ (by simpa using hlen)
    · rw [if_neg hlen]
      exact hfull _
  | true =>
    rw [if_neg (show ¬(!true) = true by decide)]
    by_cases hrow : row.isNone = true
    · rw [if_pos hrow]
      exact hreplace _ (.inl (Option.isNone_iff_eq_none.mp hrow))
    · rw [if_neg hrow]
      exact hfull _

theorem SameData.trans {w w' w'' : World} (h : SameData w w') (h' : SameData w' w'') :
    SameData w w'' :=
  ⟨h'.1.trans h.1, h'.2.1.trans h.2.1, h'.2.2.trans h.2.2⟩

/-- Either nothing was synced, or the window was replaced by the newest page. -/
def SyncedOrSame (peer : ℤ) (limit : ℕ) (w w' : World) : Prop :=
  SameData w w' ∨ AfterSync peer limit w w'

theorem SyncedOrSame.requests_le {w w' : World} (h : SyncedOrSame peer limit w w') :
    w.requests.length ≤ w'.requests.length := by
  rcases h with ⟨-, -, hreq⟩ | h
  · rw [hreq]
  · exact h.requests_lt.le

theorem SyncedOrSame.trans {w w' w'' : World} (h : SyncedOrSame peer limit w w')
    (h' : SyncedOrSame peer limit w' w'') : SyncedOrSame peer limit w w'' := by
  rcases h with ⟨hdb, hserver, hreq⟩ | h
  · rcases h' with h' | ⟨hserver', hlt, hsync⟩
    · exact .inl (SameData.trans ⟨hdb, hserver, hreq⟩ h')
    · rw [hserver, hdb] at hsync
      exact .inr ⟨hserver'.trans hserver, hreq ▸ hlt, hsync⟩
  · rcases h' with ⟨hdb, hserver, hreq⟩ | h'
    · exact .inr ⟨hserver.trans h.server_eq, hreq ▸ h.requests_lt, hdb ▸ h.synced⟩
    · exact .inr (h.trans h')

/-- The part of `history` that grows a window with fewer rows than asked for. -/
theorem run_growWindow (hon : Online cfg w) (hlimit : 1 ≤ limit) (row : Option (ℤ × ℤ)) :
    ∃ row' w', (growWindow peer limit row).run (system cfg) t w = some (.ok row', w') ∧
      SyncedOrSame peer limit w w' := by
  rcases row with _ | ⟨low, high⟩
  · exact ⟨none, w, rfl, .inl ⟨rfl, rfl, rfl⟩⟩
  · rw [growWindow]
    by_cases hlow : 0 < low
    · rw [if_pos hlow, Prog.run_bind_ok _ _ (Prog.run_perform_ok _ _ rfl)]
      by_cases hcount : w.db.windowCount peer low high < limit
      · rw [if_pos hcount]
        obtain ⟨w', hw', hsync⟩ := run_syncFullWindow (t := t) hon hlimit
        exact ⟨_, w', (Prog.run_bind_ok _ _ hw').trans rfl, .inr hsync⟩
      · rw [if_neg hcount]
        exact ⟨_, w, rfl, .inl ⟨rfl, rfl, rfl⟩⟩
    · rw [if_neg hlow]
      exact ⟨_, w, rfl, .inl ⟨rfl, rfl, rfl⟩⟩

/-- The critical section of `history` without an offset. -/
theorem run_syncWindow (hon : Online cfg w) (hlimit : 1 ≤ limit) :
    ∃ w', (syncWindow peer limit).run (system cfg) t w = some (.ok (), w') ∧
      SyncedOrSame peer limit w w' := by
  obtain ⟨row, w₁, hrun, h₁⟩ := run_growWindow (t := t) hon hlimit
    (w.db.syncRow peer)
  have hsync (w₂ : World) (h₂ : SameData w₁ w₂) : ∃ w', (syncHistory peer limit row).run
      (system cfg) t w₂ = some (.ok (), w') ∧ SyncedOrSame peer limit w w' := by
    have h₀₂ : SyncedOrSame peer limit w w₂ := h₁.trans (.inl h₂)
    obtain ⟨w', hw', h⟩ := run_syncHistory (t := t)
      (hon.later h₀₂.requests_le) hlimit row
    exact ⟨w', hw', h₀₂.trans (.inr h)⟩
  rw [syncWindow, Prog.run_bind_ok _ _ (Prog.run_perform_ok _ _ rfl), Prog.run_bind_ok _ _ hrun]
  by_cases hrow : row.isNone = true
  · rw [if_pos hrow]
    exact hsync w₁ ⟨rfl, rfl, rfl⟩
  · obtain ⟨stale, peers, hstale⟩ : ∃ stale peers,
        handle cfg t (.syncStale peer) w₁ = .done (.ok stale) { w₁ with peers } := ⟨_, _, rfl⟩
    rw [if_neg hrow, Prog.run_bind_ok _ _ (Prog.run_perform_ok _ _ hstale)]
    cases stale with
    | true => exact hsync _ ⟨rfl, rfl, rfl⟩
    | false => exact ⟨_, rfl, h₁.trans (.inl ⟨rfl, rfl, rfl⟩)⟩

/-! ## The lock of a peer nobody uses -/

/-- The lock of a peer, if it has one, is free, and the task is in no critical section. -/
structure LockFree (t : ℕ) (peer : ℤ) (w : World) : Prop where
  outside : w.place t = .outside
  free : ∀ lock, w.peers.syncLocks.get? peer = some lock → w.peers.locks lock = .free

/-- A critical section that runs alone. -/
theorem run_withPeerLock {α : Type} {body : StoreProg α} {Q : α → World → Prop}
    (hfree : LockFree t peer w)
    (hbody : ∀ w₁, SameData w w₁ → ∃ a w', body.run (system cfg) t w₁ = some (.ok a, w') ∧ Q a w')
    (hQ : ∀ a w₁ w₂, SameData w₁ w₂ → Q a w₁ → Q a w₂) :
    ∃ a w', (withPeerLock peer body).run (system cfg) t w = some (.ok a, w') ∧ Q a w' := by
  have hlock : w.lockPeer cfg t peer = _ := World.lockPeer_free hfree.outside hfree.free
  obtain ⟨a, w', hrun, hQa⟩ := hbody _ (World.lockPeer_done hlock).2
  rw [withPeerLock, Prog.run_bind_ok _ _ (Prog.run_perform_ok _ _ hlock)]
  refine ⟨a, w'.release t _, Prog.run_always_ok _ _ hrun rfl, hQ a w' _ ⟨rfl, rfl, rfl⟩ hQa⟩

/-! ## The whole call -/

/-- A call of `history` without an offset that fetched anything returns the newest page of
the server, oldest message first, but for the names and translations that are kept, and leaves rows
for exactly this page within the window, whatever the store had before. -/
theorem history_returns_newest (hon : Online cfg w) (hlimit : 1 ≤ limit)
    {offsetId : ℤ} (hoffset : offsetId ≤ 0) (hfree : LockFree t peer w) :
    ∃ msgs w', (history peer limit offsetId).run (system cfg) t w = some (.ok msgs, w') ∧
      (w'.requests ≠ w.requests →
        List.Forall₂ (fun m r ↦ Refreshes (w.db.row? peer m.id) m r)
          ((w.server.live peer).rtake limit) msgs ∧
        ∃ low high, w'.db.sync peer = some (low, high) ∧
          (∀ m ∈ (w.server.live peer).rtake limit, low ≤ m.id ∧ m.id ≤ high) ∧
          ∀ id, low ≤ id → id ≤ high →
            (w'.db.Has peer id ↔ ∃ m ∈ (w.server.live peer).rtake limit, m.id = id)) := by
  have hbody (w₁ : World) (h₁ : SameData w w₁) : ∃ a w', (syncWindow peer limit).run
      (system cfg) t w₁ = some (.ok a, w') ∧ SyncedOrSame peer limit w w' := by
    obtain ⟨w', hrun, h⟩ := run_syncWindow (t := t)
      (hon.later (by rw [h₁.2.2])) hlimit
    exact ⟨(), w', hrun, .trans (.inl h₁) h⟩
  obtain ⟨_, w', hrun, h⟩ := run_withPeerLock (Q := fun _ w' ↦ SyncedOrSame peer limit w w')
    hfree hbody fun _ w₁ w₂ h₁₂ h ↦ h.trans (.inl h₁₂)
  rw [history, if_neg (not_lt.mpr hoffset), Prog.run_bind_ok _ _ hrun, loadWindow,
    Prog.run_bind_ok _ _ (Prog.run_perform_ok _ _ rfl)]
  rcases h with ⟨hdb, -, hreq⟩ | h
  · cases w'.db.syncRow peer with
    | none => exact ⟨_, _, rfl, fun hne ↦ absurd hreq hne⟩
    | some row => exact ⟨_, _, rfl, fun hne ↦ absurd hreq hne⟩
  · rw [Db.syncRow, h.synced.sync_eq]
    refine ⟨_, w', rfl, fun _ ↦ ⟨?_, _, _, h.synced.sync_eq, fun m hm ↦ ?_, fun id hl hh ↦ ?_⟩⟩
    · have hload := h.synced.loadWindow_eq (ascending_newest ..) dialogId_newest newest_pos
        (by rw [List.length_rtake]; exact min_le_left ..)
      rw [hload, List.forall₂_map_right_iff]
      exact List.forall₂_same.mpr fun m _ ↦ refreshes_refreshed _ m
    · exact ⟨pageLow_le_of_mem newest_pos hm, le_pageHigh hm⟩
    · exact h.synced.has_iff hl hh

theorem ids_of_refreshes {stored : Message → Option Row} {page msgs : List Message}
    (h : List.Forall₂ (fun m r ↦ Refreshes (stored m) m r) page msgs) :
    msgs.map Message.id = page.map Message.id := by
  induction h with
  | nil => rfl
  | @cons m r page msgs hhead _ ih =>
    have hid : r.id = m.id := by simpa using congrArg Message.id hhead.fields
    rw [List.map_cons, List.map_cons, ih, hid]

/-- A store without rows in front of three messages. -/
theorem history_returns_newest_of_three :
    ∃ msgs w', (history 7 2 0).run (system .calm) 0 (.init (.ofIds 7 [1, 2, 3])) =
      some (.ok msgs, w') ∧ w'.requests = [.since 7 0 2] ∧ msgs.map Message.id = [2, 3] := by
  obtain ⟨msgs, w', hrun, h⟩ := @history_returns_newest .calm 0 7 2
    (.init (.ofIds 7 [1, 2, 3])) (fun _ _ ↦ rfl) (by decide) 0 (le_refl 0)
    ⟨rfl, fun _ h ↦ nomatch h⟩
  have hreq : ((history 7 2 0).run (system .calm) 0 (.init (.ofIds 7 [1, 2, 3]))).map
      (fun x ↦ x.2.requests) = some [.since 7 0 2] := by decide
  rw [hrun] at hreq
  have hreq : w'.requests = [.since 7 0 2] := Option.some.inj hreq
  obtain ⟨hmsgs, -⟩ := h (by rw [hreq]; exact List.cons_ne_nil _ _)
  exact ⟨msgs, w', hrun, hreq, (ids_of_refreshes hmsgs).trans (by decide)⟩

/-- The author the store remembers is returned with a message that has none any more. -/
theorem history_keeps_stored_author :
    let stored : Message := { id := 1, dialogId := 7, senderId := 1, out := false, date := "",
                              sender := some { id := 1, username := some "bob" } }
    let w := (World.init (.ofIds 7 [1])).onDb (.upsertMessage stored none none true)
    ∃ msgs w', (history 7 1 0).run (system .calm) 0 w = some (.ok msgs, w') ∧
      w'.requests ≠ w.requests ∧ msgs = [stored] ∧ (w.server.live 7).rtake 1 ≠ msgs := by
  intro stored w
  have hrun : ((history 7 1 0).run (system .calm) 0 w).map (fun x ↦ (x.1, x.2.requests)) =
      some (.ok [stored], [.since 7 0 1]) := by decide
  obtain ⟨⟨x, w'⟩, hrun, hx⟩ := Option.map_eq_some_iff.mp hrun
  obtain ⟨rfl, hreq⟩ := Prod.mk.inj hx
  exact ⟨[stored], w', hrun, by rw [show w'.requests = _ from hreq]; decide, rfl, by decide⟩

end Run

end TgMessenger.MessageStore
