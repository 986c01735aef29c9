import TgMessenger.Asyncio.Protocol
import TgMessenger.MessageStore.Window

/-!
# A deletion next to a running `history`

`ingest` and `history` hold the lock of a peer while they write, `apply_deletion` does
not.  A `history` that fetched its page before messages were deleted on the server can
therefore write them after `apply_deletion` removed them.

`Unwritten m p` says that message `m` is on a page the program `p` has fetched and still
has to write.  When no `DELETE` of `apply_deletion` runs while a message it is about is
unwritten, no deleted message is left once both have ended (`deletion_not_lost`).  The
invariant is `Cleared`: no row and nobody about to write one; a step of `history` keeps it
because what it fetches from then on no longer contains the message.
-/

namespace TgMessenger.MessageStore

open Asyncio

/-! ## Pages on their way into the database -/

/-- The messages an operation writes. -/
def Op.written : Op → List Message
  | .upsert m _ _ _ => [m]
  | _ => []

/-- Requests to the client. -/
def Op.IsFetch : Op → Prop
  | .historySince .. => True
  | .clientHistory .. => True
  | _ => False

/-- The page a program works on after an operation. -/
def Op.page (page : List Message) : (o : Op) → Except String (effects.Ret o) → List Message
  | .historySince .., .ok fetched => fetched
  | .clientHistory .., .ok fetched => fetched
  | .historySince .., .error _ => []
  | .clientHistory .., .error _ => []
  | _, _ => page

theorem Op.page_of_not_isFetch {page : List Message} {o : Op} (h : ¬o.IsFetch)
    (x : Except String (effects.Ret o)) : o.page page x = page := by
  cases o with
  | historySince _ _ _ => exact absurd trivial h
  | clientHistory _ _ _ => exact absurd trivial h
  | _ => rfl

/-- The program writes `m` before it makes another request. -/
def Unwritten {α : Type} (m : Message) : StoreProg α → Prop
  | .ret _ => False
  | .raise _ => False
  | .op o k => m ∈ o.written ∨ (¬o.IsFetch ∧ ∃ x, Unwritten m (k x))

/-- Writing only what was fetched, as a protocol, whose state is the last page. -/
def pageProtocol : Protocol effects (List Message) where
  legal page o := ∀ m ∈ o.written, m ∈ page
  next page o x := o.page page x

/-- The program only writes messages of the last page it fetched, the first one being
`page`. -/
abbrev Sourced {α : Type} (page : List Message) (p : StoreProg α) : Prop :=
  p.Follows pageProtocol (fun _ ↦ True) page

theorem Sourced.mem_of_unwritten {α : Type} {page : List Message} {p : StoreProg α}
    (h : Sourced page p) {m : Message} (hm : Unwritten m p) : m ∈ page := by
  induction p generalizing page with
  | ret a => exact hm.elim
  | raise e => exact hm.elim
  | op o k ih =>
    rcases hm with hm | ⟨hfetch, x, hm⟩
    · exact h.1 m hm
    · have hx : Sourced (o.page page x) (k x) := h.2 x
      rw [Op.page_of_not_isFetch hfetch] at hx
      exact ih x hx hm

namespace Sourced

variable {α β : Type} {page : List Message}

theorem ret (a : α) : Sourced page (.ret a) := trivial

theorem bind {p : StoreProg α} {f : α → StoreProg β} (hp : Sourced page p)
    (hf : ∀ a page, Sourced page (f a)) : Sourced page (p >>= f) :=
  Prog.Follows.bind hp (fun a page _ ↦ hf a page) fun _ _ ↦ trivial

/-- An operation that writes no message. -/
theorem perform {o : Op} (ho : o.written = []) : Sourced page (perform o) :=
  Prog.Follows.perform (fun m hm ↦ by rw [ho] at hm; exact absurd hm List.not_mem_nil)
    fun _ ↦ trivial

/-- Writing messages of the page. -/
theorem writePage {ms : List Message} (h : ∀ m ∈ ms, m ∈ page) :
    Sourced page (Prog.forEach upsertMessage ms) := by
  refine (Prog.Follows.forEach (F := (· = page)) (fun m hm j hj ↦ ?_) rfl).mono fun _ _ ↦ trivial
  subst hj
  refine Prog.Follows.perform (fun m' hm' ↦ ?_) fun _ ↦ rfl
  rw [List.mem_singleton.mp hm']
  exact h m hm

/-- A request, and what is done with its answer. -/
theorem historySince {peer minId : ℤ} {limit : ℕ} {f : List Message → StoreProg β}
    (hf : ∀ page, Sourced page (f page)) :
    Sourced page (MessageStore.perform (.historySince peer minId limit) >>= f) := by
  refine ⟨fun m hm ↦ absurd hm List.not_mem_nil, fun x ↦ ?_⟩
  cases x with
  | ok fetched => exact hf fetched
  | error e => trivial

theorem clientHistory {peer offsetId : ℤ} {limit : ℕ} {f : List Message → StoreProg β}
    (hf : ∀ page, Sourced page (f page)) :
    Sourced page (MessageStore.perform (.clientHistory peer limit offsetId) >>= f) := by
  refine ⟨fun m hm ↦ absurd hm List.not_mem_nil, fun x ↦ ?_⟩
  cases x with
  | ok fetched => exact hf fetched
  | error e => trivial

theorem withPeerLock {peer : ℤ} {body : StoreProg α} (h : ∀ page, Sourced page body) :
    Sourced page (withPeerLock peer body) :=
  bind (perform rfl) fun _ page ↦ (h page).always fun _ _ ↦ perform rfl

/-! ## `history` -/

theorem replaceWindow (peer : ℤ) (limit : ℕ) : Sourced page (replaceWindow peer page limit) :=
  Prog.Follows.ite (bind (perform rfl) fun _ _ ↦ bind (perform rfl) fun _ _ ↦ ret _)
    (bind (writePage fun _ hm ↦ hm) fun _ _ ↦
      bind (perform rfl) fun _ _ ↦ bind (perform rfl) fun _ _ ↦ ret _)

theorem syncFullWindow (peer : ℤ) (limit : ℕ) : Sourced page (syncFullWindow peer limit) :=
  historySince fun _ ↦ bind (replaceWindow peer limit) fun _ _ ↦ perform rfl

theorem syncHistory (peer : ℤ) (limit : ℕ) (row : Option (ℤ × ℤ)) :
    Sourced page (syncHistory peer limit row) :=
  historySince fun _ ↦
    Prog.Follows.ite
      (Prog.Follows.ite (bind (replaceWindow peer limit) fun _ _ ↦ perform rfl)
        (syncFullWindow ..))
      (Prog.Follows.ite (bind (replaceWindow peer limit) fun _ _ ↦ perform rfl) (syncFullWindow ..))

theorem historyBefore (peer : ℤ) (limit : ℕ) (offsetId : ℤ) :
    Sourced page (historyBefore peer limit offsetId) := by
  have hfetch (page : List Message) : Sourced page (do
      let fetched : List Message ← MessageStore.perform (.clientHistory peer limit offsetId)
      Prog.forEach MessageStore.upsertMessage fetched
      return fetched) :=
    clientHistory fun _ ↦ bind (writePage fun _ hm ↦ hm) fun _ _ ↦ ret _
  refine bind (perform rfl) fun row page ↦ ?_
  cases row with
  | none => exact hfetch page
  | some row =>
    refine Prog.Follows.ite (bind (perform rfl) fun _ page ↦ Prog.Follows.ite (ret _) ?_)
      (hfetch page)
    exact clientHistory fun _ ↦ bind (writePage fun _ hm ↦ hm) fun _ _ ↦
      Prog.Follows.ite (bind (perform rfl) fun _ _ ↦ ret _) (ret _)

theorem syncWindow (peer : ℤ) (limit : ℕ) : Sourced page (syncWindow peer limit) := by
  refine bind (perform rfl) fun row page ↦ bind ?_ fun row' page ↦
    Prog.Follows.ite (syncHistory ..)
      (bind (perform rfl) fun _ page ↦ Prog.Follows.ite (syncHistory ..) (ret ()))
  cases row with
  | none => exact ret none
  | some row =>
    exact Prog.Follows.ite (bind (perform rfl) fun _ page ↦
      Prog.Follows.ite (bind (syncFullWindow ..) fun _ _ ↦ perform rfl) (ret _)) (ret _)

/-- `history` writes nothing but what it fetched. -/
theorem history (peer : ℤ) (limit : ℕ) (offsetId : ℤ) :
    Sourced page (history peer limit offsetId) := by
  refine Prog.Follows.ite (withPeerLock fun _ ↦ historyBefore ..)
    (bind (withPeerLock fun _ ↦ syncWindow ..) fun _ page ↦ bind (perform rfl) fun row page ↦ ?_)
  cases row with
  | none => exact ret []
  | some row => exact perform rfl

end Sourced

/-! ## One step of `history` -/

/-- An operation adds no row but those of the messages it writes. -/
theorem has_of_onDb {o : Op} {db : Db} {d id : ℤ} (h : (o.onDb db).Has d id) :
    db.Has d id ∨ ∃ m ∈ o.written, m.dialogId = d ∧ m.id = id := by
  cases o with
  | upsert m tt tl pt =>
    rcases (Db.has_upsertMessage ..).mp h with ⟨rfl, rfl⟩ | h
    · exact .inr ⟨m, List.mem_singleton_self m, rfl, rfl⟩
    · exact .inl h
  | deleteDialog peer => exact .inl ((Db.has_deleteDialog ..).mp h).1
  | pruneWindow peer low high ids => exact .inl ((Db.has_pruneWindow ..).mp h).1
  | deleteIds peer ids => exact .inl ((Db.has_deleteIds ..).mp h).1
  | deleteRow peer i => exact .inl ((Db.has_deleteRow ..).mp h).1
  | _ => exact .inl h

/-- What a request returns is on the server. -/
theorem mem_live_of_fetch {cfg : Setup} {t : ℕ} {o : Op} {w w' : World}
    {x : Except String (effects.Ret o)} (h : handle cfg t o w = .done x w') (ho : o.IsFetch)
    {page : List Message} {m : Message} (hm : m ∈ o.page page x) :
    m ∈ w.server.live m.dialogId := by
  cases o with
  | historySince peer minId limit =>
    obtain ⟨y, hy, hpage⟩ := w.request_eq cfg (.since peer minId limit)
      (w.server.historySince peer minId limit)
    obtain ⟨rfl, -⟩ := Reply.done.inj (hy.symm.trans h)
    cases y with
    | error e => exact absurd hm List.not_mem_nil
    | ok fetched =>
      obtain rfl := hpage fetched rfl
      have hlive := (Server.historySince_sublist ..).subset hm
      rwa [w.server.owned peer m hlive]
  | clientHistory peer limit offsetId =>
    obtain ⟨y, hy, hpage⟩ := w.request_eq cfg (.before peer limit offsetId)
      (w.server.history peer limit offsetId)
    obtain ⟨rfl, -⟩ := Reply.done.inj (hy.symm.trans h)
    cases y with
    | error e => exact absurd hm List.not_mem_nil
    | ok fetched =>
      obtain rfl := hpage fetched rfl
      have hlive := (Server.history_sublist ..).subset hm
      rwa [w.server.owned peer m hlive]
  | _ => exact absurd ho id

/-- A message that is unwritten after a step was so before, or was just fetched. -/
theorem Sourced.unwritten_of_step {α : Type} {cfg : Setup} {t : ℕ} {page : List Message} {o : Op}
    {k : Except String (effects.Ret o) → StoreProg α} (hp : Sourced page (.op o k)) {w w' : World}
    {x : Except String (effects.Ret o)} (h : handle cfg t o w = .done x w') {m : Message}
    (hm : Unwritten m (k x)) : Unwritten m (.op o k) ∨ m ∈ w.server.live m.dialogId := by
  by_cases ho : o.IsFetch
  · have hx : Sourced (o.page page x) (k x) := hp.2 x
    exact .inr (mem_live_of_fetch h ho (hx.mem_of_unwritten hm))
  · exact .inl (.inr ⟨ho, x, hm⟩)

/-! ## `apply_deletion` -/

/-- The messages of which dialogs an event is about: without a chat id, of every dialog
that is neither channel nor supergroup. -/
def Concerns (event : MessagesDeletedEvent) (d : ℤ) : Prop :=
  match event.chatId with
  | some chat => d = chat
  | none => isChannelOrMegagroupId d = false

/-- No concerned dialog on the server has a message with an id of the event. -/
theorem Call.Allowed.not_live {s : Server} {event : MessagesDeletedEvent}
    (h : (Call.applyDeletion event).Allowed s) {d : ℤ} (hd : Concerns event d) {m : Message}
    (hm : m ∈ s.live d) : m.id ∉ event.messageIds := by
  obtain ⟨chat, ids⟩ := event
  intro hid
  cases chat with
  | some chat =>
    obtain rfl : d = chat := hd
    exact (h m.id hid).2.2 m hm rfl
  | none => exact (h m.id hid).2 d hd m hm rfl

theorem Call.Allowed.apply {s s' : Server} {event : MessagesDeletedEvent} {e : ServerEvent}
    (h : (Call.applyDeletion event).Allowed s) (he : s.apply e = some s') :
    (Call.applyDeletion event).Allowed s' := by
  obtain ⟨chat, ids⟩ := event
  cases chat with
  | some chat => exact fun id hid ↦ (h id hid).apply he
  | none => exact fun id hid ↦ (h id hid).apply he

/-- The loop of `apply_deletion` over the selected rows. -/
def deleteRows (rows : List (ℤ × ℤ)) : StoreProg (List Message) :=
  Prog.forEach (fun row ↦ if isChannelOrMegagroupId row.1 then Prog.ret ()
    else perform (.deleteRow row.1 row.2)) rows >>= fun _ ↦ Prog.ret []

/-- The loop is at its end, or at the deletion of its next row outside channels. -/
theorem deleteRows_cases (rows : List (ℤ × ℤ)) :
    ((∀ row ∈ rows, isChannelOrMegagroupId row.1 = true) ∧ deleteRows rows = .ret []) ∨
    ∃ skipped d id rest, rows = skipped ++ (d, id) :: rest ∧
      (∀ row ∈ skipped, isChannelOrMegagroupId row.1 = true) ∧
      deleteRows rows = perform (.deleteRow d id) >>= fun _ ↦ deleteRows rest := by
  induction rows with
  | nil => exact .inl ⟨fun _ h ↦ absurd h List.not_mem_nil, rfl⟩
  | cons row rows ih =>
    by_cases hrow : isChannelOrMegagroupId row.1 = true
    · have hskip : deleteRows (row :: rows) = deleteRows rows := by
        rw [deleteRows, Prog.forEach, if_pos hrow]
        rfl
      rcases ih with ⟨hall, hend⟩ | ⟨skipped, d, id, rest, rfl, hskipped, hnext⟩
      · exact .inl ⟨List.forall_mem_cons.mpr ⟨hrow, hall⟩, hskip.trans hend⟩
      · exact .inr ⟨row :: skipped, d, id, rest, rfl, List.forall_mem_cons.mpr ⟨hrow, hskipped⟩,
          hskip.trans hnext⟩
    · refine .inr ⟨[], row.1, row.2, rows, rfl, fun _ h ↦ absurd h List.not_mem_nil, ?_⟩
      rw [deleteRows, Prog.forEach, if_neg hrow, bind_assoc]
      rfl

/-! ## The interleaving -/

/-- Task 1 executes `apply_deletion`, all others `history`. -/
structure Deletion (event : MessagesDeletedEvent) (c : StoreConfig) : Prop where
  deletion : c.task 1 = (Call.applyDeletion event).prog
  history : ∀ t, t ≠ 1 →
    (∃ peer limit offsetId, c.task t = MessageStore.history peer limit offsetId) ∨ c.Ended t

/-- Some `history` still has to write message `id` of a dialog. -/
def Pending (c : StoreConfig) (d id : ℤ) : Prop :=
  ∃ t m, t ≠ 1 ∧ Unwritten m (c.task t) ∧ m.dialogId = d ∧ m.id = id

/-- No deletion runs while a message it is about is pending; what the `SELECT` would miss
does not have to be there yet. -/
def Op.Settled (c : StoreConfig) : Op → Prop
  | .deleteIds chat ids => ∀ id ∈ ids, ¬Pending c chat id
  | .selectIds ids => ∀ id ∈ ids, ∀ d, isChannelOrMegagroupId d = false → Pending c d id →
      c.shared.db.Has d id
  | .deleteRow d id => ¬Pending c d id
  | _ => True

/-- When every `history` has ended, nothing is pending. -/
theorem Op.settled_of_ended {c : StoreConfig} (h : ∀ t, t ≠ 1 → c.Ended t) (o : Op) :
    o.Settled c := by
  have hno (d id : ℤ) : ¬Pending c d id := by
    rintro ⟨t, m, ht, hm, -⟩
    rcases h t ht with ⟨a, heq⟩ | ⟨e, heq⟩ <;> rw [heq] at hm <;> exact hm
  cases o with
  | deleteIds chat ids => exact fun id _ ↦ hno chat id
  | selectIds ids => exact fun id _ d _ hp ↦ absurd hp (hno d id)
  | deleteRow d id => exact hno d id
  | _ => trivial

/-- `apply_deletion` runs after the deletion on the server it was triggered by, and its
statements only when they are settled. -/
def SettledMove (event : MessagesDeletedEvent) (c : StoreConfig) (m : Move ℕ ServerEvent) : Prop :=
  m = .run 1 → (Call.applyDeletion event).Allowed c.shared.server ∧
    ∀ o k, c.task 1 = .op o k → o.Settled c

/-- A deleted message has no row and nobody is about to write it. -/
def Cleared (c : StoreConfig) (d id : ℤ) : Prop := ¬c.shared.db.Has d id ∧ ¬Pending c d id

/-- The invariant: once `apply_deletion` has begun, every deleted message is cleared or
among the rows still to be deleted. -/
structure Deleting (event : MessagesDeletedEvent) (c : StoreConfig) : Prop where
  sourced : ∀ t, t ≠ 1 → ∃ page, Sourced page (c.task t)
  phase : c.task 1 = (Call.applyDeletion event).prog ∨
    (Call.applyDeletion event).Allowed c.shared.server ∧ ∃ rows, c.task 1 = deleteRows rows ∧
      ∀ d, Concerns event d → ∀ id ∈ event.messageIds,
        (isChannelOrMegagroupId d = false ∧ (d, id) ∈ rows) ∨ Cleared c d id

theorem Deletion.deleting {event : MessagesDeletedEvent} {c : StoreConfig}
    (h : Deletion event c) : Deleting event c := by
  refine ⟨fun t ht ↦ ?_, .inl h.deletion⟩
  rcases h.history t ht with ⟨peer, limit, offsetId, heq⟩ | ⟨a, heq⟩ | ⟨e, heq⟩
  · exact ⟨[], heq ▸ .history peer limit offsetId⟩
  · exact ⟨[], heq ▸ trivial⟩
  · exact ⟨[], heq ▸ trivial⟩

/-- The invariant only depends on the data and on what the tasks still have to do. -/
theorem Deleting.congr {event : MessagesDeletedEvent} {c c' : StoreConfig} (h : Deleting event c)
    (htask : c'.task = c.task) (hdb : c'.shared.db = c.shared.db)
    (hserver : (Call.applyDeletion event).Allowed c.shared.server →
      (Call.applyDeletion event).Allowed c'.shared.server) : Deleting event c' := by
  obtain ⟨hsourced, hphase⟩ := h
  have hpending (d id : ℤ) : Pending c' d id ↔ Pending c d id := by
    rw [Pending, Pending, htask]
  refine ⟨by rw [htask]; exact hsourced, ?_⟩
  rw [htask]
  refine hphase.imp_right fun ⟨hallowed, rows, hrows, hcleared⟩ ↦
    ⟨hserver hallowed, rows, hrows, fun d hd id hid ↦ (hcleared d hd id hid).imp_right fun hc ↦ ?_⟩
  rw [Cleared, hdb, hpending]
  exact hc

/-- A step of `history` brings no deleted message back. -/
theorem Deleting.step_history {cfg : Setup} {event : MessagesDeletedEvent} {c : StoreConfig}
    (h : Deleting event c) {t : ℕ} (ht : t ≠ 1) {o : Op}
    {k : Except String (effects.Ret o) → StoreProg (List Message)} (hp : c.task t = .op o k)
    {x : Except String (effects.Ret o)} {w : World}
    (hr : handle cfg t o c.shared = .done x w) :
    Deleting event ⟨w, Function.update c.task t (k x)⟩ := by
  obtain ⟨hsourced, hphase⟩ := h
  obtain ⟨hdb, hserver⟩ := handle_done hr
  obtain ⟨page, hpage⟩ := hsourced t ht
  rw [hp] at hpage
  refine ⟨fun u hu ↦ ?_, ?_⟩
  · by_cases hut : u = t
    · subst hut
      simp only [Function.update_self]
      exact ⟨_, hpage.2 x⟩
    · simp only [Function.update_of_ne hut]
      exact hsourced u hu
  · simp only [Function.update_of_ne ht.symm, hserver]
    refine hphase.imp_right fun ⟨hallowed, rows, hrows, hcleared⟩ ↦
      ⟨hallowed, rows, hrows, fun d hd id hid ↦ (hcleared d hd id hid).imp_right fun hc ↦ ?_⟩
    obtain ⟨hrow, hpending⟩ := hc
    refine ⟨fun hrow' ↦ ?_, ?_⟩
    · rw [hdb] at hrow'
      rcases has_of_onDb hrow' with hold | ⟨m, hm, hmd, hmid⟩
      · exact hrow hold
      · exact hpending ⟨t, m, ht, by rw [hp]; exact .inl hm, hmd, hmid⟩
    · rintro ⟨u, m, hu, hm, rfl, rfl⟩
      by_cases hut : u = t
      · subst hut
        simp only [Function.update_self] at hm
        rcases hpage.unwritten_of_step hr hm with hold | hlive
        · exact hpending ⟨u, m, hu, hp ▸ hold, rfl, rfl⟩
        · exact hallowed.not_live hd hlive hid
      · simp only [Function.update_of_ne hut] at hm
        exact hpending ⟨u, m, hu, hm, rfl, rfl⟩

/-- A settled step of `apply_deletion` clears what it is about. -/
theorem Deleting.step_deletion {cfg : Setup} {event : MessagesDeletedEvent} {c : StoreConfig}
    (h : Deleting event c) (hallowed : (Call.applyDeletion event).Allowed c.shared.server) {o : Op}
    {k : Except String (effects.Ret o) → StoreProg (List Message)} (hp : c.task 1 = .op o k)
    (ho : o.Settled c) {x : Except String (effects.Ret o)} {w : World}
    (hr : handle cfg 1 o c.shared = .done x w) :
    Deleting event ⟨w, Function.update c.task 1 (k x)⟩ := by
  obtain ⟨hsourced, hphase⟩ := h
  have hfinish (rows : List (ℤ × ℤ)) (htask : k x = deleteRows rows)
      (hclear : ∀ d, Concerns event d → ∀ id ∈ event.messageIds,
        (isChannelOrMegagroupId d = false ∧ (d, id) ∈ rows) ∨ (¬w.db.Has d id ∧ ¬Pending c d id)) :
      Deleting event ⟨w, Function.update c.task 1 (k x)⟩ := by
    refine ⟨fun t ht ↦ ?_, .inr ⟨?_, rows, ?_, fun d hd id hid ↦
      (hclear d hd id hid).imp_right fun hc ↦ ⟨hc.1, ?_⟩⟩⟩
    · simp only [Function.update_of_ne ht]
      exact hsourced t ht
    · simp only [(handle_done hr).2]
      exact hallowed
    · simp only [Function.update_self]
      exact htask
    · rintro ⟨t, m, ht, hm, hmd⟩
      simp only [Function.update_of_ne ht] at hm
      exact hc.2 ⟨t, m, ht, hm, hmd⟩
  rcases hphase with hstart | ⟨-, rows, hrows, hcleared⟩
  · obtain ⟨chat, ids⟩ := event
    rw [hp, Call.prog, applyDeletion] at hstart
    by_cases hids : ids.isEmpty = true
    · rw [if_pos hids] at hstart
      cases hstart
    · rw [if_neg hids] at hstart
      cases chat with
      | some chat =>
        dsimp only at hstart
        rw [Prog.perform_bind] at hstart
        cases hstart
        obtain ⟨rfl, rfl⟩ := Reply.done.inj hr
        refine hfinish [] rfl fun d hd id hid ↦ .inr ?_
        obtain rfl : d = chat := hd
        exact ⟨fun hrow ↦ ((Db.has_deleteIds ..).mp hrow).2 ⟨rfl, hid⟩, ho id hid⟩
      | none =>
        dsimp only at hstart
        rw [bind_assoc, Prog.perform_bind] at hstart
        cases hstart
        obtain ⟨rfl, rfl⟩ := Reply.done.inj hr
        refine hfinish (c.shared.db.selectIds ids) rfl fun d hd id hid ↦ ?_
        by_cases hrow : c.shared.db.Has d id
        · exact .inl ⟨hd, (Db.mem_selectIds ..).mpr ⟨hrow, hid⟩⟩
        · exact .inr ⟨hrow, fun hpending ↦ hrow (ho id hid d hd hpending)⟩
  · rw [hp] at hrows
    rcases deleteRows_cases rows with ⟨-, hend⟩ | ⟨skipped, d, id, rest, rfl, hskipped, hnext⟩
    · cases hrows.trans hend
    · rw [hnext, Prog.perform_bind] at hrows
      cases hrows
      obtain ⟨rfl, rfl⟩ := Reply.done.inj hr
      refine hfinish rest rfl fun d' hd' id' hid' ↦ ?_
      rcases hcleared d' hd' id' hid' with ⟨hchannel, hmem⟩ | ⟨hrow, hpending⟩
      · rcases List.mem_append.mp hmem with hmem | hmem
        · exact absurd (hskipped _ hmem) (by rw [hchannel]; exact Bool.false_ne_true)
        · rcases List.mem_cons.mp hmem with heq | hmem
          · obtain ⟨rfl, rfl⟩ := Prod.mk.inj heq
            exact .inr ⟨fun hrow ↦ ((Db.has_deleteRow ..).mp hrow).2 ⟨rfl, rfl⟩, ho⟩
          · exact .inl ⟨hchannel, hmem⟩
      · exact .inr ⟨fun hrow' ↦ hrow ((Db.has_deleteRow ..).mp hrow').1, hpending⟩

theorem Deleting.step {cfg : Setup} {event : MessagesDeletedEvent} {c c' : StoreConfig}
    {m : Move ℕ ServerEvent} (h : Deleting event c) (hm : SettledMove event c m)
    (hs : c.step (system cfg) m = some c') : Deleting event c' := by
  rcases Config.step_cases hs with ⟨t, o, k, x, w, rfl, hp, hr, rfl⟩ |
    ⟨t, o, k, w, rfl, hp, hr, rfl⟩ | ⟨e, w, rfl, henv, rfl⟩
  · by_cases ht : t = 1
    · subst ht
      obtain ⟨hallowed, hsettled⟩ := hm rfl
      exact h.step_deletion hallowed hp (hsettled o k hp) hr
    · exact h.step_history ht hp hr
  · obtain ⟨-, hdb, hserver, -⟩ := handle_parked hr
    exact h.congr rfl hdb (by rw [hserver]; exact id)
  · obtain ⟨server, hserver, rfl⟩ := Option.map_eq_some_iff.mp henv
    exact h.congr rfl rfl fun hallowed ↦ hallowed.apply hserver

/-- Once `apply_deletion` and the `history` calls beside it have ended, no row of a deleted
message is left, in every run in which the statements of `apply_deletion` are settled. -/
theorem deletion_not_lost {cfg : Setup} {event : MessagesDeletedEvent} {c c' : StoreConfig}
    (hstart : Deletion event c) (hrun : Reaches (system cfg) (SettledMove event) c c')
    (hended : ∀ t, c'.Ended t) {d : ℤ} (hd : Concerns event d) {id : ℤ}
    (hid : id ∈ event.messageIds) : ¬c'.shared.db.Has d id := by
  have hinv : Deleting event c' :=
    hrun.preserves (fun _ _ _ h hm hs ↦ h.step hm hs) hstart.deleting
  have hno {o : Op} {k : Except String (effects.Ret o) → StoreProg (List Message)} :
      c'.task 1 ≠ .op o k := by
    rcases hended 1 with ⟨a, heq⟩ | ⟨e, heq⟩ <;> rw [heq] <;> exact fun h ↦ nomatch h
  rcases hinv.phase with hstart | ⟨-, rows, hrows, hcleared⟩
  · obtain ⟨chat, ids⟩ := event
    have hids : ¬ids.isEmpty = true := by
      rw [List.isEmpty_iff]
      exact List.ne_nil_of_mem hid
    rw [Call.prog, applyDeletion, if_neg hids] at hstart
    cases chat with
    | some chat => exact absurd hstart hno
    | none => exact absurd hstart hno
  · rcases deleteRows_cases rows with ⟨hall, -⟩ | ⟨skipped, d', id', rest, -, -, hnext⟩
    · rcases hcleared d hd id hid with ⟨hchannel, hmem⟩ | hc
      · exact absurd (hall _ hmem) (by rw [hchannel]; exact Bool.false_ne_true)
      · exact hc.1
    · exact absurd (hrows.trans hnext) hno

/-- `history` and `apply_deletion` next to each other, in front of three messages. -/
def historyBesideDeletion : StoreConfig :=
  ⟨.init (.ofIds 7 [1, 2, 3]), fun
    | 0 => history 7 3 0
    | 1 => (Call.applyDeletion { chatId := some 7, messageIds := [2] }).prog
    | _ => .ret []⟩

/-- The page is written before message 2 is deleted. -/
theorem deletion_not_lost_after_history :
    ∃ c, Reaches (system .calm) (SettledMove { chatId := some 7, messageIds := [2] })
      historyBesideDeletion c ∧ (∀ t, c.Ended t) ∧ ¬c.shared.db.Has 7 2 := by
  have hcompute : ((history 7 3 0).run (system .calm) 0 (.init (.ofIds 7 [1, 2, 3]))).map
      (fun x ↦ (x.2.server.top 7, x.2.server.direct)) = some (3, [3, 2, 1]) := by decide
  obtain ⟨⟨x, w⟩, hrun, hserver⟩ := Option.map_eq_some_iff.mp hcompute
  obtain ⟨htop, hdirect⟩ := Prod.mk.inj hserver
  obtain ⟨n, hn⟩ := Config.exec_of_run (c := historyBesideDeletion) (t := 0) hrun
  set ok := SettledMove { chatId := some 7, messageIds := [2] } with hok
  set task := Function.update historyBesideDeletion.task 0 (.ended x) with htask
  set w₁ : World := { w with server := w.server.delete 7 [2] } with hw₁
  have hother (t : ℕ) (ht : t ≠ 1) : (task t).hasEnded = true := by
    match t with
    | 0 => cases x <;> rfl
    | 1 => exact absurd rfl ht
    | t + 2 => rfl
  have hhistory : Reaches (system .calm) ok historyBesideDeletion ⟨w, task⟩ :=
    reaches_of_exec (fun m hm _ hm' ↦ by rw [List.eq_of_mem_replicate hm] at hm'; cases hm') hn
  have hserver : Steps (system .calm) ok ⟨w, task⟩ ⟨w₁, task⟩ :=
    ⟨.env (.delete 7 [2]), fun h ↦ (nomatch h), rfl⟩
  have hdeletion : Steps (system .calm) ok ⟨w₁, task⟩
      ⟨w₁.onDb (.deleteIds 7 [2]), Function.update task 1 (.ret [])⟩ := by
    refine ⟨.run 1, fun _ ↦ ⟨fun id hid ↦ ?_, fun o k _ ↦ o.settled_of_ended fun t ht ↦
      Config.ended_iff_hasEnded.mpr (hother t ht)⟩, rfl⟩
    obtain rfl := List.mem_singleton.mp hid
    refine ⟨?_, fun _ ↦ ?_, fun m hm hmid ↦ ?_⟩
    · exact (by decide : (2 : ℤ) ≤ 3).trans_eq htop.symm
    · exact (show w₁.server.direct = _ from hdirect) ▸ (by decide)
    · refine (Server.mem_live_delete (d := 7).mp hm).2 ⟨rfl, ?_⟩
      rw [hmid]
      exact hid
  have hreach := (hhistory.tail hserver).tail hdeletion
  have hended (t : ℕ) : Config.Ended (⟨w₁.onDb (.deleteIds 7 [2]),
      Function.update task 1 (.ret [])⟩ : StoreConfig) t := by
    rw [Config.ended_iff_hasEnded]
    by_cases ht : t = 1
    · simp only [ht, Function.update_self]
      rfl
    · simp only [Function.update_of_ne ht]
      exact hother t ht
  refine ⟨_, hreach, hended, deletion_not_lost ⟨rfl, fun t ht ↦ ?_⟩ hreach hended (d := 7) rfl
    (List.mem_singleton_self 2)⟩
  match t with
  | 0 => exact .inl ⟨7, 3, 0, rfl⟩
  | 1 => exact absurd rfl ht
  | t + 2 => exact .inr (.inl ⟨[], rfl⟩)

/-- The page was fetched before message 2 was deleted and is written after
`apply_deletion` has ended. -/
theorem deletion_lost :
    ∃ c, historyBesideDeletion.exec (system .calm) (List.replicate 3 (.run 0) ++
        [.env (.delete 7 [2]), .run 1] ++ List.replicate 9 (.run 0)) = some c ∧
      c.Ended 0 ∧ c.Ended 1 ∧ c.shared.db.Has 7 2 := by
  have hcompute : (historyBesideDeletion.exec (system .calm) (List.replicate 3 (.run 0) ++
      [.env (.delete 7 [2]), .run 1] ++ List.replicate 9 (.run 0))).map
      (fun c ↦ ((c.task 0).hasEnded, (c.task 1).hasEnded, (c.shared.db.row? 7 2).isSome)) =
      some (true, true, true) := by decide
  obtain ⟨c, hc, hresult⟩ := Option.map_eq_some_iff.mp hcompute
  simp only [Prod.mk.injEq, Option.isSome_iff_exists] at hresult
  exact ⟨c, hc, Config.ended_iff_hasEnded.mpr hresult.1, Config.ended_iff_hasEnded.mpr hresult.2.1,
    hresult.2.2⟩

end TgMessenger.MessageStore
