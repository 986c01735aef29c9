import TgMessenger.Asyncio.Outline
import TgMessenger.Data.OrderedDict
import TgMessenger.MessageStore.Server

/-!
# The message pane of the terminal client

`#messages` (`tui/app.py`) shows bubbles of the open dialog.  Opening a dialog replaces them by
the newest page, a wheel-up at the top puts an older page before them, Ctrl+T replaces them by
the newest messages with their translations, and what is received or sent comes at the end.

Each of these is a worker that waits between what it reads and what it shows.  Opening another
dialog cancels the workers that load the history, and Ctrl+T the Ctrl+T before it.
-/

namespace TgMessenger.Tui

open Asyncio
open MessageStore (Server)

/-! ## The code -/

/-- `_HISTORY_PAGE_SIZE`. -/
def historyPageSize : ℕ := 50

/-- `DEFAULT_REMEMBER_CAP` of `core/cache.py`. -/
def defaultRememberCap : ℕ := 200

/-- Messages in chronological order. -/
structure Page where
  messages : List Message
  ascending : messages.Pairwise fun a b ↦ a.id < b.id

namespace Page

/-- The ids of a page. -/
def ids (page : Page) : List ℤ := page.messages.map Message.id

theorem ascending_ids (page : Page) : page.ids.Pairwise (· < ·) :=
  List.pairwise_map.mpr page.ascending

/-- A page begins with its least id. -/
theorem head_le {page : Page} {id i : ℤ} (hid : page.ids.head? = some id) (hi : i ∈ page.ids) :
    id ≤ i := by
  obtain ⟨rest, hrest⟩ := List.head?_eq_some_iff.mp hid
  have hascending := page.ascending_ids
  rw [hrest] at hi hascending
  rcases List.mem_cons.mp hi with rfl | hi
  · exact le_refl _
  · exact ((List.pairwise_cons.mp hascending).1 i hi).le

/-- A page the server serves. -/
def ofHistory (s : Server) (dialog : ℤ) (limit : ℕ) (offset : ℤ) : Page :=
  ⟨s.history dialog limit offset, (s.ascending dialog).sublist (s.history_sublist ..)⟩

/-- The messages of a page that are not shown. -/
def fresh (page : Page) (index : List ℤ) : Page :=
  ⟨page.messages.filter fun m ↦ m.id ∉ index, page.ascending.filter _⟩

/-- The messages of a page with their translations. -/
def translated (page : Page) (translation : Message → Option String) : Page where
  messages := page.messages.map fun m ↦ { m with translatedText := translation m }
  ascending := List.pairwise_map.mpr page.ascending

@[simp] theorem ids_translated (page : Page) (translation : Message → Option String) :
    (page.translated translation).ids = page.ids := by
  rw [ids, translated, List.map_map]
  rfl

theorem mem_ids_fresh {page : Page} {index : List ℤ} {id : ℤ} :
    id ∈ (page.fresh index).ids ↔ id ∈ page.ids ∧ id ∉ index := by
  simp only [ids, fresh, List.mem_map, List.mem_filter, decide_eq_true_eq]
  constructor
  · rintro ⟨m, ⟨hm, hindex⟩, rfl⟩
    exact ⟨⟨m, hm, rfl⟩, hindex⟩
  · rintro ⟨⟨m, hm, rfl⟩, hindex⟩
    exact ⟨m, ⟨hm, hindex⟩, rfl⟩

end Page

/-- What a message to be sent consists of. -/
inductive Body where
  | text (text : String)
  | media (path : String) (caption : Option String)

/-- The text of the message that is made of it. -/
def Body.text? : Body → Option String
  | text body => some body
  | media _ caption => caption

/-- The groups of workers of which at most one runs. -/
inductive Group where
  | history | historyBackfill | translateAll
deriving DecidableEq

/-- Who runs: the listeners, and what the user has begun. -/
inductive TaskId where
  | incoming | outgoing
  | action (n : ℕ)
deriving DecidableEq

/-- What leaves a coroutine. -/
inductive Fault where
  | /-- `CancelledError`. -/
    cancelled
  | /-- Any `Exception`. -/
    exception

/-- What the coroutines await, or do to what they share between two awaits. -/
inductive Op where
  | /-- `_open_dialog`. -/
    openDialog (dialog : ℤ)
  | /-- `await pane.remove_children()`. -/
    removeChildren
  | /-- `history(dialog, limit, offset_id)` of the store or the client. -/
    history (dialog : ℤ) (limit : ℕ) (offset : ℤ)
  | /-- `_show_history` mounts the page. -/
    mountHistory (dialog : ℤ) (page : Page)
  | /-- `_show_history` sets the cursor. -/
    noteHistory (dialog : ℤ) (page : Page)
  | /-- The guards of `_maybe_backfill_history`: the dialog and the offset, if a page is due. -/
    maybeBackfill
  | /-- The first turn of a worker. -/
    begin
  | /-- `dialog_id == self._current`. -/
    isOpen (dialog : ℤ)
  | /-- `_backfill_history` mounts what is new of the page: the oldest id of it, if there is any. -/
    prepend (dialog : ℤ) (older : Page)
  | /-- `_backfill_history` moves the cursor. -/
    noteBackfill (dialog : ℤ) (oldest : ℤ) (older : Page)
  | /-- `self._backfilling.discard(dialog_id)`. -/
    release (dialog : ℤ)
  | /-- `action_translate_all`: the open dialog. -/
    translateAll
  | /-- `_ensure_lang_then_translate_all`, up to the pass: is there a language to read in? -/
    ensureLang
  | /-- `await pane.remove_children()` of the pass, in the open dialog only. -/
    clearPane (dialog : ℤ)
  | /-- The pass shows its status, in the open dialog only. -/
    showStatus (dialog : ℤ)
  | /-- `self._translator.max_messages()`. -/
    maxMessages
  | /-- `self._translator.translate_history(dialog_id, messages)`. -/
    translateHistory (dialog : ℤ) (page : Page)
  | /-- The pass mounts the translated page. -/
    mountTranslated (dialog : ℤ) (page : Page)
  | /-- The next event of `listen_all()`. -/
    nextIncoming
  | /-- The next event of `listen_outgoing()`, unless it is in `_sent_ids`. -/
    nextOutgoing
  | /-- A listener mounts a message, in the open dialog only. -/
    mountLive (message : Message)
  | /-- `send_text` or `send_media`. -/
    send (peer : ℤ) (body : Body)
  | /-- `_remember_sent`. -/
    rememberSent (peer id : ℤ)
  | /-- The bubble of a sent message, in the open dialog only. -/
    mountSent (peer : ℤ) (message : Message)

/-- The effects of the pane. -/
abbrev effects : Effects where
  Op := Op
  Fault := Fault
  Ret
    | .history .. => Page
    | .maybeBackfill => Option (ℤ × ℤ)
    | .isOpen _ => Bool
    | .prepend .. => Option ℤ
    | .translateAll => Option ℤ
    | .ensureLang => Bool
    | .clearPane _ => Bool
    | .showStatus _ => Bool
    | .maxMessages => ℕ
    | .translateHistory .. => Page
    | .nextIncoming => Message
    | .nextOutgoing => Option Message
    | .send .. => Message
    | _ => Unit

/-- A coroutine of the client. -/
abbrev TuiProg (α : Type) := Prog effects α

/-- Await one operation. -/
abbrev perform (o : Op) : TuiProg (effects.Ret o) := Prog.perform (E := effects) o

section Programs

variable {α : Type}

/-- `try: … except Exception:`, which lets `CancelledError` pass. -/
def attempt (p : TuiProg α) : TuiProg (Option α) :=
  (some <$> p).rescue fun
    | .cancelled => .raise .cancelled
    | .exception => return none

/-- `_show_history`. -/
def showHistory (dialog : ℤ) : TuiProg Unit := do
  perform .removeChildren
  let page : Option Page ← attempt (perform (.history dialog historyPageSize 0))
  match page with
  | none => return ()
  | some page => do
    perform (.mountHistory dialog page)
    perform (.noteHistory dialog page)

/-- `_open_dialog`, and the worker it starts. -/
def openDialog (dialog : ℤ) : TuiProg Unit := do
  perform (.openDialog dialog)
  showHistory dialog

/-- `_backfill_history`.  A worker that is cancelled before its first turn does not reach the
`finally`. -/
def backfillHistory (dialog offset : ℤ) : TuiProg Unit := do
  perform .begin
  Prog.always (do
    let isOpen : Bool ← perform (.isOpen dialog)
    if isOpen then
      let older : Option Page ← attempt (perform (.history dialog historyPageSize offset))
      match older with
      | none => return ()
      | some older => do
        let oldest : Option ℤ ← perform (.prepend dialog older)
        match oldest with
        | none => return ()
        | some oldest => perform (.noteBackfill dialog oldest older)
    else return ())
    (perform (.release dialog))

/-- `_maybe_backfill_history`, and the worker it starts. -/
def maybeBackfillHistory : TuiProg Unit := do
  let due : Option (ℤ × ℤ) ← perform .maybeBackfill
  match due with
  | none => return ()
  | some (dialog, offset) => backfillHistory dialog offset

/-- `_translate_whole_dialog`. -/
def translateWholeDialog (dialog : ℤ) : TuiProg Unit := do
  let isOpen : Bool ← perform (.clearPane dialog)
  if isOpen then
    let isOpen : Bool ← perform (.showStatus dialog)
    if isOpen then
      let _ ← attempt do
        let cap : ℕ ← perform .maxMessages
        let page : Page ← perform (.history dialog cap 0)
        let translated : Page ← perform (.translateHistory dialog page)
        let isOpen : Bool ← perform (.clearPane dialog)
        if isOpen then perform (.mountTranslated dialog translated) else return ()
      return ()
    else return ()
  else return ()

/-- `action_translate_all`, and the worker it starts. -/
def actionTranslateAll : TuiProg Unit := do
  let current : Option ℤ ← perform .translateAll
  match current with
  | none => return ()
  | some dialog => do
    let ready : Bool ← perform .ensureLang
    if ready then translateWholeDialog dialog else return ()

/-- So many turns of `_drain_incoming_once`. -/
def drainIncoming : ℕ → TuiProg Unit
  | 0 => return ()
  | turns + 1 => do
    let message : Message ← perform .nextIncoming
    perform (.mountLive message)
    drainIncoming turns

/-- So many turns of `_drain_outgoing_once`. -/
def drainOutgoing : ℕ → TuiProg Unit
  | 0 => return ()
  | turns + 1 => do
    let message : Option Message ← perform .nextOutgoing
    match message with
    | none => drainOutgoing turns
    | some message => do
      perform (.mountLive message)
      drainOutgoing turns

/-- What `_send_text` and `_send_media` have in common. -/
def deliver (peer : ℤ) (body : Body) : TuiProg Unit := do
  let message : Option Message ← attempt (perform (.send peer body))
  match message with
  | none => return ()
  | some message => do
    perform (.rememberSent peer message.id)
    perform (.mountSent peer message)

/-- `_send_text`. -/
def sendText (peer : ℤ) (text : String) : TuiProg Unit := deliver peer (.text text)

/-- `_send_media`. -/
def sendMedia (peer : ℤ) (path : String) (caption : Option String) : TuiProg Unit :=
  deliver peer (.media path caption)

end Programs

/-! ## Running the pane -/

/-- A bubble of the pane. -/
structure Bubble where
  messageId : ℤ
  dialogId : ℤ
  out : Bool
  text : Option String
  translation : Option String
deriving DecidableEq

/-- `_message_bubble_for`. -/
def messageBubbleFor (message : Message) (dialog : ℤ) : Bubble where
  messageId := message.id
  dialogId := dialog
  out := message.out
  text := message.text
  translation := message.translatedText.filter (· ≠ "")

/-- What the client finds outside. -/
structure Setup where
  /-- Whether the `n`-th call raises. -/
  fails : ℕ → Bool
  /-- What `_ensure_lang_then_translate_all` comes to. -/
  ready : ℕ → Bool
  maxMessages : ℕ → ℕ
  translation : ℕ → Message → Option String
  /-- The id and the date of a sent message, and who sends it. -/
  sentId : ℕ → ℤ
  sentDate : ℕ → String
  me : ℤ

/-- The message the server makes of what is sent. -/
def Setup.message (setup : Setup) (call : ℕ) (peer : ℤ) (body : Body) : Message where
  id := setup.sentId call
  dialogId := peer
  senderId := setup.me
  out := true
  date := setup.sentDate call
  text := body.text?

/-- What the workers share. -/
structure World where
  server : Server
  /-- What the listeners have not yet taken. -/
  incoming : List Message
  outgoing : List Message
  current : Option ℤ
  oldestMessageId : Option ℤ
  backfillExhausted : ℤ → Option ℤ
  /-- The dialogs of `_backfilling`, each with the worker that put it there. -/
  backfilling : ℤ → Option TaskId
  /-- The keys of `_bubble_index`. -/
  bubbleIndex : List ℤ
  /-- The rows of the pane. -/
  bubbles : List Bubble
  /-- How often bubbles were mounted. -/
  mounts : ℕ
  sentIds : OrderedDict (ℤ × ℤ) Bool
  /-- The last worker of each group, unless the group was cancelled. -/
  groups : Group → Option TaskId
  cancelled : List TaskId
  /-- How many calls have gone out. -/
  calls : ℕ

namespace World

/-- `self.workers.cancel_group`. -/
def cancelGroup (group : Group) (w : World) : World :=
  { w with
    groups := Function.update w.groups group none
    cancelled := (w.groups group).toList ++ w.cancelled }

/-- A worker starts in an exclusive group. -/
def startWorker (group : Group) (t : TaskId) (w : World) : World :=
  { w.cancelGroup group with groups := Function.update w.groups group (some t) }

/-- `_open_dialog`. -/
def openDialog (t : TaskId) (dialog : ℤ) (w : World) : World :=
  ({ w with
    current := some dialog
    bubbleIndex := []
    oldestMessageId := none }.cancelGroup .historyBackfill).startWorker .history t

/-- `_maybe_backfill_history`. -/
def maybeBackfill (t : TaskId) (w : World) : Option (ℤ × ℤ) × World :=
  match w.current with
  | none => (none, w)
  | some dialog =>
    if w.backfillExhausted dialog = w.oldestMessageId then (none, w)
    else
      match w.oldestMessageId with
      | none => (none, w)
      | some offset =>
        if (w.backfilling dialog).isSome then (none, w)
        else
          (some (dialog, offset),
            { w with backfilling := Function.update w.backfilling dialog (some t) }.startWorker
              .historyBackfill t)

/-- Bubbles are indexed and mounted at the end. -/
def mount (dialog : ℤ) (messages : List Message) (w : World) : World :=
  { w with
    bubbles := w.bubbles ++ messages.map (messageBubbleFor · dialog)
    mounts := w.mounts + 1
    bubbleIndex := w.bubbleIndex ++ messages.map Message.id }

/-- Bubbles are indexed and mounted at the beginning. -/
def mountBefore (dialog : ℤ) (messages : List Message) (w : World) : World :=
  { w with
    bubbles := messages.map (messageBubbleFor · dialog) ++ w.bubbles
    mounts := w.mounts + 1
    bubbleIndex := w.bubbleIndex ++ messages.map Message.id }

/-- The cursor moves, and the dialog is marked exhausted there when the page was short. -/
def moveCursor (dialog id : ℤ) (page : Page) (w : World) : World :=
  { w with
    oldestMessageId := some id
    backfillExhausted :=
      if page.messages.length < historyPageSize then
        Function.update w.backfillExhausted dialog (some id)
      else w.backfillExhausted }

/-- `_show_history`, after the page is mounted. -/
def noteHistory (dialog : ℤ) (page : Page) (w : World) : World :=
  match page.ids.head? with
  | none => { w with oldestMessageId := none }
  | some id => w.moveCursor dialog id page

/-- `_backfill_history`, when the page has come. -/
def prepend (dialog : ℤ) (older : Page) (w : World) : Option ℤ × World :=
  if w.current = some dialog then
    match (older.fresh w.bubbleIndex).ids.head? with
    | none =>
      (none, { w with
        backfillExhausted := Function.update w.backfillExhausted dialog w.oldestMessageId })
    | some oldest =>
      (some oldest, w.mountBefore dialog (older.fresh w.bubbleIndex).messages)
  else (none, w)

/-- `_drain_outgoing_once` looks at an event. -/
def notSent (w : World) (message : Message) : Option Message :=
  if w.sentIds.contains (message.dialogId, message.id) then none else some message

/-- The end of `_send_text`. -/
def mountSent (peer : ℤ) (message : Message) (w : World) : World :=
  if w.current = some peer then w.mount peer [message]
  else { w with sentIds := w.sentIds.erase (peer, message.id) }

/-- `bounded_remember`. -/
def rememberSent (peer id : ℤ) (w : World) : World :=
  let sentIds := (w.sentIds.set (peer, id) true).moveToEnd (peer, id)
  { w with sentIds := OrderedDict.popFirst^[sentIds.size - defaultRememberCap] sentIds }

/-- A call has gone out. -/
def next (w : World) : World := { w with calls := w.calls + 1 }

/-- The server has another message, and its stream brings it. -/
def receive (w : World) (m : Message) (h : w.server.Fresh m) : World :=
  { w with
    server := w.server.append m h
    incoming := if m.out then w.incoming else w.incoming ++ [m]
    outgoing := if m.out then w.outgoing ++ [m] else w.outgoing }

end World

/-- What an operation does that is not cut off. -/
def act (setup : Setup) (t : TaskId) :
    (o : Op) → World → Asyncio.Reply Fault (effects.Ret o) World
  | .openDialog dialog, w => .done (.ok ()) (w.openDialog t dialog)
  | .removeChildren, w => .done (.ok ()) { w with bubbles := [] }
  | .history dialog limit offset, w =>
    if setup.fails w.calls then .done (.error .exception) w.next
    else .done (.ok (.ofHistory w.server dialog limit offset)) w.next
  | .mountHistory dialog page, w =>
    .done (.ok ()) ({ w with bubbleIndex := [] }.mount dialog page.messages)
  | .noteHistory dialog page, w => .done (.ok ()) (w.noteHistory dialog page)
  | .maybeBackfill, w => .done (.ok (w.maybeBackfill t).1) (w.maybeBackfill t).2
  | .begin, w => .done (.ok ()) w
  | .isOpen dialog, w => .done (.ok (w.current = some dialog)) w
  | .prepend dialog older, w => .done (.ok (w.prepend dialog older).1) (w.prepend dialog older).2
  | .noteBackfill dialog oldest older, w => .done (.ok ()) (w.moveCursor dialog oldest older)
  | .release dialog, w =>
    .done (.ok ()) { w with backfilling := Function.update w.backfilling dialog none }
  | .translateAll, w =>
    match w.current with
    | none => .done (.ok none) w
    | some dialog => .done (.ok (some dialog)) (w.startWorker .translateAll t)
  | .ensureLang, w => .done (.ok (setup.ready w.calls)) w.next
  | .clearPane dialog, w =>
    if w.current = some dialog then .done (.ok true) { w with bubbles := [] }
    else .done (.ok false) w
  | .showStatus dialog, w =>
    if w.current = some dialog then .done (.ok true) { w with bubbleIndex := [] }
    else .done (.ok false) w
  | .maxMessages, w =>
    if setup.fails w.calls then .done (.error .exception) w.next
    else .done (.ok (setup.maxMessages w.calls)) w.next
  | .translateHistory _ page, w =>
    if setup.fails w.calls then .done (.error .exception) w.next
    else .done (.ok (page.translated (setup.translation w.calls))) w.next
  | .mountTranslated dialog page, w =>
    .done (.ok ()) ({ w with bubbleIndex := [] }.mount dialog page.messages)
  | .nextIncoming, w =>
    match w.incoming with
    | [] => .blocked
    | m :: rest => .done (.ok m) { w with incoming := rest }
  | .nextOutgoing, w =>
    match w.outgoing with
    | [] => .blocked
    | m :: rest => .done (.ok (w.notSent m)) { w with outgoing := rest }
  | .mountLive m, w =>
    .done (.ok ()) (if w.current = some m.dialogId then w.mount m.dialogId [m] else w)
  | .send peer body, w =>
    let m := setup.message w.calls peer body
    if h : setup.fails w.calls = false ∧ w.next.server.Fresh m then
      .done (.ok m) (w.next.receive m h.2)
    else .done (.error .exception) w.next
  | .rememberSent peer id, w => .done (.ok ()) (w.rememberSent peer id)
  | .mountSent peer m, w => .done (.ok ()) (w.mountSent peer m)

/-- What cannot be cut off: `finally` does not wait for anything. -/
def Op.Shielded : Op → Prop
  | .release _ => True
  | _ => False

instance : DecidablePred Op.Shielded
  | .release _ => inferInstanceAs (Decidable True)
  | .openDialog _ | .removeChildren | .history .. | .mountHistory .. | .noteHistory ..
  | .maybeBackfill | .begin | .isOpen _ | .prepend .. | .noteBackfill .. | .translateAll
  | .ensureLang | .clearPane _ | .showStatus _ | .maxMessages | .translateHistory ..
  | .mountTranslated .. | .nextIncoming | .nextOutgoing | .mountLive _ | .send ..
  | .rememberSent .. | .mountSent .. => inferInstanceAs (Decidable False)

/-- An operation raises where its worker was cancelled. -/
def handle (setup : Setup) (t : TaskId) (o : Op) (w : World) :
    Asyncio.Reply Fault (effects.Ret o) World :=
  if t ∈ w.cancelled ∧ ¬o.Shielded then .done (.error .cancelled) w else act setup t o w

theorem act_ne_parked {setup : Setup} {t : TaskId} {o : Op} {w w' : World} :
    act setup t o w ≠ .parked w' := by
  intro h
  cases o with
  | history | clearPane | showStatus | maxMessages | translateHistory | send | translateAll
  | nextIncoming | nextOutgoing =>
    rw [act] at h
    split at h <;> cases h
  | _ =>
    rw [act] at h
    cases h

theorem handle_ne_parked {setup : Setup} {t : TaskId} {o : Op} {w w' : World} :
    handle setup t o w ≠ .parked w' := by
  rw [handle]
  split
  · rintro ⟨⟩
  · exact act_ne_parked

/-- What happens beside the workers. -/
inductive TuiEvent where
  | /-- A message is received, or sent from another device. -/
    receive (message : Message)
  | /-- Something happens on the server that no listener is told. -/
    server (event : MessageStore.ServerEvent)

/-- The pane and its server. -/
def system (setup : Setup) : System effects TaskId World TuiEvent where
  handle := handle setup
  env
    | .receive m, w => if h : w.server.Fresh m then some (w.receive m h) else none
    | .server e, w => (w.server.apply e).map fun s ↦ { w with server := s }

/-- The pane, while nothing happens on the server by itself. -/
def still (setup : Setup) : System effects TaskId World Empty where
  handle := handle setup
  env e _ := nomatch e

/-- What a user does to see other messages. -/
inductive Gesture where
  | openDialog (dialog : ℤ)
  | /-- A wheel-up at the top. -/
    wheelUp
  | /-- Ctrl+T. -/
    translateAll

/-- What a user does. -/
inductive Action where
  | look (gesture : Gesture)
  | sendText (peer : ℤ) (text : String)
  | sendMedia (peer : ℤ) (path : String) (caption : Option String)

/-- The coroutine of a gesture. -/
def Gesture.prog : Gesture → TuiProg Unit
  | .openDialog dialog => Tui.openDialog dialog
  | .wheelUp => maybeBackfillHistory
  | .translateAll => actionTranslateAll

/-- The coroutine of an action. -/
def Action.prog : Action → TuiProg Unit
  | .look gesture => gesture.prog
  | .sendText peer text => Tui.sendText peer text
  | .sendMedia peer path caption => Tui.sendMedia peer path caption

/-- What runs in the client. -/
structure Tasks where
  /-- How often each listener gets a turn. -/
  incoming : ℕ
  outgoing : ℕ
  actions : ℕ → Action

/-- A user who only looks, and hears of nothing. -/
def Tasks.looking (gestures : ℕ → Gesture) : Tasks := ⟨0, 0, fun n ↦ .look (gestures n)⟩

/-- The coroutines of the client. -/
def Tasks.prog (tasks : Tasks) : TaskId → TuiProg Unit
  | .incoming => drainIncoming tasks.incoming
  | .outgoing => drainOutgoing tasks.outgoing
  | .action n => (tasks.actions n).prog

/-- Workers in progress, and what they still have to do. -/
abbrev TuiConfig := Config effects TaskId World Unit

/-- An empty pane. -/
def World.init (server : Server) : World where
  server := server
  incoming := []
  outgoing := []
  current := none
  oldestMessageId := none
  backfillExhausted _ := none
  backfilling _ := none
  bubbleIndex := []
  bubbles := []
  mounts := 0
  sentIds := .empty
  groups _ := none
  cancelled := []
  calls := 0

/-- An empty pane before anything was done. -/
def start (server : Server) (tasks : Tasks) : TuiConfig := ⟨.init server, tasks.prog⟩

/-! ## What the pane shows -/

/-- The ids shown for a dialog, from the top. -/
def World.shownOf (w : World) (dialog : ℤ) : List ℤ :=
  (w.bubbles.filter fun b ↦ b.dialogId = dialog).map Bubble.messageId

/-- The ids shown for the open dialog. -/
def World.shown (w : World) : List ℤ := (w.current.map w.shownOf).getD []

namespace World

variable {w : World} {dialog dialog' : ℤ} {messages : List Message}

theorem shown_of_current (h : w.current = some dialog) : w.shown = w.shownOf dialog := by
  rw [shown, h]
  rfl

/-- The ids a batch of bubbles shows for a dialog. -/
theorem shownOf_batch : ((messages.map (messageBubbleFor · dialog)).filter
    fun b ↦ b.dialogId = dialog').map Bubble.messageId =
      if dialog = dialog' then messages.map Message.id else [] := by
  rw [List.filter_map, List.map_map]
  by_cases h : dialog = dialog'
  · rw [if_pos h, List.filter_eq_self.mpr]
    · rfl
    · exact fun _ _ ↦ decide_eq_true h
  · rw [if_neg h, List.filter_eq_nil_iff.mpr]
    · rfl
    · exact fun _ _ hm ↦ h (of_decide_eq_true hm)

theorem shownOf_mount : (w.mount dialog messages).shownOf dialog' =
    w.shownOf dialog' ++ if dialog = dialog' then messages.map Message.id else [] := by
  rw [shownOf, mount, List.filter_append, List.map_append, shownOf_batch]
  rfl

theorem shownOf_mountBefore : (w.mountBefore dialog messages).shownOf dialog' =
    (if dialog = dialog' then messages.map Message.id else []) ++ w.shownOf dialog' := by
  rw [shownOf, mountBefore, List.filter_append, List.map_append, shownOf_batch]
  rfl

end World

/-! ## Running it -/

/-- A client whose calls succeed, with a cap for Ctrl+T; what is sent gets id 5. -/
def online (cap : ℕ) : Setup where
  fails _ := false
  ready _ := true
  maxMessages _ := cap
  translation _ _ := none
  sentId _ := 5
  sentDate _ := ""
  me := 1

/-- So many moves of a task. -/
def moves {ε : Type} (t : TaskId) (n : ℕ) : List (Move TaskId ε) := List.replicate n (.run t)

end TgMessenger.Tui
