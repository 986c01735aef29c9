import TgMessenger.MessageStore.Db
import TgMessenger.Asyncio.Task

/-!
# The programs of the message store

The coroutines of `MessageStore`, over the operations they await: requests to the
client, single SQL statements, and the synchronous steps on the in-memory state.  They
are written with the names and in the order of `core/message_store.py`; what the
operations do is in `TgMessenger.MessageStore.World`.

`connect()` is left out: the store is connected.
-/

namespace TgMessenger.MessageStore

open Asyncio

/-- What the coroutines of the store await. -/
inductive Op where
  | /-- `client.history_since(peer, min_id, limit)`. -/
    historySince (peer minId : ℤ) (limit : ℕ)
  | /-- `client.history(peer, limit, offset_id)`. -/
    clientHistory (peer : ℤ) (limit : ℕ) (offsetId : ℤ)
  | syncRow (peer : ℤ)
  | setSyncRow (peer low high : ℤ)
  | windowCount (peer low high : ℤ)
  | upsert (m : Message) (translatedText translatedLang : Option String)
      (preserveTranslation : Bool)
  | deleteDialog (peer : ℤ)
  | pruneWindow (peer low high : ℤ) (ids : List ℤ)
  | loadWindow (peer low high : ℤ) (limit : ℕ)
  | loadBefore (peer : ℤ) (limit : ℕ) (offsetId low : ℤ)
  | deleteIds (peer : ℤ) (ids : List ℤ)
  | selectIds (ids : List ℤ)
  | deleteRow (peer id : ℤ)
  | /-- `_peer_lock(peer)` and the acquisition of the lock it returns. -/
    lockPeer (peer : ℤ)
  | /-- The release at the end of `async with lock`. -/
    release (lock : ℕ)
  | /-- `last is None or self._clock() - last >= self._sync_ttl`. -/
    syncStale (peer : ℤ)
  | rememberSync (peer : ℤ)

/-- The effects of the store; a fault is the text of an exception the client raised. -/
abbrev effects : Effects where
  Op := Op
  Fault := String
  Ret
    | .historySince .. => List Message
    | .clientHistory .. => List Message
    | .syncRow _ => Option (ℤ × ℤ)
    | .setSyncRow .. => Unit
    | .windowCount .. => ℕ
    | .upsert .. => Unit
    | .deleteDialog _ => Unit
    | .pruneWindow .. => Unit
    | .loadWindow .. => List Message
    | .loadBefore .. => List Message
    | .deleteIds .. => Unit
    | .selectIds _ => List (ℤ × ℤ)
    | .deleteRow .. => Unit
    | .lockPeer _ => ℕ
    | .release _ => Unit
    | .syncStale _ => Bool
    | .rememberSync _ => Unit

/-- A coroutine of the store. -/
abbrev StoreProg (α : Type) := Prog effects α

/-- Await one operation of the store. -/
abbrev perform (o : Op) : StoreProg (effects.Ret o) := Prog.perform (E := effects) o

/-- `async with self._peer_lock(peer): body`. -/
def withPeerLock {α : Type} (peer : ℤ) (body : StoreProg α) : StoreProg α := do
  let lock : ℕ ← perform (.lockPeer peer)
  body.always (perform (.release lock))

/-- `_upsert_message` with its defaults. -/
def upsertMessage (m : Message) : StoreProg Unit := perform (.upsert m none none true)

/-- `_replace_window`. -/
def replaceWindow (peer : ℤ) (fetched : List Message) (limit : ℕ) : StoreProg (ℤ × ℤ) :=
  if fetched.isEmpty then do
    perform (.deleteDialog peer)
    perform (.setSyncRow peer 0 0)
    return (0, 0)
  else do
    Prog.forEach upsertMessage fetched
    let ids := fetched.map Message.id
    let low := if fetched.length < limit then 0 else ids.min?.getD 0
    let high := ids.max?.getD 0
    perform (.pruneWindow peer low high ids)
    perform (.setSyncRow peer low high)
    return (low, high)

/-- `_sync_full_window`. -/
def syncFullWindow (peer : ℤ) (limit : ℕ) : StoreProg Unit := do
  let fetched : List Message ← perform (.historySince peer 0 limit)
  let _ ← replaceWindow peer fetched limit
  perform (.rememberSync peer)

/-- `_sync_history`. -/
def syncHistory (peer : ℤ) (limit : ℕ) (row : Option (ℤ × ℤ)) : StoreProg Unit := do
  let highId := (row.map Prod.snd).getD 0
  let fetched : List Message ← perform (.historySince peer highId limit)
  if !fetched.isEmpty then
    if row.isNone || decide (limit ≤ fetched.length) then do
      let _ ← replaceWindow peer fetched limit
      perform (.rememberSync peer)
    else
      syncFullWindow peer limit
  else if row.isNone then do
    let _ ← replaceWindow peer fetched limit
    perform (.rememberSync peer)
  else
    syncFullWindow peer limit

/-- `_history_before`. -/
def historyBefore (peer : ℤ) (limit : ℕ) (offsetId : ℤ) : StoreProg (List Message) := do
  let row : Option (ℤ × ℤ) ← perform (.syncRow peer)
  match row with
  | some (low, high) =>
    if low ≤ offsetId ∧ offsetId ≤ high then do
      let cached : List Message ← perform (.loadBefore peer limit offsetId low)
      if low = 0 ∨ limit ≤ cached.length then
        return cached
      else do
        let fetched : List Message ← perform (.clientHistory peer limit offsetId)
        Prog.forEach upsertMessage fetched
        let newLow := if fetched.length < limit then 0 else (fetched.map Message.id).min?.getD 0
        if newLow < low then do
          perform (.setSyncRow peer newLow high)
          return fetched
        else
          return fetched
    else do
      let fetched : List Message ← perform (.clientHistory peer limit offsetId)
      Prog.forEach upsertMessage fetched
      return fetched
  | none => do
    let fetched : List Message ← perform (.clientHistory peer limit offsetId)
    Prog.forEach upsertMessage fetched
    return fetched

/-- `_load_window`. -/
def loadWindow (peer : ℤ) (limit : ℕ) : StoreProg (List Message) := do
  let row : Option (ℤ × ℤ) ← perform (.syncRow peer)
  match row with
  | none => return []
  | some (low, high) => perform (.loadWindow peer low high limit)

/-- The part of `history` that grows a window with fewer rows than asked for: the sync
row to go on with. -/
def growWindow (peer : ℤ) (limit : ℕ) (row : Option (ℤ × ℤ)) :
    StoreProg (Option (ℤ × ℤ)) :=
  match row with
  | some (low, high) =>
    if 0 < low then do
      let count : ℕ ← perform (.windowCount peer low high)
      if count < limit then do
        syncFullWindow peer limit
        perform (.syncRow peer)
      else
        return row
    else
      return row
  | none => return row

/-- The critical section of `history` without an offset. -/
def syncWindow (peer : ℤ) (limit : ℕ) : StoreProg Unit := do
  let row : Option (ℤ × ℤ) ← perform (.syncRow peer)
  let row ← growWindow peer limit row
  if row.isNone then
    syncHistory peer limit row
  else do
    let stale : Bool ← perform (.syncStale peer)
    if stale then
      syncHistory peer limit row
    else
      return ()

/-- `history`. -/
def history (peer : ℤ) (limit : ℕ) (offsetId : ℤ) : StoreProg (List Message) :=
  if 0 < offsetId then
    withPeerLock peer (historyBefore peer limit offsetId)
  else do
    withPeerLock peer (syncWindow peer limit)
    loadWindow peer limit

/-- `ingest`. -/
def ingest (m : Message) : StoreProg Unit :=
  withPeerLock m.dialogId (upsertMessage m)

/-- `record_outgoing`. -/
def recordOutgoing (dialogId : ℤ) (m : Message) (sourceText sourceLang : String) :
    StoreProg Unit :=
  withPeerLock dialogId
    (perform (.upsert { m with dialogId } (some sourceText) (some sourceLang) false))

/-- `apply_deletion`: without a chat id, every row with one of the ids goes that is not in
a channel or supergroup. -/
def applyDeletion (event : MessagesDeletedEvent) : StoreProg Unit :=
  if event.messageIds.isEmpty then
    return ()
  else
    match event.chatId with
    | some chat => perform (.deleteIds chat event.messageIds)
    | none => do
      let rows : List (ℤ × ℤ) ← perform (.selectIds event.messageIds)
      Prog.forEach (fun row ↦
        if isChannelOrMegagroupId row.1 then Prog.ret ()
        else perform (.deleteRow row.1 row.2)) rows

/-- The calls a client of the store makes. -/
inductive Call where
  | history (peer : ℤ) (limit : ℕ) (offsetId : ℤ)
  | ingest (m : Message)
  | recordOutgoing (dialogId : ℤ) (m : Message) (sourceText sourceLang : String)
  | applyDeletion (event : MessagesDeletedEvent)

/-- The coroutine of a call; only `history` returns messages. -/
def Call.prog : Call → StoreProg (List Message)
  | .history peer limit offsetId => MessageStore.history peer limit offsetId
  | .ingest m => MessageStore.ingest m >>= fun _ ↦ Prog.ret []
  | .recordOutgoing d m text lang =>
    MessageStore.recordOutgoing d m text lang >>= fun _ ↦ Prog.ret []
  | .applyDeletion event => MessageStore.applyDeletion event >>= fun _ ↦ Prog.ret []

end TgMessenger.MessageStore
