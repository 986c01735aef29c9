import TgMessenger.Asyncio.Task
import TgMessenger.Core.Models

/-!
# Read receipts and nudges

The auto-nudge of `agent/suggest.py`.  An outbox receipt says that the contact has read our
messages up to `max_id`; it is stored under two keys, the id and the time it was recorded, and a
pass over the dialogs proposes a draft where an aged receipt covers the last message and nobody
has answered.

The coroutines are written over the single statements they await.
-/

namespace TgMessenger.Suggest

open Asyncio

/-- `MessageReadEvent`: `outbox` when the contact has read ours, not we theirs. -/
structure MessageReadEvent where
  dialogId : ℤ
  maxId : ℤ
  outbox : Bool
deriving DecidableEq, Repr

/-- An entry of the answer of `nudge_candidates`. -/
structure Candidate where
  dialogId : ℤ
  readAt : Time
  draft : String
deriving DecidableEq, Repr

/-! ## What a history says of a receipt -/

/-- `should_nudge`: the last message is ours, was read, and long enough ago. -/
def shouldNudge (history : List Message) (lastReadId : Option ℤ) (readAt : Option Time)
    (now afterSec : Time) : Bool :=
  match history.getLast?, lastReadId, readAt with
  | some last, some lastReadId, some readAt =>
    last.out && last.id ≤ lastReadId && afterSec ≤ now - readAt
  | _, _, _ => false

/-- The history shows that a receipt can bring no nudge: the contact has answered, or a message
after it is still unread. -/
def isSpent (history : List Message) (lastReadId : ℤ) : Bool :=
  match history.getLast? with
  | some last => !last.out || lastReadId < last.id
  | none => false

/-- Where a nudge is due the last message is ours, covered by the receipt, and the receipt has
aged. -/
theorem shouldNudge_eq_true_iff {history : List Message} {lastReadId : ℤ} {readAt : Time}
    {now afterSec : Time} :
    shouldNudge history (some lastReadId) (some readAt) now afterSec = true ↔
      ∃ last, history.getLast? = some last ∧ last.out = true ∧ last.id ≤ lastReadId ∧
        afterSec ≤ now - readAt := by
  rw [shouldNudge.eq_def]
  cases history.getLast? with
  | none => simp
  | some last => simp [and_assoc]

theorem isSpent_eq_true_iff {history : List Message} {lastReadId : ℤ} :
    isSpent history lastReadId = true ↔
      ∃ last, history.getLast? = some last ∧ (last.out = false ∨ lastReadId < last.id) := by
  rw [isSpent.eq_def]
  cases history.getLast? with
  | none => simp
  | some last => simp

/-- An aged receipt of a dialog with messages is either good for a nudge or spent. -/
theorem shouldNudge_eq_not_isSpent {history : List Message} {lastReadId : ℤ} {readAt : Time}
    {now afterSec : Time} (hne : history ≠ []) (haged : afterSec ≤ now - readAt) :
    shouldNudge history (some lastReadId) (some readAt) now afterSec =
      !isSpent history lastReadId := by
  rw [shouldNudge.eq_def, isSpent.eq_def, List.getLast?_eq_some_getLast hne]
  simp only [haged, decide_true, Bool.and_true, Bool.not_or, Bool.not_not]
  refine congrArg _ ?_
  simp only [← not_lt, decide_not]

/-! ## The coroutines -/

/-- What the coroutines await. -/
inductive Op where
  | /-- The next event of `client.listen_reads()`, the `n`-th of all. -/
    listenReads (n : ℕ)
  | /-- `storage.set_value(last_read_key(dialog_id), max_id)`. -/
    setLastRead (dialogId maxId : ℤ)
  | /-- `storage.set_value(read_at_key(dialog_id), time)`. -/
    setReadAt (dialogId : ℤ) (time : Time)
  | loadLastRead (dialogId : ℤ)
  | loadReadAt (dialogId : ℤ)
  | /-- `DELETE FROM kv WHERE key IN (?, ?)`. -/
    clearLastRead (dialogId : ℤ)
  | /-- `self._client.history(dialog_id, self._history_limit)`. -/
    history (dialogId : ℤ)
  | /-- `self.suggest(dialog_id)`. -/
    suggest (dialogId : ℤ)

/-- The effects of the nudges; a fault is the text of an exception. -/
abbrev effects : Effects where
  Op := Op
  Fault := String
  Ret
    | .listenReads _ => Unit
    | .setLastRead .. => Unit
    | .setReadAt .. => Unit
    | .loadLastRead _ => Option ℤ
    | .loadReadAt _ => Option Time
    | .clearLastRead _ => Unit
    | .history _ => List Message
    | .suggest _ => String

/-- A coroutine of the suggester. -/
abbrev SuggestProg (α : Type) := Prog effects α

/-- Await one operation. -/
abbrev perform (o : Op) : SuggestProg (effects.Ret o) := Prog.perform (E := effects) o

/-- `record_last_read`, at a moment at which the clock shows `clock`. -/
def recordLastRead (event : MessageReadEvent) (clock : Time) : SuggestProg Unit :=
  if !event.outbox then return ()
  else do
    perform (.setLastRead event.dialogId event.maxId)
    perform (.setReadAt event.dialogId clock)

/-- `clear_last_read`. -/
def clearLastRead (dialogId : ℤ) : SuggestProg Unit := perform (.clearLastRead dialogId)

/-- One round of `watch_read_receipts`: a failure is logged. -/
def watchReadReceipt (n : ℕ) (event : MessageReadEvent) (clock : Time) : SuggestProg Unit := do
  perform (.listenReads n)
  (recordLastRead event clock).rescue fun _ ↦ return ()

/-- `watch_read_receipts`, from the `n`-th event on. -/
def watchReadReceipts (n : ℕ) : List (MessageReadEvent × Time) → SuggestProg Unit
  | [] => return ()
  | (event, clock) :: reads => do
    watchReadReceipt n event clock
    watchReadReceipts (n + 1) reads

/-- The draft of a nudge; a failure is logged. -/
def draftNudge (dialogId : ℤ) (readAt : Time) : SuggestProg (Option Candidate) :=
  Prog.rescue (do
    let draft : String ← perform (.suggest dialogId)
    return some ⟨dialogId, readAt, draft⟩) fun _ ↦ return none

/-- The body of the loop of `Suggester.nudge_candidates`. -/
def nudgeCandidate (now afterSec : Time) (dialogId : ℤ) : SuggestProg (Option Candidate) := do
  let lastReadId : Option ℤ ← perform (.loadLastRead dialogId)
  let readAt : Option Time ← perform (.loadReadAt dialogId)
  match lastReadId, readAt with
  | some lastReadId, some readAt =>
    if now - readAt < afterSec then return none
    else do
      let history : List Message ← perform (.history dialogId)
      if shouldNudge history (some lastReadId) (some readAt) now afterSec then
        draftNudge dialogId readAt
      else if isSpent history lastReadId then do
        clearLastRead dialogId
        return none
      else return none
  | _, _ => return none

/-- `Suggester.nudge_candidates`. -/
def nudgeCandidates (now afterSec : Time) : List ℤ → SuggestProg (List Candidate)
  | [] => return []
  | dialogId :: dialogIds => do
    let candidate ← nudgeCandidate now afterSec dialogId
    let out ← nudgeCandidates now afterSec dialogIds
    return candidate.toList ++ out

end TgMessenger.Suggest
