import TgMessenger.Interop.FactoryClient
import TgMessenger.Data.Machine
import Mathlib.Tactic.SplitIfs

/-!
# The worker and its report queue

`Worker` (`interop/worker.py`) claims a task, executes it, and reports the outcome.  A report
is put into `ReportQueue`, which keeps a list in memory and rewrites its file on every change,
before the factory hears of it, and is taken out when the factory has answered.  The process
can go away at any moment, and be started again on the same file.

The queue is read from the file without a look at what is in it, so the list in memory is
whatever JSON value the file holds.
-/

namespace TgMessenger.Interop

/-! ## The queue -/

/-- What reading the file and `json.loads` make of its bytes. -/
inductive Content where
  | /-- An `OSError` or a `ValueError`: it cannot be read, or is no UTF-8 or no JSON. -/
    undecodable
  | /-- A `RecursionError`. -/
    tooDeep
  | json (value : Json)

namespace ReportQueue

/-- `ReportQueue.__init__`: the items; `none` when it raises. -/
def load : Option Content → Option Json
  | none | some .undecodable => some (.arr [])
  | some .tooDeep => none
  | some (.json value) => some value

/-- `items.append(item)`. -/
def add (item : Json) : Json → Option Json
  | .arr items => some (.arr (items ++ [item]))
  | _ => none

/-- `items.pop(0)`: the item and what is left. -/
def pop : Json → Option (Json × Json)
  | .arr (item :: items) => some (item, .arr items)
  | _ => none

end ReportQueue

/-! ## Reports -/

/-- The call of the factory that a report stands for. -/
inductive Call where
  | complete (taskId result : Json)
  | fail (taskId error : Json)

/-- What the flush loop reads of an item; `none` when it raises. -/
def Call.ofItem (item : Json) : Option Call := do
  let kind ← item.field? "kind"
  let taskId ← item.field? "task_id"
  if kind.isStr "complete" then
    return .complete taskId (← item.field? "result_payload")
  else return .fail taskId (← item.field? "error")

/-- The item `_safe_complete_task` adds. -/
def completeItem (taskId result : Json) : Json :=
  .obj [("kind", .str "complete"), ("task_id", taskId), ("result_payload", result)]

/-- The item `_safe_fail_task` adds. -/
def failItem (taskId : Json) (error : String) : Json :=
  .obj [("kind", .str "fail"), ("task_id", taskId), ("error", .str error)]

/-- The report of an executed task. -/
def outcomeItem (task : Json) : Except String Json → Json
  | .ok result => completeItem ((task.field? "id").getD .null) result
  | .error error => failItem ((task.field? "id").getD .null) error

/-! ## The worker -/

/-- Where the worker is. -/
inductive Phase where
  | /-- `run` is not running: not started, cancelled, or ended by an error. -/
    stopped
  | /-- Between two calls of `process_once`. -/
    idle
  | /-- In `_flush_reports`, in an attempt to replay the first item. -/
    replaying (item : Json) (attempt : ℕ)
  | /-- In `claim_next`. -/
    claiming (attempt : ℕ)
  | /-- In `_execute`. -/
    executing (task : Json)
  | /-- In `_safe_complete_task` or `_safe_fail_task`, after the item was added. -/
    reporting (item : Json) (attempt : ℕ)

/-- The report the factory is being asked to take. -/
def Phase.asking : Phase → Option Json
  | .replaying item _ | .reporting item _ => some item
  | _ => none

/-- A task is being claimed or executed. -/
def Phase.works : Phase → Bool
  | .claiming _ | .executing _ => true
  | _ => false

structure Worker where
  /-- `ReportQueue.items`. -/
  items : Json
  phase : Phase

/-- The files and the process. -/
structure World where
  file : Option Content
  /-- The file with the suffix `.corrupt`. -/
  corrupt : Option Content
  worker : Option Worker
  /-- Reports put into the file and taken out of it, oldest first. -/
  added : List Json
  removed : List Json
  /-- Outcomes of executed tasks that could not be added. -/
  unrecorded : List Json

/-- What can happen. -/
inductive Event where
  | /-- A worker is started on the file; whether a corrupt file can be moved aside. -/
    start (movable : Bool)
  | /-- The process goes away. -/
    crash
  | /-- The worker is cancelled. -/
    cancel
  | /-- `run` is called. -/
    run
  | /-- `process_once` is called. -/
    round
  | answer (a : Answer)
  | /-- `_execute` returns, or raises. -/
    executed (outcome : Except String Json)

/-- `_flush_reports`, up to its next request, and `claim_next` when there is nothing to
replay.  An item that cannot be read raises, and the round is over. -/
def nextRequest (items : Json) : Phase :=
  if items.truthy then
    match items.first? with
    | some item => if (Call.ofItem item).isSome then .replaying item 1 else .idle
    | none => .idle
  else .claiming 1

/-- What `run` makes of a `FactoryError`. -/
def afterFactoryError : Option ℕ → Phase
  | some status => if status < 500 then .stopped else .idle
  | none => .idle

namespace World

/-- No process, and a file. -/
def init (file : Option Content) : World where
  file := file
  corrupt := none
  worker := none
  added := []
  removed := []
  unrecorded := []

/-- The reports in the file. -/
def reports (w : World) : List Json :=
  match w.file with
  | some (.json value) => value.items
  | _ => []

/-- The worker goes on. -/
def goTo (w : World) (items : Json) (phase : Phase) : World :=
  { w with worker := some ⟨items, phase⟩ }

/-- `ReportQueue.add`, and the report to the factory. -/
def record (w : World) (items item : Json) : World :=
  match ReportQueue.add item items with
  | some items =>
    { w with
      file := some (.json items)
      added := w.added ++ [item]
      worker := some ⟨items, .reporting item 1⟩ }
  | none => { w with unrecorded := w.unrecorded ++ [item], worker := some ⟨items, .idle⟩ }

/-- `ReportQueue.ack`, and what follows it. -/
def ack (w : World) (items : Json) (next : Json → Phase) : World :=
  match ReportQueue.pop items with
  | some (item, items) =>
    { w with
      file := some (.json items)
      removed := w.removed ++ [item]
      worker := some ⟨items, next items⟩ }
  | none => w.goTo items .idle

/-- The answer to a replay. -/
def replayed (w : World) (items item : Json) (attempt : ℕ) : Reply → World
  | .retry => w.goTo items (.replaying item (attempt + 1))
  | .value _ => w.ack items nextRequest
  | .factoryError status =>
    if status = some 409 then w.ack items nextRequest else w.goTo items (afterFactoryError status)
  | .exception => w.goTo items .idle

/-- The answer to a claim.  Of what is no object `get` raises. -/
def claimed (w : World) (items : Json) (attempt : ℕ) : Reply → World
  | .retry => w.goTo items (.claiming (attempt + 1))
  | .value (some (.obj fields)) => w.goTo items (.executing (.obj fields))
  | .value _ => w.goTo items .idle
  | .factoryError status => w.goTo items (afterFactoryError status)
  | .exception => w.goTo items .idle

/-- The answer to a report. -/
def reported (w : World) (items item : Json) (attempt : ℕ) : Reply → World
  | .retry => w.goTo items (.reporting item (attempt + 1))
  | .value _ => w.ack items fun _ ↦ .idle
  | .factoryError _ | .exception => w.goTo items .idle

/-- `ReportQueue.__init__`, with its effect on the files. -/
def start (w : World) (movable : Bool) : Option World :=
  (ReportQueue.load w.file).map fun items ↦
    match w.file with
    | some .undecodable =>
      if movable then { w.goTo items .stopped with file := none, corrupt := w.file }
      else w.goTo items .stopped
    | _ => w.goTo items .stopped

/-- What an event does. -/
def step : Machine World Event := fun w e ↦
  match w.worker with
  | none =>
    match e with
    | .start movable => w.start movable
    | _ => none
  | some ⟨items, phase⟩ =>
    match e, phase with
    | .crash, _ => some { w with worker := none }
    | .cancel, _ => some (w.goTo items .stopped)
    | .run, .stopped => some (w.goTo items .idle)
    | .round, .idle => some (w.goTo items (nextRequest items))
    | .answer a, .replaying item attempt =>
      some (w.replayed items item attempt (request false attempt a))
    | .answer a, .claiming attempt => some (w.claimed items attempt (request true attempt a))
    | .answer a, .reporting item attempt =>
      some (w.reported items item attempt (request false attempt a))
    | .executed outcome, .executing task => some (w.record items (outcomeItem task outcome))
    | _, _ => none

end World

end TgMessenger.Interop
