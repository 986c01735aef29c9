import TgMessenger.Web.Bubbles

/-!
# The stream of one page

`sse_event_stream` (`web/app.py`) merges three subscriptions of the client into the frames of one
page.  It keeps one task for the next event of every subscription, and one for every translation
that is under way; `asyncio.wait` gives it the tasks that are done, as a set, and the loop goes
over them in some order.  It stops at every `yield`, and whatever happens then happens between two
of its steps: events are published, tasks end, other requests write the buckets of the client.
-/

namespace TgMessenger.Web.Sse

open Bubbles (Key defaultMaxsize boundedRemember)

/-! ## What is published -/

/-- The subscriptions: `listen_all`, `listen_outgoing`, `listen_reactions`. -/
inductive Kind where
  | incoming | outgoing | reaction
deriving DecidableEq

/-- `IncomingEvent`, `OutgoingEvent`. -/
structure MessageEvent where
  dialogId : ℤ
  message : Message

/-- `ReactionEvent`. -/
structure ReactionEvent where
  dialogId : ℤ
  messageId : ℤ
  emoticon : Option String

/-- The key of `sent_reactions`. -/
abbrev ReactionKey := ℤ × ℤ × Option String

def ReactionEvent.key (ev : ReactionEvent) : ReactionKey :=
  (ev.dialogId, ev.messageId, ev.emoticon)

/-- The key of `sent_ids`. -/
def MessageEvent.key (ev : MessageEvent) : Key := (ev.dialogId, ev.message.id)

/-- The events of a subscription. -/
abbrev Carried : Kind → Type
  | .incoming => MessageEvent
  | .outgoing => MessageEvent
  | .reaction => ReactionEvent

/-- `ev.dialog_id`. -/
def dialogId : {k : Kind} → Carried k → ℤ
  | .incoming, ev => MessageEvent.dialogId ev
  | .outgoing, ev => MessageEvent.dialogId ev
  | .reaction, ev => ReactionEvent.dialogId ev

/-! ## What is yielded -/

/-- The payload of a frame. -/
inductive Frame where
  | message (id : ℤ) (text : Option String) (out isGroup : Bool) (senderId : ℤ)
      (sender : Option User)
  | translation (messageId : ℤ) (text : String)
  | reaction (messageId : ℤ) (emoticon : Option String)
deriving DecidableEq

def messageFrame (isGroup out : Bool) (m : Message) : Frame :=
  .message m.id m.text out isGroup m.senderId m.sender

/-- The frame of an event. -/
def frame (isGroup : Bool) : {k : Kind} → Carried k → Frame
  | .incoming, ev => messageFrame isGroup false (MessageEvent.message ev)
  | .outgoing, ev => messageFrame isGroup true (MessageEvent.message ev)
  | .reaction, ev => .reaction (ReactionEvent.messageId ev) (ReactionEvent.emoticon ev)

namespace Frame

/-- The subscription a frame comes from. -/
def kind? : Frame → Option Kind
  | .message _ _ out _ _ _ => some (if out then .outgoing else .incoming)
  | .translation .. => none
  | .reaction .. => some .reaction

/-- The message whose bubble a frame brings. -/
def bubble? : Frame → Option ℤ
  | .message id .. => some id
  | _ => none

/-- The message whose translation a frame brings. -/
def translation? : Frame → Option ℤ
  | .translation id _ => some id
  | _ => none

end Frame

/-! ## The tasks -/

/-- How a pull ended: with an event, with `StopAsyncIteration` or with another exception. -/
inductive Result (α : Type) where
  | got (ev : α)
  | ended
  | failed

/-- The task of `__anext__`. -/
inductive Pull (α : Type) where
  | /-- There is none: the subscription has ended, or the stream. -/
    none
  | waiting
  | done (result : Result α)

namespace Pull

variable {α : Type}

/-- The event that was pulled and not looked at. -/
def event? : Pull α → Option α
  | .done (.got ev) => some ev
  | _ => .none

def isDone : Pull α → Bool
  | .done _ => true
  | _ => false

def isNone : Pull α → Bool
  | .none => true
  | _ => false

/-- `task.cancel()`: a task that is done stays done. -/
def cancel : Pull α → Pull α
  | .waiting => .none
  | p => p

end Pull

/-- A subscription. -/
structure Feed (α : Type) where
  /-- The first pull has run: the queue is on the bus. -/
  registered : Bool := false
  queue : List α := []
  pull : Pull α := .waiting
  /-- What was published since it is registered. -/
  heard : List α := []
  /-- What the full queue has dropped. -/
  dropped : List α := []
  /-- What the loop has looked at. -/
  taken : List α := []
  /-- What of it has gone into a frame. -/
  shown : List α := []
  /-- What of it was left out as an echo. -/
  muted : List α := []

namespace Feed

variable {α : Type}

/-- What has not been looked at, oldest first. -/
def waiting (f : Feed α) : List α := f.pull.event?.toList ++ f.queue

/-- `EventBus.publish`, for this subscriber. -/
def put (ev : α) (f : Feed α) : Feed α :=
  if defaultMaxsize ≤ f.queue.length then
    { f with
      queue := f.queue.tail ++ [ev]
      dropped := f.dropped ++ f.queue.head?.toList
      heard := f.heard ++ [ev] }
  else { f with queue := f.queue ++ [ev], heard := f.heard ++ [ev] }

/-- The loop looks at an event of its: the next pull is under way. -/
def take (ev : α) (f : Feed α) : Feed α := { f with pull := .waiting, taken := f.taken ++ [ev] }

def display (ev : α) (f : Feed α) : Feed α := { f with shown := f.shown ++ [ev] }

def mute (ev : α) (f : Feed α) : Feed α := { f with muted := f.muted ++ [ev] }

end Feed

/-- How a translation ended. -/
inductive Outcome where
  | failed
  | translated (text : Option String)

/-- The text of a frame, when there is one. -/
def Outcome.text? : Outcome → Option String
  | .translated (some text) => if text = "" then none else some text
  | _ => none

/-- A task of `_translate`. -/
structure Translation where
  number : ℕ
  message : Message
  outcome : Option Outcome := none

/-- The id of the message it belongs to. -/
def Translation.id (t : Translation) : ℤ := t.message.id

/-- A key of `pending`. -/
inductive Task where
  | pull (k : Kind)
  | translation (n : ℕ)
deriving DecidableEq

/-! ## The stream -/

/-- `MAX_INFLIGHT_TRANSLATIONS`. -/
def maxInflightTranslations : ℕ := 4

/-- A running `sse_event_stream`, and the buckets of its client. -/
structure World where
  dialogId : ℤ
  isGroup : Bool
  /-- There is a translator. -/
  translates : Bool
  sentIds : OrderedDict Key Bool
  sentReactions : OrderedDict ReactionKey Bool
  feed : (k : Kind) → Feed (Carried k) := fun _ ↦ {}
  /-- The tasks of `pending` of the kind "translation". -/
  translations : List Translation := []
  /-- How many were created. -/
  created : ℕ := 0
  /-- What is left of the set `done`. -/
  batch : List Task := []
  /-- The message of the frame the loop stands at, when its translation is to be scheduled. -/
  after : Option Message := none
  frames : List Frame := []
  closed : Bool := false
  /-- The keys that were remembered. -/
  own : List Key := sentIds.keys
  ownReactions : List ReactionKey := sentReactions.keys

/-- What may happen. -/
inductive Event where
  | /-- The first pull of a subscription runs. -/
    register (k : Kind)
  | publish (k : Kind) (ev : Carried k)
  | /-- A pull takes the next event of its queue. -/
    receive (k : Kind)
  | /-- A pull ends without one. -/
    stop (k : Kind) (failed : Bool)
  | /-- A translation ends. -/
    translated (n : ℕ) (outcome : Outcome)
  | /-- `asyncio.wait` returns; the set is gone over in this order. -/
    wake (order : List Task)
  | /-- The body of the loop for the next task, up to its `yield`. -/
    handle
  | /-- The rest of the body after the frame of a message. -/
    schedule
  | /-- The consumer closes the generator, or cancels it. -/
    close
  | /-- There is no pending task left. -/
    finish
  | /-- `_remember_sent`. -/
    remember (k : Key)
  | /-- `_remember_sent_reaction`. -/
    rememberReaction (k : ReactionKey)
  | /-- Another stream of the client takes the key of an echo. -/
    takeReaction (k : ReactionKey)

namespace World

/-- Replace one subscription. -/
def setFeed (k : Kind) (f : Feed (Carried k)) (w : World) : World :=
  { w with feed := Function.update w.feed k f }

/-- The pulls that are done. -/
def pullsDone (w : World) : List Kind :=
  [Kind.incoming, .outgoing, .reaction].filter fun k ↦ (w.feed k).pull.isDone

/-- The tasks that are done. -/
def tasksDone (w : World) : List Task :=
  w.pullsDone.map .pull ++
    (w.translations.filter fun t ↦ t.outcome.isSome).map fun t ↦ .translation t.number

/-- `not pending`. -/
def idle (w : World) : Bool :=
  w.translations.isEmpty && [Kind.incoming, .outgoing, .reaction].all fun k ↦ (w.feed k).pull.isNone

/-- The `finally`: every pending task is cancelled. -/
def cancelAll (w : World) : World :=
  { w with
    feed := fun k ↦ { w.feed k with pull := (w.feed k).pull.cancel }
    translations := [], batch := [], after := none, closed := true }

/-- A frame is yielded. -/
def yield (f : Frame) (w : World) : World := { w with frames := w.frames ++ [f] }

/-- The frame of an event. -/
def showEvent (k : Kind) (ev : Carried k) (w : World) : World :=
  (w.setFeed k ((w.feed k).display ev)).yield (frame w.isGroup ev)

/-- An event is left out. -/
def muteEvent (k : Kind) (ev : Carried k) (w : World) : World :=
  w.setFeed k ((w.feed k).mute ev)

/-- The frame of a message; its translation is scheduled behind the `yield`. -/
def showMessage (k : Kind) (ev : Carried k) (m : Message) (w : World) : World :=
  { w.showEvent k ev with after := if w.translates then some m else none }

/-- The body of the loop, for an event of the dialog. -/
def look (w : World) : (k : Kind) → Carried k → World
  | .reaction, ev =>
    if w.sentReactions.contains (ReactionEvent.key ev) then
      { w.muteEvent .reaction ev with
        sentReactions := w.sentReactions.erase (ReactionEvent.key ev) }
    else w.showEvent .reaction ev
  | .outgoing, ev =>
    if w.sentIds.contains (MessageEvent.key ev) then w.muteEvent .outgoing ev
    else w.showMessage .outgoing ev (MessageEvent.message ev)
  | .incoming, ev => w.showMessage .incoming ev (MessageEvent.message ev)

/-- The body of the loop, for an event: the next pull is queued right away. -/
def handleEvent (k : Kind) (ev : Carried k) (w : World) : World :=
  let w' := w.setFeed k ((w.feed k).take ev)
  if Sse.dialogId ev ≠ w.dialogId then w' else w'.look k ev

/-- The body of the loop, for a pull. -/
def handlePull (k : Kind) (w : World) : Option World :=
  match (w.feed k).pull with
  | .done (.got ev) => some (w.handleEvent k ev)
  | .done .ended => some (w.setFeed k { w.feed k with pull := .none })
  | .done .failed => some w.cancelAll
  | _ => none

/-- The body of the loop, for a translation. -/
def handleTranslation (n : ℕ) (w : World) : Option World :=
  match w.translations.find? fun t ↦ t.number = n && t.outcome.isSome with
  | some t =>
    let w := { w with translations := w.translations.filter fun t ↦ t.number ≠ n }
    some <| match t.outcome.bind Outcome.text? with
      | some text => w.yield (.translation t.id text)
      | none => w
  | none => none

/-- The task of a translation is created, unless too many are under way. -/
def scheduleTranslation (m : Message) (w : World) : World :=
  if w.translations.length < maxInflightTranslations then
    { w with
      translations := w.translations ++ [{ number := w.created, message := m }]
      created := w.created + 1
      after := none }
  else { w with after := none }

/-- What an event does. -/
def step : Machine World Event := fun w e ↦
  match e with
  | .register k =>
    match (w.feed k).pull with
    | .waiting => some (w.setFeed k { w.feed k with registered := true })
    | _ => none
  | .publish k ev =>
    if (w.feed k).registered ∧ !w.closed then some (w.setFeed k ((w.feed k).put ev)) else some w
  | .receive k =>
    match (w.feed k).pull, (w.feed k).queue with
    | .waiting, ev :: queue =>
      some (w.setFeed k { w.feed k with pull := .done (.got ev), queue })
    | _, _ => none
  | .stop k failed =>
    match (w.feed k).pull with
    | .waiting =>
      some (w.setFeed k { w.feed k with pull := .done (if failed then .failed else .ended) })
    | _ => none
  | .translated n outcome =>
    if w.translations.any fun t ↦ t.number = n && t.outcome.isNone then
      some { w with
        translations := w.translations.map fun t ↦
          if t.number = n then { t with outcome := some outcome } else t }
    else none
  | .wake order =>
    if !w.closed ∧ w.batch = [] ∧ w.after.isNone ∧ order ≠ [] ∧ order.Perm w.tasksDone then
      some { w with batch := order }
    else none
  | .handle =>
    match w.after, w.batch with
    | none, .pull k :: batch => handlePull k { w with batch }
    | none, .translation n :: batch => handleTranslation n { w with batch }
    | _, _ => none
  | .schedule => w.after.map w.scheduleTranslation
  | .close => if w.closed then none else some w.cancelAll
  | .finish =>
    if !w.closed ∧ w.batch = [] ∧ w.after.isNone ∧ w.idle then some w.cancelAll else none
  | .remember k =>
    some { w with sentIds := boundedRemember k w.sentIds, own := w.own ++ [k] }
  | .rememberReaction k =>
    some { w with
      sentReactions := boundedRemember k w.sentReactions, ownReactions := w.ownReactions ++ [k] }
  | .takeReaction k => some { w with sentReactions := w.sentReactions.erase k }

end World

end TgMessenger.Web.Sse
