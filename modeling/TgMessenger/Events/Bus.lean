import TgMessenger.Asyncio.Queue
import TgMessenger.Data.Machine
import Mathlib.Data.List.Perm.Basic
import Mathlib.Logic.Function.Basic

/-!
# The event bus

`EventBus` (`core/events.py`) gives each subscriber a bounded queue.  `publish` puts the event
into every queue and drops the oldest item of a queue that is full; it never waits.  A subscriber
is an async generator that is registered by its first read and leaves the set of subscribers when
it is cancelled or closed.

Two publications of one event are told apart by their numbers.
-/

namespace TgMessenger.Events

open Asyncio

/-- A publication: its number, and the event. -/
abbrev Publication (T : Type) := ℕ × T

/-- Where the generator of a subscriber is. -/
inductive Place where
  | /-- It has not been started. -/
    idle
  | /-- It is about to read its queue: it has just been registered, or is asked for the next
    event after a `yield`. -/
    ready
  | /-- It waits in `queue.get()`. -/
    waiting
  | /-- Its future is done: there is something to take. -/
    woken
  | /-- Its task was cancelled while it waited, or (`woken`) after it was woken. -/
    cancelled (woken : Bool)
  | ended
deriving DecidableEq

/-- The subscriber is in `_subscribers`. -/
def Place.registered : Place → Bool
  | .idle | .ended => false
  | .ready | .waiting | .woken | .cancelled _ => true

/-- A call of `subscribe`: its queue and its generator. -/
structure Subscription (T : Type) where
  queue : Queue Unit (Publication T)
  place : Place
  /-- What its consumer has received, oldest first. -/
  received : List (Publication T)
  /-- What was published while it was registered. -/
  heard : List (Publication T)
deriving DecidableEq

namespace Subscription

variable {T : Type}

/-- A generator that has not been started. -/
def init : Subscription T := ⟨.empty, .idle, [], []⟩

/-- Note which reader was woken: the queue has one. -/
def put (woken : Option Unit) (queue : Queue Unit (Publication T)) (s : Subscription T) :
    Subscription T :=
  { s with queue, place := if woken.isSome then .woken else s.place }

/-- The body of the loop of `publish`, for one queue; `none` is `QueueFull`. -/
def deliver (maxsize : ℕ) (p : Publication T) (s : Subscription T) : Option (Subscription T) :=
  let queue :=
    if s.queue.isFull maxsize then
      match s.queue.getNowait with
      | some (_, queue) => queue
      | none => s.queue
    else s.queue
  (queue.putNowait maxsize p).map fun (woken, queue) ↦ s.put woken queue

/-- `queue.get()`, from the test of its loop on. -/
def take (s : Subscription T) : Subscription T :=
  match s.queue.getNowait with
  | some (p, queue) => { s with queue, place := .ready, received := s.received ++ [p] }
  | none => { s with queue := s.queue.wait (), place := .waiting }

end Subscription

/-- The bus. -/
structure World (T : Type) where
  /-- `_subscribers`, in some order. -/
  subscribers : List ℕ
  /-- The subscriptions, by the generator. -/
  sub : ℕ → Subscription T
  /-- What was published, oldest first. -/
  published : List T

/-- What may happen. -/
inductive Event (T : Type) where
  | /-- `publish`, going over the set of subscribers in some order. -/
    publish (event : T) (order : List ℕ)
  | /-- The first read registers the subscriber. -/
    subscribe (i : ℕ)
  | /-- The generator reads its queue. -/
    get (i : ℕ)
  | /-- The event loop resumes a reader whose future is done, or whose task was cancelled. -/
    resume (i : ℕ)
  | /-- The task of a reader that waits is cancelled. -/
    cancel (i : ℕ)
  | /-- An exception at the `yield`: the generator is closed, or the task of the next read was
    cancelled before it began; or `on_subscribed` raises. -/
    close (i : ℕ)
deriving DecidableEq

namespace World

variable {T : Type}

/-- A new bus. -/
def init : World T := ⟨[], fun _ ↦ .init, []⟩

/-- Replace one subscription. -/
def set (i : ℕ) (s : Subscription T) (w : World T) : World T :=
  { w with sub := Function.update w.sub i s }

/-- `_unregister`, and the end of the generator. -/
def unregister (i : ℕ) (s : Subscription T) (w : World T) : World T :=
  { w with
    subscribers := w.subscribers.filter (· ≠ i)
    sub := Function.update w.sub i { s with place := .ended } }

/-- The loop of `publish`; an exception of `put_nowait` ends it. -/
def publishTo (maxsize : ℕ) (p : Publication T) :
    List ℕ → (ℕ → Subscription T) → (ℕ → Subscription T)
  | [], sub => sub
  | i :: order, sub =>
    match (sub i).deliver maxsize p with
    | some s => publishTo maxsize p order (Function.update sub i s)
    | none => sub

/-- Keep in mind what was published while a subscriber is registered. -/
def tell (p : Publication T) (w : World T) (i : ℕ) : Subscription T :=
  if i ∈ w.subscribers then { w.sub i with heard := (w.sub i).heard ++ [p] } else w.sub i

/-- What an event does. -/
def step (maxsize : ℕ) : Machine (World T) (Event T) := fun w e ↦
  match e with
  | .publish event order =>
    if order.Perm w.subscribers then
      let p := (w.published.length, event)
      some { w with
        sub := publishTo maxsize p order (w.tell p)
        published := w.published ++ [event] }
    else none
  | .subscribe i =>
    match (w.sub i).place with
    | .idle =>
      some { w.set i { w.sub i with place := .ready } with subscribers := i :: w.subscribers }
    | _ => none
  | .get i =>
    match (w.sub i).place with
    | .ready => some (w.set i (w.sub i).take)
    | _ => none
  | .resume i =>
    match (w.sub i).place with
    | .woken => some (w.set i (w.sub i).take)
    | .cancelled woken =>
      some (w.unregister i { w.sub i with queue := ((w.sub i).queue.giveUp () woken).2 })
    | _ => none
  | .cancel i =>
    match (w.sub i).place with
    | .waiting =>
      some (w.set i
        { w.sub i with queue := (w.sub i).queue.cancel (), place := .cancelled false })
    | .woken => some (w.set i { w.sub i with place := .cancelled true })
    | _ => none
  | .close i =>
    match (w.sub i).place with
    | .ready => some (w.unregister i (w.sub i))
    | _ => none

end World

end TgMessenger.Events
