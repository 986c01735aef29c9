import TgMessenger.Core.Models
import TgMessenger.Data.Machine
import TgMessenger.Data.OrderedDict
import Mathlib.Tactic.SplitIfs

/-!
# The bubbles of the web page

A message reaches the pane of a page (`#messages` of `web/templates/chat.html`) on three ways: in
the response with the history, which is swapped in; in a frame of `sse_event_stream`, which appends
a bubble; and in the response of the `POST` that has sent it, which appends one too.  The stream
leaves out the echo of what its browser client has sent, as far as the id is in the bucket of the
client by then.
-/

namespace TgMessenger.Web.Bubbles

/-- A message of Telegram, named by its dialog and its id. -/
abbrev Key := ℤ × ℤ

def key (m : Message) : Key := (m.dialogId, m.id)

/-! ## The ids that were sent -/

/-- `DEFAULT_REMEMBER_CAP`. -/
def defaultRememberCap : ℕ := 200

/-- `bounded_remember`. -/
def boundedRemember {K : Type} [DecidableEq K] (k : K) (sentIds : OrderedDict K Bool) :
    OrderedDict K Bool :=
  let sentIds := (sentIds.set k true).moveToEnd k
  OrderedDict.popFirst^[sentIds.size - defaultRememberCap] sentIds

/-- `_bounded_client_id`. -/
def boundedClientId (clientId : List Char) : List Char := clientId.take 80

/-- `sent_ids_by_client`.  A bucket is known by its number, and is kept when the table no longer
has it: a stream may still have it. -/
structure SentIds where
  byClient : OrderedDict (List Char) ℕ := .empty
  buckets : List (OrderedDict Key Bool) := []

namespace SentIds

/-- The client is the newest, and the oldest are dropped. -/
def touch (clientId : List Char) (s : SentIds) : SentIds :=
  let byClient := s.byClient.moveToEnd clientId
  { s with byClient := OrderedDict.popFirst^[byClient.size - 100] byClient }

/-- `_sent_bucket`: the number of the bucket of a client, and the table after it. -/
def sentBucket (clientId : List Char) (s : SentIds) : ℕ × SentIds :=
  let clientId := boundedClientId clientId
  match s.byClient.get? clientId with
  | some n => (n, s.touch clientId)
  | none =>
    let n := s.buckets.length
    (n, touch clientId
      { byClient := s.byClient.set clientId n, buckets := s.buckets ++ [.empty] })

/-- The table has a bucket of the client. -/
def has (clientId : List Char) (s : SentIds) : Bool :=
  s.byClient.contains (boundedClientId clientId)

/-- `_remember_sent`. -/
def rememberSent (n : ℕ) (k : Key) (s : SentIds) : SentIds :=
  { s with buckets := s.buckets.modify n (boundedRemember k) }

/-- `k in sent_ids`. -/
def contains (n : ℕ) (k : Key) (s : SentIds) : Bool :=
  (s.buckets.getD n .empty).contains k

end SentIds

/-! ## The stream of a page -/

/-- `DEFAULT_MAXSIZE` of the bus. -/
def defaultMaxsize : ℕ := 100

/-- A subscription, and what the task that waits for its next event has got. -/
structure Channel where
  queue : List Message := []
  task : Option Message := none

namespace Channel

/-- The events that were not looked at. -/
def events (c : Channel) : List Message := c.task.toList ++ c.queue

/-- What a full queue drops. -/
def dropped (c : Channel) : Option Message :=
  if defaultMaxsize ≤ c.queue.length then c.queue.head? else none

/-- `EventBus.publish`, for this subscriber. -/
def put (m : Message) (c : Channel) : Channel :=
  { c with queue := (if defaultMaxsize ≤ c.queue.length then c.queue.tail else c.queue) ++ [m] }

end Channel

/-- The payload of a frame. -/
structure Frame where
  id : ℤ
  text : Option String
  out : Bool

/-- A running `sse_event_stream`. -/
structure Stream where
  dialogId : ℤ
  /-- The number of `sent_ids`. -/
  sentIds : ℕ
  /-- It has subscribed. -/
  live : Bool := false
  incoming : Channel := {}
  outgoing : Channel := {}
  /-- The frames that were yielded and have not reached the page. -/
  frames : List Frame := []

namespace Stream

def channel (out : Bool) (s : Stream) : Channel := if out then s.outgoing else s.incoming

def setChannel (out : Bool) (c : Channel) (s : Stream) : Stream :=
  if out then { s with outgoing := c } else { s with incoming := c }

/-- The echo of a message is left out. -/
def skips (sentIds : SentIds) (out : Bool) (m : Message) (s : Stream) : Bool :=
  out && sentIds.contains s.sentIds (key m)

/-- The loop looks at an event. -/
def look (sentIds : SentIds) (out : Bool) (m : Message) (s : Stream) : Stream :=
  if m.dialogId ≠ s.dialogId then s
  else if s.skips sentIds out m then s
  else { s with frames := s.frames ++ [⟨m.id, m.text, out⟩] }

end Stream

/-! ## The page -/

/-- An element `.msg`. -/
structure Bubble where
  /-- `data-dialog`. -/
  dialog : ℤ
  /-- `data-id`. -/
  id : ℤ
  out : Bool
  text : Option String

def Bubble.key (b : Bubble) : Key := (b.dialog, b.id)

/-- `_message_div`. -/
def messageDiv (m : Message) : Bubble := ⟨m.dialogId, m.id, m.out, m.text⟩

/-- What `onmessage` makes of a frame. -/
def frameDiv (dialog : ℤ) (f : Frame) : Bubble := ⟨dialog, f.id, f.out, f.text⟩

/-- A request for `/dialogs/{dialog_id}/messages`, with the items of the response. -/
structure History where
  dialogId : ℤ
  items : Option (List Message) := none

/-- A request that sends: `/send`, with a translation variant or without, or
`/dialogs/{dialog_id}/media`. -/
structure Post where
  dialogId : ℤ
  /-- The message, once it has been sent. -/
  msg : Option Message := none
  /-- The handler has gone on. -/
  answered : Bool := false

/-- A page in a browser, with what is under way to it. -/
structure Page where
  /-- `webClientId`. -/
  clientId : List Char
  /-- The value of `#dialog_id`. -/
  dialogId : Option ℤ := none
  /-- The bubbles in `#messages`. -/
  messages : List Bubble := []
  stream : Option Stream := none
  histories : List History := []
  posts : List Post := []
  /-- What was published while the dialog has been open, and what the responses brought. -/
  due : List Key := []
  /-- A ghost variable: what was recorded as sent from here while the table has had its client, the
  newest first. -/
  recorded : List Key := []

namespace Page

/-- `openDialog`, and the request that the click issues. -/
def openDialog (dialogId : ℤ) (page : Page) : Page :=
  { page with
    dialogId := some dialogId
    stream := none
    histories := page.histories ++ [⟨dialogId, none⟩]
    due := [] }

/-- The bucket of the client is taken: it is new when the table does not have the client. -/
def take (known : Bool) (page : Page) : Page :=
  if known then page else { page with recorded := [] }

/-- The route `/stream/{dialog_id}`, with the bucket of the client. -/
def connect (n : ℕ) (page : Page) : Option Page :=
  match page.dialogId, page.stream with
  | some dialogId, none => some { page with stream := some { dialogId, sentIds := n } }
  | _, _ => none

/-- The two tasks of the stream subscribe. -/
def subscribe (page : Page) : Option Page :=
  page.stream.bind fun s ↦
    if s.live then none else some { page with stream := some { s with live := true } }

/-- The connection is lost; `EventSource` connects again. -/
def drop (page : Page) : Page := { page with stream := none }

/-- A message is published. -/
def hear (m : Message) (page : Page) : Page :=
  { page with
    due := if page.dialogId = some m.dialogId then key m :: page.due else page.due
    stream := page.stream.map fun s ↦
      if s.live then s.setChannel m.out ((s.channel m.out).put m) else s }

/-- The task gets the next event. -/
def fetch (out : Bool) (page : Page) : Option Page :=
  page.stream.bind fun s ↦
    match (s.channel out).task, (s.channel out).queue with
    | none, m :: queue =>
      some { page with stream := some (s.setChannel out { queue, task := some m }) }
    | _, _ => none

/-- The loop looks at the event that a task has got. -/
def check (sentIds : SentIds) (out : Bool) (page : Page) : Option Page :=
  page.stream.bind fun s ↦ (s.channel out).task.map fun m ↦
    { page with
      stream := some ((s.setChannel out { s.channel out with task := none }).look sentIds out m) }

/-- A frame reaches the page. -/
def frame (page : Page) : Option Page :=
  page.stream.bind fun s ↦
    match s.frames with
    | f :: frames =>
      some { page with
        stream := some { s with frames }
        messages := page.messages ++ [frameDiv s.dialogId f] }
    | [] => none

/-- A history request is answered. -/
def history (i : ℕ) (items : List Message) (page : Page) : Option Page :=
  page.histories[i]?.bind fun h ↦
    if h.items = none ∧ (items.map key).Nodup ∧ ∀ m ∈ items, m.dialogId = h.dialogId then
      some { page with histories := page.histories.set i { h with items := some items } }
    else none

/-- The response reaches the page. -/
def swap (i : ℕ) (page : Page) : Option Page :=
  page.histories[i]?.bind fun h ↦ h.items.map fun items ↦
    let page := { page with histories := page.histories.eraseIdx i }
    if page.dialogId = some h.dialogId then
      { page with messages := items.map messageDiv, due := items.map key ++ page.due }
    else page

/-- A history request has failed, or a later one has taken its place. -/
def dismiss (i : ℕ) (page : Page) : Option Page :=
  page.histories[i]?.map fun _ ↦ { page with histories := page.histories.eraseIdx i }

/-- A message is to be sent. -/
def post (dialogId : ℤ) (page : Page) : Page :=
  { page with posts := page.posts ++ [{ dialogId }] }

/-- It has been sent. -/
def sent (i : ℕ) (m : Message) (page : Page) : Option Page :=
  page.posts[i]?.bind fun post ↦
    if post.msg = none ∧ m.dialogId = post.dialogId ∧ m.out then
      some { page with posts := page.posts.set i { post with msg := some m } }
    else none

/-- It was not sent. -/
def refused (i : ℕ) (page : Page) : Option Page :=
  page.posts[i]?.bind fun post ↦
    if post.msg = none then some { page with posts := page.posts.eraseIdx i } else none

/-- The message of a request whose handler has yet to go on. -/
def unrecorded (i : ℕ) (page : Page) : Option Message :=
  page.posts[i]?.bind fun post ↦ if post.answered then none else post.msg

/-- The handler goes on, once it has recorded the message. -/
def record (i : ℕ) (k : Key) (page : Page) : Page :=
  { page with
    posts := page.posts.modify i fun post ↦ { post with answered := true }
    recorded := k :: page.recorded.erase k }

/-- The response reaches the page. -/
def answer (i : ℕ) (page : Page) : Option Page :=
  page.posts[i]?.bind fun post ↦ post.msg.bind fun m ↦
    if post.answered then
      let page := { page with posts := page.posts.eraseIdx i }
      if page.dialogId = some post.dialogId then
        some { page with messages := page.messages ++ [messageDiv m], due := key m :: page.due }
      else some page
    else none

/-! ### What each of them does -/

variable {page page' : Page}

theorem connect_eq {n : ℕ} (hs : page.connect n = some page') : page.stream = none ∧
    ∃ dialogId, page.dialogId = some dialogId ∧
      page' = { page with stream := some { dialogId, sentIds := n } } := by
  rw [connect] at hs
  split at hs
  · next dialogId hdialog hstream => exact ⟨hstream, dialogId, hdialog, (Option.some.inj hs).symm⟩
  · cases hs

theorem subscribe_eq (hs : page.subscribe = some page') : ∃ s, page.stream = some s ∧
    page' = { page with stream := some { s with live := true } } := by
  obtain ⟨s, hstream, hs⟩ := Option.bind_eq_some_iff.mp hs
  split_ifs at hs
  exact ⟨s, hstream, (Option.some.inj hs).symm⟩

theorem fetch_eq {out : Bool} (hs : page.fetch out = some page') : ∃ s m queue,
    page.stream = some s ∧ s.channel out = ⟨m :: queue, none⟩ ∧
      page' = { page with stream := some (s.setChannel out ⟨queue, some m⟩) } := by
  obtain ⟨s, hstream, hs⟩ := Option.bind_eq_some_iff.mp hs
  split at hs
  · next m queue htask hqueue =>
    refine ⟨s, m, queue, hstream, ?_, (Option.some.inj hs).symm⟩
    rw [← htask, ← hqueue]
  · cases hs

theorem check_eq {sentIds : SentIds} {out : Bool} (hs : page.check sentIds out = some page') :
    ∃ s m, page.stream = some s ∧ (s.channel out).task = some m ∧
      page' = { page with
        stream := some
          ((s.setChannel out { s.channel out with task := none }).look sentIds out m) } := by
  obtain ⟨s, hstream, hs⟩ := Option.bind_eq_some_iff.mp hs
  obtain ⟨m, htask, rfl⟩ := Option.map_eq_some_iff.mp hs
  exact ⟨s, m, hstream, htask, rfl⟩

theorem frame_eq (hs : page.frame = some page') : ∃ s f frames, page.stream = some s ∧
    s.frames = f :: frames ∧ page' =
      { page with
        stream := some { s with frames }
        messages := page.messages ++ [frameDiv s.dialogId f] } := by
  obtain ⟨s, hstream, hs⟩ := Option.bind_eq_some_iff.mp hs
  split at hs
  · next f frames hframes => exact ⟨s, f, frames, hstream, hframes, (Option.some.inj hs).symm⟩
  · cases hs

theorem history_eq {i : ℕ} {items : List Message} (hs : page.history i items = some page') :
    ∃ h, page.histories[i]? = some h ∧
      ((items.map key).Nodup ∧ ∀ m ∈ items, m.dialogId = h.dialogId) ∧
      page' = { page with histories := page.histories.set i { h with items := some items } } := by
  obtain ⟨h, hget, hs⟩ := Option.bind_eq_some_iff.mp hs
  split_ifs at hs with hitems
  exact ⟨h, hget, hitems.2, (Option.some.inj hs).symm⟩

theorem swap_eq {i : ℕ} (hs : page.swap i = some page') : ∃ h items,
    page.histories[i]? = some h ∧ h.items = some items ∧
      (page.dialogId = some h.dialogId ∧ page' =
          { page with
            histories := page.histories.eraseIdx i
            messages := items.map messageDiv
            due := items.map key ++ page.due } ∨
        page.dialogId ≠ some h.dialogId ∧
          page' = { page with histories := page.histories.eraseIdx i }) := by
  obtain ⟨h, hget, hs⟩ := Option.bind_eq_some_iff.mp hs
  obtain ⟨items, hitems, rfl⟩ := Option.map_eq_some_iff.mp hs
  refine ⟨h, items, hget, hitems, ?_⟩
  by_cases hdialog : page.dialogId = some h.dialogId
  · exact .inl ⟨hdialog, if_pos hdialog⟩
  · exact .inr ⟨hdialog, if_neg hdialog⟩

theorem dismiss_eq {i : ℕ} (hs : page.dismiss i = some page') : ∃ h,
    page.histories[i]? = some h ∧ page' = { page with histories := page.histories.eraseIdx i } := by
  obtain ⟨h, hget, rfl⟩ := Option.map_eq_some_iff.mp hs
  exact ⟨h, hget, rfl⟩

theorem refused_eq {i : ℕ} (hs : page.refused i = some page') : ∃ post,
    page.posts[i]? = some post ∧ post.msg = none ∧
      page' = { page with posts := page.posts.eraseIdx i } := by
  obtain ⟨post, hget, hs⟩ := Option.bind_eq_some_iff.mp hs
  split_ifs at hs with hmsg
  exact ⟨post, hget, hmsg, (Option.some.inj hs).symm⟩

theorem sent_eq {i : ℕ} {m : Message} (hs : page.sent i m = some page') : ∃ post,
    page.posts[i]? = some post ∧ post.msg = none ∧ m.dialogId = post.dialogId ∧
      page' = { page with posts := page.posts.set i { post with msg := some m } } := by
  obtain ⟨post, hget, hs⟩ := Option.bind_eq_some_iff.mp hs
  split_ifs at hs with hmsg
  exact ⟨post, hget, hmsg.1, hmsg.2.1, (Option.some.inj hs).symm⟩

theorem answer_eq {i : ℕ} (hs : page.answer i = some page') : ∃ post m,
    page.posts[i]? = some post ∧ post.msg = some m ∧
      (page.dialogId = some post.dialogId ∧ page' =
          { page with
            posts := page.posts.eraseIdx i
            messages := page.messages ++ [messageDiv m]
            due := key m :: page.due } ∨
        page.dialogId ≠ some post.dialogId ∧
          page' = { page with posts := page.posts.eraseIdx i }) := by
  obtain ⟨post, hget, hs⟩ := Option.bind_eq_some_iff.mp hs
  obtain ⟨m, hmsg, hs⟩ := Option.bind_eq_some_iff.mp hs
  refine ⟨post, m, hget, hmsg, ?_⟩
  obtain ⟨-, hs⟩ := Option.ite_none_right_eq_some.mp hs
  by_cases hdialog : page.dialogId = some post.dialogId
  · exact .inl ⟨hdialog, Option.some.inj (hs.symm.trans (if_pos hdialog))⟩
  · exact .inr ⟨hdialog, Option.some.inj (hs.symm.trans (if_neg hdialog))⟩

end Page

/-! ## Pages and server -/

structure World where
  /-- The messages that Telegram has. -/
  known : List Message := []
  /-- Those that the client has published. -/
  published : List Message := []
  sentIds : SentIds := {}
  pages : List Page := []

inductive Event where
  | /-- A browser loads the page. -/
    load (clientId : List Char)
  | openDialog (p : ℕ) (dialogId : ℤ)
  | connect (p : ℕ)
  | subscribe (p : ℕ)
  | drop (p : ℕ)
  | /-- Telegram has a message that was sent elsewhere. -/
    receive (m : Message)
  | publish (m : Message)
  | fetch (p : ℕ) (out : Bool)
  | check (p : ℕ) (out : Bool)
  | frame (p : ℕ)
  | history (p i : ℕ) (items : List Message)
  | swap (p i : ℕ)
  | dismiss (p i : ℕ)
  | post (p : ℕ) (dialogId : ℤ)
  | sent (p i : ℕ) (m : Message)
  | refused (p i : ℕ)
  | record (p i : ℕ)
  | answer (p i : ℕ)

namespace World

/-- Something happens at a page. -/
def onPage (p : ℕ) (f : Page → Option Page) (w : World) : Option World :=
  w.pages[p]?.bind fun page ↦ (f page).map fun page' ↦ { w with pages := w.pages.set p page' }

/-- The bucket of the client of a page is taken. -/
def takeBucket (page : Page) (p : ℕ) (w : World) : Option World :=
  { w with sentIds := (w.sentIds.sentBucket page.clientId).2 }.onPage p fun page ↦
    some (page.take (w.sentIds.has page.clientId))

/-- The bucket of the client of a page is taken, and something is done with its number. -/
def withBucket (p : ℕ) (f : ℕ → World → Option World) (w : World) : Option World :=
  w.pages[p]?.bind fun page ↦
    (w.takeBucket page p).bind (f (w.sentIds.sentBucket page.clientId).1)

/-- Telegram has another message. -/
def append (m : Message) (w : World) : Option World :=
  if w.known.any (fun m' ↦ key m' = key m) then none
  else some { w with known := w.known ++ [m] }

def step : Machine World Event := fun w e ↦
  match e with
  | .load clientId => some { w with pages := w.pages ++ [{ clientId }] }
  | .openDialog p dialogId => w.onPage p fun page ↦ some (page.openDialog dialogId)
  | .connect p => w.withBucket p fun n w ↦ w.onPage p (·.connect n)
  | .subscribe p => w.onPage p (·.subscribe)
  | .drop p => w.onPage p fun page ↦ some page.drop
  | .receive m => w.append m
  | .publish m =>
    if m ∈ w.known ∧ m ∉ w.published then
      some { w with published := w.published ++ [m], pages := w.pages.map (·.hear m) }
    else none
  | .fetch p out => w.onPage p (·.fetch out)
  | .check p out => w.onPage p (·.check w.sentIds out)
  | .frame p => w.onPage p (·.frame)
  | .history p i items =>
    if ∀ m ∈ items, m ∈ w.known then w.onPage p (·.history i items) else none
  | .swap p i => w.onPage p (·.swap i)
  | .dismiss p i => w.onPage p (·.dismiss i)
  | .post p dialogId => w.onPage p fun page ↦ some (page.post dialogId)
  | .sent p i m => (w.append m).bind (·.onPage p (·.sent i m))
  | .refused p i => w.onPage p (·.refused i)
  | .record p i =>
    (w.pages[p]?.bind (·.unrecorded i)).bind fun m ↦ w.withBucket p fun n w ↦
      { w with sentIds := w.sentIds.rememberSent n (key m) }.onPage p fun page ↦
        some (page.record i (key m))
  | .answer p i => w.onPage p (·.answer i)

/-- No page is loaded. -/
def init : World := {}

variable {w w' : World} {p : ℕ}

theorem onPage_eq {f : Page → Option Page} (hs : w.onPage p f = some w') :
    ∃ page page', w.pages[p]? = some page ∧ f page = some page' ∧
      w' = { w with pages := w.pages.set p page' } := by
  obtain ⟨page, hget, hs⟩ := Option.bind_eq_some_iff.mp hs
  obtain ⟨page', hf, rfl⟩ := Option.map_eq_some_iff.mp hs
  exact ⟨page, page', hget, hf, rfl⟩

theorem append_eq {m : Message} (hs : w.append m = some w') :
    key m ∉ w.known.map key ∧ w' = { w with known := w.known ++ [m] } := by
  obtain ⟨hnew, hs⟩ := Option.ite_none_left_eq_some.mp hs
  refine ⟨?_, (Option.some.inj hs).symm⟩
  simpa [List.any_eq_true] using hnew

theorem withBucket_eq {f : ℕ → World → Option World} (hs : w.withBucket p f = some w') :
    ∃ page w₁, w.pages[p]? = some page ∧ w.takeBucket page p = some w₁ ∧
      f (w.sentIds.sentBucket page.clientId).1 w₁ = some w' := by
  obtain ⟨page, hget, hs⟩ := Option.bind_eq_some_iff.mp hs
  obtain ⟨w₁, htake, hs⟩ := Option.bind_eq_some_iff.mp hs
  exact ⟨page, w₁, hget, htake, hs⟩

end World

end TgMessenger.Web.Bubbles
