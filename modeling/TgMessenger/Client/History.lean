import TgMessenger.Cache.Versions

/-!
# The history of a client

`StandaloneTelegramClient` (`core/client.py`) keeps the pages of `history` in a cache, by peer,
limit and offset.  Every write and every update of Telegram drops the pages of its peer; a deletion
outside channels and supergroups does not say where it was, and drops them all.

A dialog has versions: it changes when a write of the client arrives, and for other reasons, at any
moment.  What the requests of a fetch give for the versions they see is outside.
-/

namespace TgMessenger.Client

open Cache

/-! ## Messages -/

/-- A user of Telethon. -/
structure RawUser where
  id : Option ℤ := none
  firstName : Option String := none
  lastName : Option String := none
  username : Option String := none

/-- A file of Telethon. -/
structure RawFile where
  fileName : Option String := none
  name : Option String := none
  size : Option ℤ := none
  mimeType : Option String := none

/-- A message of Telethon; what is not there is `none` or `false`. -/
structure RawMessage where
  id : Option ℤ := none
  senderId : Option ℤ := none
  out : Bool := false
  date : String
  text : Option String := none
  message : Option String := none
  media : Bool := false
  photo : Bool := false
  voice : Bool := false
  document : Bool := false
  file : Option RawFile := none
  /-- `reply_to`, with its `reply_to_msg_id`. -/
  replyTo : Option (Option ℤ) := none
  forward : Bool := false
  sender : Option RawUser := none

/-- `a or b`. -/
def orText (a b : Option String) : Option String :=
  match a with
  | some s => if s = "" then b else some s
  | none => b

/-- `_to_user`. -/
def toUser (raw : RawUser) : User :=
  { id := raw.id.getD 0, firstName := raw.firstName, lastName := raw.lastName,
    username := raw.username }

/-- `_to_media_ref`. -/
def toMediaRef (raw : RawMessage) : Option MediaRef :=
  if raw.media then
    some { kind := if raw.photo then .photo
             -- a voice note is a document too
             else if raw.voice then .voice
             else if raw.document then .document
             else .other
           fileName := orText (raw.file.bind RawFile.fileName) (raw.file.bind RawFile.name)
           size := raw.file.bind RawFile.size
           mimeType := raw.file.bind RawFile.mimeType
           downloadable := true }
  else none

/-- `_to_message`. -/
def toMessage (dialogId : ℤ) (raw : RawMessage) : Message :=
  { id := raw.id.getD 0
    dialogId
    senderId := raw.senderId.getD 0
    out := raw.out
    date := raw.date
    text := orText raw.text raw.message
    media := toMediaRef raw
    replyToId := raw.replyTo.join
    isForward := raw.forward
    sender := raw.sender.map toUser }

/-! ## Pages -/

/-- The key of a page. -/
structure PageKey where
  peer : ℤ
  limit : ℤ
  offsetId : ℤ
deriving DecidableEq

/-- What `iter_messages` yields for a page, newest first, when its requests see these versions of
the dialog. -/
abbrev IterMessages := PageKey → List ℕ → List RawMessage

/-- `_fetch_history`. -/
def fetchHistory (iterMessages : IterMessages) (key : PageKey) (versions : List ℕ) : List Message :=
  (iterMessages key versions).reverse.map (toMessage key.peer)

/-- The dialogs, behind the cache of the pages. -/
def dialogs (iterMessages : IterMessages) : Source PageKey ℤ (List Message) :=
  ⟨PageKey.peer, fetchHistory iterMessages⟩

/-! ## Writes and updates -/

/-- A call of the client that changes a dialog. -/
inductive Write where
  | sendText (peer : ℤ)
  | sendMedia (peer : ℤ)
  | forward (fromPeer toPeer : ℤ)
  | editText (peer : ℤ)
  | deleteMessages (peer : ℤ)
deriving DecidableEq

/-- The peers it calls `_invalidate_history` for when the request has returned. -/
def Write.invalidates : Write → List ℤ
  | .sendText peer => [peer]
  | .sendMedia peer => [peer]
  | .forward fromPeer toPeer => [fromPeer, toPeer]
  | .editText peer => [peer]
  | .deleteMessages peer => [peer]

/-- A version of a dialog. -/
structure Change where
  peer : ℤ
  version : ℕ
deriving DecidableEq

/-- Where a write stands. -/
inductive WriteStatus where
  | idle
  | asked (write : Write)
  | /-- It has arrived and made these changes. -/
    arrived (write : Write) (changes : List Change)
  | ended

/-- What an update is about. -/
inductive UpdateKind where
  | incoming (isPrivate : Bool)
  | outgoing
  | /-- `chat_id` may be missing. -/
    deleted (named : Bool)
deriving DecidableEq

/-- An update of Telegram about a version of a dialog. -/
structure Update where
  kind : UpdateKind
  peer : ℤ
  version : ℕ
  /-- It can be mapped to an event. -/
  wellFormed : Bool := true
deriving DecidableEq

/-- A bus of the client. -/
inductive Bus where
  | bus | busAll | busOut | busDeleted
deriving DecidableEq

/-- The buses that an event for the update is published on, in order. -/
def Update.publishes (u : Update) : List Bus :=
  if u.wellFormed then
    match u.kind with
    | .incoming isPrivate => .busAll :: if isPrivate then [.bus] else []
    | .outgoing => [.busOut]
    | .deleted _ => [.busDeleted]
  else []

/-- The invalidation that a handler makes first. -/
def Update.invalidation {V : Type} (u : Update) : Event PageKey V :=
  match u.kind with
  | .deleted false => .invalidate none
  | _ => .invalidateIf fun k ↦ k.peer = u.peer

/-- An event that was published; `time` is the number of the next event of the cache. -/
structure Published where
  bus : Bus
  update : Update
  time : ℕ

/-- A write that has returned. -/
structure Completed where
  write : Write
  changes : List Change
  time : ℕ

/-! ## The client -/

/-- A call of `history` with `fresh=True`. -/
inductive FreshStatus where
  | idle
  | /-- The dialog had this version when it was called. -/
    fetching (key : PageKey) (since version : ℕ)
  | ended

/-- A page of such a call. -/
structure FreshPage where
  key : PageKey
  since : ℕ
  reading : Reading (List Message)

structure World where
  pages : Versioned PageKey ℤ (List Message) := .init
  fresh : ℕ → FreshStatus := fun _ ↦ .idle
  writes : ℕ → WriteStatus := fun _ ↦ .idle
  /-- What Telegram has sent and no handler has seen. -/
  updates : List Update := []
  published : List Published := []
  completed : List Completed := []
  freshPages : List FreshPage := []

/-- What happens to a client. -/
inductive Event where
  | history (t : ℕ) (key : PageKey)
  | resume (t : ℕ)
  | fetched (t : ℕ) (versions : List ℕ)
  | failed (t : ℕ)
  | cancel (t : ℕ)
  | abandon (t : ℕ)
  | historyFresh (t : ℕ) (key : PageKey)
  | fetchedFresh (t : ℕ) (versions : List ℕ)
  | failedFresh (t : ℕ)
  | ask (t : ℕ) (write : Write)
  | /-- A write arrives. -/
    arrive (t : ℕ)
  | /-- It returns. -/
    complete (t : ℕ)
  | /-- It raises. -/
    raise (t : ℕ)
  | /-- A dialog changes. -/
    change (peer : ℤ)
  | /-- Telegram sends an update. -/
    send (u : Update)
  | /-- The handler of an update runs. -/
    handle (i : ℕ)

namespace World

/-- An event of the cache. -/
def withPages (w : World) (pages : Option (Versioned PageKey ℤ (List Message))) : Option World :=
  pages.map fun pages ↦ { w with pages }

/-- The changes that a write makes when it arrives. -/
def arriveAt : List ℤ → Versioned PageKey ℤ (List Message) →
    List Change × Versioned PageKey ℤ (List Message)
  | [], pages => ([], pages)
  | peer :: peers, pages =>
    let pages := pages.change peer
    let (changes, pages') := arriveAt peers pages
    (⟨peer, pages.version peer⟩ :: changes, pages')

/-- The calls of `_invalidate_history`. -/
def invalidateHistory (cfg : Setup) : List Change → Versioned PageKey ℤ (List Message) →
    Option (Versioned PageKey ℤ (List Message))
  | [], pages => some pages
  | c :: changes, pages =>
    (pages.learn cfg (.invalidateIf fun k ↦ k.peer = c.peer) c.peer c.version).bind
      (invalidateHistory cfg changes)

/-- `_on_new_message`, `_on_outgoing_message`, `_on_deleted`: the pages are dropped before the
update is mapped. -/
def onUpdate (cfg : Setup) (u : Update) (w : World) : Option World :=
  (w.pages.learn cfg u.invalidation u.peer u.version).map fun pages ↦
    { w with pages
             published := u.publishes.map (⟨·, u, pages.calls.now⟩) ++ w.published }

variable (cfg : Setup) (iterMessages : IterMessages)

def step : Machine World Event := fun w e ↦
  match e with
  | .history t key => w.withPages (w.pages.cacheEvent cfg (.getOrFetch t key))
  | .resume t => w.withPages (w.pages.cacheEvent cfg (.resume t))
  | .fetched t versions => w.withPages (w.pages.fetched cfg (dialogs iterMessages) t versions)
  | .failed t => w.withPages (w.pages.cacheEvent cfg (.failed t))
  | .cancel t => w.withPages (w.pages.cacheEvent cfg (.cancel t))
  | .abandon t => w.withPages (w.pages.cacheEvent cfg (.abandon t))
  | .historyFresh t key =>
    match w.fresh t with
    | .idle =>
      let status := .fetching key w.pages.calls.now (w.pages.version key.peer)
      some { w with fresh := Function.update w.fresh t status }
    | _ => none
  | .fetchedFresh t versions =>
    match w.fresh t with
    | .fetching key since version =>
      if ∀ n ∈ versions, version ≤ n ∧ n ≤ w.pages.version key.peer then
        let reading := ⟨fetchHistory iterMessages key versions, versions⟩
        some { w with fresh := Function.update w.fresh t .ended
                      freshPages := ⟨key, since, reading⟩ :: w.freshPages }
      else none
    | _ => none
  | .failedFresh t =>
    match w.fresh t with
    | .fetching _ _ _ => some { w with fresh := Function.update w.fresh t .ended }
    | _ => none
  | .ask t write =>
    match w.writes t with
    | .idle => some { w with writes := Function.update w.writes t (.asked write) }
    | _ => none
  | .arrive t =>
    match w.writes t with
    | .asked write =>
      let (changes, pages) := arriveAt write.invalidates w.pages
      some { w with pages
                    writes := Function.update w.writes t (.arrived write changes) }
    | _ => none
  | .complete t =>
    match w.writes t with
    | .arrived write changes =>
      (invalidateHistory cfg changes w.pages).map fun pages ↦
        { w with pages
                 writes := Function.update w.writes t .ended
                 completed := ⟨write, changes, pages.calls.now⟩ :: w.completed }
    | _ => none
  | .raise t =>
    match w.writes t with
    | .idle => none
    | .ended => none
    -- it may have arrived all the same
    | _ => some { w with writes := Function.update w.writes t .ended }
  | .change peer => some { w with pages := w.pages.change peer }
  | .send u =>
    if u.version ≤ w.pages.version u.peer then some { w with updates := w.updates ++ [u] } else none
  | .handle i =>
    (w.updates[i]?).bind fun u ↦ onUpdate cfg u { w with updates := w.updates.eraseIdx i }

/-- The states that a client can reach. -/
def Reachable (w : World) : Prop := Machine.Runs (step cfg iterMessages) Machine.anyEvent {} w

end World

end TgMessenger.Client
