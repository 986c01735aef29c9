import TgMessenger.Core.Models
import TgMessenger.Data.Machine
import TgMessenger.Data.OrderedDict

/-!
# The deletion watcher

`DeletionWatcher` (`core/watch.py`) keeps the own messages of late in a bounded cache and,
when Telegram says that some were deleted, sends what they said to Saved Messages.

An update about a deletion has the ids, and the chat only for channels and supergroups:
elsewhere the ids are those of the whole account.
-/

namespace TgMessenger.Watch

/-- Dialog and message. -/
abbrev Key := ℤ × ℤ

/-- `CachedMessage`. -/
structure CachedMessage where
  dialogId : ℤ
  messageId : ℤ
  text : Option String
  date : String
deriving DecidableEq

/-- The key it is kept under. -/
def CachedMessage.key (entry : CachedMessage) : Key := (entry.dialogId, entry.messageId)

/-- `OutgoingEvent`. -/
structure OutgoingEvent where
  dialogId : ℤ
  message : Message

/-- What `_remember` makes of an event. -/
def OutgoingEvent.cached (ev : OutgoingEvent) : CachedMessage :=
  ⟨ev.dialogId, ev.message.id, ev.message.text, ev.message.date⟩

/-- `MEDIA_PLACEHOLDER`. -/
def mediaPlaceholder : String := "<media without text>"

/-- `NOTIFY_HEADER`. -/
def notifyHeader (title : String) (dialogId : ℤ) : String :=
  "🗑 Deleted in “" ++ title ++ "” (id " ++ toString dialogId ++ "):"

/-- What becomes of a message in the cache. -/
inductive Fate where
  | remembered (entry : CachedMessage)
  | selected (entry : CachedMessage)
  | evicted (entry : CachedMessage)
deriving DecidableEq

/-- The message it is about. -/
def Fate.entry : Fate → CachedMessage
  | remembered entry | selected entry | evicted entry => entry

/-- A call of `send_text` to Saved Messages. -/
structure Notice where
  dialogId : ℤ
  entries : List CachedMessage
  text : String
deriving DecidableEq

/-- Where `_handle_deleted` is. -/
inductive Handling where
  /-- For the next event. -/
  | waiting
  /-- For `entity_title`; the groups that are left come after. -/
  | resolving (dialogId : ℤ) (entries : List CachedMessage)
    (rest : List (ℤ × List CachedMessage))
  /-- For `send_text`. -/
  | sending (title : String) (dialogId : ℤ) (entries : List CachedMessage)
    (rest : List (ℤ × List CachedMessage))
  /-- `KeyError`: the title is gone from its own cache. -/
  | crashed

/-- The constructor arguments, and how a date is written. -/
structure Setup where
  cacheSize : ℕ
  /-- The id of the account, after `get_me`. -/
  selfId : ℤ
  /-- `{date:%Y-%m-%d %H:%M}`. -/
  formatDate : String → String

/-- The attributes of the watcher, its loop over deletions, and what it did. -/
structure Watcher where
  cache : OrderedDict Key CachedMessage := .empty
  titles : OrderedDict ℤ String := .empty
  handling : Handling := .waiting
  /-- Oldest first. -/
  notices : List Notice := []
  echoed : List String := []
  /-- Oldest first. -/
  history : List Fate := []

namespace Watcher

/-- `_remember`. -/
def remember (cfg : Setup) (w : Watcher) (ev : OutgoingEvent) : Watcher :=
  if ev.dialogId = cfg.selfId then w
  else
    let cache := w.cache.set ev.cached.key ev.cached
    let excess := cache.size - cfg.cacheSize
    { w with
      cache := OrderedDict.popFirst^[excess] cache
      history := w.history ++ .remembered ev.cached ::
        (cache.items.take excess).map fun e ↦ .evicted e.2 }

/-- `self._cache.pop(key, None)` for every key, and what came out. -/
def popAll : List Key → OrderedDict Key CachedMessage →
    List CachedMessage × OrderedDict Key CachedMessage
  | [], cache => ([], cache)
  | key :: keys, cache =>
    match cache.get? key with
    | none => popAll keys cache
    | some entry =>
      let (hits, cache) := popAll keys (cache.erase key)
      (entry :: hits, cache)

/-- The keys that `_match` pops. -/
def matchedKeys (cache : OrderedDict Key CachedMessage) (ev : MessagesDeletedEvent) : List Key :=
  match ev.chatId with
  | some chatId => ev.messageIds.map fun id ↦ (chatId, id)
  -- only private chats and small groups, where the ids are global
  | none => (cache.items.filter fun e ↦
      decide (e.2.messageId ∈ ev.messageIds) && !isChannelOrMegagroupId e.2.dialogId).map Prod.fst

/-- `_match`. -/
def matchDeleted (cache : OrderedDict Key CachedMessage) (ev : MessagesDeletedEvent) :
    List CachedMessage × OrderedDict Key CachedMessage :=
  popAll (matchedKeys cache ev) cache

/-- `by_dialog`: the matched messages, by dialog. -/
def byDialog (matched : List CachedMessage) : OrderedDict ℤ (List CachedMessage) :=
  matched.foldl (fun groups entry ↦
    groups.set entry.dialogId ((groups.get? entry.dialogId).getD [] ++ [entry])) .empty

/-- The text of a notice. -/
def noticeText (cfg : Setup) (title : String) (dialogId : ℤ) (entries : List CachedMessage) :
    String :=
  let line (entry : CachedMessage) : String :=
    let text := match entry.text with
      | none | some "" => mediaPlaceholder
      | some text => text
    "[" ++ cfg.formatDate entry.date ++ "] " ++ text
  "\n".intercalate (notifyHeader title dialogId ::
    (entries.mergeSort fun e e' ↦ e.messageId ≤ e'.messageId).map line)

/-- Calling `send_text` for a dialog whose title is there. -/
def notify (cfg : Setup) (w : Watcher) (title : String) (dialogId : ℤ)
    (entries : List CachedMessage) (rest : List (ℤ × List CachedMessage)) : Watcher :=
  { w with
    handling := .sending title dialogId entries rest
    notices := w.notices ++ [⟨dialogId, entries, noticeText cfg title dialogId entries⟩] }

/-- The loop of `_handle_deleted`, up to where it waits. -/
def proceed (cfg : Setup) (w : Watcher) : List (ℤ × List CachedMessage) → Watcher
  | [] => { w with handling := .waiting }
  | (dialogId, entries) :: rest =>
    match w.titles.get? dialogId with
    | some title => w.notify cfg title dialogId entries rest
    | none => { w with handling := .resolving dialogId entries rest }

/-- `_handle_deleted`, up to where it waits first. -/
def handleDeleted (cfg : Setup) (w : Watcher) (ev : MessagesDeletedEvent) : Watcher :=
  let (matched, cache) := matchDeleted w.cache ev
  proceed cfg { w with cache := cache, history := w.history ++ matched.map .selected }
    (byDialog matched).items

/-- `_title` after `entity_title` has answered, or failed. -/
def titled (cfg : Setup) (w : Watcher) (answer : Option String) (dialogId : ℤ)
    (entries : List CachedMessage) (rest : List (ℤ × List CachedMessage)) : Watcher :=
  let titles := w.titles.set dialogId (answer.getD (toString dialogId))
  let w := { w with titles := OrderedDict.popFirst^[titles.size - cfg.cacheSize] titles }
  match w.titles.get? dialogId with
  | some title => w.notify cfg title dialogId entries rest
  | none => { w with handling := .crashed }

/-- `_handle_deleted` after `send_text` has returned, or raised. -/
def sent (cfg : Setup) (w : Watcher) (returned : Bool) (title : String)
    (entries : List CachedMessage) (rest : List (ℤ × List CachedMessage)) : Watcher :=
  let line := "🗑 " ++ title ++ ": " ++ toString entries.length ++
    " deleted message(s) saved to Saved Messages"
  proceed cfg { w with echoed := if returned then w.echoed ++ [line] else w.echoed } rest

end Watcher

/-- What the watcher is given. -/
inductive Event where
  /-- From `listen_outgoing`. -/
  | outgoing (ev : OutgoingEvent)
  /-- From `listen_deleted`. -/
  | deleted (ev : MessagesDeletedEvent)
  /-- Of `entity_title`. -/
  | titled (answer : Option String)
  /-- Of `send_text`. -/
  | sent (returned : Bool)

/-- The two loops of `run`: an own message is cached at once, an event about a deletion waits
until the one before it has been handled. -/
def watcher (cfg : Setup) : Machine Watcher Event
  | w, .outgoing ev => some (w.remember cfg ev)
  | w, .deleted ev =>
    match w.handling with
    | .waiting => some (w.handleDeleted cfg ev)
    | _ => none
  | w, .titled answer =>
    match w.handling with
    | .resolving dialogId entries rest => some (w.titled cfg answer dialogId entries rest)
    | _ => none
  | w, .sent returned =>
    match w.handling with
    | .sending title _ entries rest => some (w.sent cfg returned title entries rest)
    | _ => none

end TgMessenger.Watch
