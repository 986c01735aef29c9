import TgMessenger.Core.Models
import TgMessenger.Data.OrderedDict
import Mathlib.Algebra.Order.Ring.Rat

/-!
# The moderation engine

`ModerationEngine` (`core/moderation.py`): the first enabled rule of a chat that matches a
message is applied, and every action is written to the journal.  With `enforce` an action is
a call of the client, which may fail; without it nothing is called.

Regular expressions are those of Python's `re`, the clock is a sequence of readings, and so is
what becomes of the calls of the client.
-/

namespace TgMessenger.Moderation

/-! ## Rules -/

/-- `RuleConditions`, with what its validators check. -/
structure RuleConditions where
  pattern : Option String := none
  hasLink : Bool := false
  isForward : Bool := false
  fromNewMemberWithinSec : Option { n : ℤ // 0 < n } := none
  maxMessagesPerMinute : Option { n : ℤ // 1 ≤ n } := none

/-- `RuleActions`, with what its validator checks. -/
structure RuleActions where
  delete : Bool := false
  muteSec : Option { n : ℤ // 30 ≤ n } := none
  ban : Bool := false
  warnText : Option String := none

/-- `ModerationRule`. -/
structure ModerationRule where
  chatId : ℤ
  name : String
  enabled : Bool := true
  conditions : RuleConditions := {}
  actions : RuleActions := {}

/-- `_LINK_RE`, searched without regard to case. -/
def linkRe : String := "(https?://|t\\.me/|www\\.|(?<!\\w)@[A-Za-z0-9_]\x7b5,\x7d)"

/-- What the engine takes from Python's `re`. -/
structure Re where
  /-- `re.search(pattern, text) is not None`. -/
  search : (pattern text : String) → Bool
  /-- The same under `re.IGNORECASE`. -/
  searchIgnoringCase : (pattern text : String) → Bool

/-- `rule_matches`. -/
def ruleMatches (re : Re) (conditions : RuleConditions) (message : Message)
    (isNewMember isForward overRateLimit : Bool) : Bool :=
  let text := message.text.getD ""
  if conditions.pattern.any (fun pattern ↦ !re.search pattern text) then false
  else if conditions.hasLink && !re.searchIgnoringCase linkRe text then false
  else if conditions.isForward && !isForward then false
  else if conditions.fromNewMemberWithinSec.isSome && !isNewMember then false
  else if conditions.maxMessagesPerMinute.isSome && !overRateLimit then false
  else true

/-- A call of the client that changes something. -/
inductive ClientCall where
  | sendText (dialogId : ℤ) (text : String) (replyTo : ℤ)
  | muteUser (dialogId userId : ℤ) (seconds : ℤ)
  | banUser (dialogId userId : ℤ)
  | deleteMessages (dialogId : ℤ) (messageIds : List ℤ)
deriving DecidableEq

/-- The actions that `_apply` takes, by name, with their calls. -/
def ModerationRule.steps (rule : ModerationRule) (message : Message) :
    List (String × ClientCall) :=
  let chatId := message.dialogId
  let actions := rule.actions
  (match actions.warnText with
    | some text => [("warn", .sendText chatId text message.id)]
    | none => []) ++
  (match actions.muteSec with
    | some seconds => [("mute", .muteUser chatId message.senderId seconds)]
    | none => []) ++
  (if actions.ban then [("ban", .banUser chatId message.senderId)] else []) ++
  if actions.delete then [("delete", .deleteMessages chatId [message.id])] else []

/-! ## Events -/

/-- `ChatActionKind`. -/
inductive ChatActionKind where
  | join | leave | kick | title | pin | photo | other
deriving DecidableEq

/-- `ChatActionEvent`, as far as the engine reads it. -/
structure ChatActionEvent where
  dialogId : ℤ
  kind : ChatActionKind
  user : Option User := none

/-- A row of `moderation_log`. -/
structure Entry where
  chatId : ℤ
  messageId : ℤ
  ruleName : String
  action : String
  dryRun : Bool
deriving DecidableEq

/-- The constructor arguments, and what the engine meets. -/
structure Setup where
  enforce : Bool
  memberCacheSize : ℕ
  rateCacheSize : ℕ
  re : Re
  /-- The readings of the clock, in order. -/
  clock : ℕ → Time
  /-- What `list_rules` returns. -/
  stored : List ModerationRule
  /-- Whether the n-th call of the client raises. -/
  fails : ℕ → Bool

/-- `RATE_WINDOW_SEC`. -/
def rateWindowSec : Time := 60

/-- The attributes of the engine, the journal and the calls of the client. -/
structure Engine where
  blockedChats : List ℤ := []
  /-- Chat and user, with the time of joining. -/
  joined : OrderedDict (ℤ × ℤ) Time := .empty
  /-- Chat and sender, with the times of the messages in the window. -/
  rate : OrderedDict (ℤ × ℤ) (List Time) := .empty
  rules : Option (List ModerationRule) := none
  /-- How often the clock was read. -/
  readings : ℕ := 0
  /-- Oldest first. -/
  journal : List Entry := []
  /-- Oldest first. -/
  calls : List ClientCall := []

namespace Engine

/-- `disable_chats`. -/
def disableChats (e : Engine) (chatIds : List ℤ) : Engine :=
  { e with blockedChats := e.blockedChats ++ chatIds }

/-- `self._clock()`. -/
def readClock (cfg : Setup) (e : Engine) : Time × Engine :=
  (cfg.clock e.readings, { e with readings := e.readings + 1 })

/-- `on_chat_action`. -/
def onChatAction (cfg : Setup) (e : Engine) (ev : ChatActionEvent) : Engine :=
  match ev.kind, ev.user with
  | .join, some user =>
    let key := (ev.dialogId, user.id)
    let (now, e) := e.readClock cfg
    let joined := (e.joined.set key now).moveToEnd key
    { e with joined := OrderedDict.popFirst^[joined.size - cfg.memberCacheSize] joined }
  | _, _ => e

/-- `_rules_for_chat`. -/
def rulesForChat (cfg : Setup) (e : Engine) (chatId : ℤ) : List ModerationRule × Engine :=
  let rules := e.rules.getD cfg.stored
  (rules.filter (·.chatId = chatId), { e with rules := some rules })

/-- `_is_new_member`. -/
def isNewMember (cfg : Setup) (e : Engine) (chatId userId within : ℤ) : Bool × Engine :=
  match e.joined.get? (chatId, userId) with
  | none => (false, e)
  | some joinedAt =>
    let (now, e) := e.readClock cfg
    (now - joinedAt ≤ within, e)

/-- `_record_rate_window`. -/
def recordRateWindow (cfg : Setup) (e : Engine) (chatId senderId : ℤ) : ℕ × Engine :=
  let (now, e) := e.readClock cfg
  let key := (chatId, senderId)
  let window := ((e.rate.get? key).getD [] ++ [now]).dropWhile fun t ↦ rateWindowSec < now - t
  let rate := (e.rate.set key window).moveToEnd key
  (window.length, { e with rate := OrderedDict.popFirst^[rate.size - cfg.rateCacheSize] rate })

/-- `_journal`. -/
def writeJournal (e : Engine) (rule : ModerationRule) (message : Message) (action : String)
    (dryRun : Bool) : Engine :=
  { e with journal := e.journal ++ [⟨message.dialogId, message.id, rule.name, action, dryRun⟩] }

/-- `_do`. -/
def doAction (cfg : Setup) (e : Engine) (rule : ModerationRule) (message : Message)
    (action : String) (call : ClientCall) : Engine :=
  if !cfg.enforce then e.writeJournal rule message action true
  else
    let called := { e with calls := e.calls ++ [call] }
    if cfg.fails e.calls.length then called.writeJournal rule message (action ++ ":failed") false
    else called.writeJournal rule message action false

/-- `_apply`: the actions of a rule, in this order. -/
def apply (cfg : Setup) (e : Engine) (rule : ModerationRule) (message : Message) : Engine :=
  (rule.steps message).foldl (fun e step ↦ e.doAction cfg rule message step.1 step.2) e

/-- `is_new_member`: false for a rule that does not ask. -/
def newMember (cfg : Setup) (e : Engine) (rule : ModerationRule) (message : Message) :
    Bool × Engine :=
  match rule.conditions.fromNewMemberWithinSec with
  | some within => e.isNewMember cfg message.dialogId message.senderId within
  | none => (false, e)

/-- The loop of `process_message`. -/
def applyFirst (cfg : Setup) (rateCount : Option ℕ) (message : Message) :
    List ModerationRule → Engine → Engine
  | [], e => e
  | rule :: rules, e =>
    if !rule.enabled then e.applyFirst cfg rateCount message rules
    else
      let (isNew, e) := e.newMember cfg rule message
      let overRate := rule.conditions.maxMessagesPerMinute.any fun limit ↦
        limit.1 ≤ (rateCount.getD 0 : ℤ)
      if ruleMatches cfg.re rule.conditions message isNew message.isForward overRate then
        e.apply cfg rule message
      else e.applyFirst cfg rateCount message rules

/-- `process_message`. -/
def processMessage (cfg : Setup) (e : Engine) (message : Message) : Engine :=
  let chatId := message.dialogId
  if chatId ∈ e.blockedChats then e
  else
    let (rules, e) := e.rulesForChat cfg chatId
    if rules.any fun rule ↦ rule.enabled && rule.conditions.maxMessagesPerMinute.isSome then
      let (rateCount, e) := e.recordRateWindow cfg chatId message.senderId
      e.applyFirst cfg (some rateCount) message rules
    else e.applyFirst cfg none message rules

end Engine

/-- What the engine is given. -/
inductive Event where
  | disable (chatIds : List ℤ)
  | message (message : Message)
  | chatAction (ev : ChatActionEvent)

namespace Engine

/-- One event after the other. -/
def handle (cfg : Setup) (e : Engine) : Event → Engine
  | .disable chatIds => e.disableChats chatIds
  | .message message => e.processMessage cfg message
  | .chatAction ev => e.onChatAction cfg ev

/-- A whole stream. -/
def run (cfg : Setup) (events : List Event) : Engine := events.foldl (handle cfg) {}

end Engine

end TgMessenger.Moderation
