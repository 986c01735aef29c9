import TgMessenger.Core.Models
import TgMessenger.Data.Machine
import TgMessenger.Data.OrderedDict
import TgMessenger.Data.Text
import Mathlib.Logic.Function.Basic

/-!
# The outbound send coordinator

`OutboundSendCoordinator` (`agent/outbound_coordinator.py`) hands out a token with the
variants of a translated draft and takes it back when one of them is sent.  A token is
marked while the send is under way, dropped when it succeeded and unmarked when it failed.

The lock of the coordinator is never held across a suspension, so each of the four token
operations is one uninterrupted step.  `send_variant` suspends in the send only, `prepare`
in the translation only.
-/

namespace TgMessenger.Outbound

/-- The constructor arguments the token store uses. -/
structure Setup where
  /-- `token_ttl`. -/
  tokenTtl : Time
  /-- `token_max`. -/
  tokenMax : ℤ
  /-- The readings of the clock. -/
  clock : ℕ → Time

/-- `self._token_max`. -/
def Setup.cap (cfg : Setup) : ℕ := (max 1 cfg.tokenMax).toNat

/-- `_TokenEntry`. -/
structure TokenEntry where
  dialogId : ℤ
  ownerId : String
  sourceText : String
  variants : List String
  expiresAt : Time
  /-- Marked before the send. -/
  sending : Bool := false
deriving DecidableEq

/-- `PrepareResult`. -/
structure PrepareResult (T : Type) where
  status : String
  targetLang : Option String := none
  variants : List String := []
  token : Option T := none
  error : Option String := none

/-- How the translation of a draft ends. -/
inductive Translation where
  | timeout
  | failure
  | notApplicable
  | translated (targetLang : String) (variants : List String)

/-- The token store. -/
structure Coordinator (T : Type) where
  /-- `_tokens`. -/
  tokens : OrderedDict T TokenEntry
  /-- How often the clock was read. -/
  ticks : ℕ

namespace Coordinator

variable {T : Type}

/-- A new coordinator. -/
def init : Coordinator T := ⟨.empty, 0⟩

/-- `self._clock()`; the clock is the sequence of its readings. -/
def readClock (cfg : Setup) (s : Coordinator T) : Time × Coordinator T :=
  (cfg.clock s.ticks, { s with ticks := s.ticks + 1 })

/-- The first half of `_prune`: expired tokens go, unless they are being sent. -/
def pruneExpired (now : Time) (tokens : OrderedDict T TokenEntry) : OrderedDict T TokenEntry :=
  tokens.retain fun e ↦ ¬(e.2.expiresAt ≤ now ∧ e.2.sending = false)

variable [DecidableEq T]

/-- The second half of `_prune`: the oldest token that is not being sent goes while there
are too many.  The second argument bounds the number of iterations. -/
def pruneSize (cap : ℕ) : ℕ → OrderedDict T TokenEntry → OrderedDict T TokenEntry
  | 0, tokens => tokens
  | fuel + 1, tokens =>
    if cap < tokens.size then
      match tokens.items.find? fun e ↦ !e.2.sending with
      | some e => pruneSize cap fuel (tokens.erase e.1)
      | none => tokens
    else tokens

/-- `_prune`. -/
def prune (cfg : Setup) (now : Time) (tokens : OrderedDict T TokenEntry) :
    OrderedDict T TokenEntry :=
  let tokens := pruneExpired now tokens
  pruneSize cfg.cap tokens.size tokens

/-- `_remember_token`; `token` is what `secrets.token_urlsafe` returns. -/
def rememberToken (cfg : Setup) (token : T) (dialogId : ℤ) (ownerId sourceText : String)
    (variants : List String) (s : Coordinator T) : Coordinator T :=
  let (now, s) := s.readClock cfg
  let tokens := prune cfg now s.tokens
  let entry : TokenEntry :=
    { dialogId, ownerId, sourceText, variants, expiresAt := now + cfg.tokenTtl }
  { s with tokens := prune cfg now ((tokens.set token entry).moveToEnd token) }

/-- `_mark_sending`. -/
def markSending (cfg : Setup) (token : T) (dialogId : ℤ) (ownerId variantText : String)
    (s : Coordinator T) : Except String TokenEntry × Coordinator T :=
  let (now, s) := s.readClock cfg
  match s.tokens.get? token with
  | none => (.error "outbound selection expired", s)
  | some entry =>
    if entry.expiresAt ≤ now then
      (.error "outbound selection expired", { s with tokens := s.tokens.erase token })
    else if entry.sending then (.error "outbound send already in progress", s)
    else if entry.dialogId ≠ dialogId then
      (.error "outbound token does not match this dialog", s)
    else if entry.ownerId ≠ ownerId then
      (.error "outbound token does not match this client", s)
    else if variantText ∉ entry.variants then
      (.error "text is not one of the offered variants", s)
    else
      let entry := { entry with sending := true }
      (.ok entry, { s with tokens := s.tokens.set token entry })

/-- `_consume_token`. -/
def consumeToken (token : T) (s : Coordinator T) : Coordinator T :=
  { s with tokens := s.tokens.erase token }

/-- `_restore_token`. -/
def restoreToken (token : T) (s : Coordinator T) : Coordinator T :=
  match s.tokens.get? token with
  | some entry => { s with tokens := s.tokens.set token { entry with sending := false } }
  | none => s

/-- `prepare`, from the end of the translation on; `none` stands for a coordinator without
a translator. -/
def prepare (cfg : Setup) (outbound : Option Translation) (token : T) (dialogId : ℤ)
    (draftText ownerId : String) (s : Coordinator T) : PrepareResult T × Coordinator T :=
  if isBlank draftText then ({ status := "invalid_empty" }, s)
  else
    match outbound with
    | none => ({ status := "disabled" }, s)
    | some .timeout => ({ status := "error", error := some "Translation timed out." }, s)
    | some .failure => ({ status := "error", error := some "Translation failed." }, s)
    | some .notApplicable => ({ status := "not_applicable" }, s)
    | some (.translated targetLang variants) =>
      ({ status := "ready", targetLang := some targetLang, variants, token := some token },
        s.rememberToken cfg token dialogId ownerId draftText variants)

end Coordinator

/-! ## Concurrent calls -/

/-- A send of the client. -/
structure Send (T : Type) where
  token : T
  dialogId : ℤ
  ownerId : String
  text : String
deriving DecidableEq

/-- Where a call of `send_variant` stands. -/
inductive Status (T : Type) where
  | idle
  | /-- In the send of the client. -/
    sending (send : Send T)
  | ended
deriving DecidableEq

/-- A coordinator with its calls. -/
structure World (T : Type) where
  store : Coordinator T
  status : ℕ → Status T
  /-- What each token was issued with. -/
  issued : T → Option TokenEntry
  /-- The tokens of the sends that succeeded, latest first. -/
  sent : List T

/-- What can happen to a coordinator. -/
inductive Event (T : Type) where
  | /-- A call of `prepare` ends. -/
    prepare (outbound : Option Translation) (token : T) (dialogId : ℤ) (draftText ownerId : String)
  | /-- A call of `send_variant` starts. -/
    sendVariant (t : ℕ) (send : Send T)
  | /-- The send of a call succeeds. -/
    delivered (t : ℕ)
  | /-- The send of a call raises, or is cancelled. -/
    failed (t : ℕ)

namespace World

variable {T : Type} [DecidableEq T]

/-- A new coordinator. -/
def init : World T := ⟨.init, fun _ ↦ .idle, fun _ ↦ none, []⟩

/-- What an event does.  A token is never issued twice. -/
def step (cfg : Setup) : Machine (World T) (Event T) := fun w e ↦
  match e with
  | .prepare outbound token dialogId draftText ownerId =>
    if w.issued token = none then
      let r := w.store.prepare cfg outbound token dialogId draftText ownerId
      some { w with
        store := r.2
        issued := Function.update w.issued token (r.1.token.map fun _ ↦
          { dialogId, ownerId, sourceText := draftText, variants := r.1.variants
            expiresAt := cfg.clock w.store.ticks + cfg.tokenTtl }) }
    else none
  | .sendVariant t send =>
    match w.status t with
    | .idle =>
      match w.store.markSending cfg send.token send.dialogId send.ownerId send.text with
      | (.ok _, store) =>
        some { w with store, status := Function.update w.status t (.sending send) }
      | (.error _, store) => some { w with store, status := Function.update w.status t .ended }
    | _ => none
  | .delivered t =>
    match w.status t with
    | .sending send =>
      some { w with
        store := w.store.consumeToken send.token
        status := Function.update w.status t .ended
        sent := send.token :: w.sent }
    | _ => none
  | .failed t =>
    match w.status t with
    | .sending send =>
      some { w with
        store := w.store.restoreToken send.token
        status := Function.update w.status t .ended }
    | _ => none

end World

end TgMessenger.Outbound
