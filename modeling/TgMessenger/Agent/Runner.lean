import TgMessenger.Agent.Orchestrator
import TgMessenger.Core.Dialogs

/-!
# The agent

`AgentRunner` (`agent/runner.py`) answers the messages that come in, one after the other: it asks
the orchestrator for a reply, and sends it.
-/

namespace TgMessenger.Agent

/-- `ERROR_NOTICE`. -/
def errorNotice : String := "Sorry, something went wrong while processing your message."

/-- `AgentRunner`, when its allowlist has been resolved. -/
structure AgentRunner (κ : Type) where
  orchestrator : Orchestrator κ
  /-- `None` is everyone. -/
  allowed : Option (List ℤ)
  notifyErrors : Bool := false
  /-- `base64.b64encode(data).decode("ascii")`. -/
  b64encode : List UInt8 → String

/-- `IncomingEvent`. -/
structure IncomingEvent where
  dialogId : ℤ
  message : Message

/-- `{d.username.lower(): d.id for d in dialogs if d.username}`, the newest entry first. -/
def byUsername (lower : String → String) (dialogs : List Dialog) : List (String × ℤ) :=
  (dialogs.filterMap fun d ↦
    match d.username with
    | some name => if name = "" then none else some (lower name, d.id)
    | none => none).reverse

/-- `_resolve_allowed_ids`. -/
def resolveAllowedIds (host : Host) (cfg : AgentConfig) (dialogs : List Dialog) : List ℤ :=
  cfg.allowIds ++ cfg.allowUsernames.filterMap fun name ↦
    (byUsername host.lower dialogs).lookup name

/-- `run`, before it listens. -/
def prepare (host : Host) (cfg : AgentConfig) (dialogs : List Dialog) : Option (List ℤ) :=
  if cfg.allowAll then none else some (resolveAllowedIds host cfg dialogs)

namespace AgentRunner

variable {κ : Type}

/-- `declared > MAX_IMAGE_BYTES`. -/
def tooLarge (message : Message) : Bool :=
  match message.media.bind MediaRef.size with
  | some declared => (maxImageBytes : ℤ) < declared
  | none => false

/-- `download_image`: an exception is `none`. -/
def downloadImage (r : AgentRunner κ) (dialogId : ℤ) (message : Message) (out : Outside) :
    Option (Option ImageInput) × List Effect :=
  if tooLarge message then (some none, [])
  else
    let effects := [.download dialogId message.id]
    match out.download with
    | .raises => (none, effects)
    | .noMedia => (some none, effects)
    | .file data =>
      if maxImageBytes < data.length then (some none, effects)
      else
        let mime := (message.media.bind MediaRef.mimeType).filter (· ≠ "")
        (some (some ⟨r.b64encode data, mime.getD "image/jpeg"⟩), effects)

/-- The filters of `_handle_event`. -/
def answers (r : AgentRunner κ) (ev : IncomingEvent) : Bool :=
  !ev.message.out && (match r.allowed with
    | some allowed => ev.message.senderId ∈ allowed
    | none => true) &&
  (match ev.message.media.map MediaRef.kind with
    | some .voice => false
    | some .photo => true
    | _ => ev.message.text.any (· ≠ ""))

/-- The `except` branch. -/
def fail (r : AgentRunner κ) (dialogId : ℤ) : List Effect :=
  if r.notifyErrors then [.send dialogId errorNotice] else []

/-- The call of the orchestrator, and the reply. -/
def reply (r : AgentRunner κ) (ev : IncomingEvent) (image : Option ImageInput) (out : Outside)
    (memory : Memory κ) : List Effect × Memory κ :=
  match r.orchestrator.handle ev.dialogId (ev.message.text.getD "") image out memory with
  | (some reply, effects, memory) =>
    (effects ++ [.send ev.dialogId reply] ++ (if out.sent then [] else r.fail ev.dialogId), memory)
  | (none, effects, memory) => (effects ++ r.fail ev.dialogId, memory)

/-- `_handle_event`. -/
def handleEvent (r : AgentRunner κ) (ev : IncomingEvent) (out : Outside) (memory : Memory κ) :
    List Effect × Memory κ :=
  if !r.answers ev then ([], memory)
  else
    let typing : Effect := .typing ev.dialogId
    if ev.message.media.map MediaRef.kind = some .photo then
      match r.downloadImage ev.dialogId ev.message out with
      | (none, effects) => (typing :: effects ++ r.fail ev.dialogId, memory)
      | (some none, effects) => (typing :: effects, memory)
      | (some (some image), effects) =>
        let (effects', memory) := r.reply ev (some image) out memory
        (typing :: effects ++ effects', memory)
    else
      let (effects, memory) := r.reply ev none out memory
      (typing :: effects, memory)

/-- The loop of `run`: each event with the calls made for it. -/
def run (r : AgentRunner κ) : List (IncomingEvent × Outside) → Memory κ →
    List (IncomingEvent × List Effect) × Memory κ
  | [], memory => ([], memory)
  | (ev, out) :: events, memory =>
    let (effects, memory) := r.handleEvent ev out memory
    let (trace, memory) := r.run events memory
    ((ev, effects) :: trace, memory)

end AgentRunner

end TgMessenger.Agent
