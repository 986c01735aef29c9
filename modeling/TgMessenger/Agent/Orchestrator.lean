import TgMessenger.Agent.Config
import TgMessenger.Core.Models
import TgMessenger.Data.OrderedDict
import TgMessenger.Data.StateGraph

/-!
# The graph of the agent

`Orchestrator` (`agent/orchestrator.py`) has the graph that a message goes through: `vision` for a
photo, else `classify` and then `chat`, `task` or the node of an intent.  LangGraph, which runs the
graph and keeps the histories, is a parameter: an engine, and what is relied on of it.

What is outside (the models, the network) is an argument of the handling of an event: what comes
back from each call, or that it raises.
-/

namespace TgMessenger.Agent

/-! ## Messages -/

/-- `IMAGE_PLACEHOLDER`. -/
def imagePlaceholder : String := "[image]"

/-- `MAX_IMAGE_BYTES`. -/
def maxImageBytes : ℕ := 10000000

/-- `ImageInput`. -/
structure ImageInput where
  base64Data : String
  mimeType : String
deriving DecidableEq

/-- A block of a multimodal message. -/
inductive Block where
  | text (s : String)
  | image (image : ImageInput)
deriving DecidableEq

/-- The content of a message. -/
inductive Content where
  | text (s : String)
  | blocks (blocks : List Block)
deriving DecidableEq

/-- `HumanMessage`, `AIMessage`. -/
inductive BaseMessage where
  | human (content : Content)
  | ai (reply : String)
deriving DecidableEq

/-- `message.content`. -/
def BaseMessage.content : BaseMessage → Content
  | .human content => content
  | .ai reply => .text reply

/-! ## What is outside -/

/-- What comes of `download_message_media`. -/
inductive Download where
  | raises
  | noMedia
  | file (data : List UInt8)

/-- What the calls that are made for one event come to; `none` is an exception. -/
structure Outside where
  download : Download := .raises
  classified : Option String := none
  /-- What `chat_fn`, the task agent or `vision_fn` says. -/
  answered : Option String := none
  /-- `send_text` of the reply does not raise. -/
  sent : Bool := true

/-- A call to the outside. -/
inductive Effect where
  | typing (dialogId : ℤ)
  | download (dialogId messageId : ℤ)
  | classify (text : Content)
  | chat (messages : List BaseMessage)
  | task (messages : List BaseMessage)
  | vision (messages : List BaseMessage)
  | send (dialogId : ℤ) (text : String)
deriving DecidableEq

/-! ## The graph -/

/-- `OrchestratorState`. -/
structure OrchestratorState where
  messages : List BaseMessage := []
  intent : Option String := none
  reply : Option String := none
  hasImage : Bool := false
deriving DecidableEq

/-- What a node returns, and what a run is started with. -/
structure StateUpdate where
  messages : List BaseMessage := []
  intent : Option String := none
  reply : Option String := none
  hasImage : Option Bool := none

/-- The reducers of a `MessagesState`: messages are added, the other keys replaced. -/
def OrchestratorState.updated (s : OrchestratorState) (update : StateUpdate) :
    OrchestratorState where
  messages := s.messages ++ update.messages
  intent := update.intent.or s.intent
  reply := update.reply.or s.reply
  hasImage := update.hasImage.getD s.hasImage

inductive Node where
  | classify | vision | chat | task
  | /-- The node of an intent. -/
    custom (spec : IntentSpec)
deriving DecidableEq

/-- `Orchestrator`, with what `graph.compile` gives. -/
structure Orchestrator (κ : Type) where
  intents : List IntentSpec := []
  /-- There is a `vision_fn`. -/
  hasVision : Bool := true
  /-- `str` of a list of blocks. -/
  printBlocks : List Block → String
  engine : Engine κ Node OrchestratorState StateUpdate Effect

/-- What the checkpointer has, and `_pending_images`. -/
structure Memory (κ : Type) where
  store : κ
  pendingImages : OrderedDict String BaseMessage := .empty

namespace Orchestrator

variable {κ : Type} (o : Orchestrator κ)

/-- The history of a dialog: the thread has its id, as a text. -/
def history (memory : Memory κ) (dialogId : ℤ) : List BaseMessage :=
  (o.engine.state memory.store dialogId.repr).messages

/-- `self._routes`. -/
def routes : List String := "chat" :: "task" :: o.intents.map IntentSpec.name

/-- `_classify`: the intent of a message that the classifier has put into one. -/
def classify (intent : String) : String := if intent ∈ o.routes then intent else "chat"

/-- The node that the edge from `classify` leads to; there is none under another name. -/
def node? (intent : String) : Option Node :=
  if intent = "chat" then some .chat
  else if intent = "task" then some .task
  else (o.intents.find? fun spec ↦ spec.name = intent).map .custom

/-- `f"{content}"`. -/
def printContent : Content → String
  | .text s => s
  | .blocks blocks => o.printBlocks blocks

/-- `_prefix_instruction`. -/
def prefixInstruction (messages : List BaseMessage) (systemPrompt : Option String) :
    List BaseMessage :=
  match systemPrompt, messages.getLast? with
  | some systemPrompt, some last =>
    if systemPrompt = "" then messages
    else
      messages.dropLast ++
        [.human (.text (systemPrompt ++ "\n\n" ++ o.printContent last.content))]
  | _, _ => messages

/-- A node has its reply. -/
def answer (reply : String) : StateUpdate := { messages := [.ai reply], reply := some reply }

/-- The nodes; `pending` is the message that `_vision` pops. -/
def node (out : Outside) (pending : Option BaseMessage) :
    Node → OrchestratorState → List Effect × Option StateUpdate
  | .classify, s =>
    match s.messages.getLast? with
    | none => ([], none)
    | some last =>
      ([.classify last.content], out.classified.map fun intent ↦
        { intent := some (o.classify intent) })
  | .vision, s =>
    match pending with
    -- the `RuntimeError`
    | none => ([], none)
    | some multimodal =>
      ([.vision (s.messages.dropLast ++ [multimodal])], out.answered.map answer)
  | .chat, s => ([.chat s.messages], out.answered.map answer)
  | .task, s => ([.task s.messages], out.answered.map answer)
  | .custom spec, s =>
    let messages := o.prefixInstruction s.messages spec.systemPrompt
    match spec.pipeline with
    | .task => ([.task messages], out.answered.map answer)
    | .chat => ([.chat messages], out.answered.map answer)

/-- The edges. -/
def next : Node → OrchestratorState → Option (Option Node)
  -- the `KeyError` of an intent that has no node
  | .classify, s => (s.intent.bind o.node?).map some
  | .vision, _ | .chat, _ | .task, _ | .custom _, _ => some none

/-- `self._graph`, for one message. -/
def graph (out : Outside) (pending : Option BaseMessage) :
    StateGraph Node OrchestratorState StateUpdate Effect where
  entry s := if s.hasImage then .vision else .classify
  node := o.node out pending
  next := o.next

/-- The text that stands for a photo in the history. -/
def placeholder (text : String) : String :=
  if text = "" then imagePlaceholder else strip (imagePlaceholder ++ " " ++ text)

/-- The multimodal message of a photo. -/
def multimodal (text : String) (image : ImageInput) : BaseMessage :=
  .human (.blocks ((if text = "" then [] else [.text text]) ++ [.image image]))

/-- `handle`: the reply unless it raises, the calls, and the memory after it. -/
def handle (dialogId : ℤ) (text : String) (image : Option ImageInput) (out : Outside)
    (memory : Memory κ) : Option String × List Effect × Memory κ :=
  let threadId := dialogId.repr
  match image with
  | none =>
    let (result, effects, store) :=
      o.engine.invoke (o.graph out (memory.pendingImages.get? threadId)) threadId
        { messages := [.human (.text text)], hasImage := some false } memory.store
    (result.bind OrchestratorState.reply, effects, { memory with store })
  | some image =>
    if !o.hasVision then (none, [], memory)
    else
      let pendingImages := memory.pendingImages.set threadId (multimodal text image)
      let (result, effects, store) :=
        o.engine.invoke (o.graph out (pendingImages.get? threadId)) threadId
          { messages := [.human (.text (placeholder text))], hasImage := some true } memory.store
      -- `_vision` pops the message, and the `finally` pops it again
      (result.bind OrchestratorState.reply, effects, ⟨store, pendingImages.erase threadId⟩)

/-- What is relied on of LangGraph. -/
structure LangGraph : Prop where
  documented : o.engine.Documented
  merge : ∀ s update, o.engine.merge s update = s.updated update
  /-- A run may have two nodes. -/
  limit : 2 ≤ o.engine.limit

end Orchestrator

end TgMessenger.Agent
