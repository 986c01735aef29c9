import TgMessenger.Agent.Runner
import TgMessenger.Data.Integers

/-!
# The histories of the agent

Whatever the models and the network do, a model sees the history of the dialog with the message that
has come in behind it, and the history of a dialog is the text of its messages and of the replies
that were sent to it.
-/

namespace TgMessenger.Agent

/-! ## One run of the graph -/

namespace Orchestrator

variable {κ : Type} {o : Orchestrator κ} {out : Outside} {history : List BaseMessage}
  {text : String} {image : Option ImageInput}

/-- The text of a message in the history. -/
def prompt (text : String) (image : Option ImageInput) : String :=
  match image with
  | none => text
  | some _ => placeholder text

/-- The call of a node that answers. -/
def asks (o : Orchestrator κ) (messages : List BaseMessage) : Node → Effect
  | .task => .task messages
  | .custom spec =>
    match spec.pipeline with
    | .task => .task (o.prefixInstruction messages spec.systemPrompt)
    | .chat => .chat (o.prefixInstruction messages spec.systemPrompt)
  | _ => .chat messages

/-- The calls that are made for a message: the classifier sees its text, the node that the answer
leads to sees the history and the text, and the vision model sees the history and the photo. -/
inductive Asked (o : Orchestrator κ) (out : Outside) (history : List BaseMessage) (text : String) :
    Option ImageInput → Effect → Prop where
  | classifier : Asked o out history text none (.classify (.text text))
  | node {intent : String} {node : Node} (hintent : out.classified = some intent)
    (hnode : o.node? (o.classify intent) = some node) :
    Asked o out history text none (o.asks (history ++ [.human (.text text)]) node)
  | vision (image : ImageInput) :
    Asked o out history text (some image) (.vision (history ++ [multimodal text image]))

/-- The call is one to a model that answers. -/
def isAnswering : Effect → Bool
  | .chat _ | .task _ | .vision _ => true
  | _ => false

/-- The call is a message to a dialog. -/
def isSend : Effect → Bool
  | .send .. => true
  | _ => false

/-- The text, with the instruction of an intent in front of it or without. -/
def Instructed (o : Orchestrator κ) (text instructed : String) : Prop :=
  instructed = text ∨ ∃ spec ∈ o.intents, ∃ systemPrompt ∈ spec.systemPrompt,
    instructed = systemPrompt ++ "\n\n" ++ text

theorem prefixInstruction_concat (o : Orchestrator κ) (history : List BaseMessage) (text : String)
    {spec : IntentSpec} (hspec : spec ∈ o.intents) : ∃ instructed, o.Instructed text instructed ∧
      o.prefixInstruction (history ++ [.human (.text text)]) spec.systemPrompt =
        history ++ [.human (.text instructed)] := by
  unfold prefixInstruction
  rw [List.getLast?_concat]
  cases hprompt : spec.systemPrompt with
  | none => exact ⟨text, .inl rfl, rfl⟩
  | some systemPrompt =>
    dsimp only
    split_ifs
    · exact ⟨text, .inl rfl, rfl⟩
    · rw [List.dropLast_concat]
      exact ⟨_, .inr ⟨spec, hspec, systemPrompt, hprompt, rfl⟩, rfl⟩

/-- What a model that answers with a text sees. -/
theorem asks_concat (history : List BaseMessage) (text : String) {name : String} {node : Node}
    (hnode : o.node? name = some node) :
    ∃ instructed, o.Instructed text instructed ∧
      (o.asks (history ++ [.human (.text text)]) node =
          .chat (history ++ [.human (.text instructed)]) ∨
        o.asks (history ++ [.human (.text text)]) node =
          .task (history ++ [.human (.text instructed)])) := by
  rw [node?] at hnode
  split_ifs at hnode
  · obtain rfl := Option.some.inj hnode
    exact ⟨text, .inl rfl, .inl rfl⟩
  · obtain rfl := Option.some.inj hnode
    exact ⟨text, .inl rfl, .inr rfl⟩
  · obtain ⟨spec, hfind, rfl⟩ := Option.map_eq_some_iff.mp hnode
    obtain ⟨instructed, hinstructed, hprefix⟩ :=
      o.prefixInstruction_concat history text (List.mem_of_find?_eq_some hfind)
    refine ⟨instructed, hinstructed, ?_⟩
    rw [asks, ← hprefix]
    cases spec.pipeline with
    | chat => exact .inl rfl
    | task => exact .inr rfl

/-- The classifier sees the text; a model that answers sees the history, and behind it the text,
perhaps with an instruction, or the photo. -/
def Sees (o : Orchestrator κ) (history : List BaseMessage) (text : String)
    (image : Option ImageInput) : Effect → Prop
  | .classify content => image = none ∧ content = .text text
  | .chat messages | .task messages => image = none ∧ ∃ instructed,
    o.Instructed text instructed ∧ messages = history ++ [.human (.text instructed)]
  | .vision messages => ∃ photo, image = some photo ∧
    messages = history ++ [multimodal text photo]
  | .typing _ | .download _ _ | .send _ _ => False

theorem Asked.sees {e : Effect} (h : Asked o out history text image e) :
    Sees o history text image e := by
  cases h with
  | classifier => exact ⟨rfl, rfl⟩
  | node hintent hnode =>
    obtain ⟨instructed, hinstructed, hasks | hasks⟩ := asks_concat history text hnode
    · rw [hasks]
      exact ⟨rfl, instructed, hinstructed, rfl⟩
    · rw [hasks]
      exact ⟨rfl, instructed, hinstructed, rfl⟩
  | vision photo => exact ⟨photo, rfl, rfl⟩

/-- What a model says always leads to a node. -/
theorem exists_node? (o : Orchestrator κ) (intent : String) :
    ∃ node, o.node? (o.classify intent) = some node := by
  have hroutes : o.classify intent ∈ o.routes := by
    rw [classify]
    split_ifs with h
    · exact h
    · exact List.mem_cons_self
  generalize o.classify intent = name at hroutes
  rw [node?]
  split_ifs with hchat htask
  · exact ⟨_, rfl⟩
  · exact ⟨_, rfl⟩
  · obtain rfl | hroutes := List.mem_cons.mp hroutes
    · exact absurd rfl hchat
    obtain rfl | hroutes := List.mem_cons.mp hroutes
    · exact absurd rfl htask
    obtain ⟨spec, hspec, rfl⟩ := List.mem_map.mp hroutes
    have hsome : (o.intents.find? fun spec' ↦ spec'.name = spec.name).isSome :=
      List.find?_isSome.mpr ⟨spec, hspec, decide_eq_true rfl⟩
    obtain ⟨found, hfound⟩ := Option.isSome_iff_exists.mp hsome
    exact ⟨.custom found, congrArg (Option.map Node.custom) hfound⟩

/-- A node that the classifier leads to makes its call, answers, and is the last. -/
theorem node_of_node? (out : Outside) {name : String} {node : Node}
    (hnode : o.node? name = some node) (pending : Option BaseMessage) (s : OrchestratorState) :
    (o.graph out pending).node node s = ([o.asks s.messages node], out.answered.map answer) ∧
      ∀ s', (o.graph out pending).next node s' = some none := by
  rw [node?] at hnode
  split_ifs at hnode
  · obtain rfl := Option.some.inj hnode
    exact ⟨rfl, fun _ ↦ rfl⟩
  · obtain rfl := Option.some.inj hnode
    exact ⟨rfl, fun _ ↦ rfl⟩
  · obtain ⟨spec, -, rfl⟩ := Option.map_eq_some_iff.mp hnode
    refine ⟨?_, fun _ ↦ rfl⟩
    show o.node out pending (.custom spec) s = _
    rw [Orchestrator.node, asks]
    cases spec.pipeline <;> rfl

/-- The course of a run: the calls it makes, and the histories it goes through. -/
structure Course (o : Orchestrator κ) (out : Outside) (history : List BaseMessage) (text : String)
    (image : Option ImageInput) (run : StateGraph.Run OrchestratorState Effect) : Prop where
  asked : ∀ e ∈ run.calls, Asked o out history text image e
  one : run.calls.countP isAnswering ≤ 1
  last : ∀ s ∈ run.last, ∃ reply, out.answered = some reply ∧ s.reply = some reply ∧
    s.messages = history ++ [.human (.text (prompt text image)), .ai reply]
  raised : run.last = none → ∀ s ∈ run.states,
    s.messages = history ++ [.human (.text (prompt text image))]
  answered : (image = none → out.classified.isSome) → out.answered.isSome → run.last ≠ none

/-- The node that answers. -/
theorem course_answer (hgraph : o.LangGraph)
    {G : StateGraph Node OrchestratorState StateUpdate Effect}
    {node : Node} {s : OrchestratorState} {e : Effect} (limit : ℕ)
    (hs : s.messages = history ++ [.human (.text (prompt text image))])
    (hnode : G.node node s = ([e], out.answered.map answer))
    (hnext : ∀ s', G.next node s' = some none) (he : Asked o out history text image e) :
    Course o out history text image (G.run o.engine.merge (limit + 1) node s) := by
  have hone : [e].countP isAnswering ≤ 1 := List.countP_le_length
  have hasked : ∀ e' ∈ [e], Asked o out history text image e' := by
    intro e' he'
    rwa [List.mem_singleton.mp he']
  cases hanswered : out.answered with
  | none =>
    rw [hanswered] at hnode
    rw [StateGraph.run_of_raises hnode]
    refine ⟨hasked, hone, nofun, fun _ ↦ nofun, fun _ hsome ↦ ?_⟩
    rw [hanswered] at hsome
    cases hsome
  | some reply =>
    rw [hanswered] at hnode
    rw [StateGraph.run_of_end hnode (hnext _)]
    refine ⟨hasked, hone, ?_, nofun, fun _ _ ↦ nofun⟩
    rintro s' hs'
    obtain rfl := Option.some.inj hs'
    refine ⟨reply, hanswered, ?_, ?_⟩
    · rw [hgraph.merge]
      rfl
    · rw [hgraph.merge]
      show s.messages ++ [.ai reply] = _
      rw [hs, List.append_assoc]
      rfl

/-- A run for a text. -/
theorem course_text (hgraph : o.LangGraph) (pending : Option BaseMessage) {s : OrchestratorState}
    (limit : ℕ) (hs : s.messages = history ++ [.human (.text text)]) :
    Course o out history text none
      ((o.graph out pending).run o.engine.merge (limit + 2) .classify s) := by
  have hlast : s.messages.getLast? = some (.human (.text text)) := by
    rw [hs, List.getLast?_concat]
  have hnode : (o.graph out pending).node .classify s = ([.classify (.text text)],
      out.classified.map fun intent ↦ { intent := some (o.classify intent) }) := by
    show o.node out pending .classify s = _
    rw [Orchestrator.node, hlast]
    rfl
  have hasked : ∀ e ∈ [Effect.classify (.text text)], Asked o out history text none e := by
    intro e he
    rw [List.mem_singleton.mp he]
    exact .classifier
  cases hintent : out.classified with
  | none =>
    rw [hintent] at hnode
    rw [StateGraph.run_of_raises hnode]
    refine ⟨hasked, Nat.zero_le _, nofun, fun _ ↦ nofun, fun hsome ↦ ?_⟩
    have hsome := hsome rfl
    rw [hintent] at hsome
    cases hsome
  | some intent =>
    rw [hintent] at hnode
    obtain ⟨node, hfound⟩ := o.exists_node? intent
    generalize hmerged : o.engine.merge s { intent := some (o.classify intent) } = s'
    have hs' := (hgraph.merge s _).symm.trans hmerged
    have hnext : (o.graph out pending).next .classify s' = some (some node) := by
      rw [← hs']
      show ((some (o.classify intent)).bind o.node?).map some = _
      rw [Option.bind_some, hfound]
      rfl
    have hmessages : s'.messages = history ++ [.human (.text text)] := by
      rw [← hs', ← hs]
      exact List.append_nil _
    obtain ⟨hanswer, hend⟩ := node_of_node? out hfound pending s'
    rw [hmessages] at hanswer
    have hrest : Course o out history text none
        ((o.graph out pending).run o.engine.merge (limit + 1) node s') :=
      course_answer hgraph limit hmessages hanswer hend (.node hintent hfound)
    rw [StateGraph.run_of_next hnode (hmerged ▸ hnext)]
    rw [hmerged]
    refine ⟨?_, ?_, hrest.last, ?_, hrest.answered⟩
    · intro e he
      exact (List.mem_append.mp he).elim (hasked e) (hrest.asked e)
    · rw [List.countP_append]
      exact (Nat.zero_add _).trans_le hrest.one
    · intro hraised s hs
      rcases List.mem_cons.mp hs with rfl | hs
      · exact hmessages
      · exact hrest.raised hraised s hs

/-- A run for a photo, whose message is at hand. -/
theorem course_image (hgraph : o.LangGraph) (image : ImageInput) {s : OrchestratorState}
    (limit : ℕ) (hs : s.messages = history ++ [.human (.text (placeholder text))]) :
    Course o out history text (some image)
      ((o.graph out (some (multimodal text image))).run o.engine.merge (limit + 1) .vision s) := by
  refine course_answer hgraph limit hs ?_ (fun _ ↦ rfl) (.vision image)
  show ([Effect.vision (s.messages.dropLast ++ [multimodal text image])], _) = _
  rw [hs, List.dropLast_concat]

/-! ## One message -/

/-- What comes of one message: it is kept with its reply, or alone, or not at all. -/
structure Turn (o : Orchestrator κ) (out : Outside) (history : List BaseMessage) (text : String)
    (image : Option ImageInput) (reply : Option String) (effects : List Effect)
    (history' : List BaseMessage) : Prop where
  asked : ∀ e ∈ effects, Asked o out history text image e
  one : effects.countP isAnswering ≤ 1
  kept : ∀ a ∈ reply, history' = history ++ [.human (.text (prompt text image)), .ai a]
  dropped : reply = none →
    history' = history ∨ history' = history ++ [.human (.text (prompt text image))]
  answered : (image = none → out.classified.isSome) → (image.isSome → o.hasVision = true) →
    ∀ a ∈ out.answered, reply = some a

/-- What the engine makes of the course of a run. -/
theorem turn_of_course (hgraph : o.LangGraph)
    {G : StateGraph Node OrchestratorState StateUpdate Effect} {thread : String}
    {input : StateUpdate} {store : κ}
    (hinput : input.messages = [.human (.text (prompt text image))])
    (hcourse : Course o out (o.engine.state store thread).messages text image
      (o.engine.started G thread input store)) :
    Turn o out (o.engine.state store thread).messages text image
      ((o.engine.invoke G thread input store).1.bind OrchestratorState.reply)
      (o.engine.invoke G thread input store).2.1
      (o.engine.state (o.engine.invoke G thread input store).2.2 thread).messages := by
  obtain ⟨hcalls, hlast, hkept, hraised, -⟩ := hgraph.documented
  have hcalls := hcalls G thread input store
  have hlast := hlast G thread input store
  have hkept := hkept G thread input store
  have hraised := hraised G thread input store
  have hone := hcourse.one
  rw [← hcalls] at hone
  cases hresult : (o.engine.invoke G thread input store).1 with
  | some s =>
    rw [hresult] at hlast
    obtain ⟨reply, hanswered, hreply, hmessages⟩ := hcourse.last s hlast.symm
    refine ⟨fun e he ↦ hcourse.asked e (hcalls ▸ he), hone, ?_, ?_, ?_⟩
    · rintro a ha
      obtain rfl : reply = a := Option.some.inj (hreply.symm.trans ha)
      rw [hkept s hresult, hmessages]
    · intro hnone
      exact absurd (hreply.symm.trans hnone) (Option.some_ne_none _)
    · rintro - - a ha
      exact hreply.trans (hanswered.symm.trans ha)
  | none =>
    rw [hresult] at hlast
    refine ⟨fun e he ↦ hcourse.asked e (hcalls ▸ he), hone, nofun, fun _ ↦ ?_, ?_⟩
    · rcases List.mem_cons.mp (hraised hresult) with hsame | hstate
      · exact .inl (congrArg OrchestratorState.messages hsame)
      · right
        rcases List.mem_cons.mp hstate with hstarted | hstate
        · rw [hstarted, hgraph.merge, OrchestratorState.updated, hinput]
        · exact hcourse.raised hlast.symm _ hstate
    · intro hclassified _ a ha
      refine absurd hlast.symm (hcourse.answered hclassified ?_)
      rw [Option.mem_def.mp ha]
      rfl

variable {dialogId : ℤ} {memory : Memory κ}

theorem turn_handle (hgraph : o.LangGraph) (dialogId : ℤ) (text : String)
    (image : Option ImageInput) (out : Outside) (memory : Memory κ) :
    Turn o out (o.history memory dialogId) text image (o.handle dialogId text image out memory).1
      (o.handle dialogId text image out memory).2.1
      (o.history (o.handle dialogId text image out memory).2.2 dialogId) := by
  obtain ⟨limit, hlimit⟩ := Nat.exists_eq_add_of_le' hgraph.limit
  cases image with
  | none =>
    refine turn_of_course hgraph rfl ?_
    rw [Engine.started, hlimit, hgraph.merge]
    exact course_text hgraph _ limit rfl
  | some image =>
    unfold handle
    dsimp only
    split_ifs with hvision
    · rw [Bool.not_eq_true', ← Bool.not_eq_true] at hvision
      exact ⟨fun _ he ↦ absurd he List.not_mem_nil, Nat.zero_le _,
        fun _ hreply ↦ absurd hreply (Option.not_mem_none _), fun _ ↦ .inl rfl,
        fun _ hvision' ↦ absurd (hvision' rfl) hvision⟩
    · refine turn_of_course hgraph rfl ?_
      rw [OrderedDict.get?_set_self, Engine.started, hlimit, hgraph.merge]
      exact course_image hgraph image (limit + 1) rfl

/-- A message touches no other history. -/
theorem state_handle_of_ne (hgraph : o.LangGraph) (text : String) (image : Option ImageInput)
    (out : Outside) (memory : Memory κ) {threadId : String} (h : threadId ≠ dialogId.repr) :
    o.engine.state (o.handle dialogId text image out memory).2.2.store threadId =
      o.engine.state memory.store threadId := by
  cases image with
  | none => exact hgraph.documented.others _ _ _ _ _ h
  | some image =>
    unfold handle
    dsimp only
    split_ifs
    · rfl
    · exact hgraph.documented.others _ _ _ _ _ h

/-- No image is left when a message has been handled. -/
theorem pendingImages_handle (o : Orchestrator κ) (dialogId : ℤ) (text : String)
    (image : Option ImageInput) (out : Outside)
    (h : ∀ threadId, memory.pendingImages.get? threadId = none) (threadId : String) :
    (o.handle dialogId text image out memory).2.2.pendingImages.get? threadId = none := by
  cases image with
  | none => exact h threadId
  | some image =>
    unfold handle
    dsimp only
    split_ifs
    · exact h threadId
    · dsimp only
      rw [OrderedDict.get?_erase]
      split_ifs with hk
      · rfl
      · rw [OrderedDict.get?_set_ne _ _ hk]
        exact h threadId

/-- A call for a message is not sent to a dialog. -/
theorem Asked.quiet {e : Effect} (h : Asked o out history text image e) : isSend e = false := by
  cases e with
  | send => exact h.sees.elim
  | _ => rfl

end Orchestrator

/-! ## One event -/

namespace AgentRunner

open Orchestrator (Asked Turn prompt multimodal isAnswering isSend)

variable {κ : Type} {r : AgentRunner κ} {ev : IncomingEvent} {out : Outside} {memory : Memory κ}
  {history history' : List BaseMessage}

/-- The photo that an event brings. -/
def photo (r : AgentRunner κ) (ev : IncomingEvent) (out : Outside) : Option ImageInput :=
  if ev.message.media.map MediaRef.kind = some .photo then
    (r.downloadImage ev.dialogId ev.message out).1.join
  else none

/-- A call that is made for an event. -/
inductive Made (r : AgentRunner κ) (ev : IncomingEvent) (out : Outside)
    (history : List BaseMessage) (reply : Option String) : Effect → Prop where
  | typing : Made r ev out history reply (.typing ev.dialogId)
  | download : Made r ev out history reply (.download ev.dialogId ev.message.id)
  | asked {e : Effect}
    (h : Asked r.orchestrator out history (ev.message.text.getD "") (r.photo ev out) e)
    (hsees : r.orchestrator.Sees history (ev.message.text.getD "") (r.photo ev out) e) :
    Made r ev out history reply e
  | reply {a : String} (h : reply = some a) : Made r ev out history reply (.send ev.dialogId a)
  | notice : Made r ev out history reply (.send ev.dialogId errorNotice)

/-- What is needed for a reply: the event passes the filters, and the classifier answers, or the
photo was downloaded and there is a vision model. -/
def Works (r : AgentRunner κ) (ev : IncomingEvent) (out : Outside) : Prop :=
  r.answers ev = true ∧
    if ev.message.media.map MediaRef.kind = some .photo then
      r.orchestrator.hasVision = true ∧ (r.photo ev out).isSome = true
    else out.classified.isSome = true

/-- What is done for an event, and what is kept of it. -/
structure Answered (r : AgentRunner κ) (ev : IncomingEvent) (out : Outside)
    (history : List BaseMessage) (reply : Option String) (effects : List Effect)
    (history' : List BaseMessage) : Prop where
  made : ∀ e ∈ effects, Made r ev out history reply e
  one : effects.countP isAnswering ≤ 1
  few : effects.countP isSend ≤ 2
  kept : ∀ a ∈ reply, .send ev.dialogId a ∈ effects ∧ history' = history ++
    [.human (.text (prompt (ev.message.text.getD "") (r.photo ev out))), .ai a]
  dropped : reply = none → history' = history ∨ history' = history ++
    [.human (.text (prompt (ev.message.text.getD "") (r.photo ev out)))]
  answered : r.Works ev out → ∀ a ∈ out.answered, reply = some a

/-- What is done before the orchestrator is asked. -/
theorem made_download (r : AgentRunner κ) (ev : IncomingEvent) (out : Outside)
    (history : List BaseMessage) (reply : Option String) :
    ∀ e ∈ Effect.typing ev.dialogId :: (r.downloadImage ev.dialogId ev.message out).2,
      Made r ev out history reply e ∧ isAnswering e = false ∧ isSend e = false := by
  have hdownload : ∀ e ∈ (r.downloadImage ev.dialogId ev.message out).2,
      e = .download ev.dialogId ev.message.id := by
    intro e he
    rw [downloadImage] at he
    split_ifs at he
    · cases he
    · dsimp only at he
      have hsame : e ∈ [Effect.download ev.dialogId ev.message.id] := by
        split at he
        · exact he
        · exact he
        · split_ifs at he
          · exact he
          · exact he
      exact List.mem_singleton.mp hsame
  intro e he
  rcases List.mem_cons.mp he with rfl | he
  · exact ⟨.typing, rfl, rfl⟩
  · rw [hdownload e he]
    exact ⟨.download, rfl, rfl⟩

theorem mem_fail {dialogId : ℤ} {e : Effect} (h : e ∈ r.fail dialogId) :
    e = .send dialogId errorNotice := by
  rw [fail] at h
  split_ifs at h
  · exact List.mem_singleton.mp h
  · cases h

theorem length_fail_le (r : AgentRunner κ) (dialogId : ℤ) : (r.fail dialogId).length ≤ 1 := by
  rw [fail]
  split_ifs
  · exact le_refl _
  · exact Nat.zero_le _

theorem countP_eq_zero_of_forall {p : Effect → Bool} {l : List Effect} (h : ∀ e ∈ l, p e = false) :
    l.countP p = 0 :=
  List.countP_eq_zero.mpr fun e he ↦ Bool.eq_false_iff.mp (h e he)

/-- What is done before changes nothing. -/
theorem Answered.after {reply : Option String} {before effects : List Effect}
    (h : Answered r ev out history reply effects history')
    (hbefore : ∀ e ∈ before, Made r ev out history reply e ∧ isAnswering e = false ∧
      isSend e = false) : Answered r ev out history reply (before ++ effects) history' := by
  refine { h with made := ?_, one := ?_, few := ?_, kept := ?_ }
  · exact fun e he ↦ (List.mem_append.mp he).elim (fun he ↦ (hbefore e he).1) (h.made e)
  · rw [List.countP_append, countP_eq_zero_of_forall fun e he ↦ (hbefore e he).2.1, Nat.zero_add]
    exact h.one
  · rw [List.countP_append, countP_eq_zero_of_forall fun e he ↦ (hbefore e he).2.2, Nat.zero_add]
    exact h.few
  · exact fun a ha ↦ ⟨List.mem_append_right _ (h.kept a ha).1, (h.kept a ha).2⟩

/-- The notice of an error, and nothing kept. -/
theorem answered_fail (hworks : ¬r.Works ev out) :
    Answered r ev out history none (r.fail ev.dialogId) history where
  made e he := by
    rw [mem_fail he]
    exact .notice
  one := List.countP_le_length.trans (r.length_fail_le ev.dialogId)
  few := List.countP_le_length.trans ((r.length_fail_le ev.dialogId).trans (Nat.le_succ 1))
  kept := nofun
  dropped _ := .inl rfl
  answered h := absurd h hworks

theorem answered_nil (hworks : ¬r.Works ev out) :
    Answered r ev out history none [] history :=
  ⟨fun _ ↦ nofun, Nat.zero_le _, Nat.zero_le _, nofun, fun _ ↦ .inl rfl, fun h ↦ absurd h hworks⟩

/-- The calls of the orchestrator, and what is sent after them. -/
theorem answered_sends {reply : Option String} {effects sends : List Effect}
    (hturn : Turn r.orchestrator out history (ev.message.text.getD "") (r.photo ev out) reply
      effects history')
    (hworks : r.Works ev out → (r.photo ev out = none → out.classified.isSome) ∧
      ((r.photo ev out).isSome → r.orchestrator.hasVision = true))
    (hsends : ∀ e ∈ sends, some e = reply.map (.send ev.dialogId ·) ∨
      e = .send ev.dialogId errorNotice)
    (hfew : sends.length ≤ 2) (hsent : ∀ a ∈ reply, .send ev.dialogId a ∈ sends) :
    Answered r ev out history reply (effects ++ sends) history' where
  made e he := by
    rcases List.mem_append.mp he with he | he
    · exact .asked (hturn.asked e he) (hturn.asked e he).sees
    · rcases hsends e he with hreply | rfl
      · obtain ⟨a, ha, rfl⟩ := Option.map_eq_some_iff.mp hreply.symm
        exact .reply ha
      · exact .notice
  one := by
    have hnone : sends.countP isAnswering = 0 := by
      refine countP_eq_zero_of_forall fun e he ↦ ?_
      rcases hsends e he with hreply | rfl
      · obtain ⟨a, -, rfl⟩ := Option.map_eq_some_iff.mp hreply.symm
        rfl
      · rfl
    rw [List.countP_append, hnone]
    exact hturn.one
  few := by
    rw [List.countP_append, countP_eq_zero_of_forall fun e he ↦ (hturn.asked e he).quiet,
      Nat.zero_add]
    exact List.countP_le_length.trans hfew
  kept a ha := ⟨List.mem_append_right _ (hsent a ha), hturn.kept a ha⟩
  dropped := hturn.dropped
  answered h := hturn.answered (hworks h).1 (hworks h).2

/-- The call of the orchestrator, the reply and the notice. -/
theorem answered_reply (hgraph : r.orchestrator.LangGraph) (memory : Memory κ)
    (hworks : r.Works ev out → (r.photo ev out = none → out.classified.isSome) ∧
      ((r.photo ev out).isSome → r.orchestrator.hasVision = true)) :
    ∃ reply, Answered r ev out (r.orchestrator.history memory ev.dialogId) reply
      (r.reply ev (r.photo ev out) out memory).1
      (r.orchestrator.history (r.reply ev (r.photo ev out) out memory).2 ev.dialogId) := by
  have hturn := Orchestrator.turn_handle hgraph ev.dialogId (ev.message.text.getD "")
    (r.photo ev out) out memory
  have hfail := r.length_fail_le ev.dialogId
  rw [reply]
  split
  next reply effects memory' hhandle =>
    rw [hhandle] at hturn
    rw [List.append_assoc]
    refine ⟨some reply, answered_sends hturn hworks ?_ ?_ fun a ha ↦ ?_⟩
    · intro e he
      rcases List.mem_cons.mp he with rfl | he
      · exact .inl rfl
      · split_ifs at he
        · cases he
        · exact .inr (mem_fail he)
    · rw [List.length_append, List.length_singleton]
      split_ifs
      · exact Nat.le_succ 1
      · exact Nat.add_le_add_left hfail 1
    · obtain rfl := Option.some.inj ha
      exact List.mem_append_left _ (List.mem_singleton_self _)
  next effects memory' hhandle =>
    rw [hhandle] at hturn
    exact ⟨none, answered_sends hturn hworks (fun e he ↦ .inr (mem_fail he))
      (hfail.trans (Nat.le_succ 1)) nofun⟩

theorem answered_handleEvent (hgraph : r.orchestrator.LangGraph) (ev : IncomingEvent)
    (out : Outside) (memory : Memory κ) :
    ∃ reply, Answered r ev out (r.orchestrator.history memory ev.dialogId) reply
      (r.handleEvent ev out memory).1
      (r.orchestrator.history (r.handleEvent ev out memory).2 ev.dialogId) := by
  rw [handleEvent]
  split_ifs with hanswers hphoto
  · refine ⟨none, answered_nil fun hworks ↦ ?_⟩
    rw [hworks.1] at hanswers
    cases hanswers
  · have hnone (hphoto' : r.photo ev out = none) : ¬r.Works ev out := by
      rintro ⟨-, hworks⟩
      rw [if_pos hphoto, hphoto'] at hworks
      cases hworks.2
    have himage : r.photo ev out = (r.downloadImage ev.dialogId ev.message out).1.join :=
      if_pos hphoto
    have hmade := r.made_download ev out (r.orchestrator.history memory ev.dialogId)
    dsimp only
    split
    next effects hdownload =>
      rw [hdownload] at hmade himage
      exact ⟨none, (answered_fail (hnone himage)).after (hmade none)⟩
    next effects hdownload =>
      rw [hdownload] at hmade himage
      have hafter := (answered_nil (hnone himage)).after (hmade none)
      rw [List.append_nil] at hafter
      exact ⟨none, hafter⟩
    next image effects hdownload =>
      rw [hdownload] at hmade himage
      have hworks : r.Works ev out → (r.photo ev out = none → out.classified.isSome) ∧
          ((r.photo ev out).isSome → r.orchestrator.hasVision = true) := by
        rintro ⟨-, hworks⟩
        rw [if_pos hphoto] at hworks
        rw [himage]
        exact ⟨nofun, fun _ ↦ hworks.1⟩
      obtain ⟨reply, hreply⟩ := answered_reply hgraph memory hworks
      have hafter := hreply.after (hmade reply)
      rw [himage] at hafter
      exact ⟨reply, hafter⟩
  · have himage : r.photo ev out = none := if_neg hphoto
    have hworks : r.Works ev out → (r.photo ev out = none → out.classified.isSome) ∧
        ((r.photo ev out).isSome → r.orchestrator.hasVision = true) := by
      rintro ⟨-, hworks⟩
      rw [if_neg hphoto] at hworks
      rw [himage]
      exact ⟨fun _ ↦ hworks, nofun⟩
    obtain ⟨reply, hreply⟩ := answered_reply hgraph memory hworks
    rw [himage] at hreply
    have htyping : ∀ e ∈ [Effect.typing ev.dialogId],
        Made r ev out (r.orchestrator.history memory ev.dialogId) reply e ∧
          isAnswering e = false ∧ isSend e = false := by
      intro e he
      rw [List.mem_singleton.mp he]
      exact ⟨.typing, rfl, rfl⟩
    exact ⟨reply, hreply.after htyping⟩

/-- An event that does not pass the filters costs nothing. -/
theorem handleEvent_of_not_answers (out : Outside) (memory : Memory κ) (h : r.answers ev = false) :
    r.handleEvent ev out memory = ([], memory) := by
  rw [handleEvent, if_pos (by rw [h]; rfl)]

/-- An event that passes them is worked on. -/
theorem typing_mem_handleEvent (out : Outside) (memory : Memory κ) (h : r.answers ev = true) :
    .typing ev.dialogId ∈ (r.handleEvent ev out memory).1 := by
  rw [handleEvent, if_neg (by rw [h]; exact Bool.false_ne_true)]
  split_ifs
  · dsimp only
    split
    · exact List.mem_cons_self
    · exact List.mem_cons_self
    · exact List.mem_cons_self
  · exact List.mem_cons_self

/-- What the handling of an event does to the memory, it does in one call of the orchestrator. -/
theorem memory_handleEvent (r : AgentRunner κ) (ev : IncomingEvent) (out : Outside)
    (memory : Memory κ) : (r.handleEvent ev out memory).2 = memory ∨ ∃ image,
      (r.handleEvent ev out memory).2 =
        (r.orchestrator.handle ev.dialogId (ev.message.text.getD "") image out memory).2.2 := by
  have hreply (image : Option ImageInput) : (r.reply ev image out memory).2 =
      (r.orchestrator.handle ev.dialogId (ev.message.text.getD "") image out memory).2.2 := by
    rw [reply]
    split
    next hhandle => rw [hhandle]
    next hhandle => rw [hhandle]
  rw [handleEvent]
  split_ifs
  · exact .inl rfl
  · dsimp only
    split
    · exact .inl rfl
    · exact .inl rfl
    next image effects _ => exact .inr ⟨some image, hreply (some image)⟩
  · exact .inr ⟨none, hreply none⟩

/-! ## Every run -/

theorem run_cons (r : AgentRunner κ) (ev : IncomingEvent) (out : Outside)
    (events : List (IncomingEvent × Outside)) (memory : Memory κ) :
    r.run ((ev, out) :: events) memory =
      ((ev, (r.handleEvent ev out memory).1) :: (r.run events (r.handleEvent ev out memory).2).1,
        (r.run events (r.handleEvent ev out memory).2).2) := rfl

/-- Texts, and replies that are directly behind the text they answer. -/
inductive Spoken : List BaseMessage → Prop where
  | nil : Spoken []
  | heard {history : List BaseMessage} (text : String) (h : Spoken history) :
    Spoken (history ++ [.human (.text text)])
  | answered {history : List BaseMessage} (text reply : String) (h : Spoken history) :
    Spoken (history ++ [.human (.text text), .ai reply])

theorem Spoken.answer {reply : Option String} {effects : List Effect} (h : Spoken history)
    (hanswered : Answered r ev out history reply effects history') : Spoken history' := by
  cases reply with
  | some reply =>
    rw [(hanswered.kept reply rfl).2]
    exact h.answered _ reply
  | none =>
    obtain rfl | rfl := hanswered.dropped rfl
    · exact h
    · exact h.heard _

/-- What holds between two events. -/
structure Tidy (o : Orchestrator κ) (memory : Memory κ) : Prop where
  spoken : ∀ dialogId, Spoken (o.history memory dialogId)
  noImages : ∀ threadId, memory.pendingImages.get? threadId = none

/-- The history of another dialog stays as it is. -/
theorem history_handleEvent_of_ne (hgraph : r.orchestrator.LangGraph) (out : Outside)
    (memory : Memory κ) {dialogId : ℤ} (h : dialogId ≠ ev.dialogId) :
    r.orchestrator.history (r.handleEvent ev out memory).2 dialogId =
      r.orchestrator.history memory dialogId := by
  obtain hsame | ⟨image, hhandle⟩ := r.memory_handleEvent ev out memory
  · rw [hsame]
  · rw [hhandle, Orchestrator.history,
      Orchestrator.state_handle_of_ne hgraph _ image out memory fun heq ↦ h (repr_injective heq)]
    rfl

theorem Tidy.handleEvent (hgraph : r.orchestrator.LangGraph) (h : Tidy r.orchestrator memory)
    (ev : IncomingEvent) (out : Outside) :
    Tidy r.orchestrator (r.handleEvent ev out memory).2 := by
  constructor
  case spoken =>
    intro dialogId
    by_cases hdialog : dialogId = ev.dialogId
    · obtain ⟨reply, hanswered⟩ := answered_handleEvent hgraph ev out memory
      rw [hdialog]
      exact (h.spoken _).answer hanswered
    · rw [history_handleEvent_of_ne hgraph out memory hdialog]
      exact h.spoken dialogId
  case noImages =>
    obtain hsame | ⟨image, hhandle⟩ := r.memory_handleEvent ev out memory
    · rw [hsame]
      exact h.noImages
    · rw [hhandle]
      exact r.orchestrator.pendingImages_handle ev.dialogId _ image out h.noImages

theorem Tidy.run (hgraph : r.orchestrator.LangGraph) (h : Tidy r.orchestrator memory)
    (events : List (IncomingEvent × Outside)) :
    Tidy r.orchestrator (r.run events memory).2 := by
  induction events generalizing memory with
  | nil => exact h
  | cons event events ih =>
    obtain ⟨ev, out⟩ := event
    exact ih (h.handleEvent hgraph ev out)

/-- After every run the histories are texts, with replies directly behind the texts they answer,
and no image is left.  Whatever comes next, the calls are those for the dialog, its history and what
has come in: the classifier sees the text, and a model the history with the text or the photo behind
it; what is kept is the text, perhaps, or the text with the reply that is sent; when nothing that is
needed fails there is a reply; and the other histories stay as they are. -/
theorem run_answered (hgraph : r.orchestrator.LangGraph) (store : κ)
    (hnew : ∀ threadId, (r.orchestrator.engine.state store threadId).messages = [])
    (events : List (IncomingEvent × Outside)) (ev : IncomingEvent) (out : Outside) :
    let memory := (r.run events ⟨store, .empty⟩).2
    let effects := (r.handleEvent ev out memory).1
    let memory' := (r.handleEvent ev out memory).2
    Tidy r.orchestrator memory ∧
      (∃ reply, Answered r ev out (r.orchestrator.history memory ev.dialogId) reply effects
        (r.orchestrator.history memory' ev.dialogId)) ∧
      ∀ dialogId ≠ ev.dialogId,
        r.orchestrator.history memory' dialogId = r.orchestrator.history memory dialogId := by
  have htidy : Tidy r.orchestrator (⟨store, .empty⟩ : Memory κ) := by
    refine ⟨fun dialogId ↦ ?_, fun _ ↦ rfl⟩
    rw [Orchestrator.history, hnew]
    exact .nil
  exact ⟨htidy.run hgraph events, answered_handleEvent hgraph ev out _,
    fun dialogId hdialog ↦ history_handleEvent_of_ne hgraph out _ hdialog⟩

/-- An orchestrator with the intent `order`, over an engine that keeps the histories in memory. -/
def ordering : Orchestrator (String → OrchestratorState) where
  intents := [⟨"order", "An order.", .task, some "Take the order."⟩]
  printBlocks _ := ""
  engine := .inMemory 25 OrchestratorState.updated

theorem langGraph_ordering : ordering.LangGraph :=
  ⟨Engine.documented_inMemory 25 _, fun _ _ ↦ rfl, by decide⟩

def ann : IncomingEvent where
  dialogId := 5
  message := { id := 1, dialogId := 5, senderId := 5, out := false, date := "",
               text := some "tea" }

/-- Ann orders. -/
theorem run_answered_ann :
    let r : AgentRunner (String → OrchestratorState) := ⟨ordering, none, false, fun _ ↦ ""⟩
    let out : Outside := { classified := some "order", answered := some "Done." }
    ∃ reply, Answered r ann out [] reply
      [.typing 5, .classify (.text "tea"),
        .task [.human (.text "Take the order.\n\ntea")], .send 5 "Done."]
      [.human (.text "tea"), .ai "Done."] := by
  intro r out
  exact (run_answered (r := r) langGraph_ordering (fun _ ↦ {}) (fun _ ↦ rfl) [] ann
    out).2.1

end AgentRunner

end TgMessenger.Agent
