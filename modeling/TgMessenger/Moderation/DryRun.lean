import TgMessenger.Moderation.Engine
import TgMessenger.Data.Text

/-!
# Dry runs

Two engines that differ in `enforce`, and in which calls of the client fail, go through a
stream in step: what matching reads and keeps is the same in both, and so are their journals
but for the mark of a failed action.
-/

namespace TgMessenger.Moderation

/-- The same engine, with or without `enforce`, and with these failures. -/
def Setup.mode (cfg : Setup) (enforce : Bool) (fails : ℕ → Bool) : Setup :=
  { cfg with enforce := enforce, fails := fails }

/-- Chat, message, rule and action. -/
def Entry.written (entry : Entry) : ℤ × ℤ × String × String :=
  (entry.chatId, entry.messageId, entry.ruleName, entry.action)

/-- Chat, message, rule and action, without the mark of a failure. -/
def Entry.decision (entry : Entry) : ℤ × ℤ × String × String :=
  (entry.chatId, entry.messageId, entry.ruleName, removeSuffix ":failed" entry.action)

/-- No action has a name that looks like a failed one's. -/
theorem unmarked_of_mem_steps {rule : ModerationRule} {message : Message}
    {step : String × ClientCall} (h : step ∈ rule.steps message) :
    removeSuffix ":failed" step.1 = step.1 := by
  have hnames : ∀ name ∈ ["warn", "mute", "ban", "delete"],
      removeSuffix ":failed" name = name := by decide
  apply hnames
  simp only [ModerationRule.steps, List.mem_append] at h
  rcases h with ((h | h) | h) | h <;> split at h
  all_goals simp_all

/-- The same for matching, with the same decisions in the journal. -/
structure Engine.Alike (e e' : Engine) : Prop where
  blockedChats : e.blockedChats = e'.blockedChats
  joined : e.joined = e'.joined
  rate : e.rate = e'.rate
  rules : e.rules = e'.rules
  readings : e.readings = e'.readings
  journal : e.journal.map Entry.decision = e'.journal.map Entry.decision

/-- The same answer, and alike after it. -/
def Engine.Agree {α : Type} (r r' : α × Engine) : Prop := r.1 = r'.1 ∧ Engine.Alike r.2 r'.2

namespace Engine

/-- The decision is in the journal, whatever became of the action. -/
theorem decisions_doAction (cfg : Setup) (e : Engine) (rule : ModerationRule) (message : Message)
    {action : String} (haction : removeSuffix ":failed" action = action) (call : ClientCall) :
    (e.doAction cfg rule message action call).journal.map Entry.decision =
      e.journal.map Entry.decision ++ [(message.dialogId, message.id, rule.name, action)] := by
  have hwritten (e : Engine) (text : String) (dryRun : Bool)
      (htext : removeSuffix ":failed" text = action) :
      (e.writeJournal rule message text dryRun).journal.map Entry.decision =
        e.journal.map Entry.decision ++ [(message.dialogId, message.id, rule.name, action)] := by
    rw [writeJournal, List.map_append, List.map_singleton, Entry.decision, htext]
  rw [doAction]
  split_ifs
  · exact hwritten e action true haction
  · exact hwritten _ _ false (removeSuffix_append action ":failed")
  · exact hwritten _ action false haction

/-- An action is no matter of matching. -/
theorem matching_doAction (cfg : Setup) (e : Engine) (rule : ModerationRule) (message : Message)
    (action : String) (call : ClientCall) :
    ∃ journal calls, e.doAction cfg rule message action call =
      { e with journal := journal, calls := calls } := by
  rw [doAction]
  split_ifs
  · exact ⟨_, e.calls, rfl⟩
  · exact ⟨_, _, rfl⟩
  · exact ⟨_, _, rfl⟩

end Engine

namespace Engine.Alike

variable {cfg : Setup} {enforce enforce' : Bool} {fails fails' : ℕ → Bool} {e e' : Engine}

theorem refl (e : Engine) : Alike e e := ⟨rfl, rfl, rfl, rfl, rfl, rfl⟩

theorem readClock (h : Alike e e') :
    Agree (e.readClock (cfg.mode enforce fails)) (e'.readClock (cfg.mode enforce' fails')) :=
  ⟨congrArg cfg.clock h.readings, { h with readings := congrArg (· + 1) h.readings }⟩

/-- Both write the action down, the one as failed perhaps. -/
theorem doAction (h : Alike e e') (rule : ModerationRule) (message : Message) {action : String}
    (haction : removeSuffix ":failed" action = action) (call : ClientCall) :
    Alike (e.doAction (cfg.mode enforce fails) rule message action call)
      (e'.doAction (cfg.mode enforce' fails') rule message action call) := by
  have hdecisions := decisions_doAction (cfg.mode enforce fails) e rule message haction call
  have hdecisions' := decisions_doAction (cfg.mode enforce' fails') e' rule message haction call
  obtain ⟨journal, calls, heq⟩ :=
    matching_doAction (cfg.mode enforce fails) e rule message action call
  obtain ⟨journal', calls', heq'⟩ :=
    matching_doAction (cfg.mode enforce' fails') e' rule message action call
  rw [heq] at hdecisions ⊢
  rw [heq'] at hdecisions' ⊢
  refine { h with journal := ?_ }
  rw [hdecisions, hdecisions', h.journal]

theorem apply (h : Alike e e') (rule : ModerationRule) (message : Message) :
    Alike (e.apply (cfg.mode enforce fails) rule message)
      (e'.apply (cfg.mode enforce' fails') rule message) := by
  refine List.foldl_rel h ?_
  intro step hstep e e' h
  exact h.doAction rule message (unmarked_of_mem_steps hstep) step.2

theorem isNewMember (h : Alike e e') (chatId userId within : ℤ) :
    Agree (e.isNewMember (cfg.mode enforce fails) chatId userId within)
      (e'.isNewMember (cfg.mode enforce' fails') chatId userId within) := by
  rw [Engine.isNewMember, Engine.isNewMember, ← h.joined]
  cases e.joined.get? (chatId, userId) with
  | none => exact ⟨rfl, h⟩
  | some joinedAt =>
    obtain ⟨hnow, hafter⟩ := h.readClock
    refine ⟨?_, hafter⟩
    show decide _ = decide _
    rw [hnow]

theorem recordRateWindow (h : Alike e e') (chatId senderId : ℤ) :
    Agree (e.recordRateWindow (cfg.mode enforce fails) chatId senderId)
      (e'.recordRateWindow (cfg.mode enforce' fails') chatId senderId) := by
  obtain ⟨hnow, hafter⟩ := @readClock cfg enforce enforce' fails fails' e e' h
  simp only [Engine.recordRateWindow, hnow, hafter.rate]
  exact ⟨rfl, { hafter with rate := rfl }⟩

theorem rulesForChat (h : Alike e e') (chatId : ℤ) :
    Agree (e.rulesForChat (cfg.mode enforce fails) chatId)
      (e'.rulesForChat (cfg.mode enforce' fails') chatId) := by
  simp only [Engine.rulesForChat, h.rules]
  exact ⟨rfl, { h with rules := rfl }⟩

theorem newMember (h : Alike e e') (rule : ModerationRule) (message : Message) :
    Agree (e.newMember (cfg.mode enforce fails) rule message)
      (e'.newMember (cfg.mode enforce' fails') rule message) := by
  unfold Engine.newMember
  cases rule.conditions.fromNewMemberWithinSec with
  | none => exact ⟨rfl, h⟩
  | some within => exact h.isNewMember message.dialogId message.senderId within

theorem applyFirst (h : Alike e e') (rateCount : Option ℕ) (message : Message)
    (rules : List ModerationRule) :
    Alike (e.applyFirst (cfg.mode enforce fails) rateCount message rules)
      (e'.applyFirst (cfg.mode enforce' fails') rateCount message rules) := by
  induction rules generalizing e e' with
  | nil => exact h
  | cons rule rules ih =>
    rw [Engine.applyFirst, Engine.applyFirst]
    split
    · exact ih h
    · have hmember := @newMember cfg enforce enforce' fails fails' e e' h rule message
      revert hmember
      generalize e.newMember (cfg.mode enforce fails) rule message = r
      generalize e'.newMember (cfg.mode enforce' fails') rule message = r'
      obtain ⟨isNew, e₁⟩ := r
      obtain ⟨isNew', e₁'⟩ := r'
      rintro ⟨heq, hafter⟩
      obtain rfl : isNew = isNew' := heq
      have hre : (cfg.mode enforce fails).re = (cfg.mode enforce' fails').re := rfl
      dsimp only
      rw [hre]
      split_ifs
      · exact hafter.apply rule message
      · exact ih hafter

theorem processMessage (h : Alike e e') (message : Message) :
    Alike (e.processMessage (cfg.mode enforce fails) message)
      (e'.processMessage (cfg.mode enforce' fails') message) := by
  have hrules := @rulesForChat cfg enforce enforce' fails fails' e e' h message.dialogId
  dsimp only [Engine.processMessage]
  rw [h.blockedChats]
  split
  · exact h
  · revert hrules
    generalize e.rulesForChat (cfg.mode enforce fails) message.dialogId = r
    generalize e'.rulesForChat (cfg.mode enforce' fails') message.dialogId = r'
    obtain ⟨rules, e₁⟩ := r
    obtain ⟨rules', e₁'⟩ := r'
    rintro ⟨heq, hafter⟩
    obtain rfl : rules = rules' := heq
    dsimp only
    split
    · obtain ⟨hcount, hafter⟩ := @recordRateWindow cfg enforce enforce' fails fails' _ _ hafter
        message.dialogId message.senderId
      rw [hcount]
      exact hafter.applyFirst _ message rules
    · exact hafter.applyFirst none message rules

theorem onChatAction (h : Alike e e') (ev : ChatActionEvent) :
    Alike (e.onChatAction (cfg.mode enforce fails) ev)
      (e'.onChatAction (cfg.mode enforce' fails') ev) := by
  unfold Engine.onChatAction
  split
  · obtain ⟨hnow, hafter⟩ := @readClock cfg enforce enforce' fails fails' e e' h
    simp only [hnow, hafter.joined]
    exact { hafter with joined := rfl }
  · exact h

theorem handle (h : Alike e e') (event : Event) :
    Alike (e.handle (cfg.mode enforce fails) event)
      (e'.handle (cfg.mode enforce' fails') event) := by
  cases event with
  | disable chatIds => exact { h with blockedChats := congrArg (· ++ chatIds) h.blockedChats }
  | message message => exact h.processMessage message
  | chatAction ev => exact h.onChatAction ev

theorem run (cfg : Setup) (enforce enforce' : Bool) (fails fails' : ℕ → Bool)
    (events : List Event) :
    Alike (Engine.run (cfg.mode enforce fails) events)
      (Engine.run (cfg.mode enforce' fails') events) :=
  List.foldl_rel (.refl _) fun event _ _ _ h ↦ h.handle event

end Engine.Alike

/-! ## Without `enforce` -/

/-- Nothing is called, and nothing is marked as failed. -/
structure Engine.Harmless (e : Engine) : Prop where
  calls : e.calls = []
  unmarked : ∀ entry ∈ e.journal, removeSuffix ":failed" entry.action = entry.action

namespace Engine.Harmless

variable {cfg : Setup} {e : Engine}

theorem doAction (h : Harmless e) (hdry : cfg.enforce = false) (rule : ModerationRule)
    (message : Message) {action : String} (haction : removeSuffix ":failed" action = action)
    (call : ClientCall) : Harmless (e.doAction cfg rule message action call) := by
  rw [Engine.doAction, hdry]
  refine ⟨h.calls, ?_⟩
  intro entry hentry
  rcases List.mem_append.mp hentry with hold | hnew
  · exact h.unmarked entry hold
  · rw [List.mem_singleton.mp hnew]
    exact haction

theorem apply (h : Harmless e) (hdry : cfg.enforce = false) (rule : ModerationRule)
    (message : Message) : Harmless (e.apply cfg rule message) := by
  refine List.foldlRecOn _ _ h ?_
  intro e h step hstep
  exact h.doAction hdry rule message (unmarked_of_mem_steps hstep) step.2

theorem newMember (h : Harmless e) (rule : ModerationRule) (message : Message) :
    Harmless (e.newMember cfg rule message).2 := by
  unfold Engine.newMember
  cases rule.conditions.fromNewMemberWithinSec with
  | none => exact h
  | some within =>
    dsimp only [isNewMember]
    cases e.joined.get? (message.dialogId, message.senderId) with
    | none => exact h
    | some joinedAt => exact ⟨h.calls, h.unmarked⟩

theorem applyFirst (h : Harmless e) (hdry : cfg.enforce = false) (rateCount : Option ℕ)
    (message : Message) (rules : List ModerationRule) :
    Harmless (e.applyFirst cfg rateCount message rules) := by
  induction rules generalizing e with
  | nil => exact h
  | cons rule rules ih =>
    rw [Engine.applyFirst]
    split
    · exact ih h
    · dsimp only
      split
      · exact (h.newMember rule message).apply hdry rule message
      · exact ih (h.newMember rule message)

theorem handle (h : Harmless e) (hdry : cfg.enforce = false) (event : Event) :
    Harmless (e.handle cfg event) := by
  cases event with
  | disable chatIds => exact ⟨h.calls, h.unmarked⟩
  | message message =>
    dsimp only [Engine.handle, processMessage]
    split
    · exact h
    · split
      · refine applyFirst ?_ hdry _ message _
        exact ⟨h.calls, h.unmarked⟩
      · refine applyFirst ?_ hdry _ message _
        exact ⟨h.calls, h.unmarked⟩
  | chatAction ev =>
    dsimp only [Engine.handle, onChatAction]
    split
    · exact ⟨h.calls, h.unmarked⟩
    · exact h

theorem run (hdry : cfg.enforce = false) (events : List Event) :
    Harmless (Engine.run cfg events) := by
  refine List.foldlRecOn _ _ ⟨rfl, fun _ hentry ↦ absurd hentry List.not_mem_nil⟩ ?_
  intro e h event _
  exact h.handle hdry event

end Engine.Harmless

/-- A dry run calls nothing, writes down what the run with `enforce` decides whatever fails
there, and keeps the same windows and members. -/
theorem dry_run_faithful (cfg : Setup) (fails fails' : ℕ → Bool) (events : List Event) :
    let dry := Engine.run (cfg.mode false fails) events
    let enforced := Engine.run (cfg.mode true fails') events
    dry.calls = [] ∧ dry.journal.map Entry.written = enforced.journal.map Entry.decision ∧
      dry.Alike enforced := by
  have halike := Engine.Alike.run cfg false true fails fails' events
  have hharmless := @Engine.Harmless.run (cfg.mode false fails) rfl events
  refine ⟨hharmless.calls, ?_, halike⟩
  rw [← halike.journal]
  apply List.map_congr_left
  intro entry hentry
  rw [Entry.decision, hharmless.unmarked entry hentry, Entry.written]

end TgMessenger.Moderation
