import TgMessenger.Ghostwrite.Dialogs
import TgMessenger.Data.Machine
import TgMessenger.Data.OrderedDict
import TgMessenger.Data.Text
import Mathlib.Logic.Function.Basic
import Mathlib.Tactic.SplitIfs

/-!
# The ghostwrite engine

`GhostwriteEngine` (`agent/ghostwrite.py`) answers incoming messages with one task and
watches outgoing messages with another.  Every statement on the database is an operation of
its own: a task issues it, the statement takes effect, and the task goes on with its result
at some later moment; between these other tasks and other processes run.

An outgoing message of a human pauses the dialog (`Takeover`).  What arrives while a reply
is being sent to the same dialog is put aside and looked at when the reply has its id.
-/

namespace TgMessenger.Ghostwrite

/-- The constructor arguments. -/
structure Setup where
  enforce : Bool
  maxPerHour : ℕ
  pauseOnHumanSec : Time
  ownCacheSize : ℕ
  maxRateDialogs : ℕ

/-- `RATE_WINDOW_SEC`. -/
def rateWindowSec : Time := 3600

/-- A dialog and a message id in it. -/
abbrev Key := ℤ × ℤ

/-- An incoming message, as far as `process_incoming` reads it. -/
structure Incoming where
  dialogId : ℤ
  id : ℤ
  out : Bool
deriving DecidableEq

/-- An `OutgoingEvent`: the dialog and the id of its message. -/
structure OutgoingEvent where
  dialogId : ℤ
  messageId : ℤ
deriving DecidableEq

/-- The key under which an outgoing message is looked up. -/
def OutgoingEvent.key (e : OutgoingEvent) : Key := (e.dialogId, e.messageId)

/-! ## Checks and takeovers -/

/-- One evaluation of `is_active`. -/
structure Check where
  dialogId : ℤ
  /-- The reading of the clock it was given. -/
  now : Time
  /-- Whether the dialog was under `pause_all` when the row was read. -/
  killed : Bool
  active : Bool
deriving DecidableEq

/-- Where a call of `_pause_for_human_outgoing` waits. -/
inductive Takeover where
  | /-- In `_is_enabled_dialog`. -/
    enabledQuery (answer : Option Bool)
  | /-- In `is_active`. -/
    activeQuery (now : Time) (answer : Option Check)
  | /-- In `pause_dialog`. -/
    pausing (check : Check) (pausedUntil : Time) (done : Bool)
deriving DecidableEq

/-- The statement it waits for has not taken effect. -/
def Takeover.isPending : Takeover → Bool
  | .enabledQuery answer => answer.isNone
  | .activeQuery _ answer => answer.isNone
  | .pausing _ _ done => !done

/-- How the handling of a human message is settled: the row of the dialog, and the reading of
the clock when there is one. -/
structure Settlement where
  event : OutgoingEvent
  now : Option Time
  row : Option DialogRow
deriving DecidableEq

/-! ## Tasks -/

/-- The two consumers. -/
inductive Task where
  | incoming
  | outgoing
deriving DecidableEq

/-- Where `process_incoming` waits. -/
inductive Progress where
  | idle
  | /-- In its `is_active`. -/
    checking (m : Incoming) (now : Time) (answer : Option Check)
  | /-- In the suggester. -/
    suggesting (m : Incoming)
  | /-- In the `is_active` of `_dispatch`. -/
    rechecking (m : Incoming) (reply : String) (now : Time) (answer : Option Check)
  | /-- In `send_text`; the id is there once Telegram has the message. -/
    sending (m : Incoming) (reply : String) (id : Option ℤ)
  | /-- In `_handle_deferred_outgoing`, at one of the events put aside. -/
    deferred (m : Incoming) (reply : String) (own : Option ℤ) (e : OutgoingEvent)
      (takeover : Takeover) (rest : List OutgoingEvent)
  | /-- In `_journal`. -/
    journaling (m : Incoming) (reply : String) (dryRun : Bool)
deriving DecidableEq

/-- The reply is done with, or not begun. -/
def Progress.isParked : Progress → Bool
  | .idle | .deferred .. | .journaling .. => true
  | _ => false

/-- What the engine does that matters outside.  Calls of `process_incoming` are numbered. -/
inductive Action where
  | refused (call : ℕ) (dialogId : ℤ)
  | admitted (call : ℕ) (dialogId : ℤ) (now : Time)
  | asked (call : ℕ) (dialogId : ℤ)
  | checked (check : Check)
  | /-- `send_text`, after this check. -/
    sent (call : ℕ) (dialogId : ℤ) (check : Check) (reply : String)
  | settled (s : Settlement)
  | journaled (dialogId messageId : ℤ) (reply : String) (dryRun : Bool)
deriving DecidableEq

/-- The engine, the database and Telegram. -/
structure World where
  dialogs : Dialogs
  /-- `_enabled_dialogs`. -/
  enabledDialogs : List ℤ
  /-- `_rate`; the windows are oldest first. -/
  rate : OrderedDict ℤ (List Time)
  /-- `_own_sent`. -/
  ownSent : OrderedDict Key Unit
  /-- `_sending`. -/
  sending : OrderedDict ℤ (List OutgoingEvent)
  incoming : Progress
  outgoing : Option (OutgoingEvent × Takeover)
  /-- How many calls of `process_incoming` have started. -/
  calls : ℕ
  /-- The last reading of the clock. -/
  now : Time
  /-- Latest first. -/
  log : List Action
  /-- The dialogs under `pause_all`: paused by it, and not enabled or resumed since. -/
  killed : ℤ → Bool
  /-- The messages Telegram has taken from the engine. -/
  own : List Key
  /-- Those of them whose echo has not been handled. -/
  awaited : List Key
  /-- The messages of humans that were handled. -/
  human : List OutgoingEvent

/-- What can happen. -/
inductive Event where
  | /-- The incoming task takes a message. -/
    incoming (m : Incoming) (now : Time)
  | /-- The outgoing task takes an event. -/
    outgoing (e : OutgoingEvent) (now : Time)
  | /-- The statement a task waits for takes effect. -/
    perform (task : Task)
  | /-- It raises, without effect. -/
    raised (task : Task) (now : Time)
  | /-- A task goes on. -/
    resume (task : Task) (now : Time)
  | /-- The suggester returns, or raises. -/
    suggested (reply : Option String) (now : Time)
  | /-- Telegram takes the reply that is being sent. -/
    deliver (id : ℤ)
  | /-- `send_text` returns. -/
    acked (now : Time)
  | /-- `send_text` raises, and nothing was sent. -/
    sendFailed (now : Time)
  | /-- Another process changes the table. -/
    pauseAll
  | enableDialog (dialogId : ℤ)
  | disableDialog (dialogId : ℤ)
  | resumeDialog (dialogId : ℤ)

/-- `_over_rate_limit`: whether the attempt is refused, and the windows afterwards. -/
def overRateLimit (cfg : Setup) (dialogId : ℤ) (now : Time)
    (rate : OrderedDict ℤ (List Time)) : Bool × OrderedDict ℤ (List Time) :=
  let window := ((rate.get? dialogId).getD []).dropWhile fun t ↦ rateWindowSec < now - t
  let rate := (rate.set dialogId window).moveToEnd dialogId
  let rate := OrderedDict.popFirst^[rate.size - cfg.maxRateDialogs] rate
  if cfg.maxPerHour ≤ window.length then (true, rate)
  else (false, if rate.contains dialogId then rate.set dialogId (window ++ [now]) else rate)

namespace World

/-- The engine after `run` has read the enabled dialogs. -/
def init (dialogs : Dialogs) (now : Time) : World where
  dialogs := dialogs
  enabledDialogs := dialogs.listEnabled
  rate := .empty
  ownSent := .empty
  sending := .empty
  incoming := .idle
  outgoing := none
  calls := 0
  now := now
  log := []
  killed := fun _ ↦ false
  own := []
  awaited := []
  human := []

def act (w : World) (a : Action) : World := { w with log := a :: w.log }

/-- `is_active`, when the row is read. -/
def check (w : World) (dialogId : ℤ) (now : Time) : Check :=
  ⟨dialogId, now, w.killed dialogId, w.dialogs.isActive dialogId now⟩

/-- The handling of an event is settled. -/
def settle (w : World) (e : OutgoingEvent) (now : Option Time) : World :=
  w.act (.settled ⟨e, now, w.dialogs.get? e.dialogId⟩)

/-- `_remember_own`. -/
def rememberOwn (cfg : Setup) (w : World) (key : Key) : World :=
  let ownSent := (w.ownSent.set key ()).moveToEnd key
  { w with ownSent := OrderedDict.popFirst^[ownSent.size - cfg.ownCacheSize] ownSent }

/-! ### Takeovers -/

/-- `_pause_for_human_outgoing`, up to its first statement. -/
def startTakeover (w : World) (dialogId : ℤ) (now : Time) : Takeover :=
  if dialogId ∈ w.enabledDialogs then .activeQuery now none else .enabledQuery none

/-- The statement of a takeover takes effect. -/
def performTakeover (w : World) (e : OutgoingEvent) : Takeover → Option (World × Takeover)
  | .enabledQuery none =>
    let enabled := w.dialogs.isEnabled e.dialogId
    some (if enabled then w else w.settle e none, .enabledQuery (some enabled))
  | .activeQuery now none =>
    let c := w.check e.dialogId now
    let w := w.act (.checked c)
    some (if c.active then w else w.settle e (some now), .activeQuery now (some c))
  | .pausing c pausedUntil false =>
    let w := { w with dialogs := w.dialogs.pauseDialog e.dialogId pausedUntil }
    some (w.settle e (some c.now), .pausing c pausedUntil true)
  | _ => none

/-- A takeover goes on to its next statement, or is over. -/
def resumeTakeover (cfg : Setup) (w : World) (dialogId : ℤ) (now : Time) :
    Takeover → Option (World × Option Takeover)
  | .enabledQuery (some true) =>
    some ({ w with enabledDialogs := dialogId :: w.enabledDialogs }, some (.activeQuery now none))
  | .enabledQuery (some false) => some (w, none)
  | .activeQuery t (some c) =>
    some (w, if c.active then some (.pausing c (t + cfg.pauseOnHumanSec) false) else none)
  | .pausing _ _ true => some (w, none)
  | _ => none

/-- `_handle_deferred_outgoing`, up to the first event that is not the reply itself. -/
def handleDeferred (w : World) (m : Incoming) (reply : String) (own : Option ℤ) (now : Time) :
    List OutgoingEvent → World
  | [] =>
    { w with incoming := if own.isSome then .journaling m reply false else .idle }
  | e :: rest =>
    if own = some e.messageId then w.handleDeferred m reply own now rest
    else { w with incoming := .deferred m reply own e (w.startTakeover e.dialogId now) rest }

/-- The event a task is taking over for. -/
def taking (w : World) : Task → Option (OutgoingEvent × Takeover)
  | .outgoing => w.outgoing
  | .incoming =>
    match w.incoming with
    | .deferred _ _ _ e takeover _ => some (e, takeover)
    | _ => none

/-- The takeover of a task moves on. -/
def setTaking (w : World) (task : Task) (takeover : Takeover) : World :=
  match task with
  | .outgoing => { w with outgoing := w.outgoing.map fun o ↦ (o.1, takeover) }
  | .incoming =>
    match w.incoming with
    | .deferred m reply own e _ rest =>
      { w with incoming := .deferred m reply own e takeover rest }
    | _ => w

/-- The takeover of a task is over. -/
def finishTaking (w : World) (task : Task) (now : Time) : World :=
  match task with
  | .outgoing => { w with outgoing := none }
  | .incoming =>
    match w.incoming with
    | .deferred m reply own _ _ rest => w.handleDeferred m reply own now rest
    | _ => w

/-- A task goes on with its takeover, or without. -/
def goOn (w : World) (task : Task) (now : Time) : Option Takeover → World
  | some takeover => w.setTaking task takeover
  | none => w.finishTaking task now

/-! ### The incoming task -/

/-- The statement `process_incoming` waits for takes effect. -/
def performIncoming (w : World) : Option World :=
  match w.incoming with
  | .checking m now none =>
    let c := w.check m.dialogId now
    some { w.act (.checked c) with incoming := .checking m now (some c) }
  | .rechecking m reply now none =>
    let c := w.check m.dialogId now
    some { w.act (.checked c) with incoming := .rechecking m reply now (some c) }
  | .journaling m reply dryRun =>
    some { w.act (.journaled m.dialogId m.id reply dryRun) with incoming := .idle }
  | _ => none

/-- It raises. -/
def raiseIncoming (w : World) : Option World :=
  match w.incoming with
  | .checking _ _ none | .rechecking _ _ _ none | .journaling .. =>
    some { w with incoming := .idle }
  | _ => none

/-- `process_incoming` goes on after an activity check. -/
def resumeIncoming (cfg : Setup) (w : World) : Option World :=
  match w.incoming with
  | .checking m now (some c) =>
    if c.active then
      let r := overRateLimit cfg m.dialogId now w.rate
      let w := { w with rate := r.2 }
      if r.1 then some { w.act (.refused w.calls m.dialogId) with incoming := .idle }
      else
        some { (w.act (.admitted w.calls m.dialogId now)).act (.asked w.calls m.dialogId) with
          incoming := .suggesting m }
    else some { w with incoming := .idle }
  | .rechecking m reply _ (some c) =>
    if c.active then
      if cfg.enforce then
        some { w.act (.sent w.calls m.dialogId c reply) with
          sending := w.sending.set m.dialogId []
          incoming := .sending m reply none }
      else some { w with incoming := .journaling m reply true }
    else some { w with incoming := .idle }
  | _ => none

/-! ### One event -/

/-- `on_outgoing`, up to its first statement. -/
def onOutgoing (w : World) (e : OutgoingEvent) (now : Time) : World :=
  match w.sending.get? e.dialogId with
  | some pendingEvents => { w with sending := w.sending.set e.dialogId (pendingEvents ++ [e]) }
  | none =>
    if w.ownSent.contains e.key then { w with ownSent := w.ownSent.erase e.key }
    else { w with outgoing := some (e, w.startTakeover e.dialogId now) }

/-- `_sending.pop` and what follows it. -/
def endSending (w : World) (m : Incoming) (reply : String) (own : Option ℤ) (now : Time) : World :=
  { w with sending := w.sending.erase m.dialogId }.handleDeferred m reply own now
    ((w.sending.get? m.dialogId).getD [])

/-- What an event does.  Telegram gives no id twice, and an echo comes once. -/
def step (cfg : Setup) : Machine World Event := fun w e ↦
  match e with
  | .incoming m now =>
    match w.incoming with
    | .idle =>
      some { w with
        incoming := if m.out then .idle else .checking m now none
        calls := w.calls + 1
        now }
    | _ => none
  | .outgoing e now =>
    match w.outgoing with
    | none =>
      if e.key ∈ w.awaited then
        some ({ w with awaited := w.awaited.erase e.key, now }.onOutgoing e now)
      else if e.key ∈ w.own ∨ e ∈ w.human then none
      else some ({ w with human := e :: w.human, now }.onOutgoing e now)
    | some _ => none
  | .perform task =>
    match w.taking task with
    | some (e, takeover) => (w.performTakeover e takeover).map fun r ↦ r.1.setTaking task r.2
    | none =>
      match task with
      | .incoming => w.performIncoming
      | .outgoing => none
  | .raised task now =>
    match w.taking task with
    | some (_, takeover) =>
      if takeover.isPending then some ({ w with now }.finishTaking task now) else none
    | none =>
      match task with
      | .incoming => w.raiseIncoming
      | .outgoing => none
  | .resume task now =>
    match w.taking task with
    | some (e, takeover) =>
      (resumeTakeover cfg { w with now } e.dialogId now takeover).map fun r ↦
        r.1.goOn task now r.2
    | none =>
      match task with
      | .incoming => resumeIncoming cfg { w with now }
      | .outgoing => none
  | .suggested reply now =>
    match w.incoming with
    | .suggesting m =>
      some { w with
        incoming :=
          match reply with
          | none => .idle
          | some reply => if isBlank reply then .idle else .rechecking m reply now none
        now }
    | _ => none
  | .deliver id =>
    match w.incoming with
    | .sending m reply none =>
      if (m.dialogId, id) ∈ w.own ∨ ⟨m.dialogId, id⟩ ∈ w.human then none
      else
        some { w with
          incoming := .sending m reply (some id)
          own := (m.dialogId, id) :: w.own
          awaited := (m.dialogId, id) :: w.awaited }
    | _ => none
  | .acked now =>
    match w.incoming with
    | .sending m reply (some id) =>
      some (({ w with now }.rememberOwn cfg (m.dialogId, id)).endSending m reply (some id) now)
    | _ => none
  | .sendFailed now =>
    match w.incoming with
    | .sending m reply none => some ({ w with now }.endSending m reply none now)
    | _ => none
  | .pauseAll =>
    some { w with
      dialogs := w.dialogs.pauseAll
      killed := fun d ↦ w.killed d || w.dialogs.isEnabled d }
  | .enableDialog d =>
    some { w with
      dialogs := w.dialogs.enableDialog d
      killed := Function.update w.killed d false }
  | .disableDialog d => some { w with dialogs := w.dialogs.disableDialog d }
  | .resumeDialog d =>
    some { w with
      dialogs := w.dialogs.resumeDialog d
      killed := Function.update w.killed d false }

/-! ### What the pieces leave alone -/

variable {w w' : World}

theorem handleDeferred_eq (w : World) (m : Incoming) (reply : String) (own : Option ℤ) (now : Time)
    (events : List OutgoingEvent) :
    ∃ p, p.isParked = true ∧
      w.handleDeferred m reply own now events = { w with incoming := p } := by
  induction events with
  | nil =>
    refine ⟨_, ?_, rfl⟩
    split_ifs <;> rfl
  | cons e rest ih =>
    rw [handleDeferred]
    split_ifs
    · exact ih
    · exact ⟨_, rfl, rfl⟩

theorem setTaking_eq (w : World) (task : Task) (takeover : Takeover) :
    ∃ p o, (p.isParked = true ∨ p = w.incoming) ∧
      w.setTaking task takeover = { w with incoming := p, outgoing := o } := by
  cases task with
  | outgoing => exact ⟨w.incoming, _, .inr rfl, rfl⟩
  | incoming =>
    rw [setTaking]
    split
    · exact ⟨_, w.outgoing, .inl rfl, rfl⟩
    · exact ⟨w.incoming, w.outgoing, .inr rfl, rfl⟩

theorem finishTaking_eq (w : World) (task : Task) (now : Time) :
    ∃ p o, (p.isParked = true ∨ p = w.incoming) ∧
      w.finishTaking task now = { w with incoming := p, outgoing := o } := by
  cases task with
  | outgoing => exact ⟨w.incoming, _, .inr rfl, rfl⟩
  | incoming =>
    rw [finishTaking]
    split
    · obtain ⟨p, hp, heq⟩ := handleDeferred_eq ..
      exact ⟨p, w.outgoing, .inl hp, heq⟩
    · exact ⟨w.incoming, w.outgoing, .inr rfl, rfl⟩

theorem goOn_eq (w : World) (task : Task) (now : Time) (takeover : Option Takeover) :
    ∃ p o, (p.isParked = true ∨ p = w.incoming) ∧
      w.goOn task now takeover = { w with incoming := p, outgoing := o } := by
  cases takeover with
  | some takeover => exact setTaking_eq w task takeover
  | none => exact finishTaking_eq w task now

theorem endSending_eq (w : World) (m : Incoming) (reply : String) (own : Option ℤ) (now : Time) :
    ∃ p, p.isParked = true ∧ w.endSending m reply own now =
      { w with sending := w.sending.erase m.dialogId, incoming := p } := handleDeferred_eq ..

theorem onOutgoing_eq (w : World) (e : OutgoingEvent) (now : Time) :
    ∃ sending ownSent outgoing, w.onOutgoing e now = { w with sending, ownSent, outgoing } := by
  rw [onOutgoing]
  split
  · exact ⟨_, w.ownSent, w.outgoing, rfl⟩
  · split_ifs
    · exact ⟨w.sending, _, w.outgoing, rfl⟩
    · exact ⟨w.sending, w.ownSent, _, rfl⟩

/-- A takeover changes the table only, and puts only checks and settlements into the log. -/
theorem performTakeover_eq {e : OutgoingEvent} {takeover : Takeover} {r : World × Takeover}
    (h : w.performTakeover e takeover = some r) :
    ∃ dialogs news, r.1 = { w with dialogs, log := news ++ w.log } ∧
      ∀ a ∈ news, (∃ c, a = .checked c) ∨ ∃ s, a = .settled s := by
  have hnil (a : Action) (ha : a ∈ []) : (∃ c, a = .checked c) ∨ ∃ s, a = .settled s :=
    absurd ha List.not_mem_nil
  have hsettled (s : Settlement) (a : Action) (ha : a ∈ [.settled s]) :
      (∃ c, a = .checked c) ∨ ∃ s, a = .settled s := .inr ⟨s, List.mem_singleton.mp ha⟩
  unfold performTakeover at h
  split at h
  · obtain rfl := Option.some.inj h
    dsimp only
    split_ifs
    · exact ⟨w.dialogs, [], rfl, hnil⟩
    · exact ⟨w.dialogs, _, rfl, hsettled _⟩
  · obtain rfl := Option.some.inj h
    dsimp only
    split_ifs
    · refine ⟨w.dialogs, [.checked _], rfl, ?_⟩
      intro a ha
      exact .inl ⟨_, List.mem_singleton.mp ha⟩
    · refine ⟨w.dialogs, [.settled _, .checked _], rfl, ?_⟩
      intro a ha
      rcases List.mem_cons.mp ha with rfl | ha
      · exact .inr ⟨_, rfl⟩
      · exact .inl ⟨_, List.mem_singleton.mp ha⟩
  · obtain rfl := Option.some.inj h
    exact ⟨_, [.settled _], rfl, hsettled _⟩
  · cases h

theorem resumeTakeover_eq {cfg : Setup} {dialogId : ℤ} {now : Time} {takeover : Takeover}
    {r : World × Option Takeover} (h : resumeTakeover cfg w dialogId now takeover = some r) :
    ∃ enabledDialogs, r.1 = { w with enabledDialogs } := by
  unfold resumeTakeover at h
  split at h
  · obtain rfl := Option.some.inj h
    exact ⟨_, rfl⟩
  · obtain rfl := Option.some.inj h
    exact ⟨w.enabledDialogs, rfl⟩
  · obtain rfl := Option.some.inj h
    exact ⟨w.enabledDialogs, rfl⟩
  · obtain rfl := Option.some.inj h
    exact ⟨w.enabledDialogs, rfl⟩
  · cases h

/-! ### What each event does -/

variable {cfg : Setup}

theorem step_incoming {m : Incoming} {now : Time} (hs : w.step cfg (.incoming m now) = some w') :
    w.incoming = .idle ∧ ∃ p, (p = .idle ∨ p = .checking m now none) ∧
      w' = { w with incoming := p, calls := w.calls + 1, now } := by
  unfold step at hs
  dsimp only at hs
  split at hs
  · rename_i hidle
    refine ⟨hidle, if m.out = true then .idle else .checking m now none, ?_,
      (Option.some.inj hs).symm⟩
    split_ifs
    · exact .inl rfl
    · exact .inr rfl
  · cases hs

/-- An outgoing event is the echo of an own message, or a new message of a human. -/
theorem step_outgoing {e : OutgoingEvent} {now : Time}
    (hs : w.step cfg (.outgoing e now) = some w') :
    w.outgoing = none ∧
      (e.key ∈ w.awaited ∧
          w' = { w with awaited := w.awaited.erase e.key, now }.onOutgoing e now ∨
        e.key ∉ w.awaited ∧ e.key ∉ w.own ∧ e ∉ w.human ∧
          w' = { w with human := e :: w.human, now }.onOutgoing e now) := by
  unfold step at hs
  dsimp only at hs
  split at hs
  · rename_i hnone
    refine ⟨hnone, ?_⟩
    split_ifs at hs with hawaited hnew
    · exact .inl ⟨hawaited, (Option.some.inj hs).symm⟩
    · rw [not_or] at hnew
      exact .inr ⟨hawaited, hnew.1, hnew.2, (Option.some.inj hs).symm⟩
  · cases hs

theorem step_perform {task : Task} (hs : w.step cfg (.perform task) = some w') :
    (∃ e takeover r, w.taking task = some (e, takeover) ∧ w.performTakeover e takeover = some r ∧
      w' = r.1.setTaking task r.2) ∨
    task = .incoming ∧ w.taking .incoming = none ∧ w.performIncoming = some w' := by
  unfold step at hs
  dsimp only at hs
  split at hs
  · rename_i e takeover htaking
    obtain ⟨r, hr, heq⟩ := Option.map_eq_some_iff.mp hs
    exact .inl ⟨e, takeover, r, htaking, hr, heq.symm⟩
  · rename_i htaking
    cases task with
    | incoming => exact .inr ⟨rfl, htaking, hs⟩
    | outgoing => cases hs

theorem step_raised {task : Task} {now : Time} (hs : w.step cfg (.raised task now) = some w') :
    (∃ e takeover, w.taking task = some (e, takeover) ∧ takeover.isPending = true ∧
      w' = { w with now }.finishTaking task now) ∨
    w.taking .incoming = none ∧ w' = { w with incoming := .idle } := by
  unfold step at hs
  dsimp only at hs
  split at hs
  · rename_i e takeover htaking
    split_ifs at hs with hpending
    exact .inl ⟨e, takeover, htaking, hpending, (Option.some.inj hs).symm⟩
  · rename_i htaking
    cases task with
    | incoming =>
      refine .inr ⟨htaking, ?_⟩
      dsimp only at hs
      unfold raiseIncoming at hs
      split at hs
      · exact (Option.some.inj hs).symm
      · exact (Option.some.inj hs).symm
      · exact (Option.some.inj hs).symm
      · cases hs
    | outgoing => cases hs

theorem step_resume {task : Task} {now : Time} (hs : w.step cfg (.resume task now) = some w') :
    (∃ e takeover r, w.taking task = some (e, takeover) ∧
      resumeTakeover cfg { w with now } e.dialogId now takeover = some r ∧
      w' = r.1.goOn task now r.2) ∨
    task = .incoming ∧ w.taking .incoming = none ∧
      resumeIncoming cfg { w with now } = some w' := by
  unfold step at hs
  dsimp only at hs
  split at hs
  · rename_i e takeover htaking
    obtain ⟨r, hr, heq⟩ := Option.map_eq_some_iff.mp hs
    exact .inl ⟨e, takeover, r, htaking, hr, heq.symm⟩
  · rename_i htaking
    cases task with
    | incoming => exact .inr ⟨rfl, htaking, hs⟩
    | outgoing => cases hs

theorem step_suggested {reply : Option String} {now : Time}
    (hs : w.step cfg (.suggested reply now) = some w') :
    ∃ m p, w.incoming = .suggesting m ∧ (p = .idle ∨ ∃ reply, p = .rechecking m reply now none) ∧
      w' = { w with incoming := p, now } := by
  unfold step at hs
  dsimp only at hs
  split at hs
  · rename_i m hsuggesting
    refine ⟨m, _, hsuggesting, ?_, (Option.some.inj hs).symm⟩
    cases reply with
    | none => exact .inl rfl
    | some reply =>
      dsimp only
      split_ifs
      · exact .inl rfl
      · exact .inr ⟨reply, rfl⟩
  · cases hs

theorem step_deliver {id : ℤ} (hs : w.step cfg (.deliver id) = some w') :
    ∃ m reply, w.incoming = .sending m reply none ∧ (m.dialogId, id) ∉ w.own ∧
      ⟨m.dialogId, id⟩ ∉ w.human ∧
      w' = { w with
        incoming := .sending m reply (some id)
        own := (m.dialogId, id) :: w.own
        awaited := (m.dialogId, id) :: w.awaited } := by
  unfold step at hs
  dsimp only at hs
  split at hs
  · rename_i m reply hsending
    split_ifs at hs with hnew
    rw [not_or] at hnew
    exact ⟨m, reply, hsending, hnew.1, hnew.2, (Option.some.inj hs).symm⟩
  · cases hs

theorem step_acked {now : Time} (hs : w.step cfg (.acked now) = some w') :
    ∃ m reply id, w.incoming = .sending m reply (some id) ∧
      w' = (rememberOwn cfg { w with now } (m.dialogId, id)).endSending m reply (some id) now := by
  unfold step at hs
  dsimp only at hs
  split at hs
  · rename_i m reply id hsending
    exact ⟨m, reply, id, hsending, (Option.some.inj hs).symm⟩
  · cases hs

theorem step_sendFailed {now : Time} (hs : w.step cfg (.sendFailed now) = some w') :
    ∃ m reply, w.incoming = .sending m reply none ∧
      w' = { w with now }.endSending m reply none now := by
  unfold step at hs
  dsimp only at hs
  split at hs
  · rename_i m reply hsending
    exact ⟨m, reply, hsending, (Option.some.inj hs).symm⟩
  · cases hs

/-- The incoming task goes on after an activity check. -/
theorem resumeIncoming_cases (hs : w.resumeIncoming cfg = some w') :
    (∃ m now c, w.incoming = .checking m now (some c) ∧
      (w' = { w with incoming := .idle } ∨
        c.active = true ∧ (overRateLimit cfg m.dialogId now w.rate).1 = true ∧
          w' = { w.act (.refused w.calls m.dialogId) with
            rate := (overRateLimit cfg m.dialogId now w.rate).2
            incoming := .idle } ∨
        c.active = true ∧ (overRateLimit cfg m.dialogId now w.rate).1 = false ∧
          w' = { (w.act (.admitted w.calls m.dialogId now)).act (.asked w.calls m.dialogId) with
            rate := (overRateLimit cfg m.dialogId now w.rate).2
            incoming := .suggesting m })) ∨
    ∃ m reply now c, w.incoming = .rechecking m reply now (some c) ∧
      (w' = { w with incoming := .idle } ∨
        c.active = true ∧ cfg.enforce = false ∧
          w' = { w with incoming := .journaling m reply true } ∨
        c.active = true ∧ cfg.enforce = true ∧
          w' = { w.act (.sent w.calls m.dialogId c reply) with
            sending := w.sending.set m.dialogId []
            incoming := .sending m reply none }) := by
  unfold resumeIncoming at hs
  split at hs
  · rename_i m now c hchecking
    refine .inl ⟨m, now, c, hchecking, ?_⟩
    dsimp only at hs
    split_ifs at hs with hactive hover
    · exact .inr (.inl ⟨hactive, hover, (Option.some.inj hs).symm⟩)
    · exact .inr (.inr ⟨hactive, eq_false_of_ne_true hover, (Option.some.inj hs).symm⟩)
    · exact .inl (Option.some.inj hs).symm
  · rename_i m reply now c hrechecking
    refine .inr ⟨m, reply, now, c, hrechecking, ?_⟩
    split_ifs at hs with hactive henforce
    · exact .inr (.inr ⟨hactive, henforce, (Option.some.inj hs).symm⟩)
    · exact .inr (.inl ⟨hactive, eq_false_of_ne_true henforce, (Option.some.inj hs).symm⟩)
    · exact .inl (Option.some.inj hs).symm
  · cases hs

end World

end TgMessenger.Ghostwrite
