import TgMessenger.Asyncio.Outline
import TgMessenger.Data.Text
import TgMessenger.Outbound.Coordinator

/-!
# The composer of the terminal client

Enter in `#composer` (`tui/app.py`) submits a text of the open dialog.  With outbound translation it
is not sent at once: the composer is emptied, a worker has the text translated, and what the user
picks is put back into the composer, to be sent with another Enter.  What is typed is kept for each
dialog in a `ComposeState`.

The worker is alone in its group, so another Enter cancels it; and the composer tells the app what
happened to it by messages, which come later.
-/

namespace TgMessenger.Tui.Composer

open Asyncio
open Outbound (PrepareResult)

/-! ## The code -/

/-- `ComposeState`. -/
structure ComposeState where
  draft : String := ""
  sourceText : Option String := none
  originalConfirmText : Option String := none
  ignoreNextEmptyChange : Bool := false
  outboundToken : Option String := none
deriving DecidableEq

/-- What `parse_tlang_command` and `parse_lang_command` tell apart. -/
inductive Parsed where
  | notCommand
  | /-- `ValueError`. -/
    usage
  | command
deriving DecidableEq

/-- A command with its argument. -/
def parseCommand (name text : String) : Parsed :=
  let line := text.toList.dropWhile isSpace
  if line.takeWhile (fun c ↦ !isSpace c) ≠ name.toList then .notCommand
  else if (line.dropWhile fun c ↦ !isSpace c).all isSpace then .usage
  else .command

/-- `parse_lang_command`. -/
def parseLangCommand : String → Parsed := parseCommand "/lang"

/-- `parse_tlang_command`. -/
def parseTlangCommand : String → Parsed := parseCommand "/tlang"

/-- `text.lstrip().split(maxsplit=1)[0]`. -/
def firstWord (text : String) : String :=
  .ofList ((text.toList.dropWhile isSpace).takeWhile fun c ↦ !isSpace c)

/-- How a send ends. -/
inductive SendOutcome where
  | sent
  | outboundError (message : String)
  | sendForbidden (message : String)
  | exception (message : String)

/-- What `on_input_submitted` goes on with. -/
inductive Next where
  | nothing
  | outboundFlow (dialog : ℤ) (text : String)
  | sendText (dialog : ℤ) (text : String) (token : Option String)
  | sendMedia (dialog : ℤ) (path : String) (caption : Option String) (sourceText : String)

/-- What the coroutines await, or do to what they share between two awaits. -/
inductive Op where
  | /-- `on_input_changed` or `on_input_submitted`, for the next message of the composer. -/
    handle
  | /-- The beginning of `_outbound_flow`. -/
    begin (dialog : ℤ) (text : String)
  | /-- `self._coordinator.prepare(…)`. -/
    prepare (dialog : ℤ) (text : String)
  | /-- `_outbound_flow`, where nothing applies. -/
    dropDraft (dialog : ℤ) (text : String)
  | /-- `_outbound_flow`, where nothing is ready. -/
    offerOriginal (dialog : ℤ) (text : String) (result : PrepareResult String)
  | /-- `self.push_screen_wait(VariantPickScreen(…))`. -/
    pick (variants : List String) (text : String)
  | /-- `_outbound_flow`, after Escape. -/
    escaped (dialog : ℤ) (text : String)
  | /-- `_outbound_flow`, after the original was picked. -/
    pickedOriginal (dialog : ℤ) (text : String)
  | /-- `_outbound_flow`, after a variant was picked. -/
    pickedVariant (dialog : ℤ) (text picked : String) (token : Option String)
  | /-- `send_variant` or `send_original`. -/
    send (dialog : ℤ) (text : String) (token : Option String)
  | /-- `self._client.send_media(…)`. -/
    sendMedia (dialog : ℤ) (path : String) (caption : Option String)
  | /-- `_clear_compose_state_after_send`. -/
    clearAfterSend (dialog : ℤ) (sentText : String)
  | /-- The notice of a send that failed, and `_restore_draft`. -/
    sendFailed (dialog : ℤ) (text notice : String)

/-- The effects of the composer; a fault is `CancelledError`. -/
abbrev effects : Effects where
  Op := Op
  Fault := Unit
  Ret
    | .handle => Next
    | .prepare .. => PrepareResult String
    | .pick .. => Option String
    | .send .. => SendOutcome
    | .sendMedia .. => SendOutcome
    | _ => Unit

/-- A coroutine of the client. -/
abbrev TuiProg (α : Type) := Prog effects α

/-- Await one operation. -/
abbrev perform (o : Op) : TuiProg (effects.Ret o) := Prog.perform (E := effects) o

/-- `ORIGINAL_SENTINEL`. -/
def originalSentinel : String := "__tg_messenger_original__"

/-- `_send_text`. -/
def sendText (dialog : ℤ) (text : String) (token : Option String) : TuiProg Unit := do
  let outcome : SendOutcome ← perform (.send dialog text token)
  match outcome with
  | .sent => perform (.clearAfterSend dialog text)
  | .outboundError _ =>
    perform (.sendFailed dialog text "Translation choice expired — choose a variant again")
  | .sendForbidden message => perform (.sendFailed dialog text message)
  | .exception message => perform (.sendFailed dialog text ("Send failed: " ++ message))

/-- `_send_media`. -/
def sendMedia (dialog : ℤ) (path : String) (caption : Option String) (sourceText : String) :
    TuiProg Unit := do
  let outcome : SendOutcome ← perform (.sendMedia dialog path caption)
  match outcome with
  | .sent => return ()
  | .sendForbidden message => perform (.sendFailed dialog sourceText message)
  | .outboundError message | .exception message =>
    perform (.sendFailed dialog sourceText ("Send failed: " ++ message))

/-- `_outbound_flow`. -/
def outboundFlow (dialog : ℤ) (text : String) : TuiProg Unit := do
  perform (.begin dialog text)
  let result : PrepareResult String ← perform (.prepare dialog text)
  if result.status = "not_applicable" then
    perform (.dropDraft dialog text)
    sendText dialog text none
  else if result.status ≠ "ready" then perform (.offerOriginal dialog text result)
  else
    let picked : Option String ← perform (.pick result.variants text)
    match picked with
    | none => perform (.escaped dialog text)
    | some picked =>
      if picked = originalSentinel then perform (.pickedOriginal dialog text)
      else perform (.pickedVariant dialog text picked result.token)

/-- A message of the composer is handled, and the worker does its work. -/
def handler : TuiProg Unit := do
  let next : Next ← perform .handle
  match next with
  | .nothing => return ()
  | .outboundFlow dialog text => outboundFlow dialog text
  | .sendText dialog text token => sendText dialog text token
  | .sendMedia dialog path caption sourceText => sendMedia dialog path caption sourceText

/-! ## Running the composer -/

/-- What became of a submitted text. -/
inductive Fate where
  | /-- Its worker has not come to an end. -/
    going
  | sent
  | /-- The user was told that it failed. -/
    notified
  | /-- The user has it again: its worker gave it back, or was cancelled. -/
    back
  | /-- The user has edited it or submitted it again since. -/
    taken
deriving DecidableEq

/-- A submitted text, or the variant that was picked for it. -/
structure Submission where
  task : ℕ
  dialog : ℤ
  text : String
  fate : Fate
deriving DecidableEq

/-- What the client finds outside. -/
structure Setup where
  /-- `_dialog_can_send` and `_kind_for_rendering(…) == "bot"`, when the `n`-th message is
  handled. -/
  canSend : ℕ → ℤ → Bool
  isBot : ℕ → ℤ → Bool
  /-- `parse_media_command`. -/
  parseMediaCommand : String → Option (String × Option String)
  /-- `os.path.isfile`. -/
  isFile : ℕ → String → Bool
  /-- The answers of the coordinator, of the picker and of the network. -/
  prepared : ℕ → PrepareResult String
  picked : ℕ → Option String
  sends : ℕ → SendOutcome

/-- A message of the composer, with the value it had. -/
inductive Posted where
  | changed (value : String)
  | submitted (value : String)
deriving DecidableEq

/-- What the workers share. -/
structure World where
  current : Option ℤ
  /-- `composer.value`. -/
  composer : String
  composeStates : ℤ → ComposeState
  /-- The messages of the composer that the app has not handled. -/
  posted : List Posted
  /-- The last worker of the group `outbound`. -/
  outbound : Option ℕ
  cancelled : List ℕ
  /-- What the user was told. -/
  notices : List String
  /-- What was submitted, and what became of it. -/
  submissions : List Submission
  /-- How many messages were handled, and how many calls have gone out. -/
  turns : ℕ
  calls : ℕ

/-- What Enter does to a text. -/
inductive Branch where
  | refused (notice : String)
  | command
  | media (path : String) (caption : Option String)
  | send (token : Option String)
  | outbound
deriving DecidableEq

namespace World

/-- The composer gets a value, and tells so if it is another one. -/
def setComposer (value : String) (w : World) : World :=
  if value = w.composer then w
  else { w with composer := value, posted := w.posted ++ [.changed value] }

@[simp] theorem composer_setComposer (value : String) (w : World) :
    (w.setComposer value).composer = value := by
  rw [setComposer]
  split
  · next h => exact h.symm
  · rfl

@[simp] theorem current_setComposer (value : String) (w : World) :
    (w.setComposer value).current = w.current := by
  rw [setComposer]
  split <;> rfl

@[simp] theorem composeStates_setComposer (value : String) (w : World) :
    (w.setComposer value).composeStates = w.composeStates := by
  rw [setComposer]
  split <;> rfl

@[simp] theorem submissions_setComposer (value : String) (w : World) :
    (w.setComposer value).submissions = w.submissions := by
  rw [setComposer]
  split <;> rfl

@[simp] theorem outbound_setComposer (value : String) (w : World) :
    (w.setComposer value).outbound = w.outbound := by
  rw [setComposer]
  split <;> rfl

@[simp] theorem cancelled_setComposer (value : String) (w : World) :
    (w.setComposer value).cancelled = w.cancelled := by
  rw [setComposer]
  split <;> rfl

/-- The compose state of a dialog changes. -/
def setState (dialog : ℤ) (state : ComposeState) (w : World) : World :=
  { w with composeStates := Function.update w.composeStates dialog state }

/-- `self.notify`. -/
def notify (notice : String) (w : World) : World := { w with notices := w.notices ++ [notice] }

/-- Something became of the texts of a task. -/
def settle (t : ℕ) (fate : Fate) (w : World) : World :=
  { w with
    submissions := w.submissions.map fun e ↦ if e.task = t then { e with fate := fate } else e }

/-- The user takes up again what was given back to him in a dialog. -/
def takeUp (dialog : ℤ) (text : String) (w : World) : World :=
  { w with
    submissions := w.submissions.map fun e ↦
      if e.fate = .back ∧ e.dialog = dialog ∧ e.text = text then { e with fate := .taken }
      else e }

/-- A task takes a text for the first time. -/
def submit (t : ℕ) (dialog : ℤ) (text : String) (w : World) : World :=
  { w with submissions := w.submissions ++ [⟨t, dialog, text, .going⟩] }

/-- `_clear_pending_outbound`. -/
def clearPending (state : ComposeState) : ComposeState :=
  { state with sourceText := none, outboundToken := none, originalConfirmText := none }

/-- `_optimistic_clear`. -/
def optimisticClear (dialog : ℤ) (w : World) : World :=
  (w.setState dialog (clearPending { w.composeStates dialog with draft := "" })).setComposer ""

/-- `on_input_changed`. -/
def onInputChanged (value : String) (w : World) : World :=
  if value ≠ w.composer then w
  else
    match w.current with
    | none => w
    | some dialog =>
      let state := w.composeStates dialog
      if value = "" ∧ state.ignoreNextEmptyChange then
        w.setState dialog { state with ignoreNextEmptyChange := false }
      else
        let edited := state.sourceText ≠ none ∧ value ≠ state.draft
        let state : ComposeState :=
          { state with
            draft := value
            sourceText := if edited then none else state.sourceText
            outboundToken := if edited then none else state.outboundToken
            originalConfirmText := state.originalConfirmText.filter (· = value) }
        w.setState dialog (if value = "" then clearPending state else state)

/-- What `on_input_submitted` does to a text that is not blank. -/
def branch (setup : Setup) (w : World) (dialog : ℤ) (text : String) : Branch :=
  let state := w.composeStates dialog
  if !setup.canSend w.turns dialog then
    .refused "This chat is read-only — you cannot send messages here."
  else
    match parseTlangCommand text with
    | .usage => .refused "usage: /tlang CODE|off"
    | .command => .command
    | .notCommand =>
      match parseLangCommand text with
      | .usage => .refused "usage: /lang CODE|auto|on|off"
      | .command => .command
      | .notCommand =>
        match setup.parseMediaCommand text with
        | some (path, caption) =>
          if setup.isFile w.turns path then .media path caption
          else .refused ("File not found: " ++ path)
        | none =>
          if startsWith "/" (.ofList (text.toList.dropWhile isSpace)) then
            if setup.isBot w.turns dialog then .send none
            else .refused ("Unknown command: " ++ firstWord text)
          else if state.sourceText ≠ none then .send state.outboundToken
          else if state.originalConfirmText = some text then .send none
          else .outbound

/-- The worker of `outbound` is cancelled, which gives its text back, and another one starts. -/
def startOutbound (t : ℕ) (w : World) : World :=
  { w with
    outbound := some t
    cancelled := w.outbound.toList ++ w.cancelled
    submissions := w.submissions.map fun e ↦
      if w.outbound = some e.task ∧ e.fate = .going then { e with fate := .back } else e }

/-- `on_input_submitted`, for a text that is not blank. -/
def enter (t : ℕ) (dialog : ℤ) (text : String) (branch : Branch) (w : World) : Next × World :=
  let w := w.setState dialog { w.composeStates dialog with draft := text }
  match branch with
  | .refused notice => (.nothing, w.notify notice)
  | .command => (.nothing, (w.takeUp dialog text).optimisticClear dialog)
  | .media path caption =>
    (.sendMedia dialog path caption text,
      ((w.takeUp dialog text).optimisticClear dialog).submit t dialog text)
  | .send token =>
    (.sendText dialog text token,
      ((w.takeUp dialog text).optimisticClear dialog).submit t dialog text)
  | .outbound =>
    (.outboundFlow dialog text,
      ((((w.startOutbound t).takeUp dialog text).setState dialog
        { w.composeStates dialog with draft := text, ignoreNextEmptyChange := true }).setComposer
          "").submit t dialog text)

/-- `on_input_submitted`. -/
def onInputSubmitted (setup : Setup) (t : ℕ) (text : String) (w : World) : Next × World :=
  match w.current with
  | none => (.nothing, w)
  | some dialog =>
    if isBlank text then (.nothing, w) else w.enter t dialog text (w.branch setup dialog text)

/-- `_outbound_flow`, where nothing applies. -/
def dropDraft (dialog : ℤ) (text : String) (w : World) : World :=
  let w := w.setState dialog (clearPending { w.composeStates dialog with draft := "" })
  if w.current = some dialog ∧ w.composer = text then w.setComposer "" else w

/-- The composer gets a value, if its dialog is open. -/
def showIn (dialog : ℤ) (value : String) (w : World) : World :=
  if w.current = some dialog then w.setComposer value else w

/-- The draft of a dialog is an original that Enter will send. -/
def offer (dialog : ℤ) (text : String) (w : World) : World :=
  (w.setState dialog
    { w.composeStates dialog with
      draft := text, sourceText := none, outboundToken := none
      originalConfirmText := some text }).showIn dialog text

/-- `_outbound_flow`, where nothing is ready. -/
def offerOriginal (t : ℕ) (dialog : ℤ) (text : String) (result : PrepareResult String)
    (w : World) : World :=
  if result.status = "error" then
    (((w.offer dialog text).notify
      ((if result.error = some "Translation timed out." then "Translation timed out"
        else "Translation failed") ++ " — press Enter to send the original")).settle t .notified)
  else (w.offer dialog text).settle t .back

/-- `_outbound_flow`, after a variant was picked. -/
def pickedVariant (t : ℕ) (dialog : ℤ) (text picked : String) (token : Option String)
    (w : World) : World :=
  let w := (w.setState dialog
    { w.composeStates dialog with
      draft := picked, sourceText := some text, outboundToken := token
      originalConfirmText := none }).showIn dialog picked
  { w with
    submissions := w.submissions.map fun e ↦
      if e.task = t then { e with text := picked, fate := .back } else e }

/-- `_clear_compose_state_after_send`. -/
def clearAfterSend (dialog : ℤ) (sentText : String) (w : World) : World :=
  let state := w.composeStates dialog
  let w := w.setState dialog
    (clearPending { state with draft := if state.draft = sentText then "" else state.draft })
  if w.current = some dialog ∧ w.composer = sentText then w.setComposer "" else w

/-- `_restore_draft`. -/
def restoreDraft (dialog : ℤ) (text : String) (w : World) : World :=
  let w := w.setState dialog { w.composeStates dialog with draft := text }
  if w.current = some dialog ∧ w.composer = "" then w.setComposer text else w

/-- A call has gone out. -/
def next (w : World) : World := { w with calls := w.calls + 1 }

/-- The network has answered a send. -/
def answered (t : ℕ) (outcome : SendOutcome) (w : World) : World :=
  match outcome with
  | .sent => w.settle t .sent
  | .outboundError _ | .sendForbidden _ | .exception _ => w

/-- A message was handled. -/
def turn (w : World) : World := { w with turns := w.turns + 1 }

/-- `_save_current_compose_state`. -/
def saveCurrentComposeState (w : World) : World :=
  match w.current with
  | none => w
  | some dialog => w.setState dialog { w.composeStates dialog with draft := w.composer }

/-- `_restore_compose_state`. -/
def restoreComposeState (dialog : ℤ) (w : World) : World :=
  w.setComposer (w.composeStates dialog).draft

/-- `_open_dialog`. -/
def openDialog (dialog : ℤ) (w : World) : World :=
  { w.saveCurrentComposeState with current := some dialog }.restoreComposeState dialog

/-- The user edits what is in the composer. -/
def edit (value : String) (w : World) : World :=
  match w.current with
  | none => w.setComposer value
  | some dialog =>
    if value = w.composer then w else (w.takeUp dialog w.composer).setComposer value

end World

/-- What an operation does that is not cut off. -/
def act (setup : Setup) (t : ℕ) : (o : Op) → World → Asyncio.Reply Unit (effects.Ret o) World
  | .handle, w =>
    match w.posted with
    | [] => .blocked
    | .changed value :: rest =>
      .done (.ok .nothing) ({ w with posted := rest }.onInputChanged value).turn
    | .submitted value :: rest =>
      .done (.ok ({ w with posted := rest }.onInputSubmitted setup t value).1)
        ({ w with posted := rest }.onInputSubmitted setup t value).2.turn
  | .begin dialog text, w =>
    .done (.ok ()) (w.setState dialog { w.composeStates dialog with draft := text })
  | .prepare .., w => .done (.ok (setup.prepared w.calls)) w.next
  | .dropDraft dialog text, w => .done (.ok ()) (w.dropDraft dialog text)
  | .offerOriginal dialog text result, w => .done (.ok ()) (w.offerOriginal t dialog text result)
  | .pick .., w => .done (.ok (setup.picked w.calls)) w.next
  | .escaped dialog text, w => .done (.ok ()) ((w.showIn dialog text).settle t .back)
  | .pickedOriginal dialog text, w =>
    .done (.ok ())
      (((w.offer dialog text).notify "Press Enter to send the original").settle t .back)
  | .pickedVariant dialog text picked token, w =>
    .done (.ok ()) (w.pickedVariant t dialog text picked token)
  | .send .., w =>
    .done (.ok (setup.sends w.calls)) (w.next.answered t (setup.sends w.calls))
  | .sendMedia .., w =>
    .done (.ok (setup.sends w.calls)) (w.next.answered t (setup.sends w.calls))
  | .clearAfterSend dialog sentText, w => .done (.ok ()) (w.clearAfterSend dialog sentText)
  | .sendFailed dialog text notice, w =>
    .done (.ok ()) (((w.notify notice).restoreDraft dialog text).settle t .notified)

/-- What the user does. -/
inductive TuiEvent where
  | edit (value : String)
  | pressEnter
  | openDialog (dialog : ℤ)

/-- The composer; an operation raises where its worker was cancelled. -/
def system (setup : Setup) : System effects ℕ World TuiEvent where
  handle t o w :=
    if t ∈ w.cancelled then .done (.error ()) w else act setup t o w
  env
    | .edit value, w => some (w.edit value)
    | .pressEnter, w => some { w with posted := w.posted ++ [.submitted w.composer] }
    | .openDialog dialog, w => some (w.openDialog dialog)

/-- An empty composer, before a dialog was opened. -/
def World.init : World where
  current := none
  composer := ""
  composeStates _ := {}
  posted := []
  outbound := none
  cancelled := []
  notices := []
  submissions := []
  turns := 0
  calls := 0

/-- Handlers in progress, and what they still have to do. -/
abbrev TuiConfig := Config effects ℕ World Unit

/-- Each handler waits for a message. -/
def start : TuiConfig := ⟨.init, fun _ ↦ handler⟩

end TgMessenger.Tui.Composer
