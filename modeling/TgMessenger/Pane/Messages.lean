import TgMessenger.Asyncio.Task
import TgMessenger.Data.Json
import TgMessenger.Pane.History
import TgMessenger.Pane.Send
import TgMessenger.Pane.Stream

/-!
# The messages of the pane

The list the pane draws (`claude-plugin/hooks/register.tsx`) has four writers: `loadHistory`
replaces it, the live stream and the composer append to it, and `switchDialog` empties it.  Each
waits for children in between, and none looks at what the others have written.
-/

namespace TgMessenger.Pane.Messages

open Asyncio

/-! ## The code -/

/-- An entry of the list, with the dialog it belongs to. -/
structure Entry where
  id : Option ℤ
  text : List Char
  out : Bool
  system : Bool
  dialog : String
deriving DecidableEq

/-- A message of a dialog. -/
def Entry.ofMessage (dialog : String) (m : TgMessage) : Entry :=
  ⟨some m.id, m.text, m.out, false, dialog⟩

/-- A line of the pane itself. -/
def Entry.ofSystem (text : String) : Entry := ⟨none, text.toList, false, true, ""⟩

/-- `messageFromApi`, for ids that are integers. -/
def messageFromApi (raw : Json) : Option TgMessage :=
  match raw.field? "id" with
  | some (.num id) =>
    if id.den = 1 then
      some
        { id := id.num
          out := (raw.field? "out").any fun | .bool out => out | _ => false
          text :=
            match raw.field? "text" with
            | some (.str text) => text.toList
            | _ => "[медиа]".toList }
    else none
  | _ => none

/-- What the coroutines await, or do to what they share. -/
inductive Op where
  | /-- A look at `cfg`. -/
    config
  | /-- `runApiJson($, cfg, '/api/dialogs/…/messages?limit=50&fresh=1')`. -/
    getMessages (port : Option ℕ) (dialog : String)
  | /-- `runCli($, ['--profile', …, 'read', '--limit', '50', '--', …])`. -/
    read (profile ref : String)
  | /-- `runApiRaw($, cfg.daemonPort, 'POST', '/send', …)`. -/
    post (port : Option ℕ) (dialog text : String)
  | /-- `runCli($, ['--profile', …, 'send', '--', …])`. -/
    send (profile ref text : String)
  | /-- `runCli($, ['--profile', …, 'send', '--file', …])`. -/
    sendFile (profile ref path : String) (caption : Option String)
  | rememberSent (id : ℕ)
  | /-- `update($, messages, () => …)`, with messages of a dialog. -/
    replace (dialog : String) (ms : List TgMessage)
  | /-- `update($, messages, all => [...all, entry].slice(-100))`. -/
    append (entry : Entry)
  | /-- The same for a text that goes nowhere, in the dialog that is open. -/
    appendUnsent (text : String)
  | /-- `switchDialog`, up to the first thing it waits for. -/
    switchDialog (id : String)

/-- The effects of the pane; a fault is the text of an exception. -/
abbrev effects : Effects where
  Op := Op
  Fault := String
  Ret
    | .config => ModConfig
    | .getMessages .. => Option Json
    | .read .. => String × String
    | .post .. => Option String
    | .send .. => String × String
    | .sendFile .. => String × String
    | .rememberSent _ => Unit
    | .replace .. => Unit
    | .append _ => Unit
    | .appendUnsent _ => Unit
    | .switchDialog _ => Unit

/-- A coroutine of the pane. -/
abbrev PaneProg (α : Type) := Prog effects α

/-- Await one operation. -/
abbrev perform (o : Op) : PaneProg (effects.Ret o) := Prog.perform (E := effects) o

section Programs

variable (env : Env)

/-- `loadHistory`. -/
def loadHistory : PaneProg Unit := do
  let cfg : ModConfig ← perform .config
  let api : Option Json ← perform (.getMessages cfg.daemonPort cfg.resolvedId)
  match api with
  | some (.arr items) => perform (.replace cfg.resolvedId (items.filterMap messageFromApi))
  | _ => do
    let cfg : ModConfig ← perform .config
    let out : String × String ← perform (.read cfg.profile cfg.peerRef)
    match cliError out.2 with
    | some error => .raise error
    | none => perform (.replace (env.dialog cfg.peerRef) (parseHistory out.1.toList))

/-- `if (id != null) rememberSent(id)`. -/
def remember : Option ℕ → PaneProg Unit
  | some id => perform (.rememberSent id)
  | none => return ()

/-- The id a child has printed, remembered. -/
def confirm (out : String × String) : PaneProg (Option ℕ) :=
  match cliError out.2 with
  | some error => .raise error
  | none =>
    match sentId out.1 with
    | none => .raise "send failed — the CLI printed no confirmation"
    | some id => do
      remember id
      return id

/-- `sendText`: the id, and the dialog the text went to. -/
def sendText (text : String) : PaneProg (Option ℕ × String) := do
  let cfg : ModConfig ← perform .config
  let body : Option String ← perform (.post cfg.daemonPort cfg.resolvedId text)
  match body.filter fun body ↦ !isBlankBody body with
  | some body => do
    remember (env.jsonId body)
    loadHistory env
    return (env.jsonId body, cfg.resolvedId)
  | none => do
    let cfg : ModConfig ← perform .config
    let out : String × String ← perform (.send cfg.profile cfg.peerRef text)
    let id ← confirm out
    return (id, env.dialog cfg.peerRef)

/-- `sendMedia`. -/
def sendMedia (path : String) (caption : Option String) : PaneProg (Option ℕ × String) := do
  let cfg : ModConfig ← perform .config
  let out : String × String ← perform (.sendFile cfg.profile cfg.peerRef path caption)
  let id ← confirm out
  return (id, env.dialog cfg.peerRef)

/-- `onSubmit` of the composer, for a text that is not blank; `media` is what
`parseMediaCommand` makes of it. -/
def onSubmit (text : String) (media : Option (String × Option String)) : PaneProg Unit := do
  let cfg : ModConfig ← perform .config
  if !cfg.ready then
    perform (.appendUnsent text)
  else
    Prog.rescue (do
      match media with
      | some (path, caption) => do
        let (id, dialog) ← sendMedia env path caption
        perform (.append ⟨id.map Nat.cast, '@' :: path.toList, true, false, dialog⟩)
      | none => do
        let (id, dialog) ← sendText env text
        perform (.append ⟨id.map Nat.cast, text.toList, true, false, dialog⟩))
      fun message ↦ perform (.append (.ofSystem message))

/-- The part of `bootPane` that loads the history. -/
def bootHistory : PaneProg Unit :=
  (loadHistory env).rescue fun message ↦ perform (.append (.ofSystem message))

/-- One round of `startPolling`. -/
def poll : PaneProg Unit := (loadHistory env).rescue fun _ ↦ return ()

/-- `switchDialog`. -/
def switchDialog (id : String) : PaneProg Unit := do
  perform (.switchDialog id)
  (loadHistory env).rescue fun _ ↦ return ()

end Programs

/-! ## Running the pane -/

/-- The environment, and what the `n`-th child prints. -/
structure Setup extends Env where
  /-- The value a GET returns, if it returns any. -/
  api : ℕ → Option Json
  /-- The body of a POST. -/
  posted : ℕ → Option String
  /-- The outputs of a `tg-messenger`. -/
  printed : ℕ → String × String

/-- What the writers share. -/
structure World where
  cfg : ModConfig
  sentIds : List ℕ
  /-- What is left of the output of `listen`. -/
  buffer : List Char
  messages : List Entry
  /-- How many children were spawned. -/
  children : ℕ

/-- The ids of a list. -/
def ids (entries : List Entry) : List ℤ := entries.filterMap Entry.id

/-- The dialog of a line of `listen`. -/
def lineDialog (line : List Char) : String :=
  ((streamLine line).map fun m ↦ String.ofList m.2.1).getD ""

namespace World

/-- A child has ended. -/
def next (w : World) : World := { w with children := w.children + 1 }

/-- Entries come at the end of the list. -/
def append (batch : List Entry) (w : World) : World :=
  { w with messages := (w.messages ++ batch).rtake 100 }

/-- The messages of the lines that a chunk of the output completes. -/
def batch (w : World) (chunk : List Char) : List Entry :=
  (Lines.cut '\n' (w.buffer ++ chunk)).1.filterMap fun line ↦
    (parseStreamLine w.cfg.resolvedId.toList w.sentIds line).map (.ofMessage (lineDialog line))

/-- A chunk of the output of `listen` comes. -/
def burst (chunk : List Char) (w : World) : World :=
  let batch := w.batch chunk
  { w with
    buffer := (Lines.cut '\n' (w.buffer ++ chunk)).2
    messages := if batch = [] then w.messages else (w.messages ++ batch).rtake 100 }

/-- What an operation gives. -/
def answer (setup : Setup) (w : World) : (o : Op) → effects.Ret o
  | .config => w.cfg
  | .getMessages none _ | .getMessages (some 0) _ => none
  | .getMessages (some (_ + 1)) _ => setup.api w.children
  | .post none .. | .post (some 0) .. => none
  | .post (some (_ + 1)) .. => setup.posted w.children
  | .read .. | .send .. | .sendFile .. => setup.printed w.children
  | .rememberSent _ | .replace .. | .append _ | .appendUnsent _ | .switchDialog _ => ()

/-- What an operation does. -/
def after (w : World) : Op → World
  | .config | .getMessages none _ | .getMessages (some 0) _ | .post none .. | .post (some 0) .. => w
  | .getMessages (some (_ + 1)) _ | .post (some (_ + 1)) .. | .read .. | .send .. | .sendFile .. =>
    w.next
  | .rememberSent id => { w with sentIds := rememberSent w.sentIds id }
  | .replace dialog ms => { w with messages := ms.map (.ofMessage dialog) }
  | .append entry => w.append [entry]
  | .appendUnsent text => w.append [⟨none, text.toList, true, false, w.cfg.resolvedId⟩]
  | .switchDialog id => { w with cfg := w.cfg.switchDialog id, messages := [] }

end World

/-- What an operation does, and what it gives. -/
def handle (setup : Setup) (o : Op) (w : World) : Asyncio.Reply String (effects.Ret o) World :=
  .done (.ok (w.answer setup o)) (w.after o)

/-- What happens beside the coroutines. -/
inductive PaneEvent where
  | /-- `ensureDaemon` or `startDaemon` finds the daemon. -/
    adopt (port : ℕ)
  | /-- A chunk of the output of `listen`. -/
    chunk (text : List Char)
  | /-- `runStream` says what has happened to the stream. -/
    streamState (text : String)
  | /-- `runStream` spawns another `listen`. -/
    respawn

/-- The pane. -/
def system {ι : Type} (setup : Setup) : System effects ι World PaneEvent where
  handle _ := handle setup
  env
    | .adopt port, w => some { w with cfg := { w.cfg with daemonPort := some port } }
    | .chunk text, w => some (w.burst text)
    | .streamState text, w => some (w.append [.ofSystem text])
    | .respawn, w => some { w with buffer := [] }

/-- What runs in the pane. -/
inductive Task where
  | bootHistory
  | poll
  | onSubmit (text : String) (media : Option (String × Option String))
  | switchDialog (id : String)

/-- The coroutine of a task. -/
def Task.prog (env : Env) : Task → PaneProg Unit
  | .bootHistory => Messages.bootHistory env
  | .poll => Messages.poll env
  | .onSubmit text media => Messages.onSubmit env text media
  | .switchDialog id => Messages.switchDialog env id

/-! ## Consistent lists -/

/-- No id occurs twice, and every entry but those of the pane itself belongs to a dialog. -/
structure Consistent (dialog : String) (entries : List Entry) : Prop where
  nodup : (ids entries).Nodup
  dialog : ∀ e ∈ entries, e.system = false → e.dialog = dialog

/-- Two consistent lists without a common id make one. -/
theorem consistent_append_iff {dialog : String} {before after : List Entry}
    (h : Consistent dialog before) :
    Consistent dialog (before ++ after) ↔
      Consistent dialog after ∧ ∀ id ∈ ids after, id ∉ ids before := by
  have happend : ids (before ++ after) = ids before ++ ids after := List.filterMap_append
  constructor
  · rintro ⟨hnodup, hdialog⟩
    rw [happend, List.nodup_append] at hnodup
    refine ⟨⟨hnodup.2.1, fun e he ↦ hdialog e (List.mem_append_right _ he)⟩, ?_⟩
    exact fun id hafter hbefore ↦ hnodup.2.2 id hbefore id hafter rfl
  · rintro ⟨⟨hnodup, hdialog⟩, hfree⟩
    constructor
    · rw [happend, List.nodup_append]
      refine ⟨h.nodup, hnodup, ?_⟩
      rintro id hbefore _ hafter rfl
      exact hfree id hafter hbefore
    · intro e he
      rcases List.mem_append.mp he with he | he
      · exact h.dialog e he
      · exact hdialog e he

theorem Consistent.of_sublist {dialog : String} {entries before : List Entry}
    (h : Consistent dialog entries) (hsub : before.Sublist entries) :
    Consistent dialog before where
  nodup := h.nodup.sublist (hsub.filterMap _)
  dialog e he := h.dialog e (hsub.subset he)

theorem consistent_nil (dialog : String) : Consistent dialog [] where
  nodup := List.nodup_nil
  dialog _ he := nomatch he

/-- The messages of one dialog. -/
theorem consistent_map_iff {dialog dialog' : String} {ms : List TgMessage} :
    Consistent dialog (ms.map (.ofMessage dialog')) ↔
      (ms ≠ [] → dialog' = dialog) ∧ (ms.map TgMessage.id).Nodup := by
  have hids : ids (ms.map (.ofMessage dialog')) = ms.map TgMessage.id := by
    rw [ids, List.filterMap_map, ← List.filterMap_eq_map]
    rfl
  constructor
  · rintro ⟨hnodup, hdialog⟩
    rw [hids] at hnodup
    refine ⟨?_, hnodup⟩
    intro hne
    obtain ⟨m, hm⟩ := List.exists_mem_of_ne_nil ms hne
    exact hdialog _ (List.mem_map_of_mem hm) rfl
  · rintro ⟨hdialog, hnodup⟩
    constructor
    · rw [hids]
      exact hnodup
    · intro e he _
      obtain ⟨m, hm, rfl⟩ := List.mem_map.mp he
      exact hdialog (List.ne_nil_of_mem hm)

end TgMessenger.Pane.Messages
