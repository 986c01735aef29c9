import TgMessenger.Pane.Config
import TgMessenger.Data.Machine
import Mathlib.Tactic.SplitIfs

/-!
# Sending from the pane

`sendText` and `sendReaction` have one form: a POST to the warm daemon, and a cold CLI child
when `curl` brings no usable answer.  A POST is a message in flight: the daemon may handle it
at any time, also after `curl` has given up on it, or never.

A call is suspended while it waits for a child, and the configuration may be switched to
another dialog there.
-/

namespace TgMessenger.Pane

/-! ## The two actions -/

/-- The common form of `sendText` and `sendReaction`. -/
structure Plan where
  /-- The POST. -/
  request : ModConfig → Option Spawn
  /-- Whether what `curl` printed ends the call. -/
  answered : String → Bool
  /-- The id in the answer. -/
  warmId : String → Option ℕ
  /-- Whether history is read again after an answer. -/
  reloads : Bool
  /-- The child that is spawned when there is no answer. -/
  fallback : ModConfig → Spawn
  /-- What its output says. -/
  coldResult : String → String → Except String (Option ℕ)

/-- `sendText`. -/
def sendText (env : Env) (text : String) : Plan where
  request cfg :=
    runApiRaw cfg.daemonPort ["send"] [("dialog_id", cfg.resolvedId), ("text", text)] false
  answered body := !isBlankBody body
  warmId body := env.jsonId body
  reloads := true
  fallback cfg := .cli ["--profile", cfg.profile, "send", "--", cfg.peerRef, text]
  coldResult stdout stderr :=
    match cliError stderr with
    | some error => .error error
    | none =>
      match sentId stdout with
      | none => .error "send failed — the CLI printed no confirmation"
      | some id => .ok id

/-- `sendReaction`. -/
def sendReaction (messageId : ℕ) (emoticon : String) : Plan where
  request cfg :=
    runApiRaw cfg.daemonPort ["dialogs", cfg.resolvedId, "reaction"]
      [("message_id", toString messageId), ("emoticon", emoticon)] true
  answered code := startsWith "2" code
  warmId _ := none
  reloads := false
  fallback cfg :=
    .cli ["--profile", cfg.profile, "react", "--", cfg.peerRef, toString messageId, emoticon]
  coldResult _ stderr :=
    match cliError stderr with
    | some error => .error error
    | none => .ok none

/-- What a call does. -/
inductive Action where
  | text (text : String)
  | reaction (messageId : ℕ) (emoticon : String)
deriving DecidableEq

/-- The plan of an action. -/
def Action.plan (env : Env) : Action → Plan
  | .text body => sendText env body
  | .reaction messageId emoticon => sendReaction messageId emoticon

/-- `rememberSent`; the oldest id comes first. -/
def rememberSent (sentIds : List ℕ) (id : ℕ) : List ℕ :=
  let sentIds := if id ∈ sentIds then sentIds else sentIds ++ [id]
  if 500 < sentIds.length then sentIds.tail else sentIds

/-! ## The daemon -/

/-- How the daemon's own call of Telegram ends. -/
inductive ClientResult where
  | done (id : ℕ)
  | /-- It raises, before or after Telegram has acted. -/
    raised (acted : Bool) (status : ℕ)

/-- What the daemon answers. -/
structure Reply where
  status : ℕ
  body : String
deriving DecidableEq

/-- `dialog_id.strip().lstrip("-").isdigit()`. -/
def isDialogId (env : Env) (dialogId : String) : Bool :=
  let digits := (stripChars dialogId.toList).dropWhile (· == '-')
  !digits.isEmpty && digits.all env.isdigit

/-- The route `/send`, for a form without `reply_to`, `web_client_id` and `outbound_nonce`,
with the dialog Telegram acted in. -/
def sendRoute (env : Env) (form : List (String × String)) (readonly : Bool)
    (result : ClientResult) : Option String × Reply :=
  let dialogId := (form.lookup "dialog_id").getD ""
  let text := (form.lookup "text").getD ""
  if !isDialogId env dialogId then (none, ⟨400, ""⟩)
  else if isBlank text then (none, ⟨400, ""⟩)
  else if readonly then (none, ⟨403, ""⟩)
  else
    match result with
    | .done id => (some dialogId, ⟨200, "\x7b\"id\":" ++ toString id ++ "\x7d"⟩)
    | .raised acted status => (if acted then some dialogId else none, ⟨status, ""⟩)

/-- The route `/dialogs/{dialog_id}/reaction`. -/
def reactionRoute (env : Env) (dialogId : String) (form : List (String × String))
    (result : ClientResult) : Option String × Reply :=
  let messageId := stripChars ((form.lookup "message_id").getD "").toList
  if !env.isInt dialogId then (none, ⟨422, ""⟩)
  else if messageId.isEmpty || !messageId.all env.isdigit then (none, ⟨400, ""⟩)
  else if isBlank ((form.lookup "emoticon").getD "") then (none, ⟨400, ""⟩)
  else
    match result with
    | .done _ => (some dialogId, ⟨204, ""⟩)
    | .raised acted status => (if acted then some dialogId else none, ⟨status, ""⟩)

/-- What the daemon does with a request. -/
def route (env : Env) (readonly : Bool) (result : ClientResult) :
    Spawn → Option String × Reply
  | .curl _ ["send"] form _ => sendRoute env form readonly result
  | .curl _ ["dialogs", dialogId, "reaction"] form _ => reactionRoute env dialogId form result
  | _ => (none, ⟨404, ""⟩)

/-- A possible output of `curl -sf`: the body of a success or a first part of it when the
time is up, with `statusOnly` the status, and nothing of an error. -/
def curlPrints (spawn : Spawn) (reply : Option Reply) (stdout : String) : Bool :=
  match spawn with
  | .curl _ _ _ true =>
    stdout == "" || stdout == "000" || reply.any fun r ↦ stdout == toString r.status
  | .curl _ _ _ false =>
    stdout == "" || reply.any fun r ↦
      decide (r.status < 400) && stdout.toList.isPrefixOf r.body.toList
  | .cli _ => false

/-! ## Concurrent calls -/

/-- A call in progress. -/
structure Call where
  action : Action
  /-- The dialog that was open when it started. -/
  dialog : String
deriving DecidableEq

/-- Where a call stands. -/
inductive Status where
  | idle
  | /-- In `runApiRaw`. -/
    warm (call : Call)
  | /-- In `loadHistory`. -/
    loading (call : Call) (id : Option ℕ)
  | /-- In `runCli`, whose child has acted or not yet. -/
    cold (call : Call) (child : Spawn) (acted : Bool)
  | ended (result : Except String (Option ℕ))

/-- The call, while it waits for `curl`. -/
def Status.waiting : Status → Option Call
  | .warm call => some call
  | _ => none

/-- A POST on its way. -/
structure Post where
  call : Call
  spawn : Spawn
  /-- What the daemon answered. -/
  reply : Option Reply

/-- A pane with its calls. -/
structure World where
  cfg : ModConfig
  sentIds : List ℕ
  status : ℕ → Status
  /-- The POST of each call. -/
  posts : ℕ → Option Post
  /-- The children spawned so far, latest first. -/
  spawned : List (Call × Spawn)
  /-- The dialogs Telegram has acted in so far, latest first. -/
  acts : List (ℕ × Call × String)

/-- What can happen to a pane. -/
inductive Event where
  | switchDialog (id : String)
  | /-- `ensureDaemon` or `startDaemon` finds the daemon. -/
    adopt (port : ℕ)
  | start (t : ℕ) (action : Action)
  | /-- The daemon handles the POST of a call. -/
    serve (t : ℕ) (readonly : Bool) (result : ClientResult)
  | /-- `runApiRaw` returns. -/
    warmEnded (t : ℕ) (stdout : Option String)
  | /-- `loadHistory` returns or raises. -/
    loaded (t : ℕ) (error : Option String)
  | /-- The child of a call acts. -/
    acts (t : ℕ)
  | /-- `runCli` returns. -/
    coldEnded (t : ℕ) (stdout stderr : String)

namespace World

/-- A pane that waits for nothing. -/
def init (cfg : ModConfig) : World :=
  { cfg, sentIds := [], status := fun _ ↦ .idle, posts := fun _ ↦ none, spawned := [], acts := [] }

/-- The sent ids after a call that has learnt an id. -/
def remember (w : World) : Option ℕ → List ℕ
  | some id => rememberSent w.sentIds id
  | none => w.sentIds

/-- Whether `runApiRaw` may return this for a call. -/
def mayReturn (w : World) (t : ℕ) : Option String → Bool
  | none => true
  | some stdout => (w.posts t).any fun post ↦ curlPrints post.spawn post.reply stdout

/-- What an event does. -/
def step (env : Env) : Machine World Event := fun w e ↦
  match e with
  | .switchDialog id => some { w with cfg := w.cfg.switchDialog id }
  | .adopt port => some { w with cfg := { w.cfg with daemonPort := some port } }
  | .start t action =>
    match w.status t with
    | .idle =>
      let call : Call := ⟨action, env.dialog w.cfg.resolvedId⟩
      let status := Function.update w.status t (.warm call)
      match (action.plan env).request w.cfg with
      | none => some { w with status }
      | some spawn =>
        some { w with
          status
          posts := Function.update w.posts t (some ⟨call, spawn, none⟩)
          spawned := (call, spawn) :: w.spawned }
    | _ => none
  | .serve t readonly result =>
    match w.posts t with
    | some ⟨call, spawn, none⟩ =>
      let r := route env readonly result spawn
      some { w with
        posts := Function.update w.posts t (some ⟨call, spawn, some r.2⟩)
        acts := (r.1.map fun dialogId ↦ (t, call, env.dialog dialogId)).toList ++ w.acts }
    | _ => none
  | .warmEnded t stdout =>
    match w.status t with
    | .warm call =>
      if w.mayReturn t stdout then
        let plan := call.action.plan env
        match stdout.filter plan.answered with
        | some body =>
          let id := plan.warmId body
          some { w with
            sentIds := w.remember id
            status := Function.update w.status t
              (if plan.reloads then .loading call id else .ended (.ok id)) }
        | none =>
          let child := plan.fallback w.cfg
          some { w with
            status := Function.update w.status t (.cold call child false)
            spawned := (call, child) :: w.spawned }
      else none
    | _ => none
  | .loaded t error =>
    match w.status t with
    | .loading _ id =>
      some { w with
        status := Function.update w.status t (.ended (error.elim (.ok id) .error)) }
    | _ => none
  | .acts t =>
    match w.status t with
    | .cold call child false =>
      child.ref.map fun ref ↦
        { w with
          status := Function.update w.status t (.cold call child true)
          acts := (t, call, env.dialog ref) :: w.acts }
    | _ => none
  | .coldEnded t stdout stderr =>
    match w.status t with
    | .cold call _ _ =>
      match (call.action.plan env).coldResult stdout stderr with
      | .ok id =>
        some { w with
          sentIds := w.remember id
          status := Function.update w.status t (.ended (.ok id)) }
      | .error error => some { w with status := Function.update w.status t (.ended (.error error)) }
    | _ => none

end World

/-! ## What children name -/

variable {env : Env} {w w' : World}

theorem ref_of_runApiRaw {port : Option ℕ} {path : List String} {form : List (String × String)}
    {statusOnly : Bool} {spawn : Spawn} (h : runApiRaw port path form statusOnly = some spawn) :
    ∃ port, spawn = .curl port path form statusOnly := by
  unfold runApiRaw at h
  split at h
  · cases h
  · cases h
  · exact ⟨_, (Option.some.inj h).symm⟩

/-- The POST names the dialog that is open. -/
theorem ref_request {action : Action} {cfg : ModConfig} {spawn : Spawn}
    (h : (action.plan env).request cfg = some spawn) : spawn.ref = some cfg.resolvedId := by
  cases action with
  | text =>
    obtain ⟨port, rfl⟩ := ref_of_runApiRaw h
    rfl
  | reaction =>
    obtain ⟨port, rfl⟩ := ref_of_runApiRaw h
    rfl

/-- The child names the peer reference of the configuration. -/
theorem ref_fallback (action : Action) (cfg : ModConfig) :
    ((action.plan env).fallback cfg).ref = some cfg.peerRef := by
  cases action <;> rfl

/-- The daemon acts only in the dialog a request names. -/
theorem ref_of_route {readonly : Bool} {result : ClientResult} {spawn : Spawn} {dialogId : String}
    (h : (route env readonly result spawn).1 = some dialogId) : spawn.ref = some dialogId := by
  unfold route at h
  split at h
  · rename_i port form statusOnly
    have hform : dialogId = (form.lookup "dialog_id").getD "" := by
      unfold sendRoute at h
      grind
    cases hlookup : form.lookup "dialog_id" with
    | none =>
      have hempty : isDialogId env "" = false := rfl
      simp only [sendRoute, hlookup, Option.getD_none, hempty] at h
      cases h
    | some d =>
      rw [hlookup, Option.getD_some] at hform
      rw [hform]
      exact hlookup
  · unfold reactionRoute at h
    grind [Spawn.ref]
  · cases h

/-! ## What each event does -/

namespace World

/-- A call starts. -/
theorem step_start {t : ℕ} {action : Action} (hs : w.step env (.start t action) = some w') :
    let call : Call := ⟨action, env.dialog w.cfg.resolvedId⟩
    w.status t = .idle ∧ w'.cfg = w.cfg ∧ w'.acts = w.acts ∧
      w'.status = Function.update w.status t (.warm call) ∧
      (w'.spawned = w.spawned ∧ w'.posts = w.posts ∨
        ∃ spawn : Spawn, spawn.ref = some w.cfg.resolvedId ∧
          w'.spawned = (call, spawn) :: w.spawned ∧
          w'.posts = Function.update w.posts t (some ⟨call, spawn, none⟩)) := by
  dsimp only
  rw [step] at hs
  split at hs
  · rename_i hidle
    dsimp only at hs
    split at hs
    · obtain rfl := Option.some.inj hs
      exact ⟨hidle, rfl, rfl, rfl, .inl ⟨rfl, rfl⟩⟩
    · rename_i spawn hspawn
      obtain rfl := Option.some.inj hs
      exact ⟨hidle, rfl, rfl, rfl, .inr ⟨spawn, ref_request hspawn, rfl, rfl⟩⟩
  · cases hs

/-- The daemon handles a POST. -/
theorem step_serve {t : ℕ} {readonly : Bool} {result : ClientResult}
    (hs : w.step env (.serve t readonly result) = some w') :
    ∃ post, w.posts t = some post ∧ post.reply = none ∧ w'.cfg = w.cfg ∧
      w'.status = w.status ∧ w'.spawned = w.spawned ∧
      w'.posts = Function.update w.posts t
        (some { post with reply := some (route env readonly result post.spawn).2 }) ∧
      w'.acts = ((route env readonly result post.spawn).1.map fun dialogId ↦
        (t, post.call, env.dialog dialogId)).toList ++ w.acts := by
  rw [step] at hs
  split at hs
  · rename_i call spawn hpost
    obtain rfl := Option.some.inj hs
    exact ⟨_, hpost, rfl, rfl, rfl, rfl, rfl, rfl⟩
  · cases hs

/-- `runApiRaw` returns: the call ends or falls back. -/
theorem step_warmEnded {t : ℕ} {stdout : Option String}
    (hs : w.step env (.warmEnded t stdout) = some w') :
    ∃ call, w.status t = .warm call ∧ w'.cfg = w.cfg ∧ w'.acts = w.acts ∧ w'.posts = w.posts ∧
      (stdout.filter (call.action.plan env).answered ≠ none ∧ w'.spawned = w.spawned ∧
          (∃ id, w'.status = Function.update w.status t (.loading call id) ∨
            w'.status = Function.update w.status t (.ended (.ok id))) ∨
        stdout.filter (call.action.plan env).answered = none ∧
          ∃ child : Spawn, child.ref = some w.cfg.peerRef ∧
            w'.spawned = (call, child) :: w.spawned ∧
            w'.status = Function.update w.status t (.cold call child false)) := by
  rw [step] at hs
  split at hs
  · rename_i call hwarm
    refine ⟨call, hwarm, ?_⟩
    split_ifs at hs
    dsimp only at hs
    split at hs
    · rename_i body hbody
      obtain rfl := Option.some.inj hs
      refine ⟨rfl, rfl, rfl, .inl ⟨?_, rfl, (call.action.plan env).warmId body, ?_⟩⟩
      · rw [hbody]
        exact Option.some_ne_none _
      dsimp only
      split_ifs
      · exact .inl rfl
      · exact .inr rfl
    · rename_i hnone
      obtain rfl := Option.some.inj hs
      exact ⟨rfl, rfl, rfl, .inr ⟨hnone, _, ref_fallback call.action w.cfg, rfl, rfl⟩⟩
  · cases hs

/-- `loadHistory` returns or raises. -/
theorem step_loaded {t : ℕ} {error : Option String} (hs : w.step env (.loaded t error) = some w') :
    ∃ call id result, w.status t = .loading call id ∧
      w' = { w with status := Function.update w.status t (.ended result) } := by
  rw [step] at hs
  split at hs
  · rename_i call id hloading
    obtain rfl := Option.some.inj hs
    exact ⟨call, id, _, hloading, rfl⟩
  · cases hs

/-- The child of a call acts. -/
theorem step_acts {t : ℕ} (hs : w.step env (.acts t) = some w') :
    ∃ call child ref, w.status t = .cold call child false ∧ child.ref = some ref ∧
      w' = { w with
        status := Function.update w.status t (.cold call child true)
        acts := (t, call, env.dialog ref) :: w.acts } := by
  rw [step] at hs
  split at hs
  · rename_i call child hcold
    obtain ⟨ref, href, rfl⟩ := Option.map_eq_some_iff.mp hs
    exact ⟨call, child, ref, hcold, href, rfl⟩
  · cases hs

/-- `runCli` returns. -/
theorem step_coldEnded {t : ℕ} {stdout stderr : String}
    (hs : w.step env (.coldEnded t stdout stderr) = some w') :
    ∃ call child acted result sentIds, w.status t = .cold call child acted ∧
      w' = { w with sentIds, status := Function.update w.status t (.ended result) } := by
  rw [step] at hs
  split at hs
  · rename_i call child acted hcold
    split at hs
    · obtain rfl := Option.some.inj hs
      exact ⟨call, child, acted, _, _, hcold, rfl⟩
    · obtain rfl := Option.some.inj hs
      exact ⟨call, child, acted, _, _, hcold, rfl⟩
  · cases hs

end World

end TgMessenger.Pane
