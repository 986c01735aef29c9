import TgMessenger.Web.Cookies
import Mathlib.Data.List.Infix

/-!
# The web application

`build_app` (`web/app.py`): the gate that asks for the cookie, the routes, and what their handlers
call.  A request that the validation of FastAPI refuses, what a call comes to, and the calls of the
suggester and the translators themselves are outside.
-/

namespace TgMessenger.Web.App

open Cookies

/-! ## Requests and responses -/

inductive Method where
  | get | post | other
deriving DecidableEq

structure Request where
  method : Method
  /-- `scope["path"]`, by which a request is routed. -/
  path : String
  /-- `request.url.path`, by which the gate knows it: the header `host` is parsed with it. -/
  urlPath : String
  scheme : String
  netloc : String
  header : String → Option String
  /-- The cookie `tg_session`. -/
  cookie : Option String := none
  /-- The fields of a form, or of a query. -/
  field : String → Option String := fun _ ↦ none
  /-- The parts in which an upload is read. -/
  chunks : List (List UInt8) := []

/-- A field that is `""` when it is missing. -/
def Request.text (req : Request) (name : String) : String := (req.field name).getD ""

/-- What a response shows. -/
inductive Body where
  | empty
  | /-- A template that is the same for everyone. -/
    page (name : String)
  | /-- A file of the mount `/static`. -/
    static
  | error (text : String)
  | /-- Data of the account. -/
    content
deriving DecidableEq

structure Response where
  status : ℕ
  body : Body := .empty
  location : Option String := none
  setCookie : Option String := none
  deleteCookie : Bool := false
deriving DecidableEq

/-- `_error_response`. -/
def errorResponse (text : String) (status : ℕ) : Response := { status, body := .error text }

/-- `RedirectResponse`. -/
def redirect (location : String) (status : ℕ) : Response := { status, location := some location }

def content : Response := { status := 200, body := .content }

/-- A call that reaches the account, or what is kept of it. -/
inductive Call where
  | resetLogin
  | submitPhone (phone : String)
  | resend
  | submitCode (code : String)
  | submitPassword (password : String)
  | saveSession
  | listProfiles
  | dialogs
  | searchMessages (dialogId : ℤ) (q : String)
  | history (dialogId : ℤ)
  | listen (dialogId : ℤ)
  | markRead (dialogId maxId : ℤ)
  | sendText (dialogId : ℤ) (text : String) (replyTo : Option ℤ) (nonce : Option String)
  | sendReaction (dialogId messageId : ℤ) (emoticon : String)
  | sendMedia (dialogId : ℤ) (data : List UInt8) (caption : Option String)
  | suggest (dialogId : ℤ)
  | prepare (dialogId : ℤ) (text : String)
  | setDialogLang (dialogId : ℤ) (code : Option String) (enabled : Bool)
  | restoreDialogLang (dialogId : ℤ)
  | targetLang
  | setTargetLang (code : Option String)
  | getSettings
  | saveSettings (enabled : Bool) (history : ℤ) (model : Option String)
deriving DecidableEq

/-- The calls that only read. -/
def Call.isRead : Call → Bool
  | .listProfiles | .dialogs | .searchMessages _ _ | .history _ | .listen _ | .targetLang
  | .getSettings => true
  | _ => false

/-- An exception that a handler lets through. -/
inductive Raised where
  | unauthorized
  | floodWait (message : String)
  | sendForbidden (message : String)
  | other

/-- The exception handlers. -/
def Raised.response : Raised → Response
  | .unauthorized => redirect "/tg-login" 302
  | .floodWait message => errorResponse message 503
  | .sendForbidden message => errorResponse message 403
  | .other => errorResponse "Internal error — see log for details." 500

/-- What `session.submit_…` comes to. -/
inductive LoginOutcome where
  | loginError | password | done

/-- What the calls of one request come to. -/
structure Outside where
  /-- The validation of the parameters refuses the request. -/
  unprocessable : Bool := false
  raised : Option Raised := none
  login : LoginOutcome := .loginError
  /-- `can_post_to`. -/
  canPost : Bool := true
  /-- The variant of the token has expired. -/
  outboundError : Bool := false
  /-- `dialogs()` has the dialog; `none` is an exception. -/
  available : Option Bool := some true
  /-- A `ValueError` for a setting. -/
  valueError : Option String := none
  /-- The settings of the dialog could be read before they are changed. -/
  previousLoaded : Bool := true

/-- The response to a request, and the calls made for it. -/
structure Handled where
  response : Response
  calls : List Call := []

/-- A call, and the response when it does not raise. -/
def calling (out : Outside) (call : Call) (response : Response) : Handled :=
  match out.raised with
  | some exc => ⟨exc.response, [call]⟩
  | none => ⟨response, [call]⟩

/-! ## The application -/

/-- The functions of strings that depend on the tables of Unicode. -/
structure Strings where
  isDigit : Char → Bool
  lower : String → String
  /-- The conversion of a path parameter. -/
  pathInt : String → Option ℤ

/-- What the application was built with. -/
structure Setup (κ : Type) where
  lib : Library κ
  strings : Strings
  key : κ
  webPass : Option String := none
  hasSuggester : Bool := false
  hasTranslator : Bool := false
  hasOutbound : Bool := false
  /-- `TG_WEB_MAX_UPLOAD_MB`. -/
  maxUploadMb : Option String := none

variable {κ : Type} (app : Setup κ)

/-- `if web_pass`. -/
def Setup.password (app : Setup κ) : Option String := app.webPass.filter (· ≠ "")

/-- `COOKIE_MAX_AGE`. -/
def cookieMaxAge : ℤ := 7 * 24 * 3600

/-- `_PUBLIC_PATHS` and the prefix of the mount. -/
def isPublic (path : String) : Bool :=
  path = "/login" || path = "/logout" || startsWith "/static/" path

/-- `str.isdigit`. -/
def isDigits (s : List Char) : Bool := s ≠ [] && s.all app.strings.isDigit

/-- `s.strip().lstrip("-").isdigit()`. -/
def isNumeral (s : String) : Bool :=
  isDigits app ((strip s).toList.dropWhile (· == '-'))

/-- `int(s)`. -/
def int (s : String) : Option ℤ := parseInt app.lib.decimal s.toList

/-- The checks of `_same_origin_error` and `_same_origin_json_error`. -/
def isSameOrigin (req : Request) : Bool :=
  req.header "x-tg-messenger-csrf" = some "1" && match req.header "origin" with
    | none => true
    | some origin =>
      let host := ((req.header "host").filter (· ≠ "")).getD req.netloc
      origin = req.scheme ++ "://" ++ host

/-- `_same_origin_error`, before a handler. -/
def sameOrigin (req : Request) (handled : Handled) : Handled :=
  if isSameOrigin req then handled
  else ⟨errorResponse "Suggest requires a same-origin request." 403, []⟩

/-- `_same_origin_json_error`, before a handler. -/
def sameOriginJson (req : Request) (handled : Handled) : Handled :=
  if isSameOrigin req then handled
  else ⟨errorResponse "Outbound requires a same-origin request." 403, []⟩

/-- A `ValueError` of `int`. -/
def notInt : Handled := ⟨Raised.other.response, []⟩

/-! ## The handlers -/

/-- `login_submit`. -/
def loginSubmit (password : String) (now : ℤ) (req : Request) : Handled :=
  if req.text "password" = password then
    match signCookie app.lib app.key (now + cookieMaxAge) with
    | some cookie => ⟨{ redirect "/" 303 with setCookie := some cookie }, []⟩
    | none => notInt
  else ⟨{ status := 401, body := .page "login.html" }, []⟩

/-- `tg_login_code`. -/
def tgLoginCode (req : Request) (out : Outside) : Handled :=
  let submit := Call.submitCode (strip (req.text "code"))
  match out.raised, out.login with
  | some exc, _ => ⟨exc.response, [submit]⟩
  | none, .done => ⟨redirect "/" 302, [submit, .saveSession]⟩
  | none, _ => ⟨content, [submit]⟩

/-- `tg_login_password`. -/
def tgLoginPassword (req : Request) (out : Outside) : Handled :=
  let submit := Call.submitPassword (req.text "password")
  match out.raised, out.login with
  | some exc, _ => ⟨exc.response, [submit]⟩
  | none, .loginError => ⟨content, [submit]⟩
  | none, _ => ⟨redirect "/" 302, [submit, .saveSession]⟩

/-- `mark_read`; what becomes of the call is only logged. -/
def markRead (dialogId : ℤ) (req : Request) : Handled :=
  sameOrigin req <|
    if !isDigits app (strip (req.text "max_id")).toList then
      ⟨errorResponse "max_id must be a positive integer." 400, []⟩
    else
      match int app (req.text "max_id") with
      | some maxId => ⟨{ status := 204 }, [.markRead dialogId maxId]⟩
      | none => notInt

/-- `READ_ONLY_MESSAGE`. -/
def readOnlyMessage : String := "This chat is read-only — you cannot send messages here."

/-- The id of the message that is answered; `none` is a `ValueError`. -/
def replyTo (req : Request) : Option (Option ℤ) :=
  if isNumeral app (req.text "reply_to") then (int app (req.text "reply_to")).map some
  else some none

/-- `send`. -/
def send (req : Request) (out : Outside) : Handled :=
  sameOrigin req <|
    if !isNumeral app (req.text "dialog_id") then
      ⟨errorResponse "Select a dialog first." 400, []⟩
    else if isBlank (req.text "text") then
      ⟨errorResponse "Cannot send an empty message." 400, []⟩
    else
      match int app (req.text "dialog_id"), replyTo app req with
      | some dialogId, some reply =>
        if !out.canPost then ⟨errorResponse readOnlyMessage 403, []⟩
        else
          let nonce := req.text "outbound_nonce"
          if isBlank nonce then
            calling out (.sendText dialogId (req.text "text") reply none) content
          else if out.outboundError then
            ⟨errorResponse "Outbound selection expired. Pick a variant again." 409, []⟩
          else calling out (.sendText dialogId (req.text "text") reply (some nonce)) content
      | _, _ => notInt

/-- `reaction`. -/
def reaction (dialogId : ℤ) (req : Request) (out : Outside) : Handled :=
  sameOrigin req <|
    let emoticon := strip (req.text "emoticon")
    if !isDigits app (strip (req.text "message_id")).toList then
      ⟨errorResponse "Message id must be a positive integer." 400, []⟩
    else if emoticon = "" then ⟨errorResponse "Reaction cannot be empty." 400, []⟩
    else
      match int app (req.text "message_id") with
      | some messageId => calling out (.sendReaction dialogId messageId emoticon) { status := 204 }
      | none => notInt

/-- `_max_upload_mb`. -/
def maxUploadMb : ℤ :=
  match app.maxUploadMb with
  | none => 50
  | some raw =>
    match int app raw with
    | none => 50
    | some value => if value ≤ 0 then 50 else value

/-- The loop that reads an upload: its size, as far as it was read, and what was written. -/
def readUpload (maxBytes : ℤ) : List (List UInt8) → List UInt8 → ℤ × List UInt8
  | [], written => (written.length, written)
  | chunk :: chunks, written =>
    if chunk = [] then (written.length, written)
    else
      let size : ℤ := written.length + chunk.length
      if maxBytes < size then (size, written) else readUpload maxBytes chunks (written ++ chunk)

/-- `upload_media`. -/
def uploadMedia (dialogId : ℤ) (req : Request) (out : Outside) : Handled :=
  sameOrigin req <|
    if !out.canPost then ⟨errorResponse readOnlyMessage 403, []⟩
    else
      let maxMb := maxUploadMb app
      let maxBytes := maxMb * 1024 * 1024
      let (size, data) := readUpload maxBytes req.chunks []
      if maxBytes < size then ⟨errorResponse s!"File too large (limit {maxMb} MB)." 413, []⟩
      else if size = 0 then ⟨errorResponse "Empty file." 400, []⟩
      else calling out (.sendMedia dialogId data (req.field "caption")) content

/-- `suggest`. -/
def suggest (dialogId : ℤ) (req : Request) (out : Outside) : Handled :=
  sameOrigin req <|
    if !app.hasSuggester then
      ⟨errorResponse "Suggest is not configured — needs the [agent] extra and TG_AGENT_MODEL." 503,
        []⟩
    else
      match out.available with
      | none => ⟨(out.raised.getD .other).response, [.dialogs]⟩
      | some false => ⟨errorResponse "Suggest is available for DM dialogs only." 403, [.dialogs]⟩
      | some true =>
        let handled := calling out (.suggest dialogId) content
        { handled with calls := .dialogs :: handled.calls }

/-- `outbound_variants`. -/
def outboundVariants (dialogId : ℤ) (req : Request) (out : Outside) : Handled :=
  sameOriginJson req <|
    if !app.hasOutbound then ⟨content, []⟩
    else if isBlank (req.text "text") then
      ⟨errorResponse "Cannot translate an empty message." 400, []⟩
    else
      match out.available with
      | none => ⟨errorResponse "Dialogs are temporarily unavailable." 503, [.dialogs]⟩
      | some false => ⟨errorResponse "Dialog is not available." 403, [.dialogs]⟩
      | some true =>
        let handled := calling out (.prepare dialogId (req.text "text")) content
        { handled with calls := .dialogs :: handled.calls }

/-- `outbound_lang`. -/
def outboundLang (dialogId : ℤ) (req : Request) (out : Outside) : Handled :=
  sameOrigin req <|
    if !app.hasOutbound then ⟨errorResponse "Outbound translation is not configured." 503, []⟩
    else
      match out.available with
      | none => ⟨errorResponse "Dialogs are temporarily unavailable." 503, [.dialogs]⟩
      | some false => ⟨errorResponse "Dialog is not available." 403, [.dialogs]⟩
      | some true =>
        let enabled := (req.field "enabled").getD "on" ≠ "off"
        let set := Call.setDialogLang dialogId (orNone (strip (req.text "code"))) enabled
        match out.valueError, out.raised with
        | some message, _ => ⟨errorResponse message 400, [.dialogs, set]⟩
        | none, some _ =>
          ⟨errorResponse "Outbound settings could not be saved." 503,
            .dialogs :: if out.previousLoaded then [set, .restoreDialogLang dialogId] else []⟩
        | none, none => ⟨content, [.dialogs, set]⟩

/-- `lang_settings_update`. -/
def langSettingsUpdate (req : Request) (out : Outside) : Handled :=
  sameOrigin req <|
    if !app.hasTranslator then ⟨errorResponse "Translation is not configured." 503, []⟩
    else
      let set := Call.setTargetLang (orNone (app.strings.lower (strip (req.text "code"))))
      match out.valueError with
      | some message => ⟨errorResponse message 400, [set]⟩
      | none => calling out set content

/-- `suggest_settings_update`. -/
def suggestSettingsUpdate (req : Request) (out : Outside) : Handled :=
  sameOrigin req <|
    if !app.hasSuggester then
      ⟨errorResponse "Suggest is not configured — needs the [agent] extra and TG_AGENT_MODEL." 503,
        []⟩
    else
      match int app (strip (req.text "history")) with
      | none => ⟨errorResponse "History limit must be an integer." 400, []⟩
      | some history =>
        let save := Call.saveSettings (strip (req.text "enabled") ≠ "") history
          (orNone (strip (req.text "model")))
        match out.valueError with
        | some message => ⟨errorResponse message 400, [save]⟩
        | none => calling out save content

/-! ## The routes -/

/-- The routes; those of `/login` and `/logout` are there when a password is set. -/
inductive Route where
  | static | loginForm | loginSubmit | logout
  | tgLoginForm | tgLoginPhone | tgLoginResend | tgLoginCode | tgLoginPassword
  | index | profiles | dialogs | apiHealth | apiDialogs | send
  | searchDialog (dialogId : String) | messages (dialogId : String)
  | apiMessages (dialogId : String) | markRead (dialogId : String)
  | reaction (dialogId : String) | uploadMedia (dialogId : String)
  | suggest (dialogId : String) | outboundVariants (dialogId : String)
  | outboundLang (dialogId : String) | stream (dialogId : String)
  | langSettings | langSettingsUpdate | suggestSettings | suggestSettingsUpdate
  | /-- `/docs`, `/redoc` and `/openapi.json`, which FastAPI adds. -/
    docs
  | notFound
  | /-- The path is there, but not for this method. -/
    notAllowed
deriving DecidableEq

/-- The parts of a path, between the slashes. -/
def segments (path : String) : List String := (path.toList.splitOn '/').map .ofList

/-- The route of a method and a path. -/
def routeOf (hasPassword : Bool) : Method → List String → Route
  | .get, ["", "login"] => if hasPassword then .loginForm else .notFound
  | .post, ["", "login"] => if hasPassword then .loginSubmit else .notFound
  | .get, ["", "logout"] => if hasPassword then .logout else .notFound
  | .get, ["", "tg-login"] => .tgLoginForm
  | .post, ["", "tg-login", "phone"] => .tgLoginPhone
  | .post, ["", "tg-login", "resend"] => .tgLoginResend
  | .post, ["", "tg-login", "code"] => .tgLoginCode
  | .post, ["", "tg-login", "password"] => .tgLoginPassword
  | .get, ["", ""] => .index
  | .get, ["", "profiles"] => .profiles
  | .get, ["", "dialogs"] => .dialogs
  | .get, ["", "dialogs", id, "search"] => .searchDialog id
  | .get, ["", "dialogs", id, "messages"] => .messages id
  | .get, ["", "api", "health"] => .apiHealth
  | .get, ["", "api", "dialogs"] => .apiDialogs
  | .get, ["", "api", "dialogs", id, "messages"] => .apiMessages id
  | .post, ["", "dialogs", id, "read"] => .markRead id
  | .post, ["", "send"] => .send
  | .post, ["", "dialogs", id, "reaction"] => .reaction id
  | .post, ["", "dialogs", id, "media"] => .uploadMedia id
  | .post, ["", "dialogs", id, "suggest"] => .suggest id
  | .post, ["", "dialogs", id, "outbound"] => .outboundVariants id
  | .post, ["", "dialogs", id, "lang"] => .outboundLang id
  | .get, ["", "settings", "lang"] => .langSettings
  | .post, ["", "settings", "lang"] => .langSettingsUpdate
  | .get, ["", "settings", "suggest"] => .suggestSettings
  | .post, ["", "settings", "suggest"] => .suggestSettingsUpdate
  | .get, ["", "stream", id] => .stream id
  | .get, ["", "docs"] => .docs
  | .get, ["", "redoc"] => .docs
  | .get, ["", "openapi.json"] => .docs
  | _, _ => .notFound

/-- The route of a request. -/
def route (req : Request) : Route :=
  let routeOf method := routeOf app.password.isSome method (segments req.path)
  if startsWith "/static/" req.path then .static
  else if routeOf req.method ≠ .notFound then routeOf req.method
  else if routeOf .get ≠ .notFound ∨ routeOf .post ≠ .notFound then .notAllowed
  else .notFound

/-- The parameter of a route is converted, or the request refused. -/
def withId (dialogId : String) (handler : ℤ → Handled) : Handled :=
  match app.strings.pathInt dialogId with
  | some dialogId => handler dialogId
  | none => ⟨errorResponse "" 422, []⟩

/-- The handler of a route. -/
def handler (now : ℤ) (req : Request) (out : Outside) : Route → Handled
  | .static => ⟨{ status := 200, body := .static }, []⟩
  | .loginForm => ⟨{ status := 200, body := .page "login.html" }, []⟩
  | .loginSubmit => loginSubmit app (app.password.getD "") now req
  | .logout => ⟨{ redirect "/login" 303 with deleteCookie := true }, []⟩
  | .tgLoginForm => ⟨content, [.resetLogin]⟩
  | .tgLoginPhone => calling out (.submitPhone (strip (req.text "phone"))) content
  | .tgLoginResend => calling out .resend content
  | .tgLoginCode => tgLoginCode req out
  | .tgLoginPassword => tgLoginPassword req out
  | .index => ⟨{ status := 200, body := .page "chat.html" }, []⟩
  | .profiles => calling out .listProfiles content
  | .dialogs => calling out .dialogs content
  | .apiHealth => ⟨content, []⟩
  | .apiDialogs => calling out .dialogs content
  | .send => send app req out
  | .searchDialog id =>
    withId app id fun dialogId ↦ calling out (.searchMessages dialogId (req.text "q")) content
  | .messages id => withId app id fun dialogId ↦ calling out (.history dialogId) content
  | .apiMessages id => withId app id fun dialogId ↦ calling out (.history dialogId) content
  | .markRead id => withId app id fun dialogId ↦ markRead app dialogId req
  | .reaction id => withId app id fun dialogId ↦ reaction app dialogId req out
  | .uploadMedia id => withId app id fun dialogId ↦ uploadMedia app dialogId req out
  | .suggest id => withId app id fun dialogId ↦ suggest app dialogId req out
  | .outboundVariants id => withId app id fun dialogId ↦ outboundVariants app dialogId req out
  | .outboundLang id => withId app id fun dialogId ↦ outboundLang app dialogId req out
  | .stream id => withId app id fun dialogId ↦ calling out (.listen dialogId) content
  | .langSettings =>
    if !app.hasTranslator then ⟨errorResponse "Translation is not configured." 503, []⟩
    else calling out .targetLang content
  | .langSettingsUpdate => langSettingsUpdate app req out
  | .suggestSettings =>
    if !app.hasSuggester then
      ⟨errorResponse "Suggest is not configured — needs the [agent] extra and TG_AGENT_MODEL." 503,
        []⟩
    else calling out .getSettings content
  | .suggestSettingsUpdate => suggestSettingsUpdate app req out
  | .docs => ⟨{ status := 200, body := .page "docs" }, []⟩
  | .notFound => ⟨errorResponse "" 404, []⟩
  | .notAllowed => ⟨errorResponse "" 405, []⟩

/-- What is behind the gate. -/
def dispatch (now : ℤ) (req : Request) (out : Outside) : Handled :=
  if out.unprocessable then ⟨errorResponse "" 422, []⟩ else handler app now req out (route app req)

/-- `_wants_html`: `accept` has the text. -/
def wantsHtml (req : Request) : Bool :=
  "text/html".toList <:+: ((req.header "accept").getD "").toList

/-- `auth_gate`, when a password is set. -/
def handle (now : ℤ) (req : Request) (out : Outside) : Handled :=
  if app.password = none || isPublic req.urlPath then dispatch app now req out
  else
    match validCookie app.lib app.key now req.cookie with
    | .error _ => ⟨Raised.other.response, []⟩
    | .ok true => dispatch app now req out
    | .ok false =>
      if wantsHtml req then ⟨redirect "/login" 302, []⟩
      else ⟨errorResponse "Authentication required." 401, []⟩

end TgMessenger.Web.App
