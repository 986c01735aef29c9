import TgMessenger.Web.App

/-!
# Who reaches the account

Behind the gate a request needs a cookie that was given for the password, and outside the login
wizard a call that changes something needs a request that comes from the pages themselves.
-/

namespace TgMessenger.Web.App

open Cookies

variable {κ : Type} {app : Setup κ} {req : Request} {out : Outside} {now : ℤ}

/-! ## What is called -/

/-- What a call is made for. -/
def Allowed (app : Setup κ) (req : Request) (out : Outside) : Call → Prop
  | .sendText dialogId text reply _ => isSameOrigin req = true ∧ out.canPost = true ∧
      int app (req.text "dialog_id") = some dialogId ∧ text = req.text "text" ∧
      isBlank text = false ∧ replyTo app req = some reply
  | .sendMedia _ data _ => isSameOrigin req = true ∧ out.canPost = true ∧
      data = (req.chunks.takeWhile (· ≠ [])).flatten ∧ data ≠ [] ∧
      (data.length : ℤ) ≤ maxUploadMb app * 1024 * 1024
  | .sendReaction _ messageId emoticon => isSameOrigin req = true ∧
      int app (req.text "message_id") = some messageId ∧ emoticon ≠ ""
  | .markRead _ maxId => isSameOrigin req = true ∧ int app (req.text "max_id") = some maxId
  | .suggest _ | .saveSettings _ _ _ => isSameOrigin req = true ∧ app.hasSuggester = true
  | .prepare _ text => isSameOrigin req = true ∧ app.hasOutbound = true ∧ isBlank text = false
  | .setDialogLang _ _ _ | .restoreDialogLang _ =>
    isSameOrigin req = true ∧ app.hasOutbound = true ∧ out.available = some true
  | .setTargetLang _ => isSameOrigin req = true ∧ app.hasTranslator = true
  -- The login wizard works on what its forms say, whoever sends them.
  | .submitPhone phone => phone = strip (req.text "phone")
  | .submitCode code => code = strip (req.text "code")
  | .submitPassword password => password = req.text "password"
  | .resetLogin | .resend => True
  | .saveSession => out.raised = none ∧ out.login ≠ .loginError
  | call => call.isRead = true

/-- Every call is allowed, and no cookie is given. -/
structure Handled.Allowed (app : Setup κ) (req : Request) (out : Outside) (handled : Handled) :
    Prop where
  calls : ∀ call ∈ handled.calls, App.Allowed app req out call
  setCookie : handled.response.setCookie = none

theorem setCookie_raised (exc : Raised) : exc.response.setCookie = none := by
  cases exc with
  | unauthorized => rfl
  | floodWait message => rfl
  | sendForbidden message => rfl
  | other => rfl

theorem allowed_nil {response : Response} (hcookie : response.setCookie = none) :
    Handled.Allowed app req out ⟨response, []⟩ :=
  ⟨fun _ h ↦ absurd h List.not_mem_nil, hcookie⟩

theorem allowed_cons {response : Response} {call : Call} {calls : List Call}
    (hcall : Allowed app req out call) (h : Handled.Allowed app req out ⟨response, calls⟩) :
    Handled.Allowed app req out ⟨response, call :: calls⟩ := by
  refine ⟨?_, h.setCookie⟩
  intro call' hmem
  obtain rfl | hmem := List.mem_cons.mp hmem
  · exact hcall
  · exact h.calls call' hmem

theorem allowed_singleton {response : Response} {call : Call}
    (hcookie : response.setCookie = none) (h : Allowed app req out call) :
    Handled.Allowed app req out ⟨response, [call]⟩ :=
  allowed_cons h (allowed_nil hcookie)

theorem allowed_calling {call : Call} {response : Response}
    (hcookie : response.setCookie = none) (h : Allowed app req out call) :
    Handled.Allowed app req out (calling out call response) := by
  rw [calling]
  split
  · exact allowed_singleton (setCookie_raised _) h
  · exact allowed_singleton hcookie h

theorem allowed_sameOrigin {handled : Handled}
    (h : isSameOrigin req = true → handled.Allowed app req out) :
    (sameOrigin req handled).Allowed app req out := by
  rw [sameOrigin]
  split_ifs with horigin
  · exact h horigin
  · exact allowed_nil rfl

theorem allowed_sameOriginJson {handled : Handled}
    (h : isSameOrigin req = true → handled.Allowed app req out) :
    (sameOriginJson req handled).Allowed app req out := by
  rw [sameOriginJson]
  split_ifs with horigin
  · exact h horigin
  · exact allowed_nil rfl

/-- A handler that answers when something is missing. -/
theorem allowed_unless {present : Bool} {response : Response} {handled : Handled}
    (hcookie : response.setCookie = none) (h : present = true → handled.Allowed app req out) :
    (if !present then ⟨response, []⟩ else handled).Allowed app req out := by
  cases present with
  | false => exact allowed_nil hcookie
  | true => exact h rfl

theorem allowed_withId {id : String} {handler : ℤ → Handled}
    (h : ∀ dialogId, (handler dialogId).Allowed app req out) :
    (withId app id handler).Allowed app req out := by
  rw [withId]
  split
  · exact h _
  · exact allowed_nil rfl

/-! ## The handlers -/

theorem allowed_markRead (dialogId : ℤ) : (markRead app dialogId req).Allowed app req out := by
  refine allowed_sameOrigin fun horigin ↦ ?_
  split_ifs
  · exact allowed_nil rfl
  · split
    next hint => exact allowed_singleton rfl ⟨horigin, hint⟩
    · exact allowed_nil rfl

theorem allowed_send : (send app req out).Allowed app req out := by
  refine allowed_sameOrigin fun horigin ↦ allowed_unless rfl fun _ ↦ ?_
  split
  · exact allowed_nil rfl
  next htext =>
    rw [Bool.not_eq_true] at htext
    split
    next dialogId reply hint hreply =>
      refine allowed_unless rfl fun hpost ↦ ?_
      dsimp only
      split_ifs
      · exact allowed_calling rfl ⟨horigin, hpost, hint, rfl, htext, hreply⟩
      · exact allowed_nil rfl
      · exact allowed_calling rfl ⟨horigin, hpost, hint, rfl, htext, hreply⟩
    · exact allowed_nil rfl

theorem allowed_reaction (dialogId : ℤ) : (reaction app dialogId req out).Allowed app req out := by
  refine allowed_sameOrigin fun horigin ↦ allowed_unless rfl fun _ ↦ ?_
  split
  · exact allowed_nil rfl
  next hempty =>
    split
    next hint => exact allowed_calling rfl ⟨horigin, hint, hempty⟩
    · exact allowed_nil rfl

/-- An upload that is not too large has been read to its end. -/
theorem readUpload_spec (maxBytes : ℤ) (chunks : List (List UInt8)) (written : List UInt8)
    (h : (readUpload maxBytes chunks written).1 ≤ maxBytes) :
    (readUpload maxBytes chunks written).2 = written ++ (chunks.takeWhile (· ≠ [])).flatten ∧
      (readUpload maxBytes chunks written).1 = (readUpload maxBytes chunks written).2.length := by
  induction chunks generalizing written with
  | nil => exact ⟨(List.append_nil written).symm, rfl⟩
  | cons chunk chunks ih =>
    by_cases hchunk : chunk = []
    · subst hchunk
      exact ⟨(List.append_nil written).symm, rfl⟩
    · rw [readUpload, if_neg hchunk] at h ⊢
      by_cases hlarge : maxBytes < written.length + chunk.length
      · rw [if_pos hlarge] at h
        exact absurd h (Int.not_le.mpr hlarge)
      · rw [if_neg hlarge] at h ⊢
        obtain ⟨hdata, hsize⟩ := ih (written ++ chunk) h
        refine ⟨?_, hsize⟩
        have htake := List.takeWhile_cons_of_pos (p := (· ≠ [])) (l := chunks)
          (decide_eq_true hchunk)
        rw [hdata, htake, List.flatten_cons, List.append_assoc]

theorem allowed_uploadMedia (dialogId : ℤ) :
    (uploadMedia app dialogId req out).Allowed app req out := by
  refine allowed_sameOrigin fun horigin ↦ allowed_unless rfl fun hpost ↦ ?_
  have hspec := readUpload_spec (maxUploadMb app * 1024 * 1024) req.chunks []
  dsimp only
  generalize readUpload (maxUploadMb app * 1024 * 1024) req.chunks [] = read at hspec ⊢
  split_ifs with hlarge hempty
  · exact allowed_nil rfl
  · exact allowed_nil rfl
  · obtain ⟨hdata, hsize⟩ := hspec (Int.not_lt.mp hlarge)
    refine allowed_calling rfl ⟨horigin, hpost, hdata, ?_, ?_⟩
    · intro hnil
      rw [hnil] at hsize
      exact hempty hsize
    · rw [← hsize]
      exact Int.not_lt.mp hlarge

theorem allowed_suggest (dialogId : ℤ) : (suggest app dialogId req out).Allowed app req out := by
  refine allowed_sameOrigin fun horigin ↦ allowed_unless rfl fun hsuggester ↦ ?_
  split
  · exact allowed_singleton (setCookie_raised _) rfl
  · exact allowed_singleton rfl rfl
  · exact allowed_cons rfl (allowed_calling rfl ⟨horigin, hsuggester⟩)

theorem allowed_outboundVariants (dialogId : ℤ) :
    (outboundVariants app dialogId req out).Allowed app req out := by
  refine allowed_sameOriginJson fun horigin ↦ allowed_unless rfl fun houtbound ↦ ?_
  split
  · exact allowed_nil rfl
  next htext =>
    rw [Bool.not_eq_true] at htext
    split
    · exact allowed_singleton rfl rfl
    · exact allowed_singleton rfl rfl
    · exact allowed_cons rfl (allowed_calling rfl ⟨horigin, houtbound, htext⟩)

theorem allowed_outboundLang (dialogId : ℤ) :
    (outboundLang app dialogId req out).Allowed app req out := by
  refine allowed_sameOrigin fun horigin ↦ allowed_unless rfl fun houtbound ↦ ?_
  split
  · exact allowed_singleton rfl rfl
  · exact allowed_singleton rfl rfl
  next havailable =>
    have hset : isSameOrigin req = true ∧ app.hasOutbound = true ∧ out.available = some true :=
      ⟨horigin, houtbound, havailable⟩
    dsimp only
    split
    · exact allowed_cons rfl (allowed_singleton rfl hset)
    · split_ifs
      · exact allowed_cons rfl (allowed_cons hset (allowed_singleton rfl hset))
      · exact allowed_singleton rfl rfl
    · exact allowed_cons rfl (allowed_singleton rfl hset)

theorem allowed_langSettingsUpdate : (langSettingsUpdate app req out).Allowed app req out := by
  refine allowed_sameOrigin fun horigin ↦ allowed_unless rfl fun htranslator ↦ ?_
  dsimp only
  split
  · exact allowed_singleton rfl ⟨horigin, htranslator⟩
  · exact allowed_calling rfl ⟨horigin, htranslator⟩

theorem allowed_suggestSettingsUpdate :
    (suggestSettingsUpdate app req out).Allowed app req out := by
  refine allowed_sameOrigin fun horigin ↦ allowed_unless rfl fun hsuggester ↦ ?_
  split
  · exact allowed_nil rfl
  · dsimp only
    split
    · exact allowed_singleton rfl ⟨horigin, hsuggester⟩
    · exact allowed_calling rfl ⟨horigin, hsuggester⟩

theorem allowed_handler {route : Route} (h : route ≠ .loginSubmit) :
    (handler app now req out route).Allowed app req out := by
  cases route with
  | static => exact allowed_nil rfl
  | loginForm => exact allowed_nil rfl
  | loginSubmit => exact absurd rfl h
  | logout => exact allowed_nil rfl
  | tgLoginForm => exact allowed_singleton rfl trivial
  | tgLoginPhone => exact allowed_calling rfl rfl
  | tgLoginResend => exact allowed_calling rfl trivial
  | tgLoginCode =>
    rw [handler, tgLoginCode]
    split
    · exact allowed_singleton (setCookie_raised _) rfl
    next hraised hlogin =>
      refine allowed_cons rfl (allowed_singleton rfl ⟨hraised, ?_⟩)
      rw [hlogin]
      exact nofun
    · exact allowed_singleton rfl rfl
  | tgLoginPassword =>
    rw [handler, tgLoginPassword]
    split
    · exact allowed_singleton (setCookie_raised _) rfl
    · exact allowed_singleton rfl rfl
    next hraised hlogin =>
      exact allowed_cons rfl (allowed_singleton rfl ⟨hraised, hlogin⟩)
  | index => exact allowed_nil rfl
  | profiles => exact allowed_calling rfl rfl
  | dialogs => exact allowed_calling rfl rfl
  | apiHealth => exact allowed_nil rfl
  | apiDialogs => exact allowed_calling rfl rfl
  | send => exact allowed_send
  | searchDialog id => exact allowed_withId fun _ ↦ allowed_calling rfl rfl
  | messages id => exact allowed_withId fun _ ↦ allowed_calling rfl rfl
  | apiMessages id => exact allowed_withId fun _ ↦ allowed_calling rfl rfl
  | markRead id => exact allowed_withId allowed_markRead
  | reaction id => exact allowed_withId allowed_reaction
  | uploadMedia id => exact allowed_withId allowed_uploadMedia
  | suggest id => exact allowed_withId allowed_suggest
  | outboundVariants id => exact allowed_withId allowed_outboundVariants
  | outboundLang id => exact allowed_withId allowed_outboundLang
  | stream id => exact allowed_withId fun _ ↦ allowed_calling rfl rfl
  | langSettings =>
    rw [handler]
    exact allowed_unless rfl fun _ ↦ allowed_calling rfl rfl
  | langSettingsUpdate => exact allowed_langSettingsUpdate
  | suggestSettings =>
    rw [handler]
    exact allowed_unless rfl fun _ ↦ allowed_calling rfl rfl
  | suggestSettingsUpdate => exact allowed_suggestSettingsUpdate
  | docs => exact allowed_nil rfl
  | notFound => exact allowed_nil rfl
  | notAllowed => exact allowed_nil rfl

/-! ## The gate -/

/-- A request of the login form with the password. -/
structure Request.LogsIn (req : Request) (password : String) : Prop where
  method : req.method = .post
  path : req.path = "/login"
  password : req.text "password" = password

theorem routeOf_eq_loginSubmit {hasPassword : Bool} {method : Method} {parts : List String}
    (h : routeOf hasPassword method parts = .loginSubmit) :
    hasPassword = true ∧ method = .post ∧ parts = ["", "login"] := by
  unfold routeOf at h
  split at h <;> first | cases h | split_ifs at h with hpassword
  exact ⟨hpassword, rfl, rfl⟩

theorem path_of_segments {path : String} (h : segments path = ["", "login"]) : path = "/login" := by
  have hsplit : path.toList.splitOn '/' = [[], "login".toList] := by
    have hinj : Function.Injective (List.map String.ofList) :=
      List.map_injective_iff.mpr fun _ _ heq ↦ String.ofList_injective heq
    exact hinj h
  have hjoin : ['/'].intercalate (path.toList.splitOn '/') = path.toList :=
    List.intercalate_splitOn '/'
  rw [hsplit] at hjoin
  exact String.toList_inj.mp hjoin.symm

theorem route_eq_loginSubmit (h : route app req = .loginSubmit) :
    ∃ password, app.password = some password ∧ req.method = .post ∧ req.path = "/login" := by
  unfold route at h
  dsimp only at h
  split_ifs at h
  obtain ⟨hpassword, hmethod, hparts⟩ := routeOf_eq_loginSubmit h
  obtain ⟨password, hpassword⟩ := Option.isSome_iff_exists.mp hpassword
  exact ⟨password, hpassword, hmethod, path_of_segments hparts⟩

/-- The answer to a form with the password. -/
def loggedIn (cookie : String) : Handled :=
  ⟨{ redirect "/" 303 with setCookie := some cookie }, []⟩

/-- Behind the gate, a cookie is given for the password, and then nothing is called. -/
theorem dispatch_cases (app : Setup κ) (now : ℤ) (req : Request) (out : Outside) :
    (∃ password cookie, app.password = some password ∧ req.LogsIn password ∧
      signCookie app.lib app.key (now + cookieMaxAge) = some cookie ∧
      dispatch app now req out = loggedIn cookie) ∨
      (dispatch app now req out).Allowed app req out := by
  by_cases hroute : route app req = .loginSubmit
  · obtain ⟨password, hpassword, hmethod, hpath⟩ := route_eq_loginSubmit hroute
    rw [dispatch, hroute, handler, hpassword, Option.getD_some, loginSubmit]
    split_ifs with hunprocessable htext
    · exact .inr (allowed_nil rfl)
    · split
      next cookie hsign =>
        exact .inl ⟨password, cookie, rfl, ⟨hmethod, hpath, htext⟩, hsign, rfl⟩
      · exact .inr (allowed_nil rfl)
    · exact .inr (allowed_nil rfl)
  · right
    rw [dispatch]
    split_ifs
    · exact allowed_nil rfl
    · exact allowed_handler hroute

theorem login_or_allowed (app : Setup κ) (now : ℤ) (req : Request) (out : Outside) :
    (∃ password cookie, app.password = some password ∧ req.LogsIn password ∧
      signCookie app.lib app.key (now + cookieMaxAge) = some cookie ∧
      handle app now req out = loggedIn cookie) ∨
      (handle app now req out).Allowed app req out := by
  rw [handle]
  split
  · exact dispatch_cases app now req out
  · split
    · exact .inr (allowed_nil rfl)
    · exact dispatch_cases app now req out
    · split_ifs
      · exact .inr (allowed_nil rfl)
      · exact .inr (allowed_nil rfl)

/-- What whoever has not logged in may be shown. -/
def Body.isPublic : Body → Bool
  | .empty | .static | .error _ => true
  | .page name => name = "login.html"
  | .content => false

/-- Nothing is called, and nothing of the account shown. -/
def Handled.Shut (handled : Handled) : Prop :=
  handled.calls = [] ∧ handled.response.body.isPublic = true

theorem route_of_public {password : String} (hpassword : app.password = some password)
    (h : isPublic req.path = true) :
    route app req ∈ [Route.static, .loginForm, .loginSubmit, .logout, .notAllowed] := by
  rw [isPublic, Bool.or_eq_true, Bool.or_eq_true, decide_eq_true_eq, decide_eq_true_eq] at h
  have hsome : app.password.isSome = true := by rw [hpassword]; rfl
  rcases h with (hpath | hpath) | hstatic
  · rw [route, hpath, hsome]
    cases req.method with
    | get => decide
    | post => decide
    | other => decide
  · rw [route, hpath, hsome]
    cases req.method with
    | get => decide
    | post => decide
    | other => decide
  · rw [route, if_pos hstatic]
    exact List.mem_cons_self

/-- What is in front of the gate. -/
theorem shut_of_public {password : String} (hpassword : app.password = some password)
    (h : isPublic req.path = true) : (dispatch app now req out).Shut := by
  rw [dispatch]
  split_ifs
  · exact ⟨rfl, rfl⟩
  · have hroute := route_of_public hpassword h
    generalize route app req = route at hroute ⊢
    simp only [List.mem_cons, List.not_mem_nil, or_false] at hroute
    obtain rfl | rfl | rfl | rfl | rfl := hroute
    · exact ⟨rfl, rfl⟩
    · exact ⟨rfl, rfl⟩
    · rw [handler, loginSubmit]
      split_ifs
      · split
        · exact ⟨rfl, rfl⟩
        · exact ⟨rfl, rfl⟩
      · exact ⟨rfl, rfl⟩
    · exact ⟨rfl, rfl⟩
    · exact ⟨rfl, rfl⟩

/-- The header `host` does not make a path public. -/
def Request.HostPlain (req : Request) : Prop :=
  isPublic req.urlPath = true → isPublic req.path = true

/-- With a password, what is not shut was reached with a cookie. -/
theorem shut_or_validCookie {password : String} (hpassword : app.password = some password)
    (hhost : req.HostPlain) :
    (handle app now req out).Shut ∨ validCookie app.lib app.key now req.cookie = .ok true := by
  rw [handle, hpassword]
  split
  next hpublic => exact .inl (shut_of_public hpassword (hhost hpublic))
  · split
    · exact .inl ⟨rfl, rfl⟩
    next hvalid => exact .inr hvalid
    · split_ifs
      · exact .inl ⟨rfl, rfl⟩
      · exact .inl ⟨rfl, rfl⟩

/-! ## Runs -/

/-- A request, who makes it and when, and what its calls come to. -/
structure Exchange (ι : Type) where
  who : ι
  now : ℤ
  req : Request
  out : Outside

variable {ι : Type}

/-- The application keeps nothing of an exchange. -/
def Exchange.handled (app : Setup κ) (x : Exchange ι) : Handled := handle app x.now x.req x.out

variable (app)

theorem logsIn_of_setCookie {x : Exchange ι} {cookie : String}
    (h : (x.handled app).response.setCookie = some cookie) :
    (∃ password, app.password = some password ∧ x.req.LogsIn password) ∧
      signCookie app.lib app.key (x.now + cookieMaxAge) = some cookie := by
  rcases login_or_allowed app x.now x.req x.out with
    ⟨password, cookie', hpassword, hlogs, hsign, hhandled⟩ | hallowed
  · rw [Exchange.handled, hhandled] at h
    obtain rfl := Option.some.inj h
    exact ⟨⟨password, hpassword, hlogs⟩, hsign⟩
  · rw [Exchange.handled, hallowed.setCookie] at h
    cases h

variable [DecidableEq ι]

/-- The expiries of the cookies that someone was given. -/
def issuedTo (who : ι) (earlier : List (Exchange ι)) : List ℤ :=
  (earlier.filter fun x ↦ x.who = who ∧ (x.handled app).response.setCookie.isSome).map
    (·.now + cookieMaxAge)

/-- `who` has sent the password, and the cookie that was given for it has not expired. -/
def LoggedIn (password : String) (who : ι) (now : ℤ) (earlier : List (Exchange ι)) : Prop :=
  ∃ login ∈ earlier, login.who = who ∧ login.req.LogsIn password ∧ now < login.now + cookieMaxAge

/-- A cookie that is accepted, of someone who cannot forge one, was given for the password. -/
theorem loggedIn_of_validCookie {password : String} (hpassword : app.password = some password)
    {who : ι} {now : ℤ} {cookie : Option String} {earlier : List (Exchange ι)}
    (hunguessed : ∀ text ∈ cookie, Unguessed app.lib app.key (issuedTo app who earlier) text)
    (h : validCookie app.lib app.key now cookie = .ok true) :
    LoggedIn password who now earlier := by
  obtain ⟨text, expiry, digits, hcookie, -, -, hdigits, hmac, hnow⟩ :=
    (validCookie_eq_true_iff cookie).mp h
  have hissued : expiry ∈ issuedTo app who earlier := by
    refine hunguessed text hcookie expiry digits hdigits ?_
    rw [← hmac]
    exact macPart_infix text
  obtain ⟨login, hlogin, rfl⟩ := List.mem_map.mp hissued
  obtain ⟨hmem, hkept⟩ := List.mem_filter.mp hlogin
  obtain ⟨hwho, hset⟩ := of_decide_eq_true hkept
  obtain ⟨given, hgiven⟩ := Option.isSome_iff_exists.mp hset
  obtain ⟨⟨password', hpassword', hlogs⟩, -⟩ := logsIn_of_setCookie app hgiven
  rw [hpassword] at hpassword'
  obtain rfl := Option.some.inj hpassword'
  exact ⟨login, hmem, hwho, hlogs, hnow⟩

/-- The library under the one key `k`, for the expiries 604900 and 1. -/
def keyed : Library Unit where
  hexdigest _ text :=
    if text = "604900" then "f7368af675e7b04722d9e61df547c0ef977dc5ca8beab92326f4cbe3ada6f082"
    else "0aa2054d88556d7e5df6e54b00683dae80bbd4266a5d1cbc89abacbf856ad862"
  isAscii_hexdigest _ text := by
    split_ifs <;> decide
  decimal _ := none

def closedApp : Setup Unit where
  lib := keyed
  strings :=
    { isDigit c := c.isDigit
      lower s := s
      pathInt s := if s = "7" then some 7 else none }
  key := ()
  webPass := some "secret"

def request (method : Method) (path : String) : Request where
  method := method
  path := path
  urlPath := path
  scheme := "http"
  netloc := "localhost"
  header _ := none

/-- Ann logs in. -/
def annLogin : Exchange String where
  who := "ann"
  now := 100
  req :=
    { request .post "/login" with
      field name := if name = "password" then some "secret" else none }
  out := {}

def annCookie : String := "604900:f7368af675e7b04722d9e61df547c0ef977dc5ca8beab92326f4cbe3ada6f082"

/-- Ann reads a dialog. -/
def annReads : Exchange String where
  who := "ann"
  now := 200
  req := { request .get "/dialogs/7/messages" with cookie := some annCookie }
  out := {}

/-- Bob reads it, without a cookie. -/
def bobReads : Exchange String where
  who := "bob"
  now := 200
  req := request .get "/dialogs/7/messages"
  out := {}

theorem setCookie_annLogin : (annLogin.handled closedApp).response.setCookie = some annCookie := by
  rfl

theorem unguessed_annCookie :
    Unguessed keyed () (issuedTo closedApp "ann" [annLogin]) annCookie := by
  intro expiry digits hdigits hinfix
  by_cases h : digits = "604900"
  · subst h
    have hback := parseInt_of_printInt keyed.decimal hdigits
    have hexpiry : parseInt keyed.decimal "604900".toList = some 604900 := by rfl
    rw [hexpiry] at hback
    obtain rfl := Option.some.inj hback
    refine List.mem_map.mpr ⟨annLogin, List.mem_filter.mpr ⟨List.mem_cons_self, ?_⟩, rfl⟩
    refine decide_eq_true ⟨rfl, ?_⟩
    rw [setCookie_annLogin]
    rfl
  · have hother : keyed.hexdigest () digits =
        "0aa2054d88556d7e5df6e54b00683dae80bbd4266a5d1cbc89abacbf856ad862" := if_neg h
    rw [hother] at hinfix
    exact absurd hinfix (by decide +kernel)

-- The header `host: x/static/` makes every path public.
example : (handle closedApp 200
    { bobReads.req with urlPath := "/static//dialogs/7/messages" } {}).calls = [.history 7] := by
  rfl

end TgMessenger.Web.App
