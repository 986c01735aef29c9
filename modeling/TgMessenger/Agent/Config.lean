import TgMessenger.Data.Integers
import TgMessenger.Data.Json
import TgMessenger.Data.Text
import Mathlib.Data.List.Sort

/-!
# The settings of the agent

`AgentConfig.from_env` and `load_intents` (`agent/config.py`).  What they raise is a `ValueError`
with a text for the user.
-/

namespace TgMessenger.Agent

/-! ## The intents -/

/-- `INTENT_PIPELINES`. -/
inductive Pipeline where
  | chat | task
deriving DecidableEq, Repr

/-- `IntentSpec`. -/
structure IntentSpec where
  name : String
  description : String
  pipeline : Pipeline
  systemPrompt : Option String := none
deriving DecidableEq, Repr

/-- `RESERVED_INTENT_NAMES`. -/
def reservedIntentNames : List String := ["chat", "task", "classify", "vision", "route"]

/-- `_INTENT_NAME_RE.fullmatch(name)`. -/
def isIntentName (name : String) : Bool :=
  match name.toList with
  | [] => false
  | c :: cs => c.isLower && cs.all fun c ↦ c.isLower || c.isDigit || c == '_' || c == '-'

/-- `_INTENT_KEYS`. -/
def intentKeys : List String := ["name", "description", "pipeline", "system_prompt"]

/-- What `path.read_text` and `json.loads` come to; the strings are the texts of exceptions. -/
inductive FileText where
  | missing
  | unreadable (exc : String)
  | undecodable (exc : String)
  | invalid (exc : String)
  | json (data : Json)

/-- What the settings are read from: the environment, the files, and the functions of strings that
depend on the tables of Unicode. -/
structure Host where
  env : String → Option String
  lower : String → String
  /-- `str.isdigit`, for one character. -/
  isDigit : Char → Bool
  decimal : Char → Option (Fin 10)
  /-- `repr` of a string. -/
  repr : String → String
  /-- `repr` of a value that was read from JSON; `None` for a key that is not there. -/
  reprJson : Option Json → String
  isFile : String → Bool
  readText : String → FileText

section Intents

variable (reprJson : Option Json → String) (reprStr : String → String) (path : String)

/-- `item.get(key)`. -/
def get (key : String) (fields : List (String × Json)) : Option Json := fields.lookup key

/-- The value of `pipeline`, when it is in `INTENT_PIPELINES`. -/
def pipeline? : Option Json → Option Pipeline
  | some (.str "chat") => some .chat
  | some (.str "task") => some .task
  | _ => none

/-- The value of `system_prompt`: `none` is a value of the wrong type. -/
def systemPrompt? : Option Json → Option (Option String)
  | none => some none
  | some .null => some none
  | some (.str s) => some (some s)
  | _ => none

/-- `intents[i]`. -/
def place (i : ℕ) : String := s!"agent config {path}: intents[{i}]"

/-- The check of the keys. -/
def loadKeys (i : ℕ) (fields : List (String × Json)) : Except String Unit :=
  let unknown := (fields.map Prod.fst).filter (· ∉ intentKeys)
  if unknown = [] then .ok ()
  else .error (place path i ++ (": unknown keys: " ++
    ", ".intercalate (unknown.insertionSort (· ≤ ·)) ++ "."))

/-- The checks of `name`. -/
def loadName (seen : List String) (i : ℕ) (value : Option Json) : Except String String :=
  let notWord (shown : String) := place path i ++ (": 'name' must be a single lowercase word" ++
    " matching " ++ reprStr "^[a-z][a-z0-9_-]*$" ++ ", got " ++ shown ++ ".")
  match value with
  | some (.str name) =>
    if ¬ isIntentName name then .error (notWord (reprStr name))
    else if name ∈ reservedIntentNames then
      .error (place path i ++ (": name " ++ reprStr name ++ " is reserved."))
    else if name ∈ seen then
      .error (place path i ++ (": duplicate name " ++ reprStr name ++ "."))
    else .ok name
  | _ => .error (notWord (reprJson value))

/-- The check of `description`. -/
def loadDescription (i : ℕ) (value : Option Json) : Except String String :=
  let message := place path i ++ ": 'description' must be a non-empty string."
  match value with
  | some (.str description) =>
    if isBlank description then .error message else .ok (strip description)
  | _ => .error message

/-- The check of `pipeline`. -/
def loadPipeline (i : ℕ) (value : Option Json) : Except String Pipeline :=
  match pipeline? value with
  | some pipeline => .ok pipeline
  | none =>
    .error (place path i ++ (": 'pipeline' must be one of: chat, task, got " ++
      reprJson value ++ "."))

/-- The check of `system_prompt`. -/
def loadSystemPrompt (i : ℕ) (value : Option Json) : Except String (Option String) :=
  match systemPrompt? value with
  | some systemPrompt => .ok systemPrompt
  | none => .error (place path i ++ ": 'system_prompt' must be a string.")

/-- The body of the loop of `load_intents`. -/
def loadIntent (seen : List String) (i : ℕ) : Json → Except String IntentSpec
  | .obj fields => do
    loadKeys path i fields
    let name ← loadName reprJson reprStr path seen i (get "name" fields)
    let description ← loadDescription path i (get "description" fields)
    let pipeline ← loadPipeline reprJson path i (get "pipeline" fields)
    let systemPrompt ← loadSystemPrompt path i (get "system_prompt" fields)
    return { name, description, pipeline, systemPrompt }
  | _ => .error (place path i ++ ": expected an object.")

/-- The loop of `load_intents`. -/
def loadLoop : ℕ → List IntentSpec → List Json → Except String (List IntentSpec)
  | _, specs, [] => .ok specs
  | i, specs, item :: items =>
    match loadIntent reprJson reprStr path (specs.map IntentSpec.name) i item with
    | .ok spec => loadLoop (i + 1) (specs ++ [spec]) items
    | .error message => .error message

/-- `load_intents`. -/
def loadIntents (file : FileText) : Except String (List IntentSpec) :=
  match file with
  | .missing => .error s!"agent config {path}: file not found."
  | .unreadable exc => .error s!"agent config {path}: cannot read: {exc}."
  | .undecodable exc => .error exc
  | .invalid exc => .error s!"agent config {path}: invalid JSON: {exc}."
  | .json data =>
    match data.field? "intents" with
    | some (.arr items) => loadLoop reprJson reprStr path 0 [] items
    | _ => .error ("agent config " ++ path ++ ": expected an object \x7b\"intents\": [...]\x7d.")

end Intents

/-! ## The environment -/

/-- `SEARCH_PROVIDERS`. -/
def searchProviders : List String := ["duckduckgo", "tavily", "exa", "brave"]

/-- `AgentConfig`. -/
structure AgentConfig where
  model : String
  allowAll : Bool
  allowIds : List ℤ
  allowUsernames : List String
  searchProvider : String
  visionModel : Option String
  suggestModel : Option String
  intents : List IntentSpec
  suggestHistoryLimit : ℤ
  factoryUrl : Option String
  factoryPassword : Option String

/-- `(env.get(key) or "").strip()`. -/
def setting (host : Host) (key : String) : String := strip ((host.env key).getD "")

/-- The entries of `TG_AGENT_ALLOWLIST`. -/
def entries (rawAllow : String) : List String :=
  ((rawAllow.toList.splitOn ',').map fun e ↦ strip (.ofList e)).filter (· ≠ "")

/-- `entry.lstrip("-").isdigit()`. -/
def isNumber (host : Host) (entry : String) : Bool :=
  let digits := entry.toList.dropWhile (· == '-')
  digits ≠ [] && digits.all host.isDigit

/-- `entry.lstrip("@").lower()`. -/
def username (host : Host) (entry : String) : String :=
  host.lower (.ofList (entry.toList.dropWhile (· == '@')))

/-- The error of `int`. -/
def intError (host : Host) (s : String) : String :=
  "invalid literal for int() with base 10: " ++ host.repr s

/-- The loop over the entries. -/
def readEntries (host : Host) : List String → Except String (List ℤ × List String)
  | [] => .ok ([], [])
  | entry :: entries =>
    if isNumber host entry then
      match parseInt host.decimal entry.toList with
      | some id => (readEntries host entries).map fun (ids, names) ↦ (id :: ids, names)
      | none => .error (intError host entry)
    else (readEntries host entries).map fun (ids, names) ↦ (ids, username host entry :: names)

/-- A model that may be missing. -/
def optionalModel (host : Host) (key examples : String) : Except String (Option String) :=
  let model := setting host key
  if model = "" then .ok none
  else if ':' ∈ model.toList then .ok (some model)
  else .error (key ++ "=" ++ host.repr model ++
    " is not in 'provider:model' format, e.g. " ++ examples ++ ".")

/-- `env.get("TG_AGENT_SEARCH")`, with its default. -/
def searchSetting (host : Host) : String :=
  host.lower (strip (match host.env "TG_AGENT_SEARCH" with
    | some s => if s = "" then "duckduckgo" else s
    | none => "duckduckgo"))

/-- `env.get("TG_SUGGEST_HISTORY")`, with its default. -/
def historySetting (host : Host) : String :=
  strip (match host.env "TG_SUGGEST_HISTORY" with
    | some s => if s = "" then "30" else s
    | none => "30")

/-- The file of the intents, and what is in it. -/
def configuredIntents (host : Host) : Except String (List IntentSpec) :=
  let configPath := setting host "TG_AGENT_CONFIG"
  let load path := loadIntents host.reprJson host.repr path (host.readText path)
  if configPath ≠ "" then load configPath
  else if host.isFile "agent.json" then load "agent.json"
  else .ok []

/-- `if not …: raise ValueError(message)`. -/
def require (p : Prop) [Decidable p] (message : String) : Except String Unit :=
  if p then .ok () else .error message

/-- `entries == ["*"]`. -/
def isEveryone (entries : List String) : Bool := entries = ["*"]

/-- The entries, unless everyone is allowed. -/
def readAllowlist (host : Host) (entries : List String) : Except String (List ℤ × List String) :=
  if isEveryone entries then .ok ([], []) else readEntries host entries

/-- `int(raw_history)`. -/
def readHistory (host : Host) : Except String ℤ :=
  let rawHistory := historySetting host
  match parseInt host.decimal rawHistory.toList with
  | some limit => .ok limit
  | none => .error ("TG_SUGGEST_HISTORY=" ++ host.repr rawHistory ++ " is not an integer.")

/-- `AgentConfig.from_env`. -/
def AgentConfig.fromEnv (host : Host) (requireAllowlist : Bool) : Except String AgentConfig := do
  let model := setting host "TG_AGENT_MODEL"
  require (model ≠ "") ("TG_AGENT_MODEL is not set — expected 'provider:model', e.g. " ++
    "'anthropic:claude-sonnet-4-6'.")
  require (':' ∈ model.toList) ("TG_AGENT_MODEL=" ++ host.repr model ++
    " is not in 'provider:model' format," ++
    " e.g. 'anthropic:claude-sonnet-4-6' or 'openai:gpt-5.4'.")
  let entries := entries (setting host "TG_AGENT_ALLOWLIST")
  require (¬ (entries = [] ∧ requireAllowlist = true))
    ("TG_AGENT_ALLOWLIST is not set — use '*' to reply to everyone," ++
      " or a comma-separated list of numeric ids / @usernames.")
  require (¬ ("*" ∈ entries ∧ 1 < entries.length))
    "TG_AGENT_ALLOWLIST: '*' (everyone) cannot be combined with other entries."
  let (allowIds, allowUsernames) ← readAllowlist host entries
  let search := searchSetting host
  require (search ∈ searchProviders) ("TG_AGENT_SEARCH=" ++ host.repr search ++
    " is unknown — choose one of: " ++ ", ".intercalate searchProviders ++ ".")
  let visionModel ← optionalModel host "TG_AGENT_VISION_MODEL"
    "'openai:gpt-5.4' or 'anthropic:claude-sonnet-4-6'"
  let suggestModel ← optionalModel host "TG_SUGGEST_MODEL"
    "'openai:glm-5-turbo' or 'anthropic:claude-haiku-4-5'"
  let limit ← readHistory host
  require (1 ≤ limit) "TG_SUGGEST_HISTORY must be a positive integer."
  let intents ← configuredIntents host
  return { model, allowAll := isEveryone entries, allowIds, allowUsernames,
           searchProvider := search, visionModel, suggestModel, intents,
           suggestHistoryLimit := limit,
           factoryUrl := orNone (setting host "TG_FACTORY_URL"),
           factoryPassword := orNone (setting host "TG_FACTORY_PASSWORD") }

end TgMessenger.Agent
