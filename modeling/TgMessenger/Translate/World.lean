import TgMessenger.Translate.Cache
import TgMessenger.Translate.Program
import Mathlib.Logic.Function.Basic

/-!
# Running the translator

The state the coroutines of the translator run on: the settings, the cache, and what has come of
the changes of the policy.  A setting counts how often it was written, a pass remembers what it
has read of it first, and a cached decision what the pass has read that made it.

The outcomes of the statements and of the requests to the model are sequences.  Beside the
coroutines the store of messages goes on: rows are inserted, updated and deleted.
-/

namespace TgMessenger.Translate

open Asyncio MessageStore

/-- The environment, and the outcomes of what is awaited. -/
structure Setup extends Env where
  /-- The exception the `n`-th statement raises, if it raises one. -/
  faults : ℕ → Option String
  /-- How the `n`-th call of `translate_fn` ends. -/
  answers : ℕ → Except String (OrderedDict ℤ (Option String))
  /-- Which choice of the model the translator of a pass was built for, by the number of times
  the model was set. -/
  modelVersion : ℕ → ℕ

/-- The state shared by the calls. -/
structure World where
  db : Db
  kv : Key → Option Json
  /-- How many statements there were. -/
  statements : ℕ
  /-- How often `translate_fn` was called. -/
  requests : ℕ
  /-- How often a setting was written. -/
  version : Key → ℕ
  /-- The setting a call has written last, and which writing of it that was. -/
  wrote : ℕ → Option (Key × ℕ)
  /-- The latest writing of a setting after which its writer has cleared the cache. -/
  cleared : Key → ℕ
  /-- Which value of a setting a call has read first. -/
  seen : ℕ → Key → Option ℕ
  /-- Which values of the settings a cached decision was made from. -/
  basis : ℤ → ℤ → Key → Option ℕ

namespace World

/-- Settings and a cache that were there before. -/
def init (db : Db) (kv : Key → Option Json) : World where
  db := db
  kv := kv
  statements := 0
  requests := 0
  version _ := 0
  wrote _ := none
  cleared _ := 0
  seen _ _ := none
  basis _ _ _ := some 0

/-- Apply a statement to the rows. -/
def onDb (f : Db → Db) (w : World) : World := { w with db := f w.db }

/-- A call has read a setting. -/
def read (t : ℕ) (key : Key) (version : ℕ) (w : World) : World :=
  { w with seen := Function.update w.seen t
             (Function.update (w.seen t) key ((w.seen t key).or (some version))) }

/-- A call writes a setting. -/
def write (t : ℕ) (key : Key) (value : Option Json) (w : World) : World :=
  { w with kv := Function.update w.kv key value
           version := Function.update w.version key (w.version key + 1)
           wrote := Function.update w.wrote t (some (key, w.version key + 1)) }

/-- A call clears the cache. -/
def clear (t : ℕ) (w : World) : World :=
  { w with db := w.db.clearAllTranslations
           cleared :=
             match w.wrote t with
             | none => w.cleared
             | some (key, version) =>
               Function.update w.cleared key (max (w.cleared key) version) }

/-- A call writes a decision. -/
def putDecision (t : ℕ) (dialogId messageId : ℤ) (lang : String) (text : Option String)
    (w : World) : World :=
  { w with db := w.db.setMessageTranslation dialogId messageId lang text
           basis := fun d id ↦
             if d = dialogId ∧ id = messageId then w.seen t else w.basis d id }

/-- A statement of the storage: it raises, or does what it does. -/
def statement {α : Type} (cfg : Setup) (w : World) (result : α) (f : World → World) :
    Reply String α World :=
  match cfg.faults w.statements with
  | some e => .done (.error e) { w with statements := w.statements + 1 }
  | none => .done (.ok result) (f { w with statements := w.statements + 1 })

end World

/-- What the operations do. -/
def handle (cfg : Setup) (t : ℕ) : (o : Op) → World → Reply String (effects.Ret o) World
  | .getValue key, w =>
    w.statement cfg ((w.kv key).filter fun value ↦ !value matches .null)
      (.read t key (w.version key))
  | .setValue key value, w => w.statement cfg () (.write t key (some value))
  | .deleteValue key, w => w.statement cfg () (.write t key none)
  | .clearAllTranslations, w => w.statement cfg () (.clear t)
  | .getMessageTranslation dialogId messageId lang sourceText, w =>
    w.statement cfg (w.db.getMessageTranslation dialogId messageId lang sourceText) id
  | .upsertMessageForTranslation m, w =>
    w.statement cfg () (.onDb (.upsertMessageForTranslation m))
  | .setMessageTranslation dialogId messageId lang text, w =>
    w.statement cfg () (.putDecision t dialogId messageId lang text)
  | .translate .., w =>
    .done (cfg.answers w.requests)
      ({ w with requests := w.requests + 1 }.read t .translateModel (cfg.modelVersion t))

/-- What else happens to the rows. -/
inductive StoreEvent where
  | upsertMessage (m : Message)
  | deleteRow (dialogId messageId : ℤ)

/-- The translator on a storage that others use. -/
def system (cfg : Setup) : System effects ℕ World StoreEvent where
  handle := handle cfg
  env
    | .upsertMessage m, w => some (w.onDb (.upsertMessage m none none true))
    | .deleteRow dialogId messageId, w => some (w.onDb (.deleteRow dialogId messageId))

/-- A call that runs beside others. -/
inductive Call where
  | translateHistory (messages : List Message)
  | translateMessage (m : Message)
  | setUserLang (code : Option String)
  | setTranslateMode (mode : Option String)
  | setKnownLangs (codes : Codes)
  | setUnknownLangs (codes : Codes)
  | setTranslateModel (name : Option String)

/-- The coroutine of a call; a setter returns no messages. -/
def Call.prog (env : Env) : Call → TranslateProg (List Message)
  | .translateHistory messages => Translate.translateHistory env messages
  | .translateMessage m => do
    let m ← Translate.translateMessage env m
    return [m]
  | .setUserLang code => do
    Translate.setUserLang code
    return []
  | .setTranslateMode mode => do
    Translate.setTranslateMode mode
    return []
  | .setKnownLangs codes => do
    Translate.setKnownLangs env codes
    return []
  | .setUnknownLangs codes => do
    Translate.setUnknownLangs env codes
    return []
  | .setTranslateModel name => do
    Translate.setTranslateModel name
    return []

/-- The setting a call changes. -/
def Call.setting : Call → Option Key
  | .translateHistory _ | .translateMessage _ => none
  | .setUserLang _ => some .userLang
  | .setTranslateMode _ => some .translateMode
  | .setKnownLangs _ => some .knownLangs
  | .setUnknownLangs _ => some .unknownLangs
  | .setTranslateModel _ => some .translateModel

/-- Calls in progress, and what they still have to do. -/
abbrev TranslateConfig := Config effects ℕ World (List Message)

/-- All calls are about to start. -/
def start (cfg : Setup) (calls : ℕ → Call) (db : Db) (kv : Key → Option Json) : TranslateConfig :=
  ⟨.init db kv, fun t ↦ (calls t).prog cfg.toEnv⟩

end TgMessenger.Translate
