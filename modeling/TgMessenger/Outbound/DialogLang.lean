import TgMessenger.Asyncio.Lock
import TgMessenger.Core.Languages
import TgMessenger.Core.Models
import TgMessenger.Data.Machine
import TgMessenger.Data.OrderedDict
import Mathlib.Algebra.GroupWithZero.Nat
import Mathlib.Data.List.MinMax

/-!
# The language of a dialog

`OutboundTranslator.dialog_lang` (`agent/outbound.py`) reads the stored language of a dialog.  A
language the user has set is taken as it is, a detected one for a day; else the language is
detected from what the other side wrote, under a lock of the dialog, and stored.  The user sets
and removes it by `set_dialog_lang`, which takes no lock.
-/

namespace TgMessenger.Outbound.Detection

open Asyncio

/-! ## What is stored -/

/-- Who has found the language. -/
inductive LangSource where
  | auto | manual
deriving DecidableEq

/-- `DialogLang`. -/
structure DialogLang where
  lang : String
  source : LangSource := .auto
  detectedAt : Option Time := none
deriving DecidableEq

/-- `AUTO_DIALOG_LANG_TTL_SECONDS`. -/
def autoDialogLangTtl : Time := 86400

/-- `_fresh_stored_dialog_lang`. -/
def freshStoredDialogLang (now : Time) (stored : DialogLang) : Option String :=
  if stored.source = .manual then some stored.lang
  else
    match stored.detectedAt with
    | none => none
    | some detectedAt =>
      if now - detectedAt < autoDialogLangTtl then some stored.lang else none

/-- The value `set_dialog_lang` stores. -/
def dialogLang (lang : String) (source : LangSource) (detectedAt : Option Time) : DialogLang :=
  ⟨lang, source, if source = .auto then detectedAt else none⟩

/-! ## Scripts -/

/-- `_char_lang`. -/
def charLang (c : Char) : Option String :=
  let cp := c.toNat
  if 0xac00 ≤ cp ∧ cp ≤ 0xd7af then some "ko"
  else if 0x3040 ≤ cp ∧ cp ≤ 0x30ff then some "ja"
  else if 0x4e00 ≤ cp ∧ cp ≤ 0x9fff then some "han"
  else if 0x0e00 ≤ cp ∧ cp ≤ 0x0e7f then some "th"
  else if 0x0590 ≤ cp ∧ cp ≤ 0x05ff then some "he"
  else if 0x0370 ≤ cp ∧ cp ≤ 0x03ff then some "el"
  else if 0x0600 ≤ cp ∧ cp ≤ 0x06ff then some "ar"
  else if 0x0400 ≤ cp ∧ cp ≤ 0x052f then some "ru"
  else if c.isAlpha ∨ (0x00c0 ≤ cp ∧ cp ≤ 0x024f) then some "latin"
  else none

/-- How many characters of each script there are. -/
def countScripts (texts : List String) : OrderedDict String ℕ :=
  (texts.flatMap String.toList).foldl
    (fun counts c ↦
      match charLang c with
      | none => counts
      | some lang => counts.set lang ((counts.get? lang).getD 0 + 1))
    .empty

/-- `_dominant_script_lang`; `count / total < 0.70` on exact numbers. -/
def dominantScriptLang (texts : List String) : Option String :=
  let counts := countScripts texts
  let counts :=
    match counts.get? "ja", counts.get? "han" with
    | some ja, some han => (counts.set "ja" (ja + han)).erase "han"
    | _, _ => counts
  let total := (counts.items.map Prod.snd).sum
  match counts.items.argmax Prod.snd with
  | none => none
  | some (lang, count) => if 10 * count < 7 * total then none else some lang

/-- `_script_lang_to_supported`. -/
def scriptLangToSupported (lang : Option String) : Option String :=
  if lang = some "han" then some "zh"
  else if lang ∈ [none, some "latin", some "ru"] then none
  else cleanSupportedLangCode lang

/-- What `_detect_and_store_dialog_lang` makes of a history. -/
inductive Finding where
  | nothing
  | language (lang : String)
  | /-- The detector is asked. -/
    ask (texts : List String)

/-- The examination of a history, where there is a detector or none. -/
def examine (hasDetector : Bool) (history : List Message) : Finding :=
  let incoming := (history.filter fun m ↦ !m.out).filterMap fun m ↦
    let text := strip (m.text.getD "")
    if text = "" then none else some text
  if incoming = [] then .nothing
  else
    let scriptLang := dominantScriptLang incoming
    let lang := scriptLangToSupported scriptLang
    if hasDetector && (scriptLang = some "han" || lang = none) then .ask (incoming.take 10)
    else
      match cleanSupportedLangCode lang with
      | none => .nothing
      | some lang => .language lang

/-! ## The locks of a translator -/

/-- `DIALOG_LANG_LOCKS_MAX`. -/
def dialogLangLocksMax : ℕ := 1000

/-- `_dialog_lang_locks`, with the lock objects. -/
structure LockTable where
  dialogLangLocks : OrderedDict ℤ ℕ
  locks : ℕ → Lock ℕ
  /-- The next lock object. -/
  next : ℕ

namespace LockTable

/-- The table of a new translator. -/
def init : LockTable := ⟨.empty, fun _ ↦ .free, 0⟩

/-- The loop of `_dialog_lang_lock`.  The first argument bounds the number of iterations. -/
def evict : ℕ → ℕ → LockTable → LockTable
  | 0, _, s => s
  | fuel + 1, checked, s =>
    if dialogLangLocksMax < s.dialogLangLocks.size ∧ checked < s.dialogLangLocks.size then
      match s.dialogLangLocks.items with
      | [] => s
      | (oldId, oldLock) :: _ =>
        if (s.locks oldLock).locked then
          evict fuel (checked + 1) { s with dialogLangLocks := s.dialogLangLocks.moveToEnd oldId }
        else evict fuel 0 { s with dialogLangLocks := s.dialogLangLocks.popFirst }
    else s

/-- `_dialog_lang_lock`. -/
def dialogLangLock (dialogId : ℤ) (s : LockTable) : ℕ × LockTable :=
  let (lock, s) :=
    match s.dialogLangLocks.get? dialogId with
    | some lock => (lock, s)
    | none =>
      (s.next, { s with dialogLangLocks := s.dialogLangLocks.set dialogId s.next
                        locks := Function.update s.locks s.next .free
                        next := s.next + 1 })
  let s := { s with dialogLangLocks := s.dialogLangLocks.moveToEnd dialogId }
  (lock, evict (s.dialogLangLocks.size * (s.dialogLangLocks.size + 2)) 0 s)

/-- One lock object changes. -/
def change (s : LockTable) (lock : ℕ) (f : Lock ℕ → Lock ℕ) : LockTable :=
  { s with locks := Function.update s.locks lock (f (s.locks lock)) }

end LockTable

/-! ## Calls -/

/-- A call of `dialog_lang`. -/
structure Call where
  /-- The translator it is a method of. -/
  translator : ℕ
  dialogId : ℤ
  telegramLangCode : Option String := none
  history : Option (List Message) := none

/-- A call of `set_dialog_lang` by the user: a language, or its removal. -/
structure Change where
  dialogId : ℤ
  code : Option String

/-- The calls there are, and which translators have a detector. -/
structure Calls where
  call : ℕ → Call
  change : ℕ → Change
  hasDetector : ℕ → Bool

/-- Where a call of `dialog_lang` stands. -/
inductive Stage where
  | idle
  | /-- In the first `get_dialog_lang`. -/
    reading
  | waiting (lock : ℕ)
  | /-- In the second `get_dialog_lang`, under the lock. -/
    rereading (lock : ℕ)
  | /-- In `history`. -/
    loading (lock : ℕ)
  | /-- In the detector. -/
    asking (lock : ℕ) (texts : List String)
  | /-- In `set_dialog_lang`, before the write. -/
    storing (lock : ℕ) (lang : String) (detectedAt : Time)
  | /-- In `set_dialog_lang`, after the write. -/
    stored (lock : ℕ) (lang : String)
  | done (lang : Option String)
  | raised
deriving DecidableEq

/-- Where a call of `set_dialog_lang` by the user stands. -/
inductive ChangeStage where
  | idle
  | writing (lang : Option String)
  | written
  | returned
  | raised
deriving DecidableEq

/-- The stored languages, the calls, and what the user has fixed. -/
structure World where
  /-- The values under `dialog_lang_<id>`. -/
  kv : ℤ → Option DialogLang
  tables : ℕ → LockTable
  stage : ℕ → Stage
  change : ℕ → ChangeStage
  /-- The language the user's last change of the dialog has set; `none` for a removal. -/
  manual : ℤ → Option String
  /-- The same, of the changes since the call has read the language under the lock. -/
  since : ℕ → Option String

/-- What happens to a call. -/
inductive Event where
  | call (t : ℕ)
  | /-- The first `get_dialog_lang` is done. -/
    read (t : ℕ) (now : Time)
  | /-- The wait for the lock is over. -/
    resume (t : ℕ)
  | /-- The second `get_dialog_lang` is done. -/
    reread (t : ℕ) (now : Time)
  | loaded (t : ℕ) (history : List Message) (now : Time)
  | /-- The detector answers; `none` also when it raises. -/
    answered (t : ℕ) (lang : Option String) (now : Time)
  | /-- The detected language is written. -/
    store (t : ℕ)
  | finish (t : ℕ)
  | /-- The call is cancelled, or an error ends it. -/
    abort (t : ℕ)
  | setDialogLang (u : ℕ)
  | /-- The language of the user is written, or removed. -/
    write (u : ℕ)
  | returned (u : ℕ)
  | abortChange (u : ℕ)

namespace World

/-- Nothing is stored and nothing is under way. -/
def init : World :=
  ⟨fun _ ↦ none, fun _ ↦ .init, fun _ ↦ .idle, fun _ ↦ .idle, fun _ ↦ none, fun _ ↦ none⟩

/-- `get_dialog_lang`. -/
def getDialogLang (w : World) (dialogId : ℤ) : Option DialogLang := w.kv dialogId

/-- The call goes on. -/
def goto (w : World) (t : ℕ) (stage : Stage) : World :=
  { w with stage := Function.update w.stage t stage }

/-- A lock of the translator of the call changes. -/
def lock (cfg : Calls) (w : World) (t lock : ℕ) (f : Lock ℕ → Lock ℕ) : World :=
  let translator := (cfg.call t).translator
  { w with tables := Function.update w.tables translator ((w.tables translator).change lock f) }

/-- The call leaves the section of the lock, and ends. -/
def leave (cfg : Calls) (w : World) (t lock : ℕ) (stage : Stage) : World :=
  (w.lock cfg t lock Lock.release).goto t stage

/-- `async with self._dialog_lang_lock(dialog_id)`: the lock is taken, or waited for. -/
def enter (cfg : Calls) (w : World) (t : ℕ) : World :=
  let translator := (cfg.call t).translator
  let (lock, table) := (w.tables translator).dialogLangLock (cfg.call t).dialogId
  match (table.locks lock).acquire? with
  | some taken =>
    { w with tables := Function.update w.tables translator
               (table.change lock fun _ ↦ taken) }.goto t (.rereading lock)
  | none =>
    { w with tables := Function.update w.tables translator
               (table.change lock (Lock.enqueue t)) }.goto t (.waiting lock)

/-- The call goes on with what it has found. -/
def found (cfg : Calls) (w : World) (t lock : ℕ) (finding : Finding) (now : Time) : World :=
  match finding with
  | .nothing => w.leave cfg t lock (.done none)
  | .language lang => w.goto t (.storing lock lang now)
  | .ask texts => w.goto t (.asking lock texts)

/-- `_detect_and_store_dialog_lang`, up to the first suspension. -/
def detectAndStore (cfg : Calls) (w : World) (t lock : ℕ) (now : Time) : World :=
  match cleanSupportedLangCode (cfg.call t).telegramLangCode with
  | some lang => w.goto t (.storing lock lang now)
  | none =>
    match (cfg.call t).history with
    | some history =>
      w.found cfg t lock (examine (cfg.hasDetector (cfg.call t).translator) history) now
    | none => w.goto t (.loading lock)

/-- What an event does. -/
def step (cfg : Calls) : Machine World Event := fun w e ↦
  match e with
  | .call t =>
    match w.stage t with
    | .idle => some (w.goto t .reading)
    | _ => none
  | .read t now =>
    match w.stage t with
    | .reading =>
      match (w.getDialogLang (cfg.call t).dialogId).bind (freshStoredDialogLang now) with
      | some lang => some (w.goto t (.done (some lang)))
      | none => some (w.enter cfg t)
    | _ => none
  | .resume t =>
    match w.stage t with
    | .waiting lock =>
      if ((w.tables (cfg.call t).translator).locks lock).waiting? t = some .woken then
        some ((w.lock cfg t lock (Lock.resume t)).goto t (.rereading lock))
      else none
    | _ => none
  | .reread t now =>
    match w.stage t with
    | .rereading lock =>
      match (w.getDialogLang (cfg.call t).dialogId).bind (freshStoredDialogLang now) with
      | some lang => some (w.leave cfg t lock (.done (some lang)))
      | none =>
        some ({ w with since := Function.update w.since t none }.detectAndStore cfg t lock now)
    | _ => none
  | .loaded t history now =>
    match w.stage t with
    | .loading lock =>
      some (w.found cfg t lock (examine (cfg.hasDetector (cfg.call t).translator) history) now)
    | _ => none
  | .answered t lang now =>
    match w.stage t with
    | .asking lock _ =>
      some (w.found cfg t lock
        (match cleanSupportedLangCode lang with
          | none => .nothing
          | some lang => .language lang) now)
    | _ => none
  | .store t =>
    match w.stage t with
    | .storing lock lang detectedAt =>
      some ({ w with kv := Function.update w.kv (cfg.call t).dialogId
                       (some (dialogLang lang .auto (some detectedAt))) }.goto t
        (.stored lock lang))
    | _ => none
  | .finish t =>
    match w.stage t with
    | .stored lock lang => some (w.leave cfg t lock (.done (some lang)))
    | _ => none
  | .abort t =>
    match w.stage t with
    | .reading => some (w.goto t .raised)
    | .waiting lock =>
      some ((w.lock cfg t lock fun l ↦ (l.cancel t).abandon t).goto t .raised)
    | .rereading lock | .loading lock | .asking lock _ | .storing lock _ _ | .stored lock _ =>
      some (w.leave cfg t lock .raised)
    | _ => none
  | .setDialogLang u =>
    match w.change u with
    | .idle =>
      let change :=
        match (cfg.change u).code with
        | none => .writing none
        | some code =>
          match cleanSupportedLangCode (some code) with
          | none => .raised
          | some lang => .writing (some lang)
      some { w with change := Function.update w.change u change }
    | _ => none
  | .write u =>
    match w.change u with
    | .writing lang =>
      let dialogId := (cfg.change u).dialogId
      some { w with
        kv := Function.update w.kv dialogId (lang.map fun lang ↦ dialogLang lang .manual none)
        change := Function.update w.change u .written
        manual := Function.update w.manual dialogId lang
        since := fun t ↦ if (cfg.call t).dialogId = dialogId then lang else w.since t }
    | _ => none
  | .returned u =>
    match w.change u with
    | .written => some { w with change := Function.update w.change u .returned }
    | _ => none
  | .abortChange u =>
    match w.change u with
    | .writing _ | .written => some { w with change := Function.update w.change u .raised }
    | _ => none

end World

end TgMessenger.Outbound.Detection
