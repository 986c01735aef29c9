import TgMessenger.Data.Machine
import TgMessenger.Data.Text
import Mathlib.Logic.Function.Basic
import Mathlib.Tactic.SplitIfs

/-!
# The session store

`SessionStore` (`core/auth.py`), for one profile.  Its file is only ever published whole: a
writer fills a temporary file of its own and puts it in place by a rename, or by a hard link
where the file must be new.  Publications and deletions hold the lock of the store.  `load`
reads without it, and saves what it has read when a plaintext file is read with a key.

Calls are of any number of processes, so every system call is an operation of its own.
-/

namespace TgMessenger.SessionStore

/-- What the store takes from `cryptography` and from Telethon. -/
structure Codec where
  /-- `Fernet(_derive_key_v2(secret)).encrypt`; two tokens of one text differ. -/
  encrypt : (secret : String) → (noise : ℕ) → (plaintext : String) → String
  /-- `Fernet(_derive_key_v2(secret)).decrypt`. -/
  decryptV2 : (secret token : String) → Option String
  /-- `Fernet(_derive_key_v1(secret)).decrypt`. -/
  decryptV1 : (secret token : String) → Option String
  /-- `StringSession(text)` raises nothing. -/
  isSession : String → Bool

/-! ## The cipher -/

/-- `_V1_PREFIX`. -/
def v1Prefix : String := "enc:v1:"

/-- `_V2_PREFIX`. -/
def v2Prefix : String := "enc:v2:"

/-- `is_encrypted`. -/
def isEncrypted (stored : String) : Bool :=
  startsWith v1Prefix stored || startsWith v2Prefix stored

/-- `encrypt_session`. -/
def encryptSession (codec : Codec) (plaintext secret : String) (noise : ℕ) : String :=
  v2Prefix ++ codec.encrypt secret noise plaintext

/-- `decrypt_session`. -/
def decryptSession (codec : Codec) (stored secret : String) : Option String :=
  if isEncrypted stored then
    let token := String.ofList (stored.toList.drop v2Prefix.length)
    if startsWith v2Prefix stored then codec.decryptV2 secret token
    else codec.decryptV1 secret token
  else some stored

/-- `_stored_session`. -/
def storedSession (codec : Codec) (key : Option String) (session : String) (noise : ℕ) : String :=
  match key with
  | some secret => encryptSession codec session secret noise
  | none => session

/-- What `load` makes of the text of the file, up to the rewrite: the session, and whether it
is saved again; `none` when it raises. -/
def readSession (codec : Codec) (key : Option String) (text : String) :
    Option (Option (String × Bool)) :=
  let raw := strip text
  if raw = "" then some none
  else if isEncrypted raw ∧ key.isNone then none
  else
    match key with
    | some secret =>
      (decryptSession codec raw secret).bind fun plaintext ↦
        if codec.isSession plaintext then some (some (plaintext, !isEncrypted raw)) else none
    | none => if codec.isSession raw then some (some (raw, false)) else none

/-! ## Calls -/

/-- Who writes. -/
inductive Kind where
  | save
  | ifAbsent
  | /-- `load`, which read when so many changes had been made. -/
    rewrite (since : ℕ)
deriving DecidableEq

/-- What is to be written. -/
structure Job where
  kind : Kind
  session : String
  text : String
deriving DecidableEq

/-- How a call is over. -/
inductive Outcome where
  | /-- With this file before its publication. -/
    saved (job : Job) (before : Option String)
  | removed (existed : Bool)
  | loaded (session : Option String)
  | raised
  | /-- It raised, and its temporary file could not be removed. -/
    littered
  | /-- The process went away. -/
    crashed
deriving DecidableEq

/-- Where a call is. -/
inductive Phase where
  | begun (job : Job)
  | /-- In `_write_temp`. -/
    writing (job : Job)
  | /-- At the lock. -/
    ready (job : Job)
  | locked (job : Job)
  | /-- Hard links are not supported. -/
    fallback (job : Job)
  | /-- No file was found. -/
    absent (job : Job)
  | linked (job : Job) (before : Option String)
  | published (job : Job) (before : Option String)
  | /-- In the `except` branch, without the lock. -/
    failing
  | /-- In `delete`, before the lock, at it, and with it. -/
    deleting
  | deleteReady
  | deleteLocked
  | deleteFound
  | /-- In `load`. -/
    loading
  | reading
  | ended (outcome : Outcome)
deriving DecidableEq

structure Call where
  key : Option String
  phase : Phase
deriving DecidableEq

/-- A change of the profile by `save`, `save_if_absent` or `delete`. -/
inductive Change where
  | saved (session : String)
  | deleted
deriving DecidableEq

/-- The files, the lock and the calls. -/
structure World where
  /-- The text of the file of the profile. -/
  file : Option String
  /-- The temporary file of a call. -/
  temps : ℕ → Option String
  lock : Option ℕ
  calls : ℕ → Option Call
  next : ℕ
  /-- Latest first. -/
  changes : List Change
  /-- The texts of the writers. -/
  texts : List String

/-- The method that is called. -/
inductive Method where
  | save (session : String)
  | saveIfAbsent (session : String)
  | delete
  | load

/-- The next system call of a call, and what comes of it. -/
inductive Move where
  | /-- `mkstemp`. -/
    create
  | /-- Some bytes. -/
    write (text : String)
  | /-- The last bytes and `fsync`. -/
    flush
  | acquire
  | replace
  | link
  | /-- `link` is not supported. -/
    noLink
  | /-- `lexists`, `is_file` or `exists`. -/
    lookup
  | unlink
  | /-- `_fsync_parent`. -/
    sync
  | read (noise : ℕ)
  | /-- The system call raises an `OSError`. -/
    fail
  | crash

inductive Event where
  | call (method : Method) (key : Option String) (noise : ℕ)
  | move (call : ℕ) (m : Move)

namespace World

/-- No call so far. -/
def init (file : Option String) : World where
  file := file
  temps := fun _ ↦ none
  lock := none
  calls := fun _ ↦ none
  next := 0
  changes := []
  texts := []

/-- A call goes on. -/
def goTo (w : World) (i : ℕ) (key : Option String) (phase : Phase) : World :=
  { w with calls := Function.update w.calls i (some ⟨key, phase⟩) }

def setTemp (w : World) (i : ℕ) (text : Option String) : World :=
  { w with temps := Function.update w.temps i text }

/-- The lock is let go of. -/
def release (w : World) (i : ℕ) : World :=
  { w with lock := if w.lock = some i then none else w.lock }

/-- The file has this text now. -/
def publish (w : World) (job : Job) (text : String) : World :=
  { w with
    file := some text
    changes :=
      match job.kind with
      | .rewrite _ => w.changes
      | _ => .saved job.session :: w.changes }

/-- `os.replace(tmp, path)`. -/
def replace (w : World) (i : ℕ) (key : Option String) (job : Job) : Option World :=
  (w.temps i).map fun text ↦
    ((w.publish job text).setTemp i none).goTo i key (.published job w.file)

/-- How a writer ends. -/
def saved (job : Job) (before : Option String) : Outcome :=
  match job.kind with
  | .rewrite _ => .loaded (some job.session)
  | _ => .saved job before

/-- The job of a `save`. -/
def begin (w : World) (i : ℕ) (key : Option String) (job : Job) : World :=
  { w with texts := job.text :: w.texts }.goTo i key (.begun job)

/-- A new call. -/
def start (codec : Codec) (w : World) (method : Method) (key : Option String) (noise : ℕ) :
    World :=
  let i := w.next
  let w := { w with next := w.next + 1 }
  match method with
  | .save session => w.begin i key ⟨.save, session, storedSession codec key session noise⟩
  | .saveIfAbsent session =>
    w.begin i key ⟨.ifAbsent, session, storedSession codec key session noise⟩
  | .delete => w.goTo i key .deleting
  | .load => w.goTo i key .loading

/-- `load` has read the text. -/
def loaded (codec : Codec) (w : World) (i : ℕ) (key : Option String) (noise : ℕ)
    (text : String) : World :=
  match readSession codec key text with
  | none => w.goTo i key (.ended .raised)
  | some none => w.goTo i key (.ended (.loaded none))
  | some (some (session, false)) => w.goTo i key (.ended (.loaded (some session)))
  | some (some (session, true)) =>
    w.begin i key ⟨.rewrite w.changes.length, session, storedSession codec key session noise⟩

/-- A system call of a call. -/
def advance (codec : Codec) (w : World) (i : ℕ) (key : Option String) :
    Phase → Move → Option World
  | .begun job, .create => some ((w.setTemp i (some "")).goTo i key (.writing job))
  | .begun _, .fail => some (w.goTo i key (.ended .raised))
  | .writing job, .write text =>
    if startsWith text job.text then some ((w.setTemp i (some text)).goTo i key (.writing job))
    else none
  | .writing job, .flush => some ((w.setTemp i (some job.text)).goTo i key (.ready job))
  | .ready job, .acquire =>
    if w.lock = none then some ({ w with lock := some i }.goTo i key (.locked job)) else none
  | .locked job, .replace => if job.kind = .ifAbsent then none else w.replace i key job
  | .locked job, .link =>
    if job.kind = .ifAbsent then
      match w.file with
      | none => (w.temps i).map fun text ↦ (w.publish job text).goTo i key (.linked job w.file)
      | some _ => some ((w.release i).goTo i key .failing)
    else none
  | .locked job, .noLink =>
    if job.kind = .ifAbsent then some (w.goTo i key (.fallback job)) else none
  | .fallback job, .lookup =>
    some (if w.file.isSome then (w.release i).goTo i key .failing else w.goTo i key (.absent job))
  | .absent job, .replace => w.replace i key job
  | .linked job before, .unlink => some ((w.setTemp i none).goTo i key (.published job before))
  | .published job before, .sync =>
    some ((w.release i).goTo i key (.ended (saved job before)))
  | .failing, .unlink => some ((w.setTemp i none).goTo i key (.ended .raised))
  | .failing, .fail => some (w.goTo i key (.ended .littered))
  | .deleting, .lookup =>
    some (w.goTo i key (if w.file.isSome then .deleteReady else .ended (.removed false)))
  | .deleteReady, .acquire =>
    if w.lock = none then some ({ w with lock := some i }.goTo i key .deleteLocked) else none
  | .deleteLocked, .lookup =>
    some (if w.file.isSome then w.goTo i key .deleteFound
      else (w.release i).goTo i key (.ended (.removed false)))
  | .deleteFound, .unlink =>
    some (({ w with file := none, changes := .deleted :: w.changes }.release i).goTo i key
      (.ended (.removed true)))
  | .loading, .lookup =>
    some (w.goTo i key (if w.file.isSome then .reading else .ended (.loaded none)))
  | .reading, .read noise =>
    some (match w.file with
      | some text => w.loaded codec i key noise text
      | none => w.goTo i key (.ended .raised))
  | .writing _, .fail | .ready _, .fail => some (w.goTo i key .failing)
  | .locked _, .fail | .fallback _, .fail | .absent _, .fail | .linked _ _, .fail
  | .published _ _, .fail => some ((w.release i).goTo i key .failing)
  | .deleting, .fail | .deleteReady, .fail | .loading, .fail | .reading, .fail =>
    some (w.goTo i key (.ended .raised))
  | .deleteLocked, .fail | .deleteFound, .fail =>
    some ((w.release i).goTo i key (.ended .raised))
  | .ended _, _ => none
  | _, .crash => some ((w.release i).goTo i key (.ended .crashed))
  | _, _ => none

/-- What an event does. -/
def step (codec : Codec) : Machine World Event := fun w e ↦
  match e with
  | .call method key noise => some (w.start codec method key noise)
  | .move i m => (w.calls i).bind fun c ↦ w.advance codec i c.key c.phase m

end World

end TgMessenger.SessionStore
