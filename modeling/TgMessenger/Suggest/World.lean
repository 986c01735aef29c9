import TgMessenger.Suggest.Receipts
import Mathlib.Logic.Function.Basic

/-!
# Running the nudges

The state the coroutines of the suggester run on: the two keys of each dialog, and what has come
of the receipts.  Which ids were stored and which times were added to them is kept beside, and so
is every page of a history that was fetched, with the number of receipts that had arrived by then.

The outcomes of the statements, of the requests and of the drafts are sequences.
-/

namespace TgMessenger.Suggest

open Asyncio

/-- What the client yields, and the outcomes of what is awaited. -/
structure Setup where
  /-- The events of `client.listen_reads()`, each with what the clock shows when it is recorded. -/
  reads : List (MessageReadEvent × Time)
  /-- The exception the `n`-th statement raises, if it raises one. -/
  faults : ℕ → Option String
  /-- How the `n`-th request for a history ends. -/
  pages : ℕ → Except String (List Message)
  /-- How the `n`-th draft ends. -/
  drafts : ℕ → Except String String

/-- A receipt that was stored. -/
structure Receipt where
  /-- How many events had come when it came; `0` for one that was stored before. -/
  arrival : ℕ
  maxId : ℤ
deriving DecidableEq

/-- A page of a history that was fetched. -/
structure Page where
  task : ℕ
  dialogId : ℤ
  /-- How many receipts had arrived by then. -/
  arrived : ℕ
  messages : List Message
deriving DecidableEq

/-- The page was fetched when the receipt had arrived, and shows that it is spent. -/
def Page.Spends (page : Page) (r : Receipt) : Prop :=
  r.arrival ≤ page.arrived ∧ isSpent page.messages r.maxId = true

instance (page : Page) (r : Receipt) : Decidable (page.Spends r) :=
  inferInstanceAs (Decidable (_ ∧ _))

/-- The state shared by the calls. -/
structure World where
  /-- `last_read_<dialog>`. -/
  lastRead : ℤ → Option ℤ
  /-- `read_at_<dialog>`. -/
  readAt : ℤ → Option Time
  /-- How many statements there were. -/
  statements : ℕ
  /-- How many histories were requested. -/
  requests : ℕ
  /-- How many drafts were requested. -/
  drafts : ℕ
  /-- How many receipts have arrived. -/
  arrived : ℕ
  /-- How many of them a call has taken. -/
  taken : ℕ → ℕ
  /-- The id a call has stored last. -/
  writing : ℕ → Option ℤ
  /-- The id a call has loaded last. -/
  held : ℕ → Option ℤ
  /-- The receipts whose ids were stored, latest first. -/
  recorded : ℤ → List Receipt
  /-- The ids of the receipts that were stored with their times. -/
  stamped : ℤ → List (ℤ × Time)
  /-- The pages that were fetched, latest first. -/
  pages : List Page

namespace World

/-- Receipts that were stored before. -/
def init (receipts : ℤ → Option (ℤ × Time)) : World where
  lastRead d := (receipts d).map Prod.fst
  readAt d := (receipts d).map Prod.snd
  statements := 0
  requests := 0
  drafts := 0
  arrived := 0
  taken _ := 0
  writing _ := none
  held _ := none
  recorded d := (receipts d).toList.map fun r ↦ ⟨0, r.1⟩
  stamped d := (receipts d).toList
  pages := []

/-- A call stores the id of a receipt. -/
def setLastRead (t : ℕ) (d maxId : ℤ) (w : World) : World :=
  { w with lastRead := Function.update w.lastRead d (some maxId)
           writing := Function.update w.writing t (some maxId)
           recorded := Function.update w.recorded d (⟨w.taken t, maxId⟩ :: w.recorded d) }

/-- A call adds the time to the id it has stored. -/
def setReadAt (t : ℕ) (d : ℤ) (time : Time) (w : World) : World :=
  { w with readAt := Function.update w.readAt d (some time)
           stamped :=
             Function.update w.stamped d
               ((w.writing t).toList.map (fun maxId ↦ (maxId, time)) ++ w.stamped d) }

/-- A call has loaded the id of a receipt. -/
def hold (t : ℕ) (d : ℤ) (w : World) : World :=
  { w with held := Function.update w.held t (w.lastRead d) }

/-- A call drops a receipt. -/
def clearLastRead (d : ℤ) (w : World) : World :=
  { w with lastRead := Function.update w.lastRead d none
           readAt := Function.update w.readAt d none }

/-- A call has fetched a page. -/
def fetch (t : ℕ) (d : ℤ) (messages : List Message) (w : World) : World :=
  { w with pages := ⟨t, d, w.arrived, messages⟩ :: w.pages }

/-- A statement of the storage: it raises, or does what it does. -/
def statement {α : Type} (cfg : Setup) (w : World) (result : α) (f : World → World) :
    Reply String α World :=
  match cfg.faults w.statements with
  | some e => .done (.error e) { w with statements := w.statements + 1 }
  | none => .done (.ok result) (f { w with statements := w.statements + 1 })

end World

/-- What the operations do. -/
def handle (cfg : Setup) (t : ℕ) : (o : Op) → World → Reply String (effects.Ret o) World
  | .listenReads n, w =>
    if n < w.arrived then .done (.ok ()) { w with taken := Function.update w.taken t (n + 1) }
    else .blocked
  | .setLastRead d maxId, w => w.statement cfg () (.setLastRead t d maxId)
  | .setReadAt d time, w => w.statement cfg () (.setReadAt t d time)
  | .loadLastRead d, w => w.statement cfg (w.lastRead d) (.hold t d)
  | .loadReadAt d, w => w.statement cfg (w.readAt d) id
  | .clearLastRead d, w => w.statement cfg () (.clearLastRead d)
  | .history d, w =>
    match cfg.pages w.requests with
    | .error e => .done (.error e) { w with requests := w.requests + 1 }
    | .ok messages =>
      .done (.ok messages) ({ w with requests := w.requests + 1 }.fetch t d messages)
  | .suggest _, w => .done (cfg.drafts w.drafts) { w with drafts := w.drafts + 1 }

/-- What happens beside the calls. -/
inductive ReadEvent where
  | /-- The next receipt arrives. -/
    arrive
deriving DecidableEq

/-- The suggester on a storage. -/
def system (cfg : Setup) : System effects ℕ World ReadEvent where
  handle := handle cfg
  env
    | .arrive, w =>
      if w.arrived < cfg.reads.length then some { w with arrived := w.arrived + 1 } else none

/-- A call that runs beside others. -/
inductive Call where
  | watchReadReceipts
  | recordLastRead (event : MessageReadEvent) (clock : Time)
  | clearLastRead (dialogId : ℤ)
  | nudgeCandidates (dialogIds : List ℤ) (now afterSec : Time)

/-- The coroutine of a call; only a pass over the dialogs has a result. -/
def Call.prog (cfg : Setup) : Call → SuggestProg (List Candidate)
  | .watchReadReceipts => do
    Suggest.watchReadReceipts 0 cfg.reads
    return []
  | .recordLastRead event clock => do
    Suggest.recordLastRead event clock
    return []
  | .clearLastRead dialogId => do
    Suggest.clearLastRead dialogId
    return []
  | .nudgeCandidates dialogIds now afterSec => Suggest.nudgeCandidates now afterSec dialogIds

/-- Calls in progress, and what they still have to do. -/
abbrev SuggestConfig := Config effects ℕ World (List Candidate)

/-- All calls are about to start. -/
def start (cfg : Setup) (calls : ℕ → Call) (receipts : ℤ → Option (ℤ × Time)) : SuggestConfig :=
  ⟨.init receipts, fun t ↦ (calls t).prog cfg⟩

/-! ## What the operations do -/

/-- A statement raises and changes nothing, or returns. -/
theorem World.statement_done {α : Type} {cfg : Setup} {w w' : World} {result : α}
    {f : World → World} {x : Except String α} (h : w.statement cfg result f = .done x w') :
    (∃ e, cfg.faults w.statements = some e ∧ x = .error e ∧
      w' = { w with statements := w.statements + 1 }) ∨
    (cfg.faults w.statements = none ∧ x = .ok result ∧
      w' = f { w with statements := w.statements + 1 }) := by
  rw [statement] at h
  split at h
  · next e he =>
    cases h
    exact .inl ⟨e, he, rfl, rfl⟩
  · next hnone =>
    cases h
    exact .inr ⟨hnone, rfl, rfl⟩

theorem handle_ne_parked {cfg : Setup} {t : ℕ} {o : Op} {w w' : World} :
    handle cfg t o w ≠ .parked w' := by
  have hstatement {α : Type} {result : α} {f : World → World} :
      w.statement cfg result f ≠ .parked w' := by
    rw [World.statement]
    split
    · rintro ⟨⟩
    · rintro ⟨⟩
  cases o with
  | listenReads n =>
    rw [handle]
    split
    · rintro ⟨⟩
    · rintro ⟨⟩
  | history d =>
    rw [handle]
    split
    · rintro ⟨⟩
    · rintro ⟨⟩
  | suggest d => rintro ⟨⟩
  | _ => exact hstatement

theorem not_parked {cfg : Setup} {t : ℕ} {o : Op} {w w' : World}
    (h : (system cfg).handle t o w = .parked w') : False := handle_ne_parked h

/-- The request for a history raises, or the page it returns is kept. -/
theorem handle_history {cfg : Setup} {t : ℕ} {d : ℤ} {w w' : World}
    {x : Except String (List Message)} (h : handle cfg t (.history d) w = .done x w') :
    (∃ e, x = .error e ∧ w' = { w with requests := w.requests + 1 }) ∨
    ∃ messages, x = .ok messages ∧
      w' = { w with requests := w.requests + 1 }.fetch t d messages := by
  rw [handle] at h
  split at h
  · next e _ =>
    cases h
    exact .inl ⟨e, rfl, rfl⟩
  · next messages _ =>
    cases h
    exact .inr ⟨messages, rfl, rfl⟩

theorem handle_listenReads {cfg : Setup} {t n : ℕ} {w w' : World} {x : Except String Unit}
    (h : handle cfg t (.listenReads n) w = .done x w') :
    n < w.arrived ∧ x = .ok () ∧
      w' = { w with taken := Function.update w.taken t (n + 1) } := by
  rw [handle] at h
  split at h
  · next hn =>
    cases h
    exact ⟨hn, rfl, rfl⟩
  · cases h

/-! ## What a call does, seen by another -/

/-- What was recorded and fetched stays, and nobody else changes what a call has loaded. -/
structure Grows (t : ℕ) (w w' : World) : Prop where
  held : w'.held t = w.held t
  stamped : ∀ d, ∀ stamp ∈ w.stamped d, stamp ∈ w'.stamped d
  pages : ∀ page ∈ w.pages, page ∈ w'.pages

theorem grows_setReadAt {t u : ℕ} {d : ℤ} {time : Time} {w : World} :
    Grows u w (w.setReadAt t d time) where
  held := rfl
  stamped d' stamp hstamp := by
    dsimp only [World.setReadAt]
    by_cases hd : d' = d
    · subst hd
      rw [Function.update_self]
      exact List.mem_append_right _ hstamp
    · rw [Function.update_of_ne hd]
      exact hstamp
  pages _ := id

/-- What a call does to the state, seen by another. -/
theorem handle_grows {cfg : Setup} {t u : ℕ} {o : Op} {w w' : World}
    {x : Except String (effects.Ret o)} (h : handle cfg t o w = .done x w') (hu : u ≠ t) :
    Grows u w w' := by
  cases o with
  | listenReads n =>
    obtain ⟨-, -, rfl⟩ := handle_listenReads h
    exact ⟨rfl, fun _ _ ↦ id, fun _ ↦ id⟩
  | setReadAt d time =>
    obtain ⟨e, -, -, rfl⟩ | ⟨-, -, rfl⟩ := World.statement_done h
    · exact ⟨rfl, fun _ _ ↦ id, fun _ ↦ id⟩
    · have hgrows : Grows u w (w.setReadAt t d time) := grows_setReadAt
      exact ⟨hgrows.held, hgrows.stamped, hgrows.pages⟩
  | loadLastRead d =>
    obtain ⟨e, -, -, rfl⟩ | ⟨-, -, rfl⟩ := World.statement_done h
    · exact ⟨rfl, fun _ _ ↦ id, fun _ ↦ id⟩
    · exact ⟨Function.update_of_ne hu .., fun _ _ ↦ id, fun _ ↦ id⟩
  | setLastRead | loadReadAt | clearLastRead =>
    obtain ⟨e, -, -, rfl⟩ | ⟨-, -, rfl⟩ := World.statement_done h
    · exact ⟨rfl, fun _ _ ↦ id, fun _ ↦ id⟩
    · exact ⟨rfl, fun _ _ ↦ id, fun _ ↦ id⟩
  | history d =>
    obtain ⟨e, -, rfl⟩ | ⟨messages, -, rfl⟩ := handle_history h
    · exact ⟨rfl, fun _ _ ↦ id, fun _ ↦ id⟩
    · exact ⟨rfl, fun _ _ ↦ id, fun _ ↦ List.mem_cons_of_mem _⟩
  | suggest d =>
    cases h
    exact ⟨rfl, fun _ _ ↦ id, fun _ ↦ id⟩

end TgMessenger.Suggest
