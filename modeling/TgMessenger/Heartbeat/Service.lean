import TgMessenger.Core.Models
import TgMessenger.Data.Machine
import TgMessenger.Data.Table
import TgMessenger.Data.Text
import Mathlib.Algebra.Order.Floor.Defs
import Mathlib.Data.Rat.Floor

/-!
# The heartbeat service

`HeartbeatService` (`core/heartbeat.py`) pings the peer of every enabled plan that is due.
A tick goes through the plans in the order of their peers; for each it may write the ping
into the plan's row, send it, and write it into the journal, and each of these may fail.
-/

namespace TgMessenger.Heartbeat

/-- `DAY_SEC`. -/
def daySec : Time := 24 * 3600

/-- What a user sets in a plan, with what the validators of `HeartbeatPlan` check.  The peer
is the primary key. -/
structure Settings where
  templates : List String
  intervalHours : Time
  jitterMinutes : Time
  quietStart : Option ℕ
  quietEnd : Option ℕ
  enabled : Bool
  maxPerDay : ℕ
  nonEmpty : templates ≠ []
  interval_pos : 0 < intervalHours
  jitter_nonneg : 0 ≤ jitterMinutes
  one_le_maxPerDay : 1 ≤ maxPerDay
  quietStart_le : ∀ h ∈ quietStart, h ≤ 23
  quietEnd_le : ∀ h ∈ quietEnd, h ≤ 23

/-- `HeartbeatPlan`. -/
structure HeartbeatPlan extends Settings where
  lastPingAt : Option Time
  pingsToday : ℕ
  /-- When the current daily counter started. -/
  dayStart : Option Time
  /-- The jitter of the next interval. -/
  nextJitterSec : Option Time

/-! ## When a plan is due -/

/-- `_in_quiet_window`. -/
def inQuietWindow (localHour start stop : ℕ) : Bool :=
  if start = stop then false
  else if start < stop then start ≤ localHour && localHour < stop
  else start ≤ localHour || localHour < stop

/-- Whether an hour is one of the quiet hours of a plan. -/
def Settings.isQuiet (plan : Settings) (localHour : ℕ) : Bool :=
  match plan.quietStart, plan.quietEnd with
  | some start, some stop => inQuietWindow localHour start stop
  | _, _ => false

/-- Whether the daily counter of a plan still counts. -/
def HeartbeatPlan.inDay (plan : HeartbeatPlan) (now : Time) : Bool :=
  plan.dayStart.any fun dayStart ↦ now - dayStart < daySec

/-- `is_due`; `localHour` is the hour of `datetime.fromtimestamp`. -/
def HeartbeatPlan.isDue (localHour : Time → ℕ) (plan : HeartbeatPlan) (now : Time) : Bool :=
  if plan.isQuiet (localHour now) then false
  else if plan.inDay now && plan.maxPerDay ≤ plan.pingsToday then false
  else
    match plan.lastPingAt with
    | none => true
    | some lastPingAt =>
      lastPingAt + plan.intervalHours * 3600 + plan.nextJitterSec.getD 0 ≤ now

/-! ## One ping -/

/-- A source of random numbers that keeps its bounds. -/
structure Rng where
  draw : Time → Time → Time
  within : ∀ a b, a ≤ b → a ≤ draw a b ∧ draw a b ≤ b

/-- How a write to the database ends; one that fails may have taken effect. -/
inductive Write where
  | stored
  | failed (applied : Bool)

/-- What the outside answers while one plan is processed. -/
structure Outside where
  /-- Whether the last message of the dialog is ours; `none` when the request fails. -/
  lastIsOurs : Option Bool
  /-- What the text provider gives, if there is one; `some none` when it fails. -/
  provided : Option (Option String)
  rng : Rng
  record : Write
  sendFails : Bool
  journalFails : Bool

/-- `_choose_text`. -/
def chooseText (plan : Settings) (outside : Outside) : String :=
  let count := plan.templates.length
  let idx := if 1 < count then min ⌊outside.rng.draw 0 count⌋.toNat (count - 1) else 0
  let template := plan.templates.getD idx ""
  match outside.provided with
  | some (some text) => if isBlank text then template else text
  | _ => template

/-- A ping as `_record_ping` writes it. -/
structure Record where
  /-- The tick it was written in. -/
  tick : ℕ
  peer : ℤ
  now : Time
  pingsToday : ℕ
  dayStart : Time
  nextJitterSec : Option Time

/-- What `_record_ping` is about to write. -/
def HeartbeatPlan.record (plan : HeartbeatPlan) (tick : ℕ) (peer : ℤ) (now : Time) (rng : Rng) :
    Record where
  tick := tick
  peer := peer
  now := now
  pingsToday := if plan.inDay now then plan.pingsToday + 1 else 1
  dayStart := if plan.inDay now then plan.dayStart.getD now else now
  nextJitterSec :=
    if 0 < plan.jitterMinutes then some (rng.draw 0 (plan.jitterMinutes * 60)) else none

/-- The `UPDATE` of `_record_ping`. -/
def HeartbeatPlan.written (row : HeartbeatPlan) (r : Record) : HeartbeatPlan :=
  { row with
    lastPingAt := some r.now
    pingsToday := r.pingsToday
    dayStart := some r.dayStart
    nextJitterSec := r.nextJitterSec }

/-! ## Ticks -/

/-- What the service does that can be seen from outside. -/
inductive Action where
  | /-- The row of a plan was written. -/
    recorded (r : Record)
  | /-- `send_text` was called. -/
    sent (tick : ℕ) (peer : ℤ) (now : Time) (text : String)
  | journaled (peer : ℤ) (text : String)

/-- The database with what was done so far. -/
structure World where
  plans : Table ℤ HeartbeatPlan
  /-- Latest first. -/
  log : List Action
  /-- The time of the last tick. -/
  now : Time
  ticks : ℕ

namespace World

/-- A run starts at `now` with some plans. -/
def init (plans : Table ℤ HeartbeatPlan) (now : Time) : World := ⟨plans, [], now, 0⟩

/-- The row of a plan is written. -/
def write (w : World) (r : Record) : World :=
  { w with plans := w.plans.update r.peer (·.written r), log := .recorded r :: w.log }

/-- `send_text` is called. -/
def send (w : World) (peer : ℤ) (now : Time) (text : String) : World :=
  { w with log := .sent w.ticks peer now text :: w.log }

/-- `_journal`. -/
def journal (w : World) (peer : ℤ) (text : String) : World :=
  { w with log := .journaled peer text :: w.log }

/-- `_maybe_ping`, with what `process_plans` catches. -/
def maybePing (localHour : Time → ℕ) (outside : Outside) (peer : ℤ) (plan : HeartbeatPlan)
    (now : Time) (w : World) : World :=
  if plan.isDue localHour now then
    match outside.lastIsOurs with
    | some false =>
      let text := chooseText plan.toSettings outside
      let r := plan.record w.ticks peer now outside.rng
      match outside.record with
      | .failed applied => if applied then w.write r else w
      | .stored =>
        let w := (w.write r).send peer now text
        if outside.sendFails || outside.journalFails then w else w.journal peer text
    | _ => w
  else w

/-- `list_enabled_plans`. -/
def enabledPlans (w : World) : List (ℤ × HeartbeatPlan) := w.plans.entries.filter (·.2.enabled)

/-- `process_plans`: a tick at `now`, not before the last one. -/
def processPlans (localHour : Time → ℕ) : Machine World (Time × (ℤ → Outside)) :=
  fun w (now, outside) ↦
    if w.now ≤ now then
      some (w.enabledPlans.foldl (fun w e ↦ w.maybePing localHour (outside e.1) e.1 e.2 now)
        { w with now, ticks := w.ticks + 1 })
    else none

end World

end TgMessenger.Heartbeat
