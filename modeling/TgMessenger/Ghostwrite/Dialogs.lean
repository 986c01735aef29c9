import TgMessenger.Core.Models
import TgMessenger.Data.Table

/-!
# The ghostwrite dialogs

The table `ghostwrite_dialogs` (`agent/ghostwrite.py`) says in which dialogs the engine may
answer, and until when it is paused there.  Each function here is one SQL statement, so it
takes effect at one moment, whichever process issues it.
-/

namespace TgMessenger.Ghostwrite

/-- `PAUSE_FOREVER`. -/
def pauseForever : Time := 10 ^ 19

/-- A row of `ghostwrite_dialogs`; the dialog is the primary key. -/
structure DialogRow where
  enabled : Bool
  pausedUntil : Option Time
deriving DecidableEq

/-- What `is_active` makes of a row. -/
def DialogRow.isActive (row : DialogRow) (now : Time) : Bool :=
  row.enabled && row.pausedUntil.all fun pausedUntil ↦ pausedUntil ≤ now

/-- The table. -/
abbrev Dialogs := Table ℤ DialogRow

namespace Dialogs

/-- `enable_dialog`. -/
def enableDialog (t : Dialogs) (dialogId : ℤ) : Dialogs :=
  t.upsert dialogId ⟨true, none⟩ fun _ ↦ ⟨true, none⟩

/-- `disable_dialog`. -/
def disableDialog (t : Dialogs) (dialogId : ℤ) : Dialogs :=
  t.upsert dialogId ⟨false, none⟩ fun row ↦ { row with enabled := false }

/-- `list_enabled`. -/
def listEnabled (t : Dialogs) : List ℤ := (t.entries.filter (·.2.enabled)).map Prod.fst

/-- `pause_dialog`. -/
def pauseDialog (t : Dialogs) (dialogId : ℤ) (pausedUntil : Time) : Dialogs :=
  t.update dialogId fun row ↦ { row with pausedUntil := some pausedUntil }

/-- `resume_dialog`. -/
def resumeDialog (t : Dialogs) (dialogId : ℤ) : Dialogs :=
  t.update dialogId fun row ↦ { row with pausedUntil := none }

/-- `pause_all`. -/
def pauseAll (t : Dialogs) : Dialogs :=
  t.map fun row ↦ if row.enabled then { row with pausedUntil := some pauseForever } else row

/-- `is_active`. -/
def isActive (t : Dialogs) (dialogId : ℤ) (now : Time) : Bool :=
  (t.get? dialogId).any (·.isActive now)

/-- The query of `_is_enabled_dialog`. -/
def isEnabled (t : Dialogs) (dialogId : ℤ) : Bool := (t.get? dialogId).any (·.enabled)

/-- Until when a dialog is paused. -/
def pause (t : Dialogs) (dialogId : ℤ) : Option Time := (t.get? dialogId).bind (·.pausedUntil)

variable {t : Dialogs} {d : ℤ}

theorem pause_eq_some_iff {pausedUntil : Time} : t.pause d = some pausedUntil ↔
    ∃ row, t.get? d = some row ∧ row.pausedUntil = some pausedUntil := Option.bind_eq_some_iff

/-! ### What the statements do to the pauses -/

theorem pause_enableDialog (t : Dialogs) (dialogId d : ℤ) :
    (t.enableDialog dialogId).pause d = if d = dialogId then none else t.pause d := by
  rw [pause, enableDialog, Table.get?_upsert]
  split_ifs
  · cases t.get? dialogId <;> rfl
  · rfl

theorem pause_disableDialog (t : Dialogs) (dialogId d : ℤ) :
    (t.disableDialog dialogId).pause d = t.pause d := by
  rw [pause, disableDialog, Table.get?_upsert]
  split_ifs with hd
  · rw [pause, hd]
    cases t.get? dialogId <;> rfl
  · rfl

theorem pause_resumeDialog (t : Dialogs) (dialogId d : ℤ) :
    (t.resumeDialog dialogId).pause d = if d = dialogId then none else t.pause d := by
  rw [pause, resumeDialog, Table.get?_update]
  split_ifs
  · cases t.get? dialogId <;> rfl
  · rfl

theorem pause_pauseDialog_of_ne {dialogId : ℤ} (h : d ≠ dialogId) (pausedUntil : Time) :
    (t.pauseDialog dialogId pausedUntil).pause d = t.pause d := by
  rw [pause, pauseDialog, Table.get?_update, if_neg h]
  rfl

/-- Only the enabled dialogs are paused. -/
theorem pause_pauseAll (t : Dialogs) (d : ℤ) :
    t.pauseAll.pause d = if t.isEnabled d then some pauseForever else t.pause d := by
  rw [pause, pauseAll, Table.get?_map, isEnabled, pause]
  cases t.get? d with
  | none => rfl
  | some row =>
    rw [Option.map_some, Option.bind_some, Option.any_some, Option.bind_some]
    split_ifs <;> rfl

end Dialogs

end TgMessenger.Ghostwrite
