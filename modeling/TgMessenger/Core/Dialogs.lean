import TgMessenger.Core.Models

/-!
# Dialogs

The rows of the dialog list (`core/models.py`), with the fields the modelled code reads.
-/

namespace TgMessenger

/-- `DialogKind`. -/
inductive DialogKind where
  | dm | group | channel | bot
deriving DecidableEq, Repr

/-- `Dialog`. -/
structure Dialog where
  id : ℤ
  title : String
  kind : DialogKind := .dm
  username : Option String := none
  unread : ℤ := 0
  canSend : Bool := true
deriving DecidableEq, Repr

end TgMessenger
