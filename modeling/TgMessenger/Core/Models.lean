import Mathlib.Algebra.Order.Ring.Rat

/-!
# Domain models

The pydantic models every interface shares (`core/models.py`), with the fields the
modelled code reads or stores.
-/

namespace TgMessenger

/-- Readings of a clock, as exact numbers of seconds. -/
abbrev Time := ℚ

/-- `MediaKind`. -/
inductive MediaKind where
  | photo | voice | document | other
deriving DecidableEq, Repr

/-- `MediaRef`. -/
structure MediaRef where
  kind : MediaKind
  fileName : Option String := none
  size : Option ℤ := none
  mimeType : Option String := none
  downloadable : Bool := false
deriving DecidableEq, Repr

/-- `User`. -/
structure User where
  id : ℤ
  firstName : Option String := none
  lastName : Option String := none
  username : Option String := none
deriving DecidableEq, Repr

/-- `Message`.  `date` is the ISO text that `isoformat` prints and `fromisoformat` reads. -/
structure Message where
  id : ℤ
  dialogId : ℤ
  senderId : ℤ
  out : Bool
  date : String
  text : Option String := none
  media : Option MediaRef := none
  replyToId : Option ℤ := none
  isForward : Bool := false
  translatedText : Option String := none
  /-- The author, when it was resolved. -/
  sender : Option User := none
deriving DecidableEq, Repr

/-- `MessagesDeletedEvent`: Telegram only names the chat for channels and supergroups. -/
structure MessagesDeletedEvent where
  chatId : Option ℤ := none
  messageIds : List ℤ
deriving DecidableEq, Repr

/-- `is_channel_or_megagroup_id`: channels and supergroups are marked `-(10^12 + id)`. -/
def isChannelOrMegagroupId (peer : ℤ) : Bool := peer ≤ -1000000000000

end TgMessenger
