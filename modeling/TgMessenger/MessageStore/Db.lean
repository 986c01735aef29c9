import TgMessenger.Core.Models
import TgMessenger.Data.Pages
import TgMessenger.Data.Table
import Mathlib.Data.Prod.Lex

/-!
# The tables of the message store

The two tables of `core/message_store.py` and one function for each SQL statement the
store executes.  A statement is atomic; what happens between two of them is in
`TgMessenger.MessageStore.Program`.
-/

namespace TgMessenger.MessageStore

/-- The columns of `messages` beside its primary key.  The media column holds JSON that
pydantic reads back unchanged, so it is the value itself here. -/
structure Row where
  senderId : ℤ
  out : Bool
  date : String
  text : Option String
  media : Option MediaRef
  replyToId : Option ℤ
  isForward : Bool
  translatedText : Option String
  translatedLang : Option String
  senderUsername : Option String
  senderFirstName : Option String
  senderLastName : Option String
deriving DecidableEq, Repr

/-- `PRIMARY KEY (dialog_id, id)`. -/
abbrev Key := ℤ ×ₗ ℤ

/-- The key of message `id` of a dialog. -/
abbrev key (dialogId id : ℤ) : Key := toLex (dialogId, id)

/-- The database of the store. -/
structure Db where
  /-- `messages`. -/
  messages : Table Key Row
  /-- `message_sync`: the low and high id of a dialog's window. -/
  sync : ℤ → Option (ℤ × ℤ)

namespace Db

/-- The database after the migrations. -/
def empty : Db := ⟨Table.empty, fun _ ↦ none⟩

/-- The row of message `id` of dialog `d`. -/
def row? (db : Db) (d id : ℤ) : Option Row := db.messages.get? (key d id)

/-- The store has a row for message `id` of dialog `d`. -/
def Has (db : Db) (d id : ℤ) : Prop := db.messages.Has (key d id)

theorem has_iff_row? {db : Db} {d id : ℤ} : db.Has d id ↔ ∃ r, db.row? d id = some r := Iff.rfl

end Db

/-! ## `_upsert_message` and `_row_to_message` -/

/-- The `VALUES` of the insert. -/
def Row.ofMessage (m : Message) (translatedText translatedLang : Option String) : Row where
  senderId := m.senderId
  out := m.out
  date := m.date
  text := m.text
  media := m.media
  replyToId := m.replyToId
  isForward := m.isForward
  translatedText := translatedText.or m.translatedText
  translatedLang := translatedLang
  senderUsername := m.sender.bind User.username
  senderFirstName := m.sender.bind User.firstName
  senderLastName := m.sender.bind User.lastName

/-- `ON CONFLICT … DO UPDATE SET`: the stored row after a conflict with `excluded`.  A
`NULL` author column keeps what is stored; the translation is kept for an unchanged text
when `preserveTranslation` asks for it. -/
def Row.onConflict (preserveTranslation : Bool) (excluded stored : Row) : Row :=
  { excluded with
    translatedText :=
      if preserveTranslation ∧ stored.text = excluded.text then
        stored.translatedText.or excluded.translatedText
      else excluded.translatedText
    translatedLang :=
      if preserveTranslation ∧ stored.text = excluded.text then
        stored.translatedLang.or excluded.translatedLang
      else excluded.translatedLang
    senderUsername := excluded.senderUsername.or stored.senderUsername
    senderFirstName := excluded.senderFirstName.or stored.senderFirstName
    senderLastName := excluded.senderLastName.or stored.senderLastName }

/-- `_row_to_message`. -/
def rowToMessage (k : Key) (r : Row) : Message where
  id := (ofLex k).2
  dialogId := (ofLex k).1
  senderId := r.senderId
  out := r.out
  date := r.date
  text := r.text
  media := r.media
  replyToId := r.replyToId
  isForward := r.isForward
  translatedText := r.translatedText
  sender :=
    if r.senderUsername.isSome ∨ r.senderFirstName.isSome ∨ r.senderLastName.isSome then
      some { id := r.senderId, username := r.senderUsername,
             firstName := r.senderFirstName, lastName := r.senderLastName }
    else none

namespace Db

/-- The row an upsert of `m` leaves, given the row that was there. -/
def upsertedRow (m : Message) (translatedText translatedLang : Option String)
    (preserveTranslation : Bool) (stored : Option Row) : Row :=
  let excluded := Row.ofMessage m translatedText translatedLang
  (stored.map (Row.onConflict preserveTranslation excluded)).getD excluded

/-- `_upsert_message`. -/
def upsertMessage (m : Message) (translatedText translatedLang : Option String)
    (preserveTranslation : Bool) (db : Db) : Db :=
  let excluded := Row.ofMessage m translatedText translatedLang
  { db with messages := db.messages.upsert (key m.dialogId m.id) excluded
              (Row.onConflict preserveTranslation excluded) }

/-! ## The other statements -/

/-- `SELECT low_id, high_id FROM message_sync WHERE dialog_id = ?`. -/
def syncRow (peer : ℤ) (db : Db) : Option (ℤ × ℤ) := db.sync peer

/-- `INSERT INTO message_sync … ON CONFLICT(dialog_id) DO UPDATE`. -/
def setSyncRow (peer low high : ℤ) (db : Db) : Db :=
  { db with sync := Function.update db.sync peer (some (low, high)) }

/-- The rows of a dialog with `low ≤ id ≤ high`. -/
def inWindow (peer low high : ℤ) (k : Key) : Bool :=
  (ofLex k).1 = peer ∧ low ≤ (ofLex k).2 ∧ (ofLex k).2 ≤ high

theorem inWindow_key {peer low high d id : ℤ} :
    inWindow peer low high (key d id) = true ↔ d = peer ∧ low ≤ id ∧ id ≤ high := by
  simp only [inWindow, decide_eq_true_eq]
  rfl

/-- `SELECT COUNT(*) FROM messages WHERE dialog_id = ? AND id >= ? AND id <= ?`. -/
def windowCount (peer low high : ℤ) (db : Db) : ℕ :=
  (db.messages.select (inWindow peer low high)).length

/-- `SELECT … WHERE p ORDER BY id DESC LIMIT ?`, reversed and decoded. -/
def load (p : Key → Bool) (limit : ℕ) (db : Db) : List Message :=
  (((db.messages.select p).reverse.take limit).reverse).map fun e ↦ rowToMessage e.1 e.2

/-- The `SELECT` of `_load_window`. -/
def loadWindow (peer low high : ℤ) (limit : ℕ) (db : Db) : List Message :=
  db.load (inWindow peer low high) limit

/-- The rows of a dialog with `low ≤ id < offset`. -/
def beforeOffset (peer offset low : ℤ) (k : Key) : Bool :=
  (ofLex k).1 = peer ∧ low ≤ (ofLex k).2 ∧ (ofLex k).2 < offset

theorem beforeOffset_key {peer offset low d id : ℤ} :
    beforeOffset peer offset low (key d id) = true ↔ d = peer ∧ low ≤ id ∧ id < offset := by
  simp only [beforeOffset, decide_eq_true_eq]
  rfl

/-- The `SELECT` of `_load_before`. -/
def loadBefore (peer : ℤ) (limit : ℕ) (offset low : ℤ) (db : Db) : List Message :=
  db.load (beforeOffset peer offset low) limit

/-- `DELETE FROM messages WHERE dialog_id = ?`. -/
def deleteDialog (peer : ℤ) (db : Db) : Db :=
  { db with messages := db.messages.deleteWhere fun k ↦ (ofLex k).1 = peer }

/-- The `DELETE` of `_prune_window`. -/
def pruneWindow (peer low high : ℤ) (ids : List ℤ) (db : Db) : Db :=
  { db with messages := db.messages.deleteWhere fun k ↦
      inWindow peer low high k && decide ((ofLex k).2 ∉ ids) }

/-- `DELETE FROM messages WHERE dialog_id = ? AND id IN (…)`. -/
def deleteIds (peer : ℤ) (ids : List ℤ) (db : Db) : Db :=
  { db with messages := db.messages.deleteWhere fun k ↦
      decide ((ofLex k).1 = peer) && decide ((ofLex k).2 ∈ ids) }

/-- `SELECT dialog_id, id FROM messages WHERE id IN (…)`. -/
def selectIds (ids : List ℤ) (db : Db) : List (ℤ × ℤ) :=
  (db.messages.select fun k ↦ (ofLex k).2 ∈ ids).map fun e ↦ ofLex e.1

/-- `DELETE FROM messages WHERE dialog_id = ? AND id = ?`. -/
def deleteRow (peer id : ℤ) (db : Db) : Db :=
  { db with messages := db.messages.deleteWhere fun k ↦ k = key peer id }

/-! ## What the statements do to a row -/

section Rows

variable (db : Db) (d id : ℤ)

@[simp] theorem sync_upsertMessage (m : Message) (tt tl : Option String) (pt : Bool) :
    (db.upsertMessage m tt tl pt).sync = db.sync := rfl

@[simp] theorem sync_deleteDialog (peer : ℤ) : (db.deleteDialog peer).sync = db.sync := rfl

@[simp] theorem sync_pruneWindow (peer low high : ℤ) (ids : List ℤ) :
    (db.pruneWindow peer low high ids).sync = db.sync := rfl

@[simp] theorem sync_deleteIds (peer : ℤ) (ids : List ℤ) :
    (db.deleteIds peer ids).sync = db.sync := rfl

@[simp] theorem sync_deleteRow (peer i : ℤ) : (db.deleteRow peer i).sync = db.sync := rfl

@[simp] theorem messages_setSyncRow (peer low high : ℤ) :
    (db.setSyncRow peer low high).messages = db.messages := rfl

@[simp] theorem row?_setSyncRow (peer low high : ℤ) :
    (db.setSyncRow peer low high).row? d id = db.row? d id := rfl

@[simp] theorem has_setSyncRow (peer low high : ℤ) :
    (db.setSyncRow peer low high).Has d id ↔ db.Has d id := Iff.rfl

@[simp] theorem sync_setSyncRow_self (peer low high : ℤ) :
    (db.setSyncRow peer low high).sync peer = some (low, high) := Function.update_self ..

theorem sync_setSyncRow_ne {peer p : ℤ} (low high : ℤ) (h : p ≠ peer) :
    (db.setSyncRow peer low high).sync p = db.sync p := Function.update_of_ne h ..

theorem key_inj {d d' i i' : ℤ} : key d i = key d' i' ↔ d = d' ∧ i = i' := by
  rw [key, key, toLex_inj, Prod.mk.injEq]

theorem row?_upsertMessage (m : Message) (tt tl : Option String) (pt : Bool) :
    (db.upsertMessage m tt tl pt).row? d id =
      if d = m.dialogId ∧ id = m.id then
        some (upsertedRow m tt tl pt (db.row? m.dialogId m.id))
      else db.row? d id := by
  simp only [row?, upsertMessage, Table.get?_upsert, key_inj]
  rfl

@[simp] theorem has_upsertMessage (m : Message) (tt tl : Option String) (pt : Bool) :
    (db.upsertMessage m tt tl pt).Has d id ↔ (d = m.dialogId ∧ id = m.id) ∨ db.Has d id := by
  rw [Has, upsertMessage, Table.has_upsert, key_inj]
  rfl

@[simp] theorem has_deleteDialog (peer : ℤ) :
    (db.deleteDialog peer).Has d id ↔ db.Has d id ∧ d ≠ peer := by
  rw [Has, deleteDialog, Table.has_deleteWhere, decide_eq_false_iff_not]
  rfl

theorem row?_pruneWindow (peer low high : ℤ) (ids : List ℤ) :
    (db.pruneWindow peer low high ids).row? d id =
      if d = peer ∧ low ≤ id ∧ id ≤ high ∧ id ∉ ids then none else db.row? d id := by
  rw [row?, pruneWindow, Table.get?_deleteWhere]
  refine if_congr ?_ rfl rfl
  rw [Bool.and_eq_true, inWindow_key, decide_eq_true_eq, and_assoc, and_assoc]
  rfl

@[simp] theorem has_pruneWindow (peer low high : ℤ) (ids : List ℤ) :
    (db.pruneWindow peer low high ids).Has d id ↔
      db.Has d id ∧ ¬(d = peer ∧ low ≤ id ∧ id ≤ high ∧ id ∉ ids) := by
  rw [has_iff_row?, row?_pruneWindow]
  split_ifs with h
  · simp [h]
  · simp [h, has_iff_row?]

@[simp] theorem has_deleteIds (peer : ℤ) (ids : List ℤ) :
    (db.deleteIds peer ids).Has d id ↔ db.Has d id ∧ ¬(d = peer ∧ id ∈ ids) := by
  rw [Has, deleteIds, Table.has_deleteWhere, ← Bool.not_eq_true, Bool.and_eq_true,
    decide_eq_true_eq, decide_eq_true_eq]
  rfl

@[simp] theorem has_deleteRow (peer i : ℤ) :
    (db.deleteRow peer i).Has d id ↔ db.Has d id ∧ ¬(d = peer ∧ id = i) := by
  rw [Has, deleteRow, Table.has_deleteWhere, decide_eq_false_iff_not, key_inj]
  rfl

theorem mem_selectIds {ids : List ℤ} :
    (d, id) ∈ db.selectIds ids ↔ db.Has d id ∧ id ∈ ids := by
  simp only [selectIds, List.mem_map, Table.mem_select, decide_eq_true_eq, Prod.exists]
  constructor
  · rintro ⟨k, r, ⟨hr, hk⟩, he⟩
    obtain rfl : k = key d id := by rw [key, ← he]; rfl
    exact ⟨⟨r, hr⟩, hk⟩
  · rintro ⟨⟨r, hr⟩, hid⟩
    exact ⟨key d id, r, ⟨hr, hid⟩, rfl⟩

end Rows

/-! ## What the selections return -/

/-- The messages of the rows a condition selects, before the limit. -/
def selected (p : Key → Bool) (db : Db) : List Message :=
  (db.messages.select p).map fun e ↦ rowToMessage e.1 e.2

/-- A selection is the newest rows, in ascending order. -/
theorem load_eq_rtake (p : Key → Bool) (limit : ℕ) (db : Db) :
    db.load p limit = (db.selected p).rtake limit := by
  rw [load, ← List.rtake_eq_reverse_take_reverse, List.map_rtake, selected]

theorem mem_selected {p : Key → Bool} {db : Db} {m : Message} :
    m ∈ db.selected p ↔ p (key m.dialogId m.id) = true ∧
      ∃ r, db.row? m.dialogId m.id = some r ∧ m = rowToMessage (key m.dialogId m.id) r := by
  simp only [selected, List.mem_map, Table.mem_select, Prod.exists]
  constructor
  · rintro ⟨k, r, ⟨hr, hp⟩, rfl⟩
    exact ⟨hp, r, hr, rfl⟩
  · rintro ⟨hp, r, hr, hm⟩
    exact ⟨key m.dialogId m.id, r, ⟨hr, hp⟩, hm.symm⟩

/-- The ids of a selection within one dialog ascend. -/
theorem ascending_selected {p : Key → Bool} (peer : ℤ)
    (hp : ∀ k, p k = true → (ofLex k).1 = peer) (db : Db) :
    (db.selected p).Pairwise fun a b ↦ a.id < b.id := by
  rw [selected, List.pairwise_map]
  refine (db.messages.sorted_select p).imp_of_mem fun {a b} ha hb hab ↦ ?_
  have ha := hp _ (Table.mem_select.mp ha).2
  have hb := hp _ (Table.mem_select.mp hb).2
  rcases Prod.Lex.lt_iff.mp hab with h | ⟨-, h⟩
  · rw [ha, hb] at h
    exact absurd h (lt_irrefl _)
  · exact h

theorem length_selected (p : Key → Bool) (db : Db) :
    (db.selected p).length = (db.messages.select p).length := List.length_map ..

end Db

end TgMessenger.MessageStore
