import TgMessenger.MessageStore.Db

/-!
# Cached translations

The statements of `core/message_store.py` on the translation columns of `messages`.  A row
whose language is set holds a decision: a translated text, or `NULL` for a message that needs
no translation.
-/

namespace TgMessenger.MessageStore.Db

/-- The row `upsert_message_for_translation` leaves after a conflict. -/
def onConflictForTranslation (excluded stored : Row) : Row :=
  { excluded with
    translatedText := if stored.text = excluded.text then stored.translatedText else none
    translatedLang := if stored.text = excluded.text then stored.translatedLang else none
    senderUsername := excluded.senderUsername.or stored.senderUsername
    senderFirstName := excluded.senderFirstName.or stored.senderFirstName
    senderLastName := excluded.senderLastName.or stored.senderLastName }

/-- The `VALUES` of `upsert_message_for_translation`, which has no translation columns. -/
def excludedForTranslation (m : Message) : Row :=
  { Row.ofMessage m none none with translatedText := none }

/-- `upsert_message_for_translation`. -/
def upsertMessageForTranslation (m : Message) (db : Db) : Db :=
  { db with messages := db.messages.upsert (key m.dialogId m.id) (excludedForTranslation m)
              (onConflictForTranslation (excludedForTranslation m)) }

/-- `set_message_translation`. -/
def setMessageTranslation (dialogId messageId : ℤ) (lang : String) (text : Option String)
    (db : Db) : Db :=
  { db with messages := db.messages.update (key dialogId messageId) fun r ↦
      { r with translatedText := text, translatedLang := some lang } }

/-- `clear_all_translations`. -/
def clearAllTranslations (db : Db) : Db :=
  { db with messages := db.messages.map fun r ↦
      { r with translatedText := none, translatedLang := none } }

/-- `get_message_translation`: the text of the decision, if there is one. -/
def getMessageTranslation (dialogId messageId : ℤ) (lang : String) (sourceText : Option String)
    (db : Db) : Option (Option String) :=
  match db.row? dialogId messageId with
  | none => none
  | some r =>
    if r.translatedLang ≠ some lang ∨ (sourceText ≠ none ∧ r.text ≠ sourceText) then none
    else some r.translatedText

/-! ## What the statements do to a row -/

variable {db : Db} {d id : ℤ}

theorem row?_upsertMessageForTranslation (m : Message) :
    (db.upsertMessageForTranslation m).row? d id =
      if d = m.dialogId ∧ id = m.id then
        some (((db.row? m.dialogId m.id).map
          (onConflictForTranslation (excludedForTranslation m))).getD (excludedForTranslation m))
      else db.row? d id := by
  simp only [row?, upsertMessageForTranslation, Table.get?_upsert, key_inj]

theorem row?_setMessageTranslation (dialogId messageId : ℤ) (lang : String)
    (text : Option String) :
    (db.setMessageTranslation dialogId messageId lang text).row? d id =
      if d = dialogId ∧ id = messageId then
        (db.row? dialogId messageId).map fun r ↦
          { r with translatedText := text, translatedLang := some lang }
      else db.row? d id := by
  simp only [row?, setMessageTranslation, Table.get?_update, key_inj]

theorem row?_clearAllTranslations :
    db.clearAllTranslations.row? d id = (db.row? d id).map fun r ↦
      { r with translatedText := none, translatedLang := none } := Table.get?_map ..

/-- The row of a message holds a decision. -/
def Decided (db : Db) (d id : ℤ) : Prop := ∃ r, db.row? d id = some r ∧ r.translatedLang ≠ none

/-- A decision that is read is one of the row. -/
theorem decided_of_getMessageTranslation {lang : String} {sourceText text : Option String}
    (h : db.getMessageTranslation d id lang sourceText = some text) : db.Decided d id := by
  rw [getMessageTranslation] at h
  split at h
  · cases h
  · next r hr =>
    split_ifs at h with hmiss
    refine ⟨r, hr, ?_⟩
    intro hnone
    refine hmiss (.inl ?_)
    rw [hnone]
    exact (Option.some_ne_none lang).symm

/-- Every decision can be read. -/
theorem Decided.exists_getMessageTranslation (h : db.Decided d id) :
    ∃ lang text, db.getMessageTranslation d id lang none = some text := by
  obtain ⟨r, hr, hlang⟩ := h
  obtain ⟨lang, hlang⟩ := Option.ne_none_iff_exists'.mp hlang
  refine ⟨lang, r.translatedText, ?_⟩
  rw [getMessageTranslation, hr]
  simp [hlang]

/-- An upsert for a translation decides nothing. -/
theorem Decided.of_upsertMessageForTranslation {m : Message}
    (h : (db.upsertMessageForTranslation m).Decided d id) : db.Decided d id := by
  obtain ⟨r, hr, hlang⟩ := h
  rw [row?_upsertMessageForTranslation] at hr
  split_ifs at hr with hkey
  · obtain ⟨rfl, rfl⟩ := hkey
    cases hrow : db.row? m.dialogId m.id with
    | none =>
      rw [hrow] at hr
      obtain rfl := Option.some.inj hr
      exact absurd rfl hlang
    | some stored =>
      rw [hrow] at hr
      obtain rfl := Option.some.inj hr
      refine ⟨stored, hrow, ?_⟩
      intro hnone
      refine hlang ?_
      show (if stored.text = _ then stored.translatedLang else none) = none
      rw [hnone, ite_self]
  · exact ⟨r, hr, hlang⟩

/-- An upsert of the store decides nothing. -/
theorem Decided.of_upsertMessage {m : Message}
    (h : (db.upsertMessage m none none true).Decided d id) : db.Decided d id := by
  obtain ⟨r, hr, hlang⟩ := h
  rw [row?_upsertMessage] at hr
  split_ifs at hr with hkey
  · obtain ⟨rfl, rfl⟩ := hkey
    cases hrow : db.row? m.dialogId m.id with
    | none =>
      rw [hrow] at hr
      obtain rfl := Option.some.inj hr
      exact absurd rfl hlang
    | some stored =>
      rw [hrow] at hr
      obtain rfl := Option.some.inj hr
      refine ⟨stored, hrow, ?_⟩
      intro hnone
      refine hlang ?_
      show (if _ then stored.translatedLang.or none else none) = none
      rw [hnone, Option.none_or, ite_self]
  · exact ⟨r, hr, hlang⟩

/-- A removal decides nothing. -/
theorem Decided.of_deleteRow {dialogId messageId : ℤ}
    (h : (db.deleteRow dialogId messageId).Decided d id) : db.Decided d id := by
  obtain ⟨r, hr, hlang⟩ := h
  rw [row?, deleteRow, Table.get?_deleteWhere] at hr
  split_ifs at hr
  exact ⟨r, hr, hlang⟩

/-- One row is decided where there is one, the others stay. -/
theorem decided_setMessageTranslation {dialogId messageId : ℤ} {lang : String}
    {text : Option String} :
    (db.setMessageTranslation dialogId messageId lang text).Decided d id ↔
      if d = dialogId ∧ id = messageId then db.Has d id else db.Decided d id := by
  rw [Decided, row?_setMessageTranslation]
  split_ifs with hkey
  · obtain ⟨rfl, rfl⟩ := hkey
    rw [has_iff_row?]
    constructor
    · rintro ⟨r, hr, -⟩
      obtain ⟨stored, hstored, -⟩ := Option.map_eq_some_iff.mp hr
      exact ⟨stored, hstored⟩
    · rintro ⟨stored, hstored⟩
      rw [hstored]
      exact ⟨_, rfl, Option.some_ne_none lang⟩
  · exact Iff.rfl

/-- No decision is left. -/
theorem not_decided_clearAllTranslations : ¬ db.clearAllTranslations.Decided d id := by
  rintro ⟨r, hr, hlang⟩
  rw [row?_clearAllTranslations] at hr
  obtain ⟨stored, -, rfl⟩ := Option.map_eq_some_iff.mp hr
  exact hlang rfl

end TgMessenger.MessageStore.Db
