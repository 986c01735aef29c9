import TgMessenger.Data.Machine
import TgMessenger.Translate.Conservative

/-!
# Whose text a cached translation is of

The statements on the row of one message, in any order.  A translation that was written stays in
the row only as long as its text does; but a message without a text is looked up by its id alone,
and meets the translation of the text that was removed.
-/

namespace TgMessenger.Translate

open MessageStore

/-! ## The row of a message -/

/-- That a translation was written, and the text the row held then. -/
structure Writing where
  source : Option String
  lang : String
  text : Option String
deriving DecidableEq

/-- The rows, and the translations written for one of them since the cache was last cleared. -/
structure RowHistory where
  db : Db
  writings : List Writing

/-- A statement on the row of one message. -/
inductive RowEvent where
  | /-- `_upsert_message`, of `ingest` and of a page of history. -/
    upsertMessage (m : Message)
  | upsertMessageForTranslation (m : Message)
  | setMessageTranslation (lang : String) (text : Option String)
  | recordOutgoing (m : Message) (sourceText sourceLang : String)
  | clearAllTranslations

/-- The sender of a message that is upserted. -/
def RowEvent.sender? : RowEvent → Option (Option User)
  | .upsertMessage m | .upsertMessageForTranslation m | .recordOutgoing m _ _ => some m.sender
  | .setMessageTranslation .. | .clearAllTranslations => none

/-- The text of the row, when there is one, is written down with a translation. -/
def recordWriting (row : Option Row) (lang : String) (text : Option String)
    (writings : List Writing) : List Writing :=
  match row with
  | none => writings
  | some row => writings ++ [⟨row.text, lang, text⟩]

/-- The statements on the row of message `id` of dialog `d`.  A message of the server carries no
translation. -/
def rowMachine (d id : ℤ) : Machine RowHistory RowEvent
  | s, .upsertMessage m =>
    if m.dialogId = d ∧ m.id = id ∧ m.translatedText = none then
      some { s with db := s.db.upsertMessage m none none true }
    else none
  | s, .upsertMessageForTranslation m =>
    if m.dialogId = d ∧ m.id = id then
      some { s with db := s.db.upsertMessageForTranslation m }
    else none
  | s, .setMessageTranslation lang text =>
    some { db := s.db.setMessageTranslation d id lang text
           writings := recordWriting (s.db.row? d id) lang text s.writings }
  | s, .recordOutgoing m sourceText sourceLang =>
    if m.id = id then
      some { db := s.db.upsertMessage { m with dialogId := d } (some sourceText)
                     (some sourceLang) false
             writings := s.writings ++ [⟨m.text, sourceLang, some sourceText⟩] }
    else none
  | s, .clearAllTranslations =>
    some { db := s.db.clearAllTranslations, writings := [] }

/-! ## What is in the row was written last -/

/-- The decision of the row is the last that was written, and was written for its text. -/
def Traced (d id : ℤ) (s : RowHistory) : Prop :=
  ∀ row lang, s.db.row? d id = some row → row.translatedLang = some lang →
    s.writings.getLast? = some ⟨row.text, lang, row.translatedText⟩

section Steps

variable {d id : ℤ} {s s' : RowHistory} {e : RowEvent}

/-- An upsert keeps a decision for the same text, and drops another. -/
theorem traced_of_kept (hs : Traced d id s) (excluded : Row) {db : Db} {row : Row}
    (hrow : db.row? d id = some row) (htext : row.text = excluded.text)
    (hkept : ∀ lang, row.translatedLang = some lang → ∃ stored, s.db.row? d id = some stored ∧
      stored.text = excluded.text ∧ stored.translatedLang = some lang ∧
      row.translatedText = stored.translatedText) : Traced d id { s with db } := by
  intro row' lang hrow' hlang
  obtain rfl : row = row' := Option.some.inj (hrow.symm.trans hrow')
  obtain ⟨stored, hstored, hsame, hlang', htranslated⟩ := hkept lang hlang
  rw [htext, ← hsame, htranslated]
  exact hs stored lang hstored hlang'

theorem traced_step (hs : Traced d id s) (h : rowMachine d id s e = some s') : Traced d id s' := by
  cases e with
  | upsertMessage m =>
    obtain ⟨⟨rfl, rfl, hm⟩, hs'⟩ := Option.ite_none_right_eq_some.mp h
    obtain rfl := Option.some.inj hs'
    refine traced_of_kept hs (Row.ofMessage m none none)
      ((s.db.row?_upsertMessage ..).trans (if_pos ⟨rfl, rfl⟩)) ?_ ?_
    · rw [Db.upsertedRow]
      cases s.db.row? m.dialogId m.id <;> rfl
    · intro lang hlang
      rw [Db.upsertedRow] at hlang ⊢
      cases hstored : s.db.row? m.dialogId m.id with
      | none =>
        rw [hstored] at hlang
        cases hlang
      | some stored =>
        rw [hstored] at hlang
        simp only [Option.map_some, Option.getD_some, Row.onConflict, Row.ofMessage, hm,
          Option.or_none, true_and] at hlang ⊢
        split_ifs at hlang with hsame
        exact ⟨stored, rfl, hsame, hlang, if_pos hsame⟩
  | upsertMessageForTranslation m =>
    obtain ⟨⟨rfl, rfl⟩, hs'⟩ := Option.ite_none_right_eq_some.mp h
    obtain rfl := Option.some.inj hs'
    refine traced_of_kept hs (Db.excludedForTranslation m)
      ((Db.row?_upsertMessageForTranslation m).trans (if_pos ⟨rfl, rfl⟩)) ?_ ?_
    · cases s.db.row? m.dialogId m.id <;> rfl
    · intro lang hlang
      cases hstored : s.db.row? m.dialogId m.id with
      | none =>
        rw [hstored] at hlang
        cases hlang
      | some stored =>
        rw [hstored] at hlang
        simp only [Option.map_some, Option.getD_some, Db.onConflictForTranslation] at hlang ⊢
        split_ifs at hlang with hsame
        exact ⟨stored, rfl, hsame, hlang, if_pos hsame⟩
  | setMessageTranslation lang text =>
    obtain rfl := Option.some.inj h
    intro row lang' hrow hlang
    have hset := (Db.row?_setMessageTranslation d id lang text).symm.trans hrow
    rw [if_pos ⟨rfl, rfl⟩] at hset
    obtain ⟨stored, hstored, rfl⟩ := Option.map_eq_some_iff.mp hset
    obtain rfl := Option.some.inj hlang
    simp only [recordWriting, hstored, List.getLast?_concat]
  | recordOutgoing m sourceText sourceLang =>
    obtain ⟨rfl, hs'⟩ := Option.ite_none_right_eq_some.mp h
    obtain rfl := Option.some.inj hs'
    intro row lang hrow hlang
    have hupsert := (s.db.row?_upsertMessage ..).symm.trans hrow
    rw [if_pos ⟨rfl, rfl⟩, Option.some_inj] at hupsert
    subst hupsert
    rw [Db.upsertedRow] at hlang ⊢
    cases hstored : s.db.row? d m.id with
    | none =>
      simp only [hstored] at hlang ⊢
      obtain rfl := Option.some.inj hlang
      exact List.getLast?_concat
    | some stored =>
      simp only [hstored] at hlang ⊢
      obtain rfl := Option.some.inj hlang
      exact List.getLast?_concat
  | clearAllTranslations =>
    obtain rfl := Option.some.inj h
    intro row lang hrow hlang
    rw [Db.row?_clearAllTranslations] at hrow
    obtain ⟨stored, -, rfl⟩ := Option.map_eq_some_iff.mp hrow
    cases hlang

/-- The names of an author. -/
def author (row : Row) : Option String × Option String × Option String :=
  (row.senderUsername, row.senderFirstName, row.senderLastName)

/-- An upsert without a sender keeps the author. -/
theorem author_step (h : rowMachine d id s e = some s') (hsender : e.sender? = some none)
    {row : Row} (hrow : s.db.row? d id = some row) :
    ∃ row', s'.db.row? d id = some row' ∧ author row' = author row := by
  cases e with
  | upsertMessage m =>
    obtain ⟨⟨rfl, rfl, -⟩, hs'⟩ := Option.ite_none_right_eq_some.mp h
    obtain rfl := Option.some.inj hs'
    refine ⟨_, (s.db.row?_upsertMessage ..).trans (if_pos ⟨rfl, rfl⟩), ?_⟩
    rw [Db.upsertedRow, hrow]
    simp [author, Row.onConflict, Row.ofMessage, Option.some.inj hsender]
  | upsertMessageForTranslation m =>
    obtain ⟨⟨rfl, rfl⟩, hs'⟩ := Option.ite_none_right_eq_some.mp h
    obtain rfl := Option.some.inj hs'
    refine ⟨_, (Db.row?_upsertMessageForTranslation m).trans (if_pos ⟨rfl, rfl⟩), ?_⟩
    rw [hrow]
    simp [author, Db.onConflictForTranslation, Db.excludedForTranslation, Row.ofMessage,
      Option.some.inj hsender]
  | setMessageTranslation lang text => cases hsender
  | recordOutgoing m sourceText sourceLang =>
    obtain ⟨rfl, hs'⟩ := Option.ite_none_right_eq_some.mp h
    obtain rfl := Option.some.inj hs'
    refine ⟨_, (s.db.row?_upsertMessage ..).trans (if_pos ⟨rfl, rfl⟩), ?_⟩
    rw [Db.upsertedRow, hrow]
    simp [author, Row.onConflict, Row.ofMessage, Option.some.inj hsender]
  | clearAllTranslations => cases hsender

end Steps

/-! ## What a message takes from the cache -/

/-- The row holds a decision on a text that the message has lost. -/
def TextRemoved (target : String) (m : Message) (db : Db) : Prop :=
  m.text = none ∧ ∃ row, db.row? m.dialogId m.id = some row ∧ row.text ≠ none ∧
    row.translatedLang = some target

section Taken

variable {d id : ℤ} {s : RowHistory}

/-- What is found was written for the text of the row. -/
theorem getLast?_writings (hs : Traced d id s) {m : Message} (hd : m.dialogId = d)
    (hid : m.id = id) {target : String} {text : Option String}
    (h : decision target m s.db = some text) :
    ∃ row, s.db.row? d id = some row ∧ row.translatedLang = some target ∧
      (m.text ≠ none → row.text = m.text) ∧
      s.writings.getLast? = some ⟨row.text, target, text⟩ := by
  rw [decision, Db.getMessageTranslation, hd, hid] at h
  cases hrow : s.db.row? d id with
  | none =>
    rw [hrow] at h
    cases h
  | some row =>
    rw [hrow] at h
    dsimp only at h
    split_ifs at h with hmiss
    rw [not_or, not_and, not_not, not_not] at hmiss
    obtain rfl := Option.some.inj h
    exact ⟨row, rfl, hmiss.1, hmiss.2, hs row target hrow hmiss.1⟩

/-- What a message finds was written for its own text, unless the text was removed. -/
theorem taken_iff (hs : Traced d id s) {m : Message} (hd : m.dialogId = d) (hid : m.id = id)
    (target : String) :
    (∀ text, decision target m s.db = some text →
      s.writings.getLast? = some ⟨m.text, target, text⟩) ↔ ¬ TextRemoved target m s.db := by
  constructor
  · rintro htaken ⟨htext, row, hrow, hsome, hlang⟩
    have hdecision : decision target m s.db = some row.translatedText := by
      rw [decision, Db.getMessageTranslation, hrow]
      simp [hlang, htext]
    obtain ⟨row', hrow', -, -, hlast⟩ := getLast?_writings hs hd hid hdecision
    rw [hd, hid, hrow', Option.some_inj] at hrow
    have hsame := hlast.symm.trans (htaken _ hdecision)
    rw [Option.some_inj, Writing.mk.injEq] at hsame
    rw [← hrow, hsame.1, htext] at hsome
    exact hsome rfl
  · intro hkept text hdecision
    obtain ⟨row, hrow, hlang, htext, hlast⟩ := getLast?_writings hs hd hid hdecision
    rw [hlast]
    by_cases hnone : m.text = none
    · have hrowText : row.text = none := by
        by_contra hsome
        rw [← hd, ← hid] at hrow
        exact hkept ⟨hnone, row, hrow, hsome, hlang⟩
      rw [hrowText, hnone]
    · rw [htext hnone]

end Taken

/-- After any statements on the row of a message, what `_prepare_message` takes from the cache was
the last that was written since the cache was cleared, for the text of the message and for the
target, if and only if the row holds no decision on a text that the message has lost.  No upsert
without a sender changes the author. -/
theorem cached_current_iff {d id : ℤ} {db : Db} {s : RowHistory}
    (hrun : (rowMachine d id).Runs Machine.anyEvent ⟨db, []⟩ s) (hdb : ¬ db.Decided d id) :
    (∀ m target, m.dialogId = d → m.id = id →
      ((∀ text, decision target m s.db = some text →
        s.writings.getLast? = some ⟨m.text, target, text⟩) ↔ ¬ TextRemoved target m s.db)) ∧
    (∀ (cfg : Setup) t w m target text, (∀ n, cfg.faults n = none) → w.db = s.db →
      decision target m s.db = some text →
      ∃ w', (prepareMessage cfg.toEnv target m).run (system cfg) t w =
        some (.ok ({ m with translatedText := text }, false), w')) ∧
    ∀ e s', rowMachine d id s e = some s' → e.sender? = some none →
      ∀ row, s.db.row? d id = some row →
        ∃ row', s'.db.row? d id = some row' ∧ author row' = author row := by
  have hinit : Traced d id ⟨db, []⟩ := by
    intro row lang hrow hlang
    refine absurd ⟨row, hrow, ?_⟩ hdb
    rw [hlang]
    exact Option.some_ne_none lang
  have hs : Traced d id s := hrun.preserves (fun _ _ _ hs _ h ↦ traced_step hs h) hinit
  refine ⟨fun m target hd hid ↦ taken_iff hs hd hid target, ?_, ?_⟩
  · intro cfg t w m target text hworks hw htext
    rw [← hw] at htext
    exact ⟨_, (asks_prepareMessage_of_decision hworks htext).run⟩
  · intro e s' hstep hsender row hrow
    exact author_step hstep hsender hrow

/-- The greeting is translated, edited and translated again. -/
def edited : List RowEvent :=
  [.upsertMessage bonjour, .setMessageTranslation "en" (some "good day"),
    .upsertMessage { bonjour with text := some "bonsoir" },
    .upsertMessageForTranslation { bonjour with text := some "bonsoir" },
    .setMessageTranslation "en" (some "good evening")]

/-- The greeting is translated. -/
def translatedOnce : List RowEvent :=
  [.upsertMessage bonjour, .setMessageTranslation "en" (some "good day")]

theorem not_decided_empty (d id : ℤ) : ¬ Db.empty.Decided d id := by
  rintro ⟨row, hrow, -⟩
  exact Table.not_has_empty _ ⟨row, hrow⟩

/-- The edited greeting finds the translation of its new text. -/
theorem cached_current_of_edit :
    ∃ s, (rowMachine 7 1).Runs Machine.anyEvent ⟨.empty, []⟩ s ∧
      decision "en" { bonjour with text := some "bonsoir" } s.db = some (some "good evening") ∧
      s.writings.getLast? = some ⟨some "bonsoir", "en", some "good evening"⟩ := by
  have hexec : (((rowMachine 7 1).guarded fun _ _ ↦ True).exec ⟨.empty, []⟩ edited).any (fun s ↦
      decision "en" { bonjour with text := some "bonsoir" } s.db =
        some (some "good evening")) = true := by
    decide +kernel
  obtain ⟨s, hrun, hdecision⟩ := Machine.exists_run_of_exec hexec
  have hkept : ¬ TextRemoved "en" { bonjour with text := some "bonsoir" } s.db := by
    rintro ⟨htext, -⟩
    cases htext
  exact ⟨s, hrun, hdecision, ((cached_current_iff hrun (not_decided_empty 7 1)).1
    { bonjour with text := some "bonsoir" } "en" rfl rfl).mpr hkept _ hdecision⟩

/-- The greeting without its text finds a translation, and none was written for it. -/
theorem cached_of_removed_text :
    ∃ s, (rowMachine 7 1).Runs Machine.anyEvent ⟨.empty, []⟩ s ∧
      decision "en" { bonjour with text := none } s.db = some (some "good day") ∧
      ∀ writing ∈ s.writings, writing.source ≠ none := by
  have hexec : (((rowMachine 7 1).guarded fun _ _ ↦ True).exec ⟨.empty, []⟩
      translatedOnce).any (fun s ↦
        decision "en" { bonjour with text := none } s.db = some (some "good day") ∧
        s.writings = [⟨some "bonjour", "en", some "good day"⟩]) = true := by
    decide +kernel
  obtain ⟨s, hrun, hdecision, hwritings⟩ := Machine.exists_run_of_exec hexec
  refine ⟨s, hrun, hdecision, ?_⟩
  rw [hwritings]
  simp

end TgMessenger.Translate
