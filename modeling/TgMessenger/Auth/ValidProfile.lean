import TgMessenger.Auth.SessionStore

/-!
# Valid profiles

`SessionStore.is_valid_profile` (`core/auth.py`) reads the file of a profile on its own, beside
`load`, so that a listing of the profiles saves nothing.
-/

namespace TgMessenger.SessionStore

/-- What is at the path of a session file. -/
inductive Entry where
  | missing
  | directory
  | /-- `read_text` raises an `OSError`. -/
    unreadable
  | /-- The bytes are no UTF-8. -/
    binary
  | text (content : String)
deriving DecidableEq

/-- The exceptions. -/
inductive Raised where
  | osError
  | unicodeDecodeError
  | /-- Of the cipher, of `validate_session_string`, and of the hint that a key is missing. -/
    valueError
deriving DecidableEq

/-- `Path.read_text`. -/
def Entry.readText : Entry → Except Raised String
  | .missing | .directory | .unreadable => .error .osError
  | .binary => .error .unicodeDecodeError
  | .text content => .ok content

/-- `Path.is_file`. -/
def Entry.isFile : Entry → Bool
  | .missing | .directory => false
  | .unreadable | .binary | .text _ => true

/-- What comes of `save`, from the encryption to the `fsync` of the directory. -/
inductive Saving where
  | done
  | /-- It raises, before or after the file was replaced. -/
    raised (e : Raised) (replaced : Bool)

variable (codec : Codec) (key : Option String)

/-- `load`, with the save of a plaintext file that is read with a key; what it returns, and what is
at the path then. -/
def load (saving : Saving) (noise : ℕ) (entry : Entry) : Except Raised (Option String) × Entry :=
  if entry = .missing then (.ok none, entry)
  else
    match entry.readText with
    | .error e => (.error e, entry)
    | .ok text =>
      match readSession codec key text with
      | none => (.error .valueError, entry)
      | some none => (.ok none, entry)
      | some (some (session, false)) => (.ok (some session), entry)
      | some (some (session, true)) =>
        let stored := Entry.text (storedSession codec key session noise)
        match saving with
        | .done => (.ok (some session), stored)
        | .raised e replaced => (.error e, if replaced then stored else entry)

/-- `decrypt_session`, when there is a key; `none` when it raises. -/
def plaintextOf (raw : String) : Option String :=
  match key with
  | some secret => decryptSession codec raw secret
  | none => some raw

/-- `is_valid_profile`. -/
def isValidProfile (entry : Entry) : Except Raised Bool × Entry :=
  if !entry.isFile then (.ok false, entry)
  else
    match entry.readText with
    | .error .osError | .error .unicodeDecodeError => (.ok false, entry)
    | .error e => (.error e, entry)
    | .ok text =>
      let raw := strip text
      if raw = "" then (.ok false, entry)
      else if isEncrypted raw ∧ key.isNone then (.ok true, entry)
      else (.ok ((plaintextOf codec key raw).any codec.isSession), entry)

/-- An encrypted file, and no key. -/
def Locked (entry : Entry) : Prop :=
  ∃ text, entry = .text text ∧ isEncrypted (strip text) = true ∧ key = none

/-- A plaintext session that is read with a key. -/
def Plain (entry : Entry) : Prop :=
  ∃ text, entry = .text text ∧ strip text ≠ "" ∧ isEncrypted (strip text) = false ∧
    key.isSome = true ∧ codec.isSession (strip text) = true

variable {codec key}

/-! ## Files with a text -/

variable {text : String} {saving : Saving} {noise : ℕ}

theorem isValidProfile_text (text : String) :
    isValidProfile codec key (.text text) =
      if strip text = "" then (.ok false, .text text)
      else if isEncrypted (strip text) ∧ key.isNone then (.ok true, .text text)
      else (.ok ((plaintextOf codec key (strip text)).any codec.isSession), .text text) := rfl

theorem isValidProfile_text_iff :
    (isValidProfile codec key (.text text)).1 = .ok true ↔
      strip text ≠ "" ∧ (isEncrypted (strip text) = true ∧ key.isNone = true ∨
        (plaintextOf codec key (strip text)).any codec.isSession = true) := by
  rw [isValidProfile_text]
  split_ifs with hempty hlocked
  · refine iff_of_false ?_ fun h ↦ h.1 hempty
    rintro ⟨⟩
  · exact iff_of_true rfl ⟨hempty, .inl hlocked⟩
  · rw [or_iff_right hlocked, Except.ok.injEq]
    exact (and_iff_right hempty).symm

/-- What `load` reads, before it saves anything. -/
theorem readSession_eq :
    readSession codec key text =
      if strip text = "" then some none
      else if isEncrypted (strip text) ∧ key.isNone then none
      else (plaintextOf codec key (strip text)).bind fun plaintext ↦
        if codec.isSession plaintext then
          some (some (plaintext, key.isSome && !isEncrypted (strip text)))
        else none := by
  cases key <;> rfl

/-- `load` returns what it has read, unless a save raises. -/
theorem load_text_iff :
    (∃ session, (load codec key saving noise (.text text)).1 = .ok (some session)) ↔
      strip text ≠ "" ∧ ¬ (isEncrypted (strip text) = true ∧ key.isNone = true) ∧
        (plaintextOf codec key (strip text)).any codec.isSession = true ∧
        (key.isSome = true → isEncrypted (strip text) = false → saving = .done) := by
  simp only [load, Entry.readText, readSession_eq, reduceCtorEq, if_false]
  split_ifs with hempty hlocked
  · refine iff_of_false ?_ fun h ↦ h.1 hempty
    rintro ⟨session, ⟨⟩⟩
  · refine iff_of_false ?_ fun h ↦ h.2.1 hlocked
    rintro ⟨session, ⟨⟩⟩
  · rw [and_iff_right hempty, and_iff_right hlocked]
    cases hplain : plaintextOf codec key (strip text) with
    | none =>
      refine iff_of_false ?_ fun h ↦ Bool.false_ne_true h.1
      rintro ⟨session, ⟨⟩⟩
    | some plaintext =>
      rw [Option.any_some, Option.bind_some]
      by_cases hsession : codec.isSession plaintext = true
      · rw [if_pos hsession, and_iff_right hsession]
        cases key.isSome <;> cases isEncrypted (strip text) <;> cases saving <;> simp
      · rw [if_neg hsession]
        refine iff_of_false ?_ fun h ↦ hsession h.1
        rintro ⟨session, ⟨⟩⟩

theorem ne_empty_of_isEncrypted (h : isEncrypted (strip text) = true) : strip text ≠ "" := by
  intro hempty
  rw [hempty] at h
  exact absurd h (by decide)

theorem locked_text_iff :
    Locked key (.text text) ↔ isEncrypted (strip text) = true ∧ key.isNone = true := by
  rw [Locked]
  simp only [Entry.text.injEq, exists_eq_left', Option.isNone_iff_eq_none]

/-- What is no cipher text is read as it is. -/
theorem plaintextOf_of_plain {raw : String} (h : isEncrypted raw = false) :
    plaintextOf codec key raw = some raw := by
  cases key with
  | none => rfl
  | some secret =>
    rw [plaintextOf, decryptSession, h]
    rfl

theorem plain_text_iff :
    Plain codec key (.text text) ↔
      strip text ≠ "" ∧ isEncrypted (strip text) = false ∧ key.isSome = true ∧
        (plaintextOf codec key (strip text)).any codec.isSession = true := by
  rw [Plain]
  simp only [Entry.text.injEq, exists_eq_left']
  refine and_congr_right fun _ ↦ and_congr_right fun hplain ↦ ?_
  rw [plaintextOf_of_plain hplain, Option.any_some]

/-- Where `load` does not agree it raises. -/
theorem load_raises (h : Locked key (.text text) ∨ Plain codec key (.text text) ∧ saving ≠ .done) :
    ∃ e, (load codec key saving noise (.text text)).1 = .error e := by
  simp only [load, Entry.readText, readSession_eq, reduceCtorEq, if_false]
  rcases h with hlocked | ⟨hplain, hsaving⟩
  · rw [locked_text_iff] at hlocked
    rw [if_neg (ne_empty_of_isEncrypted hlocked.1), if_pos hlocked]
    exact ⟨_, rfl⟩
  · obtain ⟨hempty, hplain, hkey, hsession⟩ := plain_text_iff.mp hplain
    rw [plaintextOf_of_plain hplain, Option.any_some] at hsession
    rw [if_neg hempty, if_neg (by simp [hplain]), plaintextOf_of_plain hplain, Option.bind_some,
      if_pos hsession, hkey, hplain]
    cases saving with
    | done => exact absurd rfl hsaving
    | raised e replaced => exact ⟨e, rfl⟩

/-! ## The two readers -/

/-- It never raises, and leaves the file alone. -/
theorem isValidProfile_eq (codec : Codec) (key : Option String) (entry : Entry) :
    ∃ valid, isValidProfile codec key entry = (.ok valid, entry) := by
  cases entry with
  | missing => exact ⟨false, rfl⟩
  | directory => exact ⟨false, rfl⟩
  | unreadable => exact ⟨false, rfl⟩
  | binary => exact ⟨false, rfl⟩
  | text text =>
    rw [isValidProfile_text]
    split_ifs
    · exact ⟨false, rfl⟩
    · exact ⟨true, rfl⟩
    · exact ⟨_, rfl⟩

/-- What is no text is no session to either. -/
theorem not_session_of_no_text {entry : Entry} (h : ∀ text, entry ≠ .text text) :
    (isValidProfile codec key entry).1 ≠ .ok true ∧
      ¬ ∃ session, (load codec key saving noise entry).1 = .ok (some session) := by
  cases entry with
  | text text => exact absurd rfl (h text)
  | _ =>
    constructor
    · rintro ⟨⟩
    · rintro ⟨session, ⟨⟩⟩

/-- A profile is valid exactly when `load` would return its session, but for an encrypted file
without a key and a plaintext one that cannot be saved with it, where `load` raises; and to ask
raises nothing and changes nothing. -/
theorem isValidProfile_agrees (codec : Codec) (key : Option String) (saving : Saving) (noise : ℕ)
    (entry : Entry) :
    (∃ valid, isValidProfile codec key entry = (.ok valid, entry)) ∧
    ((isValidProfile codec key entry).1 = .ok true ↔
      (∃ session, (load codec key saving noise entry).1 = .ok (some session)) ∨
        Locked key entry ∨ (Plain codec key entry ∧ saving ≠ .done)) ∧
    (Locked key entry ∨ (Plain codec key entry ∧ saving ≠ .done) →
      ∃ e, (load codec key saving noise entry).1 = .error e) := by
  refine ⟨isValidProfile_eq codec key entry, ?_, ?_⟩
  · by_cases htext : ∃ text, entry = .text text
    · obtain ⟨text, rfl⟩ := htext
      have hempty := @ne_empty_of_isEncrypted text
      rw [isValidProfile_text_iff, load_text_iff, locked_text_iff, plain_text_iff]
      cases hencrypted : isEncrypted (strip text) with
      | true =>
        have hnonempty := hempty hencrypted
        cases key with
        | none => simp [hnonempty]
        | some secret => simp [hnonempty]
      | false =>
        by_cases hsaving : saving = .done
        · simp [hsaving]
        · cases key with
          | none => simp [hsaving]
          | some secret => simp [hsaving]
    · have hno : ∀ text, entry ≠ .text text := fun text h ↦ htext ⟨text, h⟩
      obtain ⟨hvalid, hload⟩ := @not_session_of_no_text codec key saving noise entry hno
      refine iff_of_false hvalid ?_
      rintro (h | ⟨text, rfl, -⟩ | ⟨⟨text, rfl, -⟩, -⟩)
      · exact hload h
      · exact hno text rfl
      · exact hno text rfl
  · intro h
    have htext : ∃ text, entry = .text text := by
      rcases h with ⟨text, rfl, -⟩ | ⟨⟨text, rfl, -⟩, -⟩
      · exact ⟨text, rfl⟩
      · exact ⟨text, rfl⟩
    obtain ⟨text, rfl⟩ := htext
    exact load_raises h

/-- A codec that encrypts nothing, with one session. -/
def oneSession : Codec where
  encrypt _ _ plaintext := plaintext
  decryptV2 _ token := some token
  decryptV1 _ token := some token
  isSession session := session == "1"

/-- A plaintext session under a key is valid, and `load` raises when it cannot save it. -/
theorem valid_and_load_raises :
    ¬ ∀ (key : Option String) (saving : Saving) (entry : Entry),
      (isValidProfile oneSession key entry).1 = .ok true ↔
        (∃ session, (load oneSession key saving 0 entry).1 = .ok (some session)) ∨
          Locked key entry := by
  intro h
  have hvalid : (isValidProfile oneSession (some "k") (.text "1")).1 = .ok true := rfl
  rcases (h (some "k") (.raised .osError false) (.text "1")).mp hvalid with
    ⟨session, hload⟩ | ⟨text, -, -, hkey⟩
  · cases hload
  · cases hkey

end TgMessenger.SessionStore
