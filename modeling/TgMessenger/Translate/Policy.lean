import TgMessenger.Core.Languages
import TgMessenger.Core.Models
import TgMessenger.Core.Paths
import TgMessenger.Data.Integers
import TgMessenger.Data.Json
import Mathlib.Data.Rat.Floor

/-!
# The translation policy

`agent/translate.py`: what the stored settings mean.  They are JSON values under fixed keys; the
two language lists are texts of JSON lists.
-/

namespace TgMessenger.Translate

/-- The keys of the settings a translation reads: `user_lang`, `translate_mode`, `known_langs`,
`unknown_langs`, `translate_model` and `translate_max_messages`. -/
inductive Key where
  | userLang | translateMode | knownLangs | unknownLangs | translateModel | maxMessages
deriving DecidableEq

/-- All keys. -/
def Key.all : List Key :=
  [userLang, translateMode, knownLangs, unknownLangs, translateModel, maxMessages]

theorem Key.mem_all (key : Key) : key ∈ Key.all := by
  cases key <;> decide

/-- What holds of all keys can be decided. -/
instance Key.decidableForall (P : Key → Prop) [DecidablePred P] : Decidable (∀ key, P key) :=
  decidable_of_iff (∀ key ∈ Key.all, P key) ⟨fun h key ↦ h key key.mem_all, fun h key _ ↦ h key⟩

/-- `TranslateMode`. -/
inductive TranslateMode where
  | off | allUnknown | skipKnown | onlyUnknown
deriving DecidableEq

/-- The text of a mode. -/
def TranslateMode.name : TranslateMode → String
  | off => "off"
  | allUnknown => "all_unknown"
  | skipKnown => "skip_known"
  | onlyUnknown => "only_unknown"

/-- `TRANSLATE_MODES`. -/
def translateModes : List TranslateMode := [.off, .allUnknown, .skipKnown, .onlyUnknown]

/-- `value in TRANSLATE_MODES`, and the mode. -/
def modeOf (value : String) : Option TranslateMode :=
  translateModes.find? fun mode ↦ mode.name = value

/-- `DEFAULT_MAX_MESSAGES`. -/
def defaultMaxMessages : ℕ := 100

/-- What the translator has beside the storage. -/
structure Env where
  /-- `env`. -/
  environ : Environ
  /-- Whether a character is a letter to the pattern `[^\W\d_]`. -/
  isLetter : Char → Bool
  /-- The values of the decimal digits beyond ASCII. -/
  decimal : Char → Option (Fin 10)
  /-- `json.dumps`, of a list of codes. -/
  dumps : List String → String
  /-- `json.loads`; `none` when it raises. -/
  loads : String → Option Json

/-- `needs_translation`, for a target. -/
def needsTranslation (env : Env) (text : Option String) : Bool :=
  match text with
  | none => false
  | some text => text.toList.any env.isLetter

/-- The language of `get_user_lang`, of the stored value.  A value that is no text is no code. -/
def userLangOf (env : Env) (value : Option Json) : Option String :=
  match value.filter Json.truthy with
  | some (.str code) => cleanSupportedLangCode (some code)
  | some _ => none
  | none => cleanSupportedLangCode (env.environ "TG_USER_LANG")

/-- The mode of `get_translate_mode`, when the stored value is one. -/
def storedMode (value : Option Json) : Option TranslateMode :=
  match value with
  | some (.str value) => modeOf value
  | _ => none

/-- The languages of `_get_lang_list`, of the stored value. -/
def langListOf (env : Env) (raw : Option Json) : List String :=
  match raw.filter Json.truthy with
  | none => []
  | some raw =>
    let value :=
      match raw with
      | .str text => env.loads text
      | raw => some raw
    match value with
    | none => []
    | some value =>
      value.items.foldl
        (fun out item ↦
          match item with
          | .str code =>
            match cleanSupportedLangCode (some code) with
            | some lang => if lang ∈ out then out else out ++ [lang]
            | none => out
          | _ => out)
        []

/-- `int(text)`. -/
def Env.int (env : Env) (text : String) : Option ℤ := parseInt env.decimal text.toList

/-- A cap that is not at least one is none. -/
def capOf (n : Option ℤ) : ℕ :=
  match n with
  | none => defaultMaxMessages
  | some n => if n < 1 then defaultMaxMessages else n.toNat

/-- `get_max_messages`, of the stored value; an infinity overflows. -/
def maxMessagesOf (env : Env) (raw : Option Json) : Except String ℕ :=
  match raw with
  | none | some .null =>
    match env.environ "TG_TRANSLATE_MAX_MESSAGES" with
    | none => .ok defaultMaxMessages
    | some text => .ok (if isBlank text then defaultMaxMessages else capOf (env.int text))
  | some (.str text) => .ok (if isBlank text then defaultMaxMessages else capOf (env.int text))
  | some (.num q) => .ok (capOf (some ⌊q⌋))
  | some (.bool b) => .ok (capOf (some (if b then 1 else 0)))
  | some (.special name) =>
    if name = "NaN" then .ok defaultMaxMessages
    else .error "cannot convert float infinity to integer"
  | some _ => .ok defaultMaxMessages

/-- A cap is at least one. -/
theorem one_le_capOf (n : Option ℤ) : 1 ≤ capOf n := by
  rw [capOf.eq_def]
  split
  · decide
  · split_ifs with hn
    · decide
    · omega

theorem one_le_maxMessagesOf {env : Env} {raw : Option Json} {cap : ℕ}
    (h : maxMessagesOf env raw = .ok cap) : 1 ≤ cap := by
  have hdefault : 1 ≤ defaultMaxMessages := by decide
  have htext (text : String) :
      1 ≤ if isBlank text then defaultMaxMessages else capOf (env.int text) := by
    split_ifs
    · exact hdefault
    · exact one_le_capOf _
  rw [maxMessagesOf.eq_def] at h
  split at h
  · split at h <;> cases h
    · exact hdefault
    · exact htext _
  · split at h <;> cases h
    · exact hdefault
    · exact htext _
  · cases h
    exact htext _
  · cases h
    exact one_le_capOf _
  · cases h
    exact one_le_capOf _
  · split_ifs at h
    cases h
    exact hdefault
  · cases h
    exact hdefault

end TgMessenger.Translate
