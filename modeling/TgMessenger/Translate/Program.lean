import TgMessenger.Asyncio.Task
import TgMessenger.Data.OrderedDict
import TgMessenger.Translate.Policy

/-!
# The programs of the translator

The coroutines of `agent/translate.py` over what they await: single statements on the settings
and on the cache, and the injected `translate_fn`.  They are written with the names and in the
order of the source.
-/

namespace TgMessenger.Translate

open Asyncio

/-- What the coroutines await. -/
inductive Op where
  | getValue (key : Key)
  | setValue (key : Key) (value : Json)
  | /-- `DELETE FROM kv WHERE key = ?`. -/
    deleteValue (key : Key)
  | clearAllTranslations
  | getMessageTranslation (dialogId messageId : ℤ) (lang : String) (sourceText : Option String)
  | upsertMessageForTranslation (m : Message)
  | setMessageTranslation (dialogId messageId : ℤ) (lang : String) (text : Option String)
  | /-- `self._translate_fn(payload, target, skip_langs, only_langs)`. -/
    translate (payload : List (ℤ × String)) (target : String) (skipLangs onlyLangs : List String)

/-- The effects of the translator; a fault is the text of an exception. -/
abbrev effects : Effects where
  Op := Op
  Fault := String
  Ret
    | .getValue _ => Option Json
    | .setValue .. => Unit
    | .deleteValue _ => Unit
    | .clearAllTranslations => Unit
    | .getMessageTranslation .. => Option (Option String)
    | .upsertMessageForTranslation _ => Unit
    | .setMessageTranslation .. => Unit
    | .translate .. => OrderedDict ℤ (Option String)

/-- A coroutine of the translator. -/
abbrev TranslateProg (α : Type) := Prog effects α

/-- Await one operation. -/
abbrev perform (o : Op) : TranslateProg (effects.Ret o) := Prog.perform (E := effects) o

/-! ## Settings -/

/-- `get_user_lang`. -/
def getUserLang (env : Env) : TranslateProg (Option String) := do
  let value : Option Json ← perform (.getValue .userLang)
  return userLangOf env value

/-- `set_user_lang`. -/
def setUserLang (code : Option String) : TranslateProg Unit :=
  match code with
  | none => do
    perform (.deleteValue .userLang)
    perform .clearAllTranslations
  | some code =>
    match cleanSupportedLangCode (some code) with
    | none => .raise "invalid language code"
    | some lang => do
      perform (.setValue .userLang (.str lang))
      perform .clearAllTranslations

/-- `get_translate_mode`. -/
def getTranslateMode (env : Env) : TranslateProg TranslateMode := do
  let value : Option Json ← perform (.getValue .translateMode)
  match storedMode value with
  | some mode => return mode
  | none => do
    let target ← getUserLang env
    return if target.isSome then .allUnknown else .off

/-- `set_translate_mode`. -/
def setTranslateMode (mode : Option String) : TranslateProg Unit :=
  match mode with
  | none => do
    perform (.deleteValue .translateMode)
    perform .clearAllTranslations
  | some mode =>
    if (modeOf mode).isSome then do
      perform (.setValue .translateMode (.str mode))
      perform .clearAllTranslations
    else .raise ("invalid translate mode: " ++ mode)

/-- `_get_lang_list`. -/
def getLangList (env : Env) (key : Key) : TranslateProg (List String) := do
  let raw : Option Json ← perform (.getValue key)
  return langListOf env raw

/-- The codes a list of languages is set from. -/
inductive Codes where
  | /-- A text, for `parse_lang_codes`. -/
    text (value : String)
  | list (codes : List String)

/-- The codes `_set_lang_list` stores, or the text of the `ValueError`. -/
def cleanedCodes (codes : Codes) : Except String (List String) := do
  let codes ←
    match codes with
    | .text value => parseLangCodes value
    | .list codes => .ok codes
  let cleaned ← codes.mapM fun code ↦
    match cleanSupportedLangCode (some code) with
    | none => .error "invalid language code"
    | some lang => .ok lang
  .ok cleaned.eraseDups

/-- `_set_lang_list`. -/
def setLangList (env : Env) (key : Key) (codes : Codes) : TranslateProg Unit :=
  match cleanedCodes codes with
  | .error e => .raise e
  | .ok deduped => do
    perform (.setValue key (.str (env.dumps deduped)))
    perform .clearAllTranslations

/-- `get_known_langs`. -/
def getKnownLangs (env : Env) : TranslateProg (List String) := getLangList env .knownLangs

/-- `set_known_langs`. -/
def setKnownLangs (env : Env) (codes : Codes) : TranslateProg Unit :=
  setLangList env .knownLangs codes

/-- `get_unknown_langs`. -/
def getUnknownLangs (env : Env) : TranslateProg (List String) := getLangList env .unknownLangs

/-- `set_unknown_langs`. -/
def setUnknownLangs (env : Env) (codes : Codes) : TranslateProg Unit :=
  setLangList env .unknownLangs codes

/-- `set_translate_model`. -/
def setTranslateModel (name : Option String) : TranslateProg Unit := do
  match name.filter fun name ↦ !isBlank name with
  | none => perform (.deleteValue .translateModel)
  | some name => perform (.setValue .translateModel (.str (strip name)))
  perform .clearAllTranslations

/-- `get_max_messages`. -/
def getMaxMessages (env : Env) : TranslateProg ℕ := do
  let raw : Option Json ← perform (.getValue .maxMessages)
  match maxMessagesOf env raw with
  | .ok cap => return cap
  | .error e => .raise e

/-- `resolve_skip_only`. -/
def resolveSkipOnly (env : Env) (target : String) : TranslateProg (List String × List String) := do
  let mode ← getTranslateMode env
  match mode with
  | .skipKnown => do
    let known ← getKnownLangs env
    return (known, [])
  | .onlyUnknown => do
    let unknown ← getUnknownLangs env
    if unknown ≠ [] then return ([], unknown) else return ([target], [])
  | .allUnknown | .off => do
    let known ← getKnownLangs env
    return (if target ∈ known then known else known ++ [target], [])

/-! ## `Translator` -/

/-- `_prepare_message`. -/
def prepareMessage (env : Env) (target : String) (m : Message) : TranslateProg (Message × Bool) :=
  Prog.rescue (do
    let cached : Option (Option String) ←
      perform (.getMessageTranslation m.dialogId m.id target m.text)
    match cached with
    | some text => return ({ m with translatedText := text }, false)
    | none =>
      if !needsTranslation env m.text then do
        perform (.upsertMessageForTranslation m)
        perform (.setMessageTranslation m.dialogId m.id target none)
        return ({ m with translatedText := none }, false)
      else return (m, true))
    fun _ ↦ return (m, false)

/-- The loop of `translate_history`: the messages so far, and the pending ones. -/
def prepareMessages (env : Env) (target : String) :
    List Message → TranslateProg (List Message × List (Message × String))
  | [] => return ([], [])
  | m :: messages =>
    if m.out then do
      let (result, pending) ← prepareMessages env target messages
      return (m :: result, pending)
    else do
      let (translated, needsLlm) ← prepareMessage env target m
      let (result, pending) ← prepareMessages env target messages
      match m.text.filter fun text ↦ needsLlm && text ≠ "" with
      | some text => return (translated :: result, (m, text) :: pending)
      | none => return (translated :: result, pending)

/-- One message of the loop of `_translate_pending`: whether its text is cached. -/
def cacheTranslation (target : String) (text : Option String) (m : Message) :
    TranslateProg Bool :=
  Prog.rescue (do
    perform (.upsertMessageForTranslation m)
    perform (.setMessageTranslation m.dialogId m.id target text)
    return true)
    fun _ ↦ return false

/-- The loop of `_translate_pending`. -/
def cacheTranslations (target : String) (translated : OrderedDict ℤ (Option String)) :
    List Message → OrderedDict ℤ (Option String) → TranslateProg (OrderedDict ℤ (Option String))
  | [], updates => return updates
  | m :: pending, updates => do
    let text := (translated.get? m.id).join
    let cached ← cacheTranslation target text m
    cacheTranslations target translated pending
      (if cached then updates.set m.id text else updates)

/-- `_translate_pending`. -/
def translatePending (pending : List (Message × String)) (target : String)
    (skipLangs onlyLangs : List String) : TranslateProg (OrderedDict ℤ (Option String)) := do
  let payload := pending.map fun p ↦ (p.1.id, p.2)
  let translated : Option (OrderedDict ℤ (Option String)) ←
    Prog.rescue (do
      let translated : OrderedDict ℤ (Option String) ←
        perform (.translate payload target skipLangs onlyLangs)
      return some translated)
      fun _ ↦ return none
  match translated with
  | none => return .empty
  | some translated => cacheTranslations target translated (pending.map Prod.fst) .empty

/-- The messages with the texts of `by_id`. -/
def withTranslations (byId : OrderedDict ℤ (Option String)) (messages : List Message) :
    List Message :=
  messages.map fun m ↦
    match (byId.get? m.id).join with
    | some text => { m with translatedText := some text }
    | none => m

/-- The policy of a pass: its target and what it skips; `none` when it translates nothing. -/
def translationPolicy (env : Env) :
    TranslateProg (Option (String × List String × List String)) := do
  let target ← getUserLang env
  let mode ← getTranslateMode env
  match target with
  | none => return none
  | some target =>
    if mode = .off then return none
    else do
      let (skipLangs, onlyLangs) ← resolveSkipOnly env target
      return some (target, skipLangs, onlyLangs)

/-- The rest of a pass, once it is known which messages are pending. -/
def translateRest (env : Env) (target : String) (skipLangs onlyLangs : List String)
    (result : List Message) (pending : List (Message × String)) : TranslateProg (List Message) :=
  if pending = [] then return result
  else do
    let cap ← getMaxMessages env
    let byId ← translatePending (pending.rtake cap) target skipLangs onlyLangs
    return withTranslations byId result

/-- `translate_history`. -/
def translateHistory (env : Env) (messages : List Message) : TranslateProg (List Message) := do
  let policy ← translationPolicy env
  match policy with
  | none => return messages
  | some (target, skipLangs, onlyLangs) => do
    let (result, pending) ← prepareMessages env target messages
    translateRest env target skipLangs onlyLangs result pending

/-- `translate_message`. -/
def translateMessage (env : Env) (m : Message) : TranslateProg Message := do
  let translated ← translateHistory env [m]
  return translated.headD m

end TgMessenger.Translate
