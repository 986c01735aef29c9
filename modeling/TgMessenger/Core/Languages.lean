import TgMessenger.Data.Text

/-!
# Supported languages

`core/languages.py`: the languages that translation features know.
-/

namespace TgMessenger

/-- `SUPPORTED_LANG_CODES_ORDER`. -/
def supportedLangCodes : List String :=
  ["ru", "en", "es", "uk", "ja", "zh", "ko", "ar", "he", "el", "th"]

/-- `str.lower`, as far as the codes are concerned: besides the ASCII capitals only the Kelvin
sign becomes an ASCII letter. -/
def lowerChar (c : Char) : Char := if c = '\u212a' then 'k' else c.toLower

/-- `clean_supported_lang_code`. -/
def cleanSupportedLangCode (code : Option String) : Option String :=
  match code with
  | none => none
  | some code =>
    let lang := String.ofList ((stripChars code.toList).map lowerChar)
    if lang ∈ supportedLangCodes then some lang else none

/-- `text.split()`. -/
def splitSpaces (text : List Char) : List (List Char) :=
  (text.splitOnP isSpace).filter fun token ↦ token ≠ []

/-- One token of `parse_lang_codes`. -/
def parseLangCode (out : List String) (raw : List Char) : Except String (List String) :=
  match cleanSupportedLangCode (some (.ofList raw)) with
  | none => .error ("invalid language code: " ++ .ofList raw)
  | some lang => .ok (if lang ∈ out then out else out ++ [lang])

/-- `parse_lang_codes`; the error is the text of the `ValueError`. -/
def parseLangCodes (value : String) : Except String (List String) :=
  (splitSpaces (value.toList.map fun c ↦ if c = ',' then ' ' else c)).foldlM parseLangCode []

end TgMessenger
