import TgMessenger.Core.Dialogs
import TgMessenger.Data.Markup
import Mathlib.Data.Nat.Digits.Defs

/-!
# The fragments of the web page

`web/render.py` puts the fragments together from texts, and escapes what users control.  A browser
reads each of them as the elements of its template: what somebody wrote is text there, or the value
of the attribute that it was put into.
-/

namespace TgMessenger.Web.Render

open Markup

/-- `str(n)`. -/
def str (n : ℤ) : List Char := (toString n).toList

/-- `d.kind`. -/
def kindName : DialogKind → List Char
  | .dm => "dm".toList
  | .group => "group".toList
  | .channel => "channel".toList
  | .bot => "bot".toList

/-- `s if s else ""`. -/
def orEmpty (s : Option String) : List Char := s.elim [] String.toList

/-- `format_author`. -/
def formatAuthor (m : Message) : List Char :=
  let parts := match m.sender with
    | none => []
    | some s =>
      let username := if orEmpty s.username = [] then [] else ['@' :: orEmpty s.username]
      let name := [' '].intercalate ([orEmpty s.firstName, orEmpty s.lastName].filter (· ≠ []))
      username ++ if name = [] then [] else [name]
  [' '].intercalate (str m.senderId :: parts)

/-- `_dialog_li`. -/
def dialogLi (d : Dialog) : List Char :=
  let uname := if orEmpty d.username = [] then [] else " @".toList ++ escape (orEmpty d.username)
  let unread := if d.unread = 0 then [] else
    " <span class=\"unread\">".toList ++ str d.unread ++ "</span>".toList
  let canSend := if d.canSend then "1".toList else "0".toList
  "<li role=\"button\" tabindex=\"0\" hx-get=\"/dialogs/".toList ++ str d.id ++
    "/messages\" hx-target=\"#messages\" data-dialog=\"".toList ++ str d.id ++
    "\" data-kind=\"".toList ++ kindName d.kind ++ "\" data-can-send=\"".toList ++ canSend ++
    "\" data-title=\"".toList ++ escape d.title.toList ++ "\">".toList ++ str d.id ++
    " — ".toList ++ escape d.title.toList ++ uname ++ unread ++ "</li>".toList

/-- `_profile_li`. -/
def profileLi (active : Bool) (name : String) : List Char :=
  let cls := if active then " class=\"active\"".toList else []
  let marker := if active then " (active)".toList else []
  "<li".toList ++ cls ++ " data-profile=\"".toList ++ escape name.toList ++ "\">".toList ++
    escape name.toList ++ marker ++ "</li>".toList

/-- `_message_div`. -/
def messageDiv (showAuthor : Bool) (m : Message) : List Char :=
  let cls := if m.out then "out".toList else "in".toList
  let body := if orEmpty m.text = [] then "&lt;media&gt;".toList else escape (orEmpty m.text)
  let body := '[' :: str m.id ++ "] ".toList ++ body
  let direction := if m.out then "<span class=\"sr-only\">You: </span>".toList else []
  let author := if showAuthor then
    "<div class=\"author\">".toList ++ escape (formatAuthor m) ++ "</div>".toList else []
  let translation := if orEmpty m.translatedText = [] then [] else
    "<div class=\"translation\">↳ ".toList ++ escape (orEmpty m.translatedText) ++ "</div>".toList
  let replyBtn := "<button type=\"button\" class=\"reply-btn\" data-reply=\"".toList ++ str m.id ++
    "\" title=\"Reply\" aria-label=\"Reply\">↩</button>".toList
  let reactBtn := "<button type=\"button\" class=\"react-btn\" data-react=\"".toList ++ str m.id ++
    "\" title=\"React\" aria-label=\"React\">🙂</button>".toList
  "<div class=\"msg ".toList ++ cls ++ "\" data-id=\"".toList ++ str m.id ++
    "\" data-dialog=\"".toList ++ str m.dialogId ++ "\">".toList ++ author ++ direction ++ body ++
    replyBtn ++ reactBtn ++ translation ++ "</div>".toList

/-- The fragment of `_error_response`. -/
def errorDiv (text : String) : List Char :=
  "<div class=\"error\" role=\"alert\">".toList ++ escape text.toList ++ "</div>".toList

/-! ## The responses -/

/-- `/dialogs/{dialog_id}/messages` and `/dialogs/{dialog_id}/search`. -/
def messagesResponse (isGroup : Bool) (items : List Message) : List Char :=
  items.flatMap fun m ↦ messageDiv (isGroup && !m.out) m

/-- `/dialogs`. -/
def dialogsResponse (items : List Dialog) : List Char := items.flatMap dialogLi

/-- `/profiles`. -/
def profilesResponse (sessionName : String) (names : List String) : List Char :=
  names.flatMap fun n ↦ profileLi (n = sessionName) n

/-! ## The templates -/

/-- An element with text. -/
def element (name : String) (attributes : List (String × List Char)) (text : List Char) :
    List Piece :=
  [.start name.toList (attributes.map fun a ↦ (a.1.toList, a.2)), .text text, .stop name.toList]

def dialogPieces (d : Dialog) : List Piece :=
  [.start "li".toList [
    ("role".toList, "button".toList), ("tabindex".toList, "0".toList),
    ("hx-get".toList, "/dialogs/".toList ++ str d.id ++ "/messages".toList),
    ("hx-target".toList, "#messages".toList), ("data-dialog".toList, str d.id),
    ("data-kind".toList, kindName d.kind),
    ("data-can-send".toList, if d.canSend then "1".toList else "0".toList),
    ("data-title".toList, d.title.toList)],
  .text (str d.id ++ " — ".toList ++ d.title.toList ++
    (if orEmpty d.username = [] then [] else " @".toList ++ orEmpty d.username) ++
    if d.unread = 0 then [] else " ".toList)] ++
  (if d.unread = 0 then [] else element "span" [("class", "unread".toList)] (str d.unread)) ++
  [.stop "li".toList]

def profilePieces (active : Bool) (name : String) : List Piece :=
  element "li"
    ((if active then [("class", "active".toList)] else []) ++ [("data-profile", name.toList)])
    (name.toList ++ if active then " (active)".toList else [])

def button (cls key title : String) (glyph : List Char) (m : Message) : List Piece :=
  element "button" [("type", "button".toList), ("class", cls.toList), (key, str m.id),
    ("title", title.toList), ("aria-label", title.toList)] glyph

def messagePieces (showAuthor : Bool) (m : Message) : List Piece :=
  [.start "div".toList [
    ("class".toList, "msg ".toList ++ if m.out then "out".toList else "in".toList),
    ("data-id".toList, str m.id), ("data-dialog".toList, str m.dialogId)]] ++
  (if showAuthor then element "div" [("class", "author".toList)] (formatAuthor m) else []) ++
  (if m.out then element "span" [("class", "sr-only".toList)] "You: ".toList else []) ++
  [.text ('[' :: str m.id ++ "] ".toList ++
    if orEmpty m.text = [] then "<media>".toList else orEmpty m.text)] ++
  button "reply-btn" "data-reply" "Reply" "↩".toList m ++
  button "react-btn" "data-react" "React" "🙂".toList m ++
  (if orEmpty m.translatedText = [] then [] else
    element "div" [("class", "translation".toList)] ("↳ ".toList ++ orEmpty m.translatedText)) ++
  [.stop "div".toList]

def errorPieces (text : String) : List Piece :=
  element "div" [("class", "error".toList), ("role", "alert".toList)] text.toList

/-! ## Numbers -/

theorem mem_str {n : ℤ} {c : Char} (h : c ∈ str n) : c = '-' ∨ c.isDigit = true := by
  rw [str, Int.toString_eq_repr, Int.repr_eq_if] at h
  split_ifs at h
  · rw [Nat.toList_repr] at h
    exact .inr (Nat.isDigit_of_mem_toDigits (by decide) (by decide) h)
  · rw [String.toList_append, List.mem_append] at h
    rcases h with h | h
    · exact .inl (List.mem_singleton.mp h)
    · rw [Nat.toList_repr] at h
      exact .inr (Nat.isDigit_of_mem_toDigits (by decide) (by decide) h)

/-- There is nothing to escape in a number. -/
@[simp] theorem escape_str (n : ℤ) : escape (str n) = str n := by
  refine escape_eq_self fun c hc ↦ ?_
  rcases mem_str hc with rfl | hdigit
  · rfl
  · rw [escapeChar]
    split_ifs with hamp hlt hgt hquot hapos
    · subst hamp
      cases hdigit
    · subst hlt
      cases hdigit
    · subst hgt
      cases hdigit
    · subst hquot
      cases hdigit
    · subst hapos
      cases hdigit
    · rfl

@[simp] theorem escape_kindName (kind : DialogKind) : escape (kindName kind) = kindName kind := by
  cases kind <;> rfl

/-! ## The fragments are their templates -/

theorem renderAttribute_eq (key value : List Char) :
    Piece.renderAttribute (key, value) =
      ' ' :: (key ++ '=' :: '"' :: (escape value ++ ['"'])) := by
  simp [Piece.renderAttribute]

theorem errorDiv_eq (text : String) : errorDiv text = (errorPieces text).flatMap Piece.render := by
  unfold errorDiv errorPieces element
  simp [renderAttribute_eq, Piece.render, escapeChar]

theorem replyBtn_eq (m : Message) :
    "<button type=\"button\" class=\"reply-btn\" data-reply=\"".toList ++ str m.id ++
      "\" title=\"Reply\" aria-label=\"Reply\">↩</button>".toList =
    (button "reply-btn" "data-reply" "Reply" "↩".toList m).flatMap Piece.render := by
  rw [button, element]
  simp [renderAttribute_eq, Piece.render, escapeChar]

theorem reactBtn_eq (m : Message) :
    "<button type=\"button\" class=\"react-btn\" data-react=\"".toList ++ str m.id ++
      "\" title=\"React\" aria-label=\"React\">🙂</button>".toList =
    (button "react-btn" "data-react" "React" "🙂".toList m).flatMap Piece.render := by
  rw [button, element]
  simp [renderAttribute_eq, Piece.render, escapeChar]

theorem messageDiv_eq (showAuthor : Bool) (m : Message) :
    messageDiv showAuthor m = (messagePieces showAuthor m).flatMap Piece.render := by
  have hopen : "<div class=\"msg ".toList ++ (if m.out then "out".toList else "in".toList) ++
      "\" data-id=\"".toList ++ str m.id ++ "\" data-dialog=\"".toList ++ str m.dialogId ++
        "\">".toList = (Piece.start "div".toList [
          ("class".toList, "msg ".toList ++ if m.out then "out".toList else "in".toList),
          ("data-id".toList, str m.id), ("data-dialog".toList, str m.dialogId)]).render := by
    cases m.out <;> simp [renderAttribute_eq, Piece.render, escapeChar]
  have hauthor : (if showAuthor then
      "<div class=\"author\">".toList ++ escape (formatAuthor m) ++ "</div>".toList else []) =
        (if showAuthor then element "div" [("class", "author".toList)] (formatAuthor m)
          else []).flatMap Piece.render := by
    cases showAuthor <;> simp [element, renderAttribute_eq, Piece.render, escapeChar]
  have hdirection : (if m.out then "<span class=\"sr-only\">You: </span>".toList else []) =
      (if m.out then element "span" [("class", "sr-only".toList)] "You: ".toList
        else []).flatMap Piece.render := by
    cases m.out <;> simp [element, renderAttribute_eq, Piece.render, escapeChar]
  have hbody : '[' :: str m.id ++ "] ".toList ++ (if orEmpty m.text = [] then
      "&lt;media&gt;".toList else escape (orEmpty m.text)) =
        (Piece.text ('[' :: str m.id ++ "] ".toList ++
          if orEmpty m.text = [] then "<media>".toList else orEmpty m.text)).render := by
    rw [Piece.render]
    split_ifs <;> simp [escapeChar]
  have htranslation : (if orEmpty m.translatedText = [] then [] else
      "<div class=\"translation\">↳ ".toList ++ escape (orEmpty m.translatedText) ++
        "</div>".toList) = (if orEmpty m.translatedText = [] then [] else
          element "div" [("class", "translation".toList)]
            ("↳ ".toList ++ orEmpty m.translatedText)).flatMap Piece.render := by
    split_ifs <;> simp [element, renderAttribute_eq, Piece.render, escapeChar]
  have hclose : "</div>".toList = (Piece.stop "div".toList).render := by decide
  unfold messageDiv messagePieces
  simp only [List.flatMap_append, List.flatMap_singleton]
  rw [hopen, hauthor, hdirection, hbody, replyBtn_eq, reactBtn_eq, htranslation, hclose]

theorem profileLi_eq (active : Bool) (name : String) :
    profileLi active name = (profilePieces active name).flatMap Piece.render := by
  unfold profileLi profilePieces element
  cases active <;> simp [renderAttribute_eq, Piece.render, escapeChar]

theorem dialogLi_eq (d : Dialog) : dialogLi d = (dialogPieces d).flatMap Piece.render := by
  have hopen : "<li role=\"button\" tabindex=\"0\" hx-get=\"/dialogs/".toList ++ str d.id ++
      "/messages\" hx-target=\"#messages\" data-dialog=\"".toList ++ str d.id ++
      "\" data-kind=\"".toList ++ kindName d.kind ++ "\" data-can-send=\"".toList ++
      (if d.canSend then "1".toList else "0".toList) ++ "\" data-title=\"".toList ++
      escape d.title.toList ++ "\">".toList =
        (Piece.start "li".toList [
          ("role".toList, "button".toList), ("tabindex".toList, "0".toList),
          ("hx-get".toList, "/dialogs/".toList ++ str d.id ++ "/messages".toList),
          ("hx-target".toList, "#messages".toList), ("data-dialog".toList, str d.id),
          ("data-kind".toList, kindName d.kind),
          ("data-can-send".toList, if d.canSend then "1".toList else "0".toList),
          ("data-title".toList, d.title.toList)]).render := by
    cases d.canSend <;> simp [renderAttribute_eq, Piece.render, escapeChar]
  have htext : str d.id ++ (" — ".toList ++ (escape d.title.toList ++
      ((if orEmpty d.username = [] then [] else " @".toList ++ escape (orEmpty d.username)) ++
        if d.unread = 0 then [] else " ".toList))) =
      (Piece.text (str d.id ++ " — ".toList ++ d.title.toList ++
        (if orEmpty d.username = [] then [] else " @".toList ++ orEmpty d.username) ++
        if d.unread = 0 then [] else " ".toList)).render := by
    rw [Piece.render]
    split_ifs <;> simp [escapeChar]
  have hunread : (if d.unread = 0 then [] else
      " <span class=\"unread\">".toList ++ str d.unread ++ "</span>".toList) =
      (if d.unread = 0 then [] else " ".toList) ++
        (if d.unread = 0 then [] else element "span" [("class", "unread".toList)]
          (str d.unread)).flatMap Piece.render := by
    split_ifs <;> simp [element, renderAttribute_eq, Piece.render, escapeChar]
  have hclose : "</li>".toList = (Piece.stop "li".toList).render := by decide
  unfold dialogLi dialogPieces
  simp only [List.flatMap_append, List.flatMap_cons, List.flatMap_nil, List.append_nil]
  rw [hunread, hclose, hopen, ← htext]
  simp only [List.append_assoc]

/-! ## The templates are blocks -/

/-- The names that a template uses. -/
def properNames (name : String) (keys : List String) : Bool :=
  Piece.isTagName name.toList && keys.all (fun key ↦ Piece.isKey key.toList) &&
    decide ((keys.map String.toList).Nodup)

theorem isProper_start {name : String} {keys : List String}
    {attributes : List (List Char × List Char)}
    (hkeys : attributes.map Prod.fst = keys.map String.toList)
    (h : properNames name keys = true) : (Piece.start name.toList attributes).isProper = true := by
  rw [properNames, Bool.and_eq_true, Bool.and_eq_true, List.all_eq_true] at h
  obtain ⟨⟨hname, hall⟩, hnodup⟩ := h
  have hproper : ∀ a ∈ attributes, Piece.isKey a.1 = true := by
    intro a ha
    have hmem : a.1 ∈ keys.map String.toList := hkeys ▸ List.mem_map_of_mem ha
    obtain ⟨key, hkey, heq⟩ := List.mem_map.mp hmem
    rw [← heq]
    exact hall key hkey
  rw [Piece.isProper, hname, List.all_eq_true.mpr hproper, hkeys, hnodup]
  rfl

theorem isBlock_element {name : String} {keys : List String}
    {attributes : List (String × List Char)} (hkeys : attributes.map Prod.fst = keys)
    (h : properNames name keys = true) (text : List Char) :
    IsBlock (element name attributes text) := by
  have hkeys' :
      (attributes.map fun a ↦ (a.1.toList, a.2)).map Prod.fst = keys.map String.toList := by
    rw [← hkeys, List.map_map, List.map_map]
    rfl
  have hstart := isProper_start hkeys' h
  rw [properNames, Bool.and_eq_true, Bool.and_eq_true] at h
  exact (IsBlock.tag hstart rfl).text (.tag (p := .stop name.toList) h.1.1 rfl)
    (List.cons_ne_nil _ _) (List.cons_ne_nil _ _) text

theorem isBlock_errorPieces (text : String) : IsBlock (errorPieces text) :=
  isBlock_element rfl (by decide : properNames "div" ["class", "role"] = true) _

theorem isBlock_profilePieces (active : Bool) (name : String) :
    IsBlock (profilePieces active name) := by
  cases active with
  | true =>
    exact isBlock_element rfl (by decide : properNames "li" ["class", "data-profile"] = true) _
  | false => exact isBlock_element rfl (by decide : properNames "li" ["data-profile"] = true) _

theorem isBlock_ite {c : Prop} [Decidable c] {pieces pieces' : List Piece} (h : IsBlock pieces)
    (h' : IsBlock pieces') : IsBlock (if c then pieces else pieces') := by
  split_ifs
  · exact h
  · exact h'

theorem isBlock_dialogPieces (d : Dialog) : IsBlock (dialogPieces d) := by
  have hopen : IsBlock [Piece.start "li".toList [
      ("role".toList, "button".toList), ("tabindex".toList, "0".toList),
      ("hx-get".toList, "/dialogs/".toList ++ str d.id ++ "/messages".toList),
      ("hx-target".toList, "#messages".toList), ("data-dialog".toList, str d.id),
      ("data-kind".toList, kindName d.kind),
      ("data-can-send".toList, if d.canSend then "1".toList else "0".toList),
      ("data-title".toList, d.title.toList)]] := by
    have hproper : properNames "li" ["role", "tabindex", "hx-get", "hx-target", "data-dialog",
        "data-kind", "data-can-send", "data-title"] = true := by
      decide
    exact .tag (isProper_start rfl hproper) rfl
  have hclose : IsBlock [Piece.stop "li".toList] := .tag (by decide) rfl
  have hunread : IsBlock
      (if d.unread = 0 then [] else element "span" [("class", "unread".toList)] (str d.unread)) :=
    isBlock_ite .nil (isBlock_element rfl (by decide : properNames "span" ["class"] = true) _)
  have hblock := hopen.text (hunread.append hclose) (List.cons_ne_nil _ _)
    (List.append_ne_nil_of_right_ne_nil _ (List.cons_ne_nil _ _))
    (str d.id ++ " — ".toList ++ d.title.toList ++
      (if orEmpty d.username = [] then [] else " @".toList ++ orEmpty d.username) ++
      if d.unread = 0 then [] else " ".toList)
  unfold dialogPieces
  rw [List.append_assoc]
  exact hblock

theorem isBlock_button {cls key title : String} {m : Message} {glyph : List Char}
    (h : properNames "button" ["type", "class", key, "title", "aria-label"] = true) :
    IsBlock (button cls key title glyph m) := isBlock_element rfl h glyph

theorem isBlock_messagePieces (showAuthor : Bool) (m : Message) :
    IsBlock (messagePieces showAuthor m) := by
  have hopen : IsBlock [Piece.start "div".toList [
      ("class".toList, "msg ".toList ++ if m.out then "out".toList else "in".toList),
      ("data-id".toList, str m.id), ("data-dialog".toList, str m.dialogId)]] := by
    have hproper : properNames "div" ["class", "data-id", "data-dialog"] = true := by decide
    exact .tag (isProper_start rfl hproper) rfl
  have hclose : IsBlock [Piece.stop "div".toList] := .tag (by decide) rfl
  have hauthor : IsBlock (if showAuthor then
      element "div" [("class", "author".toList)] (formatAuthor m) else []) :=
    isBlock_ite (isBlock_element rfl (by decide : properNames "div" ["class"] = true) _) .nil
  have hdirection : IsBlock (if m.out then
      element "span" [("class", "sr-only".toList)] "You: ".toList else []) :=
    isBlock_ite (isBlock_element rfl (by decide : properNames "span" ["class"] = true) _) .nil
  have hreply : IsBlock (button "reply-btn" "data-reply" "Reply" "↩".toList m) :=
    isBlock_button (by decide)
  have hreact : IsBlock (button "react-btn" "data-react" "React" "🙂".toList m) :=
    isBlock_button (by decide)
  have htranslation : IsBlock (if orEmpty m.translatedText = [] then [] else
      element "div" [("class", "translation".toList)]
        ("↳ ".toList ++ orEmpty m.translatedText)) :=
    isBlock_ite .nil (isBlock_element rfl (by decide : properNames "div" ["class"] = true) _)
  have hblock := ((hopen.append hauthor).append hdirection).text
    (((hreply.append hreact).append htranslation).append hclose)
    (List.append_ne_nil_of_left_ne_nil
      (List.append_ne_nil_of_left_ne_nil (List.cons_ne_nil _ _) _) _)
    (List.append_ne_nil_of_right_ne_nil _ (List.cons_ne_nil _ _))
    ('[' :: str m.id ++ "] ".toList ++
      if orEmpty m.text = [] then "<media>".toList else orEmpty m.text)
  unfold messagePieces
  simpa only [List.append_assoc, List.cons_append, List.nil_append] using hblock

/-! ## What a browser reads -/

/-- The elements of class `msg`, with the direction, the dialog and the id. -/
def bubble : Token → Option (List Char × List Char × List Char)
  | .start name [(cls, value), (_, id), (_, dialog)] =>
    if name = "div".toList ∧ cls = "class".toList ∧ "msg ".toList <+: value then
      some (value.drop 4, dialog, id)
    else none
  | _ => none

/-- A number is read as it is. -/
theorem normalize_str (n : ℤ) : (normalize (str n)).map valueChar = str n := by
  have hreturn : '\r' ∉ str n := by
    intro hmem
    rcases mem_str hmem with heq | hdigit
    · cases heq
    · cases hdigit
  have hnormal := normalize_append hreturn []
  rw [show normalize [] = [] from rfl, List.append_nil] at hnormal
  rw [hnormal]
  refine (List.map_congr_left fun c hc ↦ if_neg ?_).trans (List.map_id _)
  rintro rfl
  rcases mem_str hc with heq | hdigit
  · cases heq
  · cases hdigit

theorem filterMap_bubble_text (l : List Char) : (textTokens l).filterMap bubble = [] := by
  rw [textTokens, List.filterMap_map]
  exact List.filterMap_eq_nil_iff.mpr fun c _ ↦ rfl

/-- An element that is no message. -/
theorem filterMap_bubble_element {name : String} {attributes : List (String × List Char)}
    (h : bubble (.start name.toList
      ((attributes.map fun a ↦ (a.1.toList, a.2)).map Piece.readAttribute)) = none)
    (text : List Char) :
    ((element name attributes text).flatMap Piece.tokens).filterMap bubble = [] := by
  have htokens : (element name attributes text).flatMap Piece.tokens =
      .start name.toList ((attributes.map fun a ↦ (a.1.toList, a.2)).map Piece.readAttribute) ::
        (textTokens (normalize text) ++ [.stop name.toList]) := rfl
  rw [htokens, List.filterMap_cons_none h, List.filterMap_append, filterMap_bubble_text]
  rfl

theorem filterMap_bubble_message (showAuthor : Bool) (m : Message) :
    ((messagePieces showAuthor m).flatMap Piece.tokens).filterMap bubble =
      [(if m.out then "out".toList else "in".toList, str m.dialogId, str m.id)] := by
  have hopen : ([Piece.start "div".toList [
      ("class".toList, "msg ".toList ++ if m.out then "out".toList else "in".toList),
      ("data-id".toList, str m.id), ("data-dialog".toList, str m.dialogId)]].flatMap
        Piece.tokens).filterMap bubble =
      [(if m.out then "out".toList else "in".toList, str m.dialogId, str m.id)] := by
    have htokens : [Piece.start "div".toList [
        ("class".toList, "msg ".toList ++ if m.out then "out".toList else "in".toList),
        ("data-id".toList, str m.id), ("data-dialog".toList, str m.dialogId)]].flatMap
          Piece.tokens = [.start "div".toList [
        ("class".toList, "msg ".toList ++ if m.out then "out".toList else "in".toList),
        ("data-id".toList, str m.id), ("data-dialog".toList, str m.dialogId)]] := by
      rw [List.flatMap_singleton, Piece.tokens, List.map_cons, List.map_cons, List.map_cons,
        Piece.readAttribute, Piece.readAttribute, Piece.readAttribute, normalize_str, normalize_str]
      cases m.out <;> rfl
    rw [htokens]
    cases m.out <;> rfl
  have hauthor : ((if showAuthor then
      element "div" [("class", "author".toList)] (formatAuthor m) else []).flatMap
        Piece.tokens).filterMap bubble = [] := by
    cases showAuthor with
    | true => exact filterMap_bubble_element rfl _
    | false => rfl
  have hdirection : ((if m.out then
      element "span" [("class", "sr-only".toList)] "You: ".toList else []).flatMap
        Piece.tokens).filterMap bubble = [] := by
    cases m.out with
    | true => exact filterMap_bubble_element rfl _
    | false => rfl
  have hbutton : ∀ cls key title glyph,
      ((button cls key title glyph m).flatMap Piece.tokens).filterMap bubble = [] :=
    fun cls key title glyph ↦ filterMap_bubble_element rfl glyph
  have htranslation : ((if orEmpty m.translatedText = [] then [] else
      element "div" [("class", "translation".toList)]
        ("↳ ".toList ++ orEmpty m.translatedText)).flatMap Piece.tokens).filterMap bubble = [] := by
    split_ifs
    · rfl
    · exact filterMap_bubble_element rfl _
  have hclose : ([Piece.stop "div".toList].flatMap Piece.tokens).filterMap bubble = [] := rfl
  unfold messagePieces
  simp only [List.flatMap_append, List.filterMap_append]
  rw [hopen, hauthor, hdirection, hbutton, hbutton, htranslation, hclose, List.flatMap_singleton,
    Piece.tokens, filterMap_bubble_text]
  rfl

/-- Every response is read as the templates of its items, whatever they say. -/
theorem responses_read (sessionName text : String) (isGroup : Bool) (items : List Message)
    (dialogs : List Dialog) (names : List String) :
    read (messagesResponse isGroup items) = some (items.flatMap fun m ↦
        (messagePieces (isGroup && !m.out) m).flatMap Piece.tokens) ∧
      (items.flatMap fun m ↦
        (messagePieces (isGroup && !m.out) m).flatMap Piece.tokens).filterMap bubble =
          items.map (fun m ↦
            (if m.out then "out".toList else "in".toList, str m.dialogId, str m.id)) ∧
      read (dialogsResponse dialogs) =
        some (dialogs.flatMap fun d ↦ (dialogPieces d).flatMap Piece.tokens) ∧
      read (profilesResponse sessionName names) = some (names.flatMap fun n ↦
        (profilePieces (n = sessionName) n).flatMap Piece.tokens) ∧
      read (errorDiv text) = some ((errorPieces text).flatMap Piece.tokens) := by
  refine ⟨?_, ?_, ?_, ?_, ?_⟩
  · have hfragments : messagesResponse isGroup items = items.flatMap fun m ↦
        (messagePieces (isGroup && !m.out) m).flatMap Piece.render :=
      congrArg (items.flatMap ·) (funext fun m ↦ messageDiv_eq _ m)
    rw [hfragments]
    exact read_flatMap items fun m _ ↦ ⟨isBlock_messagePieces _ m, List.cons_ne_nil _ _⟩
  · rw [List.filterMap_flatMap, List.map_eq_flatMap]
    congr 1
    funext m
    exact filterMap_bubble_message _ m
  · have hfragments : dialogsResponse dialogs =
        dialogs.flatMap fun d ↦ (dialogPieces d).flatMap Piece.render :=
      congrArg (dialogs.flatMap ·) (funext dialogLi_eq)
    rw [hfragments]
    exact read_flatMap dialogs fun d _ ↦ ⟨isBlock_dialogPieces d, List.cons_ne_nil _ _⟩
  · have hfragments : profilesResponse sessionName names = names.flatMap fun n ↦
        (profilePieces (n = sessionName) n).flatMap Piece.render :=
      congrArg (names.flatMap ·) (funext fun n ↦ profileLi_eq _ n)
    rw [hfragments]
    exact read_flatMap names fun n _ ↦ ⟨isBlock_profilePieces _ n, List.cons_ne_nil _ _⟩
  · rw [errorDiv_eq]
    exact (isBlock_errorPieces text).read

end TgMessenger.Web.Render
