import TgMessenger.Asyncio.Watch
import TgMessenger.Pane.Messages
import Mathlib.Data.Fintype.Basic

/-!
# What arrives in the pane

A history is consistent with the list if its dialog is still open when it arrives, and the line of
a send if no history and no line of the stream has brought its id before.  The writers look at
neither.

No id occurs twice and nothing of another dialog is shown in every run in which what arrives does
so in time.
-/

namespace TgMessenger.Pane.Messages

open Asyncio

/-! ## What is in hand -/

/-- A send that was confirmed. -/
structure Sent where
  id : Option ℕ
  dialog : String

/-- What a task was given and has not shown yet. -/
inductive Hand where
  | empty
  /-- The daemon has sent a text, and the history is to be read again. -/
  | sent (send : Sent)
  /-- A history, with the send it is read again for. -/
  | page (dialog : String) (ms : List TgMessage) (send : Option Sent)
  /-- The line of a send is to be appended. -/
  | line (send : Sent)

/-- The send that is still to be shown. -/
def Hand.unshown : Hand → Option Sent
  | .empty => none
  | .sent send | .line send => some send
  | .page _ _ send => send

/-- The dialog a history was read of, and its messages. -/
def historyOf (env : Env) : (o : Op) → effects.Ret o → Option (String × List TgMessage)
  | .getMessages _ dialog, some (.arr items) => some (dialog, items.filterMap messageFromApi)
  | .read _ ref, out =>
    if cliError out.2 = none then some (env.dialog ref, parseHistory out.1.toList) else none
  | _, _ => none

/-- The send that a child of its own confirms. -/
def confirmed (env : Env) : (o : Op) → effects.Ret o → Option Sent
  | .send _ ref _, out | .sendFile _ ref _ _, out =>
    if cliError out.2 = none then (sentId out.1).map (⟨·, env.dialog ref⟩) else none
  | _, _ => none

/-- What a task has in hand after a child was asked. -/
def Hand.given (env : Env) (h : Hand) (o : Op) (x : effects.Ret o) : Hand :=
  match historyOf env o x, confirmed env o x with
  | some (dialog, ms), _ => .page dialog ms h.unshown
  | none, some send => .line send
  | none, none => h

/-- What a task has in hand after an operation. -/
def Hand.next (env : Env) (h : Hand) : (o : Op) → effects.Ret o → Hand
  | .post _ dialog _, some body =>
    if isBlankBody body then h else .sent ⟨env.jsonId body, dialog⟩
  | .replace .., _ => h.unshown.elim .empty .line
  | .append _, _ => .empty
  | o, x => h.given env o x

/-- What a task writes it has in hand. -/
def Licensed : Op → Hand → Prop
  | .replace dialog ms, h => ∃ send, h = .page dialog ms send
  | .append e, h => (e.id = none ∧ e.system = true) ∨
    ∃ send, h = .line send ∧ e.id = send.id.map Nat.cast ∧ e.dialog = send.dialog
  | _, _ => True

/-- What each task has in hand, and what it may write. -/
def watch (env : Env) : Watch effects World Hand where
  legal h o := Licensed o h
  next _ h o
    | .ok x => h.next env o x
    | .error _ => h

/-- The list, and what each task has in hand. -/
abbrev Held (ι : Type) := World × (ι → Hand)

/-- Tasks in progress, and what they still have to do. -/
abbrev PaneConfig (ι : Type) := Config effects ι (Held ι) Unit

/-- The pane, with what each task has in hand. -/
abbrev watched {ι : Type} [DecidableEq ι] (setup : Setup) : System effects ι (Held ι) PaneEvent :=
  (system setup).watched (watch setup.toEnv)

/-- An empty pane whose tasks are about to start. -/
def start {ι : Type} (setup : Setup) (tasks : ι → Task) (cfg : ModConfig) : PaneConfig ι :=
  ⟨⟨⟨cfg, [], [], [], 0⟩, fun _ ↦ .empty⟩, fun t ↦ (tasks t).prog setup.toEnv⟩

variable {ι : Type}

/-- The id of a send, if the transport has reported one. -/
def Sent.ids (send : Sent) : List ℤ := (send.id.map Nat.cast).toList

/-- The send whose line is to be appended, with nothing more to wait for. -/
def Hand.owed : Hand → Option Sent
  | .page _ _ send => send
  | .line send => some send
  | .empty | .sent _ => none

/-- The ids of the history in hand. -/
def Hand.pageIds : Hand → List ℤ
  | .page _ ms _ => ms.map TgMessage.id
  | .empty | .sent _ | .line _ => []

def Hand.owedIds (h : Hand) : List ℤ := h.owed.toList.flatMap Sent.ids

/-- All ids in hand. -/
def Hand.ids (h : Hand) : List ℤ := h.pageIds ++ h.owedIds

/-- Nothing is in hand that is to be shown now. -/
def Hand.idle : Hand → Bool
  | .empty | .sent _ | .page _ [] none => true
  | .page .. | .line _ => false

theorem mem_owedIds {h : Hand} {id : ℤ} : id ∈ h.owedIds ↔ ∃ send ∈ h.owed, id ∈ send.ids := by
  simp only [Hand.owedIds, List.mem_flatMap, Option.mem_toList, Option.mem_def]

theorem Hand.owed_of_idle {h : Hand} (hidle : h.idle = true) : h.owed = none := by
  match h, hidle with
  | .empty, _ | .sent _, _ | .page _ [] none, _ => rfl

/-! ## What comes in time -/

/-- The line of a send can follow what is shown: its dialog is open, and its id is neither there
nor in the hands of another task. -/
def World.Expects (w : World) (hand : ι → Hand) (t : ι) (shown : List ℤ) (send : Sent) : Prop :=
  send.dialog = w.cfg.resolvedId ∧
    ∀ id ∈ send.ids, id ∉ shown ∧ ∀ u, u ≠ t → id ∉ (hand u).ids

/-- The dialog of a history is open, no id occurs twice in it and none is that of a send whose line
is to be appended; and the send it is read again for can follow it. -/
def World.Takes (w : World) (hand : ι → Hand) (t : ι) (dialog : String) (ms : List TgMessage) :
    Prop :=
  (ms ≠ [] → dialog = w.cfg.resolvedId) ∧ (ms.map TgMessage.id).Nodup ∧
    (∀ u, u ≠ t → ∀ id ∈ (hand u).owedIds, id ∉ ms.map TgMessage.id) ∧
    ∀ send ∈ (hand t).unshown, w.Expects hand t (ms.map TgMessage.id) send

/-- The messages that a chunk of the stream brings have ids of their own. -/
def World.Streams (w : World) (hand : ι → Hand) (chunk : List Char) : Prop :=
  (ids (w.batch chunk)).Nodup ∧
    ∀ id ∈ ids (w.batch chunk), id ∉ ids w.messages ∧ ∀ u, id ∉ (hand u).owedIds

/-- What an operation is answered comes in time: a history and the confirmation of a send fit what
is shown then, and a dialog is picked when nothing is in hand. -/
def World.Welcomes (w : World) (hand : ι → Hand) (env : Env) (t : ι) (o : Op)
    (x : effects.Ret o) : Prop :=
  match o with
  | .switchDialog _ => ∀ u, (hand u).idle = true
  | o =>
    (∀ page ∈ historyOf env o x, w.Takes hand t page.1 page.2) ∧
      ∀ send ∈ confirmed env o x, w.Expects hand t (ids w.messages) send

/-- What arrives does so in time. -/
def Timely (setup : Setup) (c : PaneConfig ι) : Move ι PaneEvent → Prop
  | .run t => (c.task t).NextIn fun o ↦
    c.shared.1.Welcomes c.shared.2 setup.toEnv t o (c.shared.1.answer setup o)
  | .env (.chunk text) => c.shared.1.Streams c.shared.2 text
  | .env _ => True

section Decidable

variable [DecidableEq ι] [Fintype ι]

instance (w : World) (hand : ι → Hand) (t : ι) (shown : List ℤ) (send : Sent) :
    Decidable (w.Expects hand t shown send) := inferInstanceAs (Decidable (_ ∧ _))

instance (w : World) (hand : ι → Hand) (t : ι) (dialog : String) (ms : List TgMessage) :
    Decidable (w.Takes hand t dialog ms) := inferInstanceAs (Decidable (_ ∧ _ ∧ _ ∧ _))

instance (w : World) (hand : ι → Hand) (chunk : List Char) :
    Decidable (w.Streams hand chunk) :=
  inferInstanceAs (Decidable (_ ∧ _))

instance (w : World) (hand : ι → Hand) (env : Env) (t : ι) (o : Op) (x : effects.Ret o) :
    Decidable (w.Welcomes hand env t o x) :=
  match o with
  | .switchDialog _ => inferInstanceAs (Decidable (∀ u, (hand u).idle = true))
  | .config | .getMessages .. | .read .. | .post .. | .send .. | .sendFile .. | .rememberSent _
  | .replace .. | .append _ | .appendUnsent _ => inferInstanceAs (Decidable (_ ∧ _))

instance (setup : Setup) (c : PaneConfig ι) (m : Move ι PaneEvent) : Decidable (Timely setup c m) :=
  match m with
  | .run t => inferInstanceAs (Decidable ((c.task t).NextIn fun o ↦
      c.shared.1.Welcomes c.shared.2 setup.toEnv t o (c.shared.1.answer setup o)))
  | .env (.chunk text) => inferInstanceAs (Decidable (c.shared.1.Streams c.shared.2 text))
  | .env (.adopt _) | .env (.streamState _) | .env .respawn => inferInstanceAs (Decidable True)

end Decidable

/-! ## What holds meanwhile -/

/-- The list is consistent, and stays so when what is in hand is shown. -/
structure World.Sound (w : World) (hand : ι → Hand) : Prop where
  consistent : Consistent w.cfg.resolvedId w.messages
  page : ∀ t dialog ms send, hand t = .page dialog ms send →
    (ms ≠ [] → dialog = w.cfg.resolvedId) ∧ (ms.map TgMessage.id).Nodup
  owed : ∀ t, ∀ send ∈ (hand t).owed, send.dialog = w.cfg.resolvedId
  pages : ∀ t u, ∀ id ∈ (hand u).owedIds, id ∉ (hand t).pageIds
  apart : ∀ t u, t ≠ u → ∀ id ∈ (hand t).owedIds, id ∉ (hand u).owedIds
  fresh : ∀ t send, hand t = .line send → ∀ id ∈ send.ids, id ∉ ids w.messages

namespace World.Sound

variable {w w' : World} {hand : ι → Hand}

/-- What one task is to append no other has in hand. -/
theorem not_mem_ids (h : w.Sound hand) {t u : ι} (hu : u ≠ t) {id : ℤ}
    (hid : id ∈ (hand t).owedIds) : id ∉ (hand u).ids := by
  intro hmem
  rcases List.mem_append.mp hmem with hpage | howed
  · exact h.pages u t id hid hpage
  · exact h.apart t u hu.symm id hid howed

/-- Only the list and the open dialog matter. -/
theorem congr (h : w.Sound hand) (hdialog : w'.cfg.resolvedId = w.cfg.resolvedId)
    (hmessages : w'.messages = w.messages) : w'.Sound hand := by
  obtain ⟨hconsistent, hpage, howed, hpages, hapart, hfresh⟩ := h
  rw [← hdialog, ← hmessages] at hconsistent
  rw [← hdialog] at hpage howed
  rw [← hmessages] at hfresh
  exact ⟨hconsistent, hpage, howed, hpages, hapart, hfresh⟩

/-- A list that is consistent beside what is in hand. -/
theorem shows (h : w.Sound hand) {messages : List Entry}
    (hmessages : Consistent w.cfg.resolvedId messages)
    (hfresh : ∀ t send, hand t = .line send → ∀ id ∈ send.ids, id ∉ ids messages) :
    ({ w with messages } : World).Sound hand where
  consistent := hmessages
  page := h.page
  owed := h.owed
  pages := h.pages
  apart := h.apart
  fresh := hfresh

/-- Entries that fit the list and what is in hand. -/
theorem appends (h : w.Sound hand) {batch : List Entry}
    (hbatch : Consistent w.cfg.resolvedId batch)
    (hids : ∀ id ∈ ids batch, id ∉ ids w.messages ∧
      ∀ t send, hand t = .line send → id ∉ send.ids) : (w.append batch).Sound hand := by
  have hall : Consistent w.cfg.resolvedId (w.messages ++ batch) :=
    (consistent_append_iff h.consistent).mpr ⟨hbatch, fun id hid ↦ (hids id hid).1⟩
  refine h.shows (hall.of_sublist (List.rtake_suffix ..).sublist) ?_
  intro t send hhand id hid hmem
  have hmem : id ∈ ids (w.messages ++ batch) :=
    ((List.rtake_suffix 100 _).sublist.filterMap _).subset hmem
  rw [ids, List.filterMap_append, List.mem_append] at hmem
  rcases hmem with hmem | hmem
  · exact h.fresh t send hhand id hid hmem
  · exact (hids id hmem).2 t send hhand hid

/-- An entry without an id, of the pane itself or of the dialog that is open. -/
theorem appendsOwn (h : w.Sound hand) {e : Entry} (hid : e.id = none)
    (hdialog : e.system = false → e.dialog = w.cfg.resolvedId) : (w.append [e]).Sound hand := by
  have hids : ids [e] = [] := by
    rw [ids, List.filterMap_cons, hid]
    rfl
  refine h.appends ⟨?_, ?_⟩ ?_
  · rw [hids]
    exact List.nodup_nil
  · intro e' he' hsystem
    obtain rfl := List.mem_singleton.mp he'
    exact hdialog hsystem
  · rw [hids]
    exact fun _ h ↦ absurd h List.not_mem_nil

/-- A dialog is picked. -/
theorem picks (h : w.Sound hand) (hidle : ∀ u, (hand u).idle = true) (id : String) :
    ({ w with cfg := w.cfg.switchDialog id, messages := [] } : World).Sound hand where
  consistent := consistent_nil id
  page t dialog ms send hhand := by
    have ht := hidle t
    rw [hhand] at ht
    match ms, send, ht with
    | [], none, _ => exact ⟨fun hne ↦ absurd rfl hne, List.nodup_nil⟩
  owed t send howed := by
    rw [Hand.owed_of_idle (hidle t)] at howed
    cases howed
  pages := h.pages
  apart := h.apart
  fresh _ _ _ _ _ := List.not_mem_nil

variable [DecidableEq ι]

/-- A task takes something in hand that fits what is shown and what the others have. -/
theorem holds (h : w.Sound hand) {t : ι} {given : Hand}
    (hpage : ∀ dialog ms send, given = .page dialog ms send →
      (ms ≠ [] → dialog = w.cfg.resolvedId) ∧ (ms.map TgMessage.id).Nodup)
    (howed : ∀ send ∈ given.owed, send.dialog = w.cfg.resolvedId)
    (hown : ∀ id ∈ given.owedIds, id ∉ given.pageIds)
    (hothers : ∀ u, u ≠ t → (∀ id ∈ given.owedIds, id ∉ (hand u).ids) ∧
      ∀ id ∈ (hand u).owedIds, id ∉ given.pageIds)
    (hfresh : ∀ send, given = .line send → ∀ id ∈ send.ids, id ∉ ids w.messages) :
    w.Sound (Function.update hand t given) where
  consistent := h.consistent
  page u := by
    by_cases hu : u = t
    · subst hu
      rw [Function.update_self]
      exact hpage
    · rw [Function.update_of_ne hu]
      exact h.page u
  owed u := by
    by_cases hu : u = t
    · subst hu
      rw [Function.update_self]
      exact howed
    · rw [Function.update_of_ne hu]
      exact h.owed u
  pages u v := by
    by_cases hu : u = t <;> by_cases hv : v = t
    · subst hu hv
      rw [Function.update_self]
      exact hown
    · subst hu
      rw [Function.update_self, Function.update_of_ne hv]
      exact (hothers v hv).2
    · subst hv
      rw [Function.update_self, Function.update_of_ne hu]
      exact fun id hid hmem ↦ (hothers u hu).1 id hid (List.mem_append_left _ hmem)
    · rw [Function.update_of_ne hu, Function.update_of_ne hv]
      exact h.pages u v
  apart u v huv := by
    by_cases hu : u = t
    · subst hu
      rw [Function.update_self, Function.update_of_ne huv.symm]
      exact fun id hid hmem ↦ (hothers v huv.symm).1 id hid (List.mem_append_right _ hmem)
    · by_cases hv : v = t
      · subst hv
        rw [Function.update_self, Function.update_of_ne huv]
        exact fun id hid hmem ↦ (hothers u huv).1 id hmem (List.mem_append_right _ hid)
      · rw [Function.update_of_ne hu, Function.update_of_ne hv]
        exact h.apart u v huv
  fresh u := by
    by_cases hu : u = t
    · subst hu
      rw [Function.update_self]
      exact hfresh
    · rw [Function.update_of_ne hu]
      exact h.fresh u

/-- A task has nothing in hand that is to be shown now. -/
theorem releases (h : w.Sound hand) {t : ι} {given : Hand}
    (hgiven : given = .empty ∨ ∃ send, given = .sent send) :
    w.Sound (Function.update hand t given) := by
  have howed : given.owed = none ∧ given.pageIds = [] := by
    rcases hgiven with rfl | ⟨send, rfl⟩ <;> exact ⟨rfl, rfl⟩
  have howedIds : given.owedIds = [] := by
    rw [Hand.owedIds, howed.1]
    rfl
  refine h.holds ?_ ?_ ?_ ?_ ?_
  · rintro dialog ms send rfl
    rcases hgiven with h | ⟨_, h⟩ <;> cases h
  · rw [howed.1]
    exact fun _ h ↦ nomatch h
  · rw [howedIds]
    exact fun _ h ↦ nomatch h
  · rw [howedIds, howed.2]
    exact fun _ _ ↦ ⟨fun _ h ↦ (nomatch h), fun _ _ h ↦ nomatch h⟩
  · rintro send rfl
    rcases hgiven with h | ⟨_, h⟩ <;> cases h

/-- A history comes in time. -/
theorem takes (h : w.Sound hand) {t : ι} {dialog : String} {ms : List TgMessage}
    (htakes : w.Takes hand t dialog ms) :
    w.Sound (Function.update hand t (.page dialog ms (hand t).unshown)) := by
  obtain ⟨hdialog, hnodup, hothers, hsend⟩ := htakes
  have hexpects : ∀ id ∈ (Hand.page dialog ms (hand t).unshown).owedIds,
      id ∉ ms.map TgMessage.id ∧ ∀ u, u ≠ t → id ∉ (hand u).ids := by
    intro id hid
    obtain ⟨send, howed, hid⟩ := mem_owedIds.mp hid
    exact (hsend send howed).2 id hid
  refine h.holds ?_ ?_ ?_ ?_ nofun
  · rintro _ _ _ ⟨⟩
    exact ⟨hdialog, hnodup⟩
  · exact fun send howed ↦ (hsend send howed).1
  · exact fun id hid ↦ (hexpects id hid).1
  · exact fun u hu ↦ ⟨fun id hid ↦ (hexpects id hid).2 u hu, hothers u hu⟩

/-- A send is confirmed in time. -/
theorem expects (h : w.Sound hand) {t : ι} {send : Sent}
    (hsend : w.Expects hand t (ids w.messages) send) :
    w.Sound (Function.update hand t (.line send)) := by
  have hids {id : ℤ} (hid : id ∈ (Hand.line send).owedIds) : id ∈ send.ids := by
    obtain ⟨_, ⟨⟩, hid⟩ := mem_owedIds.mp hid
    exact hid
  refine h.holds nofun ?_ ?_ ?_ ?_
  · rintro _ ⟨⟩
    exact hsend.1
  · exact fun _ _ h ↦ nomatch h
  · exact fun u hu ↦ ⟨fun id hid ↦ (hsend.2 id (hids hid)).2 u hu, fun _ _ h ↦ nomatch h⟩
  · rintro _ ⟨⟩
    exact fun id hid ↦ (hsend.2 id hid).1

/-- What a child was asked is answered in time. -/
theorem answered (h : w.Sound hand) {env : Env} {t : ι} {o : Op} {x : effects.Ret o}
    (hhistory : ∀ page ∈ historyOf env o x, w.Takes hand t page.1 page.2)
    (hconfirmed : ∀ send ∈ confirmed env o x, w.Expects hand t (ids w.messages) send) :
    w.Sound (Function.update hand t ((hand t).given env o x)) := by
  unfold Hand.given
  split
  · next hpage => exact h.takes (hhistory _ hpage)
  · next _ hsend => exact h.expects (hconfirmed _ hsend)
  · rw [Function.update_eq_self]
    exact h

/-- A history replaces the list. -/
theorem replaces (h : w.Sound hand) {t : ι} {dialog : String} {ms : List TgMessage}
    {send : Option Sent} (hhand : hand t = .page dialog ms send) :
    ({ w with messages := ms.map (.ofMessage dialog) } : World).Sound
      (Function.update hand t (send.elim .empty .line)) := by
  have hids : ids (ms.map (.ofMessage dialog)) = (hand t).pageIds := by
    rw [hhand, ids, List.filterMap_map, Hand.pageIds, ← List.filterMap_eq_map]
    rfl
  have hshown : ({ w with messages := ms.map (.ofMessage dialog) } : World).Sound hand := by
    refine h.shows (consistent_map_iff.mpr (h.page t dialog ms send hhand)) ?_
    intro u line hu id hid
    rw [hids]
    refine h.pages t u id (mem_owedIds.mpr ⟨line, ?_, hid⟩)
    rw [hu]
    rfl
  cases send with
  | none => exact hshown.releases (.inl rfl)
  | some send =>
    have howed : (hand t).owed = some send := by
      rw [hhand]
      rfl
    refine hshown.expects ⟨h.owed t send howed, fun id hid ↦ ?_⟩
    have hmem : id ∈ (hand t).owedIds := mem_owedIds.mpr ⟨send, howed, hid⟩
    refine ⟨?_, fun u hu ↦ h.not_mem_ids hu hmem⟩
    dsimp only
    rw [hids]
    exact h.pages t t id hmem

/-- The line of a send is appended. -/
theorem appendsLine (h : w.Sound hand) {t : ι} {send : Sent} (hhand : hand t = .line send)
    {e : Entry} (hid : e.id = send.id.map Nat.cast) (hdialog : e.dialog = send.dialog) :
    (w.append [e]).Sound (Function.update hand t .empty) := by
  have hids : ids [e] = send.ids := by
    rw [ids, Sent.ids, ← hid, List.filterMap_cons]
    cases e.id <;> rfl
  have howed : (hand t).owed = some send := by
    rw [hhand]
    rfl
  refine (h.releases (t := t) (.inl rfl)).appends ⟨?_, ?_⟩ fun id hmem ↦ ⟨?_, ?_⟩
  · rw [hids, Sent.ids]
    cases send.id <;> simp
  · intro e' he' _
    obtain rfl := List.mem_singleton.mp he'
    rw [hdialog]
    exact h.owed t send howed
  · rw [hids] at hmem
    exact h.fresh t send hhand id hmem
  · intro u line hu hline
    rw [hids] at hmem
    by_cases hut : u = t
    · subst hut
      rw [Function.update_self] at hu
      cases hu
    · rw [Function.update_of_ne hut] at hu
      refine h.apart t u (Ne.symm hut) id (mem_owedIds.mpr ⟨send, howed, hmem⟩)
        (mem_owedIds.mpr ⟨line, ?_, hline⟩)
      rw [hu]
      rfl

end World.Sound

/-! ## One step -/

variable [DecidableEq ι] {setup : Setup} {t : ι} {w : World} {hand : ι → Hand}

/-- An operation that is licensed, and whose answer comes in time. -/
theorem after_sound {o : Op} (hw : w.Sound hand) (hlicensed : Licensed o (hand t))
    (hwelcomes : w.Welcomes hand setup.toEnv t o (w.answer setup o)) :
    (w.after o).Sound
      (Function.update hand t ((hand t).next setup.toEnv o (w.answer setup o))) := by
  have hself : w.Sound (Function.update hand t (hand t)) := by
    rw [Function.update_eq_self]
    exact hw
  cases o with
  | config | rememberSent id => exact hself.congr rfl rfl
  | getMessages port dialog =>
    rcases port with _ | _ | port <;> exact (hw.answered hwelcomes.1 hwelcomes.2).congr rfl rfl
  | read profile ref => exact (hw.answered hwelcomes.1 hwelcomes.2).congr rfl rfl
  | send profile ref text => exact (hw.answered hwelcomes.1 hwelcomes.2).congr rfl rfl
  | sendFile profile ref path caption =>
    exact (hw.answered hwelcomes.1 hwelcomes.2).congr rfl rfl
  | post port dialog text =>
    rcases port with _ | _ | port
    · exact hself
    · exact hself
    · dsimp only [World.answer]
      cases setup.posted w.children with
      | none => exact hself.congr rfl rfl
      | some body =>
        dsimp only [Hand.next]
        split
        · exact hself.congr rfl rfl
        · exact (hw.releases (.inr ⟨_, rfl⟩)).congr rfl rfl
  | replace dialog ms =>
    obtain ⟨send, hhand⟩ := hlicensed
    have hreplaced := hw.replaces hhand
    dsimp only [Hand.next]
    rw [hhand]
    exact hreplaced
  | append e =>
    rcases hlicensed with ⟨hid, hsystem⟩ | ⟨send, hhand, hid, hdialog⟩
    · refine World.Sound.releases (w := w.append [e]) (hw.appendsOwn hid ?_) (.inl rfl)
      rw [hsystem]
      exact nofun
    · exact hw.appendsLine hhand hid hdialog
  | appendUnsent text =>
    exact hself.appendsOwn (e := ⟨none, text.toList, true, false, _⟩) rfl fun _ ↦ rfl
  | switchDialog id => exact hself.picks (by rwa [Function.update_eq_self]) id

/-- A line that is a message is of the open dialog. -/
theorem lineDialog_of_parseStreamLine {resolvedId line : List Char} {sentIds : List ℕ}
    {m : TgMessage} (h : parseStreamLine resolvedId sentIds line = some m) :
    lineDialog line = String.ofList resolvedId := by
  rw [parseStreamLine] at h
  rw [lineDialog]
  split at h
  · cases h
  · next out dialog digits text hline =>
    split_ifs at h with hdialog
    rw [hline, Option.map_some, Option.getD_some, not_not.mp hdialog]

omit [DecidableEq ι] in
/-- A chunk of the stream comes in time. -/
theorem burst_sound {chunk : List Char} (hw : w.Sound hand) (h : w.Streams hand chunk) :
    (w.burst chunk).Sound hand := by
  have hbatch : Consistent w.cfg.resolvedId (w.batch chunk) := by
    refine ⟨h.1, ?_⟩
    intro e he _
    obtain ⟨line, -, hline⟩ := List.mem_filterMap.mp he
    obtain ⟨m, hm, rfl⟩ := Option.map_eq_some_iff.mp hline
    exact (lineDialog_of_parseStreamLine hm).trans String.ofList_toList
  have happended : (w.append (w.batch chunk)).Sound hand := by
    refine hw.appends hbatch fun id hid ↦ ⟨(h.2 id hid).1, ?_⟩
    intro t send hhand hmem
    refine (h.2 id hid).2 t (mem_owedIds.mpr ⟨send, ?_, hmem⟩)
    rw [hhand]
    rfl
  unfold World.burst
  dsimp only
  split
  · exact hw.congr rfl rfl
  · exact happended.congr rfl rfl

omit [DecidableEq ι] in
theorem env_sound {c : PaneConfig ι} {e : PaneEvent} {w' : World}
    (h : (system setup : System effects ι World PaneEvent).env e c.shared.1 = some w')
    (hw : c.shared.1.Sound c.shared.2) (htimely : Timely setup c (.env e)) :
    w'.Sound c.shared.2 := by
  cases e with
  | chunk text =>
    cases h
    exact burst_sound hw htimely
  | streamState text =>
    cases h
    exact hw.appendsOwn rfl nofun
  | adopt port =>
    cases h
    exact hw.congr rfl rfl
  | respawn =>
    cases h
    exact hw.congr rfl rfl

/-! ## What a task writes it has in hand -/

section Programs

variable {env : Env} {α β : Type} {h : Hand}

/-- What a coroutine has in hand when it returns. -/
abbrev Leaves (env : Env) (p : PaneProg α) (h : Hand) (R : α → Hand → Prop) : Prop :=
  p.Leaves (watch env) h R

theorem leaves_perform {o : Op} {R : effects.Ret o → Hand → Prop} (hlicensed : Licensed o h)
    (hnext : ∀ x, R x (h.next env o x)) : Leaves env (perform o) h R :=
  Prog.Leaves.perform hlicensed fun _ x ↦ hnext x

/-- A history that was given is shown, and the send is left that is still to be. -/
theorem replace_leaves (dialog : String) (ms : List TgMessage) (send : Option Sent) :
    Leaves env (perform (.replace dialog ms)) (.page dialog ms send)
      fun _ h ↦ h = send.elim .empty .line :=
  leaves_perform ⟨send, rfl⟩ fun _ ↦ rfl

/-- The history that a child of its own reads. -/
theorem read_leaves (h : Hand) :
    Leaves env (do
        let cfg : ModConfig ← perform .config
        let out : String × String ← perform (.read cfg.profile cfg.peerRef)
        match cliError out.2 with
        | some error => .raise error
        | none => perform (.replace (env.dialog cfg.peerRef) (parseHistory out.1.toList)))
      h fun _ h' ↦ h' = h.unshown.elim .empty .line := by
  refine Prog.Leaves.bind_of_same trivial (fun _ _ ↦ rfl) fun cfg ↦ ?_
  refine Prog.Leaves.bind (R := fun (out : String × String) h' ↦ cliError out.2 = none →
    h' = .page (env.dialog cfg.peerRef) (parseHistory out.1.toList) h.unshown)
    (leaves_perform trivial ?_) ?_
  · intro out hout
    dsimp only [Hand.next, Hand.given, historyOf]
    rw [if_pos hout]
  · intro out h' hpage
    split
    · exact .raise ..
    · next hout =>
      rw [hpage hout]
      exact replace_leaves ..

/-- `loadHistory` shows what it is given, and leaves the send that is still to be shown. -/
theorem loadHistory_leaves (h : Hand) :
    Leaves env (loadHistory env) h fun _ h' ↦ h' = h.unshown.elim .empty .line := by
  refine Prog.Leaves.bind_of_same trivial (fun _ _ ↦ rfl) fun cfg ↦ ?_
  refine (leaves_perform (R := fun api h' ↦
    h' = h.next env (.getMessages cfg.daemonPort cfg.resolvedId) api) trivial fun _ ↦ rfl).bind ?_
  rintro api _ rfl
  rcases api with _ | json
  · exact read_leaves h
  · cases json with
    | arr items => exact replace_leaves ..
    | _ => exact read_leaves h

/-- `rememberSent` leaves what is in hand. -/
theorem remember_leaves (id : Option ℕ) (h : Hand) :
    Leaves env (remember id) h fun _ h' ↦ h' = h := by
  cases id with
  | none => rfl
  | some id => exact leaves_perform trivial fun _ ↦ rfl

/-- What a child of its own gives a task in hand. -/
theorem given_of_confirmed {out : String × String} {dialog : String} {o : Op} {x : effects.Ret o}
    (hhistory : historyOf env o x = none)
    (hconfirmed : confirmed env o x =
      if cliError out.2 = none then (sentId out.1).map (⟨·, dialog⟩) else none)
    (id : Option ℕ) (hout : cliError out.2 = none) (hid : sentId out.1 = some id) :
    h.given env o x = .line ⟨id, dialog⟩ := by
  rw [Hand.given, hhistory, hconfirmed, if_pos hout, hid]
  rfl

/-- What a child has confirmed is to be shown. -/
theorem confirm_leaves {out : String × String} {dialog : String}
    (hline : ∀ id, cliError out.2 = none → sentId out.1 = some id → h = .line ⟨id, dialog⟩) :
    Leaves env (do
        let id ← confirm out
        return (id, dialog)) h fun r h' ↦ h' = .line ⟨r.1, r.2⟩ := by
  unfold confirm
  split
  · exact .raise ..
  · next hout =>
    split
    · exact .raise ..
    · next id hid =>
      obtain rfl := hline id hout hid
      rw [bind_assoc]
      refine (remember_leaves id _).bind ?_
      rintro _ _ rfl
      rfl

/-- `sendText` leaves its line to be shown. -/
theorem sendText_leaves (text : String) (h : Hand) :
    Leaves env (sendText env text) h fun r h' ↦ h' = .line ⟨r.1, r.2⟩ := by
  refine Prog.Leaves.bind_of_same trivial (fun _ _ ↦ rfl) fun cfg ↦ ?_
  refine Prog.Leaves.bind (R := fun body h' ↦ ∀ b, body = some b → isBlankBody b = false →
    h' = .sent ⟨env.jsonId b, cfg.resolvedId⟩) (leaves_perform trivial ?_) ?_
  · rintro _ body rfl hblank
    dsimp only [Hand.next]
    rw [hblank]
    rfl
  intro body h' hsent
  split
  · next body' hbody =>
    obtain ⟨hbody, hblank⟩ := Option.filter_eq_some_iff.mp hbody
    rw [Bool.not_eq_true'] at hblank
    obtain rfl := hsent body' hbody hblank
    refine (remember_leaves _ _).bind ?_
    rintro _ _ rfl
    refine (loadHistory_leaves _).bind ?_
    rintro _ _ rfl
    rfl
  · refine Prog.Leaves.bind_of_same trivial (fun _ _ ↦ rfl) fun cfg ↦ ?_
    refine Prog.Leaves.bind (R := fun (out : String × String) h' ↦ ∀ id, cliError out.2 = none →
      sentId out.1 = some id → h' = .line ⟨id, env.dialog cfg.peerRef⟩)
      (leaves_perform trivial fun out ↦ given_of_confirmed rfl rfl) ?_
    exact fun out h' hline ↦ confirm_leaves hline

/-- `sendMedia` leaves its line to be shown. -/
theorem sendMedia_leaves (path : String) (caption : Option String) (h : Hand) :
    Leaves env (sendMedia env path caption) h fun r h' ↦ h' = .line ⟨r.1, r.2⟩ := by
  refine Prog.Leaves.bind_of_same trivial (fun _ _ ↦ rfl) fun cfg ↦ ?_
  refine Prog.Leaves.bind (R := fun (out : String × String) h' ↦ ∀ id, cliError out.2 = none →
    sentId out.1 = some id → h' = .line ⟨id, env.dialog cfg.peerRef⟩)
    (leaves_perform trivial fun out ↦ given_of_confirmed rfl rfl) ?_
  exact fun out h' hline ↦ confirm_leaves hline

theorem appendSystem_leaves (message : String) (h : Hand) :
    Leaves env (perform (.append (.ofSystem message))) h fun _ _ ↦ True :=
  leaves_perform (.inl ⟨rfl, rfl⟩) fun _ ↦ trivial

/-- A line that is to be shown. -/
theorem appendLine_leaves (send : Sent) (text : List Char) :
    Leaves env (perform (.append ⟨send.id.map Nat.cast, text, true, false, send.dialog⟩))
      (.line send) fun _ _ ↦ True :=
  leaves_perform (.inr ⟨send, rfl, rfl, rfl⟩) fun _ ↦ trivial

theorem onSubmit_leaves (text : String) (media : Option (String × Option String)) (h : Hand) :
    Leaves env (onSubmit env text media) h fun _ _ ↦ True := by
  refine Prog.Leaves.bind_of_same trivial (fun _ _ ↦ rfl) fun cfg ↦ ?_
  split
  · exact leaves_perform trivial fun _ ↦ trivial
  · refine Prog.Leaves.rescue ?_ appendSystem_leaves
    rcases media with _ | ⟨path, caption⟩
    · refine (sendText_leaves text h).bind ?_
      rintro ⟨id, dialog⟩ _ rfl
      exact appendLine_leaves ⟨id, dialog⟩ _
    · refine (sendMedia_leaves path caption h).bind ?_
      rintro ⟨id, dialog⟩ _ rfl
      exact appendLine_leaves ⟨id, dialog⟩ _

/-- `loadHistory` of a task that has sent nothing. -/
theorem loads_leaves (h : Hand) : Leaves env (loadHistory env) h fun _ _ ↦ True :=
  (loadHistory_leaves h).mono fun _ _ _ ↦ trivial

/-- Every task writes what it has in hand. -/
theorem task_leaves (task : Task) (h : Hand) : Leaves env (task.prog env) h fun _ _ ↦ True := by
  cases task with
  | bootHistory => exact Prog.Leaves.rescue (loads_leaves h) appendSystem_leaves
  | poll => exact Prog.Leaves.rescue (loads_leaves h) fun _ _ ↦ trivial
  | onSubmit text media => exact onSubmit_leaves text media h
  | switchDialog id =>
    refine Prog.Leaves.bind_of_same trivial (fun _ _ ↦ rfl) fun _ ↦ ?_
    exact Prog.Leaves.rescue (loads_leaves h) fun _ _ ↦ trivial

end Programs

/-! ## Every run -/

/-- In every run in which what arrives does so in time, no id occurs twice in the list and every
entry but those of the pane itself belongs to the open dialog. -/
theorem pane_consistent {setup : Setup} {tasks : ι → Task} {cfg : ModConfig} {c : PaneConfig ι}
    (hrun : Reaches (watched setup) (Timely setup) (start setup tasks cfg) c) :
    (ids c.shared.1.messages).Nodup ∧
      ∀ e ∈ c.shared.1.messages, e.system = false → e.dialog = c.shared.1.cfg.resolvedId := by
  have hsound : Abiding (watch setup.toEnv) c ∧ c.shared.1.Sound c.shared.2 := by
    refine hrun.preserves
      (I := fun c ↦ Abiding (watch setup.toEnv) c ∧ c.shared.1.Sound c.shared.2) ?_ ⟨?_, ?_⟩
    · rintro c c' m ⟨habides, hc⟩ htimely hs
      refine ⟨habides.step hs, ?_⟩
      rcases Config.step_cases hs with ⟨t, o, k, x, s, rfl, hp, hr, rfl⟩ |
        ⟨t, o, k, s, -, -, hr, -⟩ | ⟨e, s, rfl, he, rfl⟩
      · obtain ⟨hdone, hnote⟩ := handle_watched hr
        obtain ⟨rfl, hw⟩ := Reply.done.inj hdone
        rw [Timely, hp] at htimely
        have hsound := after_sound hc (habides.legal hp) htimely
        rw [hw] at hsound
        rw [hnote]
        exact hsound
      · exact nomatch (parked_watched hr).1
      · obtain ⟨henv, hnote⟩ := env_watched he
        rw [hnote]
        exact env_sound henv hc htimely
    · exact fun t ↦ (task_leaves (tasks t) .empty).abides
    · exact ⟨consistent_nil _, nofun, nofun, nofun, nofun, nofun⟩
  exact ⟨hsound.2.consistent.nodup, hsound.2.consistent.dialog⟩

/-! ## Lists that are not consistent -/

/-- A row of the API. -/
def row (id : ℚ) (out : Bool) (text : String) : Json :=
  .obj [("id", .num id), ("out", .bool out), ("text", .str text)]

/-- A warm daemon, which answers with the page after the text was sent. -/
def warm (page : List Json) : Setup where
  username _ := ""
  isdigit := Char.isDigit
  isInt _ := true
  jsonId _ := some 5
  api _ := some (.arr page)
  posted _ := some "\x7b\"id\":5\x7d"
  printed _ := ("", "")

/-- The pane on a dialog, with the daemon. -/
def open999 : ModConfig where
  profile := "p"
  target := "999"
  resolvedId := "999"
  isGroup := false
  ready := true
  reason := ""
  daemonPort := some 18080

/-- A poll, a text that is sent, and a dialog that is picked. -/
def pollSendAndPick : Fin 3 → Task
  | 0 => .poll
  | 1 => .onSubmit "hi" none
  | 2 => .switchDialog "888"

/-- The poll is over when a message comes, the history that is read again after the send does not
have the text yet, and its line is there when another dialog is picked. -/
theorem pane_consistent_of_turns :
    ∃ c, Reaches (watched (warm [row 4 false "hello"])) (Timely (warm [row 4 false "hello"]))
        (start (warm [row 4 false "hello"]) pollSendAndPick open999) c ∧
      c.shared.1.messages.length = 1 ∧ c.shared.1.cfg.resolvedId = "888" ∧
      (ids c.shared.1.messages).Nodup ∧
      ∀ e ∈ c.shared.1.messages, e.system = false → e.dialog = c.shared.1.cfg.resolvedId := by
  have hexec : ((Machine.guarded (Config.step (watched (warm [row 4 false "hello"])))
      (Timely (warm [row 4 false "hello"]))).exec
      (start (warm [row 4 false "hello"]) pollSendAndPick open999)
      (List.replicate 3 (.run 0) ++ [.env (.chunk "← [999] [6] yes\n".toList)] ++
        List.replicate 8 (.run 1) ++ List.replicate 4 (.run 2))).any
        (fun c ↦ c.shared.1.messages.length = 1 ∧ c.shared.1.cfg.resolvedId = "888") = true := by
    decide +kernel
  obtain ⟨c, hrun, hlength, hdialog⟩ := Machine.exists_run_of_exec hexec
  exact ⟨c, hrun, hlength, hdialog, pane_consistent hrun⟩

/-- A text that was sent over the daemon is in the history that is read before it is appended; and
a history that comes after a dialog was picked is that of the dialog before. -/
theorem pane_inconsistent :
    (∃ c, Reaches (watched (warm [row 4 false "hello", row 5 true "hi"])) anyMove
        (start (warm [row 4 false "hello", row 5 true "hi"]) pollSendAndPick open999) c ∧
      ids c.shared.1.messages = [4, 5, 5]) ∧
    ∃ c, Reaches (watched (warm [row 4 false "hello"])) anyMove
        (start (warm [row 4 false "hello"]) pollSendAndPick open999) c ∧
      c.shared.1.messages.map Entry.dialog = ["999"] ∧ c.shared.1.cfg.resolvedId = "888" := by
  constructor
  · have hexec : ((Machine.guarded (Config.step (watched
        (warm [row 4 false "hello", row 5 true "hi"]))) fun _ _ ↦ True).exec
        (start (warm [row 4 false "hello", row 5 true "hi"]) pollSendAndPick open999)
        (List.replicate 8 (.run 1))).any (fun c ↦ ids c.shared.1.messages = [4, 5, 5]) = true := by
      decide +kernel
    obtain ⟨c, hrun, h⟩ := Machine.exists_run_of_exec hexec
    exact ⟨c, hrun, h⟩
  · have hexec : ((Machine.guarded (Config.step (watched (warm [row 4 false "hello"])))
        fun _ _ ↦ True).exec (start (warm [row 4 false "hello"]) pollSendAndPick open999)
        [.run 0, .run 2, .run 0, .run 0]).any (fun c ↦
          c.shared.1.messages.map Entry.dialog = ["999"] ∧ c.shared.1.cfg.resolvedId = "888") =
            true := by
      decide +kernel
    obtain ⟨c, hrun, h⟩ := Machine.exists_run_of_exec hexec
    exact ⟨c, hrun, h⟩

end TgMessenger.Pane.Messages
