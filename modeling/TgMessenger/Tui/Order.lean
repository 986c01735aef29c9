import TgMessenger.Asyncio.Watch
import TgMessenger.Tui.Pane

/-!
# Bubbles in order

The pane has several writers, and only `_backfill_history` looks at what the others have mounted.
Between what a handler gets and what it mounts others may mount too.

The bubbles of a dialog ascend, so that none is there twice, in every run in which the messages that
handlers get are newer than what is shown, and are mounted in the order of their ids.
-/

namespace TgMessenger.Tui

open Asyncio
open MessageStore (Server)

/-! ## What is in hand -/

/-- A page that a handler has asked for. -/
structure Got where
  dialog : ℤ
  offset : ℤ
  ids : List ℤ

/-- An id that a page may go back to, or go past. -/
def Got.Within (got : Got) (id : ℤ) : Prop := got.offset = 0 ∨ id < got.offset

/-- What a handler has got and not mounted yet. -/
structure Hand where
  /-- How often bubbles had been mounted when it cleared the pane. -/
  cleared : Option ℕ
  page : Option Got
  /-- A message: its dialog and its id. -/
  message : Option (ℤ × ℤ)

namespace Hand

def empty : Hand := ⟨none, none, none⟩

/-- What a handler mounts it has got, and its page replaces those of a pane that it has cleared. -/
def Licensed (h : Hand) : Op → Prop
  | .mountHistory dialog page | .mountTranslated dialog page =>
    h.page = some ⟨dialog, 0, page.ids⟩ ∧ h.cleared.isSome ∧ h.message = none
  | .prepend dialog older =>
    (∃ offset, h.page = some ⟨dialog, offset, older.ids⟩) ∧ h.message = none
  | .mountLive m => h.message = some (m.dialogId, m.id)
  | .mountSent peer m => h.message = some (peer, m.id)
  | _ => True

/-- What a handler has after an operation. -/
def next (w : World) (h : Hand) : (o : Op) → effects.Ret o → Hand
  | .removeChildren, _ | .clearPane _, true => { h with cleared := some w.mounts }
  | .history dialog _ offset, page => { h with page := some ⟨dialog, offset, page.ids⟩ }
  | .translateHistory dialog _, page => { h with page := some ⟨dialog, 0, page.ids⟩ }
  | .mountHistory .., _ | .mountTranslated .., _ => { h with cleared := none, page := none }
  | .prepend .., _ => { h with page := none }
  | .nextIncoming, m | .nextOutgoing, some m => { h with message := some (m.dialogId, m.id) }
  | .send peer _, m => { h with message := some (peer, m.id) }
  | .mountLive _, _ | .mountSent .., _ => { h with message := none }
  | _, _ => h

end Hand

/-- What each handler has got, and what it may mount. -/
def watch : Watch effects World Hand where
  legal := Hand.Licensed
  next w h o
    | .ok x => h.next w o x
    | .error _ => h

/-- The pane, with what each handler has got. -/
abbrev watched (setup : Setup) : System effects TaskId (World × (TaskId → Hand)) TuiEvent :=
  (system setup).watched watch

/-- Workers in progress, with what they have got. -/
abbrev WatchedConfig := Config effects TaskId (World × (TaskId → Hand)) Unit

/-- An empty pane before anything was done. -/
def begun (server : Server) (tasks : Tasks) : WatchedConfig :=
  ⟨(.init server, fun _ ↦ .empty), tasks.prog⟩

/-! ## The condition -/

/-- The message that an operation gives a handler. -/
def World.arriving (w : World) (setup : Setup) : Op → Option Message
  | .nextIncoming => w.incoming.head?
  | .nextOutgoing => w.outgoing.head?.bind w.notSent
  | .send peer body =>
    let m := setup.message w.calls peer body
    if setup.fails w.calls = false ∧ w.server.Fresh m then some m else none
  | _ => none

/-- A message is newer than what is shown of its dialog when a handler gets it.  A page is mounted
when nothing was since its handler cleared the pane.  And what is new of an older page is older than
what is shown, as far as the page goes back. -/
def World.Ready (w : World) (setup : Setup) (h : Hand) : Op → Prop
  | .mountHistory .. | .mountTranslated .. => ∀ k ∈ h.cleared, k = w.mounts
  | .prepend .. =>
    ∀ got ∈ h.page, w.current = some got.dialog → ∀ id ∈ got.ids, id ∉ w.bubbleIndex →
      ∀ x ∈ w.shownOf got.dialog, got.Within x → id < x
  | o => ∀ m ∈ w.arriving setup o, ∀ x ∈ w.shownOf m.dialogId, x < m.id

/-- What is mounted is older than the message of its dialog that another handler has got. -/
def World.Before (w : World) (h other : Hand) : Op → Prop
  | .mountLive _ | .mountSent .. =>
    ∀ m ∈ h.message, w.current = some m.1 → ∀ n ∈ other.message, n.1 = m.1 → m.2 < n.2
  | .mountHistory .. | .mountTranslated .. =>
    ∀ got ∈ h.page, ∀ n ∈ other.message, n.1 = got.dialog → ∀ id ∈ got.ids, id < n.2
  | .prepend .. =>
    ∀ got ∈ h.page, w.current = some got.dialog → ∀ id ∈ got.ids, id ∉ w.bubbleIndex →
      ∀ n ∈ other.message, n.1 = got.dialog → got.Within n.2 → id < n.2
  | _ => True

/-- What a handler gets and mounts comes in time, unless the handler was cancelled. -/
def Timely (setup : Setup) (c : WatchedConfig) : Move TaskId TuiEvent → Prop
  | .run t => t ∈ c.shared.1.cancelled ∨ (c.task t).NextIn fun o ↦
    c.shared.1.Ready setup (c.shared.2 t) o ∧
      ∀ u, u ≠ t → c.shared.1.Before (c.shared.2 t) (c.shared.2 u) o
  | .env _ => True

/-! ## What holds meanwhile -/

/-- The bubbles of every dialog ascend, what handlers have got is newer, a page is older than it was
asked for, and the pane is as empty as the handler left it that cleared it last. -/
structure World.Sound (w : World) (hand : TaskId → Hand) : Prop where
  ascending : ∀ d, (w.shownOf d).Pairwise (· < ·)
  message : ∀ t, ∀ m ∈ (hand t).message, ∀ x ∈ w.shownOf m.1, x < m.2
  page : ∀ t, ∀ got ∈ (hand t).page, got.offset ≠ 0 → ∀ id ∈ got.ids, id < got.offset
  cleared : ∀ t, ∀ k ∈ (hand t).cleared, k ≤ w.mounts ∧ (k = w.mounts → w.bubbles = [])

namespace World.Sound

variable {w w' : World} {hand : TaskId → Hand} {t : TaskId} {h' : Hand}

/-- Only the rows matter. -/
theorem congr (h : w.Sound hand) (hbubbles : w'.bubbles = w.bubbles)
    (hmounts : w'.mounts = w.mounts) : w'.Sound hand := by
  have hshown (d : ℤ) : w'.shownOf d = w.shownOf d := by rw [shownOf, shownOf, hbubbles]
  refine ⟨fun d ↦ ?_, fun t m hm ↦ ?_, h.page, fun t k hk ↦ ?_⟩
  · rw [hshown]
    exact h.ascending d
  · rw [hshown]
    exact h.message t m hm
  · rw [hbubbles, hmounts]
    exact h.cleared t k hk

/-- A handler gets something. -/
theorem holds (h : w.Sound hand) (hmessage : ∀ m ∈ h'.message, ∀ x ∈ w.shownOf m.1, x < m.2)
    (hpage : ∀ got ∈ h'.page, got.offset ≠ 0 → ∀ id ∈ got.ids, id < got.offset)
    (hcleared : ∀ k ∈ h'.cleared, k ≤ w.mounts ∧ (k = w.mounts → w.bubbles = [])) :
    w.Sound (Function.update hand t h') := by
  have hupdate (u : TaskId) :
      Function.update hand t h' u = h' ∨ Function.update hand t h' u = hand u := by
    by_cases hu : u = t
    · exact .inl (by rw [hu, Function.update_self])
    · exact .inr (Function.update_of_ne hu ..)
  refine ⟨h.ascending, fun u ↦ ?_, fun u ↦ ?_, fun u ↦ ?_⟩ <;>
    rcases hupdate u with hu | hu <;> rw [hu]
  exacts [hmessage, h.message u, hpage, h.page u, hcleared, h.cleared u]

/-- A handler clears the pane. -/
theorem clears (h : w.Sound hand) (hmessage : h'.message = (hand t).message)
    (hpage : h'.page = (hand t).page) (hcleared : h'.cleared = some w.mounts) :
    ({ w with bubbles := [] } : World).Sound (Function.update hand t h') := by
  have hempty : ({ w with bubbles := [] } : World).Sound hand :=
    ⟨fun _ ↦ List.Pairwise.nil, fun _ _ _ _ hx ↦ (nomatch hx), h.page,
      fun u k hk ↦ ⟨(h.cleared u k hk).1, fun _ ↦ rfl⟩⟩
  refine hempty.holds ?_ ?_ ?_
  · rw [hmessage]
    exact hempty.message t
  · rw [hpage]
    exact h.page t
  · rw [hcleared]
    rintro _ ⟨⟩
    exact ⟨le_refl _, fun _ ↦ rfl⟩

/-- Bubbles of a dialog are mounted, before those that are shown or after them. -/
theorem mounts (h : w.Sound hand) (dialog : ℤ) (new : List ℤ)
    (hcount : w'.mounts = w.mounts + 1)
    (hother : ∀ d, d ≠ dialog → w'.shownOf d = w.shownOf d)
    (hascending : (w'.shownOf dialog).Pairwise (· < ·))
    (hshown : ∀ x ∈ w'.shownOf dialog, x ∈ new ∨ x ∈ w.shownOf dialog)
    (hbefore : ∀ u, u ≠ t → ∀ n ∈ (hand u).message, n.1 = dialog → ∀ id ∈ new, id < n.2)
    (hmessage : h'.message = none) (hpage : h'.page = none ∨ h'.page = (hand t).page)
    (hcleared : h'.cleared = none ∨ h'.cleared = (hand t).cleared) :
    w'.Sound (Function.update hand t h') := by
  have hself : w.Sound (Function.update hand t h') := by
    refine h.holds ?_ ?_ ?_
    · rw [hmessage]
      exact nofun
    · rcases hpage with hpage | hpage <;> rw [hpage]
      · exact nofun
      · exact h.page t
    · rcases hcleared with hcleared | hcleared <;> rw [hcleared]
      · exact nofun
      · exact h.cleared t
  refine ⟨fun d ↦ ?_, fun u m hm x hx ↦ ?_, hself.page, fun u k hk ↦ ?_⟩
  · by_cases hd : d = dialog
    · rw [hd]
      exact hascending
    · rw [hother d hd]
      exact h.ascending d
  · by_cases hd : m.1 = dialog
    · rw [hd] at hx
      rcases hshown x hx with hnew | hold
      · by_cases hu : u = t
        · rw [hu, Function.update_self, hmessage] at hm
          cases hm
        · rw [Function.update_of_ne hu] at hm
          exact hbefore u hu m hm hd x hnew
      · rw [← hd] at hold
        exact hself.message u m hm x hold
    · rw [hother _ hd] at hx
      exact hself.message u m hm x hx
  · obtain ⟨hle, -⟩ := hself.cleared u k hk
    rw [hcount]
    exact ⟨hle.trans (Nat.le_succ _), fun heq ↦ absurd hle (by omega)⟩

end World.Sound

/-! ## One step -/

variable {setup : Setup} {t : TaskId} {w w' : World} {hand : TaskId → Hand}

/-- Nothing is mounted, and nothing removed. -/
def Op.Quiet : Op → Bool
  | .removeChildren | .clearPane _ | .mountHistory .. | .mountTranslated .. | .prepend ..
  | .mountLive _ | .mountSent .. => false
  | _ => true

theorem act_quiet {o : Op} {x : Except Fault (effects.Ret o)} (hquiet : o.Quiet = true)
    (h : act setup t o w = .done x w') : w'.bubbles = w.bubbles ∧ w'.mounts = w.mounts := by
  cases o with
  | removeChildren | clearPane | mountHistory | mountTranslated | prepend | mountLive | mountSent =>
    cases hquiet
  | noteHistory dialog page =>
    cases h
    rw [World.noteHistory]
    cases page.ids.head? <;> exact ⟨rfl, rfl⟩
  | maybeBackfill =>
    cases h
    rw [World.maybeBackfill]
    repeat' split
    all_goals exact ⟨rfl, rfl⟩
  | rememberSent peer id =>
    obtain ⟨-, rfl⟩ := Reply.done.inj h
    dsimp only [World.rememberSent]
    exact ⟨rfl, rfl⟩
  | history | showStatus | maxMessages | translateHistory | send | translateAll | nextIncoming
  | nextOutgoing =>
    rw [act] at h
    split at h <;> cases h <;> exact ⟨rfl, rfl⟩
  | openDialog | begin | isOpen | noteBackfill | release | ensureLang =>
    cases h
    exact ⟨rfl, rfl⟩

theorem mem_ids_ofHistory_lt {server : Server} {dialog offset id : ℤ} {limit : ℕ}
    (hoffset : offset ≠ 0) (hid : id ∈ (Page.ofHistory server dialog limit offset).ids) :
    id < offset := by
  obtain ⟨m, hm, rfl⟩ := List.mem_map.mp hid
  have hm := List.mem_filter.mp ((List.rtake_suffix _ _).subset hm)
  exact (of_decide_eq_true hm.2).resolve_left hoffset

/-- What a handler has after an operation that mounts nothing: it has got a message that arrived, or
a page it asked for, or what it had. -/
theorem next_quiet {o : Op} {x : effects.Ret o} {h : Hand} (hquiet : o.Quiet = true)
    (hdone : act setup t o w = .done (.ok x) w') :
    (h.next w o x).cleared = h.cleared ∧
      ((h.next w o x).message = h.message ∨
        ∃ m ∈ w.arriving setup o, (h.next w o x).message = some (m.dialogId, m.id)) ∧
      ((h.next w o x).page = h.page ∨ ∃ got, (h.next w o x).page = some got ∧
        (got.offset ≠ 0 → ∀ id ∈ got.ids, id < got.offset)) := by
  cases o with
  | removeChildren | clearPane | mountHistory | mountTranslated | prepend | mountLive | mountSent =>
    cases hquiet
  | nextIncoming =>
    cases hincoming : w.incoming with
    | nil =>
      rw [act, hincoming] at hdone
      cases hdone
    | cons m rest =>
      rw [act, hincoming] at hdone
      obtain ⟨hx, -⟩ := Reply.done.inj hdone
      obtain rfl := Except.ok.inj hx
      refine ⟨rfl, .inr ⟨m, ?_, rfl⟩, .inl rfl⟩
      rw [World.arriving, hincoming]
      rfl
  | nextOutgoing =>
    cases houtgoing : w.outgoing with
    | nil =>
      rw [act, houtgoing] at hdone
      cases hdone
    | cons m rest =>
      rw [act, houtgoing] at hdone
      obtain ⟨hx, -⟩ := Reply.done.inj hdone
      obtain rfl := Except.ok.inj hx
      cases hsent : w.notSent m with
      | none => exact ⟨rfl, .inl rfl, .inl rfl⟩
      | some m' =>
        refine ⟨rfl, .inr ⟨m', ?_, rfl⟩, .inl rfl⟩
        rw [World.arriving, houtgoing]
        exact hsent
  | send peer body =>
    rw [act] at hdone
    split at hdone
    · next hok =>
      cases hdone
      exact ⟨rfl, .inr ⟨_, if_pos hok, rfl⟩, .inl rfl⟩
    · cases hdone
  | history dialog limit offset =>
    rw [act] at hdone
    split at hdone
    · cases hdone
    · cases hdone
      exact ⟨rfl, .inl rfl, .inr ⟨_, rfl, fun hoffset _ ↦ mem_ids_ofHistory_lt hoffset⟩⟩
  | translateHistory dialog page =>
    exact ⟨rfl, .inl rfl, .inr ⟨_, rfl, fun hoffset ↦ absurd rfl hoffset⟩⟩
  | _ => exact ⟨rfl, .inl rfl, .inl rfl⟩

/-- What is to arrive is newer than what is shown. -/
theorem World.Ready.arriving {o : Op} (hquiet : o.Quiet = true) {h : Hand}
    (hready : w.Ready setup h o) :
    ∀ m ∈ w.arriving setup o, ∀ x ∈ w.shownOf m.dialogId, x < m.id := by
  cases o with
  | removeChildren | clearPane | mountHistory | mountTranslated | prepend | mountLive | mountSent =>
    cases hquiet
  | _ => exact hready

/-- A handler gets what it may get. -/
theorem quiet_sound {o : Op} {x : Except Fault (effects.Ret o)} (hquiet : o.Quiet = true)
    (hready : w.Ready setup (hand t) o) (hw : w.Sound hand)
    (hdone : act setup t o w = .done x w') :
    w'.Sound (Function.update hand t (watch.next w (hand t) o x)) := by
  obtain ⟨hbubbles, hmounts⟩ := act_quiet hquiet hdone
  refine World.Sound.congr (w := w) ?_ hbubbles hmounts
  cases x with
  | error e =>
    dsimp only [watch]
    rwa [Function.update_eq_self]
  | ok x =>
    obtain ⟨hcleared, hmessage, hpage⟩ := next_quiet (h := hand t) hquiet hdone
    refine hw.holds ?_ ?_ ?_
    · rcases hmessage with hsame | ⟨m, hm, hgot⟩
      · dsimp only [watch]
        rw [hsame]
        exact hw.message t
      · dsimp only [watch]
        rw [hgot]
        rintro _ ⟨⟩
        exact hready.arriving hquiet m hm
    · rcases hpage with hsame | ⟨got, hgot, hids⟩
      · dsimp only [watch]
        rw [hsame]
        exact hw.page t
      · dsimp only [watch]
        rw [hgot]
        rintro _ ⟨⟩
        exact hids
    · dsimp only [watch]
      rw [hcleared]
      exact hw.cleared t

/-- A page replaces what was shown. -/
theorem mountPage_sound {dialog : ℤ} {page : Page} {h' : Hand} (hw : w.Sound hand)
    (hlicensed : (hand t).page = some ⟨dialog, 0, page.ids⟩ ∧ (hand t).cleared.isSome ∧
      (hand t).message = none)
    (hready : ∀ k ∈ (hand t).cleared, k = w.mounts)
    (hbefore : ∀ u, u ≠ t → ∀ got ∈ (hand t).page, ∀ n ∈ (hand u).message, n.1 = got.dialog →
      ∀ id ∈ got.ids, id < n.2)
    (hcleared : h'.cleared = none) (hpage : h'.page = none) (hmessage : h'.message = none) :
    (({ w with bubbleIndex := [] } : World).mount dialog page.messages).Sound
      (Function.update hand t h') := by
  obtain ⟨hgot, hsome, -⟩ := hlicensed
  obtain ⟨k, hk⟩ := Option.isSome_iff_exists.mp hsome
  have hempty : w.bubbles = [] := (hw.cleared t k hk).2 (hready k hk)
  have hnone (d : ℤ) : ({ w with bubbleIndex := [] } : World).shownOf d = [] := by
    rw [World.shownOf, hempty]
    rfl
  refine hw.mounts dialog page.ids rfl ?_ ?_ ?_ ?_ hmessage (.inl hpage)
    (.inl hcleared)
  · intro d hd
    rw [World.shownOf_mount, if_neg hd.symm, List.append_nil]
    rfl
  · rw [World.shownOf_mount, hnone, if_pos rfl]
    exact page.ascending_ids
  · intro x hx
    rw [World.shownOf_mount, hnone, if_pos rfl] at hx
    exact .inl hx
  · exact fun u hu ↦ hbefore u hu _ hgot

/-- A message is mounted after what is shown. -/
theorem mountMessage_sound {dialog : ℤ} {m : Message} {h' : Hand} (hw : w.Sound hand)
    (hlicensed : (hand t).message = some (dialog, m.id)) (hcurrent : w.current = some dialog)
    (hbefore : ∀ u, u ≠ t → ∀ m ∈ (hand t).message, w.current = some m.1 →
      ∀ n ∈ (hand u).message, n.1 = m.1 → m.2 < n.2)
    (hcleared : h'.cleared = (hand t).cleared) (hpage : h'.page = (hand t).page)
    (hmessage : h'.message = none) :
    (w.mount dialog [m]).Sound (Function.update hand t h') := by
  have hnewer := hw.message t _ hlicensed
  refine hw.mounts dialog [m.id] rfl ?_ ?_ ?_ ?_ hmessage (.inr hpage)
    (.inr hcleared)
  · intro d hd
    rw [World.shownOf_mount, if_neg hd.symm, List.append_nil]
  · rw [World.shownOf_mount, if_pos rfl, List.pairwise_append]
    refine ⟨hw.ascending dialog, List.pairwise_singleton _ _, fun x hx id hid ↦ ?_⟩
    rw [List.mem_singleton.mp hid]
    exact hnewer x hx
  · intro x hx
    rw [World.shownOf_mount, if_pos rfl, List.mem_append] at hx
    exact hx.symm
  · intro u hu n hn hdialog id hid
    rw [List.mem_singleton.mp hid]
    exact hbefore u hu _ hlicensed hcurrent n hn hdialog

/-- What a handler has mounted, or has not since another dialog is open, it has no longer. -/
theorem drop_sound {h' : Hand} (hw : w.Sound hand) (hcleared : h'.cleared = (hand t).cleared)
    (hpage : h'.page = none ∨ h'.page = (hand t).page) (hmessage : h'.message = none) :
    w.Sound (Function.update hand t h') := by
  refine hw.holds ?_ ?_ ?_
  · rw [hmessage]
    exact nofun
  · rcases hpage with hpage | hpage <;> rw [hpage]
    · exact nofun
    · exact hw.page t
  · rw [hcleared]
    exact hw.cleared t

/-- What is new of an older page is mounted before what is shown. -/
theorem prepend_sound {dialog offset : ℤ} {older : Page} {h' : Hand} (hw : w.Sound hand)
    (hgot : (hand t).page = some ⟨dialog, offset, older.ids⟩)
    (hready : ∀ got ∈ (hand t).page, w.current = some got.dialog → ∀ id ∈ got.ids,
      id ∉ w.bubbleIndex → ∀ x ∈ w.shownOf got.dialog, got.Within x → id < x)
    (hbefore : ∀ u, u ≠ t → ∀ got ∈ (hand t).page, w.current = some got.dialog → ∀ id ∈ got.ids,
      id ∉ w.bubbleIndex → ∀ n ∈ (hand u).message, n.1 = got.dialog → got.Within n.2 → id < n.2)
    (hcleared : h'.cleared = (hand t).cleared) (hpage : h'.page = none)
    (hmessage : h'.message = none) :
    (w.prepend dialog older).2.Sound (Function.update hand t h') := by
  have hdropped : w.Sound (Function.update hand t h') :=
    drop_sound hw hcleared (.inl hpage) hmessage
  rw [World.prepend]
  split
  · next hcurrent =>
    split
    · exact hdropped.congr rfl rfl
    · -- An id of the page is older than one that the page goes past.
      have hlt {id x : ℤ} (hid : id ∈ older.ids)
          (hwithin : (⟨dialog, offset, older.ids⟩ : Got).Within x → id < x) : id < x := by
        by_cases hx : offset = 0 ∨ x < offset
        · exact hwithin hx
        · obtain ⟨hoffset, hx⟩ := not_or.mp hx
          exact (hw.page t _ hgot hoffset id hid).trans_le (Int.not_lt.mp hx)
      refine hw.mounts dialog (older.fresh w.bubbleIndex).ids rfl ?_ ?_ ?_ ?_
        hmessage (.inl hpage) (.inr hcleared)
      · intro d hd
        dsimp only
        rw [World.shownOf_mountBefore, if_neg hd.symm, List.nil_append]
      · dsimp only
        rw [World.shownOf_mountBefore, if_pos rfl, List.pairwise_append]
        refine ⟨Page.ascending_ids _, hw.ascending dialog, fun id hid x hx ↦ ?_⟩
        obtain ⟨hid, hindex⟩ := Page.mem_ids_fresh.mp hid
        exact hlt hid (hready _ hgot hcurrent id hid hindex x hx)
      · intro x hx
        dsimp only at hx
        rw [World.shownOf_mountBefore, if_pos rfl, List.mem_append] at hx
        exact hx
      · intro u hu n hn hdialog id hid
        obtain ⟨hid, hindex⟩ := Page.mem_ids_fresh.mp hid
        exact hlt hid (hbefore u hu _ hgot hcurrent id hid hindex n hn hdialog)
  · exact hdropped

/-- What a handler does in time. -/
theorem act_sound {o : Op} {x : Except Fault (effects.Ret o)} (hlicensed : (hand t).Licensed o)
    (hready : w.Ready setup (hand t) o)
    (hbefore : ∀ u, u ≠ t → w.Before (hand t) (hand u) o) (hw : w.Sound hand)
    (hdone : act setup t o w = .done x w') :
    w'.Sound (Function.update hand t (watch.next w (hand t) o x)) := by
  cases o with
  | removeChildren =>
    cases hdone
    exact hw.clears rfl rfl rfl
  | clearPane dialog =>
    rw [act] at hdone
    split at hdone
    · cases hdone
      exact hw.clears rfl rfl rfl
    · cases hdone
      dsimp only [watch, Hand.next]
      rwa [Function.update_eq_self]
  | mountHistory dialog page | mountTranslated dialog page =>
    cases hdone
    exact mountPage_sound hw hlicensed hready hbefore rfl rfl hlicensed.2.2
  | prepend dialog older =>
    cases hdone
    obtain ⟨⟨offset, hgot⟩, hmessage⟩ := hlicensed
    exact prepend_sound hw hgot hready hbefore rfl rfl hmessage
  | mountLive m =>
    cases hdone
    split
    · next hcurrent => exact mountMessage_sound hw hlicensed hcurrent hbefore rfl rfl rfl
    · refine drop_sound (t := t) hw ?_ (.inr ?_) ?_ <;> rfl
  | mountSent peer m =>
    cases hdone
    rw [World.mountSent]
    split
    · next hcurrent => exact mountMessage_sound hw hlicensed hcurrent hbefore rfl rfl rfl
    · refine World.Sound.congr (w := w) ?_ rfl rfl
      refine drop_sound (t := t) hw ?_ (.inr ?_) ?_ <;> rfl
  | _ => exact quiet_sound rfl hready hw hdone

/-- A handler that is cancelled keeps what it has. -/
theorem handle_sound {o : Op} {x : Except Fault (effects.Ret o)} (hlicensed : (hand t).Licensed o)
    (htimely : t ∈ w.cancelled ∨
      w.Ready setup (hand t) o ∧ ∀ u, u ≠ t → w.Before (hand t) (hand u) o)
    (hw : w.Sound hand) (hdone : handle setup t o w = .done x w') :
    w'.Sound (Function.update hand t (watch.next w (hand t) o x)) := by
  rw [handle] at hdone
  split at hdone
  · cases hdone
    dsimp only [watch]
    rwa [Function.update_eq_self]
  · next hgoing =>
    rcases htimely with hcancelled | ⟨hready, hbefore⟩
    · obtain ⟨dialog, rfl⟩ : ∃ dialog, o = .release dialog := by
        have hshielded : o.Shielded := not_not.mp fun h ↦ hgoing ⟨hcancelled, h⟩
        cases o with
        | release dialog => exact ⟨dialog, rfl⟩
        | _ => cases hshielded
      exact quiet_sound rfl (fun _ hm ↦ absurd hm (Option.not_mem_none _)) hw hdone
    · exact act_sound hlicensed hready hbefore hw hdone

/-- What happens on the server shows nothing. -/
theorem env_sound {e : TuiEvent} (hw : w.Sound hand) (h : (system setup).env e w = some w') :
    w'.Sound hand := by
  cases e with
  | receive m =>
    dsimp only [system] at h
    split at h
    · cases h
      exact hw.congr rfl rfl
    · cases h
  | server e =>
    obtain ⟨s, -, rfl⟩ := Option.map_eq_some_iff.mp h
    exact hw.congr rfl rfl

/-! ## What a handler mounts it has got -/

section Programs

variable {α : Type} {h : Hand}

/-- What a coroutine has got when it returns. -/
abbrev Leaves (p : TuiProg α) (h : Hand) (R : α → Hand → Prop) : Prop := p.Leaves watch h R

theorem leaves_perform {o : Op} {R : effects.Ret o → Hand → Prop} (hlicensed : h.Licensed o)
    (hnext : ∀ w x, R x (h.next w o x)) : Leaves (perform o) h R :=
  Prog.Leaves.perform hlicensed hnext

/-- What an operation that is licensed anyway leaves. -/
theorem leaves_any {o : Op} (hlicensed : h.Licensed o) :
    Leaves (perform o) h fun _ _ ↦ True := leaves_perform hlicensed fun _ _ ↦ trivial

/-- `try … except Exception:` returns what it comes to, or nothing. -/
theorem attempt_leaves {p : TuiProg α} {R : α → Hand → Prop} (hp : Leaves p h R) :
    Leaves (attempt p) h fun r h ↦ ∀ a ∈ r, R a h := by
  refine Prog.Leaves.rescue ?_ ?_
  · refine Prog.Leaves.bind hp fun a h ha ↦ ?_
    rintro _ ⟨⟩
    exact ha
  · rintro (_ | _) h
    · exact .raise ..
    · exact nofun

theorem showHistory_leaves (dialog : ℤ) (h : Hand) (hmessage : h.message = none) :
    Leaves (showHistory dialog) h fun _ _ ↦ True := by
  refine Prog.Leaves.bind (R := fun _ h ↦ h.cleared.isSome ∧ h.message = none)
    (leaves_perform trivial fun _ _ ↦ ⟨rfl, hmessage⟩) ?_
  rintro _ h ⟨hcleared, hmessage⟩
  refine Prog.Leaves.bind (attempt_leaves (R := fun page h ↦
    h.page = some ⟨dialog, 0, page.ids⟩ ∧ h.cleared.isSome ∧ h.message = none)
    (leaves_perform trivial fun _ _ ↦ ⟨rfl, hcleared, hmessage⟩)) ?_
  rintro (_ | page) h hpage
  · trivial
  · exact Prog.Leaves.bind (leaves_any (hpage page rfl)) fun _ _ _ ↦ leaves_any trivial

theorem openDialog_leaves (dialog : ℤ) (h : Hand) (hmessage : h.message = none) :
    Leaves (openDialog dialog) h fun _ _ ↦ True :=
  Prog.Leaves.bind_of_same trivial (fun _ _ ↦ rfl) fun _ ↦ showHistory_leaves dialog h hmessage

theorem backfillHistory_leaves (dialog offset : ℤ) (h : Hand) (hmessage : h.message = none) :
    Leaves (backfillHistory dialog offset) h fun _ _ ↦ True := by
  refine Prog.Leaves.bind_of_same trivial (fun _ _ ↦ rfl) fun _ ↦ ?_
  refine Prog.Leaves.always (R := fun _ _ ↦ True) ?_ fun _ ↦ leaves_any trivial
  refine Prog.Leaves.bind_of_same trivial (fun _ _ ↦ rfl) fun isOpen ↦ ?_
  split
  · refine Prog.Leaves.bind (attempt_leaves (R := fun older h ↦
      (∃ offset, h.page = some ⟨dialog, offset, older.ids⟩) ∧ h.message = none)
      (leaves_perform trivial fun _ _ ↦ ⟨⟨offset, rfl⟩, hmessage⟩)) ?_
    rintro (_ | older) h hpage
    · trivial
    · refine Prog.Leaves.bind (leaves_any (hpage older rfl)) fun oldest _ _ ↦ ?_
      cases oldest with
      | none => trivial
      | some oldest => exact leaves_any trivial
  · trivial

theorem maybeBackfillHistory_leaves (h : Hand) (hmessage : h.message = none) :
    Leaves maybeBackfillHistory h fun _ _ ↦ True := by
  refine Prog.Leaves.bind_of_same trivial (fun _ _ ↦ rfl) fun due ↦ ?_
  split
  · trivial
  · exact backfillHistory_leaves _ _ h hmessage

theorem translateWholeDialog_leaves (dialog : ℤ) (h : Hand) (hmessage : h.message = none) :
    Leaves (translateWholeDialog dialog) h fun _ _ ↦ True := by
  have hclear (h : Hand) (hmessage : h.message = none) :
      Leaves (perform (.clearPane dialog)) h fun isOpen h' ↦ h'.message = none ∧
        h'.page = h.page ∧ (isOpen = true → h'.cleared.isSome) := by
    refine leaves_perform trivial fun w isOpen ↦ ?_
    cases isOpen
    · exact ⟨hmessage, rfl, nofun⟩
    · exact ⟨hmessage, rfl, fun _ ↦ rfl⟩
  refine (hclear h hmessage).bind ?_
  rintro isOpen h ⟨hmessage, -, -⟩
  split
  · refine Prog.Leaves.bind_of_same trivial (fun _ _ ↦ rfl) fun isOpen ↦ ?_
    split
    · refine Prog.Leaves.bind (attempt_leaves (R := fun _ _ ↦ True) ?_) fun _ _ _ ↦ trivial
      refine Prog.Leaves.bind_of_same trivial (fun _ _ ↦ rfl) fun cap ↦ ?_
      refine Prog.Leaves.bind (R := fun _ h ↦ h.message = none)
        (leaves_perform trivial fun _ _ ↦ hmessage) fun page h hmessage ↦ ?_
      refine Prog.Leaves.bind (R := fun translated h ↦
        h.page = some ⟨dialog, 0, translated.ids⟩ ∧ h.message = none)
        (leaves_perform trivial fun _ _ ↦ ⟨rfl, hmessage⟩) ?_
      rintro translated h ⟨hgot, hmessage⟩
      refine (hclear h hmessage).bind ?_
      rintro isOpen h' ⟨hmessage, hpage, hcleared⟩
      split
      · next hopen => exact leaves_any ⟨hpage.trans hgot, hcleared hopen, hmessage⟩
      · trivial
    · trivial
  · trivial

theorem actionTranslateAll_leaves (h : Hand) (hmessage : h.message = none) :
    Leaves actionTranslateAll h fun _ _ ↦ True := by
  refine Prog.Leaves.bind_of_same trivial (fun _ _ ↦ rfl) fun current ↦ ?_
  split
  · trivial
  · refine Prog.Leaves.bind_of_same trivial (fun _ _ ↦ rfl) fun ready ↦ ?_
    split
    · exact translateWholeDialog_leaves _ h hmessage
    · trivial

/-- A listener mounts what it has taken. -/
theorem drainIncoming_leaves (turns : ℕ) (h : Hand) :
    Leaves (drainIncoming turns) h fun _ _ ↦ True := by
  induction turns generalizing h with
  | zero => trivial
  | succ turns ih =>
    refine Prog.Leaves.bind (R := fun m h ↦ h.message = some (m.dialogId, m.id))
      (leaves_perform trivial fun _ _ ↦ rfl) fun m h hm ↦ ?_
    exact Prog.Leaves.bind (leaves_any hm) fun _ h _ ↦ ih h

theorem drainOutgoing_leaves (turns : ℕ) (h : Hand) :
    Leaves (drainOutgoing turns) h fun _ _ ↦ True := by
  induction turns generalizing h with
  | zero => trivial
  | succ turns ih =>
    refine Prog.Leaves.bind (R := fun r h ↦ ∀ m ∈ r, h.message = some (m.dialogId, m.id)) ?_ ?_
    · refine leaves_perform trivial fun w r ↦ ?_
      rintro m ⟨⟩
      rfl
    · rintro (_ | m) h hm
      · exact ih h
      · exact Prog.Leaves.bind (leaves_any (hm m rfl)) fun _ h _ ↦ ih h

/-- A text or a file that was sent is mounted. -/
theorem deliver_leaves (peer : ℤ) (body : Body) (h : Hand) :
    Leaves (deliver peer body) h fun _ _ ↦ True := by
  refine Prog.Leaves.bind (attempt_leaves (R := fun m h ↦ h.message = some (peer, m.id))
    (leaves_perform trivial fun _ _ ↦ rfl)) ?_
  rintro (_ | m) h hm
  · trivial
  · exact Prog.Leaves.bind_of_same trivial (fun _ _ ↦ rfl) fun _ ↦ leaves_any (hm m rfl)

/-- Every coroutine of the client mounts what it has got. -/
theorem tasks_leaves (tasks : Tasks) (t : TaskId) :
    Leaves (tasks.prog t) .empty fun _ _ ↦ True := by
  cases t with
  | incoming => exact drainIncoming_leaves ..
  | outgoing => exact drainOutgoing_leaves ..
  | action n =>
    rw [Tasks.prog]
    cases tasks.actions n with
    | sendText peer text => exact deliver_leaves ..
    | sendMedia peer path caption => exact deliver_leaves ..
    | look gesture =>
      cases gesture with
      | openDialog dialog => exact openDialog_leaves dialog _ rfl
      | wheelUp => exact maybeBackfillHistory_leaves _ rfl
      | translateAll => exact actionTranslateAll_leaves _ rfl

end Programs

/-! ## Every run -/

/-- In every run in which what handlers get and mount comes in time, the bubbles of the open dialog
ascend, and so no id is there twice. -/
theorem bubbles_ordered {server : Server} {tasks : Tasks} {c : WatchedConfig}
    (hrun : Reaches (watched setup) (Timely setup) (begun server tasks) c) :
    c.shared.1.shown.Nodup ∧ c.shared.1.shown.Pairwise (· < ·) := by
  have hsound : Abiding watch c ∧ c.shared.1.Sound c.shared.2 := by
    refine hrun.preserves (I := fun c ↦ Abiding watch c ∧ c.shared.1.Sound c.shared.2) ?_ ⟨?_, ?_⟩
    · rintro c c' m ⟨habides, hc⟩ htimely hs
      refine ⟨habides.step hs, ?_⟩
      rcases Config.step_cases hs with ⟨t, o, k, x, s, rfl, hp, hr, rfl⟩ |
        ⟨t, o, k, s, -, -, hr, -⟩ | ⟨e, s, rfl, he, rfl⟩
      · obtain ⟨hdone, hnote⟩ := handle_watched hr
        rw [Timely, hp] at htimely
        rw [hnote]
        exact handle_sound (habides.legal hp) htimely hc hdone
      · exact absurd (parked_watched hr).1 handle_ne_parked
      · obtain ⟨henv, hnote⟩ := env_watched he
        rw [hnote]
        exact env_sound hc henv
    · exact fun t ↦ (tasks_leaves tasks t).abides
    · exact ⟨fun _ ↦ .nil, nofun, nofun, nofun⟩
  have hascending : c.shared.1.shown.Pairwise (· < ·) := by
    rw [World.shown]
    cases c.shared.1.current with
    | none => exact .nil
    | some dialog => exact hsound.2.ascending dialog
  exact ⟨hascending.imp ne_of_lt, hascending⟩

/-! ## Bubbles that are not in order -/

instance (got : Got) (id : ℤ) : Decidable (got.Within id) := inferInstanceAs (Decidable (_ ∨ _))

instance (w : World) (setup : Setup) (h : Hand) : DecidablePred (w.Ready setup h)
  | .mountHistory .. | .mountTranslated .. =>
    inferInstanceAs (Decidable (∀ k ∈ h.cleared, k = w.mounts))
  | .prepend .. =>
    inferInstanceAs (Decidable (∀ got ∈ h.page, w.current = some got.dialog → ∀ id ∈ got.ids,
      id ∉ w.bubbleIndex → ∀ x ∈ w.shownOf got.dialog, got.Within x → id < x))
  | .openDialog _ | .removeChildren | .history .. | .noteHistory .. | .maybeBackfill | .begin
  | .isOpen _ | .noteBackfill .. | .release _ | .translateAll | .ensureLang | .clearPane _
  | .showStatus _ | .maxMessages | .translateHistory .. | .nextIncoming | .nextOutgoing
  | .mountLive _ | .send .. | .rememberSent .. | .mountSent .. =>
    inferInstanceAs (Decidable (∀ m ∈ w.arriving setup _, ∀ x ∈ w.shownOf m.dialogId, x < m.id))

instance (w : World) (h other : Hand) : DecidablePred (w.Before h other)
  | .mountLive _ | .mountSent .. =>
    inferInstanceAs (Decidable (∀ m ∈ h.message, w.current = some m.1 →
      ∀ n ∈ other.message, n.1 = m.1 → m.2 < n.2))
  | .mountHistory .. | .mountTranslated .. =>
    inferInstanceAs (Decidable (∀ got ∈ h.page, ∀ n ∈ other.message, n.1 = got.dialog →
      ∀ id ∈ got.ids, id < n.2))
  | .prepend .. =>
    inferInstanceAs (Decidable (∀ got ∈ h.page, w.current = some got.dialog → ∀ id ∈ got.ids,
      id ∉ w.bubbleIndex → ∀ n ∈ other.message, n.1 = got.dialog → got.Within n.2 → id < n.2))
  | .openDialog _ | .removeChildren | .history .. | .noteHistory .. | .maybeBackfill | .begin
  | .isOpen _ | .noteBackfill .. | .release _ | .translateAll | .ensureLang | .clearPane _
  | .showStatus _ | .maxMessages | .translateHistory .. | .nextIncoming | .nextOutgoing
  | .send .. | .rememberSent .. => inferInstanceAs (Decidable True)

/-- Only these handlers go on, and what they get and mount comes in time. -/
def TimelyAmong (us : List TaskId) (setup : Setup) (c : WatchedConfig) :
    Move TaskId TuiEvent → Prop
  | .run t => t ∈ us ∧ (c.task t).NextIn fun o ↦
    c.shared.1.Ready setup (c.shared.2 t) o ∧
      ∀ u ∈ us, u ≠ t → c.shared.1.Before (c.shared.2 t) (c.shared.2 u) o
  | .env _ => True

instance (us : List TaskId) (setup : Setup) (c : WatchedConfig) :
    DecidablePred (TimelyAmong us setup c)
  | .run _ => inferInstanceAs (Decidable (_ ∧ Prog.NextIn _ _))
  | .env _ => inferInstanceAs (Decidable True)

/-- Handlers that have not begun have got nothing. -/
theorem timely_of_among {us : List TaskId} {server : Server} {tasks : Tasks} {c : WatchedConfig}
    (hrun : Reaches (watched setup) (TimelyAmong us setup) (begun server tasks) c) :
    Reaches (watched setup) (Timely setup) (begun server tasks) c := by
  refine Machine.Runs.mono_of_preserves (I := fun c ↦ ∀ u, u ∉ us → c.shared.2 u = .empty) ?_ ?_
    hrun fun _ _ ↦ rfl
  · intro c c' m hnone hamong hs u hu
    rcases Config.step_cases hs with ⟨t, o, k, x, s, rfl, -, hr, rfl⟩ |
      ⟨t, o, k, s, -, -, hr, -⟩ | ⟨e, s, rfl, he, rfl⟩
    · dsimp only
      rw [(handle_watched hr).2, Function.update_of_ne fun h : u = t ↦ hu (h ▸ hamong.1)]
      exact hnone u hu
    · exact absurd (parked_watched hr).1 handle_ne_parked
    · dsimp only
      rw [(env_watched he).2]
      exact hnone u hu
  · rintro c (t | e) hnone hamong
    · refine .inr (hamong.2.mono fun o ⟨hready, hbefore⟩ ↦ ⟨hready, fun u hu ↦ ?_⟩)
      by_cases hmem : u ∈ us
      · exact hbefore u hmem hu
      · rw [hnone u hmem]
        cases o with
        | mountLive | mountSent => exact fun _ _ _ _ hn ↦ nomatch hn
        | mountHistory | mountTranslated => exact fun _ _ _ hn ↦ nomatch hn
        | prepend => exact fun _ _ _ _ _ _ _ hn ↦ nomatch hn
        | _ => trivial
    · trivial

/-- A message of dialog 7 that is received. -/
def received (id : ℤ) : Message := { id, dialogId := 7, senderId := 2, out := false, date := "" }

/-- Dialog 7 is opened, and a text is sent to it. -/
def openAndSend : Tasks where
  incoming := 1
  outgoing := 1
  actions
    | 0 => .look (.openDialog 7)
    | _ => .sendText 7 "hi"

/-- The handlers of `openAndSend`. -/
def openAndSendTasks : List TaskId := [.incoming, .outgoing, .action 0, .action 1]

/-- Every handler is over before the next begins. -/
theorem bubbles_ordered_of_turns :
    ∃ c, Reaches (watched (online 100)) (Timely (online 100))
        (begun (.ofIds 7 [3, 4]) openAndSend) c ∧
      c.shared.1.shown = [3, 4, 5, 6] ∧ c.shared.1.shown.Nodup ∧
      c.shared.1.shown.Pairwise (· < ·) := by
  have hexec : ((Machine.guarded (Config.step (watched (online 100)))
      (TimelyAmong openAndSendTasks (online 100))).exec
      (begun (.ofIds 7 [3, 4]) openAndSend)
      (moves (.action 0) 5 ++ moves (.action 1) 3 ++ moves .outgoing 1 ++
        .env (.receive (received 6)) :: moves .incoming 2)).any
        (fun c ↦ c.shared.1.shown = [3, 4, 5, 6]) = true := by
    decide +kernel
  obtain ⟨c, hrun, hshown⟩ := Machine.exists_run_of_exec hexec
  exact ⟨c, timely_of_among hrun, hshown, bubbles_ordered (timely_of_among hrun)⟩

/-- The echo of a text comes before `send_text` returns; and a message is received while the
history is loaded. -/
theorem bubbles_disordered :
    (∃ c, Reaches (watched (online 100)) anyMove (begun (.ofIds 7 [3, 4]) openAndSend) c ∧
      ((c.task (.action 0)).hasEnded && (c.task (.action 1)).hasEnded &&
        (c.task .outgoing).hasEnded) = true ∧ c.shared.1.shown = [3, 4, 5, 5]) ∧
    ∃ c, Reaches (watched (online 100)) anyMove (begun (.ofIds 7 [3, 4]) openAndSend) c ∧
      ((c.task (.action 0)).hasEnded && (c.task .incoming).hasEnded) = true ∧
      c.shared.1.shown = [6, 3, 4] := by
  constructor
  · have hexec : ((Machine.guarded (Config.step (watched (online 100))) fun _ _ ↦ True).exec
        (begun (.ofIds 7 [3, 4]) openAndSend)
        (moves (.action 0) 5 ++ moves (.action 1) 1 ++ moves .outgoing 2 ++
          moves (.action 1) 2)).any (fun c ↦
            ((c.task (.action 0)).hasEnded && (c.task (.action 1)).hasEnded &&
              (c.task .outgoing).hasEnded) = true ∧ c.shared.1.shown = [3, 4, 5, 5]) = true := by
      decide +kernel
    obtain ⟨c, hrun, h⟩ := Machine.exists_run_of_exec hexec
    exact ⟨c, hrun, h⟩
  · have hexec : ((Machine.guarded (Config.step (watched (online 100))) fun _ _ ↦ True).exec
        (begun (.ofIds 7 [3, 4]) openAndSend)
        (moves (.action 0) 3 ++ .env (.receive (received 6)) :: moves .incoming 2 ++
          moves (.action 0) 2)).any (fun c ↦
            ((c.task (.action 0)).hasEnded && (c.task .incoming).hasEnded) = true ∧
              c.shared.1.shown = [6, 3, 4]) = true := by
      decide +kernel
    obtain ⟨c, hrun, h⟩ := Machine.exists_run_of_exec hexec
    exact ⟨c, hrun, h⟩

end TgMessenger.Tui
