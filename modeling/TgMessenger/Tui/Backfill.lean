import TgMessenger.Asyncio.Keeps
import TgMessenger.Tui.Pane
import Mathlib.Data.List.Infix

/-!
# Paging back through a dialog

`_oldest_message_id` is the oldest message that is shown, and a dialog is marked exhausted at the
id it had when nothing older came.  Opening a dialog and paging back move it with what they mount.
`_translate_whole_dialog` replaces what is shown and leaves it where it was.

While the server stands still, what is shown of the open dialog is a contiguous run of its history,
and paging is refused only when this run begins the history, in every run in which the pass finds
the cursor where its page begins.
-/

namespace TgMessenger.Tui

open Asyncio
open MessageStore (Server)

/-! ## The condition -/

namespace World

/-- Paging is refused, because the dialog is marked exhausted at the cursor. -/
def Refused (w : World) : Prop :=
  w.oldestMessageId ≠ none ∧ w.current.bind w.backfillExhausted = w.oldestMessageId

instance (w : World) : Decidable w.Refused := inferInstanceAs (Decidable (_ ∧ _))

/-- A pass mounts its page where its dialog is still open, nothing of it is shown and the cursor
names the first message of the page; the cursor moves back to the message that is shown first; and
a wheel-up that is refused finds something shown. -/
def Aligned (w : World) : Op → Prop
  | .noteBackfill _ oldest _ => w.shown = [] ∨ w.shown.head? = some oldest
  | .mountTranslated dialog page =>
    w.current = some dialog ∧ w.shown = [] ∧ w.oldestMessageId = page.ids.head?
  | .maybeBackfill => w.Refused → w.shown ≠ []
  | _ => True

instance (w : World) : DecidablePred w.Aligned
  | .noteBackfill .. => inferInstanceAs (Decidable (_ ∨ _))
  | .mountTranslated .. => inferInstanceAs (Decidable (_ ∧ _ ∧ _))
  | .maybeBackfill => inferInstanceAs (Decidable (w.Refused → ¬w.shown = []))
  | .openDialog _ | .removeChildren | .history .. | .mountHistory .. | .noteHistory .. | .begin
  | .isOpen _ | .prepend .. | .release _ | .translateAll | .ensureLang | .clearPane _
  | .showStatus _ | .maxMessages | .translateHistory .. | .nextIncoming | .nextOutgoing
  | .mountLive _ | .send .. | .rememberSent .. | .mountSent .. =>
    inferInstanceAs (Decidable True)

end World

/-- An operation is aligned, unless its worker was cancelled. -/
def InStep (t : TaskId) (o : Op) (w : World) : Prop := t ∈ w.cancelled ∨ w.Aligned o

instance (t : TaskId) (o : Op) (w : World) : Decidable (InStep t o w) :=
  inferInstanceAs (Decidable (_ ∨ _))

/-- A move executes an aligned operation. -/
def Steady (c : TuiConfig) (m : Move TaskId Empty) : Prop := Permitted InStep c m

instance (c : TuiConfig) (m : Move TaskId Empty) : Decidable (Steady c m) :=
  inferInstanceAs (Decidable (Permitted InStep c m))

/-! ## What stays true -/

/-- The ids of a dialog on the server. -/
def serverIds (s : Server) (dialog : ℤ) : List ℤ := (s.live dialog).map Message.id

theorem ascending_serverIds (s : Server) (dialog : ℤ) :
    (serverIds s dialog).Pairwise (· < ·) := List.pairwise_map.mpr (s.ascending dialog)

/-- What is shown of a dialog begins at an id, if anything is, and nothing before it is indexed. -/
def World.BeginsAt (w : World) (dialog id : ℤ) : Prop :=
  (w.shownOf dialog = [] ∨ (w.shownOf dialog).head? = some id) ∧ ∀ i ∈ w.bubbleIndex, id ≤ i

/-- What holds in every run. -/
structure Faithful (s : Server) (w : World) : Prop where
  server : w.server = s
  /-- What is shown of a dialog is a run of its history. -/
  runs : ∀ d, w.shownOf d <:+: serverIds s d
  /-- A mark names the first message of its dialog. -/
  marks : ∀ d id, w.backfillExhausted d = some id → (serverIds s d).head? = some id
  /-- The cursor is shown, or comes after all that is. -/
  cursor : ∀ d id, w.current = some d → w.oldestMessageId = some id →
    id ∈ serverIds s d ∧ ((∀ x ∈ w.shownOf d, x < id) ∨ id ∈ w.shownOf d)
  /-- While no worker pages back, what is shown begins at the cursor. -/
  settled : ∀ d id, w.current = some d → w.oldestMessageId = some id →
    (∀ u, w.backfilling d = some u → u ∈ w.cancelled) → w.BeginsAt d id
  /-- A worker that pages back is the last of its group, or was cancelled. -/
  holders : ∀ d u, w.backfilling d = some u →
    u ∈ w.cancelled ∨ w.groups .historyBackfill = some u
  /-- A worker is in one group. -/
  apart : ∀ g g' u, w.groups g = some u → w.groups g' = some u → g = g'

/-- What worker `u` relies on when the others move. -/
structure Others (s : Server) (u : TaskId) (w w' : World) : Prop where
  faithful : Faithful s w'
  cancelled : w.cancelled ⊆ w'.cancelled
  /-- Nobody puts `u` in a group. -/
  unused : ∀ g, w'.groups g = some u → w.groups g = some u
  /-- Nobody takes a dialog from `u` in which it pages back. -/
  holds : ∀ d, w.backfilling d = some u → w'.backfilling d = some u
  /-- The dialog that `u` opens stays open, and nothing is mounted before it has a cursor. -/
  history : w.groups .history = some u → u ∉ w'.cancelled →
    w'.groups .history = some u ∧ w'.current = w.current ∧
      (w.oldestMessageId = none → w'.oldestMessageId = none ∧
        (∀ d, w.current = some d → w'.shownOf d = w.shownOf d ∨ w'.shownOf d = []) ∧
        ∀ i ∈ w'.bubbleIndex, i ∈ w.bubbleIndex)
  /-- The dialog in which `u` pages back stays open, with the cursor. -/
  backfill : w.groups .historyBackfill = some u → u ∉ w'.cancelled →
    w'.groups .historyBackfill = some u ∧ w'.current = w.current ∧
      ∀ d id, w.current = some d → w.oldestMessageId = some id →
        w'.oldestMessageId = some id ∧
        (w'.shownOf d = w.shownOf d ∨ w'.shownOf d = [] ∨ (w'.shownOf d).head? = some id) ∧
        ∀ i ∈ w'.bubbleIndex, i ∈ w.bubbleIndex ∨ id ≤ i

/-- What every worker keeps, and relies on. -/
def discipline (s : Server) : Discipline TaskId World where
  inv := Faithful s
  others := Others s
  inv_of_others _ _ _ h := h.faithful

/-- What a move of `t` guarantees. -/
abbrev Guarantee (s : Server) (t : TaskId) (w w' : World) : Prop :=
  (discipline s).Guarantee t w w'

/-- Worker `t` has not started. -/
def Unused (t : TaskId) (w : World) : Prop := ∀ g, w.groups g ≠ some t

/-- Worker `t` opens dialog `d`, which has no cursor yet. -/
def Opening (t : TaskId) (d : ℤ) (w : World) : Prop :=
  t ∉ w.cancelled → w.groups .history = some t ∧ w.current = some d ∧
    w.oldestMessageId = none ∧ w.bubbleIndex = []

/-- Worker `t` opens dialog `d`, of which some ids are shown, or nothing. -/
def Loading (t : TaskId) (d : ℤ) (ids : List ℤ) (w : World) : Prop :=
  t ∉ w.cancelled →
    (w.groups .history = some t ∧ w.current = some d ∧ w.oldestMessageId = none) ∧
    (w.shownOf d = ids ∨ w.shownOf d = []) ∧ ∀ i ∈ w.bubbleIndex, i ∈ ids

/-- Worker `t` is to page back in dialog `d` from the cursor. -/
def Paging (t : TaskId) (d offset : ℤ) (w : World) : Prop :=
  w.backfilling d = some t ∧
  (t ∉ w.cancelled →
    (w.groups .historyBackfill = some t ∧ w.current = some d ∧
      w.oldestMessageId = some offset) ∧ w.BeginsAt d offset)

/-- Worker `t` has paged back in dialog `d`, and has not moved the cursor yet. -/
def Paged (t : TaskId) (d oldest : ℤ) (w : World) : Prop :=
  w.backfilling d = some t ∧
  (t ∉ w.cancelled →
    (w.groups .historyBackfill = some t ∧ w.current = some d) ∧
    (∃ id, w.oldestMessageId = some id ∧ oldest ≤ id) ∧ ∀ i ∈ w.bubbleIndex, oldest ≤ i)

variable {s : Server} {t u : TaskId} {d offset : ℤ}

theorem stable_unused : (discipline s).Stable t (Unused t) := by
  rintro w w' - hunused hothers g hg
  exact hunused g (hothers.unused g hg)

theorem stable_opening : (discipline s).Stable t (Opening t d) := by
  rintro w w' - hopening hothers ht
  obtain ⟨hgroup, hcurrent, holdest, hindex⟩ := hopening fun h ↦ ht (hothers.cancelled h)
  obtain ⟨hgroup', hcurrent', hrest⟩ := hothers.history hgroup ht
  obtain ⟨holdest', -, hindex'⟩ := hrest holdest
  refine ⟨hgroup', hcurrent'.trans hcurrent, holdest', List.eq_nil_iff_forall_not_mem.mpr ?_⟩
  intro i hi
  exact List.eq_nil_iff_forall_not_mem.mp hindex i (hindex' i hi)

theorem stable_loading {ids : List ℤ} : (discipline s).Stable t (Loading t d ids) := by
  rintro w w' - hloading hothers ht
  obtain ⟨⟨hgroup, hcurrent, holdest⟩, hshown, hindex⟩ :=
    hloading fun h ↦ ht (hothers.cancelled h)
  obtain ⟨hgroup', hcurrent', hrest⟩ := hothers.history hgroup ht
  obtain ⟨holdest', hshown', hindex'⟩ := hrest holdest
  refine ⟨⟨hgroup', hcurrent'.trans hcurrent, holdest'⟩, ?_, fun i hi ↦ hindex i (hindex' i hi)⟩
  rcases hshown' d hcurrent with hsame | hnil
  · rw [hsame]
    exact hshown
  · exact .inr hnil

theorem stable_paging : (discipline s).Stable t (Paging t d offset) := by
  rintro w w' - ⟨hholds, hpaging⟩ hothers
  refine ⟨hothers.holds d hholds, fun ht ↦ ?_⟩
  obtain ⟨⟨hgroup, hcurrent, holdest⟩, hshown, hindex⟩ :=
    hpaging fun h ↦ ht (hothers.cancelled h)
  obtain ⟨hgroup', hcurrent', hrest⟩ := hothers.backfill hgroup ht
  obtain ⟨holdest', hshown', hindex'⟩ := hrest d offset hcurrent holdest
  refine ⟨⟨hgroup', hcurrent'.trans hcurrent, holdest'⟩, ?_, ?_⟩
  · rcases hshown' with hsame | hnil | hhead
    · rw [hsame]
      exact hshown
    · exact .inl hnil
    · exact .inr hhead
  · intro i hi
    rcases hindex' i hi with hi | hle
    · exact hindex i hi
    · exact hle

theorem stable_paged {oldest : ℤ} : (discipline s).Stable t (Paged t d oldest) := by
  rintro w w' - ⟨hholds, hpaged⟩ hothers
  refine ⟨hothers.holds d hholds, fun ht ↦ ?_⟩
  obtain ⟨⟨hgroup, hcurrent⟩, ⟨id, hid, hle⟩, hindex⟩ :=
    hpaged fun h ↦ ht (hothers.cancelled h)
  obtain ⟨hgroup', hcurrent', hrest⟩ := hothers.backfill hgroup ht
  obtain ⟨hid', -, hindex'⟩ := hrest d id hcurrent hid
  refine ⟨⟨hgroup', hcurrent'.trans hcurrent⟩, ⟨id, hid', hle⟩, fun i hi ↦ ?_⟩
  rcases hindex' i hi with hi | hle'
  · exact hindex i hi
  · exact hle.trans hle'

/-! ## What an operation does -/

section Acts

variable {o : Op} {w w' : World}

/-- A move that starts and cancels nothing, and at most takes away what is shown. -/
theorem others_of_same (h : Faithful s w') (hgroups : w'.groups = w.groups)
    (hcancelled : w'.cancelled = w.cancelled) (hcurrent : w'.current = w.current)
    (holdest : w'.oldestMessageId = w.oldestMessageId)
    (hholds : ∀ d, w.backfilling d = some u → w'.backfilling d = some u)
    (hshown : ∀ d, w'.shownOf d = w.shownOf d ∨ w'.shownOf d = [])
    (hindex : ∀ i ∈ w'.bubbleIndex, i ∈ w.bubbleIndex) : Others s u w w' where
  faithful := h
  cancelled := by rw [hcancelled]; exact fun _ ↦ id
  unused g hg := by rw [hgroups] at hg; exact hg
  holds := hholds
  history hu _ := by
    refine ⟨by rw [hgroups, hu], hcurrent, fun hnone ↦ ?_⟩
    exact ⟨holdest.trans hnone, fun d _ ↦ hshown d, hindex⟩
  backfill hu _ := by
    refine ⟨by rw [hgroups, hu], hcurrent, fun d id _ hid ↦ ⟨holdest.trans hid, ?_, ?_⟩⟩
    · rcases hshown d with hsame | hnil
      · exact .inl hsame
      · exact .inr (.inl hnil)
    · exact fun i hi ↦ .inl (hindex i hi)

/-- Only a call has gone out. -/
theorem guarantee_next (h : Faithful s w) : Guarantee s t w w.next := by
  have hfaithful : Faithful s w.next :=
    ⟨h.server, h.runs, h.marks, h.cursor, h.settled, h.holders, h.apart⟩
  exact ⟨hfaithful, fun u _ ↦ others_of_same hfaithful rfl rfl rfl rfl (fun _ ↦ id)
    (fun _ ↦ .inl rfl) fun _ ↦ id⟩

theorem guarantee_refl (h : Faithful s w) : Guarantee s t w w :=
  ⟨h, fun _ _ ↦ others_of_same h rfl rfl rfl rfl (fun _ ↦ id) (fun _ ↦ .inl rfl) fun _ ↦ id⟩

/-- The pane is emptied. -/
theorem guarantee_clear (h : Faithful s w) : Guarantee s t w { w with bubbles := [] } := by
  have hfaithful : Faithful s { w with bubbles := [] } :=
    ⟨h.server, fun d ↦ List.nil_infix, h.marks,
      fun d id hd hid ↦ ⟨(h.cursor d id hd hid).1, .inl fun x hx ↦ nomatch hx⟩,
      fun d id hd hid hfree ↦ ⟨.inl rfl, (h.settled d id hd hid hfree).2⟩, h.holders, h.apart⟩
  exact ⟨hfaithful, fun u _ ↦ others_of_same hfaithful rfl rfl rfl rfl (fun _ ↦ id)
    (fun _ ↦ .inr rfl) fun _ ↦ id⟩

/-- The index is emptied. -/
theorem guarantee_clearIndex (h : Faithful s w) :
    Guarantee s t w { w with bubbleIndex := [] } := by
  have hfaithful : Faithful s { w with bubbleIndex := [] } :=
    ⟨h.server, h.runs, h.marks, h.cursor,
      fun d id hd hid hfree ↦ ⟨(h.settled d id hd hid hfree).1, fun i hi ↦ nomatch hi⟩,
      h.holders, h.apart⟩
  exact ⟨hfaithful, fun u _ ↦ others_of_same hfaithful rfl rfl rfl rfl (fun _ ↦ id)
    (fun _ ↦ .inl rfl) fun i hi ↦ nomatch hi⟩

/-- A worker that starts is in no other group. -/
theorem apart_update (h : Faithful s w) (hunused : Unused t w) (group : Group) (g g' : Group)
    (v : TaskId) (hg : Function.update w.groups group (some t) g = some v)
    (hg' : Function.update w.groups group (some t) g' = some v) : g = g' := by
  by_cases hgroup : g = group <;> by_cases hgroup' : g' = group
  · exact hgroup.trans hgroup'.symm
  · subst hgroup
    rw [Function.update_self] at hg
    rw [Function.update_of_ne hgroup', ← hg] at hg'
    exact absurd hg' (hunused g')
  · subst hgroup'
    rw [Function.update_self] at hg'
    rw [Function.update_of_ne hgroup, ← hg'] at hg
    exact absurd hg (hunused g)
  · rw [Function.update_of_ne hgroup] at hg
    rw [Function.update_of_ne hgroup'] at hg'
    exact h.apart g g' v hg hg'

/-- A pass starts, and the one before it is cancelled. -/
theorem guarantee_translateAll (h : Faithful s w) (hunused : Unused t w) :
    Guarantee s t w (w.startWorker .translateAll t) := by
  have hcancelled : (w.startWorker .translateAll t).cancelled =
      (w.groups .translateAll).toList ++ w.cancelled := rfl
  have hgroups : (w.startWorker .translateAll t).groups =
      Function.update w.groups .translateAll (some t) := rfl
  have hsub : w.cancelled ⊆ (w.startWorker .translateAll t).cancelled :=
    fun v hv ↦ List.mem_append_right _ hv
  have hfaithful : Faithful s (w.startWorker .translateAll t) := by
    refine ⟨h.server, h.runs, h.marks, h.cursor, fun d id hd hid hfree ↦ ?_, fun d u hu ↦ ?_,
      apart_update h hunused _⟩
    · refine h.settled d id hd hid fun u hu ↦ ?_
      have hu' := hfree u hu
      rw [hcancelled, List.mem_append] at hu'
      rcases hu' with hu' | hu'
      · rcases h.holders d u hu with hold | hold
        · exact hold
        · cases h.apart _ _ u (Option.mem_toList.mp hu') hold
      · exact hu'
    · exact (h.holders d u hu).imp_left (@hsub u)
  refine ⟨hfaithful, fun u hut ↦ ⟨hfaithful, hsub, fun g hg ↦ ?_, fun _ ↦ id, ?_, ?_⟩⟩
  · rw [hgroups] at hg
    by_cases hgroup : g = .translateAll
    · subst hgroup
      rw [Function.update_self] at hg
      exact absurd (Option.some.inj hg).symm hut
    · rw [Function.update_of_ne hgroup] at hg
      exact hg
  · exact fun hu _ ↦ ⟨hu, rfl, fun hnone ↦ ⟨hnone, fun _ _ ↦ .inl rfl, fun _ ↦ id⟩⟩
  · exact fun hu _ ↦ ⟨hu, rfl, fun _ _ _ hid ↦ ⟨hid, .inl rfl, fun _ ↦ .inl⟩⟩

/-- A dialog is opened: whoever loaded history is cancelled. -/
theorem guarantee_openDialog (h : Faithful s w) (hunused : Unused t w) :
    Guarantee s t w (w.openDialog t d) := by
  have hcancelled : (w.openDialog t d).cancelled =
      (w.groups .history).toList ++ ((w.groups .historyBackfill).toList ++ w.cancelled) := rfl
  have hgroups : (w.openDialog t d).groups =
      Function.update (Function.update w.groups .historyBackfill none) .history (some t) := rfl
  have hsub : w.cancelled ⊆ (w.openDialog t d).cancelled :=
    fun v hv ↦ List.mem_append_right _ (List.mem_append_right _ hv)
  have hfaithful : Faithful s (w.openDialog t d) := by
    refine ⟨h.server, h.runs, h.marks, (fun _ _ _ hid ↦ nomatch hid),
      (fun _ _ _ hid ↦ nomatch hid), fun d' u hu ↦ .inl ?_, fun g g' v hg hg' ↦ ?_⟩
    · rw [hcancelled]
      rcases h.holders d' u hu with hold | hold
      · exact hsub hold
      · exact List.mem_append_right _ (List.mem_append_left _ (Option.mem_toList.mpr hold))
    · rw [hgroups, Function.update_comm (by decide)] at hg hg'
      by_cases hb : g = .historyBackfill
      · subst hb
        rw [Function.update_self] at hg
        cases hg
      · by_cases hb' : g' = .historyBackfill
        · subst hb'
          rw [Function.update_self] at hg'
          cases hg'
        · rw [Function.update_of_ne hb] at hg
          rw [Function.update_of_ne hb'] at hg'
          exact apart_update h hunused _ g g' v hg hg'
  refine ⟨hfaithful, fun u hut ↦ ⟨hfaithful, hsub, fun g hg ↦ ?_, fun _ ↦ id, ?_, ?_⟩⟩
  · rw [hgroups] at hg
    by_cases hh : g = .history
    · subst hh
      rw [Function.update_self] at hg
      exact absurd (Option.some.inj hg).symm hut
    · rw [Function.update_of_ne hh] at hg
      by_cases hb : g = .historyBackfill
      · subst hb
        rw [Function.update_self] at hg
        cases hg
      · rw [Function.update_of_ne hb] at hg
        exact hg
  · intro hu hu'
    rw [hcancelled, hu] at hu'
    exact absurd (List.mem_append_left _ (List.mem_singleton_self u)) hu'
  · intro hu hu'
    rw [hcancelled, hu] at hu'
    exact absurd (List.mem_append_right _ (List.mem_append_left _ (List.mem_singleton_self u))) hu'

theorem opening_openDialog : Opening t d (w.openDialog t d) := fun _ ↦ ⟨rfl, rfl, rfl, rfl⟩

/-- A page is mounted where nothing of its dialog is shown. -/
theorem shownOf_mount_of_nil {page : Page} (hnil : w.shownOf d = []) (d' : ℤ) :
    ({ w with bubbleIndex := [] }.mount d page.messages).shownOf d' =
      if d = d' then page.ids else w.shownOf d' := by
  rw [World.shownOf_mount]
  by_cases hd : d = d'
  · subst hd
    have hshown : World.shownOf { w with bubbleIndex := [] } d = [] := hnil
    rw [hshown, if_pos rfl, if_pos rfl]
    rfl
  · rw [if_neg hd, if_neg hd, List.append_nil]
    rfl

theorem runs_mount (h : Faithful s w) {page : Page} (hnil : w.shownOf d = [])
    (hpage : page.ids <:+: serverIds s d) (d' : ℤ) :
    ({ w with bubbleIndex := [] }.mount d page.messages).shownOf d' <:+: serverIds s d' := by
  rw [shownOf_mount_of_nil hnil]
  by_cases hd : d = d'
  · subst hd
    rw [if_pos rfl]
    exact hpage
  · rw [if_neg hd]
    exact h.runs d'

/-- Worker `t` alone opens a dialog, and there is no cursor: what it does concerns nobody else. -/
theorem others_of_opening (h : Faithful s w') (hgroup : w.groups .history = some t)
    (holdest : w.oldestMessageId = none) (hut : u ≠ t) (hcurrent : w'.current = w.current)
    (hgroups : w'.groups = w.groups) (hcancelled : w'.cancelled = w.cancelled)
    (hholds : w'.backfilling = w.backfilling) : Others s u w w' where
  faithful := h
  cancelled := by rw [hcancelled]; exact fun _ ↦ id
  unused g hg := by rw [hgroups] at hg; exact hg
  holds d hd := by rw [hholds]; exact hd
  history hu _ := absurd (Option.some.inj (hu.symm.trans hgroup)) hut
  backfill hu _ := by
    refine ⟨by rw [hgroups, hu], hcurrent, fun d id _ hid ↦ ?_⟩
    cases holdest.symm.trans hid

/-- `_show_history` mounts its page. -/
theorem guarantee_mountHistory (h : Faithful s w) {page : Page} (ht : t ∉ w.cancelled)
    (hloading : Loading t d [] w) (hpage : page.ids <:+: serverIds s d) :
    Guarantee s t w ({ w with bubbleIndex := [] }.mount d page.messages) ∧
      Loading t d page.ids ({ w with bubbleIndex := [] }.mount d page.messages) := by
  obtain ⟨⟨hgroup, hcurrent, holdest⟩, hshown, -⟩ := hloading ht
  have hnil : w.shownOf d = [] := hshown.elim id id
  have hfaithful : Faithful s ({ w with bubbleIndex := [] }.mount d page.messages) := by
    refine ⟨h.server, runs_mount h hnil hpage, h.marks, fun d' id _ hid ↦ ?_,
      fun d' id _ hid ↦ ?_, h.holders, h.apart⟩ <;> cases holdest.symm.trans hid
  refine ⟨⟨hfaithful, fun u hut ↦
    others_of_opening hfaithful hgroup holdest hut rfl rfl rfl rfl⟩, fun _ ↦ ?_⟩
  refine ⟨⟨hgroup, hcurrent, holdest⟩, .inl ?_, fun i hi ↦ hi⟩
  rw [shownOf_mount_of_nil hnil, if_pos rfl]

/-- What is shown begins where a page does, if it is the page. -/
theorem beginsAt_page {page : Page} {id : ℤ} (hid : page.ids.head? = some id)
    (hshown : w.shownOf d = page.ids ∨ w.shownOf d = [])
    (hindex : ∀ i ∈ w.bubbleIndex, i ∈ page.ids) : w.BeginsAt d id := by
  refine ⟨?_, fun i hi ↦ ?_⟩
  · rcases hshown with hshown | hshown
    · exact .inr ((congrArg List.head? hshown).trans hid)
    · exact .inl hshown
  · exact Page.head_le hid (hindex i hi)

/-- A pass mounts its page, which begins at the cursor. -/
theorem guarantee_mountTranslated (h : Faithful s w) {page : Page}
    (halign : w.Aligned (.mountTranslated d page)) (hpage : page.ids <:+: serverIds s d) :
    Guarantee s t w ({ w with bubbleIndex := [] }.mount d page.messages) := by
  obtain ⟨hcurrent, hnil, hcursor⟩ := halign
  rw [World.shown_of_current hcurrent] at hnil
  have hshown (d' : ℤ) (hd' : w.current = some d') :
      ({ w with bubbleIndex := [] }.mount d page.messages).shownOf d' = page.ids := by
    obtain rfl := Option.some.inj (hcurrent.symm.trans hd')
    rw [shownOf_mount_of_nil hnil, if_pos rfl]
  have hbegins (d' id : ℤ) (hd' : w.current = some d') (hid : w.oldestMessageId = some id) :
      ({ w with bubbleIndex := [] }.mount d page.messages).BeginsAt d' id :=
    beginsAt_page (hcursor.symm.trans hid) (.inl (hshown d' hd')) fun i hi ↦ hi
  have hfaithful : Faithful s ({ w with bubbleIndex := [] }.mount d page.messages) := by
    refine ⟨h.server, runs_mount h hnil hpage, h.marks, fun d' id hd' hid ↦ ?_,
      fun d' id hd' hid _ ↦ hbegins d' id hd' hid, h.holders, h.apart⟩
    refine ⟨(h.cursor d' id hd' hid).1, .inr ?_⟩
    rw [hshown d' hd']
    exact List.mem_of_head? (hcursor.symm.trans hid)
  refine ⟨hfaithful, fun u _ ↦ ⟨hfaithful, fun _ ↦ id, fun _ ↦ id, fun _ ↦ id,
    fun hu _ ↦ ⟨hu, rfl, fun hnone ↦ ⟨hnone, fun d' hd' ↦ .inr ?_, fun i hi ↦ ?_⟩⟩,
    fun hu _ ↦ ⟨hu, rfl, fun d' id hd' hid ↦ ⟨hid, .inr ?_, fun i hi ↦ ?_⟩⟩⟩⟩
  · rw [hshown d' hd']
    exact List.head?_eq_none_iff.mp (hcursor.symm.trans hnone)
  · have hi : i ∈ page.ids := hi
    rw [List.head?_eq_none_iff.mp (hcursor.symm.trans hnone)] at hi
    cases hi
  · exact (hbegins d' id hd' hid).1
  · exact .inr ((hbegins d' id hd' hid).2 i hi)

/-- The cursor moves to the first message that is shown. -/
theorem faithful_moveCursor (h : Faithful s w) {page : Page} {id : ℤ}
    (hcurrent : w.current = some d) (hid : id ∈ serverIds s d)
    (hshort : page.messages.length < historyPageSize → (serverIds s d).head? = some id)
    (hbegins : w.BeginsAt d id) : Faithful s (w.moveCursor d id page) := by
  refine ⟨h.server, h.runs, fun d' id' hid' ↦ ?_, fun d' id' hd' hid' ↦ ?_,
    fun d' id' hd' hid' _ ↦ ?_, h.holders, h.apart⟩
  · rw [World.moveCursor] at hid'
    dsimp only at hid'
    split at hid'
    · next hlt =>
      by_cases hd : d' = d
      · subst hd
        rw [Function.update_self] at hid'
        obtain rfl := Option.some.inj hid'
        exact hshort hlt
      · rw [Function.update_of_ne hd] at hid'
        exact h.marks d' id' hid'
    · exact h.marks d' id' hid'
  · obtain rfl := Option.some.inj (hcurrent.symm.trans hd')
    obtain rfl := Option.some.inj hid'
    refine ⟨hid, ?_⟩
    rcases hbegins.1 with hnil | hhead
    · refine .inl fun x hx ↦ ?_
      have hx : x ∈ w.shownOf d := hx
      rw [hnil] at hx
      cases hx
    · exact .inr (List.mem_of_head? hhead)
  · obtain rfl := Option.some.inj (hcurrent.symm.trans hd')
    obtain rfl := Option.some.inj hid'
    exact hbegins

/-- `_show_history` sets the cursor. -/
theorem guarantee_noteHistory (h : Faithful s w) {page : Page} (ht : t ∉ w.cancelled)
    (hloading : Loading t d page.ids w) (hpage : page.ids <:+: serverIds s d)
    (hshort : page.messages.length < historyPageSize →
      (serverIds s d).head? = page.ids.head?) :
    Guarantee s t w (w.noteHistory d page) := by
  obtain ⟨⟨hgroup, hcurrent, holdest⟩, hshown, hindex⟩ := hloading ht
  rw [World.noteHistory]
  cases hid : page.ids.head? with
  | none =>
    have hsame : { w with oldestMessageId := none } = w := by rw [← holdest]
    dsimp only
    rw [hsame]
    exact guarantee_refl h
  | some id =>
    have hfaithful : Faithful s (w.moveCursor d id page) :=
      faithful_moveCursor h hcurrent (hpage.subset (List.mem_of_head? hid))
        (fun hlt ↦ (hshort hlt).trans hid) (beginsAt_page hid hshown hindex)
    exact ⟨hfaithful, fun u hut ↦
      others_of_opening hfaithful hgroup holdest hut rfl rfl rfl rfl⟩

/-- What `_maybe_backfill_history` comes to: a page is due below the cursor, or nothing is. -/
theorem maybeBackfill_cases (t : TaskId) (w : World) :
    w.maybeBackfill t = (none, w) ∨
      ∃ d offset, w.current = some d ∧ w.oldestMessageId = some offset ∧ w.backfilling d = none ∧
        w.maybeBackfill t = (some (d, offset),
          { w with backfilling := Function.update w.backfilling d (some t) }.startWorker
            .historyBackfill t) := by
  rw [World.maybeBackfill]
  cases hd : w.current with
  | none => exact .inl rfl
  | some d =>
    dsimp only
    split
    · exact .inl rfl
    · cases hid : w.oldestMessageId with
      | none => exact .inl rfl
      | some offset =>
        dsimp only
        split
        · exact .inl rfl
        · next hfree =>
          rw [Bool.not_eq_true, Option.isSome_eq_false_iff, Option.isNone_iff_eq_none] at hfree
          exact .inr ⟨d, offset, rfl, rfl, hfree, rfl⟩

/-- A worker is to page back: the one before it is cancelled. -/
theorem guarantee_maybeBackfill (h : Faithful s w) (hunused : Unused t w)
    (hcurrent : w.current = some d) (holdest : w.oldestMessageId = some offset)
    (hfree : w.backfilling d = none)
    (hw' : w' = { w with backfilling := Function.update w.backfilling d (some t) }.startWorker
      .historyBackfill t) : Guarantee s t w w' ∧ Paging t d offset w' := by
  have hgroups : w'.groups = Function.update w.groups .historyBackfill (some t) := by rw [hw']; rfl
  have hcancelled : w'.cancelled = (w.groups .historyBackfill).toList ++ w.cancelled := by
    rw [hw']; rfl
  have hbackfilling : w'.backfilling = Function.update w.backfilling d (some t) := by rw [hw']; rfl
  have hbegins : w.BeginsAt d offset := by
    refine h.settled d offset hcurrent holdest fun u hu ↦ ?_
    cases hfree.symm.trans hu
  have hsub : w.cancelled ⊆ w'.cancelled := by
    rw [hcancelled]
    exact fun v hv ↦ List.mem_append_right _ hv
  have hfaithful : Faithful s w' := by
    subst hw'
    refine ⟨h.server, h.runs, h.marks, h.cursor, fun d' id hd' hid _ ↦ ?_, fun d' u hu ↦ ?_, ?_⟩
    · obtain rfl := Option.some.inj (hcurrent.symm.trans hd')
      obtain rfl := Option.some.inj (holdest.symm.trans hid)
      exact hbegins
    · rw [hbackfilling] at hu
      by_cases hd : d' = d
      · subst hd
        rw [Function.update_self] at hu
        rw [hgroups, Function.update_self]
        exact .inr hu
      · rw [Function.update_of_ne hd] at hu
        rw [hcancelled]
        rcases h.holders d' u hu with hold | hold
        · exact .inl (List.mem_append_right _ hold)
        · exact .inl (List.mem_append_left _ (Option.mem_toList.mpr hold))
    · rw [hgroups]
      exact apart_update h hunused _
  refine ⟨⟨hfaithful, fun u hut ↦ ⟨hfaithful, hsub, fun g hg ↦ ?_, fun d' hd' ↦ ?_, ?_, ?_⟩⟩, ?_⟩
  · rw [hgroups] at hg
    by_cases hgroup : g = .historyBackfill
    · subst hgroup
      rw [Function.update_self] at hg
      exact absurd (Option.some.inj hg).symm hut
    · rw [Function.update_of_ne hgroup] at hg
      exact hg
  · rw [hbackfilling, Function.update_of_ne, hd']
    rintro rfl
    cases hfree.symm.trans hd'
  · intro hu _
    subst hw'
    exact ⟨hu, rfl, fun hnone ↦ ⟨hnone, fun _ _ ↦ .inl rfl, fun _ ↦ id⟩⟩
  · intro hu hu'
    rw [hcancelled, hu] at hu'
    exact absurd (List.mem_append_left _ (List.mem_singleton_self u)) hu'
  · refine ⟨by rw [hbackfilling, Function.update_self], fun _ ↦ ?_⟩
    rw [hgroups, Function.update_self]
    subst hw'
    exact ⟨⟨rfl, hcurrent, holdest⟩, hbegins⟩

/-- Worker `t` alone pages back, from the cursor: what it does concerns nobody else. -/
theorem others_of_backfill (h : Faithful s w') (hgroup : w.groups .historyBackfill = some t)
    (holdest : w.oldestMessageId ≠ none) (hut : u ≠ t) (hcurrent : w'.current = w.current)
    (hgroups : w'.groups = w.groups) (hcancelled : w'.cancelled = w.cancelled)
    (hholds : w'.backfilling = w.backfilling) : Others s u w w' where
  faithful := h
  cancelled := by rw [hcancelled]; exact fun _ ↦ id
  unused g hg := by rw [hgroups] at hg; exact hg
  holds d hd := by rw [hholds]; exact hd
  history hu _ := by
    refine ⟨by rw [hgroups, hu], hcurrent, fun hnone ↦ ?_⟩
    exact absurd hnone holdest
  backfill hu _ := absurd (Option.some.inj (hu.symm.trans hgroup)) hut

/-- The page below an id. -/
theorem ids_ofHistory (limit : ℕ) (hmem : offset ∈ serverIds s d) :
    (Page.ofHistory s d limit offset).ids =
      ((serverIds s d).filter fun id ↦ decide (id < offset)).rtake limit := by
  have hids : (Page.ofHistory s d limit offset).ids =
      (s.history d limit offset).map Message.id := rfl
  obtain ⟨m, hm, hid⟩ := List.mem_map.mp hmem
  have hoffset : 0 < offset := hid ▸ (s.bounded d m hm).1
  rw [hids, Server.history, List.map_rtake, serverIds, List.filter_map]
  congr 2
  refine List.filter_congr fun m _ ↦ ?_
  simp only [Function.comp_apply, decide_eq_decide]
  exact or_iff_right hoffset.ne'

/-- Nothing of a page below the cursor is indexed. -/
theorem fresh_eq {page : Page} (hbegins : w.BeginsAt d offset)
    (hpage : ∀ id ∈ page.ids, id < offset) : page.fresh w.bubbleIndex = page := by
  have hall : page.messages.filter (fun m ↦ m.id ∉ w.bubbleIndex) = page.messages := by
    refine List.filter_eq_self.mpr fun m hm ↦ decide_eq_true fun hindex ↦ ?_
    exact absurd (hbegins.2 m.id hindex) (not_le.mpr (hpage m.id (List.mem_map_of_mem hm)))
  rw [Page.fresh]
  simp only [hall]

/-- The page below the cursor. -/
structure Below (s : Server) (d offset : ℤ) (older : Page) : Prop where
  mem : offset ∈ serverIds s d
  ids : older.ids =
    ((serverIds s d).filter fun id ↦ decide (id < offset)).rtake historyPageSize

namespace Below

variable {older : Page} {oldest : ℤ}

theorem lt (h : Below s d offset older) {id : ℤ} (hid : id ∈ older.ids) : id < offset := by
  rw [h.ids] at hid
  exact of_decide_eq_true (List.mem_filter.mp ((List.rtake_suffix ..).subset hid)).2

theorem mem_serverIds (h : Below s d offset older) {id : ℤ} (hid : id ∈ older.ids) :
    id ∈ serverIds s d := by
  rw [h.ids] at hid
  exact (List.mem_filter.mp ((List.rtake_suffix ..).subset hid)).1

/-- A short page begins as the dialog does, and a page is empty only below its first message. -/
theorem head?_serverIds (h : Below s d offset older)
    (hshort : older.messages.length < historyPageSize) :
    (serverIds s d).head? = some (older.ids.head?.getD offset) := by
  obtain ⟨before, after, hsplit⟩ := List.append_of_mem h.mem
  have hascending := ascending_serverIds s d
  rw [hsplit] at hascending
  have hids := h.ids
  rw [hsplit, List.filter_lt_of_ascending hascending] at hids
  have hlength : older.ids.length = older.messages.length := List.length_map ..
  have hwhole : older.ids = before := by
    rw [hids]
    refine List.eq_of_length_rtake_lt ?_
    rw [← hids, hlength]
    exact hshort
  rw [hwhole, hsplit]
  cases before <;> rfl

theorem lt_historyPageSize (h : older.ids.head? = none) :
    older.messages.length < historyPageSize := by
  have hnil : older.messages = [] := List.map_eq_nil_iff.mp (List.head?_eq_none_iff.mp h)
  rw [hnil]
  decide

end Below

/-- The page below the cursor, put before what is shown, makes a run of the history. -/
theorem runs_mountBefore (h : Faithful s w) {older : Page} (hbelow : Below s d offset older)
    (hbegins : w.BeginsAt d offset) (d' : ℤ) :
    (w.mountBefore d older.messages).shownOf d' <:+: serverIds s d' := by
  rw [World.shownOf_mountBefore]
  by_cases hd : d = d'
  · subst hd
    rw [if_pos rfl]
    have hids : older.messages.map Message.id = _ := hbelow.ids
    rw [hids]
    rcases hbegins.1 with hnil | hhead
    · rw [hnil, List.append_nil]
      exact List.isInfix_rtake _ (ascending_serverIds s d) hbelow.mem
    · exact List.isInfix_rtake_append _ (ascending_serverIds s d) (h.runs d) hhead
  · rw [if_neg hd, List.nil_append]
    exact h.runs d'

/-- What `_backfill_history` goes on with, when it has mounted a page or none. -/
def Prepended (t : TaskId) (d offset : ℤ) (older : Page) : Option ℤ → World → Prop
  | none, w => Paging t d offset w
  | some oldest, w => Paged t d oldest w ∧ older.ids.head? = some oldest

/-- `_backfill_history` mounts the page below the cursor, or marks the dialog exhausted there. -/
theorem guarantee_prepend (h : Faithful s w) {older : Page} (ht : t ∉ w.cancelled)
    (hpaging : Paging t d offset w) (hbelow : Below s d offset older) :
    Guarantee s t w (w.prepend d older).2 ∧
      Prepended t d offset older (w.prepend d older).1 (w.prepend d older).2 := by
  obtain ⟨hholds, hlive⟩ := hpaging
  obtain ⟨⟨hgroup, hcurrent, holdest⟩, hbegins⟩ := hlive ht
  have hsome : w.oldestMessageId ≠ none := by
    rw [holdest]
    exact Option.some_ne_none offset
  have hfresh : older.fresh w.bubbleIndex = older := fresh_eq hbegins fun id ↦ hbelow.lt
  rw [World.prepend, if_pos hcurrent, hfresh]
  cases hid : older.ids.head? with
  | none =>
    have hhead := hbelow.head?_serverIds (Below.lt_historyPageSize hid)
    have hfaithful : Faithful s { w with
        backfillExhausted := Function.update w.backfillExhausted d w.oldestMessageId } := by
      refine ⟨h.server, h.runs, fun d' id hmark ↦ ?_, h.cursor, h.settled, h.holders, h.apart⟩
      dsimp only at hmark
      by_cases hd : d' = d
      · subst hd
        rw [Function.update_self, holdest] at hmark
        rw [hhead, hid]
        exact hmark
      · rw [Function.update_of_ne hd] at hmark
        exact h.marks d' id hmark
    refine ⟨⟨hfaithful, fun u hut ↦
      others_of_backfill hfaithful hgroup hsome hut rfl rfl rfl rfl⟩, hholds, fun _ ↦ ?_⟩
    exact ⟨⟨hgroup, hcurrent, holdest⟩, hbegins⟩
  | some oldest =>
    have hmem : oldest ∈ older.ids := List.mem_of_head? hid
    have hshown : (w.mountBefore d older.messages).shownOf d = older.ids ++ w.shownOf d := by
      rw [World.shownOf_mountBefore, if_pos rfl]
      rfl
    have hfaithful : Faithful s (w.mountBefore d older.messages) := by
      refine ⟨h.server, runs_mountBefore h hbelow hbegins, h.marks, fun d' id hd' hid' ↦ ?_,
        fun d' id hd' _ hfree ↦ ?_, h.holders, h.apart⟩
      · obtain rfl := Option.some.inj (hcurrent.symm.trans hd')
        obtain rfl := Option.some.inj (holdest.symm.trans hid')
        refine ⟨hbelow.mem, ?_⟩
        rw [hshown]
        rcases hbegins.1 with hnil | hhead
        · refine .inl fun x hx ↦ hbelow.lt ?_
          rw [hnil, List.append_nil] at hx
          exact hx
        · exact .inr (List.mem_append_right _ (List.mem_of_head? hhead))
      · obtain rfl := Option.some.inj (hcurrent.symm.trans hd')
        exact absurd (hfree t hholds) ht
    refine ⟨⟨hfaithful, fun u hut ↦
      others_of_backfill hfaithful hgroup hsome hut rfl rfl rfl rfl⟩, ⟨hholds, fun _ ↦ ?_⟩, hid⟩
    refine ⟨⟨hgroup, hcurrent⟩, ⟨offset, holdest, (hbelow.lt hmem).le⟩, fun i hi ↦ ?_⟩
    rcases List.mem_append.mp hi with hi | hi
    · exact (hbelow.lt hmem).le.trans (hbegins.2 i hi)
    · exact Page.head_le hid hi

/-- `_backfill_history` moves the cursor. -/
theorem guarantee_noteBackfill (h : Faithful s w) {older : Page} {oldest : ℤ}
    (ht : t ∉ w.cancelled) (hpaged : Paged t d oldest w)
    (halign : w.Aligned (.noteBackfill d oldest older)) (hbelow : Below s d offset older)
    (hid : older.ids.head? = some oldest) :
    Guarantee s t w (w.moveCursor d oldest older) ∧
      Paging t d oldest (w.moveCursor d oldest older) := by
  obtain ⟨hholds, hlive⟩ := hpaged
  obtain ⟨⟨hgroup, hcurrent⟩, ⟨id, holdest, hle⟩, hindex⟩ := hlive ht
  have hsome : w.oldestMessageId ≠ none := by
    rw [holdest]
    exact Option.some_ne_none id
  have hshown : w.shownOf d = [] ∨ (w.shownOf d).head? = some oldest := by
    rw [← World.shown_of_current hcurrent]
    exact halign
  have hfaithful : Faithful s (w.moveCursor d oldest older) := by
    refine faithful_moveCursor h hcurrent (hbelow.mem_serverIds (List.mem_of_head? hid))
      (fun hshort ↦ ?_) ⟨hshown, hindex⟩
    rw [hbelow.head?_serverIds hshort, hid]
    rfl
  refine ⟨⟨hfaithful, fun u hut ↦
    others_of_backfill hfaithful hgroup hsome hut rfl rfl rfl rfl⟩, hholds, fun _ ↦ ?_⟩
  exact ⟨⟨hgroup, hcurrent, rfl⟩, hshown, hindex⟩

/-- A worker has paged back, or was cancelled. -/
theorem guarantee_release (h : Faithful s w) (hpaging : Paging t d offset w) :
    Guarantee s t w { w with backfilling := Function.update w.backfilling d none } := by
  obtain ⟨hholds, hlive⟩ := hpaging
  have hfaithful : Faithful s { w with backfilling := Function.update w.backfilling d none } := by
    refine ⟨h.server, h.runs, h.marks, h.cursor, fun d' id hd' hid hfree ↦ ?_,
      fun d' u hu ↦ ?_, h.apart⟩
    · by_cases hd : d' = d
      · subst hd
        by_cases ht : t ∈ w.cancelled
        · refine h.settled d' id hd' hid fun u hu ↦ ?_
          obtain rfl := Option.some.inj (hholds.symm.trans hu)
          exact ht
        · obtain ⟨⟨-, -, holdest⟩, hbegins⟩ := hlive ht
          obtain rfl := Option.some.inj (holdest.symm.trans hid)
          exact hbegins
      · refine h.settled d' id hd' hid fun u hu ↦ hfree u ?_
        exact (Function.update_of_ne hd ..).trans hu
    · dsimp only at hu
      by_cases hd : d' = d
      · subst hd
        rw [Function.update_self] at hu
        cases hu
      · rw [Function.update_of_ne hd] at hu
        exact h.holders d' u hu
  refine ⟨hfaithful, fun u hut ↦ others_of_same hfaithful rfl rfl rfl rfl (fun d' hd' ↦ ?_)
    (fun _ ↦ .inl rfl) fun _ ↦ id⟩
  refine (Function.update_of_ne ?_ ..).trans hd'
  rintro rfl
  exact hut (Option.some.inj (hd'.symm.trans hholds))

end Acts

/-! ## What the workers keep true -/

/-- What task `t` does keeps what holds in every run. -/
abbrev Keeps (setup : Setup) (s : Server) (t : TaskId) {α : Type} (p : TuiProg α)
    (P : World → Prop) (R : α → World → Prop) (E : World → Prop) : Prop :=
  Asyncio.Keeps ((still setup).restrict InStep) (discipline s) t p P R E

namespace Keeps

variable {setup : Setup} {α : Type} {P : World → Prop} {R : α → World → Prop} {E : World → Prop}

/-- One operation: either its worker was cancelled, or it does what it is for. -/
theorem perform {o : Op} {R : effects.Ret o → World → Prop} (hP : (discipline s).Stable t P)
    (hR : ∀ r, (discipline s).Stable t (R r)) (hE : (discipline s).Stable t E)
    (hact : ∀ w x w', Faithful s w → P w → (t ∉ w.cancelled ∨ o.Shielded) →
      (t ∉ w.cancelled → w.Aligned o) → act setup t o w = .done x w' →
      Guarantee s t w w' ∧ onResult (E := effects) R (fun _ ↦ E) x w')
    (hcut : ∀ w, P w → t ∈ w.cancelled → ¬o.Shielded → E w) :
    Keeps setup s t (perform o) P R E := by
  refine Asyncio.Keeps.perform hP hR hE (fun w w' hr ↦ ?_) fun w x w' h hPw hr ↦ ?_
  · exact handle_ne_parked (System.restrict_parked hr)
  · obtain ⟨hok, hr⟩ := System.restrict_done hr
    by_cases hcancelled : t ∈ w.cancelled ∧ ¬o.Shielded
    · obtain ⟨rfl, rfl⟩ := Reply.done.inj ((if_pos hcancelled).symm.trans hr)
      exact ⟨guarantee_refl h, hcut w hPw hcancelled.1 hcancelled.2⟩
    · rw [not_and_or, not_not] at hcancelled
      exact hact w x w' h hPw hcancelled (fun ht ↦ hok.resolve_left ht)
        ((if_neg (by rwa [not_and_or, not_not])).symm.trans hr)

/-- One operation, where its worker was not cancelled. -/
theorem live {o : Op} (ho : ¬o.Shielded) {R : effects.Ret o → World → Prop}
    (hP : (discipline s).Stable t P) (hR : ∀ r, (discipline s).Stable t (R r))
    (hE : (discipline s).Stable t E)
    (hact : ∀ w x w', Faithful s w → P w → t ∉ w.cancelled → w.Aligned o →
      act setup t o w = .done x w' →
      Guarantee s t w w' ∧ onResult (E := effects) R (fun _ ↦ E) x w')
    (hcut : ∀ w, P w → t ∈ w.cancelled → E w) : Keeps setup s t (Tui.perform o) P R E := by
  refine perform hP hR hE (fun w x w' h hPw hlive halign ↦ ?_) fun w hPw ht _ ↦ hcut w hPw ht
  have ht : t ∉ w.cancelled := hlive.resolve_right ho
  exact hact w x w' h hPw ht (halign ht)

/-- One operation that only looks at the state, or calls. -/
theorem quiet {o : Op} (ho : ¬o.Shielded) {R : effects.Ret o → World → Prop}
    (hP : (discipline s).Stable t P) (hR : ∀ r, (discipline s).Stable t (R r))
    (hnext : ∀ w, P w → P w.next)
    (hact : ∀ w x w', act setup t o w = .done x w' → w' = w ∨ w' = w.next)
    (hok : ∀ w r w', Faithful s w → P w' → act setup t o w = .done (.ok r) w' → R r w') :
    Keeps setup s t (Tui.perform o) P R P := by
  refine live ho hP hR hP (fun w x w' h hPw ht _ hw' ↦ ?_) fun w hPw _ ↦ hPw
  have hmove : Guarantee s t w w' ∧ P w' := by
    rcases hact w x w' hw' with rfl | rfl
    · exact ⟨guarantee_refl h, hPw⟩
    · exact ⟨guarantee_next h, hnext w hPw⟩
  refine ⟨hmove.1, ?_⟩
  cases x with
  | error e => exact hmove.2
  | ok r => exact hok w r w' h hmove.2 hw'

/-- `try: … except Exception: …`. -/
theorem attempt {p : TuiProg α} (hR : ∀ a, (discipline s).Stable t (R a))
    (hE : (discipline s).Stable t E) (hp : Keeps setup s t p P R E) :
    Keeps setup s t (Tui.attempt p) P (fun x w ↦ x.elim (E w) fun a ↦ R a w) E := by
  refine Asyncio.Keeps.rescue (hp.bind fun a ↦ .ret (hR a) fun _ _ ↦ id) ?_
  rintro (_ | _)
  · exact .raise hE fun _ _ ↦ id
  · exact .ret hE fun _ _ ↦ id

end Keeps

section Workers

variable {setup : Setup}

/-- A page that a worker reads. -/
theorem keeps_history {P : World → Prop} (limit : ℕ)
    (hP : (discipline s).Stable t P) (hnext : ∀ w, P w → P w.next) :
    Keeps setup s t (perform (.history d limit offset)) P
      (fun page w ↦ page = .ofHistory s d limit offset ∧ P w) P := by
  refine .quiet id hP (fun page ↦ hP.and_pure) hnext (fun w x w' h ↦ ?_)
    fun w page w' h hPw' hr ↦ ?_
  · rw [act] at h
    split at h <;> cases h <;> exact .inr rfl
  · rw [act] at hr
    split at hr
    · cases hr
    · obtain ⟨hpage, -⟩ := Reply.done.inj hr
      refine ⟨?_, hPw'⟩
      rw [← h.server]
      exact (Except.ok.inj hpage).symm

/-- The newest page of a dialog. -/
theorem ids_newest (limit : ℕ) :
    (Page.ofHistory s d limit 0).ids = (serverIds s d).rtake limit := by
  have hids : (Page.ofHistory s d limit 0).ids = (s.history d limit 0).map Message.id := rfl
  rw [hids, Server.history, List.map_rtake, List.filter_eq_self.mpr]
  · rfl
  · exact fun _ _ ↦ rfl

theorem newest_isInfix (limit : ℕ) :
    (Page.ofHistory s d limit 0).ids <:+: serverIds s d := by
  rw [ids_newest]
  exact (List.rtake_suffix ..).isInfix

theorem head?_newest
    (hshort : (Page.ofHistory s d historyPageSize 0).messages.length < historyPageSize) :
    (serverIds s d).head? = (Page.ofHistory s d historyPageSize 0).ids.head? := by
  have hlength : (Page.ofHistory s d historyPageSize 0).ids.length < historyPageSize := by
    rw [Page.ids, List.length_map]
    exact hshort
  rw [ids_newest] at hlength ⊢
  rw [List.eq_of_length_rtake_lt hlength]

/-- `_show_history` has read its page. -/
theorem keeps_mountHistory (page : Page) (hpage : page = .ofHistory s d historyPageSize 0) :
    Keeps setup s t (do perform (.mountHistory d page); perform (.noteHistory d page))
      (Loading t d []) (fun _ _ ↦ True) fun _ ↦ True := by
  subst hpage
  have hmount : Keeps setup s t (perform (.mountHistory d (.ofHistory s d historyPageSize 0)))
      (Loading t d []) (fun _ ↦ Loading t d (Page.ofHistory s d historyPageSize 0).ids)
      fun _ ↦ True := by
    refine .live id stable_loading (fun _ ↦ stable_loading) Discipline.stable_true
      (fun w x w' h hloading ht _ hr ↦ ?_) fun _ _ _ ↦ trivial
    cases hr
    exact guarantee_mountHistory h ht hloading (newest_isInfix historyPageSize)
  refine hmount.bind fun _ ↦ Keeps.live id stable_loading (fun _ ↦ Discipline.stable_true)
    Discipline.stable_true (fun w x w' h hloading ht _ hr ↦ ?_) fun _ _ _ ↦ trivial
  cases hr
  exact ⟨guarantee_noteHistory h ht hloading (newest_isInfix historyPageSize) head?_newest,
    trivial⟩

theorem keeps_showHistory : Keeps setup s t (showHistory d) (Opening t d) (fun _ _ ↦ True)
    fun _ ↦ True := by
  have hremove : Keeps setup s t (perform .removeChildren) (Opening t d)
      (fun _ ↦ Loading t d []) fun _ ↦ True := by
    refine .live id stable_opening (fun _ ↦ stable_loading) Discipline.stable_true
      (fun w x w' h hopening ht _ hr ↦ ?_) fun _ _ _ ↦ trivial
    cases hr
    refine ⟨guarantee_clear h, fun _ ↦ ?_⟩
    obtain ⟨hgroup, hcurrent, holdest, hindex⟩ := hopening ht
    refine ⟨⟨hgroup, hcurrent, holdest⟩, .inl rfl, fun i hi ↦ ?_⟩
    exact hindex ▸ hi
  have hread : Keeps setup s t (perform (.history d historyPageSize 0)) (Loading t d [])
      (fun page w ↦ page = .ofHistory s d historyPageSize 0 ∧ Loading t d [] w)
      fun _ ↦ True := by
    exact (keeps_history historyPageSize stable_loading fun w hw ↦ hw).except fun _ _ ↦ trivial
  refine hremove.bind fun _ ↦
    (hread.attempt (fun page ↦ stable_loading.and_pure) Discipline.stable_true).bind ?_
  rintro (_ | page)
  · exact .ret Discipline.stable_true fun _ _ _ ↦ trivial
  · refine .assuming (fun w _ hw ↦ hw.1) fun hpage ↦ ?_
    exact (keeps_mountHistory page hpage).pre fun w hw ↦ hw.2

theorem keeps_openDialog : Keeps setup s t (openDialog d) (Unused t) (fun _ _ ↦ True)
    fun _ ↦ True := by
  have hopen : Keeps setup s t (perform (.openDialog d)) (Unused t) (fun _ ↦ Opening t d)
      fun _ ↦ True := by
    refine .live id stable_unused (fun _ ↦ stable_opening) Discipline.stable_true
      (fun w x w' h hunused _ _ hr ↦ ?_) fun _ _ _ ↦ trivial
    cases hr
    exact ⟨guarantee_openDialog h hunused, opening_openDialog⟩
  exact hopen.bind fun _ ↦ keeps_showHistory

/-- Worker `t` is to page back in dialog `d`, from wherever the cursor is. -/
def PagingAny (t : TaskId) (d : ℤ) (w : World) : Prop := ∃ offset, Paging t d offset w

theorem stable_pagingAny : (discipline s).Stable t (PagingAny t d) := by
  rintro w w' h ⟨offset, hpaging⟩ hothers
  exact ⟨offset, stable_paging w w' h hpaging hothers⟩

theorem stable_prepended {older : Page} (oldest : Option ℤ) :
    (discipline s).Stable t (Prepended t d offset older oldest) := by
  cases oldest with
  | none => exact stable_paging
  | some oldest =>
    rintro w w' h ⟨hpaged, hid⟩ hothers
    exact ⟨stable_paged w w' h hpaged hothers, hid⟩

/-- `_backfill_history` has read its page. -/
theorem keeps_prepend (older : Page) (hbelow : Below s d offset older) :
    Keeps setup s t (do
        let oldest : Option ℤ ← perform (.prepend d older)
        match oldest with
        | none => return ()
        | some oldest => perform (.noteBackfill d oldest older))
      (Paging t d offset) (fun _ ↦ PagingAny t d) (PagingAny t d) := by
  have hprepend : Keeps setup s t (perform (.prepend d older)) (Paging t d offset)
      (Prepended t d offset older) (PagingAny t d) := by
    refine .live id stable_paging stable_prepended stable_pagingAny
      (fun w x w' h hpaging ht _ hr ↦ ?_) fun w hpaging _ ↦ ⟨offset, hpaging⟩
    cases hr
    exact guarantee_prepend h ht hpaging hbelow
  refine hprepend.bind ?_
  rintro (_ | oldest)
  · exact .ret stable_paging fun w _ hpaging ↦ ⟨offset, hpaging⟩
  · refine .assuming (fun w _ hw ↦ hw.2) fun hid ↦ ?_
    have hnote : Keeps setup s t (perform (.noteBackfill d oldest older)) (Paged t d oldest)
        (fun _ ↦ PagingAny t d) (PagingAny t d) := by
      refine .live id stable_paged (fun _ ↦ stable_pagingAny) stable_pagingAny
        (fun w x w' h hpaged ht halign hr ↦ ?_) fun w hpaged ht ↦ ?_
      · cases hr
        obtain ⟨hg, hpaging⟩ := guarantee_noteBackfill h ht hpaged halign hbelow hid
        exact ⟨hg, oldest, hpaging⟩
      · exact ⟨oldest, hpaged.1, fun ht' ↦ absurd ht ht'⟩
    exact hnote.pre fun w hw ↦ hw.1

theorem keeps_backfillHistory (hmem : offset ∈ serverIds s d) :
    Keeps setup s t (backfillHistory d offset) (Paging t d offset) (fun _ _ ↦ True)
      fun _ ↦ True := by
  have hbegin : Keeps setup s t (perform .begin) (Paging t d offset)
      (fun _ ↦ Paging t d offset) fun _ ↦ True := by
    refine .live id stable_paging (fun _ ↦ stable_paging) Discipline.stable_true
      (fun w x w' h hpaging _ _ hr ↦ ?_) fun _ _ _ ↦ trivial
    cases hr
    exact ⟨guarantee_refl h, hpaging⟩
  have hrelease : Keeps setup s t (perform (.release d)) (PagingAny t d) (fun _ _ ↦ True)
      fun _ ↦ True := by
    refine .perform stable_pagingAny (fun _ ↦ Discipline.stable_true) Discipline.stable_true
      (fun w x w' h hpaging _ _ hr ↦ ?_) fun _ _ _ _ ↦ trivial
    obtain ⟨id, hpaging⟩ := hpaging
    cases hr
    exact ⟨guarantee_release h hpaging, trivial⟩
  have hopen : Keeps setup s t (perform (.isOpen d)) (Paging t d offset)
      (fun _ ↦ Paging t d offset) (PagingAny t d) := by
    refine .live id stable_paging (fun _ ↦ stable_paging) stable_pagingAny
      (fun w x w' h hpaging _ _ hr ↦ ?_) fun w hpaging _ ↦ ⟨offset, hpaging⟩
    cases hr
    exact ⟨guarantee_refl h, hpaging⟩
  have hread : Keeps setup s t (perform (.history d historyPageSize offset)) (Paging t d offset)
      (fun page w ↦ page = .ofHistory s d historyPageSize offset ∧ Paging t d offset w)
      (PagingAny t d) := by
    exact (keeps_history historyPageSize stable_paging fun w hw ↦ hw).except
      fun w hpaging ↦ ⟨offset, hpaging⟩
  refine hbegin.bind fun _ ↦ .always (fun _ ↦ Discipline.stable_true) Discipline.stable_true
    (hopen.bind ?_) (fun _ ↦ hrelease) hrelease
  rintro (_ | _)
  · exact .ret stable_paging fun w _ hpaging ↦ ⟨offset, hpaging⟩
  · refine (hread.attempt (fun page ↦ stable_paging.and_pure) stable_pagingAny).bind ?_
    rintro (_ | older)
    · exact .ret stable_pagingAny fun w _ hpaging ↦ hpaging
    · refine .assuming (fun w _ hw ↦ hw.1) fun hpage ↦ ?_
      refine (keeps_prepend older ⟨hmem, ?_⟩).pre fun w hw ↦ hw.2
      rw [hpage]
      exact ids_ofHistory historyPageSize hmem

/-- What `_maybe_backfill_history` goes on with. -/
def Due (s : Server) (t : TaskId) : Option (ℤ × ℤ) → World → Prop
  | none, _ => True
  | some (d, offset), w => Paging t d offset w ∧ offset ∈ serverIds s d

theorem stable_due (due : Option (ℤ × ℤ)) : (discipline s).Stable t (Due s t due) := by
  rcases due with _ | ⟨d, offset⟩
  · exact Discipline.stable_true
  · rintro w w' h ⟨hpaging, hmem⟩ hothers
    exact ⟨stable_paging w w' h hpaging hothers, hmem⟩

theorem keeps_maybeBackfillHistory : Keeps setup s t maybeBackfillHistory (Unused t)
    (fun _ _ ↦ True) fun _ ↦ True := by
  have hdue : Keeps setup s t (perform .maybeBackfill) (Unused t) (Due s t) fun _ ↦ True := by
    refine .live id stable_unused stable_due Discipline.stable_true
      (fun w x w' h hunused _ _ hr ↦ ?_) fun _ _ _ ↦ trivial
    obtain ⟨rfl, rfl⟩ := Reply.done.inj hr
    rcases maybeBackfill_cases t w with hnone | ⟨d, offset, hcurrent, holdest, hfree, hsome⟩
    · rw [hnone]
      exact ⟨guarantee_refl h, trivial⟩
    · rw [hsome]
      obtain ⟨hg, hpaging⟩ := guarantee_maybeBackfill h hunused hcurrent holdest hfree rfl
      exact ⟨hg, hpaging, (h.cursor d offset hcurrent holdest).1⟩
  refine hdue.bind ?_
  rintro (_ | ⟨d, offset⟩)
  · exact .ret Discipline.stable_true fun _ _ _ ↦ trivial
  · refine .assuming (fun w _ hw ↦ hw.2) fun hmem ↦ ?_
    exact (keeps_backfillHistory hmem).pre fun w hw ↦ hw.1

theorem keeps_clearPane : Keeps setup s t (perform (.clearPane d)) (fun _ ↦ True)
    (fun _ _ ↦ True) fun _ ↦ True := by
  refine .live id Discipline.stable_true (fun _ ↦ Discipline.stable_true) Discipline.stable_true
    (fun w x w' h _ _ _ hr ↦ ?_) fun _ _ _ ↦ trivial
  rw [act] at hr
  split at hr
  · cases hr
    exact ⟨guarantee_clear h, trivial⟩
  · cases hr
    exact ⟨guarantee_refl h, trivial⟩

/-- The part of `_translate_whole_dialog` that may fail. -/
theorem keeps_pass : Keeps setup s t (do
      let cap : ℕ ← perform .maxMessages
      let page : Page ← perform (.history d cap 0)
      let translated : Page ← perform (.translateHistory d page)
      let isOpen : Bool ← perform (.clearPane d)
      if isOpen then perform (.mountTranslated d translated) else return ())
    (fun _ ↦ True) (fun _ _ ↦ True) fun _ ↦ True := by
  have hcap : Keeps setup s t (perform .maxMessages) (fun _ ↦ True) (fun _ _ ↦ True)
      fun _ ↦ True := by
    refine .quiet id Discipline.stable_true (fun _ ↦ Discipline.stable_true) (fun _ _ ↦ trivial)
      (fun w x w' hr ↦ ?_) fun _ _ _ _ _ _ ↦ trivial
    rw [act] at hr
    split at hr <;> cases hr <;> exact .inr rfl
  have htranslate (page : Page) : Keeps setup s t (perform (.translateHistory d page))
      (fun _ ↦ True) (fun translated _ ↦ translated.ids = page.ids) fun _ ↦ True := by
    refine .quiet id Discipline.stable_true (fun _ w w' _ hw _ ↦ hw) (fun _ _ ↦ trivial)
      (fun w x w' hr ↦ ?_) fun w r w' _ _ hr ↦ ?_
    · rw [act] at hr
      split at hr <;> cases hr <;> exact .inr rfl
    · rw [act] at hr
      split at hr
      · cases hr
      · obtain ⟨htranslated, -⟩ := Reply.done.inj hr
        rw [← Except.ok.inj htranslated, Page.ids_translated]
  have hmount (translated : Page) (hpage : translated.ids <:+: serverIds s d) :
      Keeps setup s t (perform (.mountTranslated d translated)) (fun _ ↦ True)
        (fun _ _ ↦ True) fun _ ↦ True := by
    refine .live id Discipline.stable_true (fun _ ↦ Discipline.stable_true) Discipline.stable_true
      (fun w x w' h _ _ halign hr ↦ ?_) fun _ _ _ ↦ trivial
    cases hr
    exact ⟨guarantee_mountTranslated h halign hpage, trivial⟩
  refine hcap.bind fun cap ↦ (keeps_history cap Discipline.stable_true fun _ _ ↦ trivial).bind
    fun page ↦ .assuming (fun w _ hw ↦ hw.1) fun hpage ↦ ?_
  refine .pre ((htranslate page).bind fun translated ↦
    .assuming (fun w _ hw ↦ hw) fun htranslated ↦ ?_) fun w _ ↦ trivial
  have hrun : translated.ids <:+: serverIds s d := by
    rw [htranslated, hpage]
    exact newest_isInfix cap
  refine .pre (keeps_clearPane.bind ?_) fun w _ ↦ trivial
  rintro (_ | _)
  · exact .ret Discipline.stable_true fun _ _ _ ↦ trivial
  · exact hmount translated hrun

theorem keeps_translateWholeDialog : Keeps setup s t (translateWholeDialog d) (fun _ ↦ True)
    (fun _ _ ↦ True) fun _ ↦ True := by
  have hstatus : Keeps setup s t (perform (.showStatus d)) (fun _ ↦ True) (fun _ _ ↦ True)
      fun _ ↦ True := by
    refine .live id Discipline.stable_true (fun _ ↦ Discipline.stable_true) Discipline.stable_true
      (fun w x w' h _ _ _ hr ↦ ?_) fun _ _ _ ↦ trivial
    rw [act] at hr
    split at hr
    · cases hr
      exact ⟨guarantee_clearIndex h, trivial⟩
    · cases hr
      exact ⟨guarantee_refl h, trivial⟩
  refine keeps_clearPane.bind ?_
  rintro (_ | _)
  · exact .ret Discipline.stable_true fun _ _ _ ↦ trivial
  · refine hstatus.bind ?_
    rintro (_ | _)
    · exact .ret Discipline.stable_true fun _ _ _ ↦ trivial
    · refine (keeps_pass.attempt (fun _ ↦ Discipline.stable_true) Discipline.stable_true).bind
        fun _ ↦ ?_
      have hdone : Keeps setup s t (.ret ()) (fun _ ↦ True) (fun _ _ ↦ True) fun _ ↦ True :=
        .ret Discipline.stable_true fun _ _ _ ↦ trivial
      exact hdone.pre fun w _ ↦ trivial

theorem keeps_actionTranslateAll : Keeps setup s t actionTranslateAll (Unused t)
    (fun _ _ ↦ True) fun _ ↦ True := by
  have hstart : Keeps setup s t (perform .translateAll) (Unused t) (fun _ _ ↦ True)
      fun _ ↦ True := by
    refine .live id stable_unused (fun _ ↦ Discipline.stable_true) Discipline.stable_true
      (fun w x w' h hunused _ _ hr ↦ ?_) fun _ _ _ ↦ trivial
    rw [act] at hr
    split at hr
    · cases hr
      exact ⟨guarantee_refl h, trivial⟩
    · cases hr
      exact ⟨guarantee_translateAll h hunused, trivial⟩
  have hready : Keeps setup s t (perform .ensureLang) (fun _ ↦ True) (fun _ _ ↦ True)
      fun _ ↦ True := by
    refine .quiet id Discipline.stable_true (fun _ ↦ Discipline.stable_true) (fun _ _ ↦ trivial)
      (fun w x w' hr ↦ ?_) fun _ _ _ _ _ _ ↦ trivial
    cases hr
    exact .inr rfl
  refine hstart.bind ?_
  rintro (_ | d)
  · exact .ret Discipline.stable_true fun _ _ _ ↦ trivial
  · refine hready.bind ?_
    rintro (_ | _)
    · exact .ret Discipline.stable_true fun _ _ _ ↦ trivial
    · exact keeps_translateWholeDialog

theorem keeps_gesture (gesture : Gesture) : Keeps setup s t gesture.prog (Unused t)
    (fun _ _ ↦ True) fun _ ↦ True := by
  cases gesture with
  | openDialog d => exact keeps_openDialog
  | wheelUp => exact keeps_maybeBackfillHistory
  | translateAll => exact keeps_actionTranslateAll

end Workers

/-! ## Runs -/

section Runs

variable {setup : Setup} {gestures : ℕ → Gesture} {c : TuiConfig}

theorem faithful_init (s : Server) : Faithful s (.init s) where
  server := rfl
  runs _ := List.nil_infix
  marks _ _ h := nomatch h
  cursor _ _ h := nomatch h
  settled _ _ h := nomatch h
  holders _ _ h := nomatch h
  apart _ _ _ h := nomatch h

/-- What holds in every run. -/
theorem faithful_of_reaches (hrun : Reaches (still setup) Steady
    (start s (.looking gestures)) c) : Faithful s c.shared := by
  have hrestricted : Reaches ((still setup).restrict InStep) anyMove
      (start s (.looking gestures)) c := Reaches.restrict hrun
  have hunused (t : TaskId) : Unused t (.init s) := fun g hg ↦ nomatch hg
  have htasks (t : TaskId) : Keeps setup s t ((start s (.looking gestures)).task t) (Unused t)
      (fun _ _ ↦ True) fun _ ↦ True := by
    cases t with
    | incoming => exact .ret stable_unused fun _ _ _ ↦ trivial
    | outgoing => exact .ret stable_unused fun _ _ _ ↦ trivial
    | action n => exact keeps_gesture (gestures n)
  exact (Asyncio.Keeps.sound (faithful_init s) hunused htasks (fun _ _ e ↦ nomatch e)
    hrestricted).1

/-- What is refused because nothing older is left begins with the first message of the dialog. -/
theorem head?_shown_of_refused {w : World} (h : Faithful s w) (hcurrent : w.current = some d)
    (hrefused : w.Refused) (hshown : w.shown ≠ []) :
    w.shown.head? = (serverIds s d).head? := by
  obtain ⟨holdest, hmark⟩ := hrefused
  obtain ⟨id, hid⟩ := Option.ne_none_iff_exists'.mp holdest
  rw [hcurrent, hid] at hmark
  have hhead := h.marks d id hmark
  rw [World.shown_of_current hcurrent] at hshown ⊢
  rw [hhead]
  refine List.head?_of_isInfix ((ascending_serverIds s d).imp ne_of_lt) (h.runs d) hhead ?_
  rcases (h.cursor d id hcurrent hid).2 with hbelow | hmem
  · -- nothing comes before the first message, so nothing would be shown
    obtain ⟨x, hx⟩ := List.exists_mem_of_ne_nil _ hshown
    obtain ⟨rest, hrest⟩ := List.head?_eq_some_iff.mp hhead
    have hascending := ascending_serverIds s d
    have hmem := (h.runs d).subset hx
    rw [hrest] at hascending hmem
    rcases List.mem_cons.mp hmem with rfl | hmem
    · exact hx
    · exact absurd (hbelow x hx) (lt_asymm ((List.pairwise_cons.mp hascending).1 x hmem))
  · exact hmem

/-- While the server stands still, in every run in which every pass of Ctrl+T mounts its page where
its dialog is still open, nothing of it is shown and the cursor names the first message of the
page, and the cursor and the wheel find what is shown: the ids shown for the open dialog are a
contiguous run of its history, and where paging is refused because the dialog is marked exhausted
at the cursor, the first of them is the first of the history. -/
theorem backfill_complete (hrun : Reaches (still setup) Steady
    (start s (.looking gestures)) c) (hcurrent : c.shared.current = some d) :
    c.shared.shown <:+: serverIds s d ∧
    ∀ t k, c.task t = .op .maybeBackfill k → t ∉ c.shared.cancelled →
      c.shared.Aligned .maybeBackfill → c.shared.Refused →
      c.shared.shown.head? = (serverIds s d).head? := by
  have h := faithful_of_reaches hrun
  constructor
  · rw [World.shown_of_current hcurrent]
    exact h.runs d
  · intro t k _ _ halign hrefused
    exact head?_shown_of_refused h hcurrent hrefused (halign hrefused)

end Runs

/-! ## A pass and the cursor -/

/-- Dialog 7 is opened, translated, paged back and opened again. -/
def lookAround : ℕ → Gesture
  | 0 => .openDialog 7
  | 1 => .translateAll
  | 2 => .wheelUp
  | _ => .openDialog 7

/-- A pass that shows what is shown already. -/
theorem backfill_complete_of_cap :
    ∃ c, Reaches (still (online 100)) Steady
        (start (.ofIds 7 [1, 2, 3]) (.looking lookAround)) c ∧
      c.shared.shown = [1, 2, 3] ∧ c.shared.Refused ∧
      c.shared.shown <:+: serverIds (.ofIds 7 [1, 2, 3]) 7 := by
  have hexec : ((Machine.guarded (Config.step (still (online 100))) Steady).exec
      (start (.ofIds 7 [1, 2, 3]) (.looking lookAround))
      (moves (.action 0) 5 ++ moves (.action 1) 9 ++ moves (.action 2) 1 ++
        moves (.action 3) 5)).any (fun c ↦ c.shared.current = some 7 ∧
          c.shared.shown = [1, 2, 3] ∧ c.shared.Refused) = true := by
    decide +kernel
  obtain ⟨c, hrun, hcurrent, hshown, hrefused⟩ := Machine.exists_run_of_exec hexec
  exact ⟨c, hrun, hshown, hrefused, (backfill_complete hrun hcurrent).1⟩

/-- A pass over one message leaves the cursor where it was: the next page is put before that
message, and leaves out all others; and in a dialog that was shown as a whole there is no next
page. -/
theorem backfill_incomplete :
    (∃ c, Reaches (still (online 1)) anyMove
        (start (.ofIds 7 ((List.range 51).map fun n ↦ n + 1)) (.looking lookAround)) c ∧
      c.shared.current = some 7 ∧ c.shared.shown = [1, 51] ∧
      ¬c.shared.shown <:+: serverIds (.ofIds 7 ((List.range 51).map fun n ↦ n + 1)) 7) ∧
    ∃ c, Reaches (still (online 1)) anyMove (start (.ofIds 7 [1, 2]) (.looking lookAround)) c ∧
      c.shared.current = some 7 ∧ c.shared.Refused ∧ c.shared.shown = [2] ∧
      serverIds (.ofIds 7 [1, 2]) 7 = [1, 2] := by
  constructor
  · have hexec : ((Machine.guarded (Config.step (still (online 1))) fun _ _ ↦ True).exec
        (start (.ofIds 7 ((List.range 51).map fun n ↦ n + 1)) (.looking lookAround))
        (moves (.action 0) 5 ++ moves (.action 1) 9 ++ moves (.action 2) 7)).any (fun c ↦
          c.shared.current = some 7 ∧ c.shared.shown = [1, 51] ∧
          ¬c.shared.shown <:+:
            serverIds (.ofIds 7 ((List.range 51).map fun n ↦ n + 1)) 7) = true := by
      decide +kernel
    obtain ⟨c, hrun, h⟩ := Machine.exists_run_of_exec hexec
    exact ⟨c, hrun, h⟩
  · have hexec : ((Machine.guarded (Config.step (still (online 1))) fun _ _ ↦ True).exec
        (start (.ofIds 7 [1, 2]) (.looking lookAround))
        (moves (.action 0) 5 ++ moves (.action 1) 9)).any (fun c ↦
          c.shared.current = some 7 ∧ c.shared.Refused ∧ c.shared.shown = [2] ∧
          serverIds (.ofIds 7 [1, 2]) 7 = [1, 2]) = true := by
      decide +kernel
    obtain ⟨c, hrun, h⟩ := Machine.exists_run_of_exec hexec
    exact ⟨c, hrun, h⟩

end TgMessenger.Tui
