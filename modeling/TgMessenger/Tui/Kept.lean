import TgMessenger.Asyncio.Keeps
import TgMessenger.Tui.Composer

/-!
# No submitted text is lost

A text that Enter took out of the composer is on its way, or it was sent, or the user was told that
it failed, or he has it again: in the composer if its dialog is open, or else as the draft of the
dialog.

The code loses a text where it takes for granted what another dialog or another Enter has changed
meanwhile.  `Spares` says for each operation what it must find.
-/

namespace TgMessenger.Tui.Composer

open Asyncio

/-! ## What is kept -/

namespace World

variable {w w' w'' : World} {e e' : Submission} {d : ℤ} {t : ℕ}

/-- The user has the text of a submission. -/
def Holds (w : World) (e : Submission) : Prop :=
  if w.current = some e.dialog then w.composer = e.text
  else (w.composeStates e.dialog).draft = e.text

theorem holds_open (h : w.current = some e.dialog) : w.Holds e ↔ w.composer = e.text := by
  rw [Holds, if_pos h]

theorem holds_closed (h : w.current ≠ some e.dialog) :
    w.Holds e ↔ (w.composeStates e.dialog).draft = e.text := by
  rw [Holds, if_neg h]

/-- Only what belongs to a dialog has changed. -/
structure Apart (d : ℤ) (w w' : World) : Prop where
  current : w'.current = w.current
  composer : w.current ≠ some d → w'.composer = w.composer
  states : ∀ d', d' ≠ d → w'.composeStates d' = w.composeStates d'

namespace Apart

theorem refl (d : ℤ) (w : World) : Apart d w w := ⟨rfl, fun _ ↦ rfl, fun _ _ ↦ rfl⟩

theorem trans (h : Apart d w w') (h' : Apart d w' w'') : Apart d w w'' where
  current := h'.current.trans h.current
  composer hd := (h'.composer (by rwa [h.current])).trans (h.composer hd)
  states d' hd' := (h'.states d' hd').trans (h.states d' hd')

theorem setState (h : Apart d w w') (state : ComposeState) : Apart d w (w'.setState d state) where
  current := h.current
  composer := h.composer
  states d' hd' := by
    rw [← h.states d' hd']
    exact Function.update_of_ne hd' state w'.composeStates

theorem setComposer (h : Apart d w w') (hd : w.current = some d) (value : String) :
    Apart d w (w'.setComposer value) where
  current := (current_setComposer value w').trans h.current
  composer hne := absurd hd hne
  states d' hd' := by
    rw [composeStates_setComposer]
    exact h.states d' hd'

theorem showIn (h : Apart d w w') (value : String) : Apart d w (w'.showIn d value) := by
  rw [World.showIn]
  split
  · next hd => exact h.setComposer (h.current.symm.trans hd) value
  · exact h

theorem takeUp (h : Apart d w w') (d' : ℤ) (text : String) : Apart d w (w'.takeUp d' text) :=
  ⟨h.current, h.composer, h.states⟩

theorem settle (h : Apart d w w') (t : ℕ) (fate : Fate) : Apart d w (w'.settle t fate) :=
  ⟨h.current, h.composer, h.states⟩

theorem notify (h : Apart d w w') (notice : String) : Apart d w (w'.notify notice) :=
  ⟨h.current, h.composer, h.states⟩

/-- What another dialog holds is not touched. -/
theorem holds_iff (h : Apart d w w') (hne : e.dialog ≠ d) : w'.Holds e ↔ w.Holds e := by
  rw [Holds, Holds, h.current, h.states e.dialog hne]
  split
  · next hd =>
    have hcurrent : w.current ≠ some d := by
      rw [hd]
      exact fun heq ↦ hne (Option.some.inj heq)
    rw [h.composer hcurrent]
  · exact Iff.rfl

end Apart

/-! ## What is told of the texts -/

/-- A text that is taken up was given back before. -/
theorem of_mem_takeUp {text : String} (h : e' ∈ (w.takeUp d text).submissions) :
    (e' ∈ w.submissions ∧ ¬ (e'.fate = .back ∧ e'.dialog = d ∧ e'.text = text)) ∨
      ∃ e ∈ w.submissions, e' = { e with fate := .taken } := by
  obtain ⟨e, he, rfl⟩ := List.mem_map.mp h
  split
  · exact .inr ⟨e, he, rfl⟩
  · next hne => exact .inl ⟨he, hne⟩

/-- Something becomes of the texts of one task. -/
theorem of_mem_settle {fate : Fate} (h : e' ∈ (w.settle t fate).submissions) :
    (e' ∈ w.submissions ∧ e'.task ≠ t) ∨
      ∃ e ∈ w.submissions, e.task = t ∧ e' = { e with fate := fate } := by
  obtain ⟨e, he, rfl⟩ := List.mem_map.mp h
  split
  · next ht => exact .inr ⟨e, he, ht, rfl⟩
  · next hne => exact .inl ⟨he, hne⟩

/-- The text of the worker that is cancelled is given back. -/
theorem of_mem_startOutbound (h : e' ∈ (w.startOutbound t).submissions) :
    (e' ∈ w.submissions ∧ ¬ (w.outbound = some e'.task ∧ e'.fate = .going)) ∨
      ∃ e ∈ w.submissions, w.outbound = some e.task ∧ e.fate = .going ∧
        e' = { e with fate := .back } := by
  obtain ⟨e, he, rfl⟩ := List.mem_map.mp h
  split
  · next hgoing => exact .inr ⟨e, he, hgoing.1, hgoing.2, rfl⟩
  · next hne => exact .inl ⟨he, hne⟩

end World

/-- The user has what was given back to him, and no cancelled worker is still on its way. -/
structure Kept (w : World) : Prop where
  held : ∀ e ∈ w.submissions, e.fate = .back → w.Holds e
  going : ∀ e ∈ w.submissions, e.fate = .going → e.task ∉ w.cancelled

/-- What the others may do while `u` stands still. -/
structure Others (u : ℕ) (w w' : World) : Prop where
  kept : Kept w'
  cancelled : w.cancelled ⊆ w'.cancelled
  /-- Nobody puts `u` in the group. -/
  outbound : w'.outbound = some u → w.outbound = some u
  /-- Nobody submits a text for `u`. -/
  texts : ∀ e' ∈ w'.submissions, e'.task = u → ∃ e ∈ w.submissions, e.task = u ∧
    e.dialog = e'.dialog ∧ e.text = e'.text ∧ (e'.fate = .going → e.fate = .going)
  /-- Nobody gives a text back while `u` is the worker of the group. -/
  alone : w.outbound = some u → u ∉ w'.cancelled → w'.outbound = some u ∧
    ∀ e' ∈ w'.submissions, e'.fate = .back → e' ∈ w.submissions

/-- Every worker keeps what is kept. -/
def discipline : Discipline ℕ World where
  inv := Kept
  others := Others
  inv_of_others _ _ _ h := h.kept

/-- A worker that has taken no text. -/
def Fresh (t : ℕ) (w : World) : Prop := w.outbound ≠ some t ∧ ∀ e ∈ w.submissions, e.task ≠ t

/-- What the worker has to send. -/
def Sending (t : ℕ) (d : ℤ) (text : String) (w : World) : Prop :=
  ∀ e ∈ w.submissions, e.task = t → e.dialog = d ∧ e.text = text

/-- The worker is the one of the group, and nothing was given back in its dialog. -/
def Flowing (t : ℕ) (d : ℤ) (text : String) (w : World) : Prop :=
  Sending t d text w ∧ (t ∉ w.cancelled → w.outbound = some t ∧
    ∀ e ∈ w.submissions, e.fate = .back → e.dialog ≠ d)

/-- Something became of what the worker has taken. -/
def Over (t : ℕ) (w : World) : Prop := ∀ e ∈ w.submissions, e.task = t → e.fate ≠ .going

section Assertions

variable {t u : ℕ} {d : ℤ} {text : String} {w w' : World}

theorem stable_fresh : discipline.Stable t (Fresh t) := by
  rintro w w' - ⟨houtbound, hfresh⟩ hothers
  refine ⟨fun h ↦ houtbound (hothers.outbound h), fun e he ht ↦ ?_⟩
  obtain ⟨e₀, he₀, ht₀, -⟩ := hothers.texts e he ht
  exact hfresh e₀ he₀ ht₀

theorem stable_sending : discipline.Stable t (Sending t d text) := by
  rintro w w' - hsending hothers e he ht
  obtain ⟨e₀, he₀, ht₀, hdialog, htext, -⟩ := hothers.texts e he ht
  rw [← hdialog, ← htext]
  exact hsending e₀ he₀ ht₀

theorem stable_flowing : discipline.Stable t (Flowing t d text) := by
  rintro w w' hw ⟨hsending, hflowing⟩ hothers
  refine ⟨stable_sending w w' hw hsending hothers, fun ht ↦ ?_⟩
  obtain ⟨houtbound, hback⟩ := hflowing fun h ↦ ht (hothers.cancelled h)
  obtain ⟨houtbound', hback'⟩ := hothers.alone houtbound ht
  exact ⟨houtbound', fun e he hfate ↦ hback e (hback' e he hfate) hfate⟩

theorem stable_over : discipline.Stable t (Over t) := by
  rintro w w' - hover hothers e he ht hgoing
  obtain ⟨e₀, he₀, ht₀, -, -, hfate⟩ := hothers.texts e he ht
  exact hover e₀ he₀ ht₀ (hfate hgoing)

/-- Of a worker that was cancelled nothing is on its way. -/
theorem Kept.over (h : Kept w) (ht : t ∈ w.cancelled) : Over t w := by
  rintro e he rfl hgoing
  exact h.going e he hgoing ht

/-- A move that starts and cancels no worker of the group, and gives texts back only if they are of
that worker. -/
theorem others_of_same (hkept : Kept w') (hcancelled : w'.cancelled = w.cancelled)
    (houtbound : w'.outbound = w.outbound)
    (htexts : ∀ e' ∈ w'.submissions,
      (e'.task ≠ u ∧ (e'.fate = .back → w.outbound ≠ some u)) ∨ e' ∈ w.submissions ∨
        ∃ e ∈ w.submissions, e' = { e with fate := .taken }) : Others u w w' where
  kept := hkept
  cancelled := by rw [hcancelled]; exact fun _ ↦ id
  outbound h := by rwa [← houtbound]
  texts e' he' hu := by
    rcases htexts e' he' with ⟨hne, -⟩ | he | ⟨e, he, rfl⟩
    · exact absurd hu hne
    · exact ⟨e', he, hu, rfl, rfl, id⟩
    · exact ⟨e, he, hu, rfl, rfl, nofun⟩
  alone hu _ := by
    refine ⟨houtbound.trans hu, fun e' he' hback ↦ ?_⟩
    rcases htexts e' he' with ⟨-, hne⟩ | he | ⟨e, he, rfl⟩
    · exact absurd hu (hne hback)
    · exact he
    · cases hback

/-- The same, for a move of a worker, which may do anything to its own texts, but gives them back
only if it is the worker of the group. -/
theorem guarantee_of_same (hkept : Kept w') (hcancelled : w'.cancelled = w.cancelled)
    (houtbound : w'.outbound = w.outbound)
    (htexts : ∀ e' ∈ w'.submissions,
      (e'.task = t ∧ (e'.fate = .back → w.outbound = some t)) ∨ e' ∈ w.submissions ∨
        ∃ e ∈ w.submissions, e' = { e with fate := .taken }) : discipline.Guarantee t w w' := by
  refine ⟨hkept, fun u hu ↦ others_of_same hkept hcancelled houtbound fun e' he' ↦ ?_⟩
  rcases htexts e' he' with ⟨rfl, hback⟩ | h
  · refine .inl ⟨hu.symm, fun hfate heq ↦ hu ?_⟩
    exact (Option.some.inj ((hback hfate).symm.trans heq)).symm
  · exact .inr h

theorem guarantee_refl (h : Kept w) : discipline.Guarantee t w w :=
  guarantee_of_same h rfl rfl fun _ he ↦ .inr (.inl he)

end Assertions

/-! ## What the user does -/

section Env

variable {d : ℤ} {w : World}

theorem cancelled_edit (w : World) (value : String) : (w.edit value).cancelled = w.cancelled := by
  rw [World.edit]
  split
  · exact World.cancelled_setComposer value w
  · split
    · rfl
    · exact World.cancelled_setComposer value _

theorem outbound_edit (w : World) (value : String) : (w.edit value).outbound = w.outbound := by
  rw [World.edit]
  split
  · exact World.outbound_setComposer value w
  · split
    · rfl
    · exact World.outbound_setComposer value _

/-- Editing takes up what was given back in the composer. -/
theorem of_mem_edit {e' : Submission} {value : String} (h : e' ∈ (w.edit value).submissions) :
    e' ∈ w.submissions ∨ ∃ e ∈ w.submissions, e' = { e with fate := .taken } := by
  rw [World.edit] at h
  split at h
  · rw [World.submissions_setComposer] at h
    exact .inl h
  · split at h
    · exact .inl h
    · rw [World.submissions_setComposer] at h
      exact (World.of_mem_takeUp h).imp_left And.left

theorem kept_edit (h : Kept w) (value : String) : Kept (w.edit value) := by
  rw [World.edit]
  cases hcurrent : w.current with
  | none =>
    constructor
    · intro e he hback
      rw [World.submissions_setComposer] at he
      have hheld := h.held e he hback
      rw [World.holds_closed (by rw [hcurrent]; nofun)] at hheld
      rw [World.holds_closed (by rw [World.current_setComposer, hcurrent]; nofun),
        World.composeStates_setComposer]
      exact hheld
    · intro e he hgoing
      rw [World.submissions_setComposer] at he
      rw [World.cancelled_setComposer]
      exact h.going e he hgoing
  | some d =>
    dsimp only
    split
    · exact h
    · have hapart : World.Apart d w ((w.takeUp d w.composer).setComposer value) :=
        ((World.Apart.refl d w).takeUp d w.composer).setComposer hcurrent value
      constructor
      · intro e he hback
        rw [World.submissions_setComposer] at he
        rcases World.of_mem_takeUp he with ⟨he, hne⟩ | ⟨e, he, rfl⟩
        · refine (hapart.holds_iff fun hd ↦ hne ⟨hback, hd, ?_⟩).mpr (h.held e he hback)
          exact ((World.holds_open (by rw [hcurrent, hd])).mp (h.held e he hback)).symm
        · cases hback
      · intro e he hgoing
        rw [World.submissions_setComposer] at he
        rw [World.cancelled_setComposer]
        rcases World.of_mem_takeUp he with ⟨he, -⟩ | ⟨e, he, rfl⟩
        · exact h.going e he hgoing
        · cases hgoing

/-- What the user has of a dialog is saved as its draft. -/
theorem draft_saveCurrentComposeState {e : Submission} (h : w.Holds e) :
    (w.saveCurrentComposeState.composeStates e.dialog).draft = e.text := by
  rw [World.saveCurrentComposeState]
  cases hcurrent : w.current with
  | none => exact (World.holds_closed (by rw [hcurrent]; nofun)).mp h
  | some d =>
    by_cases hd : e.dialog = d
    · rw [World.holds_open (by rw [hcurrent, hd])] at h
      rw [← h, hd]
      exact congrArg ComposeState.draft (Function.update_self d _ w.composeStates)
    · rw [World.holds_closed (by rw [hcurrent]; exact fun heq ↦ hd (Option.some.inj heq).symm)] at h
      rw [← h]
      exact congrArg ComposeState.draft (Function.update_of_ne hd _ w.composeStates)

theorem submissions_openDialog (d : ℤ) (w : World) :
    (w.openDialog d).submissions = w.submissions := by
  rw [World.openDialog, World.restoreComposeState, World.submissions_setComposer,
    World.saveCurrentComposeState]
  split <;> rfl

theorem cancelled_openDialog (d : ℤ) (w : World) : (w.openDialog d).cancelled = w.cancelled := by
  rw [World.openDialog, World.restoreComposeState, World.cancelled_setComposer,
    World.saveCurrentComposeState]
  split <;> rfl

theorem outbound_openDialog (d : ℤ) (w : World) : (w.openDialog d).outbound = w.outbound := by
  rw [World.openDialog, World.restoreComposeState, World.outbound_setComposer,
    World.saveCurrentComposeState]
  split <;> rfl

theorem kept_openDialog (h : Kept w) (d : ℤ) : Kept (w.openDialog d) := by
  constructor
  · intro e he hback
    rw [submissions_openDialog] at he
    have hsaved := draft_saveCurrentComposeState (h.held e he hback)
    have hcurrent : (w.openDialog d).current = some d := by
      rw [World.openDialog, World.restoreComposeState, World.current_setComposer]
    by_cases hd : e.dialog = d
    · rw [World.holds_open (by rw [hcurrent, hd]), World.openDialog, World.restoreComposeState,
        World.composer_setComposer, ← hd]
      exact hsaved
    · rw [World.holds_closed (by rw [hcurrent]; exact fun heq ↦ hd (Option.some.inj heq).symm),
        World.openDialog, World.restoreComposeState, World.composeStates_setComposer]
      exact hsaved
  · intro e he hgoing
    rw [submissions_openDialog] at he
    rw [cancelled_openDialog]
    exact h.going e he hgoing

/-- Nothing that the user does in the composer or in the sidebar loses a text. -/
theorem env_kept {setup : Setup} {w w' : World} {e : TuiEvent} (h : Kept w)
    (hs : (system setup).env e w = some w') : Kept w' ∧ ∀ u, Others u w w' := by
  cases e with
  | edit value =>
    obtain rfl := Option.some.inj hs
    refine ⟨kept_edit h value, fun u ↦ others_of_same (kept_edit h value) ?_ ?_ fun e he ↦ ?_⟩
    · exact cancelled_edit w value
    · exact outbound_edit w value
    · exact .inr (of_mem_edit he)
  | pressEnter =>
    obtain rfl := Option.some.inj hs
    have hkept : Kept { w with posted := w.posted ++ [.submitted w.composer] } :=
      ⟨h.held, h.going⟩
    exact ⟨hkept, fun u ↦ others_of_same hkept rfl rfl fun e he ↦ .inr (.inl he)⟩
  | openDialog d =>
    obtain rfl := Option.some.inj hs
    refine ⟨kept_openDialog h d, fun u ↦ others_of_same (kept_openDialog h d) ?_ ?_ fun e he ↦ ?_⟩
    · exact cancelled_openDialog d w
    · exact outbound_openDialog d w
    · rw [submissions_openDialog] at he
      exact .inr (.inl he)

end Env

/-! ## What an operation must find -/

/-- Enter takes the text out of the composer. -/
def Branch.clears : Branch → Bool
  | .refused _ => false
  | _ => true

namespace World

/-- The text that is handled next, if it is one. -/
def entered (w : World) : Option String :=
  match w.posted with
  | .submitted text :: _ => if isBlank text then none else some text
  | _ => none

/-- Enter for a text takes no other text: what was given back in the dialog is that text, and so is
what is on its way there and is cancelled; or this is of another dialog, and the draft there. -/
def SparesEnter (dialog : ℤ) (text : String) (branch : Branch) (w : World) : Prop :=
  (∀ e ∈ w.submissions, e.fate = .back → e.dialog = dialog → e.text = text) ∧
  (branch = .outbound → ∀ e ∈ w.submissions, e.fate = .going → w.outbound = some e.task →
    if e.dialog = dialog then e.text = text else (w.composeStates e.dialog).draft = e.text)

instance (dialog : ℤ) (text : String) (branch : Branch) (w : World) :
    Decidable (w.SparesEnter dialog text branch) := inferInstanceAs (Decidable (_ ∧ _))

/-- What an operation must find. -/
def Spares (setup : Setup) (w : World) : Op → Prop
  | .handle => ∀ dialog ∈ w.current, ∀ text ∈ w.entered,
      (w.branch setup dialog text).clears → w.SparesEnter dialog text (w.branch setup dialog text)
  | .escaped dialog text => w.current = some dialog ∨ (w.composeStates dialog).draft = text
  | .clearAfterSend dialog text =>
    ∀ e ∈ w.submissions, e.fate = .back → e.dialog = dialog → e.text ≠ text
  | .sendFailed dialog text _ =>
    ∀ e ∈ w.submissions, e.fate = .back → e.dialog = dialog →
      e.text = text ∨ w.current = some dialog ∧ w.composer ≠ ""
  | _ => True

instance (setup : Setup) (w : World) : DecidablePred (w.Spares setup)
  | .handle => inferInstanceAs (Decidable (∀ dialog ∈ w.current, ∀ text ∈ w.entered, _ → _))
  | .escaped .. => inferInstanceAs (Decidable (_ ∨ _))
  | .clearAfterSend .. => inferInstanceAs (Decidable (∀ e ∈ w.submissions, _ → _ → ¬ _ = _))
  | .sendFailed .. => inferInstanceAs (Decidable (∀ e ∈ w.submissions, _ → _ → _ ∨ _ ∧ ¬ _ = _))
  | .begin .. | .prepare .. | .dropDraft .. | .offerOriginal .. | .pick .. | .pickedOriginal ..
  | .pickedVariant .. | .send .. | .sendMedia .. => inferInstanceAs (Decidable True)

end World

/-- An operation that is not cut off finds what it must find. -/
def InStep (setup : Setup) (t : ℕ) (o : Op) (w : World) : Prop := t ∉ w.cancelled → w.Spares setup o

instance (setup : Setup) (t : ℕ) (o : Op) (w : World) : Decidable (InStep setup t o w) :=
  inferInstanceAs (Decidable (_ → _))

/-! ## Enter -/

section Enter

variable {t : ℕ} {d : ℤ} {text : String} {w w' : World}

theorem World.Apart.optimisticClear (h : World.Apart d w w') (hd : w.current = some d) :
    World.Apart d w (w'.optimisticClear d) := (h.setState _).setComposer hd ""

theorem submissions_optimisticClear (d : ℤ) (w : World) :
    (w.optimisticClear d).submissions = w.submissions := World.submissions_setComposer "" _

theorem cancelled_optimisticClear (d : ℤ) (w : World) :
    (w.optimisticClear d).cancelled = w.cancelled := World.cancelled_setComposer "" _

theorem outbound_optimisticClear (d : ℤ) (w : World) :
    (w.optimisticClear d).outbound = w.outbound := World.outbound_setComposer "" _

/-- A new text is on its way. -/
theorem Kept.submit (h : Kept w) (ht : t ∉ w.cancelled) (d : ℤ) (text : String) :
    Kept (w.submit t d text) := by
  constructor
  · intro e he hback
    rcases List.mem_append.mp he with he | he
    · exact h.held e he hback
    · rw [List.mem_singleton.mp he] at hback
      cases hback
  · intro e he hgoing
    rcases List.mem_append.mp he with he | he
    · exact h.going e he hgoing
    · rw [List.mem_singleton.mp he]
      exact ht

/-- A worker that had no text has the one it submits. -/
theorem sending_submit (h : ∀ e ∈ w.submissions, e.task ≠ t) :
    Sending t d text (w.submit t d text) := by
  intro e he ht
  rcases List.mem_append.mp he with he | he
  · exact absurd ht (h e he)
  · rw [List.mem_singleton.mp he]
    exact ⟨rfl, rfl⟩

/-- What the worker is to do next, with a text that it has taken. -/
def Entered (t : ℕ) (w : World) : Next → Prop
  | .nothing => Over t w
  | .outboundFlow dialog text => Flowing t dialog text w
  | .sendText dialog text _ => Sending t dialog text w
  | .sendMedia dialog _ _ sourceText => Sending t dialog sourceText w

/-- A refused text stays in the composer. -/
theorem enter_refused (h : Kept w) (hfresh : Fresh t w) (hcurrent : w.current = some d)
    (notice : String) :
    discipline.Guarantee t w (w.enter t d text (.refused notice)).2 ∧
      Entered t (w.enter t d text (.refused notice)).2 (w.enter t d text (.refused notice)).1 := by
  have hapart : World.Apart d w (w.enter t d text (.refused notice)).2 :=
    ((World.Apart.refl d w).setState _).notify notice
  have hkept : Kept (w.enter t d text (.refused notice)).2 := by
    refine ⟨fun e he hback ↦ ?_, h.going⟩
    have hheld := h.held e he hback
    by_cases hd : e.dialog = d
    · rw [World.holds_open (by rw [hcurrent, hd])] at hheld
      rw [World.holds_open (by rw [hapart.current, hcurrent, hd])]
      exact hheld
    · exact (hapart.holds_iff hd).mpr hheld
  exact ⟨guarantee_of_same hkept rfl rfl fun e he ↦ .inr (.inl he),
    fun e he ht ↦ absurd ht (hfresh.2 e he)⟩

/-- What is taken out of the composer at once: nothing else was given back in the dialog. -/
theorem kept_clear (h : Kept w)
    (hspares : ∀ e ∈ w.submissions, e.fate = .back → e.dialog = d → e.text = text)
    (hapart : World.Apart d w w') (hcancelled : w'.cancelled = w.cancelled)
    (hsubmissions : w'.submissions = (w.takeUp d text).submissions) : Kept w' := by
  constructor
  · intro e he hback
    rw [hsubmissions] at he
    rcases World.of_mem_takeUp he with ⟨he, hne⟩ | ⟨e, he, rfl⟩
    · refine (hapart.holds_iff fun hd ↦ hne ⟨hback, hd, ?_⟩).mpr (h.held e he hback)
      exact hspares e he hback hd
    · cases hback
  · intro e he hgoing
    rw [hsubmissions] at he
    rw [hcancelled]
    rcases World.of_mem_takeUp he with ⟨he, -⟩ | ⟨e, he, rfl⟩
    · exact h.going e he hgoing
    · cases hgoing

/-- The composer and the draft are cleared, and perhaps the text is submitted. -/
theorem enter_clear (h : Kept w) (hfresh : Fresh t w) (ht : t ∉ w.cancelled)
    (hcurrent : w.current = some d)
    (hspares : ∀ e ∈ w.submissions, e.fate = .back → e.dialog = d → e.text = text)
    (hw' : w' = ((w.setState d { w.composeStates d with draft := text }).takeUp d
      text).optimisticClear d) :
    (discipline.Guarantee t w w' ∧ Over t w') ∧
      discipline.Guarantee t w (w'.submit t d text) ∧ Sending t d text (w'.submit t d text) := by
  have hapart : World.Apart d w w' := by
    rw [hw']
    exact (((World.Apart.refl d w).setState _).takeUp d text).optimisticClear hcurrent
  have hcancelled : w'.cancelled = w.cancelled := by
    rw [hw', cancelled_optimisticClear]
    rfl
  have houtbound : w'.outbound = w.outbound := by
    rw [hw', outbound_optimisticClear]
    rfl
  have hsubmissions : w'.submissions = (w.takeUp d text).submissions := by
    rw [hw', submissions_optimisticClear]
    rfl
  have htexts (e' : Submission) (he' : e' ∈ w'.submissions) :
      e' ∈ w.submissions ∨ ∃ e ∈ w.submissions, e' = { e with fate := .taken } := by
    rw [hsubmissions] at he'
    exact (World.of_mem_takeUp he').imp_left And.left
  have hkept : Kept w' := kept_clear h hspares hapart hcancelled hsubmissions
  have hnone : ∀ e ∈ w'.submissions, e.task ≠ t := by
    intro e he
    rcases htexts e he with he | ⟨e₀, he₀, rfl⟩
    · exact hfresh.2 e he
    · exact hfresh.2 e₀ he₀
  refine ⟨⟨?_, fun e he ht ↦ absurd ht (hnone e he)⟩, ?_, sending_submit hnone⟩
  · exact guarantee_of_same hkept hcancelled houtbound fun e he ↦ .inr (htexts e he)
  · refine guarantee_of_same (hkept.submit (by rwa [hcancelled]) d text) hcancelled houtbound ?_
    intro e he
    rcases List.mem_append.mp he with he | he
    · exact .inr (htexts e he)
    · rw [List.mem_singleton.mp he]
      exact .inl ⟨rfl, nofun⟩

/-- When another worker is started in the group, a text that was submitted before stays what it was,
or is taken up, or is given back in another dialog. -/
theorem of_mem_restart {e' : Submission} (hcurrent : w.current = some d)
    (hspares : w.SparesEnter d text .outbound)
    (he' : e' ∈ ((w.startOutbound t).takeUp d text).submissions) :
    (e' ∈ w.submissions ∧ (e'.fate = .going → w.outbound ≠ some e'.task) ∧
      (e'.fate = .back → e'.dialog ≠ d)) ∨
    ∃ e ∈ w.submissions, e' = { e with fate := .taken } ∨
      e' = { e with fate := .back } ∧ e.dialog ≠ d ∧ w.Holds e := by
  obtain ⟨hback, hcut⟩ := hspares
  rcases World.of_mem_takeUp he' with ⟨he', hne⟩ | ⟨e, he, rfl⟩
  · rcases World.of_mem_startOutbound he' with ⟨he', hgoing⟩ | ⟨e, he, hof, hgoing, rfl⟩
    · refine .inl ⟨he', fun hfate hof ↦ hgoing ⟨hof, hfate⟩, fun hfate hd ↦ ?_⟩
      exact hne ⟨hfate, hd, hback e' he' hfate hd⟩
    · have hspared := hcut rfl e he hgoing hof
      have hd : e.dialog ≠ d := by
        intro hd
        rw [if_pos hd] at hspared
        exact hne ⟨rfl, hd, hspared⟩
      rw [if_neg hd] at hspared
      refine .inr ⟨e, he, .inr ⟨rfl, hd, (World.holds_closed ?_).mpr hspared⟩⟩
      rw [hcurrent]
      exact fun heq ↦ hd (Option.some.inj heq).symm
  · rcases World.of_mem_startOutbound he with ⟨he, -⟩ | ⟨e₀, he₀, -, -, rfl⟩
    · exact .inr ⟨e, he, .inl rfl⟩
    · exact .inr ⟨e₀, he₀, .inl rfl⟩

/-- What is given back when another worker is started is where it belongs. -/
theorem kept_restart (h : Kept w) (hcurrent : w.current = some d)
    (hspares : w.SparesEnter d text .outbound) (hapart : World.Apart d w w')
    (hcancelled : w'.cancelled = w.outbound.toList ++ w.cancelled)
    (hsubmissions : w'.submissions = ((w.startOutbound t).takeUp d text).submissions) :
    Kept w' := by
  constructor
  · intro e' he' hfate
    rw [hsubmissions] at he'
    rcases of_mem_restart hcurrent hspares he' with
      ⟨he', -, hd⟩ | ⟨e, he, rfl | ⟨rfl, hd, hheld⟩⟩
    · exact (hapart.holds_iff (hd hfate)).mpr (h.held e' he' hfate)
    · cases hfate
    · exact (hapart.holds_iff (e := { e with fate := .back }) hd).mpr hheld
  · intro e' he' hfate
    rw [hsubmissions] at he'
    rcases of_mem_restart hcurrent hspares he' with ⟨he', hof, -⟩ | ⟨e, he, rfl | ⟨rfl, -⟩⟩
    · rw [hcancelled, List.mem_append, Option.mem_toList]
      rintro (hmem | hmem)
      · exact hof hfate hmem
      · exact h.going e' he' hfate hmem
    · cases hfate
    · cases hfate

/-- Another worker is started in the group, and the one before it gives its text back. -/
theorem enter_outbound (h : Kept w) (hfresh : Fresh t w) (ht : t ∉ w.cancelled)
    (hcurrent : w.current = some d) (hspares : w.SparesEnter d text .outbound) :
    discipline.Guarantee t w (w.enter t d text .outbound).2 ∧
      Flowing t d text (w.enter t d text .outbound).2 := by
  -- before the text is submitted
  obtain ⟨w₁, hw₁⟩ : ∃ w₁, w₁ = w.setState d { w.composeStates d with draft := text } := ⟨_, rfl⟩
  obtain ⟨w', hw'⟩ : ∃ w', w' = (((w₁.startOutbound t).takeUp d text).setState d
      { w₁.composeStates d with draft := text, ignoreNextEmptyChange := true }).setComposer "" :=
    ⟨_, rfl⟩
  have henter : (w.enter t d text .outbound).2 = w'.submit t d text := by
    rw [hw', hw₁]
    rfl
  have hapart : World.Apart d w w' := by
    have hbegin : World.Apart d w ((w₁.startOutbound t).takeUp d text) := by
      have hfirst : World.Apart d w w₁ := by
        rw [hw₁]
        exact (World.Apart.refl d w).setState _
      exact ⟨hfirst.current, hfirst.composer, hfirst.states⟩
    rw [hw']
    exact (hbegin.setState _).setComposer hcurrent ""
  have hcancelled : w'.cancelled = w.outbound.toList ++ w.cancelled := by
    rw [hw', World.cancelled_setComposer, hw₁]
    rfl
  have houtbound : w'.outbound = some t := by
    rw [hw', World.outbound_setComposer]
    rfl
  have hsubmissions : w'.submissions = ((w.startOutbound t).takeUp d text).submissions := by
    rw [hw', World.submissions_setComposer, hw₁]
    rfl
  have ht' : t ∉ w'.cancelled := by
    rw [hcancelled, List.mem_append, Option.mem_toList]
    rintro (hmem | hmem)
    · exact hfresh.1 hmem
    · exact ht hmem
  have htexts (e' : Submission) (he' : e' ∈ w'.submissions) := by
    rw [hsubmissions] at he'
    exact of_mem_restart hcurrent hspares he'
  have hkept : Kept w' := kept_restart h hcurrent hspares hapart hcancelled hsubmissions
  have hnone : ∀ e ∈ w'.submissions, e.task ≠ t := by
    intro e' he'
    rcases htexts e' he' with ⟨he', -⟩ | ⟨e, he, rfl | ⟨rfl, -⟩⟩
    · exact hfresh.2 e' he'
    · exact hfresh.2 e he
    · exact hfresh.2 e he
  rw [henter]
  refine ⟨⟨hkept.submit ht' d text, fun u hu ↦ ⟨hkept.submit ht' d text, ?_, ?_, ?_, ?_⟩⟩,
    sending_submit hnone, fun _ ↦ ⟨houtbound, ?_⟩⟩
  · show w.cancelled ⊆ w'.cancelled
    rw [hcancelled]
    exact List.subset_append_right _ _
  · intro hof
    exact absurd (Option.some.inj (houtbound.symm.trans hof)).symm hu
  · intro e' he' hof
    rcases List.mem_append.mp he' with he' | he'
    · rcases htexts e' he' with ⟨he', -⟩ | ⟨e, he, rfl | ⟨rfl, -⟩⟩
      · exact ⟨e', he', hof, rfl, rfl, id⟩
      · exact ⟨e, he, hof, rfl, rfl, nofun⟩
      · exact ⟨e, he, hof, rfl, rfl, nofun⟩
    · rw [List.mem_singleton.mp he'] at hof
      exact absurd hof.symm hu
  · intro hof hu'
    refine absurd ?_ hu'
    show u ∈ w'.cancelled
    rw [hcancelled, hof]
    exact List.mem_cons_self
  · intro e' he' hfate
    rcases List.mem_append.mp he' with he' | he'
    · rcases htexts e' he' with ⟨-, -, hd⟩ | ⟨e, he, rfl | ⟨rfl, hd, -⟩⟩
      · exact hd hfate
      · cases hfate
      · exact hd
    · rw [List.mem_singleton.mp he'] at hfate
      cases hfate

end Enter

/-! ## What the operations do -/

section Ops

variable {setup : Setup} {t : ℕ} {d : ℤ} {text : String} {P : World → Prop}

/-- What a worker does keeps what is kept. -/
abbrev Keeps (setup : Setup) (t : ℕ) {α : Type} (p : TuiProg α) (P : World → Prop)
    (R : α → World → Prop) : Prop :=
  Asyncio.Keeps ((system setup).restrict (InStep setup)) discipline t p P R (Over t)

theorem act_ne_parked {o : Op} {w w' : World} : act setup t o w ≠ .parked w' := by
  intro h
  cases o with
  | handle =>
    simp only [act] at h
    split at h <;> cases h
  | _ => cases h

/-- One operation: where its worker was cancelled nothing is on its way. -/
theorem keeps_live {o : Op} {R : effects.Ret o → World → Prop} (hP : discipline.Stable t P)
    (hR : ∀ r, discipline.Stable t (R r))
    (hlive : ∀ w x w', Kept w → P w → t ∉ w.cancelled → w.Spares setup o →
      act setup t o w = .done x w' →
      ∃ r, x = .ok r ∧ discipline.Guarantee t w w' ∧ R r w') :
    Keeps setup t (perform o) P R := by
  refine Asyncio.Keeps.perform hP hR stable_over (fun w w' h ↦ ?_) fun w x w' hw hPw h ↦ ?_
  · replace h := System.restrict_parked h
    dsimp only [system] at h
    split at h
    · cases h
    · exact act_ne_parked h
  · obtain ⟨hok, h⟩ := System.restrict_done h
    dsimp only [system] at h
    split at h
    · next ht =>
      obtain ⟨rfl, rfl⟩ := Reply.done.inj h
      exact ⟨guarantee_refl hw, Kept.over hw ht⟩
    · next ht =>
      obtain ⟨r, rfl, hg, hRr⟩ := hlive w x w' hw hPw ht (hok ht) h
      exact ⟨hg, hRr⟩

/-- The same, where the operation has one result and does one thing. -/
theorem keeps_act {o : Op} {r : effects.Ret o} {f : World → World} {R : World → Prop}
    (hP : discipline.Stable t P) (hR : discipline.Stable t R)
    (hact : ∀ w, act setup t o w = .done (.ok r) (f w))
    (hf : ∀ w, Kept w → P w → t ∉ w.cancelled → w.Spares setup o →
      discipline.Guarantee t w (f w) ∧ R (f w)) :
    Keeps setup t (perform o) P fun _ ↦ R := by
  refine keeps_live hP (fun _ ↦ hR) fun w x w' hw hPw ht hspares h ↦ ?_
  obtain ⟨rfl, rfl⟩ := Reply.done.inj ((hact w).symm.trans h)
  exact ⟨r, rfl, hf w hw hPw ht hspares⟩

variable {w w' : World} {fate : Fate}

/-- Only a dialog changes, in which the user has what was given back. -/
theorem guarantee_apart (h : Kept w) (hapart : World.Apart d w w')
    (hcancelled : w'.cancelled = w.cancelled) (houtbound : w'.outbound = w.outbound)
    (hsubmissions : w'.submissions = w.submissions)
    (hback : ∀ e ∈ w.submissions, e.fate = .back → e.dialog = d → w'.Holds e) :
    discipline.Guarantee t w w' := by
  have hkept : Kept w' := by
    constructor
    · intro e he hfate
      rw [hsubmissions] at he
      by_cases hd : e.dialog = d
      · exact hback e he hfate hd
      · exact (hapart.holds_iff hd).mpr (h.held e he hfate)
    · intro e he hgoing
      rw [hsubmissions] at he
      rw [hcancelled]
      exact h.going e he hgoing
  refine guarantee_of_same hkept hcancelled houtbound fun e he ↦ ?_
  rw [hsubmissions] at he
  exact .inr (.inl he)

/-- The same, and something becomes of what the worker has taken. -/
theorem guarantee_become (h : Kept w) (hapart : World.Apart d w w')
    (hcancelled : w'.cancelled = w.cancelled) (houtbound : w'.outbound = w.outbound)
    (hgoing : fate ≠ .going)
    (hback : ∀ e ∈ w.submissions, e.fate = .back → e.dialog = d → w'.Holds e)
    (htexts : ∀ e' ∈ w'.submissions, (e' ∈ w.submissions ∧ e'.task ≠ t) ∨
      e'.task = t ∧ e'.fate = fate ∧ (fate = .back → w.outbound = some t ∧ w'.Holds e')) :
    discipline.Guarantee t w w' ∧ Over t w' := by
  have hkept : Kept w' := by
    constructor
    · intro e he hfate
      rcases htexts e he with ⟨he, -⟩ | ⟨-, rfl, hown⟩
      · by_cases hd : e.dialog = d
        · exact hback e he hfate hd
        · exact (hapart.holds_iff hd).mpr (h.held e he hfate)
      · exact (hown hfate).2
    · intro e he hfate
      rcases htexts e he with ⟨he, -⟩ | ⟨-, rfl, -⟩
      · rw [hcancelled]
        exact h.going e he hfate
      · exact absurd hfate hgoing
  constructor
  · refine guarantee_of_same hkept hcancelled houtbound fun e he ↦ ?_
    rcases htexts e he with ⟨he, -⟩ | ⟨ht, rfl, hown⟩
    · exact .inr (.inl he)
    · exact .inl ⟨ht, fun hfate ↦ (hown hfate).1⟩
  · intro e he ht
    rcases htexts e he with ⟨-, hne⟩ | ⟨-, rfl, -⟩
    · exact absurd ht hne
    · exact hgoing

theorem guarantee_settle (h : Kept w) (hapart : World.Apart d w w')
    (hcancelled : w'.cancelled = w.cancelled) (houtbound : w'.outbound = w.outbound)
    (hsubmissions : w'.submissions = w.submissions) (hgoing : fate ≠ .going)
    (hback : ∀ e ∈ w.submissions, e.fate = .back → e.dialog = d → w'.Holds e)
    (hown : fate = .back → w.outbound = some t ∧ ∀ e ∈ w.submissions, e.task = t → w'.Holds e) :
    discipline.Guarantee t w (w'.settle t fate) ∧ Over t (w'.settle t fate) := by
  have hapart' : World.Apart d w (w'.settle t fate) := hapart.settle t fate
  refine guarantee_become h hapart' hcancelled houtbound hgoing hback fun e' he' ↦ ?_
  rcases World.of_mem_settle he' with ⟨he, hne⟩ | ⟨e, he, ht, rfl⟩
  · rw [hsubmissions] at he
    exact .inl ⟨he, hne⟩
  · rw [hsubmissions] at he
    exact .inr ⟨ht, rfl, fun hfate ↦ ⟨(hown hfate).1, (hown hfate).2 e he ht⟩⟩

/-- Only a call has gone out. -/
theorem guarantee_next (h : Kept w) : discipline.Guarantee t w w.next :=
  guarantee_of_same ⟨h.held, h.going⟩ rfl rfl fun _ he ↦ .inr (.inl he)

/-- While a worker of the group lives, nothing was given back in its dialog. -/
theorem Flowing.not_back (h : Flowing t d text w) (ht : t ∉ w.cancelled) :
    ∀ e ∈ w.submissions, e.fate = .back → e.dialog = d → w'.Holds e := by
  intro e he hfate hd
  exact absurd hd ((h.2 ht).2 e he hfate)

/-- What the worker of the group has taken is held, where its dialog holds the text. -/
theorem Flowing.own (h : Flowing t d text w) (ht : t ∉ w.cancelled)
    (hcomposer : w'.current = some d → w'.composer = text)
    (hdraft : w'.current ≠ some d → (w'.composeStates d).draft = text) :
    fate = .back → w.outbound = some t ∧ ∀ e ∈ w.submissions, e.task = t → w'.Holds e := by
  refine fun _ ↦ ⟨(h.2 ht).1, fun e he hof ↦ ?_⟩
  obtain ⟨rfl, rfl⟩ := h.1 e he hof
  rw [World.Holds]
  split
  · next hd => exact hcomposer hd
  · next hd => exact hdraft hd

theorem keeps_begin :
    Keeps setup t (perform (.begin d text)) (Flowing t d text) fun _ ↦ Flowing t d text := by
  refine keeps_act stable_flowing stable_flowing (fun _ ↦ rfl) fun w hw hflowing ht _ ↦ ?_
  refine ⟨guarantee_apart hw ((World.Apart.refl d w).setState _) rfl rfl rfl ?_, hflowing⟩
  exact hflowing.not_back ht

theorem keeps_prepare :
    Keeps setup t (perform (.prepare d text)) (Flowing t d text) fun _ ↦ Flowing t d text := by
  refine keeps_live stable_flowing (fun _ ↦ stable_flowing) ?_
  intro w x w' hw hflowing ht _ h
  obtain ⟨rfl, rfl⟩ := Reply.done.inj h
  exact ⟨_, rfl, guarantee_next hw, hflowing⟩

theorem submissions_showIn (d : ℤ) (value : String) (w : World) :
    (w.showIn d value).submissions = w.submissions := by
  rw [World.showIn]
  split
  · exact World.submissions_setComposer value w
  · rfl

theorem cancelled_showIn (d : ℤ) (value : String) (w : World) :
    (w.showIn d value).cancelled = w.cancelled := by
  rw [World.showIn]
  split
  · exact World.cancelled_setComposer value w
  · rfl

theorem outbound_showIn (d : ℤ) (value : String) (w : World) :
    (w.showIn d value).outbound = w.outbound := by
  rw [World.showIn]
  split
  · exact World.outbound_setComposer value w
  · rfl

theorem current_showIn (d : ℤ) (value : String) (w : World) :
    (w.showIn d value).current = w.current := by
  rw [World.showIn]
  split
  · exact World.current_setComposer value w
  · rfl

theorem composeStates_showIn (d : ℤ) (value : String) (w : World) :
    (w.showIn d value).composeStates = w.composeStates := by
  rw [World.showIn]
  split
  · exact World.composeStates_setComposer value w
  · rfl

theorem composer_showIn (d : ℤ) (value : String) (w : World) (h : w.current = some d) :
    (w.showIn d value).composer = value := by
  rw [World.showIn, if_pos h]
  exact World.composer_setComposer value w

/-- A worker of the group gives a text back, or has told the user of it: the draft is the text, and
the composer too if the dialog is open. -/
theorem guarantee_giveBack (h : Kept w) (hflowing : Flowing t d text w) (ht : t ∉ w.cancelled)
    (hgoing : fate ≠ .going) {w₁ : World} (hapart : World.Apart d w w₁)
    (hcancelled : w₁.cancelled = w.cancelled) (houtbound : w₁.outbound = w.outbound)
    (hsubmissions : w₁.submissions = w.submissions)
    (hdraft : w.current ≠ some d → (w₁.composeStates d).draft = text) :
    discipline.Guarantee t w ((w₁.showIn d text).settle t fate) ∧
      Over t ((w₁.showIn d text).settle t fate) := by
  have hcurrent : (w₁.showIn d text).current = w.current := by
    rw [current_showIn, hapart.current]
  refine guarantee_settle h (hapart.showIn text) ?_ ?_ ?_ hgoing (hflowing.not_back ht)
    (hflowing.own ht (fun hd ↦ ?_) fun hd ↦ ?_)
  · rw [cancelled_showIn, hcancelled]
  · rw [outbound_showIn, houtbound]
  · rw [submissions_showIn, hsubmissions]
  · rw [current_showIn] at hd
    exact composer_showIn d text w₁ hd
  · rw [composeStates_showIn]
    rw [hcurrent] at hd
    exact hdraft hd

/-- The original is offered. -/
theorem guarantee_offer (h : Kept w) (hflowing : Flowing t d text w) (ht : t ∉ w.cancelled)
    (hgoing : fate ≠ .going) :
    discipline.Guarantee t w ((w.offer d text).settle t fate) ∧
      Over t ((w.offer d text).settle t fate) := by
  refine guarantee_giveBack h hflowing ht hgoing ((World.Apart.refl d w).setState _) rfl rfl rfl ?_
  exact fun _ ↦ congrArg ComposeState.draft (Function.update_self d _ w.composeStates)

/-- A notice changes nothing of it. -/
theorem guarantee_notify {notice : String}
    (h : discipline.Guarantee t w (w'.settle t fate) ∧ Over t (w'.settle t fate)) :
    discipline.Guarantee t w ((w'.notify notice).settle t fate) ∧
      Over t ((w'.notify notice).settle t fate) := by
  obtain ⟨⟨hkept, hothers⟩, hover⟩ := h
  refine ⟨⟨⟨hkept.held, hkept.going⟩, fun u hu ↦ ?_⟩, hover⟩
  obtain ⟨hkept', hcancelled, houtbound, htexts, halone⟩ := hothers u hu
  exact ⟨⟨hkept'.held, hkept'.going⟩, hcancelled, houtbound, htexts, halone⟩

theorem keeps_offerOriginal (result : Outbound.PrepareResult String) :
    Keeps setup t (perform (.offerOriginal d text result)) (Flowing t d text) fun _ ↦ Over t := by
  refine keeps_act stable_flowing stable_over (fun _ ↦ rfl) fun w hw hflowing ht _ ↦ ?_
  rw [World.offerOriginal]
  split
  · exact guarantee_notify (guarantee_offer hw hflowing ht nofun)
  · exact guarantee_offer hw hflowing ht nofun

theorem keeps_escaped :
    Keeps setup t (perform (.escaped d text)) (Flowing t d text) fun _ ↦ Over t := by
  refine keeps_act stable_flowing stable_over (fun _ ↦ rfl) fun w hw hflowing ht hspares ↦ ?_
  have hgoing : Fate.back ≠ .going := nofun
  refine guarantee_giveBack hw hflowing ht hgoing (World.Apart.refl d w) rfl rfl rfl fun hd ↦ ?_
  exact hspares.resolve_left hd

theorem keeps_pickedOriginal :
    Keeps setup t (perform (.pickedOriginal d text)) (Flowing t d text) fun _ ↦ Over t := by
  refine keeps_act stable_flowing stable_over (fun _ ↦ rfl) fun w hw hflowing ht _ ↦ ?_
  exact guarantee_notify (guarantee_offer hw hflowing ht nofun)

theorem keeps_pickedVariant (picked : String) (token : Option String) :
    Keeps setup t (perform (.pickedVariant d text picked token)) (Flowing t d text)
      fun _ ↦ Over t := by
  refine keeps_act stable_flowing stable_over (fun _ ↦ rfl) fun w hw hflowing ht _ ↦ ?_
  obtain ⟨w₁, hw₁⟩ : ∃ w₁, w₁ = w.setState d
      { w.composeStates d with
        draft := picked, sourceText := some text, outboundToken := token
        originalConfirmText := none } := ⟨_, rfl⟩
  have hapart : World.Apart d w (w₁.showIn d picked) := by
    rw [hw₁]
    exact ((World.Apart.refl d w).setState _).showIn picked
  have hheld (e : Submission) (hd : e.dialog = d) (htext : e.text = picked) :
      (w₁.showIn d picked).Holds e := by
    rw [World.Holds, hd, htext]
    split
    · next hcurrent =>
      rw [current_showIn] at hcurrent
      exact composer_showIn d picked w₁ hcurrent
    · rw [composeStates_showIn, hw₁]
      exact congrArg ComposeState.draft (Function.update_self d _ w.composeStates)
  have hsubmissions : (w₁.showIn d picked).submissions = w.submissions := by
    rw [submissions_showIn, hw₁]
    rfl
  have hresult : w.pickedVariant t d text picked token = { w₁.showIn d picked with
      submissions := w.submissions.map fun e ↦
        if e.task = t then { e with text := picked, fate := .back } else e } := by
    rw [World.pickedVariant, ← hw₁, hsubmissions]
  rw [hresult]
  have hgoing : Fate.back ≠ .going := nofun
  refine guarantee_become hw ⟨hapart.current, hapart.composer, hapart.states⟩ ?_ ?_ hgoing
    (hflowing.not_back ht) fun e' he' ↦ ?_
  · show (w₁.showIn d picked).cancelled = w.cancelled
    rw [cancelled_showIn, hw₁]
    rfl
  · show (w₁.showIn d picked).outbound = w.outbound
    rw [outbound_showIn, hw₁]
    rfl
  · obtain ⟨e, he, rfl⟩ := List.mem_map.mp he'
    split
    · next hof =>
      exact .inr ⟨hof, rfl, fun _ ↦ ⟨(hflowing.2 ht).1, hheld _ (hflowing.1 e he hof).1 rfl⟩⟩
    · next hne => exact .inl ⟨he, hne⟩

/-- Nothing applies, and the text is to be sent as it is. -/
theorem keeps_dropDraft :
    Keeps setup t (perform (.dropDraft d text)) (Flowing t d text) fun _ ↦ Sending t d text := by
  refine keeps_act stable_flowing stable_sending (fun _ ↦ rfl) fun w hw hflowing ht _ ↦ ?_
  rw [World.dropDraft]
  dsimp only
  split
  · next h =>
    have hsubmissions := World.submissions_setComposer "" (w.setState d (World.clearPending
      { w.composeStates d with draft := "" }))
    refine ⟨guarantee_apart hw (((World.Apart.refl d w).setState _).setComposer h.1 "") ?_ ?_ ?_
      (hflowing.not_back ht), ?_⟩
    · exact World.cancelled_setComposer "" _
    · exact World.outbound_setComposer "" _
    · exact hsubmissions
    · intro e he
      rw [hsubmissions] at he
      exact hflowing.1 e he
  · exact ⟨guarantee_apart hw ((World.Apart.refl d w).setState _) rfl rfl rfl
      (hflowing.not_back ht), hflowing.1⟩

theorem keeps_pick (variants : List String) :
    Keeps setup t (perform (.pick variants text)) (Flowing t d text) fun _ ↦ Flowing t d text := by
  refine keeps_live stable_flowing (fun _ ↦ stable_flowing) ?_
  intro w x w' hw hflowing ht _ h
  obtain ⟨rfl, rfl⟩ := Reply.done.inj h
  exact ⟨_, rfl, guarantee_next hw, hflowing⟩

/-- What a send leaves to be done. -/
def Answered (t : ℕ) (d : ℤ) (text : String) : SendOutcome → World → Prop
  | .sent => Over t
  | _ => Sending t d text

theorem stable_answered (outcome : SendOutcome) :
    discipline.Stable t (Answered t d text outcome) := by
  cases outcome with
  | sent => exact stable_over
  | _ => exact stable_sending

/-- The network has answered. -/
theorem guarantee_answered (h : Kept w) (hsending : Sending t d text w) (outcome : SendOutcome) :
    discipline.Guarantee t w (w.next.answered t outcome) ∧
      Answered t d text outcome (w.next.answered t outcome) := by
  cases outcome with
  | sent =>
    have hsent : Fate.sent ≠ .going := nofun
    have hapart : World.Apart d w w.next := ⟨rfl, fun _ ↦ rfl, fun _ _ ↦ rfl⟩
    exact guarantee_settle h hapart rfl rfl rfl hsent (fun e he hfate _ ↦ h.held e he hfate) nofun
  | _ => exact ⟨guarantee_next h, hsending⟩

theorem keeps_send (token : Option String) :
    Keeps setup t (perform (.send d text token)) (Sending t d text) (Answered t d text) := by
  refine keeps_live stable_sending stable_answered fun w x w' hw hsending _ _ h ↦ ?_
  obtain ⟨rfl, rfl⟩ := Reply.done.inj h
  exact ⟨_, rfl, guarantee_answered hw hsending _⟩

theorem keeps_performSendMedia (path : String) (caption : Option String) :
    Keeps setup t (perform (.sendMedia d path caption)) (Sending t d text)
      (Answered t d text) := by
  refine keeps_live stable_sending stable_answered fun w x w' hw hsending _ _ h ↦ ?_
  obtain ⟨rfl, rfl⟩ := Reply.done.inj h
  exact ⟨_, rfl, guarantee_answered hw hsending _⟩

/-- What was sent is cleared, and nothing else. -/
theorem keeps_clearAfterSend :
    Keeps setup t (perform (.clearAfterSend d text)) (Over t) fun _ ↦ Over t := by
  refine keeps_act stable_over stable_over (fun _ ↦ rfl) fun w hw hover _ hspares ↦ ?_
  obtain ⟨w₁, hw₁⟩ : ∃ w₁, w₁ = w.setState d (World.clearPending
      { w.composeStates d with
        draft := if (w.composeStates d).draft = text then "" else (w.composeStates d).draft }) :=
    ⟨_, rfl⟩
  have hresult : w.clearAfterSend d text =
      if w₁.current = some d ∧ w₁.composer = text then w₁.setComposer "" else w₁ := by
    rw [hw₁]
    rfl
  have hapart : World.Apart d w w₁ := by
    rw [hw₁]
    exact (World.Apart.refl d w).setState _
  have hcomposer : w₁.composer = w.composer := by
    rw [hw₁]
    rfl
  have hsubmissions : w₁.submissions = w.submissions := by
    rw [hw₁]
    rfl
  have hcancelled : w₁.cancelled = w.cancelled := by
    rw [hw₁]
    rfl
  have houtbound : w₁.outbound = w.outbound := by
    rw [hw₁]
    rfl
  rw [hresult]
  split
  · next h =>
    obtain ⟨hcurrent, htext⟩ := h
    rw [hapart.current] at hcurrent
    refine ⟨guarantee_apart hw (hapart.setComposer hcurrent "") ?_ ?_ ?_ ?_, ?_⟩
    · rw [World.cancelled_setComposer, hcancelled]
    · rw [World.outbound_setComposer, houtbound]
    · rw [World.submissions_setComposer, hsubmissions]
    · intro e he hfate hd
      have hheld := (World.holds_open (by rw [hcurrent, hd])).mp (hw.held e he hfate)
      exact absurd (hheld.symm.trans (hcomposer.symm.trans htext)) (hspares e he hfate hd)
    · intro e he
      rw [World.submissions_setComposer, hsubmissions] at he
      exact hover e he
  · refine ⟨guarantee_apart hw hapart hcancelled houtbound hsubmissions ?_, ?_⟩
    · intro e he hfate hd
      have hheld := hw.held e he hfate
      rw [World.Holds, hd] at hheld ⊢
      rw [hapart.current, hcomposer]
      split
      · next hcurrent =>
        rw [if_pos hcurrent] at hheld
        exact hheld
      · next hcurrent =>
        rw [if_neg hcurrent] at hheld
        have hdraft : (w.composeStates d).draft ≠ text := by
          rw [hheld]
          exact hspares e he hfate hd
        rw [hw₁]
        refine (congrArg ComposeState.draft (Function.update_self d _ w.composeStates)).trans ?_
        exact (if_neg hdraft).trans hheld
    · intro e he
      rw [hsubmissions] at he
      exact hover e he

/-- A send that failed gives its text back with a notice. -/
theorem keeps_sendFailed (notice : String) :
    Keeps setup t (perform (.sendFailed d text notice)) (Sending t d text) fun _ ↦ Over t := by
  refine keeps_act stable_sending stable_over (fun _ ↦ rfl) fun w hw hsending _ hspares ↦ ?_
  obtain ⟨w₁, hw₁⟩ : ∃ w₁, w₁ = (w.notify notice).setState d
      { w.composeStates d with draft := text } := ⟨_, rfl⟩
  have hresult : (w.notify notice).restoreDraft d text =
      if w₁.current = some d ∧ w₁.composer = "" then w₁.setComposer text else w₁ := by
    rw [hw₁]
    rfl
  have hapart : World.Apart d w w₁ := by
    rw [hw₁]
    exact ((World.Apart.refl d w).notify notice).setState _
  have hcomposer : w₁.composer = w.composer := by
    rw [hw₁]
    rfl
  have hdraft : (w₁.composeStates d).draft = text := by
    rw [hw₁]
    exact congrArg ComposeState.draft (Function.update_self d _ w.composeStates)
  have hnotified : Fate.notified ≠ .going := nofun
  rw [hresult]
  split
  · next h =>
    obtain ⟨hcurrent, hempty⟩ := h
    rw [hapart.current] at hcurrent
    refine guarantee_settle hw (hapart.setComposer hcurrent text) ?_ ?_ ?_ hnotified ?_ nofun
    · rw [World.cancelled_setComposer, hw₁]
      rfl
    · rw [World.outbound_setComposer, hw₁]
      rfl
    · rw [World.submissions_setComposer, hw₁]
      rfl
    · intro e he hfate hd
      rw [World.holds_open (by rw [World.current_setComposer, hapart.current, hcurrent, hd]),
        World.composer_setComposer]
      rcases hspares e he hfate hd with htext | ⟨-, hne⟩
      · exact htext.symm
      · exact absurd (hcomposer.symm.trans hempty) hne
  · next h =>
    refine guarantee_settle hw hapart ?_ ?_ ?_ hnotified ?_ nofun
    · rw [hw₁]
      rfl
    · rw [hw₁]
      rfl
    · rw [hw₁]
      rfl
    · intro e he hfate hd
      have hheld := hw.held e he hfate
      rw [World.Holds, hd] at hheld ⊢
      rw [hapart.current, hcomposer, hdraft]
      split
      · next hcurrent =>
        rw [if_pos hcurrent] at hheld
        exact hheld
      · next hcurrent =>
        rcases hspares e he hfate hd with htext | ⟨hcurrent', -⟩
        · exact htext.symm
        · exact absurd hcurrent' hcurrent

theorem stable_entered (next : Next) : discipline.Stable t fun w ↦ Entered t w next := by
  cases next with
  | nothing => exact stable_over
  | outboundFlow d text => exact stable_flowing
  | sendText d text _ => exact stable_sending
  | sendMedia d _ _ text => exact stable_sending

/-- What the composer tells changes the state of its dialog at most. -/
theorem onInputChanged_cases (w : World) (value : String) :
    w.onInputChanged value = w ∨
      ∃ d state, w.current = some d ∧ w.onInputChanged value = w.setState d state := by
  rw [World.onInputChanged]
  split
  · exact .inl rfl
  · split
    · exact .inl rfl
    · next d hcurrent =>
      dsimp only
      split
      · exact .inr ⟨d, _, hcurrent, rfl⟩
      · exact .inr ⟨d, _, hcurrent, rfl⟩

theorem guarantee_onInputChanged (h : Kept w) (hfresh : Fresh t w) (value : String) :
    discipline.Guarantee t w (w.onInputChanged value) ∧ Over t (w.onInputChanged value) := by
  rcases onInputChanged_cases w value with heq | ⟨d, state, hcurrent, heq⟩
  · rw [heq]
    exact ⟨guarantee_refl h, fun e he ht ↦ absurd ht (hfresh.2 e he)⟩
  · rw [heq]
    have hapart : World.Apart d w (w.setState d state) := (World.Apart.refl d w).setState state
    refine ⟨guarantee_apart h hapart rfl rfl rfl fun e he hfate hd ↦ ?_,
      fun e he ht ↦ absurd ht (hfresh.2 e he)⟩
    have hheld := h.held e he hfate
    rw [World.holds_open (by rw [hcurrent, hd])] at hheld
    rw [World.holds_open (by rw [hapart.current, hcurrent, hd])]
    exact hheld

/-- Enter does to a text what its branch says. -/
theorem guarantee_enter {branch : Branch} (h : Kept w) (hfresh : Fresh t w) (ht : t ∉ w.cancelled)
    (hcurrent : w.current = some d) (hspares : branch.clears → w.SparesEnter d text branch) :
    discipline.Guarantee t w (w.enter t d text branch).2 ∧
      Entered t (w.enter t d text branch).2 (w.enter t d text branch).1 := by
  cases branch with
  | refused notice => exact enter_refused h hfresh hcurrent notice
  | command => exact (enter_clear h hfresh ht hcurrent (hspares rfl).1 rfl).1
  | media path caption => exact (enter_clear h hfresh ht hcurrent (hspares rfl).1 rfl).2
  | send token => exact (enter_clear h hfresh ht hcurrent (hspares rfl).1 rfl).2
  | outbound => exact enter_outbound h hfresh ht hcurrent (hspares rfl)

theorem guarantee_onInputSubmitted (h : Kept w) (hfresh : Fresh t w) (ht : t ∉ w.cancelled)
    (hspares : ∀ d, w.current = some d → isBlank text = false →
      (w.branch setup d text).clears → w.SparesEnter d text (w.branch setup d text)) :
    discipline.Guarantee t w (w.onInputSubmitted setup t text).2 ∧
      Entered t (w.onInputSubmitted setup t text).2 (w.onInputSubmitted setup t text).1 := by
  have hidle : discipline.Guarantee t w w ∧ Over t w :=
    ⟨guarantee_refl h, fun e he ht ↦ absurd ht (hfresh.2 e he)⟩
  rw [World.onInputSubmitted]
  split
  · exact hidle
  · next d hcurrent =>
    split
    · exact hidle
    · next hblank =>
      have hblank : isBlank text = false := Bool.eq_false_of_not_eq_true hblank
      exact guarantee_enter h hfresh ht hcurrent (hspares d hcurrent hblank)

/-- The message that is handled is nothing the others see. -/
theorem guarantee_turn {rest : List Posted}
    (h : discipline.Guarantee t { w with posted := rest } w') :
    discipline.Guarantee t w w'.turn := by
  obtain ⟨hkept, hothers⟩ := h
  refine ⟨⟨hkept.held, hkept.going⟩, fun u hu ↦ ?_⟩
  obtain ⟨hkept', hcancelled, houtbound, htexts, halone⟩ := hothers u hu
  exact ⟨⟨hkept'.held, hkept'.going⟩, hcancelled, houtbound, htexts, halone⟩

theorem entered_turn {next : Next} (h : Entered t w next) : Entered t w.turn next := by
  cases next with
  | nothing => exact h
  | outboundFlow d text => exact h
  | sendText d text _ => exact h
  | sendMedia d _ _ text => exact h

theorem keeps_handle :
    Keeps setup t (perform .handle) (Fresh t) fun next w ↦ Entered t w next := by
  refine keeps_live stable_fresh stable_entered fun w x w' hw hfresh ht hspares h ↦ ?_
  dsimp only [act] at h
  split at h
  · cases h
  · next value rest hposted =>
    obtain ⟨rfl, rfl⟩ := Reply.done.inj h
    obtain ⟨hg, hover⟩ := guarantee_onInputChanged (w := { w with posted := rest })
      ⟨hw.held, hw.going⟩ hfresh value
    exact ⟨.nothing, rfl, guarantee_turn hg, hover⟩
  · next value rest hposted =>
    obtain ⟨rfl, rfl⟩ := Reply.done.inj h
    have hspared (d : ℤ) (hcurrent : w.current = some d) (hblank : isBlank value = false) :
        (w.branch setup d value).clears → w.SparesEnter d value (w.branch setup d value) := by
      refine hspares d hcurrent value ?_
      rw [World.entered, hposted]
      dsimp only
      rw [hblank]
      rfl
    have hkept : Kept { w with posted := rest } := ⟨hw.held, hw.going⟩
    obtain ⟨hg, hentered⟩ := guarantee_onInputSubmitted hkept hfresh ht hspared
    exact ⟨_, rfl, guarantee_turn hg, entered_turn hentered⟩

/-! ## The coroutines -/

theorem keeps_sendText (token : Option String) :
    Keeps setup t (sendText d text token) (Sending t d text) fun _ ↦ Over t := by
  refine (keeps_send token).bind fun outcome ↦ ?_
  cases outcome with
  | sent => exact keeps_clearAfterSend
  | outboundError message => exact keeps_sendFailed _
  | sendForbidden message => exact keeps_sendFailed _
  | exception message => exact keeps_sendFailed _

theorem keeps_sendMedia (path : String) (caption : Option String) :
    Keeps setup t (sendMedia d path caption text) (Sending t d text) fun _ ↦ Over t := by
  refine (keeps_performSendMedia path caption).bind fun outcome ↦ ?_
  cases outcome with
  | sent => exact .ret stable_over fun _ _ hover ↦ hover
  | outboundError message => exact keeps_sendFailed _
  | sendForbidden message => exact keeps_sendFailed _
  | exception message => exact keeps_sendFailed _

theorem keeps_outboundFlow :
    Keeps setup t (outboundFlow d text) (Flowing t d text) fun _ ↦ Over t := by
  refine keeps_begin.bind fun _ ↦ keeps_prepare.bind fun result ↦ ?_
  split
  · exact keeps_dropDraft.bind fun _ ↦ keeps_sendText none
  · split
    · exact keeps_offerOriginal result
    · refine (keeps_pick result.variants).bind fun picked ↦ ?_
      cases picked with
      | none => exact keeps_escaped
      | some picked =>
        dsimp only
        split
        · exact keeps_pickedOriginal
        · exact keeps_pickedVariant picked result.token

/-- A handler ends when something became of what it has taken. -/
theorem keeps_handler : Keeps setup t handler (Fresh t) fun _ ↦ Over t := by
  refine keeps_handle.bind fun next ↦ ?_
  cases next with
  | nothing => exact .ret stable_over fun _ _ hover ↦ hover
  | outboundFlow d text => exact keeps_outboundFlow
  | sendText d text token => exact keeps_sendText token
  | sendMedia d path caption text => exact keeps_sendMedia path caption

end Ops

/-! ## Runs -/

/-- A move executes an operation that finds what it must find. -/
def Sparing (setup : Setup) (c : TuiConfig) (m : Move ℕ TuiEvent) : Prop :=
  Permitted (InStep setup) c m

instance (setup : Setup) (c : TuiConfig) (m : Move ℕ TuiEvent) : Decidable (Sparing setup c m) :=
  inferInstanceAs (Decidable (Permitted (InStep setup) c m))

/-- A submitted text is on its way, with a worker that was not cancelled; or it was sent, or the
user was told that it failed, or took it up again; or he has it. -/
def Accounted (c : TuiConfig) (e : Submission) : Prop :=
  e.fate = .going ∧ ¬c.Ended e.task ∧ e.task ∉ c.shared.cancelled ∨
  e.fate = .sent ∨ e.fate = .notified ∨ e.fate = .taken ∨ e.fate = .back ∧ c.shared.Holds e

/-- In every run whose operations find what they must find no submitted text is lost. -/
theorem never_lost {setup : Setup} {c : TuiConfig}
    (hrun : Reaches (system setup) (Sparing setup) start c) :
    ∀ e ∈ c.shared.submissions, Accounted c e := by
  have hrestricted : Reaches ((system setup).restrict (InStep setup)) anyMove start c :=
    Reaches.restrict hrun
  have hinit : Kept start.shared := ⟨nofun, nofun⟩
  have hfresh (t : ℕ) : Fresh t start.shared := ⟨nofun, nofun⟩
  obtain ⟨hkept, hreturned, hraised⟩ := Asyncio.Keeps.sound hinit hfresh
    (fun _ ↦ keeps_handler) (fun w w' e h hs ↦ @env_kept setup w w' e h hs) hrestricted
  intro e he
  cases hfate : e.fate with
  | going =>
    refine .inl ⟨hfate, ?_, hkept.going e he hfate⟩
    rintro (⟨a, ha⟩ | ⟨x, hx⟩)
    · exact hreturned e.task a ha e he rfl hfate
    · exact hraised e.task x hx e he rfl hfate
  | sent => exact .inr (.inl hfate)
  | notified => exact .inr (.inr (.inl hfate))
  | taken => exact .inr (.inr (.inr (.inl hfate)))
  | back => exact .inr (.inr (.inr (.inr ⟨hfate, hkept.held e he hfate⟩)))

/-! ## Texts that are lost -/

/-- Everything can be translated, and the picker is answered so. -/
def offered (picked : Option String) : Setup where
  canSend _ _ := true
  isBot _ _ := false
  parseMediaCommand _ := none
  isFile _ _ := false
  prepared _ := { status := "ready", variants := ["hola"], token := some "t" }
  picked _ := picked
  sends _ := .sent

/-- A text is written in dialog 7 and submitted, and its worker begins. -/
def writeAndEnter : List (Move ℕ TuiEvent) :=
  [.env (.openDialog 7), .env (.edit "hi"), .run 0, .env .pressEnter, .run 1, .run 1, .run 2]

/-- A variant is picked where the text was submitted, and sent. -/
theorem never_lost_of_stay :
    ∃ c, Reaches (system (offered (some "hola"))) (Sparing (offered (some "hola"))) start c ∧
      c.shared.submissions = [⟨1, 7, "hola", .taken⟩, ⟨4, 7, "hola", .sent⟩] ∧
      ∀ e ∈ c.shared.submissions, Accounted c e := by
  have hexec : ((Machine.guarded (Config.step (system (offered (some "hola"))))
      (Sparing (offered (some "hola")))).exec start
      (writeAndEnter ++ [.run 1, .run 1, .run 1, .run 3, .env .pressEnter, .run 4, .run 4,
        .run 4, .run 5])).any (fun c ↦
          c.shared.submissions = [⟨1, 7, "hola", .taken⟩, ⟨4, 7, "hola", .sent⟩]) = true := by
    decide +kernel
  obtain ⟨c, hrun, hsubmissions⟩ := Machine.exists_run_of_exec hexec
  exact ⟨c, hrun, hsubmissions, never_lost hrun⟩

/-- The picker is left while another dialog is open: the draft was overwritten at the switch.  And
a text is submitted while the one before it is translated. -/
theorem lost_of_switch_and_of_enter :
    (∃ c, Reaches (system (offered none)) anyMove start c ∧
      (c.shared.submissions = [⟨1, 7, "hi", .back⟩] ∧ (c.task 1).hasEnded = true) ∧
      c.shared.composer = "" ∧ (c.shared.composeStates 7).draft = "" ∧ c.shared.notices = []) ∧
    ∃ c, Reaches (system (offered none)) anyMove start c ∧
      (c.shared.submissions = [⟨1, 7, "hi", .back⟩, ⟨4, 7, "yo", .going⟩] ∧
        (c.task 1).hasEnded = true) ∧
      c.shared.composer = "" ∧ (c.shared.composeStates 7).draft = "yo" ∧
      c.shared.notices = [] := by
  constructor
  · have hexec : ((Machine.guarded (Config.step (system (offered none))) fun _ _ ↦ True).exec start
        (writeAndEnter ++ [.env (.openDialog 8), .run 1, .run 1, .run 1])).any (fun c ↦
          (c.shared.submissions = [⟨1, 7, "hi", .back⟩] ∧ (c.task 1).hasEnded = true) ∧
          c.shared.composer = "" ∧ (c.shared.composeStates 7).draft = "" ∧
          c.shared.notices = []) = true := by
      decide +kernel
    obtain ⟨c, hrun, h⟩ := Machine.exists_run_of_exec hexec
    exact ⟨c, hrun, h⟩
  · have hexec : ((Machine.guarded (Config.step (system (offered none))) fun _ _ ↦ True).exec start
        (writeAndEnter ++ [.env (.edit "yo"), .run 3, .env .pressEnter, .run 4, .run 1,
          .run 5])).any (fun c ↦
          (c.shared.submissions = [⟨1, 7, "hi", .back⟩, ⟨4, 7, "yo", .going⟩] ∧
            (c.task 1).hasEnded = true) ∧
          c.shared.composer = "" ∧ (c.shared.composeStates 7).draft = "yo" ∧
          c.shared.notices = []) = true := by
      decide +kernel
    obtain ⟨c, hrun, h⟩ := Machine.exists_run_of_exec hexec
    exact ⟨c, hrun, h⟩

end TgMessenger.Tui.Composer
