import TgMessenger.Pane.Config
import Mathlib.Logic.Function.Basic
import Mathlib.Tactic.SplitIfs

/-!
# The composer of the web page

The form at the bottom of `web/templates/chat.html`.  Every dialog has its own draft beside the
form, and the handler of `htmx:confirm` asks the server for a translation before a text is sent.
This module is about the form and the drafts.  Whoever writes into a dialog changes its draft, and
the field if the dialog is open (`View.Writes`), so that the form goes on showing the draft of the
open dialog (`View.Synced`).
-/

namespace TgMessenger.Web

/-! ## The form and the drafts -/

/-- `blankComposeState`, without the dialog. -/
structure ComposeState where
  draft : String := ""
  outboundNonce : String := ""
  outboundReady : Bool := false
deriving DecidableEq

/-- A button of the panel of variants. -/
structure Button where
  dialogId : String
  text : String
  outboundNonce : String
  /-- Whether it sends at once. -/
  issues : Bool
deriving DecidableEq

/-- What the user sees, and the drafts of the dialogs. -/
structure View where
  /-- `dialogInput.value`. -/
  dialogId : String
  /-- `composerText.value`. -/
  text : String
  /-- `outboundNonce.value`. -/
  outboundNonce : String
  /-- `composer.dataset.outboundReady`. -/
  outboundReady : Bool
  activeDialogId : String
  composeStates : String → ComposeState
  /-- The buttons of `variantPanel`. -/
  variantPanel : List Button

namespace View

/-- What a request would send. -/
def form (v : View) : String × String := (v.dialogId, v.text)

/-- An assignment to a draft. -/
def update (id : String) (state : ComposeState) (v : View) : View :=
  { v with composeStates := Function.update v.composeStates id state }

/-- `hideVariants`. -/
def hideVariants (v : View) : View := { v with variantPanel := [] }

/-- `applyComposeState`. -/
def applyComposeState (state : ComposeState) (v : View) : View :=
  { v with
    text := state.draft
    outboundNonce := state.outboundNonce
    outboundReady := state.outboundReady }

/-- `saveComposeState`. -/
def saveComposeState (v : View) : View :=
  if v.activeDialogId = "" then v
  else v.update v.activeDialogId ⟨v.text, v.outboundNonce, v.outboundReady⟩

/-- `clearOutboundState`. -/
def clearOutboundState (id : String) (v : View) : View :=
  let v := v.update id { v.composeStates id with outboundNonce := "", outboundReady := false }
  if id = v.activeDialogId then
    hideVariants { v with outboundNonce := "", outboundReady := false }
  else v

/-- `clearComposeState`. -/
def clearComposeState (id sentText : String) (v : View) : View :=
  if (v.composeStates id).draft ≠ sentText then v.clearOutboundState id
  else
    let v := (v.update id { v.composeStates id with draft := "" }).clearOutboundState id
    if id = v.activeDialogId then { v with text := "" } else v

/-- `restoreComposeState`, without the controller. -/
def restoreComposeState (id : String) (v : View) : View :=
  hideVariants ({ v with activeDialogId := id, dialogId := id }.applyComposeState
    (v.composeStates id))

/-- `openDialog`. -/
def openDialog (id : String) (v : View) : View :=
  if id = "" then v else v.saveComposeState.restoreComposeState id

/-- `showSendOriginal`. -/
def showSendOriginal (id draft : String) (v : View) : View :=
  let v := v.update id ⟨draft, "", false⟩
  let v := if id = v.activeDialogId then v.applyComposeState ⟨draft, "", false⟩ else v
  { v with variantPanel := [⟨id, draft, "", true⟩] }

/-- The listener of `input`, when the field has changed. -/
def input (text : String) (v : View) : View :=
  let v := { v with text }
  if v.activeDialogId = "" then v
  else
    let state := v.composeStates v.activeDialogId
    let v := v.update v.activeDialogId { state with draft := text }
    if text = "" ∨ state.outboundReady ∧ text ≠ state.draft then
      v.clearOutboundState v.activeDialogId
    else v

/-- A click on a button of the panel. -/
def click (b : Button) (v : View) : View :=
  if b.dialogId ≠ v.activeDialogId then v
  else
    let state : ComposeState := ⟨b.text, b.outboundNonce, true⟩
    hideVariants ((v.update b.dialogId state).applyComposeState state)

/-- The answer of `/suggest`, for a text that was in the field when it was asked for. -/
def suggested (id before text : String) (v : View) : View :=
  if v.dialogId ≠ id ∨ v.text ≠ before then v
  else
    let state := v.composeStates id
    { v with text }.update id { state with draft := text }

/-- The listener of `htmx:afterRequest`, for a request that was successful. -/
def afterRequest (dialogId text : String) (v : View) : View :=
  let submitted := if dialogId = "" then v.activeDialogId else dialogId
  let v := if submitted = "" then v else v.clearComposeState submitted text
  if submitted = v.activeDialogId then
    { v with dialogId := v.activeDialogId, text := if v.text = text then "" else v.text }
  else if v.activeDialogId ≠ "" then
    { v.applyComposeState (v.composeStates v.activeDialogId) with dialogId := v.activeDialogId }
  else v

/-- The end of the upload of a file, with the caption that was in the field. -/
def uploaded (id caption : String) (v : View) : View :=
  let v := v.clearComposeState id caption
  if v.dialogId = id ∧ v.text = caption then { v with text := "" } else v

/-- What `htmx:confirm` does before it waits: the dialog of the form becomes the active one. -/
def activate (v : View) : View :=
  if v.dialogId = "" then v else { v with activeDialogId := v.dialogId }

/-- `htmx:confirm` lets a request through: without a dialog or a text, or when the draft is
ready. -/
def passes (v : View) : Bool :=
  v.dialogId = "" ∨ Pane.isBlankBody v.text ∨
    (v.composeStates v.dialogId).outboundReady ∧ (v.composeStates v.dialogId).draft = v.text

/-- `htmx:confirm` until it waits, or lets the request through. -/
def confirm (v : View) : View :=
  let state := v.composeStates v.dialogId
  if v.dialogId = "" ∨ Pane.isBlankBody v.text then v.activate
  else if v.passes then
    hideVariants
      { v.activate.update v.dialogId { state with outboundReady := false } with
        outboundReady := false }
  else v.activate.update v.dialogId { state with draft := v.text }

/-! ## What is written -/

/-- The drafts of the dialogs. -/
def drafts (v : View) (id : String) : String := (v.composeStates id).draft

theorem drafts_update (id : String) (state : ComposeState) (v : View) :
    (v.update id state).drafts = Function.update v.drafts id state.draft :=
  Function.comp_update ComposeState.draft ..

/-- The form is that of the active dialog, and shows its draft. -/
structure Synced (v : View) : Prop where
  dialogId : v.dialogId = v.activeDialogId
  draft : v.activeDialogId ≠ "" → v.drafts v.activeDialogId = v.text

/-- The text of a dialog is changed: its draft, and the field if the dialog is open. -/
structure Writes (id : String) (f : String → String) (v v' : View) : Prop where
  activeDialogId : v'.activeDialogId = v.activeDialogId
  dialogId : v'.dialogId = v.dialogId
  text : v'.text = if id = v.activeDialogId then f v.text else v.text
  drafts : v'.drafts = Function.update v.drafts id (f (v.drafts id))

/-- A text that was sent is removed. -/
def without (sentText text : String) : String := if text = sentText then "" else text

variable {v v' v'' : View} {id : String} {f g : String → String}

theorem Writes.synced (h : Writes id f v v') (hv : v.Synced) : v'.Synced := by
  refine ⟨by rw [h.dialogId, hv.dialogId, h.activeDialogId], fun hactive ↦ ?_⟩
  rw [h.activeDialogId] at hactive ⊢
  rw [h.drafts, h.text, Function.update_apply]
  by_cases hid : id = v.activeDialogId
  · rw [if_pos hid, if_pos hid.symm, hid, hv.draft hactive]
  · rw [if_neg hid, if_neg (Ne.symm hid), hv.draft hactive]

theorem Writes.form (h : Writes id f v v') :
    v'.form = (v.dialogId, if id = v.activeDialogId then f v.text else v.text) := by
  rw [View.form, h.dialogId, h.text]

/-- The form stays if the text does that is shown. -/
theorem Writes.form_eq_iff (h : Writes id f v v') :
    v'.form = v.form ↔ (id = v.activeDialogId → f v.text = v.text) := by
  rw [h.form, View.form, Prod.mk.injEq]
  split_ifs with hid
  · simp [hid]
  · simp [hid]

/-- One change after another. -/
theorem Writes.trans (h : Writes id f v v') (h' : Writes id g v' v'') :
    Writes id (g ∘ f) v v'' := by
  refine ⟨h'.activeDialogId.trans h.activeDialogId, h'.dialogId.trans h.dialogId, ?_, ?_⟩
  · rw [h'.text, h.text, h.activeDialogId]
    split_ifs <;> rfl
  · rw [h'.drafts, h.drafts, Function.update_self, Function.update_idem]
    rfl

/-- What is not looked at may change. -/
theorem Writes.congr (h : Writes id f v v') (hform : v''.form = v'.form)
    (hactive : v''.activeDialogId = v'.activeDialogId) (hdrafts : v''.drafts = v'.drafts) :
    Writes id f v v'' := by
  obtain ⟨hdialog, htext⟩ := Prod.mk.inj hform
  exact ⟨hactive.trans h.activeDialogId, hdialog.trans h.dialogId, htext.trans h.text,
    hdrafts.trans h.drafts⟩

/-- What is shown is changed like its draft. -/
theorem Writes.of_draft (h : Writes id f v v') (hv : v.Synced) (hactive : v.activeDialogId ≠ "")
    (hfg : f (v.drafts id) = g (v.drafts id)) : Writes id g v v' := by
  refine ⟨h.activeDialogId, h.dialogId, ?_, by rw [h.drafts, hfg]⟩
  rw [h.text]
  split_ifs with hid
  · rw [← hv.draft hactive, ← hid, hfg]
  · rfl

theorem writes_self (v : View) : Writes id (fun text ↦ text) v v :=
  ⟨rfl, rfl, (ite_self _).symm, (Function.update_eq_self ..).symm⟩

theorem writes_clearOutboundState (id : String) (v : View) :
    Writes id (fun text ↦ text) v (v.clearOutboundState id) := by
  have hupdate : Writes id (fun text ↦ text) v (v.update id { v.composeStates id with
      outboundNonce := "", outboundReady := false }) :=
    ⟨rfl, rfl, (ite_self _).symm, drafts_update ..⟩
  unfold clearOutboundState
  dsimp only
  split_ifs
  · exact hupdate.congr rfl rfl rfl
  · exact hupdate

/-- The draft of the open dialog is written together with the field. -/
theorem writes_both (text : String) (state : ComposeState) (hstate : state.draft = text)
    (hform : v'.form = (v.dialogId, text)) (hactive : v'.activeDialogId = v.activeDialogId)
    (hdrafts : v'.drafts = (v.update v.activeDialogId state).drafts) :
    Writes v.activeDialogId (fun _ ↦ text) v v' := by
  obtain ⟨hdialog, htext⟩ := Prod.mk.inj hform
  refine ⟨hactive, hdialog, by rw [if_pos rfl, htext], ?_⟩
  rw [hdrafts, drafts_update, hstate]

theorem writes_input (hactive : v.activeDialogId ≠ "") (text : String) :
    Writes v.activeDialogId (fun _ ↦ text) v (v.input text) := by
  have hupdate : Writes v.activeDialogId (fun _ ↦ text) v ({ v with text }.update v.activeDialogId
      { v.composeStates v.activeDialogId with draft := text }) :=
    writes_both text _ rfl rfl rfl rfl
  unfold input
  dsimp only
  rw [if_neg hactive]
  split_ifs
  · exact hupdate.trans (writes_clearOutboundState ..)
  · exact hupdate

theorem writes_showSendOriginal (id draft : String) (v : View) :
    Writes id (fun _ ↦ draft) v (v.showSendOriginal id draft) := by
  unfold showSendOriginal
  dsimp only
  split_ifs with hid
  · obtain rfl : id = v.activeDialogId := hid
    exact writes_both draft _ rfl rfl rfl rfl
  · exact ⟨rfl, rfl, (if_neg hid).symm, drafts_update ..⟩

theorem writes_click (b : Button) (v : View) :
    v.click b = v ∧ b.dialogId ≠ v.activeDialogId ∨
      b.dialogId = v.activeDialogId ∧ Writes v.activeDialogId (fun _ ↦ b.text) v (v.click b) := by
  unfold click
  split_ifs with hid
  · exact .inl ⟨rfl, hid⟩
  · rw [not_not] at hid
    refine .inr ⟨hid, writes_both b.text ⟨b.text, b.outboundNonce, true⟩ rfl rfl rfl ?_⟩
    rw [← hid]
    rfl

/-- The answer of `/suggest` is taken if the dialog and the text are still there. -/
theorem writes_suggested (hv : v.Synced) (id before text : String) :
    v.suggested id before text = v ∧ ¬(id = v.activeDialogId ∧ before = v.text) ∨
      (id = v.activeDialogId ∧ before = v.text) ∧
        Writes v.activeDialogId (fun _ ↦ text) v (v.suggested id before text) := by
  unfold suggested
  split_ifs with hother
  · refine .inl ⟨rfl, fun ⟨hid, hbefore⟩ ↦ ?_⟩
    rcases hother with hother | hother
    · exact hother (hv.dialogId.trans hid.symm)
    · exact hother hbefore.symm
  · rw [not_or, not_not, not_not, hv.dialogId] at hother
    obtain ⟨rfl, rfl⟩ := hother
    exact .inr ⟨⟨rfl, rfl⟩, writes_both text _ rfl rfl rfl rfl⟩

/-- A draft is removed, from the field too if it is shown. -/
theorem writes_removed (id : String) {state : ComposeState} (hstate : state.draft = "") (v : View) :
    Writes id (fun _ ↦ "") v
      (let v := (v.update id state).clearOutboundState id
       if id = v.activeDialogId then { v with text := "" } else v) := by
  have hclear := writes_clearOutboundState id (v.update id state)
  have hdrafts : ((v.update id state).clearOutboundState id).drafts =
      Function.update v.drafts id "" := by
    rw [hclear.drafts, Function.update_eq_self, drafts_update, hstate]
  dsimp only
  split_ifs with hid
  · obtain rfl : id = v.activeDialogId := hid.trans hclear.activeDialogId
    refine ⟨hclear.activeDialogId, hclear.dialogId, (if_pos rfl).symm, hdrafts⟩
  · refine ⟨hclear.activeDialogId, hclear.dialogId, ?_, hdrafts⟩
    rw [hclear.activeDialogId] at hid
    rw [hclear.text, ite_self]
    exact (if_neg hid).symm

theorem writes_clearComposeState (hv : v.Synced) (hactive : v.activeDialogId ≠ "")
    (id sentText : String) : Writes id (without sentText) v (v.clearComposeState id sentText) := by
  unfold clearComposeState
  split_ifs with hsent
  · exact (writes_clearOutboundState id v).of_draft hv hactive (if_neg hsent).symm
  · rw [ne_eq, not_not] at hsent
    exact (writes_removed id rfl v).of_draft hv hactive (if_pos hsent).symm

theorem without_eq_iff {sentText text : String} (htext : text ≠ "") :
    without sentText text = text ↔ sentText ≠ text := by
  rw [without]
  split_ifs with hsent
  · exact iff_of_false htext.symm (not_not.mpr hsent.symm)
  · exact iff_of_true rfl (Ne.symm hsent)

/-- What was removed from the field need not be removed again. -/
theorem Writes.text_ne (h : Writes id (without text') v v') (hid : id = v.activeDialogId) :
    v'.text = text' → text' = "" := by
  rw [h.text, if_pos hid, without]
  split_ifs with htext
  · exact Eq.symm
  · exact fun heq ↦ absurd heq htext

theorem writes_uploaded (hv : v.Synced) (hactive : v.activeDialogId ≠ "") (id caption : String) :
    Writes id (without caption) v (v.uploaded id caption) := by
  have hclear := writes_clearComposeState hv hactive id caption
  unfold uploaded
  dsimp only
  split_ifs with hshown
  · obtain ⟨hid, htext⟩ := hshown
    have hempty : caption = "" := by
      refine hclear.text_ne ?_ htext
      rw [← hid, hclear.dialogId, hv.dialogId]
    refine hclear.congr ?_ rfl rfl
    rw [View.form, View.form, htext, hempty]
  · exact hclear

theorem writes_afterRequest (hv : v.Synced) (hactive : v.activeDialogId ≠ "")
    (dialogId text : String) :
    Writes (if dialogId = "" then v.activeDialogId else dialogId) (without text) v
      (v.afterRequest dialogId text) := by
  have hsubmitted : (if dialogId = "" then v.activeDialogId else dialogId) ≠ "" := by
    split_ifs with hempty
    · exact hactive
    · exact hempty
  unfold afterRequest
  dsimp only
  generalize (if dialogId = "" then v.activeDialogId else dialogId) = submitted at hsubmitted ⊢
  have hclear := writes_clearComposeState hv hactive submitted text
  have hsynced := hclear.synced hv
  have hdialog := hsynced.dialogId
  rw [if_neg hsubmitted]
  split_ifs with hshown htext hopen
  · refine hclear.congr ?_ rfl rfl
    have hempty : text = "" := hclear.text_ne (hshown.trans hclear.activeDialogId) htext
    rw [View.form, View.form, hdialog, htext, hempty]
  · refine hclear.congr ?_ rfl rfl
    rw [View.form, View.form, hdialog]
  · refine hclear.congr ?_ rfl rfl
    rw [View.form, View.form, hdialog]
    exact congrArg _ (hsynced.draft hopen)
  · exact hclear

/-- Enter changes nothing that is shown. -/
theorem writes_confirm (hv : v.Synced) (hactive : v.activeDialogId ≠ "") :
    Writes v.activeDialogId (fun text ↦ text) v v.confirm := by
  have hactivate : v.activate.activeDialogId = v.activeDialogId := by
    unfold activate
    split_ifs
    · rfl
    · exact hv.dialogId
  have hdrafts : v.activate.drafts = v.drafts := by
    unfold activate
    split_ifs <;> rfl
  have hform : v.activate.form = v.form := by
    unfold activate
    split_ifs <;> rfl
  have hself : Writes v.activeDialogId (fun text ↦ text) v v.activate :=
    (writes_self v).congr hform hactivate hdrafts
  have hdraft : v.drafts v.dialogId = v.text := by
    rw [hv.dialogId]
    exact hv.draft hactive
  have hupdate (state : ComposeState) (hstate : state.draft = v.text) :
      Writes v.activeDialogId (fun text ↦ text) v (v.activate.update v.dialogId state) := by
    refine hself.congr rfl rfl ?_
    rw [drafts_update, hdrafts, hstate, ← hdraft, Function.update_eq_self]
  unfold confirm
  dsimp only
  split_ifs
  · exact hself
  · have hready := hupdate { v.composeStates v.dialogId with outboundReady := false } hdraft
    exact hready.congr rfl rfl rfl
  · exact hupdate _ rfl

theorem synced_input (hv : v.Synced) (text : String) : (v.input text).Synced := by
  by_cases hactive : v.activeDialogId = ""
  · rw [input, if_pos hactive]
    exact ⟨hv.dialogId, absurd hactive⟩
  · exact (writes_input hactive text).synced hv

theorem activeDialogId_clearComposeState (id sentText : String) (v : View) :
    (v.clearComposeState id sentText).activeDialogId = v.activeDialogId := by
  unfold clearComposeState
  split_ifs
  · exact (writes_clearOutboundState id v).activeDialogId
  · exact (writes_removed id rfl v).activeDialogId

theorem synced_clearComposeState (hv : v.Synced) (id sentText : String) :
    (v.clearComposeState id sentText).Synced := by
  unfold clearComposeState
  split_ifs
  · exact (writes_clearOutboundState id v).synced hv
  · exact (writes_removed id rfl v).synced hv

theorem synced_uploaded (hv : v.Synced) (id caption : String) : (v.uploaded id caption).Synced := by
  by_cases hactive : v.activeDialogId = ""
  · have hclear := synced_clearComposeState hv id caption
    unfold uploaded
    dsimp only
    split_ifs
    · exact ⟨hclear.dialogId, absurd ((activeDialogId_clearComposeState ..).trans hactive)⟩
    · exact hclear
  · exact (writes_uploaded hv hactive id caption).synced hv

theorem synced_afterRequest (hv : v.Synced) (dialogId text : String) :
    (v.afterRequest dialogId text).Synced := by
  by_cases hactive : v.activeDialogId = ""
  · unfold afterRequest
    dsimp only
    generalize (if dialogId = "" then v.activeDialogId else dialogId) = submitted
    have hclear : (if submitted = "" then v else v.clearComposeState submitted text).Synced := by
      split_ifs
      · exact hv
      · exact synced_clearComposeState hv submitted text
    have hclosed : (if submitted = "" then v
        else v.clearComposeState submitted text).activeDialogId = "" := by
      split_ifs
      · exact hactive
      · exact (activeDialogId_clearComposeState ..).trans hactive
    generalize (if submitted = "" then v else v.clearComposeState submitted text) = v' at *
    split_ifs with hsame _ hopen
    · exact ⟨rfl, absurd hclosed⟩
    · exact ⟨rfl, absurd hclosed⟩
    · exact absurd hclosed hopen
    · exact hclear
  · exact (writes_afterRequest hv hactive dialogId text).synced hv

theorem synced_confirm (hv : v.Synced) : v.confirm.Synced := by
  by_cases hactive : v.activeDialogId = ""
  · have hdialog : v.dialogId = "" := hv.dialogId.trans hactive
    rw [confirm, if_pos (.inl hdialog), activate, if_pos hdialog]
    exact hv
  · exact (writes_confirm hv hactive).synced hv

/-- Another dialog shows its draft, and the one that is open goes on showing its own. -/
theorem form_openDialog (hactive : v.activeDialogId ≠ "") (hid : id ≠ "") :
    (v.openDialog id).form = (id, if id = v.activeDialogId then v.text else v.drafts id) := by
  rw [openDialog, if_neg hid, saveComposeState, if_neg hactive]
  refine congrArg (Prod.mk id) ?_
  exact (congrFun (drafts_update ..) id).trans (Function.update_apply ..)

theorem synced_openDialog (hv : v.Synced) (id : String) : (v.openDialog id).Synced := by
  unfold openDialog
  split_ifs
  · exact hv
  · exact ⟨rfl, fun _ ↦ rfl⟩

end View

end TgMessenger.Web
