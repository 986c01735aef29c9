import TgMessenger.Data.Machine
import TgMessenger.Web.Composer
import Mathlib.Tactic.ByContra

/-!
# What the composer issues on its own

The handler of `htmx:confirm` (`web/templates/chat.html`) waits for a translation.  Meanwhile the
user may type, open another dialog or press Enter again.  When no translation applies the handler
issues the request itself, with what the form holds by then.

What it issues is what was submitted in every run in which nothing is written over a text that a
handler waits with, and no other dialog is opened while a handler waits whose controller was
forgotten.
-/

namespace TgMessenger.Web

/-! ## Handlers -/

/-- A handler that waits for `/outbound`: what was submitted. -/
structure Handler where
  dialogId : String
  draft : String
deriving DecidableEq

/-- The answer of `/outbound`. -/
inductive Answer where
  | disabled
  | notApplicable
  | error
  | variants (variants : List String) (nonce : String)

/-- A request that a handler has issued on its own. -/
structure Issue where
  submitted : Handler
  /-- The form at that moment. -/
  dialogId : String
  text : String
deriving DecidableEq

/-- The request sends what was submitted. -/
def Issue.Faithful (r : Issue) : Prop :=
  r.dialogId = r.submitted.dialogId ∧ r.text = r.submitted.draft

/-- The page. -/
structure Page where
  view : View
  /-- `outboundController`: the handler whose controller it is. -/
  outboundController : Option ℕ
  /-- How many handlers have waited. -/
  started : ℕ
  handlers : ℕ → Option Handler
  /-- The controllers that were aborted. -/
  aborted : ℕ → Bool
  issued : List Issue

/-- What can happen to the page. -/
inductive Event where
  | input (text : String)
  | openDialog (id : String)
  | /-- Enter. -/
    confirm
  | /-- A handler gets its answer. -/
    answer (n : ℕ) (a : Answer)
  | /-- The request of a handler fails, or was aborted. -/
    failed (n : ℕ)
  | /-- The timer of a handler fires. -/
    timeout (n : ℕ)
  | click (i : ℕ)
  | suggested (id before text : String)
  | afterRequest (dialogId text : String)
  | uploaded (id caption : String)

namespace Page

/-- `if (outboundController) outboundController.abort()`. -/
def abort (w : Page) : Page :=
  { w with
    aborted :=
      match w.outboundController with
      | some n => Function.update w.aborted n true
      | none => w.aborted }

/-- The `finally` of a handler. -/
def finish (n : ℕ) (w : Page) : Page :=
  { w with outboundController := none, handlers := Function.update w.handlers n none }

/-- A handler issues the request. -/
def issueRequest (h : Handler) (w : Page) : Page :=
  { w with issued := ⟨h, w.view.dialogId, w.view.text⟩ :: w.issued }

/-- A handler starts to wait, with a controller of its own. -/
def wait (h : Handler) (w : Page) : Page :=
  { w with
    outboundController := some w.started
    started := w.started + 1
    handlers := Function.update w.handlers w.started (some h) }

/-- What the answer of a handler does to the view. -/
def answered (h : Handler) (v : View) : Answer → View
  | .disabled | .notApplicable => v.clearOutboundState h.dialogId
  | .error => v.showSendOriginal h.dialogId h.draft
  | .variants variants nonce =>
    { v with variantPanel := variants.map (⟨h.dialogId, ·, nonce, false⟩) ++
               [⟨h.dialogId, h.draft, "", true⟩] }

/-- The answers after which a handler issues the request on its own. -/
def issues : Answer → Bool
  | .disabled | .notApplicable => true
  | .error | .variants .. => false

/-- What an event does. -/
def step : Machine Page Event := fun w e ↦
  match e with
  | .input text => some { w with view := w.view.input text }
  | .openDialog id =>
    if id = "" then some w else some { w.abort with view := w.view.openDialog id }
  | .confirm =>
    if w.view.passes then some { w with view := w.view.confirm }
    else
      some ({ w.abort with view := w.view.confirm }.wait ⟨w.view.dialogId, w.view.text⟩)
  | .answer n a =>
    match w.handlers n with
    | some h =>
      if w.aborted n then none
      else
        let w := { w with view := answered h w.view a }
        some ((if issues a then w.issueRequest h else w).finish n)
    | none => none
  | .failed n =>
    (w.handlers n).map fun h ↦
      { w with view := w.view.showSendOriginal h.dialogId h.draft }.finish n
  | .timeout n => (w.handlers n).map fun _ ↦ w.abort
  | .click i => (w.view.variantPanel[i]?).map fun b ↦ { w with view := w.view.click b }
  | .suggested id before text => some { w with view := w.view.suggested id before text }
  | .afterRequest dialogId text => some { w with view := w.view.afterRequest dialogId text }
  | .uploaded id caption => some { w with view := w.view.uploaded id caption }

/-- A page that was just loaded. -/
def init : Page where
  view := ⟨"", "", "", false, "", fun _ ↦ {}, []⟩
  outboundController := none
  started := 0
  handlers _ := none
  aborted _ := false
  issued := []

/-! ## Handlers that can still get their answer -/

/-- A handler that waits, and was not aborted. -/
def Live (w : Page) (n : ℕ) (h : Handler) : Prop := w.handlers n = some h ∧ w.aborted n = false

/-- The form holds what every live handler has read. -/
def Agrees (w : Page) : Prop := ∀ n h, w.Live n h → w.view.form = (h.dialogId, h.draft)

/-- The handlers are numbered in the order they started. -/
structure Numbered (w : Page) : Prop where
  handlers : ∀ n, w.started ≤ n → w.handlers n = none
  aborted : ∀ n, w.started ≤ n → w.aborted n = false
  controller : ∀ n, w.outboundController = some n → n < w.started

/-- The view after an event. -/
def viewAfter (w : Page) : Event → View
  | .input text => w.view.input text
  | .openDialog id => w.view.openDialog id
  | .confirm => w.view.confirm
  | .answer n a => (w.handlers n).elim w.view fun h ↦ answered h w.view a
  | .failed n => (w.handlers n).elim w.view fun h ↦ w.view.showSendOriginal h.dialogId h.draft
  | .timeout _ => w.view
  | .click i => (w.view.variantPanel[i]?).elim w.view fun b ↦ w.view.click b
  | .suggested id before text => w.view.suggested id before text
  | .afterRequest dialogId text => w.view.afterRequest dialogId text
  | .uploaded id caption => w.view.uploaded id caption

/-- An event ends a handler, or aborts it. -/
def Drops (w : Page) (n : ℕ) : Event → Prop
  | .openDialog id => id ≠ "" ∧ w.outboundController = some n
  | .confirm => w.view.passes = false ∧ w.outboundController = some n
  | .answer m _ | .failed m => m = n
  | .timeout _ => w.outboundController = some n
  | _ => False

/-- An event leaves alone what a handler waits with.  What is written into its dialog is its own
text; nothing clears that text there; and another dialog is opened only if this aborts the
handler. -/
def Spares (w : Page) (n : ℕ) (h : Handler) : Event → Prop
  | .input text => text = h.draft
  | .openDialog id => id = "" ∨ id = h.dialogId ∨ w.outboundController = some n
  | .answer m .error | .failed m =>
    m = n ∨ ∀ h' ∈ w.handlers m, h'.dialogId = h.dialogId → h'.draft = h.draft
  | .click i => ∀ b ∈ w.view.variantPanel[i]?, b.dialogId = h.dialogId → b.text = h.draft
  | .suggested id before text => id = h.dialogId → before = h.draft → text = h.draft
  | .afterRequest id text => id = "" ∨ id = h.dialogId → text ≠ h.draft
  | .uploaded id caption => id = h.dialogId → caption ≠ h.draft
  | .confirm | .answer .. | .timeout _ => True

instance (w : Page) (n : ℕ) (h : Handler) : DecidablePred (w.Spares n h)
  | .input text => inferInstanceAs (Decidable (text = h.draft))
  | .openDialog id =>
    inferInstanceAs (Decidable (id = "" ∨ id = h.dialogId ∨ w.outboundController = some n))
  | .answer m .error | .failed m =>
    inferInstanceAs (Decidable (m = n ∨ ∀ h' ∈ w.handlers m, _ → _))
  | .click i => inferInstanceAs (Decidable (∀ b ∈ w.view.variantPanel[i]?, _ → _))
  | .suggested .. | .afterRequest .. | .uploaded .. => inferInstanceAs (Decidable (_ → _))
  | .confirm | .timeout _ | .answer _ .disabled | .answer _ .notApplicable
  | .answer _ (.variants ..) => inferInstanceAs (Decidable True)

/-- An event leaves alone what every handler waits with that was not aborted. -/
def Undisturbed (w : Page) (e : Event) : Prop :=
  ∀ n < w.started, ∀ h ∈ w.handlers n, w.aborted n = false → w.Spares n h e

instance (w : Page) (e : Event) : Decidable (w.Undisturbed e) :=
  inferInstanceAs (Decidable (∀ n < w.started, ∀ h ∈ w.handlers n, _))

section Live

variable {w w' : Page} {n m : ℕ} {h : Handler}

theorem live_abort : w.abort.Live n h ↔ w.Live n h ∧ w.outboundController ≠ some n := by
  dsimp only [Live, abort]
  cases hc : w.outboundController with
  | none => simp
  | some c =>
    dsimp only
    by_cases hn : n = c
    · subst hn
      simp
    · rw [Function.update_of_ne hn]
      simp [Ne.symm hn]

theorem live_finish : (w.finish m).Live n h ↔ w.Live n h ∧ m ≠ n := by
  dsimp only [Live, finish]
  by_cases hn : n = m
  · subst hn
    simp
  · rw [Function.update_of_ne hn]
    simp [Ne.symm hn]

theorem Numbered.live_wait (hw : w.Numbered) {h' : Handler} :
    (w.wait h').Live n h ↔ w.Live n h ∨ n = w.started ∧ h = h' := by
  dsimp only [Live, wait]
  by_cases hn : n = w.started
  · subst hn
    rw [Function.update_self, hw.aborted _ le_rfl, hw.handlers _ le_rfl]
    simp [eq_comm]
  · rw [Function.update_of_ne hn]
    simp [hn]

theorem Numbered.of_live (hw : w.Numbered) (h : w.Live n h) : n < w.started := by
  by_contra hn
  rw [Live, hw.handlers n (Nat.le_of_not_lt hn)] at h
  cases h.1

theorem Numbered.abort (hw : w.Numbered) : w.abort.Numbered where
  handlers := hw.handlers
  aborted n hn := by
    dsimp only [Page.abort]
    cases hc : w.outboundController with
    | none => exact hw.aborted n hn
    | some c =>
      have hlt : c < w.started := hw.controller c hc
      have hne : n ≠ c := (hlt.trans_le hn).ne'
      dsimp only
      rw [Function.update_of_ne hne]
      exact hw.aborted n hn
  controller := hw.controller

theorem Numbered.finish (hw : w.Numbered) : (w.finish m).Numbered where
  handlers n hn := by
    dsimp only [Page.finish]
    by_cases hm : n = m
    · subst hm
      exact Function.update_self ..
    · rw [Function.update_of_ne hm]
      exact hw.handlers n hn
  aborted := hw.aborted
  controller _ hc := nomatch hc

theorem Numbered.wait (hw : w.Numbered) : (w.wait h).Numbered where
  handlers n hn := by
    dsimp only [Page.wait] at hn ⊢
    rw [Function.update_of_ne (Nat.lt_of_succ_le hn).ne']
    exact hw.handlers n (Nat.le_of_succ_le hn)
  aborted n hn := hw.aborted n (Nat.le_of_succ_le hn)
  controller n hc := by
    obtain rfl := Option.some.inj hc
    exact Nat.lt_succ_self _

theorem Numbered.issueRequest (hw : w.Numbered) : (w.issueRequest h).Numbered :=
  ⟨hw.handlers, hw.aborted, hw.controller⟩

/-- The view is not about the handlers. -/
theorem Numbered.setView (hw : w.Numbered) (v : View) : Numbered { w with view := v } :=
  ⟨hw.handlers, hw.aborted, hw.controller⟩

end Live

/-! ## What an event does to the handlers and the form -/

/-- Enter leaves the form as it is. -/
theorem form_confirm (v : View) : v.confirm.form = v.form := by
  unfold View.confirm View.activate
  split_ifs <;> rfl

/-- Giving up a translation leaves the form as it is. -/
theorem form_clearOutboundState (id : String) (v : View) :
    (v.clearOutboundState id).form = v.form := by
  unfold View.clearOutboundState
  dsimp only
  split_ifs <;> rfl

/-- Enter starts a handler, unless it lets the request through. -/
def Starts (w : Page) (n : ℕ) (h : Handler) : Event → Prop
  | .confirm => w.view.passes = false ∧ n = w.started ∧ h = ⟨w.view.dialogId, w.view.text⟩
  | _ => False

/-- After an event the live handlers are those it does not drop, and the one it starts. -/
theorem step_live {w w' : Page} {e : Event} (hs : step w e = some w') (hw : w.Numbered) :
    w'.Numbered ∧ w'.view = w.viewAfter e ∧
      ∀ n h, w'.Live n h ↔ w.Live n h ∧ ¬ w.Drops n e ∨ w.Starts n h e := by
  cases e with
  | input | suggested | afterRequest | uploaded =>
    cases hs
    refine ⟨hw.setView _, rfl, fun n h ↦ ?_⟩
    simp only [Drops, Starts, not_false_eq_true, and_true, or_false]
    rfl
  | openDialog id =>
    rw [step] at hs
    simp only [Starts, or_false, Drops]
    split_ifs at hs with hid
    · cases hs
      subst hid
      refine ⟨hw, rfl, fun n h ↦ ?_⟩
      simp only [ne_eq, not_true_eq_false, false_and, not_false_eq_true, and_true]
    · cases hs
      refine ⟨hw.abort.setView _, rfl, fun n h ↦ ?_⟩
      simp only [ne_eq, hid, not_false_eq_true, true_and]
      exact live_abort (w := w)
  | confirm =>
    rw [step] at hs
    simp only [Starts, Drops]
    split_ifs at hs with hpasses
    · cases hs
      refine ⟨hw.setView _, rfl, fun n h ↦ ?_⟩
      simp only [hpasses, Bool.true_eq_false, false_and, not_false_eq_true, and_true, or_false]
      rfl
    · cases hs
      rw [Bool.not_eq_true] at hpasses
      refine ⟨(hw.abort.setView _).wait, rfl, fun n h ↦ ?_⟩
      simp only [hpasses, true_and]
      rw [(hw.abort.setView _).live_wait]
      exact or_congr (live_abort (w := w)) Iff.rfl
  | answer m a =>
    rw [step] at hs
    simp only [Starts, or_false, Drops]
    cases hm : w.handlers m with
    | none =>
      rw [hm] at hs
      cases hs
    | some h' =>
      rw [hm] at hs
      dsimp only at hs
      split_ifs at hs with haborted hissues
      · cases hs
        exact ⟨(hw.setView _).issueRequest.finish, by rw [viewAfter, hm]; rfl,
          fun n h ↦ live_finish⟩
      · cases hs
        exact ⟨(hw.setView _).finish, by rw [viewAfter, hm]; rfl, fun n h ↦ live_finish⟩
  | failed m =>
    obtain ⟨h', hm, rfl⟩ := Option.map_eq_some_iff.mp hs
    simp only [Starts, or_false, Drops]
    exact ⟨(hw.setView _).finish, by rw [viewAfter, hm]; rfl, fun n h ↦ live_finish⟩
  | timeout m =>
    obtain ⟨h', -, rfl⟩ := Option.map_eq_some_iff.mp hs
    simp only [Starts, or_false, Drops]
    exact ⟨hw.abort, rfl, fun n h ↦ live_abort⟩
  | click i =>
    obtain ⟨b, hb, rfl⟩ := Option.map_eq_some_iff.mp hs
    refine ⟨hw.setView _, by rw [viewAfter, hb]; rfl, fun n h ↦ ?_⟩
    simp only [Drops, Starts, not_false_eq_true, and_true, or_false]
    rfl

/-- The drafts stay what the form shows. -/
theorem synced_viewAfter {w : Page} (hv : w.view.Synced) (e : Event) : (w.viewAfter e).Synced := by
  cases e with
  | input text => exact View.synced_input hv text
  | openDialog id => exact View.synced_openDialog hv id
  | confirm => exact View.synced_confirm hv
  | answer m a =>
    dsimp only [viewAfter]
    cases w.handlers m with
    | none => exact hv
    | some h =>
      cases a with
      | disabled | notApplicable => exact (View.writes_clearOutboundState ..).synced hv
      | error => exact (View.writes_showSendOriginal ..).synced hv
      | variants variants nonce => exact ⟨hv.dialogId, hv.draft⟩
  | failed m =>
    dsimp only [viewAfter]
    cases w.handlers m with
    | none => exact hv
    | some h => exact (View.writes_showSendOriginal ..).synced hv
  | timeout m => exact hv
  | click i =>
    dsimp only [viewAfter]
    cases w.view.variantPanel[i]? with
    | none => exact hv
    | some b =>
      rcases View.writes_click b w.view with ⟨hsame, -⟩ | ⟨-, hwrites⟩
      · rw [Option.elim_some, hsame]
        exact hv
      · exact hwrites.synced hv
  | suggested id before text =>
    rcases View.writes_suggested hv id before text with ⟨hsame, -⟩ | ⟨-, hwrites⟩
    · rw [viewAfter, hsame]
      exact hv
    · exact hwrites.synced hv
  | afterRequest id text => exact View.synced_afterRequest hv id text
  | uploaded id caption => exact View.synced_uploaded hv id caption

/-- An event spares a handler if and only if it drops it or leaves the form. -/
theorem spares_iff {w : Page} {n : ℕ} {h : Handler} (hv : w.view.Synced)
    (hactive : h.dialogId ≠ "") (hdraft : h.draft ≠ "")
    (hform : w.view.form = (h.dialogId, h.draft)) (e : Event) :
    w.Spares n h e ↔ w.Drops n e ∨ (w.viewAfter e).form = w.view.form := by
  obtain ⟨hdialog, htext⟩ := Prod.mk.inj hform
  have hopen : w.view.activeDialogId = h.dialogId := hv.dialogId.symm.trans hdialog
  have hactive' : w.view.activeDialogId ≠ "" := hopen ▸ hactive
  -- What is put back into its dialog is the text of a handler.
  have hback (h' : Handler) :
      (h'.dialogId = h.dialogId → h'.draft = h.draft) ↔
        (w.view.showSendOriginal h'.dialogId h'.draft).form = w.view.form := by
    rw [(View.writes_showSendOriginal h'.dialogId h'.draft w.view).form_eq_iff, hopen, htext]
  have hfailed (m : ℕ) :
      (m = n ∨ ∀ h' ∈ w.handlers m, h'.dialogId = h.dialogId → h'.draft = h.draft) ↔ m = n ∨
        ((w.handlers m).elim w.view
          fun h' ↦ w.view.showSendOriginal h'.dialogId h'.draft).form = w.view.form := by
    refine or_congr_right ?_
    cases hm : w.handlers m with
    | none => simp
    | some h' => simpa using hback h'
  cases e with
  | input text =>
    dsimp only [Spares, Drops, viewAfter]
    rw [(View.writes_input hactive' text).form_eq_iff, htext]
    simp
  | openDialog id =>
    dsimp only [Spares, Drops, viewAfter]
    by_cases hid : id = ""
    · rw [hid, View.openDialog, if_pos rfl]
      simp
    · rw [View.form_openDialog hactive' hid, hform, hopen, htext, Prod.mk.injEq]
      by_cases hsame : id = h.dialogId
      · simp [hsame]
      · simp [hid, hsame]
  | confirm =>
    dsimp only [Spares, Drops, viewAfter]
    rw [form_confirm]
    simp
  | answer m a =>
    cases a with
    | error => exact hfailed m
    | disabled | notApplicable =>
      refine iff_of_true trivial (.inr ?_)
      dsimp only [viewAfter]
      cases w.handlers m with
      | none => rfl
      | some h' => exact form_clearOutboundState ..
    | variants variants nonce =>
      refine iff_of_true trivial (.inr ?_)
      dsimp only [viewAfter]
      cases w.handlers m <;> rfl
  | failed m => exact hfailed m
  | timeout m => exact iff_of_true trivial (.inr rfl)
  | click i =>
    dsimp only [Spares, Drops, viewAfter]
    cases hi : w.view.variantPanel[i]? with
    | none => simp
    | some b =>
      rcases View.writes_click b w.view with ⟨hsame, hother⟩ | ⟨hid, hwrites⟩
      · rw [hopen] at hother
        simp [hsame, hother]
      · rw [hopen] at hid
        rw [Option.elim_some, hwrites.form_eq_iff, htext]
        simp [hid]
  | suggested id before text =>
    dsimp only [Spares, Drops, viewAfter]
    rcases View.writes_suggested hv id before text with ⟨hsame, hother⟩ | ⟨⟨hid, hbefore⟩, hwrites⟩
    · rw [hopen, htext] at hother
      rw [hsame]
      exact iff_of_true (fun hid hbefore ↦ absurd ⟨hid, hbefore⟩ hother) (.inr rfl)
    · rw [hopen] at hid
      rw [hwrites.form_eq_iff, htext, hid, hbefore, htext]
      simp
  | afterRequest id text =>
    dsimp only [Spares, Drops, viewAfter]
    rw [(View.writes_afterRequest hv hactive' id text).form_eq_iff, htext,
      View.without_eq_iff hdraft, hopen, false_or]
    by_cases hid : id = ""
    · simp [hid]
    · simp [hid]
  | uploaded id caption =>
    dsimp only [Spares, Drops, viewAfter]
    rw [(View.writes_uploaded hv hactive' id caption).form_eq_iff, htext,
      View.without_eq_iff hdraft, hopen, false_or]

/-- What live handlers wait with has a dialog and is not empty. -/
def Submittable (w : Page) : Prop := ∀ n h, w.Live n h → h.dialogId ≠ "" ∧ h.draft ≠ ""

/-- Enter starts no handler without a dialog or a text. -/
theorem submittable_step {w w' : Page} {e : Event} (hs : step w e = some w') (hw : w.Numbered)
    (hsubmittable : w.Submittable) : w'.Submittable := by
  obtain ⟨-, -, hlive⟩ := step_live hs hw
  intro n h hh
  rcases (hlive n h).mp hh with ⟨hh, -⟩ | hstarts
  · exact hsubmittable n h hh
  · cases e with
    | confirm =>
      obtain ⟨hpasses, -, rfl⟩ := hstarts
      have hblocked := of_decide_eq_false hpasses
      refine ⟨fun hdialog ↦ hblocked (.inl hdialog), fun htext ↦ hblocked (.inr (.inl ?_))⟩
      dsimp only at htext
      rw [htext]
      rfl
    | _ => exact hstarts.elim

/-- A step leaves the form as the live handlers have read it if and only if it spares them. -/
theorem agrees_iff {w w' : Page} {e : Event} (hs : step w e = some w') (hw : w.Numbered)
    (hv : w.view.Synced) (hsubmittable : w.Submittable) (hagrees : w.Agrees) :
    w'.Agrees ↔ w.Undisturbed e := by
  obtain ⟨-, hview, hlive⟩ := step_live hs hw
  have hspares {n : ℕ} {h : Handler} (hh : w.Live n h) :
      w.Spares n h e ↔ w.Drops n e ∨ w'.view.form = (h.dialogId, h.draft) := by
    obtain ⟨hdialog, hdraft⟩ := hsubmittable n h hh
    rw [hview, ← hagrees n h hh]
    exact spares_iff hv hdialog hdraft (hagrees n h hh) e
  constructor
  · intro h n _ hd hhd haborted
    rw [hspares ⟨hhd, haborted⟩]
    by_cases hdrops : w.Drops n e
    · exact .inl hdrops
    · exact .inr (h n hd ((hlive n hd).mpr (.inl ⟨⟨hhd, haborted⟩, hdrops⟩)))
  · intro h n hd hhd
    rcases (hlive n hd).mp hhd with ⟨hlive, hdrops⟩ | hstarts
    · have hsp := h n (hw.of_live hlive) hd hlive.1 hlive.2
      exact ((hspares hlive).mp hsp).resolve_left hdrops
    · -- What a handler submits is what the form holds.
      rw [hview]
      cases e with
      | confirm =>
        obtain ⟨-, -, rfl⟩ := hstarts
        exact form_confirm w.view
      | _ => exact hstarts.elim

/-! ## Runs -/

/-- Every request that a handler has issued on its own sends what was submitted. -/
def Faithful (w : Page) : Prop := ∀ r ∈ w.issued, r.Faithful

/-- Only an answer makes a handler issue a request, with the form as it is then. -/
theorem issued_step {w w' : Page} {e : Event} (hs : step w e = some w') :
    w'.issued = w.issued ∨ ∃ n a h, e = .answer n a ∧ issues a = true ∧ w.Live n h ∧
      w'.issued = ⟨h, w.view.dialogId, w.view.text⟩ :: w.issued := by
  cases e with
  | openDialog id =>
    rw [step] at hs
    split_ifs at hs <;> (cases hs; exact .inl rfl)
  | confirm =>
    rw [step] at hs
    split_ifs at hs <;> (cases hs; exact .inl rfl)
  | answer m a =>
    rw [step] at hs
    cases hm : w.handlers m with
    | none =>
      rw [hm] at hs
      cases hs
    | some h =>
      rw [hm] at hs
      dsimp only at hs
      split_ifs at hs with haborted hissues
      · cases hs
        rw [Bool.not_eq_true] at haborted
        have hform : (answered h w.view a).form = w.view.form := by
          cases a with
          | disabled | notApplicable => exact form_clearOutboundState ..
          | error | variants => cases hissues
        obtain ⟨hdialog, htext⟩ := Prod.mk.inj hform
        refine .inr ⟨m, a, h, rfl, hissues, ⟨hm, haborted⟩, ?_⟩
        dsimp only [finish, issueRequest]
        rw [hdialog, htext]
      · cases hs
        exact .inl rfl
  | failed m | timeout m | click m =>
    obtain ⟨_, -, rfl⟩ := Option.map_eq_some_iff.mp hs
    exact .inl rfl
  | input | suggested | afterRequest | uploaded =>
    cases hs
    exact .inl rfl

theorem Faithful.step {w w' : Page} {e : Event} (h : w.Faithful) (hagrees : w.Agrees)
    (hs : step w e = some w') : w'.Faithful := by
  rcases issued_step hs with hissued | ⟨n, a, hd, -, -, hlive, hissued⟩
  · rw [Faithful, hissued]
    exact h
  · rw [Faithful, hissued, List.forall_mem_cons]
    exact ⟨Prod.mk.inj (hagrees n hd hlive), h⟩

/-- The answer `disabled` of a live handler issues what the form holds. -/
theorem step_disabled {w : Page} {n : ℕ} {h : Handler} (hlive : w.Live n h) :
    ∃ w', step w (.answer n .disabled) = some w' ∧
      w'.issued = ⟨h, w.view.dialogId, w.view.text⟩ :: w.issued := by
  have hs : ∃ w', step w (.answer n .disabled) = some w' := by
    rw [step, hlive.1, hlive.2]
    exact ⟨_, rfl⟩
  obtain ⟨w', hs⟩ := hs
  refine ⟨w', hs, ?_⟩
  rcases issued_step hs with hissued | ⟨m, a, h', he, -, hlive', hissued⟩
  · rw [step, hlive.1, hlive.2] at hs
    cases hs
    exact absurd (congrArg List.length hissued) (Nat.succ_ne_self _)
  · cases he
    obtain rfl := Option.some.inj (hlive'.1.symm.trans hlive.1)
    exact hissued

/-- In every undisturbed run each request that a handler has issued on its own sends what was
submitted in the Enter that started it; and a step that may follow such a run is undisturbed if and
only if the answer `disabled` of none of the handlers would then issue anything else. -/
theorem sends_submitted {w : Page} (hrun : Machine.Runs step Undisturbed init w) :
    w.Faithful ∧ ∀ e w', step w e = some w' → (w.Undisturbed e ↔
      ∀ n w'', step w' (.answer n .disabled) = some w'' → w''.Faithful) := by
  have hinv := hrun.preserves (I := fun w ↦
    (w.Numbered ∧ w.view.Synced ∧ w.Submittable) ∧ w.Agrees ∧ w.Faithful) ?_ ?_
  · obtain ⟨⟨hnumbered, hsynced, hsubmittable⟩, hagrees, hfaithful⟩ := hinv
    refine ⟨hfaithful, fun e w' hs ↦ ?_⟩
    rw [← agrees_iff hs hnumbered hsynced hsubmittable hagrees]
    constructor
    · exact fun h n w'' hs' ↦ (hfaithful.step hagrees hs).step h hs'
    · intro h n hd hlive
      obtain ⟨w'', hs', hissued⟩ := step_disabled hlive
      have hfaithful' := h n w'' hs'
      rw [Faithful, hissued, List.forall_mem_cons] at hfaithful'
      exact Prod.ext hfaithful'.1.1 hfaithful'.1.2
  · rintro w w' e ⟨⟨hnumbered, hsynced, hsubmittable⟩, hagrees, hfaithful⟩ hundisturbed hs
    obtain ⟨hnumbered', hview, -⟩ := step_live hs hnumbered
    refine ⟨⟨hnumbered', ?_, submittable_step hs hnumbered hsubmittable⟩,
      (agrees_iff hs hnumbered hsynced hsubmittable hagrees).mpr hundisturbed,
      hfaithful.step hagrees hs⟩
    rw [hview]
    exact synced_viewAfter hsynced e
  · have hnone (n : ℕ) (h : Handler) : ¬init.Live n h := nofun
    exact ⟨⟨⟨fun _ _ ↦ rfl, fun _ _ ↦ rfl, nofun⟩, ⟨rfl, absurd rfl⟩, fun n h hh ↦
      absurd hh (hnone n h)⟩, fun n h hh ↦ absurd hh (hnone n h), nofun⟩

/-- Two Enters: the first is aborted, and the second gets its answer. -/
theorem sends_submitted_once :
    ∃ w, Machine.Runs step Undisturbed init w ∧ w.issued = [⟨⟨"7", "hi"⟩, "7", "hi"⟩] ∧
      w.Faithful := by
  have hexec : ((Machine.guarded step Undisturbed).exec init
      [.openDialog "7", .input "hi", .confirm, .confirm, .failed 0, .answer 1 .notApplicable]).any
        (fun w ↦ w.issued = [⟨⟨"7", "hi"⟩, "7", "hi"⟩]) = true := by
    decide +kernel
  obtain ⟨w, hrun, hissued⟩ := Machine.exists_run_of_exec hexec
  exact ⟨w, hrun, hissued, (sends_submitted hrun).1⟩

/-- The second Enter aborts the first handler, whose `finally` forgets the controller of the
second; so opening another dialog aborts nobody, and the answer sends the draft of that dialog. -/
theorem sends_other_draft :
    ∃ w, Machine.Runs step Machine.anyEvent init w ∧
      w.issued = [⟨⟨"7", "hi"⟩, "8", "not yet"⟩] ∧ ¬ w.Faithful := by
  have hexec : ((Machine.guarded step fun _ _ ↦ True).exec init
      [.openDialog "8", .input "not yet", .openDialog "7", .input "hi", .confirm, .confirm,
        .failed 0, .openDialog "8", .answer 1 .disabled]).any
        (fun w ↦ w.issued = [⟨⟨"7", "hi"⟩, "8", "not yet"⟩]) = true := by
    decide +kernel
  obtain ⟨w, hrun, hissued⟩ := Machine.exists_run_of_exec hexec
  refine ⟨w, hrun, hissued, ?_⟩
  rw [Faithful, hissued]
  intro h
  exact absurd (h _ List.mem_cons_self).1 (by decide)

end Page

end TgMessenger.Web
