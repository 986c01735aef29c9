import TgMessenger.Web.Sse
import Mathlib.Data.List.Perm.Subperm

/-!
# What a stream serves

Whatever is published, in whatever order the tasks end and the loop goes over them, the frames of
a stream are the events of its dialog, in the order of each subscription, less the echoes of the
client itself; and every frame with a translation follows a frame with the message.
-/

namespace TgMessenger.Web.Sse

open Bubbles (Key defaultMaxsize boundedRemember)
open scoped List

/-! ## One subscription -/

theorem Pull.event?_cancel {α : Type} (p : Pull α) : p.cancel.event? = p.event? := by
  cases p <;> rfl

namespace Feed

variable {α : Type} {f f' : Feed α} {ev : α}

/-- How a subscription goes on without the loop. -/
inductive Turns (f : Feed α) : Feed α → Prop where
  | register : Turns f { f with registered := true }
  | put (ev : α) : Turns f (f.put ev)
  | receive {ev : α} {queue : List α} (hpull : f.pull = .waiting) (hqueue : f.queue = ev :: queue) :
    Turns f { f with pull := .done (.got ev), queue }
  | stop {r : Result α} (hpull : f.pull = .waiting) (hr : ∀ ev, r ≠ .got ev) :
    Turns f { f with pull := .done r }

theorem Turns.muted (h : f.Turns f') : f'.muted = f.muted := by
  cases h with
  | register => rfl
  | put ev =>
    rw [Feed.put]
    split_ifs <;> rfl
  | receive => rfl
  | stop => rfl

/-- A pull that is done stays done. -/
theorem Turns.isDone (h : f.Turns f') (hdone : f.pull.isDone = true) : f'.pull.isDone = true := by
  cases h with
  | register => exact hdone
  | put ev =>
    rw [Feed.put]
    split_ifs
    · exact hdone
    · exact hdone
  | receive => rfl
  | stop => rfl

/-- Every event that was published is somewhere, and only a full queue has lost some. -/
structure Accounted (f : Feed α) : Prop where
  order : f.taken ++ f.waiting <+ f.heard
  lost : f.heard.Perm (f.dropped ++ (f.taken ++ f.waiting))
  bounded : f.queue.length ≤ defaultMaxsize
  full : f.dropped ≠ [] → defaultMaxsize < f.heard.length

theorem accounted_new : ({} : Feed α).Accounted :=
  ⟨List.Sublist.refl _, List.Perm.refl _, Nat.zero_le _, fun h ↦ absurd rfl h⟩

/-- Only what is waiting counts, not where it waits. -/
theorem Accounted.congr (h : f.Accounted) (hwaiting : f'.waiting = f.waiting)
    (hqueue : f'.queue.length ≤ f.queue.length) (hheard : f'.heard = f.heard)
    (hdropped : f'.dropped = f.dropped) (htaken : f'.taken = f.taken) : f'.Accounted where
  order := by rw [htaken, hwaiting, hheard]; exact h.order
  lost := by rw [htaken, hwaiting, hheard, hdropped]; exact h.lost
  bounded := le_trans hqueue h.bounded
  full := by rw [hdropped, hheard]; exact h.full

theorem Accounted.put (h : f.Accounted) (ev : α) : (f.put ev).Accounted := by
  rw [Feed.put]
  split_ifs with hfull
  · obtain ⟨oldest, rest, hqueue⟩ : ∃ oldest rest, f.queue = oldest :: rest := by
      refine List.exists_cons_of_length_pos (lt_of_lt_of_le ?_ hfull)
      exact Nat.zero_lt_succ _
    have hwaiting : f.waiting = f.pull.event?.toList ++ oldest :: rest := by rw [waiting, hqueue]
    -- the queue is full, so that what was heard is more than that
    have hlong : defaultMaxsize < (f.heard ++ [ev]).length := by
      have := h.order.length_le
      rw [List.length_append, waiting, List.length_append] at this
      rw [List.length_append, List.length_singleton]
      omega
    refine ⟨?_, ?_, ?_, fun _ ↦ hlong⟩
    · change f.taken ++ (f.pull.event?.toList ++ (f.queue.tail ++ [ev])) <+ f.heard ++ [ev]
      rw [hqueue, List.tail_cons, ← List.append_assoc, ← List.append_assoc]
      refine List.Sublist.append (List.Sublist.trans ?_ h.order) (List.Sublist.refl _)
      rw [hwaiting, ← List.append_assoc]
      exact (List.Sublist.refl _).append (List.sublist_cons_self ..)
    · change (f.heard ++ [ev]).Perm (f.dropped ++ f.queue.head?.toList ++
        (f.taken ++ (f.pull.event?.toList ++ (f.queue.tail ++ [ev]))))
      rw [hqueue, List.head?_cons, List.tail_cons, Option.toList_some]
      have hmoved : (f.taken ++ (f.pull.event?.toList ++ oldest :: rest)).Perm
          (oldest :: (f.taken ++ (f.pull.event?.toList ++ rest))) := by
        rw [← List.append_assoc, ← List.append_assoc]
        exact List.perm_middle
      calc f.heard ++ [ev]
        _ ~ f.dropped ++ (f.taken ++ (f.pull.event?.toList ++ oldest :: rest)) ++ [ev] := by
          rw [← hwaiting]
          exact h.lost.append_right _
        _ ~ f.dropped ++ (oldest :: (f.taken ++ (f.pull.event?.toList ++ rest))) ++ [ev] :=
          (hmoved.append_left _).append_right _
        _ = _ := by simp only [List.append_assoc, List.cons_append, List.nil_append]
    · rw [hqueue, List.tail_cons, List.length_append, List.length_singleton]
      have := h.bounded
      rw [hqueue, List.length_cons] at this
      exact this
  · refine ⟨?_, ?_, ?_, fun hne ↦ lt_trans (h.full hne) ?_⟩
    · change f.taken ++ (f.pull.event?.toList ++ (f.queue ++ [ev])) <+ f.heard ++ [ev]
      rw [← List.append_assoc (Option.toList _), ← List.append_assoc f.taken]
      exact h.order.append (List.Sublist.refl _)
    · change (f.heard ++ [ev]).Perm
        (f.dropped ++ (f.taken ++ (f.pull.event?.toList ++ (f.queue ++ [ev]))))
      rw [← List.append_assoc (Option.toList _), ← List.append_assoc f.taken,
        ← List.append_assoc f.dropped]
      exact h.lost.append_right _
    · rw [List.length_append, List.length_singleton]
      omega
    · rw [List.length_append, List.length_singleton]
      omega

theorem Accounted.turns (h : f.Accounted) (ht : f.Turns f') : f'.Accounted := by
  cases ht with
  | register => exact h.congr rfl le_rfl rfl rfl rfl
  | put ev => exact h.put ev
  | receive hpull hqueue =>
    refine h.congr ?_ ?_ rfl rfl rfl
    · rw [waiting, waiting, hpull, hqueue]
      rfl
    · rw [hqueue, List.length_cons]
      exact Nat.le_succ _
  | @stop r hpull hr =>
    refine h.congr ?_ le_rfl rfl rfl rfl
    rw [waiting, waiting, hpull]
    cases r with
    | got ev => exact absurd rfl (hr ev)
    | ended => rfl
    | failed => rfl

/-- What is looked at was the first that waits. -/
theorem Accounted.take (h : f.Accounted) (hpull : f.pull = .done (.got ev)) :
    (f.take ev).Accounted := by
  have hsame : (f.taken ++ [ev]) ++ ([] ++ f.queue) = f.taken ++ f.waiting := by
    rw [waiting, hpull]
    simp only [Pull.event?, Option.toList_some, List.nil_append, List.append_assoc]
  refine ⟨?_, ?_, h.bounded, h.full⟩
  · change (f.taken ++ [ev]) ++ ([] ++ f.queue) <+ f.heard
    rw [hsame]
    exact h.order
  · change f.heard.Perm (f.dropped ++ ((f.taken ++ [ev]) ++ ([] ++ f.queue)))
    rw [hsame]
    exact h.lost

end Feed

/-! ## One step -/

namespace World

variable {w w' : World}

/-- The loop has popped the first task of its batch. -/
def popped (batch : List Task) (w : World) : World := { w with batch }

/-- What one step does to a stream. -/
inductive Effect (w : World) : World → Prop where
  | same : Effect w w
  | turn {k : Kind} {f : Feed (Carried k)} (hturn : (w.feed k).Turns f) : Effect w (w.setFeed k f)
  | translated (n : ℕ) (outcome : Outcome) :
    Effect w { w with
      translations := w.translations.map fun t ↦
        if t.number = n then { t with outcome := some outcome } else t }
  | wake {order : List Task} (hafter : w.after = none) (hopen : w.closed = false)
      (hperm : order.Perm w.tasksDone) : Effect w { w with batch := order }
  | ended {k : Kind} {batch : List Task} (hbatch : w.batch = .pull k :: batch)
      (hafter : w.after = none) (hpull : (w.feed k).pull = .done .ended) :
    Effect w ((w.popped batch).setFeed k { w.feed k with pull := .none })
  | foreign {k : Kind} {ev : Carried k} {batch : List Task} (hbatch : w.batch = .pull k :: batch)
      (hafter : w.after = none) (hpull : (w.feed k).pull = .done (.got ev))
      (hdialog : Sse.dialogId ev ≠ w.dialogId) :
    Effect w ((w.popped batch).setFeed k ((w.feed k).take ev))
  | shown {k : Kind} {ev : Carried k} {batch : List Task} {after : Option Message}
      (hbatch : w.batch = .pull k :: batch) (hafter : w.after = none)
      (hpull : (w.feed k).pull = .done (.got ev)) (hdialog : Sse.dialogId ev = w.dialogId)
      (hmessage : ∀ m, after = some m →
        w.translates = true ∧ (frame w.isGroup ev).bubble? = some m.id) :
    Effect w { (w.popped batch).setFeed k (((w.feed k).take ev).display ev) with
      frames := w.frames ++ [frame w.isGroup ev], after }
  | mutedMessage {ev : MessageEvent} {batch : List Task}
      (hbatch : w.batch = .pull .outgoing :: batch) (hafter : w.after = none)
      (hpull : (w.feed .outgoing).pull = .done (.got ev))
      (hdialog : ev.dialogId = w.dialogId) (hsent : w.sentIds.contains ev.key = true) :
    Effect w ((w.popped batch).setFeed .outgoing (((w.feed .outgoing).take ev).mute ev))
  | mutedReaction {ev : ReactionEvent} {batch : List Task}
      (hbatch : w.batch = .pull .reaction :: batch) (hafter : w.after = none)
      (hpull : (w.feed .reaction).pull = .done (.got ev)) (hdialog : ev.dialogId = w.dialogId)
      (hsent : w.sentReactions.contains ev.key = true) :
    Effect w { (w.popped batch).setFeed .reaction (((w.feed .reaction).take ev).mute ev) with
      sentReactions := w.sentReactions.erase ev.key }
  | translation {t : Translation} {batch : List Task} (text : Option String)
      (hbatch : w.batch = .translation t.number :: batch) (hafter : w.after = none)
      (hmem : t ∈ w.translations) :
    Effect w { w.popped batch with
      translations := w.translations.filter fun t' ↦ t'.number ≠ t.number
      frames := w.frames ++ (text.map (.translation t.id)).toList }
  | cancel : Effect w w.cancelAll
  | schedule {m : Message} (hafter : w.after = some m) : Effect w (w.scheduleTranslation m)
  | remember (k : Key) :
    Effect w { w with sentIds := boundedRemember k w.sentIds, own := w.own ++ [k] }
  | rememberReaction (k : ReactionKey) :
    Effect w { w with
      sentReactions := boundedRemember k w.sentReactions, ownReactions := w.ownReactions ++ [k] }
  | takeReaction (k : ReactionKey) : Effect w { w with sentReactions := w.sentReactions.erase k }

theorem setFeed_setFeed (k : Kind) (f f' : Feed (Carried k)) (w : World) :
    (w.setFeed k f).setFeed k f' = w.setFeed k f' := by
  rw [setFeed, setFeed, setFeed]
  congr 1
  exact Function.update_idem ..

@[simp] theorem feed_setFeed_self (k : Kind) (f : Feed (Carried k)) (w : World) :
    (w.setFeed k f).feed k = f := Function.update_self ..

theorem feed_setFeed_ne {k k' : Kind} (h : k' ≠ k) (f : Feed (Carried k)) (w : World) :
    (w.setFeed k f).feed k' = w.feed k' := Function.update_of_ne h ..

/-- The body of the loop, for an event. -/
theorem effect_handleEvent {k : Kind} {ev : Carried k} {batch : List Task}
    (hbatch : w.batch = .pull k :: batch) (hafter : w.after = none)
    (hpull : (w.feed k).pull = .done (.got ev)) :
    Effect w ((w.popped batch).handleEvent k ev) := by
  rw [handleEvent]
  split_ifs with hdialog
  · exact .foreign hbatch hafter hpull hdialog
  rw [not_ne_iff] at hdialog
  have hmessage (m : Message) (hm : (frame w.isGroup ev).bubble? = some m.id) :
      ∀ m', (if w.translates then some m else none) = some m' →
        w.translates = true ∧ (frame w.isGroup ev).bubble? = some m'.id := by
    intro m' h
    obtain ⟨htranslates, h⟩ := Option.ite_none_right_eq_some.mp h
    obtain rfl := Option.some.inj h
    exact ⟨htranslates, hm⟩
  cases k with
  | incoming =>
    rw [look, showMessage, showEvent, feed_setFeed_self, setFeed_setFeed]
    exact .shown hbatch hafter hpull hdialog (hmessage (MessageEvent.message ev) rfl)
  | outgoing =>
    rw [look]
    split_ifs with hsent
    · rw [muteEvent, feed_setFeed_self, setFeed_setFeed]
      exact .mutedMessage hbatch hafter hpull hdialog hsent
    · rw [showMessage, showEvent, feed_setFeed_self, setFeed_setFeed]
      exact .shown hbatch hafter hpull hdialog (hmessage (MessageEvent.message ev) rfl)
  | reaction =>
    rw [look]
    split_ifs with hsent
    · rw [muteEvent, feed_setFeed_self, setFeed_setFeed]
      exact .mutedReaction hbatch hafter hpull hdialog hsent
    · rw [showEvent, feed_setFeed_self, setFeed_setFeed]
      have hnone : ∀ m' : Message, none = some m' →
          w.translates = true ∧ (frame w.isGroup ev).bubble? = some m'.id := by
        rintro _ ⟨⟩
      have hshown := Effect.shown hbatch hafter hpull hdialog hnone
      rwa [← hafter] at hshown

/-- The body of the loop, for a pull. -/
theorem effect_handlePull {k : Kind} {batch : List Task} (hbatch : w.batch = .pull k :: batch)
    (hafter : w.after = none) (h : handlePull k (w.popped batch) = some w') : Effect w w' := by
  rw [handlePull] at h
  split at h
  next ev hpull =>
    obtain rfl := Option.some.inj h
    exact effect_handleEvent hbatch hafter hpull
  next hpull =>
    obtain rfl := Option.some.inj h
    exact .ended hbatch hafter hpull
  next =>
    obtain rfl := Option.some.inj h
    exact .cancel
  next => cases h

/-- The body of the loop, for a translation. -/
theorem effect_handleTranslation {n : ℕ} {batch : List Task}
    (hbatch : w.batch = .translation n :: batch) (hafter : w.after = none)
    (h : handleTranslation n (w.popped batch) = some w') : Effect w w' := by
  rw [handleTranslation] at h
  split at h
  next t hfind =>
    have hfound := List.find?_some hfind
    obtain ⟨hn, -⟩ := (Bool.and_eq_true ..).mp hfound
    obtain rfl := of_decide_eq_true hn
    have hmem := List.mem_of_find?_eq_some hfind
    have heffect := fun text ↦ Effect.translation text hbatch hafter hmem
    cases htext : t.outcome.bind Outcome.text? with
    | none =>
      rw [htext] at h
      obtain rfl := Option.some.inj h
      have := heffect none
      rwa [Option.map_none, Option.toList_none, List.append_nil] at this
    | some text =>
      rw [htext] at h
      obtain rfl := Option.some.inj h
      exact heffect (some text)
  next => cases h

/-- What an event does is one of the effects. -/
theorem effect_of_step {e : Event} (h : step w e = some w') : Effect w w' := by
  cases e with
  | register k =>
    dsimp only [step] at h
    split at h
    next =>
      obtain rfl := Option.some.inj h
      exact .turn .register
    next => cases h
  | publish k ev =>
    obtain ⟨-, h⟩ | ⟨-, h⟩ := ite_eq_iff.mp h
    · obtain rfl := Option.some.inj h
      exact .turn (.put ev)
    · obtain rfl := Option.some.inj h
      exact .same
  | receive k =>
    dsimp only [step] at h
    split at h
    next ev queue hpull hqueue =>
      obtain rfl := Option.some.inj h
      exact .turn (.receive hpull hqueue)
    next => cases h
  | stop k failed =>
    dsimp only [step] at h
    split at h
    next hpull =>
      obtain rfl := Option.some.inj h
      refine .turn (.stop hpull fun ev ↦ ?_)
      split_ifs <;> rintro ⟨⟩
    next => cases h
  | translated n outcome =>
    obtain ⟨-, h⟩ := Option.ite_none_right_eq_some.mp h
    obtain rfl := Option.some.inj h
    exact .translated n outcome
  | wake order =>
    obtain ⟨⟨hopen, -, hafter, -, hperm⟩, h⟩ := Option.ite_none_right_eq_some.mp h
    obtain rfl := Option.some.inj h
    exact .wake (Option.isNone_iff_eq_none.mp hafter) ((Bool.not_eq_true' _).mp hopen) hperm
  | handle =>
    dsimp only [step] at h
    split at h
    next k batch hafter hbatch => exact effect_handlePull hbatch hafter h
    next n batch hafter hbatch => exact effect_handleTranslation hbatch hafter h
    next => cases h
  | schedule =>
    obtain ⟨m, hafter, h⟩ := Option.map_eq_some_iff.mp h
    obtain rfl := h
    exact .schedule hafter
  | close =>
    obtain ⟨-, h⟩ := Option.ite_none_left_eq_some.mp h
    obtain rfl := Option.some.inj h
    exact .cancel
  | finish =>
    obtain ⟨-, h⟩ := Option.ite_none_right_eq_some.mp h
    obtain rfl := Option.some.inj h
    exact .cancel
  | remember k =>
    obtain rfl := Option.some.inj h
    exact .remember k
  | rememberReaction k =>
    obtain rfl := Option.some.inj h
    exact .rememberReaction k
  | takeReaction k =>
    obtain rfl := Option.some.inj h
    exact .takeReaction k

/-! ## Where the events are -/

/-- Every subscription accounts for what it has heard. -/
def Accounts (w : World) : Prop := ∀ k, (w.feed k).Accounted

theorem Accounts.setFeed (h : w.Accounts) {k : Kind} {f : Feed (Carried k)} (hf : f.Accounted) :
    (w.setFeed k f).Accounts :=
  (Function.forall_update_iff w.feed fun _ f ↦ f.Accounted).mpr ⟨hf, fun k _ ↦ h k⟩

theorem Accounts.effect (h : w.Accounts) (heffect : w.Effect w') : w'.Accounts := by
  cases heffect with
  | same => exact h
  | turn hturn => exact h.setFeed ((h _).turns hturn)
  | translated n outcome => exact h
  | wake hafter hopen hperm => exact h
  | @ended k _ hbatch hafter hpull =>
    refine Accounts.setFeed (w := w.popped _) h ((h k).congr ?_ le_rfl rfl rfl rfl)
    rw [Feed.waiting, Feed.waiting, hpull]
    rfl
  | foreign hbatch hafter hpull hdialog =>
    exact Accounts.setFeed (w := w.popped _) h ((h _).take hpull)
  | shown hbatch hafter hpull hdialog hmessage =>
    exact Accounts.setFeed (w := w.popped _) h
      (((h _).take hpull).congr rfl le_rfl rfl rfl rfl)
  | mutedMessage hbatch hafter hpull hdialog hsent =>
    have htaken := (h .outgoing).take hpull
    refine Accounts.setFeed (w := w.popped _) (k := .outgoing) h ?_
    exact htaken.congr rfl le_rfl rfl rfl rfl
  | mutedReaction hbatch hafter hpull hdialog hsent =>
    have htaken := (h .reaction).take hpull
    refine Accounts.setFeed (w := w.popped _) (k := .reaction) h ?_
    exact htaken.congr rfl le_rfl rfl rfl rfl
  | translation text hbatch hafter hmem => exact h
  | cancel =>
    intro k
    refine (h k).congr ?_ le_rfl rfl rfl rfl
    exact congrArg (fun ev ↦ Option.toList ev ++ (w.feed k).queue) (Pull.event?_cancel _)
  | schedule hafter =>
    rw [scheduleTranslation]
    split_ifs
    · exact h
    · exact h
  | remember k => exact fun k ↦ h k
  | rememberReaction k => exact fun k ↦ h k
  | takeReaction k => exact fun k ↦ h k

/-! ## What goes into the frames -/

/-- What the loop has looked at of the dialog. -/
def ofDialog (dialog : ℤ) {k : Kind} (f : Feed (Carried k)) : List (Carried k) :=
  f.taken.filter fun ev ↦ Sse.dialogId ev = dialog

/-- The frames of a subscription are its events of the dialog, but for the echoes. -/
structure Parted (w : World) (k : Kind) (f : Feed (Carried k)) : Prop where
  shown : f.shown <+ ofDialog w.dialogId f
  parted : (ofDialog w.dialogId f).Perm (f.shown ++ f.muted)
  frames : (w.frames.filter fun frame ↦ frame.kind? = some k) = f.shown.map (frame w.isGroup)

@[simp] theorem kind?_frame (isGroup : Bool) {k : Kind} (ev : Carried k) :
    (frame isGroup ev).kind? = some k := by
  cases k <;> rfl

theorem ofDialog_take_of_eq {k : Kind} {f : Feed (Carried k)} {ev : Carried k} {dialog : ℤ}
    (h : Sse.dialogId ev = dialog) : ofDialog dialog (f.take ev) = ofDialog dialog f ++ [ev] := by
  rw [ofDialog, Feed.take, List.filter_append, List.filter_cons_of_pos, List.filter_nil]
  · rfl
  · exact decide_eq_true h

theorem ofDialog_take_of_ne {k : Kind} {f : Feed (Carried k)} {ev : Carried k} {dialog : ℤ}
    (h : Sse.dialogId ev ≠ dialog) : ofDialog dialog (f.take ev) = ofDialog dialog f := by
  rw [ofDialog, Feed.take, List.filter_append, List.filter_cons_of_neg, List.filter_nil,
    List.append_nil]
  · rfl
  · rwa [decide_eq_true_eq]

/-- An event of another dialog. -/
theorem Parted.take_foreign {k : Kind} {f : Feed (Carried k)} {ev : Carried k} (h : w.Parted k f)
    (hdialog : Sse.dialogId ev ≠ w.dialogId) : w.Parted k (f.take ev) where
  shown := by rw [ofDialog_take_of_ne hdialog]; exact h.shown
  parted := by rw [ofDialog_take_of_ne hdialog]; exact h.parted
  frames := h.frames

/-- An event that goes into a frame. -/
theorem Parted.take_display {k : Kind} {f : Feed (Carried k)} {ev : Carried k} (h : w.Parted k f)
    (hdialog : Sse.dialogId ev = w.dialogId) :
    (w.yield (frame w.isGroup ev)).Parted k ((f.take ev).display ev) where
  shown := by
    change f.shown ++ [ev] <+ ofDialog w.dialogId (f.take ev)
    rw [ofDialog_take_of_eq hdialog]
    exact h.shown.append (List.Sublist.refl _)
  parted := by
    change (ofDialog w.dialogId (f.take ev)).Perm (f.shown ++ [ev] ++ f.muted)
    rw [ofDialog_take_of_eq hdialog]
    calc ofDialog w.dialogId f ++ [ev]
      _ ~ f.shown ++ f.muted ++ [ev] := h.parted.append_right _
      _ ~ f.shown ++ [ev] ++ f.muted := by
        rw [List.append_assoc, List.append_assoc]
        exact List.perm_append_comm.append_left _
  frames := by
    change (w.frames ++ [frame w.isGroup ev]).filter _ = (f.shown ++ [ev]).map (frame w.isGroup)
    rw [List.filter_append, List.map_append, h.frames, List.filter_cons_of_pos, List.filter_nil]
    · rfl
    · exact decide_eq_true (kind?_frame _ _)

/-- An event that is left out. -/
theorem Parted.take_mute {k : Kind} {f : Feed (Carried k)} {ev : Carried k} (h : w.Parted k f)
    (hdialog : Sse.dialogId ev = w.dialogId) : w.Parted k ((f.take ev).mute ev) where
  shown := by
    change f.shown <+ ofDialog w.dialogId (f.take ev)
    rw [ofDialog_take_of_eq hdialog]
    exact h.shown.trans (List.sublist_append_left ..)
  parted := by
    change (ofDialog w.dialogId (f.take ev)).Perm (f.shown ++ (f.muted ++ [ev]))
    rw [ofDialog_take_of_eq hdialog, ← List.append_assoc]
    exact h.parted.append_right _
  frames := h.frames

/-- A frame of another subscription, or of a translation. -/
theorem Parted.yield {k : Kind} {f : Feed (Carried k)} (h : w.Parted k f) {frame : Frame}
    (hkind : frame.kind? ≠ some k) : (w.yield frame).Parted k f where
  shown := h.shown
  parted := h.parted
  frames := by
    change (w.frames ++ [frame]).filter _ = _
    rw [List.filter_append, h.frames, List.filter_cons_of_neg, List.filter_nil, List.append_nil]
    · rfl
    · rwa [decide_eq_true_eq]

theorem Parted.congr {k : Kind} {f f' : Feed (Carried k)} (h : w.Parted k f)
    (htaken : f'.taken = f.taken) (hshown : f'.shown = f.shown) (hmuted : f'.muted = f.muted)
    (hdialog : w'.dialogId = w.dialogId) (hgroup : w'.isGroup = w.isGroup)
    (hframes : w'.frames = w.frames) : w'.Parted k f' where
  shown := by rw [ofDialog, htaken, hshown, hdialog]; exact h.shown
  parted := by rw [ofDialog, htaken, hshown, hmuted, hdialog]; exact h.parted
  frames := by rw [hframes, hshown, hgroup]; exact h.frames

/-- The frames of every subscription are its events of the dialog, but for the echoes. -/
def Parts (w : World) : Prop := ∀ k, w.Parted k (w.feed k)

theorem Parted.turns {k : Kind} {f f' : Feed (Carried k)} (h : w.Parted k f) (ht : f.Turns f') :
    w.Parted k f' := by
  cases ht with
  | register => exact h.congr rfl rfl rfl rfl rfl rfl
  | put ev =>
    rw [Feed.put]
    split_ifs
    · exact h.congr rfl rfl rfl rfl rfl rfl
    · exact h.congr rfl rfl rfl rfl rfl rfl
  | receive => exact h.congr rfl rfl rfl rfl rfl rfl
  | stop => exact h.congr rfl rfl rfl rfl rfl rfl

/-- One subscription changes, and with it perhaps the frames; the others are kept. -/
theorem Parts.setFeed (h : w.Parts) {k : Kind} {f : Feed (Carried k)}
    (hw' : w'.feed = (w.setFeed k f).feed) (hf : w'.Parted k f)
    (hkeep : ∀ k' ≠ k, w.Parted k' (w.feed k') → w'.Parted k' (w.feed k')) :
    w'.Parts := by
  intro k'
  rw [hw']
  by_cases hk : k' = k
  · subst hk
    rwa [feed_setFeed_self]
  · rw [feed_setFeed_ne hk]
    exact hkeep k' hk (h k')

theorem Parts.congr (h : w.Parts) (hfeed : w'.feed = w.feed) (hdialog : w'.dialogId = w.dialogId)
    (hgroup : w'.isGroup = w.isGroup) (hframes : w'.frames = w.frames) : w'.Parts := by
  intro k
  rw [hfeed]
  exact (h k).congr rfl rfl rfl hdialog hgroup hframes

theorem Parts.effect (h : w.Parts) (heffect : w.Effect w') : w'.Parts := by
  have hkeep {k : Kind} {w' : World} (hdialog : w'.dialogId = w.dialogId)
      (hgroup : w'.isGroup = w.isGroup) (hframes : w'.frames = w.frames) (k' : Kind) (_ : k' ≠ k)
      (hpart : w.Parted k' (w.feed k')) : w'.Parted k' (w.feed k') :=
    hpart.congr rfl rfl rfl hdialog hgroup hframes
  cases heffect with
  | same => exact h
  | turn hturn =>
    exact h.setFeed rfl (((h _).turns hturn).congr rfl rfl rfl rfl rfl rfl) (hkeep rfl rfl rfl)
  | translated n outcome => exact h.congr rfl rfl rfl rfl
  | wake => exact h.congr rfl rfl rfl rfl
  | ended => exact h.setFeed rfl ((h _).congr rfl rfl rfl rfl rfl rfl) (hkeep rfl rfl rfl)
  | foreign hbatch hafter hpull hdialog =>
    exact h.setFeed rfl (((h _).take_foreign hdialog).congr rfl rfl rfl rfl rfl rfl)
      (hkeep rfl rfl rfl)
  | @shown k ev batch after hbatch hafter hpull hdialog hmessage =>
    refine h.setFeed rfl (((h k).take_display hdialog).congr rfl rfl rfl rfl rfl rfl) ?_
    intro k' hk hpart
    have hkind : (frame w.isGroup ev).kind? ≠ some k' := by
      rw [kind?_frame]
      exact fun heq ↦ hk (Option.some.inj heq).symm
    exact (hpart.yield hkind).congr rfl rfl rfl rfl rfl rfl
  | mutedMessage hbatch hafter hpull hdialog hsent =>
    have hpart := (h .outgoing).take_mute hdialog
    exact h.setFeed (k := .outgoing) rfl (hpart.congr rfl rfl rfl rfl rfl rfl) (hkeep rfl rfl rfl)
  | mutedReaction hbatch hafter hpull hdialog hsent =>
    have hpart := (h .reaction).take_mute hdialog
    exact h.setFeed (k := .reaction) rfl (hpart.congr rfl rfl rfl rfl rfl rfl) (hkeep rfl rfl rfl)
  | @translation t batch text hbatch hafter hmem =>
    intro k
    cases text with
    | none => exact (h k).congr rfl rfl rfl rfl rfl (List.append_nil _)
    | some text =>
      have hkind : (Frame.translation t.id text).kind? ≠ some k := by rintro ⟨⟩
      exact ((h k).yield hkind).congr rfl rfl rfl rfl rfl rfl
  | cancel =>
    intro k
    exact (h k).congr rfl rfl rfl rfl rfl rfl
  | schedule hafter =>
    rw [scheduleTranslation]
    split_ifs
    · exact h.congr rfl rfl rfl rfl
    · exact h.congr rfl rfl rfl rfl
  | remember k => exact h.congr rfl rfl rfl rfl
  | rememberReaction k => exact h.congr rfl rfl rfl rfl
  | takeReaction k => exact h.congr rfl rfl rfl rfl

/-! ## Which echoes are left out -/

/-- An echo is left out for a key of the client; a reaction uses the key up. -/
structure Echoed (w : World) : Prop where
  incoming : (w.feed .incoming).muted = []
  outgoing : ∀ ev ∈ (w.feed .outgoing).muted, MessageEvent.key ev ∈ w.own
  sent : ∀ k, w.sentIds.contains k = true → k ∈ w.own
  reactions : ∀ k, ((w.feed .reaction).muted.map ReactionEvent.key).count k ≤
    w.ownReactions.count k
  left : ∀ k, w.sentReactions.contains k = true →
    ((w.feed .reaction).muted.map ReactionEvent.key).count k < w.ownReactions.count k

theorem contains_of_boundedRemember {K : Type} [DecidableEq K] {k k' : K}
    {sentIds : OrderedDict K Bool} (h : (boundedRemember k sentIds).contains k' = true) :
    k' = k ∨ sentIds.contains k' = true := by
  obtain ⟨v, hv⟩ := Option.isSome_iff_exists.mp h
  have hmoved := OrderedDict.get?_of_iterate_popFirst hv
  rw [OrderedDict.get?_moveToEnd] at hmoved
  exact OrderedDict.contains_set_iff.mp (Option.isSome_of_eq_some hmoved)

/-- The echoes that were left out, subscription by subscription. -/
theorem Echoed.congr (h : w.Echoed) (hmuted : ∀ k, (w'.feed k).muted = (w.feed k).muted)
    (hsent : w'.sentIds = w.sentIds) (hown : w'.own = w.own)
    (hreactions : w'.sentReactions = w.sentReactions)
    (hownReactions : w'.ownReactions = w.ownReactions) : w'.Echoed where
  incoming := by rw [hmuted]; exact h.incoming
  outgoing := by rw [hmuted, hown]; exact h.outgoing
  sent := by rw [hsent, hown]; exact h.sent
  reactions := by rw [hmuted, hownReactions]; exact h.reactions
  left := by rw [hmuted, hreactions, hownReactions]; exact h.left

theorem muted_setFeed {k : Kind} {f : Feed (Carried k)} (h : f.muted = (w.feed k).muted)
    (k' : Kind) : ((w.setFeed k f).feed k').muted = (w.feed k').muted := by
  by_cases hk : k' = k
  · subst hk
    rwa [feed_setFeed_self]
  · rw [feed_setFeed_ne hk]

/-- A key that is there has left out fewer echoes than it was remembered. -/
theorem Echoed.mute (h : w.Echoed) {k : ReactionKey} (hsent : w.sentReactions.contains k = true)
    (k' : ReactionKey) :
    ((w.feed .reaction).muted.map ReactionEvent.key ++ [k]).count k' ≤ w.ownReactions.count k' := by
  rw [List.count_append]
  by_cases hk : k' = k
  · subst hk
    rw [List.count_singleton_self]
    exact h.left k' hsent
  · rw [List.count_singleton, beq_eq_false_iff_ne.mpr (Ne.symm hk)]
    exact h.reactions k'

theorem Echoed.effect (h : w.Echoed) (heffect : w.Effect w') : w'.Echoed := by
  cases heffect with
  | same => exact h
  | turn hturn => exact h.congr (muted_setFeed hturn.muted) rfl rfl rfl rfl
  | translated n outcome => exact h.congr (fun _ ↦ rfl) rfl rfl rfl rfl
  | wake => exact h.congr (fun _ ↦ rfl) rfl rfl rfl rfl
  | @ended k batch => exact h.congr (muted_setFeed (w := w.popped batch) rfl) rfl rfl rfl rfl
  | @foreign k ev batch => exact h.congr (muted_setFeed (w := w.popped batch) rfl) rfl rfl rfl rfl
  | @shown k ev batch => exact h.congr (muted_setFeed (w := w.popped batch) rfl) rfl rfl rfl rfl
  | mutedMessage hbatch hafter hpull hdialog hsent =>
    refine ⟨h.incoming, ?_, h.sent, h.reactions, h.left⟩
    intro ev hev
    obtain hev | hev := List.mem_append.mp hev
    · exact h.outgoing ev hev
    · obtain rfl := List.mem_singleton.mp hev
      exact h.sent _ hsent
  | @mutedReaction ev batch hbatch hafter hpull hdialog hsent =>
    have hmuted : ((w.feed .reaction).muted ++ [ev]).map ReactionEvent.key =
        (w.feed .reaction).muted.map ReactionEvent.key ++ [ev.key] := List.map_append
    refine ⟨h.incoming, h.outgoing, h.sent, ?_, ?_⟩
    · intro k
      exact hmuted ▸ h.mute hsent k
    · intro k hk
      obtain ⟨hne, hk⟩ := OrderedDict.contains_erase_iff.mp hk
      change (((w.feed .reaction).muted ++ [ev]).map ReactionEvent.key).count k < _
      rw [hmuted, List.count_append, List.count_singleton, beq_eq_false_iff_ne.mpr (Ne.symm hne)]
      exact h.left k hk
  | translation => exact h.congr (fun _ ↦ rfl) rfl rfl rfl rfl
  | cancel => exact h.congr (fun _ ↦ rfl) rfl rfl rfl rfl
  | schedule hafter =>
    rw [scheduleTranslation]
    split_ifs
    · exact h.congr (fun _ ↦ rfl) rfl rfl rfl rfl
    · exact h.congr (fun _ ↦ rfl) rfl rfl rfl rfl
  | remember k =>
    refine ⟨h.incoming, ?_, ?_, h.reactions, h.left⟩
    · intro ev hev
      exact List.mem_append_left _ (h.outgoing ev hev)
    · intro k' hk'
      dsimp only at hk'
      obtain rfl | hk' := contains_of_boundedRemember hk'
      · exact List.mem_append_right _ (List.mem_singleton_self _)
      · exact List.mem_append_left _ (h.sent k' hk')
  | rememberReaction k =>
    have hmore (k' : ReactionKey) : w.ownReactions.count k' ≤ (w.ownReactions ++ [k]).count k' :=
      (List.sublist_append_left ..).count_le k'
    refine ⟨h.incoming, h.outgoing, h.sent, fun k' ↦ le_trans (h.reactions k') (hmore k'), ?_⟩
    intro k' hk'
    dsimp only at hk'
    obtain rfl | hold := contains_of_boundedRemember hk'
    · change _ < (w.ownReactions ++ [k']).count k'
      rw [List.count_append, List.count_singleton_self]
      exact Nat.lt_succ_of_le (h.reactions k')
    · exact lt_of_lt_of_le (h.left k' hold) (hmore k')
  | takeReaction k =>
    refine ⟨h.incoming, h.outgoing, h.sent, h.reactions, ?_⟩
    intro k' hk'
    exact h.left k' (OrderedDict.contains_erase_iff.mp hk').2

/-! ## The translations -/

/-- The messages whose translations have a frame, are under way or are to be scheduled. -/
def translationIds (w : World) : List ℤ :=
  w.frames.filterMap Frame.translation? ++
    (w.translations.map Translation.id ++ w.after.toList.map Message.id)

/-- The translations are few, and each belongs to a bubble. -/
structure Translates (w : World) : Prop where
  few : w.translations.length ≤ maxInflightTranslations
  fresh : ∀ t ∈ w.translations, t.number < w.created
  distinct : (w.translations.map Translation.number).Nodup
  behind : w.translationIds <+~ w.frames.filterMap Frame.bubble?
  silent : w.translates = false → w.translationIds = []

/-- A translation that has ended is the only one with its number. -/
theorem perm_of_mem {t : Translation} {translations : List Translation}
    (hdistinct : (translations.map Translation.number).Nodup) (hmem : t ∈ translations) :
    translations.Perm (t :: translations.filter fun t' ↦ t'.number ≠ t.number) := by
  obtain ⟨before, after, rfl⟩ := List.append_of_mem hmem
  rw [List.map_append, List.map_cons] at hdistinct
  have hnot := (List.nodup_middle.mp hdistinct).notMem
  have hkeep : ∀ t' ∈ before ++ after, decide (t'.number ≠ t.number) = true := fun t' ht' ↦
    decide_eq_true fun heq ↦ hnot (by rw [← List.map_append, ← heq]; exact List.mem_map_of_mem ht')
  refine List.perm_middle.trans (.cons t ?_)
  rw [List.filter_append, List.filter_cons_of_neg, ← List.filter_append,
    List.filter_eq_self.mpr hkeep]
  rw [decide_eq_true_eq, not_not]

@[simp] theorem translation?_frame (isGroup : Bool) {k : Kind} (ev : Carried k) :
    (frame isGroup ev).translation? = none := by
  cases k <;> rfl

/-- The end of a translation changes neither its number nor its message. -/
theorem map_translated {β : Type} (g : Translation → β)
    (hg : ∀ t outcome, g { t with outcome } = g t) (n : ℕ) (outcome : Outcome)
    (translations : List Translation) :
    (translations.map fun t ↦ if t.number = n then { t with outcome := some outcome } else t).map
      g = translations.map g := by
  rw [List.map_map]
  congr 1
  funext t
  change g (if t.number = n then { t with outcome := some outcome } else t) = g t
  split_ifs
  · exact hg t _
  · rfl

/-- No more translations, and no fewer bubbles. -/
theorem Translates.congr (h : w.Translates) (htranslations : w'.translations = w.translations)
    (hcreated : w'.created = w.created) (hafter : w'.after = w.after)
    (hframes : w'.frames = w.frames) (htranslates : w'.translates = w.translates) :
    w'.Translates where
  few := by rw [htranslations]; exact h.few
  fresh := by rw [htranslations, hcreated]; exact h.fresh
  distinct := by rw [htranslations]; exact h.distinct
  behind := by
    rw [translationIds, htranslations, hafter, hframes]
    exact h.behind
  silent := by
    rw [translationIds, htranslations, hafter, hframes, htranslates]
    exact h.silent

/-- The frame of an event, and the message whose translation is to be scheduled behind it. -/
theorem Translates.shown (h : w.Translates) {k : Kind} {ev : Carried k} {after : Option Message}
    (hafter : w.after = none)
    (hmessage : ∀ m, after = some m →
      w.translates = true ∧ (frame w.isGroup ev).bubble? = some m.id)
    (htranslations : w'.translations = w.translations) (hcreated : w'.created = w.created)
    (hafter' : w'.after = after) (hframes : w'.frames = w.frames ++ [frame w.isGroup ev])
    (htranslates : w'.translates = w.translates) : w'.Translates := by
  have hids : w'.translationIds = w.translationIds ++ after.toList.map Message.id := by
    rw [translationIds, translationIds, hframes, htranslations, hafter', hafter,
      List.filterMap_append, List.filterMap_cons_none (translation?_frame ..), List.filterMap_nil,
      List.append_nil, Option.toList_none, List.map_nil, List.append_nil, List.append_assoc]
  refine ⟨?_, ?_, ?_, ?_, ?_⟩
  · rw [htranslations]
    exact h.few
  · rw [htranslations, hcreated]
    exact h.fresh
  · rw [htranslations]
    exact h.distinct
  · rw [hids, hframes, List.filterMap_append]
    refine h.behind.append ?_
    cases after with
    | none => exact List.nil_subperm
    | some m =>
      rw [List.filterMap_cons_some (hmessage m rfl).2]
      exact List.Subperm.refl _
  · rw [htranslates, hids]
    intro hsilent
    cases after with
    | none => rw [h.silent hsilent]; rfl
    | some m => exact absurd (hmessage m rfl).1 (hsilent ▸ Bool.false_ne_true)

/-- A translation that has ended may have a frame. -/
theorem Translates.ended (h : w.Translates) {t : Translation} (text : Option String)
    (hmem : t ∈ w.translations)
    (htranslations : w'.translations = w.translations.filter fun t' ↦ t'.number ≠ t.number)
    (hcreated : w'.created = w.created) (hafter : w'.after = w.after)
    (hframes : w'.frames = w.frames ++ (text.map (.translation t.id)).toList)
    (htranslates : w'.translates = w.translates) : w'.Translates := by
  have hsub : w'.translations <+ w.translations := htranslations ▸ List.filter_sublist
  have hframe : (text.map (Frame.translation t.id)).toList.filterMap Frame.translation? <+
      [t.id] := by
    cases text with
    | none => exact List.nil_sublist _
    | some text => exact List.Sublist.refl _
  have hbubble : (text.map (Frame.translation t.id)).toList.filterMap Frame.bubble? = [] := by
    cases text <;> rfl
  have hids : w'.translationIds <+~ w.translationIds := by
    rw [translationIds, translationIds, hframes, hafter, List.filterMap_append, List.append_assoc]
    refine List.Subperm.append (List.Subperm.refl _) ?_
    rw [← List.append_assoc]
    refine List.Subperm.append ?_ (List.Subperm.refl _)
    refine (hframe.append_right _).subperm.trans ?_
    rw [htranslations]
    exact ((perm_of_mem h.distinct hmem).map Translation.id).symm.subperm
  refine ⟨le_trans hsub.length_le h.few, ?_, h.distinct.sublist (hsub.map _), ?_, ?_⟩
  · intro t' ht'
    rw [hcreated]
    exact h.fresh t' (hsub.subset ht')
  · rw [hframes, List.filterMap_append, hbubble, List.append_nil]
    exact hids.trans h.behind
  · intro hsilent
    have := h.silent (htranslates ▸ hsilent)
    exact List.subperm_nil.mp (this ▸ hids)

/-- A translation is scheduled, or left out. -/
theorem Translates.schedule (h : w.Translates) {m : Message} (hafter : w.after = some m) :
    (w.scheduleTranslation m).Translates := by
  have hids : w.translationIds = w.frames.filterMap Frame.translation? ++
      (w.translations.map Translation.id ++ [m.id]) := by
    rw [translationIds, hafter]
    rfl
  rw [scheduleTranslation]
  split_ifs with hfew
  · have hids' : (w.translations ++ [Translation.mk w.created m none]).map Translation.id =
        w.translations.map Translation.id ++ [m.id] := List.map_append
    have hnumber : w.created ∉ w.translations.map Translation.number := by
      intro hmem
      obtain ⟨t, ht, heq⟩ := List.mem_map.mp hmem
      exact absurd heq (Nat.ne_of_lt (h.fresh t ht))
    refine ⟨?_, ?_, ?_, ?_, ?_⟩
    · rw [List.length_append]
      exact hfew
    · intro t ht
      obtain ht | ht := List.mem_append.mp ht
      · exact Nat.lt_succ_of_lt (h.fresh t ht)
      · obtain rfl := List.mem_singleton.mp ht
        exact Nat.lt_succ_self _
    · rw [List.map_append]
      exact h.distinct.append (List.nodup_singleton _) (List.disjoint_singleton.mpr hnumber)
    · rw [translationIds, hids', Option.toList_none, List.map_nil, List.append_nil, ← hids]
      exact h.behind
    · rw [translationIds, hids', Option.toList_none, List.map_nil, List.append_nil, ← hids]
      exact h.silent
  · have hless : w.frames.filterMap Frame.translation? ++
        (w.translations.map Translation.id ++ []) <+ w.translationIds := by
      rw [hids]
      exact (List.Sublist.refl _).append ((List.Sublist.refl _).append (List.nil_sublist _))
    refine ⟨h.few, h.fresh, h.distinct, hless.subperm.trans h.behind, fun hsilent ↦ ?_⟩
    exact List.sublist_nil.mp (h.silent hsilent ▸ hless)

theorem Translates.effect (h : w.Translates) (heffect : w.Effect w') : w'.Translates := by
  cases heffect with
  | same => exact h
  | turn => exact h.congr rfl rfl rfl rfl rfl
  | translated n outcome =>
    have hid := map_translated Translation.id (fun _ _ ↦ rfl) n outcome w.translations
    have hnumber := map_translated Translation.number (fun _ _ ↦ rfl) n outcome w.translations
    refine ⟨?_, ?_, ?_, ?_, ?_⟩
    · rw [List.length_map]
      exact h.few
    · intro t ht
      have hmem := List.mem_map_of_mem (f := Translation.number) ht
      rw [hnumber] at hmem
      obtain ⟨t', ht', heq⟩ := List.mem_map.mp hmem
      exact heq ▸ h.fresh t' ht'
    · rw [hnumber]
      exact h.distinct
    · rw [translationIds, hid]
      exact h.behind
    · rw [translationIds, hid]
      exact h.silent
  | wake => exact h.congr rfl rfl rfl rfl rfl
  | ended => exact h.congr rfl rfl rfl rfl rfl
  | foreign => exact h.congr rfl rfl rfl rfl rfl
  | shown hbatch hafter hpull hdialog hmessage => exact h.shown hafter hmessage rfl rfl rfl rfl rfl
  | mutedMessage => exact h.congr rfl rfl rfl rfl rfl
  | mutedReaction => exact h.congr rfl rfl rfl rfl rfl
  | translation text hbatch hafter hmem => exact h.ended text hmem rfl rfl rfl rfl rfl
  | cancel =>
    have hless : w.cancelAll.translationIds <+ w.translationIds :=
      (List.Sublist.refl _).append (List.nil_sublist _)
    refine ⟨Nat.zero_le _, ?_, List.nodup_nil, hless.subperm.trans h.behind, fun hsilent ↦ ?_⟩
    · intro t ht
      cases ht
    · exact List.sublist_nil.mp (h.silent hsilent ▸ hless)
  | schedule hafter => exact h.schedule hafter
  | remember k => exact h.congr rfl rfl rfl rfl rfl
  | rememberReaction k => exact h.congr rfl rfl rfl rfl rfl
  | takeReaction k => exact h.congr rfl rfl rfl rfl rfl

/-- Wherever the stream is cut, the translations have frames with their messages before them. -/
def Behind (w : World) : Prop :=
  ∀ frames, frames <+: w.frames →
    frames.filterMap Frame.translation? <+~ frames.filterMap Frame.bubble?

/-- At most one frame is yielded. -/
theorem Effect.frames_eq (heffect : w.Effect w') :
    w'.frames = w.frames ∨ ∃ f, w'.frames = w.frames ++ [f] := by
  cases heffect with
  | shown => exact .inr ⟨_, rfl⟩
  | @translation t batch text =>
    cases text with
    | none => exact .inl (List.append_nil _)
    | some text => exact .inr ⟨.translation t.id text, rfl⟩
  | schedule hafter =>
    rw [scheduleTranslation]
    split_ifs
    · exact .inl rfl
    · exact .inl rfl
  | _ => exact .inl rfl

theorem Translates.subperm (h : w.Translates) :
    w.frames.filterMap Frame.translation? <+~ w.frames.filterMap Frame.bubble? :=
  (List.sublist_append_left ..).subperm.trans h.behind

/-- A cut is one of before, or the whole. -/
theorem Behind.effect (h : w.Behind) (ht : w'.Translates) (heffect : w.Effect w') :
    w'.Behind := by
  intro frames hframes
  obtain heq | ⟨f, heq⟩ := heffect.frames_eq
  · exact h frames (heq ▸ hframes)
  · rw [heq] at hframes
    obtain rfl | hprefix := List.prefix_concat_iff.mp hframes
    · exact heq ▸ ht.subperm
    · exact h frames hprefix

/-! ## The batch -/

theorem pull_mem_tasksDone {k : Kind} :
    Task.pull k ∈ w.tasksDone ↔ (w.feed k).pull.isDone = true := by
  rw [tasksDone, List.mem_append]
  constructor
  · rintro (hmem | hmem)
    · obtain ⟨k', hk', heq⟩ := List.mem_map.mp hmem
      obtain rfl := Task.pull.inj heq
      exact (List.mem_filter.mp hk').2
    · obtain ⟨t, -, heq⟩ := List.mem_map.mp hmem
      cases heq
  · intro hdone
    refine .inl (List.mem_map_of_mem (List.mem_filter.mpr ⟨?_, hdone⟩))
    cases k <;> decide

theorem translation_mem_tasksDone {n : ℕ} :
    Task.translation n ∈ w.tasksDone ↔
      ∃ t ∈ w.translations, t.number = n ∧ t.outcome.isSome = true := by
  rw [tasksDone, List.mem_append]
  constructor
  · rintro (hmem | hmem)
    · obtain ⟨k, -, heq⟩ := List.mem_map.mp hmem
      cases heq
    · obtain ⟨t, ht, heq⟩ := List.mem_map.mp hmem
      obtain ⟨ht, hdone⟩ := List.mem_filter.mp ht
      exact ⟨t, ht, Task.translation.inj heq, hdone⟩
  · rintro ⟨t, ht, rfl, hdone⟩
    exact .inr (List.mem_map.mpr ⟨t, List.mem_filter.mpr ⟨ht, hdone⟩, rfl⟩)

/-- No task is done twice. -/
theorem nodup_tasksDone (hdistinct : (w.translations.map Translation.number).Nodup) :
    w.tasksDone.Nodup := by
  refine List.Nodup.append ?_ ?_ ?_
  · refine List.Nodup.map (fun _ _ ↦ Task.pull.inj) (List.Nodup.filter _ ?_)
    decide
  · have hnumbers :
        ((w.translations.filter fun t ↦ t.outcome.isSome).map Translation.number).Nodup :=
      hdistinct.sublist (List.filter_sublist.map _)
    have := hnumbers.map (f := Task.translation) fun _ _ ↦ Task.translation.inj
    rwa [List.map_map] at this
  · intro task hpull htranslation
    obtain ⟨k, -, rfl⟩ := List.mem_map.mp hpull
    obtain ⟨t, -, heq⟩ := List.mem_map.mp htranslation
    cases heq

/-- The tasks that are left of the batch are pending, and done. -/
structure Ready (w : World) : Prop where
  nodup : w.batch.Nodup
  done : ∀ task ∈ w.batch, task ∈ w.tasksDone

/-- A task that is done stays done, unless it is the one that was popped. -/
theorem mem_tasksDone_of_setFeed {task : Task} {k : Kind} {f : Feed (Carried k)}
    (h : task ∈ w.tasksDone) (htranslations : w'.translations = w.translations)
    (hfeed : w'.feed = (w.setFeed k f).feed) (hdone : task = .pull k → f.pull.isDone = true) :
    task ∈ w'.tasksDone := by
  cases task with
  | pull k' =>
    rw [pull_mem_tasksDone] at h ⊢
    rw [hfeed]
    by_cases hk : k' = k
    · subst hk
      rw [feed_setFeed_self]
      exact hdone rfl
    · rwa [feed_setFeed_ne hk]
  | translation n =>
    rw [translation_mem_tasksDone] at h ⊢
    rwa [htranslations]

/-- Only the translations change. -/
theorem mem_tasksDone_of_translations {task : Task} (h : task ∈ w.tasksDone)
    (hfeed : w'.feed = w.feed)
    (ht : ∀ t ∈ w.translations, task = .translation t.number → t.outcome.isSome = true →
      ∃ t' ∈ w'.translations, t'.number = t.number ∧ t'.outcome.isSome = true) :
    task ∈ w'.tasksDone := by
  cases task with
  | pull k =>
    rw [pull_mem_tasksDone] at h ⊢
    rwa [hfeed]
  | translation n =>
    obtain ⟨t, hmem, rfl, hdone⟩ := translation_mem_tasksDone.mp h
    exact translation_mem_tasksDone.mpr (ht t hmem rfl hdone)

theorem Ready.congr (h : w.Ready) (hbatch : w'.batch = w.batch) (hfeed : w'.feed = w.feed)
    (htranslations : w'.translations = w.translations) : w'.Ready := by
  refine ⟨hbatch ▸ h.nodup, fun task htask ↦ ?_⟩
  refine mem_tasksDone_of_translations (h.done task (hbatch ▸ htask)) hfeed fun t ht _ hdone ↦ ?_
  exact ⟨t, htranslations ▸ ht, rfl, hdone⟩

/-- The loop has popped a pull. -/
theorem Ready.popPull (h : w.Ready) {k : Kind} {batch : List Task} {f : Feed (Carried k)}
    (hbatch : w.batch = .pull k :: batch) (hbatch' : w'.batch = batch)
    (htranslations : w'.translations = w.translations) (hfeed : w'.feed = (w.setFeed k f).feed) :
    w'.Ready := by
  have hnodup := hbatch ▸ h.nodup
  obtain ⟨hnot, hrest⟩ := List.nodup_cons.mp hnodup
  refine ⟨hbatch' ▸ hrest, fun task htask ↦ ?_⟩
  rw [hbatch'] at htask
  have hdone := h.done task (hbatch ▸ List.mem_cons_of_mem _ htask)
  exact mem_tasksDone_of_setFeed hdone htranslations hfeed fun heq ↦ absurd (heq ▸ htask) hnot

theorem Ready.effect (h : w.Ready) (ht : w.Translates) (heffect : w.Effect w') : w'.Ready := by
  cases heffect with
  | same => exact h
  | @turn k f hturn =>
    refine ⟨h.nodup, fun task htask ↦ ?_⟩
    refine mem_tasksDone_of_setFeed (h.done task htask) rfl rfl fun heq ↦ ?_
    exact hturn.isDone (pull_mem_tasksDone.mp (heq ▸ h.done task htask))
  | translated n outcome =>
    refine ⟨h.nodup, fun task htask ↦ ?_⟩
    refine mem_tasksDone_of_translations (h.done task htask) rfl fun t ht _ hsome ↦ ?_
    refine ⟨_, List.mem_map_of_mem ht, ?_, ?_⟩
    · split_ifs <;> rfl
    · split_ifs
      · rfl
      · exact hsome
  | wake hafter hopen hperm =>
    exact ⟨hperm.nodup_iff.mpr (nodup_tasksDone ht.distinct),
      fun task htask ↦ hperm.mem_iff.mp htask⟩
  | ended hbatch => exact h.popPull hbatch rfl rfl rfl
  | foreign hbatch => exact h.popPull hbatch rfl rfl rfl
  | shown hbatch => exact h.popPull hbatch rfl rfl rfl
  | mutedMessage hbatch => exact h.popPull hbatch rfl rfl rfl
  | mutedReaction hbatch => exact h.popPull hbatch rfl rfl rfl
  | @translation t batch text hbatch hafter hmem =>
    obtain ⟨hnot, hrest⟩ := List.nodup_cons.mp (hbatch ▸ h.nodup)
    refine ⟨hrest, fun task htask ↦ ?_⟩
    have hdone := h.done task (hbatch ▸ List.mem_cons_of_mem _ htask)
    refine mem_tasksDone_of_translations hdone rfl fun t' ht' heq hsome ↦ ?_
    have hother : t'.number ≠ t.number := fun hnumber ↦ hnot (by rw [← hnumber, ← heq]; exact htask)
    exact ⟨t', List.mem_filter.mpr ⟨ht', decide_eq_true hother⟩, rfl, hsome⟩
  | cancel =>
    refine ⟨List.nodup_nil, ?_⟩
    rintro task ⟨⟩
  | schedule hafter =>
    rw [scheduleTranslation]
    split_ifs with hfew
    · refine ⟨h.nodup, fun task htask ↦ ?_⟩
      refine mem_tasksDone_of_translations (h.done task htask) rfl fun t ht _ hsome ↦ ?_
      exact ⟨t, List.mem_append_left _ ht, rfl, hsome⟩
    · exact h.congr rfl rfl rfl
  | remember k => exact h.congr rfl rfl rfl
  | rememberReaction k => exact h.congr rfl rfl rfl
  | takeReaction k => exact h.congr rfl rfl rfl

/-- The loop finds every task of its batch in `pending`. -/
theorem Ready.handle (h : w.Ready) (hafter : w.after = none) (hbatch : w.batch ≠ []) :
    (step w .handle).isSome = true := by
  obtain ⟨task, batch, hcons⟩ := List.exists_cons_of_ne_nil hbatch
  have hdone := h.done task (hcons ▸ List.mem_cons_self)
  cases task with
  | pull k =>
    have hstep : step w .handle = handlePull k { w with batch } := by
      simp only [step, hafter, hcons]
    rw [hstep, handlePull]
    have hpull := pull_mem_tasksDone.mp hdone
    dsimp only
    split
    · rfl
    · rfl
    · rfl
    next hgot hended hfailed =>
      cases hp : (w.feed k).pull with
      | none => rw [hp] at hpull; cases hpull
      | waiting => rw [hp] at hpull; cases hpull
      | done r =>
        cases r with
        | got ev => exact absurd hp (hgot ev)
        | ended => exact absurd hp hended
        | failed => exact absurd hp hfailed
  | translation n =>
    have hstep : step w .handle = handleTranslation n { w with batch } := by
      simp only [step, hafter, hcons]
    rw [hstep, handleTranslation]
    obtain ⟨t, ht, hn, hsome⟩ := translation_mem_tasksDone.mp hdone
    dsimp only
    split
    · rfl
    next hnone =>
      have hother := List.find?_eq_none.mp hnone t ht
      rw [hn, hsome, decide_eq_true rfl] at hother
      exact absurd rfl hother

/-- A stream that is closed has nothing left to do. -/
structure Closed (w : World) : Prop where
  translations : w.translations = []
  batch : w.batch = []
  after : w.after = none
  pulls : ∀ k, (w.feed k).pull ≠ .waiting

theorem closed_effect (h : w.closed = true → w.Closed) (heffect : w.Effect w') :
    w'.closed = true → w'.Closed := by
  intro hclosed
  have hnever {task : Task} {batch : List Task} (hbatch : w.batch = task :: batch)
      (hopen : w.closed = true) : w'.Closed := by
    rw [(h hopen).batch] at hbatch
    cases hbatch
  cases heffect with
  | same => exact h hclosed
  | @turn k f hturn =>
    obtain ⟨htranslations, hbatch, hafter, hpulls⟩ := h hclosed
    refine ⟨htranslations, hbatch, hafter, ?_⟩
    refine (Function.forall_update_iff w.feed fun _ f ↦ f.pull ≠ .waiting).mpr
      ⟨?_, fun k' _ ↦ hpulls k'⟩
    cases hturn with
    | register => exact hpulls k
    | put ev =>
      rw [Feed.put]
      split_ifs
      · exact hpulls k
      · exact hpulls k
    | receive hpull => exact absurd hpull (hpulls k)
    | stop hpull => exact absurd hpull (hpulls k)
  | translated n outcome =>
    obtain ⟨htranslations, hbatch, hafter, hpulls⟩ := h hclosed
    exact ⟨by rw [htranslations, List.map_nil], hbatch, hafter, hpulls⟩
  | wake hafter hopen => exact absurd hclosed (hopen ▸ Bool.false_ne_true)
  | ended hbatch => exact hnever hbatch hclosed
  | foreign hbatch => exact hnever hbatch hclosed
  | shown hbatch => exact hnever hbatch hclosed
  | mutedMessage hbatch => exact hnever hbatch hclosed
  | mutedReaction hbatch => exact hnever hbatch hclosed
  | translation text hbatch => exact hnever hbatch hclosed
  | cancel =>
    refine ⟨rfl, rfl, rfl, fun k ↦ ?_⟩
    change (w.feed k).pull.cancel ≠ .waiting
    cases (w.feed k).pull with
    | none => rintro ⟨⟩
    | waiting => rintro ⟨⟩
    | done r => rintro ⟨⟩
  | schedule hafter =>
    have hopen : w.closed = true := by
      rw [scheduleTranslation] at hclosed
      split_ifs at hclosed
      · exact hclosed
      · exact hclosed
    rw [(h hopen).after] at hafter
    cases hafter
  | remember k =>
    obtain ⟨htranslations, hbatch, hafter, hpulls⟩ := h hclosed
    exact ⟨htranslations, hbatch, hafter, hpulls⟩
  | rememberReaction k =>
    obtain ⟨htranslations, hbatch, hafter, hpulls⟩ := h hclosed
    exact ⟨htranslations, hbatch, hafter, hpulls⟩
  | takeReaction k =>
    obtain ⟨htranslations, hbatch, hafter, hpulls⟩ := h hclosed
    exact ⟨htranslations, hbatch, hafter, hpulls⟩

/-! ## Every run -/

/-- A new stream for a client with these buckets. -/
def start (dialogId : ℤ) (isGroup translates : Bool) (sentIds : OrderedDict Key Bool)
    (sentReactions : OrderedDict ReactionKey Bool) : World :=
  { dialogId, isGroup, translates, sentIds, sentReactions }

/-- What holds of a stream at all times. -/
structure Served (w : World) : Prop where
  accounts : w.Accounts
  parts : w.Parts
  echoed : w.Echoed
  translates : w.Translates
  behind : w.Behind
  handles : w.after = none → w.batch ≠ [] → (step w .handle).isSome = true
  closed : w.closed = true → w.Closed

/-- Every event of the dialog has its frame, in the order of its subscription, unless it is an echo
of the client or a full queue has dropped it; and every frame with a translation is behind one with
the message, which has no other translation behind it unless it has another frame. -/
theorem frames_served {w : World} {dialogId : ℤ} {isGroup translates : Bool}
    {sentIds : OrderedDict Key Bool} {sentReactions : OrderedDict ReactionKey Bool}
    (hrun : Machine.Runs step Machine.anyEvent
      (start dialogId isGroup translates sentIds sentReactions) w) : w.Served := by
  have hall : (w.Accounts ∧ w.Parts ∧ w.Echoed) ∧
      ((w.Translates ∧ w.Behind) ∧ w.Ready ∧ (w.closed = true → w.Closed)) := by
    refine hrun.preserves (I := fun w ↦ (w.Accounts ∧ w.Parts ∧ w.Echoed) ∧
      ((w.Translates ∧ w.Behind) ∧ w.Ready ∧ (w.closed = true → w.Closed))) ?_ ?_
    · rintro w w' e ⟨⟨haccounts, hparts, hechoed⟩, ⟨htranslates, hbehind⟩, hready, hclosed⟩ - hs
      have heffect := effect_of_step hs
      have htranslates' := htranslates.effect heffect
      exact ⟨⟨haccounts.effect heffect, hparts.effect heffect, hechoed.effect heffect⟩,
        ⟨htranslates', hbehind.effect htranslates' heffect⟩, hready.effect htranslates heffect,
        closed_effect hclosed heffect⟩
    · refine ⟨⟨fun k ↦ Feed.accounted_new, fun k ↦ ⟨?_, ?_, rfl⟩, ?_⟩, ⟨?_, ?_⟩, ?_, ?_⟩
      · exact List.nil_sublist _
      · exact List.Perm.refl _
      · refine ⟨rfl, ?_, ?_, ?_, ?_⟩
        · rintro ev ⟨⟩
        · exact fun k hk ↦ OrderedDict.contains_iff_mem_keys.mp hk
        · exact fun k ↦ Nat.zero_le _
        · exact fun k hk ↦ List.count_pos_iff.mpr (OrderedDict.contains_iff_mem_keys.mp hk)
      · refine ⟨Nat.zero_le _, ?_, List.nodup_nil, List.Subperm.refl _, fun _ ↦ rfl⟩
        rintro t ⟨⟩
      · intro frames hframes
        obtain rfl := List.prefix_nil.mp hframes
        exact List.Subperm.refl _
      · refine ⟨List.nodup_nil, ?_⟩
        rintro task ⟨⟩
      · rintro ⟨⟩
  obtain ⟨⟨haccounts, hparts, hechoed⟩, ⟨htranslates, hbehind⟩, hready, hclosed⟩ := hall
  exact ⟨haccounts, hparts, hechoed, htranslates, hbehind, hready.handle, hclosed⟩

/-- A message in the group -7. -/
def hello (id : ℤ) : MessageEvent :=
  ⟨-7, { id, dialogId := -7, senderId := 1, out := false, date := "", text := some "hello" }⟩

/-- A message comes and is translated; the echo of a message of the client is left out, and that of
a message of another device is not. -/
def exchange : List Event :=
  [.register .incoming, .register .outgoing, .register .reaction, .remember (-7, 2),
    .publish .incoming (hello 1), .receive .incoming, .publish .outgoing (hello 2),
    .receive .outgoing, .wake [.pull .outgoing, .pull .incoming], .handle,
    .publish .outgoing (hello 3), .handle, .schedule, .receive .outgoing,
    .translated 0 (.translated (some "salut")), .wake [.pull .outgoing, .translation 0],
    .handle, .schedule, .handle]

theorem frames_served_exchange : ∃ w,
    Machine.Runs step Machine.anyEvent (start (-7) true true .empty .empty) w ∧ w.Served ∧
      w.frames = [.message 1 (some "hello") false true 1 none,
        .message 3 (some "hello") true true 1 none, .translation 1 "salut"] := by
  have hexec : (step.exec (start (-7) true true .empty .empty) exchange).map World.frames =
      some [.message 1 (some "hello") false true 1 none,
        .message 3 (some "hello") true true 1 none, .translation 1 "salut"] := by
    decide +kernel
  obtain ⟨w, hw, hframes⟩ := Option.map_eq_some_iff.mp hexec
  have hrun := Machine.runs_of_exec (fun _ _ _ ↦ trivial) hw
  exact ⟨w, hrun, frames_served hrun, hframes⟩

end World

end TgMessenger.Web.Sse
