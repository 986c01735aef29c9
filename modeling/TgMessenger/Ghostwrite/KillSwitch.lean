import TgMessenger.Ghostwrite.Engine

/-!
# The kill switch

`pause_all` leaves its mark in the rows of the dialogs it pauses, and as long as the mark is
there every activity check of such a dialog fails.  The engine itself writes a pause into a
row only in `_pause_for_human_outgoing`, after it has found the dialog active; when
`pause_all` comes between that check and that write, the write replaces the mark by a pause
that ends.
-/

namespace TgMessenger.Ghostwrite

/-- The statement a takeover waits for is the write of its pause. -/
def Takeover.writes : Takeover → Bool
  | .pausing _ _ done => !done
  | _ => false

/-- No pause for a human message is written into a dialog under `pause_all`. -/
def KeepsPause (w : World) : Event → Prop
  | .perform task => ∀ t ∈ w.taking task, t.2.writes = true → w.killed t.1.dialogId = false
  | _ => True

instance (w : World) (e : Event) : Decidable (KeepsPause w e) :=
  match e with
  | .perform task => inferInstanceAs (Decidable
      (∀ t ∈ w.taking task, t.2.writes = true → w.killed t.1.dialogId = false))
  | .incoming .. | .outgoing .. | .raised .. | .resume .. | .suggested .. | .deliver _
  | .acked _ | .sendFailed _ | .pauseAll | .enableDialog _ | .disableDialog _
  | .resumeDialog _ => .isTrue trivial

/-- The dialog of a reply that may be sent next, with the check behind it. -/
def Progress.rechecked : Progress → Option (ℤ × Check)
  | .rechecking m _ _ (some c) => some (m.dialogId, c)
  | _ => none

theorem Progress.rechecked_of_isParked {p : Progress} (h : p.isParked = true) :
    p.rechecked = none := by
  cases p <;> first | rfl | cases h

/-- What an action says about the kill switch. -/
def Action.Obeys (log : List Action) : Action → Prop
  | .checked c => c.killed = true → c.now < pauseForever → c.active = false
  | .sent _ dialogId c _ => .checked c ∈ log ∧ c.active = true ∧ c.dialogId = dialogId
  | _ => True

theorem Action.Obeys.mono {log : List Action} {a b : Action} (h : a.Obeys log) :
    a.Obeys (b :: log) := by
  cases a with
  | sent call dialogId c reply => exact ⟨List.mem_cons_of_mem _ h.1, h.2⟩
  | checked c => exact h
  | refused | admitted | asked | settled | journaled => exact trivial

/-- The marks of `pause_all` are there, and have been obeyed. -/
structure Obeyed (w : World) : Prop where
  marked : ∀ d, w.killed d = true →
    ∃ row, w.dialogs.get? d = some row ∧ row.pausedUntil = some pauseForever
  log : ∀ a ∈ w.log, a.Obeys w.log
  pending : ∀ d c, w.incoming.rechecked = some (d, c) → .checked c ∈ w.log ∧ c.dialogId = d

namespace Obeyed

variable {cfg : Setup} {w w' : World}

theorem pause (h : Obeyed w) {d : ℤ} (hd : w.killed d = true) :
    w.dialogs.pause d = some pauseForever := Dialogs.pause_eq_some_iff.mpr (h.marked d hd)

/-- A check of a dialog under `pause_all` fails. -/
theorem check (h : Obeyed w) (d : ℤ) (now : Time) (log : List Action) :
    (Action.checked (w.check d now)).Obeys log := by
  intro hkilled hnow
  obtain ⟨row, hrow, hpaused⟩ := h.marked d hkilled
  have hlate : ¬pauseForever ≤ now := not_le.mpr hnow
  rw [World.check, Dialogs.isActive, hrow, Option.any_some, DialogRow.isActive, hpaused,
    Option.all_some, decide_eq_false hlate, Bool.and_false]

theorem act (h : Obeyed w) {a : Action} (ha : a.Obeys w.log) : Obeyed (w.act a) where
  marked := h.marked
  log b hb := by
    rcases List.mem_cons.mp hb with rfl | hb
    · exact ha.mono
    · exact (h.log b hb).mono
  pending d c hc := (h.pending d c hc).imp_left (List.mem_cons_of_mem _)

theorem settle (h : Obeyed w) (e : OutgoingEvent) (now : Option Time) : Obeyed (w.settle e now) :=
  h.act trivial

/-- What moves neither the table nor the log. -/
theorem move (h : Obeyed w) (hdialogs : w'.dialogs = w.dialogs) (hkilled : w'.killed = w.killed)
    (hlog : w'.log = w.log) (hp : w'.incoming.rechecked = none ∨ w'.incoming = w.incoming) :
    Obeyed w' where
  marked := by
    rw [hdialogs, hkilled]
    exact h.marked
  log := by
    rw [hlog]
    exact h.log
  pending d c hc := by
    rw [hlog]
    rcases hp with hp | hp
    · exact nomatch hp.symm.trans hc
    · rw [hp] at hc
      exact h.pending d c hc

/-- The table changes, and the marks are there. -/
theorem setDialogs (h : Obeyed w) {dialogs : Dialogs} {killed : ℤ → Bool}
    (hmarked : ∀ d, killed d = true → dialogs.pause d = some pauseForever) :
    Obeyed { w with dialogs, killed } where
  marked d hd := Dialogs.pause_eq_some_iff.mp (hmarked d hd)
  log := h.log
  pending := h.pending

theorem setTaking (h : Obeyed w) (task : Task) (takeover : Takeover) :
    Obeyed (w.setTaking task takeover) := by
  obtain ⟨p, o, hp, heq⟩ := w.setTaking_eq task takeover
  rw [heq]
  exact h.move rfl rfl rfl (hp.imp_left Progress.rechecked_of_isParked)

theorem goOn (h : Obeyed w) (task : Task) (now : Time) (takeover : Option Takeover) :
    Obeyed (w.goOn task now takeover) := by
  obtain ⟨p, o, hp, heq⟩ := w.goOn_eq task now takeover
  rw [heq]
  exact h.move rfl rfl rfl (hp.imp_left Progress.rechecked_of_isParked)

theorem endSending (h : Obeyed w) (m : Incoming) (reply : String) (own : Option ℤ) (now : Time) :
    Obeyed (w.endSending m reply own now) := by
  obtain ⟨p, hp, heq⟩ := w.endSending_eq m reply own now
  rw [heq]
  exact h.move rfl rfl rfl (.inl (Progress.rechecked_of_isParked hp))

theorem onOutgoing (h : Obeyed w) (e : OutgoingEvent) (now : Time) :
    Obeyed (w.onOutgoing e now) := by
  obtain ⟨sending, ownSent, outgoing, heq⟩ := w.onOutgoing_eq e now
  rw [heq]
  exact h.move rfl rfl rfl (.inr rfl)

/-- The statement of a takeover takes effect. -/
theorem performTakeover (h : Obeyed w) {e : OutgoingEvent} {takeover : Takeover}
    {r : World × Takeover} (hok : takeover.writes = true → w.killed e.dialogId = false)
    (hr : w.performTakeover e takeover = some r) : Obeyed r.1 := by
  unfold World.performTakeover at hr
  split at hr
  · obtain rfl := Option.some.inj hr
    dsimp only
    split_ifs
    · exact h
    · exact h.settle e none
  · rename_i now
    obtain rfl := Option.some.inj hr
    have hchecked := h.act (h.check e.dialogId now w.log)
    dsimp only
    split_ifs
    · exact hchecked
    · exact hchecked.settle e _
  · rename_i c pausedUntil
    obtain rfl := Option.some.inj hr
    have hwritten : Obeyed { w with dialogs := w.dialogs.pauseDialog e.dialogId pausedUntil } := by
      refine h.setDialogs fun d hd ↦ ?_
      rw [Dialogs.pause_pauseDialog_of_ne, h.pause hd]
      rintro rfl
      exact nomatch hd.symm.trans (hok rfl)
    exact hwritten.settle e _
  · cases hr

theorem performIncoming (h : Obeyed w) (hs : w.performIncoming = some w') : Obeyed w' := by
  unfold World.performIncoming at hs
  split at hs
  · rename_i m now heq
    obtain rfl := Option.some.inj hs
    exact (h.act (h.check m.dialogId now w.log)).move rfl rfl rfl (.inl rfl)
  · rename_i m reply now heq
    obtain rfl := Option.some.inj hs
    have hchecked := h.act (h.check m.dialogId now w.log)
    refine ⟨hchecked.marked, hchecked.log, ?_⟩
    intro d c hc
    obtain ⟨rfl, rfl⟩ := Prod.mk.inj (Option.some.inj hc)
    exact ⟨List.mem_cons_self, rfl⟩
  · rename_i m reply dryRun heq
    obtain rfl := Option.some.inj hs
    have hacted : Obeyed (w.act (.journaled m.dialogId m.id reply dryRun)) := h.act trivial
    exact hacted.move rfl rfl rfl (.inl rfl)
  · cases hs

theorem resumeIncoming (h : Obeyed w) (hs : w.resumeIncoming cfg = some w') : Obeyed w' := by
  rcases World.resumeIncoming_cases hs with
    ⟨m, now, c, -, rfl | ⟨-, -, rfl⟩ | ⟨-, -, rfl⟩⟩ |
    ⟨m, reply, now, c, hrechecking, rfl | ⟨-, -, rfl⟩ | ⟨hactive, -, rfl⟩⟩
  · exact h.move rfl rfl rfl (.inl rfl)
  · have hrefused : Obeyed (w.act (.refused w.calls m.dialogId)) := h.act trivial
    exact hrefused.move rfl rfl rfl (.inl rfl)
  · have hadmitted : Obeyed (w.act (.admitted w.calls m.dialogId now)) := h.act trivial
    have hasked : Obeyed ((w.act (.admitted w.calls m.dialogId now)).act
        (.asked w.calls m.dialogId)) := hadmitted.act trivial
    exact hasked.move rfl rfl rfl (.inl rfl)
  · exact h.move rfl rfl rfl (.inl rfl)
  · exact h.move rfl rfl rfl (.inl rfl)
  · obtain ⟨hchecked, hdialog⟩ := h.pending m.dialogId c (by rw [hrechecking]; rfl)
    have hsent : Obeyed (w.act (.sent w.calls m.dialogId c reply)) :=
      h.act ⟨hchecked, hactive, hdialog⟩
    exact hsent.move rfl rfl rfl (.inl rfl)

/-- Time passes. -/
theorem tick (h : Obeyed w) (now : Time) : Obeyed { w with now } :=
  h.move rfl rfl rfl (.inr rfl)

/-- One event. -/
theorem step (h : Obeyed w) {e : Event} (hok : KeepsPause w e) (hs : w.step cfg e = some w') :
    Obeyed w' := by
  cases e with
  | incoming m now =>
    obtain ⟨-, p, rfl | rfl, rfl⟩ := World.step_incoming hs
    · exact h.move rfl rfl rfl (.inl rfl)
    · exact h.move rfl rfl rfl (.inl rfl)
  | outgoing e now =>
    obtain ⟨-, ⟨-, rfl⟩ | ⟨-, -, -, rfl⟩⟩ := World.step_outgoing hs
    · have hmoved : Obeyed { w with awaited := w.awaited.erase e.key, now } :=
        h.move rfl rfl rfl (.inr rfl)
      exact hmoved.onOutgoing e now
    · have hmoved : Obeyed { w with human := e :: w.human, now } :=
        h.move rfl rfl rfl (.inr rfl)
      exact hmoved.onOutgoing e now
  | perform task =>
    rcases World.step_perform hs with ⟨e, takeover, r, htaking, hr, rfl⟩ | ⟨rfl, -, hs⟩
    · exact (h.performTakeover (hok _ htaking) hr).setTaking task r.2
    · exact h.performIncoming hs
  | raised task now =>
    rcases World.step_raised hs with ⟨e, takeover, -, -, rfl⟩ | ⟨-, rfl⟩
    · have hmoved := h.tick now
      exact hmoved.goOn task now none
    · exact h.move rfl rfl rfl (.inl rfl)
  | resume task now =>
    have hmoved := h.tick now
    rcases World.step_resume hs with ⟨e, takeover, r, -, hr, rfl⟩ | ⟨rfl, -, hs⟩
    · obtain ⟨enabledDialogs, heq⟩ := World.resumeTakeover_eq hr
      have hresumed : Obeyed r.1 := by
        rw [heq]
        exact hmoved.move rfl rfl rfl (.inr rfl)
      exact hresumed.goOn task now r.2
    · exact hmoved.resumeIncoming hs
  | suggested reply now =>
    obtain ⟨m, p, -, rfl | ⟨reply, rfl⟩, rfl⟩ := World.step_suggested hs
    · exact h.move rfl rfl rfl (.inl rfl)
    · exact h.move rfl rfl rfl (.inl rfl)
  | deliver id =>
    obtain ⟨m, reply, -, -, -, rfl⟩ := World.step_deliver hs
    exact h.move rfl rfl rfl (.inl rfl)
  | acked now =>
    obtain ⟨m, reply, id, -, rfl⟩ := World.step_acked hs
    have hmoved : Obeyed (World.rememberOwn cfg { w with now } (m.dialogId, id)) :=
      h.move rfl rfl rfl (.inr rfl)
    exact hmoved.endSending ..
  | sendFailed now =>
    obtain ⟨m, reply, -, rfl⟩ := World.step_sendFailed hs
    have hmoved := h.tick now
    exact hmoved.endSending ..
  | pauseAll =>
    obtain rfl := Option.some.inj hs
    refine h.setDialogs fun d hd ↦ ?_
    rw [Dialogs.pause_pauseAll]
    split_ifs with henabled
    · rfl
    · rcases (Bool.or_eq_true ..).mp hd with hkilled | henabled'
      · exact h.pause hkilled
      · exact absurd henabled' henabled
  | enableDialog d =>
    obtain rfl := Option.some.inj hs
    refine h.setDialogs fun d' hd' ↦ ?_
    rw [Function.update_apply] at hd'
    split_ifs at hd' with hne
    rw [Dialogs.pause_enableDialog, if_neg hne, h.pause hd']
  | disableDialog d =>
    obtain rfl := Option.some.inj hs
    refine h.setDialogs fun d' hd' ↦ ?_
    rw [Dialogs.pause_disableDialog, h.pause hd']
  | resumeDialog d =>
    obtain rfl := Option.some.inj hs
    refine h.setDialogs fun d' hd' ↦ ?_
    rw [Function.update_apply] at hd'
    split_ifs at hd' with hne
    rw [Dialogs.pause_resumeDialog, if_neg hne, h.pause hd']

end Obeyed

/-- In every run in which no pause for a human message is written into a dialog under
`pause_all`: as long as a dialog is under it, the dialog is not active, and every activity
check of it fails, so no reply is sent whose check was made then. -/
theorem pause_all_holds {cfg : Setup} {dialogs : Dialogs} {start : Time} {w : World}
    (h : Machine.Runs (World.step cfg) KeepsPause (.init dialogs start) w) :
    (∀ d now, w.killed d = true → now < pauseForever → w.dialogs.isActive d now = false) ∧
    (∀ c, .checked c ∈ w.log → c.killed = true → c.now < pauseForever → c.active = false) ∧
    ∀ call d c reply, .sent call d c reply ∈ w.log →
      c.dialogId = d ∧ (c.killed = true → pauseForever ≤ c.now) := by
  have hobeyed : Obeyed w := by
    refine h.preserves (fun _ _ _ hw hok hs ↦ hw.step hok hs) ⟨?_, ?_, ?_⟩
    · intro d hd
      cases hd
    · intro a ha
      exact absurd ha List.not_mem_nil
    · intro d c hc
      cases hc
  refine ⟨?_, ?_, ?_⟩
  · intro d now hkilled hnow
    exact hobeyed.check d now [] hkilled hnow
  · intro c hc
    exact hobeyed.log _ hc
  · intro call d c reply hsent
    obtain ⟨hchecked, hactive, hdialog⟩ := hobeyed.log _ hsent
    refine ⟨hdialog, fun hkilled ↦ ?_⟩
    by_contra hnow
    exact nomatch hactive.symm.trans (hobeyed.log _ hchecked hkilled (not_le.mp hnow))

/-- The defaults, in earnest. -/
def defaults : Setup := ⟨true, 6, 86400, 1000, 10000⟩

/-- Ghostwrite is enabled in dialog 7. -/
def enabledIn7 : Dialogs := Dialogs.enableDialog .empty 7

/-- A message arrives after `pause_all`. -/
theorem pause_all_holds_after_pause : ∃ w,
    Machine.Runs (World.step defaults) KeepsPause (.init enabledIn7 0) w ∧
      w.log = [.checked ⟨7, 5, true, false⟩] ∧ w.dialogs.isActive 7 10 = false := by
  have hexec : ((Machine.guarded (World.step defaults) KeepsPause).exec (.init enabledIn7 0)
      [.pauseAll, .incoming ⟨7, 1, false⟩ 5, .perform .incoming, .resume .incoming 6]).any
        (fun w ↦ w.killed 7 = true ∧ w.log = [.checked ⟨7, 5, true, false⟩]) = true := by
    decide +kernel
  obtain ⟨w, hrun, hkilled, hlog⟩ := Machine.exists_run_of_exec hexec
  exact ⟨w, hrun, hlog, (pause_all_holds hrun).1 7 10 hkilled (by decide +kernel)⟩

/-- `pause_all` comes between the check and the write of a human takeover; a day later the
engine answers again. -/
theorem pause_all_overwritten : ∃ w,
    Machine.Runs (World.step defaults) Machine.anyEvent (.init enabledIn7 0) w ∧
      w.killed 7 = true ∧ .sent 1 7 ⟨7, 90001, true, true⟩ "hi" ∈ w.log ∧
      (90001 : Time) < pauseForever := by
  have hexec : ((Machine.guarded (World.step defaults) fun _ _ ↦ True).exec (.init enabledIn7 0)
      [.outgoing ⟨7, 44⟩ 0, .perform .outgoing, .pauseAll, .resume .outgoing 1,
        .perform .outgoing, .resume .outgoing 2, .incoming ⟨7, 45, false⟩ 90000,
        .perform .incoming, .resume .incoming 90000, .suggested (some "hi") 90001,
        .perform .incoming, .resume .incoming 90001]).any
      (fun w ↦ w.killed 7 = true ∧ .sent 1 7 ⟨7, 90001, true, true⟩ "hi" ∈ w.log) = true := by
    decide +kernel
  obtain ⟨w, hrun, hkilled, hsent⟩ := Machine.exists_run_of_exec hexec
  exact ⟨w, hrun, hkilled, hsent, by decide +kernel⟩

end TgMessenger.Ghostwrite
