import TgMessenger.Data.RateWindow
import TgMessenger.Ghostwrite.Engine
import Mathlib.Data.Finset.Card

/-!
# The hourly cap

The window of a dialog is what is left of its admissions when those more than an hour before
the attempt at hand are dropped from the front.  With a clock that does not go back, what
was dropped once is out of every later window as well.
-/

namespace TgMessenger.Ghostwrite

/-! ## What is counted -/

/-- The time of an admission in a dialog. -/
def Action.admission (dialogId : ℤ) : Action → Option Time
  | .admitted _ d now => if d = dialogId then some now else none
  | _ => none

/-- The call of a reply sent to a dialog. -/
def Action.reply (dialogId : ℤ) : Action → Option ℕ
  | .sent call d _ _ => if d = dialogId then some call else none
  | _ => none

/-- The call that was refused. -/
def Action.refusal : Action → Option ℕ
  | .refused call _ => some call
  | _ => none

/-- The call for which the suggester was asked. -/
def Action.question : Action → Option ℕ
  | .asked call _ => some call
  | _ => none

/-- An observation that does not see checks, settlements and the journal. -/
structure Action.Silent {α : Type} (f : Action → Option α) : Prop where
  checked : ∀ c, f (.checked c) = none
  settled : ∀ s, f (.settled s) = none
  journaled : ∀ d m reply dryRun, f (.journaled d m reply dryRun) = none

theorem silent_admission (d : ℤ) : Action.Silent (Action.admission d) :=
  ⟨fun _ ↦ rfl, fun _ ↦ rfl, fun _ _ _ _ ↦ rfl⟩

theorem silent_reply (d : ℤ) : Action.Silent (Action.reply d) :=
  ⟨fun _ ↦ rfl, fun _ ↦ rfl, fun _ _ _ _ ↦ rfl⟩

theorem silent_refusal : Action.Silent Action.refusal :=
  ⟨fun _ ↦ rfl, fun _ ↦ rfl, fun _ _ _ _ ↦ rfl⟩

theorem silent_question : Action.Silent Action.question :=
  ⟨fun _ ↦ rfl, fun _ ↦ rfl, fun _ _ _ _ ↦ rfl⟩

/-- The attempt that comes next: its dialog and its reading of the clock. -/
def Progress.attempt : Progress → Option (ℤ × Time)
  | .checking m now _ => some (m.dialogId, now)
  | _ => none

/-- The dialog of an admission with no reply so far. -/
def Progress.credit : Progress → Option ℤ
  | .suggesting m | .rechecking m _ _ _ => some m.dialogId
  | _ => none

namespace World

/-- What was observed so far, latest first. -/
def observed {α : Type} (w : World) (f : Action → Option α) : List α := w.log.filterMap f

theorem observed_act {α : Type} (w : World) (a : Action) (f : Action → Option α) :
    (w.act a).observed f = (f a).toList ++ w.observed f := by
  rw [observed, act, List.filterMap_cons]
  split
  · rename_i hnone
    rw [hnone]
    rfl
  · rename_i b hsome
    rw [hsome]
    rfl

/-- The window of a dialog. -/
def window (w : World) (dialogId : ℤ) : List Time := (w.rate.get? dialogId).getD []

/-- The reading at which the next attempt is made, or before which none is made. -/
def horizon (w : World) : Time :=
  match w.incoming.attempt with
  | some (_, now) => now
  | none => w.now

end World

/-- The reading of the clock that comes with an event. -/
def Event.reading : Event → Option Time
  | .incoming _ now | .outgoing _ now | .raised _ now | .resume _ now | .suggested _ now
  | .acked now | .sendFailed now => some now
  | _ => none

/-- The message that comes in. -/
def Event.message : Event → Option Incoming
  | .incoming m _ => some m
  | _ => none

/-- The clock does not go back, and the messages are of these dialogs. -/
def Steady (dialogs : Finset ℤ) (w : World) (e : Event) : Prop :=
  (∀ now ∈ e.reading, w.now ≤ now) ∧ ∀ m ∈ e.message, m.dialogId ∈ dialogs

instance (dialogs : Finset ℤ) (w : World) (e : Event) : Decidable (Steady dialogs w e) :=
  inferInstanceAs (Decidable
    ((∀ now ∈ e.reading, w.now ≤ now) ∧ ∀ m ∈ e.message, m.dialogId ∈ dialogs))

/-! ## One attempt -/

/-- There is no window but for these dialogs. -/
def Within (dialogs : Finset ℤ) (rate : OrderedDict ℤ (List Time)) : Prop :=
  ∀ d ∉ dialogs, rate.get? d = none

theorem Within.size_le {rate : OrderedDict ℤ (List Time)} {dialogs : Finset ℤ}
    (h : Within dialogs rate) : rate.size ≤ dialogs.card := by
  have hsub : rate.keys.toFinset ⊆ dialogs := by
    intro d hd
    by_contra hnot
    exact OrderedDict.get?_eq_none_iff.mp (h d hnot) (List.mem_toFinset.mp hd)
  calc rate.size = rate.keys.toFinset.card := by
        rw [OrderedDict.keys, List.toFinset_card_of_nodup rate.nodup, List.length_map,
          OrderedDict.size]
    _ ≤ dialogs.card := Finset.card_le_card hsub

/-- An attempt looks at the last hour, and is added to it when there is room. -/
theorem overRateLimit_spec {cfg : Setup} {dialogId : ℤ} (now : Time)
    {rate : OrderedDict ℤ (List Time)} {dialogs : Finset ℤ} (hwithin : Within dialogs rate)
    (hd : dialogId ∈ dialogs) (hcard : dialogs.card ≤ cfg.maxRateDialogs) :
    let last := RateWindow.prune rateWindowSec now ((rate.get? dialogId).getD [])
    let r := overRateLimit cfg dialogId now rate
    (r.1 = true ∧ cfg.maxPerHour ≤ last.length ∨ r.1 = false ∧ last.length < cfg.maxPerHour) ∧
    Within dialogs r.2 ∧
    ∀ d, (r.2.get? d).getD [] =
      if d = dialogId then (if r.1 = true then last else last ++ [now])
      else (rate.get? d).getD [] := by
  intro last r
  set moved := (rate.set dialogId last).moveToEnd dialogId with hmoved
  have hlookup (d : ℤ) : moved.get? d = if d = dialogId then some last else rate.get? d := by
    rw [hmoved, OrderedDict.get?_moveToEnd, OrderedDict.get?_set]
  have hwithin' : Within dialogs moved := by
    intro d hnot
    rw [hlookup, if_neg (ne_of_mem_of_not_mem hd hnot).symm]
    exact hwithin d hnot
  have hfits : moved.size - cfg.maxRateDialogs = 0 :=
    Nat.sub_eq_zero_of_le (hwithin'.size_le.trans hcard)
  have hpop : OrderedDict.popFirst^[moved.size - cfg.maxRateDialogs] moved = moved := by
    rw [hfits, Function.iterate_zero, id]
  have hr : r = (fun rate : OrderedDict ℤ (List Time) ↦
      if cfg.maxPerHour ≤ last.length then (true, rate)
      else (false,
        if rate.contains dialogId then rate.set dialogId (last ++ [now]) else rate))
      (OrderedDict.popFirst^[moved.size - cfg.maxRateDialogs] moved) := rfl
  have hcontains : moved.contains dialogId = true := by
    rw [OrderedDict.contains, hlookup, if_pos rfl, Option.isSome_some]
  rw [hpop] at hr
  dsimp only at hr
  rw [if_pos hcontains] at hr
  split_ifs at hr with hfull
  · rw [hr]
    refine ⟨.inl ⟨rfl, hfull⟩, hwithin', ?_⟩
    intro d
    rw [hlookup, if_pos rfl]
    split_ifs <;> rfl
  · rw [hr]
    refine ⟨.inr ⟨rfl, not_le.mp hfull⟩, ?_, ?_⟩
    · intro d hnot
      rw [OrderedDict.get?_set_ne _ _ (ne_of_mem_of_not_mem hd hnot).symm]
      exact hwithin' d hnot
    · intro d
      rw [OrderedDict.get?_set, hlookup, if_neg Bool.false_ne_true]
      split_ifs <;> rfl

/-! ## One event -/

/-- No message came in, no attempt was made, and no reply was sent. -/
structure Quiet (w w' : World) (reading : Option Time) : Prop where
  rate : w'.rate = w.rate
  calls : w'.calls = w.calls
  now : w'.now = w.now ∨ reading = some w'.now
  observed : ∀ {α : Type} {f : Action → Option α}, Action.Silent f → w'.observed f = w.observed f
  attempt : w'.incoming.attempt = none ∨ w'.incoming.attempt = w.incoming.attempt
  credit : w'.incoming.credit = none ∨ w'.incoming.credit = w.incoming.credit

theorem Progress.attempt_of_isParked {p q : Progress} (h : p.isParked = true ∨ p = q) :
    p.attempt = none ∨ p.attempt = q.attempt := by
  rcases h with h | rfl
  · left
    cases p <;> first | rfl | cases h
  · exact .inr rfl

theorem Progress.credit_of_isParked {p q : Progress} (h : p.isParked = true ∨ p = q) :
    p.credit = none ∨ p.credit = q.credit := by
  rcases h with h | rfl
  · left
    cases p <;> first | rfl | cases h
  · exact .inr rfl

namespace World

variable {cfg : Setup} {w w' : World}

theorem quiet_performTakeover {e : OutgoingEvent} {takeover : Takeover} {task : Task}
    {r : World × Takeover} (hr : w.performTakeover e takeover = some r) :
    Quiet w (r.1.setTaking task r.2) none := by
  obtain ⟨dialogs, news, heq, hnews⟩ := performTakeover_eq hr
  obtain ⟨p, o, hp, heq'⟩ := setTaking_eq r.1 task r.2
  rw [heq', heq]
  rw [heq] at hp
  refine ⟨rfl, rfl, .inl rfl, ?_, Progress.attempt_of_isParked hp, Progress.credit_of_isParked hp⟩
  intro α f hf
  have hnone : news.filterMap f = [] := by
    rw [List.filterMap_eq_nil_iff]
    intro a ha
    rcases hnews a ha with ⟨c, rfl⟩ | ⟨s, rfl⟩
    · exact hf.checked c
    · exact hf.settled s
  rw [observed, List.filterMap_append, hnone, List.nil_append, observed]

theorem quiet_performIncoming (hs : w.performIncoming = some w') : Quiet w w' none := by
  unfold performIncoming at hs
  split at hs
  · rename_i m now hchecking
    obtain rfl := Option.some.inj hs
    refine ⟨rfl, rfl, .inl rfl, ?_, .inr ?_, .inl rfl⟩
    · intro α f hf
      exact List.filterMap_cons_none (hf.checked _)
    · rw [hchecking]
      rfl
  · rename_i m reply now hrechecking
    obtain rfl := Option.some.inj hs
    refine ⟨rfl, rfl, .inl rfl, ?_, .inl rfl, .inr ?_⟩
    · intro α f hf
      exact List.filterMap_cons_none (hf.checked _)
    · rw [hrechecking]
      rfl
  · obtain rfl := Option.some.inj hs
    refine ⟨rfl, rfl, .inl rfl, ?_, .inl rfl, .inl rfl⟩
    intro α f hf
    exact List.filterMap_cons_none (hf.journaled ..)
  · cases hs

theorem quiet_onOutgoing (e : OutgoingEvent) (now : Time) (awaited : List Key)
    (human : List OutgoingEvent) :
    Quiet w ({ w with awaited, human, now }.onOutgoing e now) (some now) := by
  obtain ⟨sending, ownSent, outgoing, heq⟩ := onOutgoing_eq { w with awaited, human, now } e now
  rw [heq]
  exact ⟨rfl, rfl, .inr rfl, fun _ ↦ rfl, .inr rfl, .inr rfl⟩

theorem quiet_endSending (m : Incoming) (reply : String) (own : Option ℤ) (now : Time)
    (ownSent : OrderedDict Key Unit) :
    Quiet w (endSending { w with ownSent, now } m reply own now) (some now) := by
  obtain ⟨p, hp, heq⟩ := endSending_eq { w with ownSent, now } m reply own now
  rw [heq]
  exact ⟨rfl, rfl, .inr rfl, fun _ ↦ rfl, Progress.attempt_of_isParked (.inl hp),
    Progress.credit_of_isParked (.inl hp)⟩

theorem quiet_goOn (enabledDialogs : List ℤ) (task : Task) (now : Time)
    (takeover : Option Takeover) :
    Quiet w (goOn { w with enabledDialogs, now } task now takeover) (some now) := by
  obtain ⟨p, o, hp, heq⟩ := goOn_eq { w with enabledDialogs, now } task now takeover
  rw [heq]
  exact ⟨rfl, rfl, .inr rfl, fun _ ↦ rfl, Progress.attempt_of_isParked hp,
    Progress.credit_of_isParked hp⟩

/-- An event is quiet, or a message comes in, or an attempt is refused or admitted, or a
reply is sent. -/
theorem step_quiet {e : Event} (hs : w.step cfg e = some w') :
    Quiet w w' e.reading ∨
    (∃ m now p, e = .incoming m now ∧ w.incoming = .idle ∧
      (p = .idle ∨ p = .checking m now none) ∧
      w' = { w with incoming := p, calls := w.calls + 1, now }) ∨
    (∃ m t c now, e.reading = some now ∧ w.incoming = .checking m t (some c) ∧
      ((overRateLimit cfg m.dialogId t w.rate).1 = true ∧
          w' = { w.act (.refused w.calls m.dialogId) with
            rate := (overRateLimit cfg m.dialogId t w.rate).2
            incoming := .idle
            now } ∨
        (overRateLimit cfg m.dialogId t w.rate).1 = false ∧
          w' = { (w.act (.admitted w.calls m.dialogId t)).act (.asked w.calls m.dialogId) with
            rate := (overRateLimit cfg m.dialogId t w.rate).2
            incoming := .suggesting m
            now })) ∨
    ∃ m reply t c now, e.reading = some now ∧ w.incoming = .rechecking m reply t (some c) ∧
      w' = { w.act (.sent w.calls m.dialogId c reply) with
        sending := w.sending.set m.dialogId []
        incoming := .sending m reply none
        now } := by
  cases e with
  | incoming m now =>
    obtain ⟨hidle, p, hp, rfl⟩ := step_incoming hs
    exact .inr (.inl ⟨m, now, p, rfl, hidle, hp, rfl⟩)
  | outgoing e now =>
    obtain ⟨-, ⟨-, rfl⟩ | ⟨-, -, -, rfl⟩⟩ := step_outgoing hs
    · exact .inl (quiet_onOutgoing e now _ w.human)
    · exact .inl (quiet_onOutgoing e now w.awaited _)
  | perform task =>
    rcases step_perform hs with ⟨e, takeover, r, -, hr, rfl⟩ | ⟨rfl, -, hs⟩
    · exact .inl (quiet_performTakeover hr)
    · exact .inl (quiet_performIncoming hs)
  | raised task now =>
    rcases step_raised hs with ⟨e, takeover, -, -, rfl⟩ | ⟨-, rfl⟩
    · exact .inl (quiet_goOn w.enabledDialogs task now none)
    · exact .inl ⟨rfl, rfl, .inl rfl, fun _ ↦ rfl, .inl rfl, .inl rfl⟩
  | resume task now =>
    rcases step_resume hs with ⟨e, takeover, r, -, hr, rfl⟩ | ⟨rfl, -, hs⟩
    · obtain ⟨enabledDialogs, heq⟩ := resumeTakeover_eq hr
      rw [heq]
      exact .inl (quiet_goOn enabledDialogs task now r.2)
    · rcases resumeIncoming_cases hs with
        ⟨m, t, c, hchecking, rfl | ⟨-, hover, rfl⟩ | ⟨-, hover, rfl⟩⟩ |
        ⟨m, reply, t, c, hrechecking, rfl | ⟨-, -, rfl⟩ | ⟨-, -, rfl⟩⟩
      · exact .inl ⟨rfl, rfl, .inr rfl, fun _ ↦ rfl, .inl rfl, .inl rfl⟩
      · exact .inr (.inr (.inl ⟨m, t, c, now, rfl, hchecking, .inl ⟨hover, rfl⟩⟩))
      · exact .inr (.inr (.inl ⟨m, t, c, now, rfl, hchecking, .inr ⟨hover, rfl⟩⟩))
      · exact .inl ⟨rfl, rfl, .inr rfl, fun _ ↦ rfl, .inl rfl, .inl rfl⟩
      · exact .inl ⟨rfl, rfl, .inr rfl, fun _ ↦ rfl, .inl rfl, .inl rfl⟩
      · exact .inr (.inr (.inr ⟨m, reply, t, c, now, rfl, hrechecking, rfl⟩))
  | suggested reply now =>
    obtain ⟨m, p, hsuggesting, rfl | ⟨reply, rfl⟩, rfl⟩ := step_suggested hs
    · exact .inl ⟨rfl, rfl, .inr rfl, fun _ ↦ rfl, .inl rfl, .inl rfl⟩
    · refine .inl ⟨rfl, rfl, .inr rfl, fun _ ↦ rfl, .inl rfl, .inr ?_⟩
      rw [hsuggesting]
      rfl
  | deliver id =>
    obtain ⟨m, reply, -, -, -, rfl⟩ := step_deliver hs
    exact .inl ⟨rfl, rfl, .inl rfl, fun _ ↦ rfl, .inl rfl, .inl rfl⟩
  | acked now =>
    obtain ⟨m, reply, id, -, rfl⟩ := step_acked hs
    exact .inl (quiet_endSending m reply (some id) now _)
  | sendFailed now =>
    obtain ⟨m, reply, -, rfl⟩ := step_sendFailed hs
    exact .inl (quiet_endSending m reply none now w.ownSent)
  | pauseAll | enableDialog | disableDialog | resumeDialog =>
    obtain rfl := Option.some.inj hs
    exact .inl ⟨rfl, rfl, .inl rfl, fun _ ↦ rfl, .inr rfl, .inr rfl⟩

end World

/-! ## The windows -/

/-- Admissions and windows, up to the next attempt. -/
structure Capped (cfg : Setup) (dialogs : Finset ℤ) (w : World) : Prop where
  within : Within dialogs w.rate
  clock : w.horizon ≤ w.now
  attempt : ∀ a ∈ w.incoming.attempt, a.1 ∈ dialogs
  past : ∀ d, ∀ t ∈ w.observed (Action.admission d), t ≤ w.horizon
  /-- What is not in the window any more is over an hour old. -/
  window : ∀ d, RateWindow.Holds rateWindowSec w.horizon
    (w.observed (Action.admission d)).reverse (w.window d)
  cap : ∀ d t, ((w.observed (Action.admission d)).filter fun s ↦
    t ≤ s ∧ s ≤ t + rateWindowSec).length ≤ cfg.maxPerHour

namespace Capped

variable {cfg : Setup} {dialogs : Finset ℤ} {w w' : World}

theorem init (table : Dialogs) (start : Time) : Capped cfg dialogs (.init table start) where
  within _ _ := rfl
  clock := le_refl start
  attempt _ ha := nomatch ha
  past _ _ ht := absurd ht List.not_mem_nil
  window _ := .nil
  cap _ _ := Nat.zero_le _

/-- What moves neither windows nor admissions, and not the horizon backwards. -/
theorem move (h : Capped cfg dialogs w) (hrate : w'.rate = w.rate)
    (hlog : ∀ d, w'.observed (Action.admission d) = w.observed (Action.admission d))
    (hle : w.horizon ≤ w'.horizon) (hclock : w'.horizon ≤ w'.now)
    (hattempt : ∀ a ∈ w'.incoming.attempt, a.1 ∈ dialogs) :
    Capped cfg dialogs w' where
  within := hrate ▸ h.within
  clock := hclock
  attempt := hattempt
  past d t ht := by
    rw [hlog] at ht
    exact (h.past d t ht).trans hle
  window d := by
    rw [hlog, World.window, hrate]
    exact (h.window d).mono hle
  cap d t := by
    rw [hlog]
    exact h.cap d t

/-- The attempt goes, or stays; the clock does not go back. -/
theorem rest (h : Capped cfg dialogs w) (hrate : w'.rate = w.rate)
    (hlog : ∀ d, w'.observed (Action.admission d) = w.observed (Action.admission d))
    (hnow : w.now ≤ w'.now)
    (hattempt : w'.incoming.attempt = none ∨ w'.incoming.attempt = w.incoming.attempt) :
    Capped cfg dialogs w' := by
  have hclock := h.clock
  rw [World.horizon] at hclock
  refine h.move hrate hlog ?_ ?_ ?_
  · rw [World.horizon, World.horizon]
    rcases hattempt with hnone | hsame
    · rw [hnone]
      exact hclock.trans hnow
    · rw [hsame]
      split
      · exact le_refl _
      · exact hnow
  · rw [World.horizon]
    rcases hattempt with hnone | hsame
    · rw [hnone]
    · rw [hsame]
      split at hclock
      · exact hclock.trans hnow
      · exact le_refl _
  · rcases hattempt with hnone | hsame
    · rw [hnone]
      exact fun _ ha ↦ nomatch ha
    · rw [hsame]
      exact h.attempt

/-- An attempt is refused or admitted. -/
theorem attempted (h : Capped cfg dialogs w) (hcard : dialogs.card ≤ cfg.maxRateDialogs)
    {dialogId : ℤ} {now : Time} (ha : w.incoming.attempt = some (dialogId, now))
    (hrate : w'.rate = (overRateLimit cfg dialogId now w.rate).2)
    (hlog : ∀ d, w'.observed (Action.admission d) =
      (if d = dialogId ∧ (overRateLimit cfg dialogId now w.rate).1 = false then [now] else []) ++
        w.observed (Action.admission d))
    (hattempt : w'.incoming.attempt = none) (hnow : w.now ≤ w'.now) :
    Capped cfg dialogs w' := by
  obtain ⟨hcase, hwithin, hwindow⟩ :=
    overRateLimit_spec now h.within (h.attempt _ ha) hcard
  have hbefore : w.horizon = now := by rw [World.horizon, ha]
  have hafter : w'.horizon = w'.now := by rw [World.horizon, hattempt]
  have hle : now ≤ w'.now := hbefore ▸ h.clock.trans hnow
  have hheld (d : ℤ) : RateWindow.Holds rateWindowSec now
      (w.observed (Action.admission d)).reverse (w.window d) := hbefore ▸ h.window d
  refine ⟨hrate ▸ hwithin, hafter.le, ?_, ?_, ?_, ?_⟩
  · intro a ha'
    exact nomatch hattempt.symm.trans ha'
  · intro d t ht
    rw [hlog, List.mem_append] at ht
    rw [hafter]
    rcases ht with ht | ht
    · split_ifs at ht
      · rw [List.mem_singleton.mp ht]
        exact hle
      · exact absurd ht List.not_mem_nil
    · exact (hbefore ▸ h.past d t ht).trans hle
  · intro d
    rw [hlog, List.reverse_append, World.window, hrate, hwindow, hafter]
    rcases eq_or_ne d dialogId with rfl | hne
    · rw [if_pos rfl]
      rcases hcase with ⟨hfull, -⟩ | ⟨hroom, -⟩
      · rw [hfull, if_neg (fun h ↦ nomatch h.2), if_pos rfl, List.reverse_nil, List.append_nil]
        exact (hheld d).prune.mono hle
      · rw [hroom, if_pos ⟨rfl, rfl⟩, if_neg Bool.false_ne_true, List.reverse_singleton]
        exact ((hheld d).prune.concat now).mono hle
    · rw [if_neg hne, if_neg (fun h ↦ hne h.1), List.reverse_nil, List.append_nil]
      exact (hheld d).mono hle
  · intro d t
    rw [hlog, List.filter_append, List.length_append]
    split_ifs with hadmitted
    · obtain ⟨rfl, hroom⟩ := hadmitted
      rcases Classical.em (t ≤ now ∧ now ≤ t + rateWindowSec) with hin | hout
      · -- All admissions of the interval are in the last hour, where there is room.
        have hlength := (hheld d).prune.length_filter_le hin.2
        rw [List.filter_reverse, List.length_reverse] at hlength
        have hlt : (RateWindow.prune rateWindowSec now (w.window d)).length < cfg.maxPerHour := by
          rcases hcase with ⟨hfull, -⟩ | ⟨-, hlt⟩
          · exact nomatch hfull.symm.trans hroom
          · exact hlt
        rw [List.filter_singleton, decide_eq_true hin]
        exact (Nat.add_le_add_left hlength 1).trans (by rw [Nat.add_comm]; exact hlt)
      · rw [List.filter_singleton, decide_eq_false hout]
        exact (Nat.zero_add _).trans_le (h.cap d t)
    · exact (Nat.zero_add _).trans_le (h.cap d t)

/-- One event. -/
theorem step (h : Capped cfg dialogs w) (hcard : dialogs.card ≤ cfg.maxRateDialogs) {e : Event}
    (hok : Steady dialogs w e) (hs : w.step cfg e = some w') : Capped cfg dialogs w' := by
  rcases World.step_quiet hs with
    hquiet | ⟨m, now, p, rfl, hidle, hp, rfl⟩ |
    ⟨m, t, c, now, hreading, hchecking, ⟨hover, rfl⟩ | ⟨hover, rfl⟩⟩ |
    ⟨m, reply, t, c, now, hreading, hrechecking, rfl⟩
  · have hnow : w.now ≤ w'.now := by
      rcases hquiet.now with hnow | hnow
      · exact hnow.ge
      · exact hok.1 _ hnow
    exact h.rest hquiet.rate (fun d ↦ hquiet.observed (silent_admission d)) hnow hquiet.attempt
  · have hnow : w.now ≤ now := hok.1 now rfl
    have hbefore : w.horizon = w.now := by rw [World.horizon, hidle]; rfl
    rcases hp with rfl | rfl
    · exact h.move rfl (fun _ ↦ rfl) (hbefore.trans_le hnow) (le_refl _) (fun _ ha ↦ nomatch ha)
    · refine h.move rfl (fun _ ↦ rfl) (hbefore.trans_le hnow) (le_refl _) ?_
      intro a ha
      obtain rfl := Option.some.inj ha
      exact hok.2 m rfl
  · have hattempt : w.incoming.attempt = some (m.dialogId, t) := by rw [hchecking]; rfl
    refine h.attempted hcard hattempt rfl ?_ rfl (hok.1 now hreading)
    · intro d
      rw [hover, if_neg (fun h ↦ nomatch h.2)]
      rfl
  · have hattempt : w.incoming.attempt = some (m.dialogId, t) := by rw [hchecking]; rfl
    refine h.attempted hcard hattempt rfl ?_ rfl (hok.1 now hreading)
    · intro d
      refine (World.observed_act ..).trans ((World.observed_act ..).trans ?_)
      rw [hover, Action.admission]
      rcases eq_or_ne d m.dialogId with rfl | hne
      · rw [if_pos rfl, if_pos ⟨rfl, rfl⟩]
        rfl
      · rw [if_neg hne.symm, if_neg (fun h ↦ hne h.1)]
        rfl
  · exact h.rest rfl (fun _ ↦ rfl) (hok.1 now hreading) (.inl rfl)

end Capped

/-! ## The calls -/

/-- Every reply has an admission of its own, and a call that was refused was not asked
about. -/
structure Charged (w : World) : Prop where
  replies : ∀ d, (w.observed (Action.reply d)).length +
    (if w.incoming.credit = some d then 1 else 0) ≤ (w.observed (Action.admission d)).length
  calls : ∀ n, n ∈ w.observed Action.refusal ∨ n ∈ w.observed Action.question →
    n ≤ w.calls ∧ (w.incoming.attempt ≠ none → n ≠ w.calls)
  apart : ∀ n ∈ w.observed Action.refusal, n ∉ w.observed Action.question

namespace Charged

variable {cfg : Setup} {w w' : World}

theorem init (table : Dialogs) (start : Time) : Charged (.init table start) where
  replies _ := le_refl _
  calls _ hn := (hn.elim List.not_mem_nil List.not_mem_nil).elim
  apart _ hn := absurd hn List.not_mem_nil

theorem quiet (h : Charged w) {reading : Option Time} (hq : Quiet w w' reading) : Charged w' where
  replies d := by
    rw [hq.observed (silent_reply d), hq.observed (silent_admission d)]
    refine le_trans (Nat.add_le_add_left ?_ _) (h.replies d)
    rcases hq.credit with hnone | hsame
    · rw [hnone, if_neg (fun h ↦ nomatch h)]
      exact Nat.zero_le _
    · rw [hsame]
  calls n hn := by
    rw [hq.observed silent_refusal, hq.observed silent_question] at hn
    obtain ⟨hle, hne⟩ := h.calls n hn
    rw [hq.calls]
    refine ⟨hle, fun hsome ↦ hne ?_⟩
    rcases hq.attempt with hnone | hsame
    · exact absurd hnone hsome
    · exact hsame ▸ hsome
  apart := by
    rw [hq.observed silent_refusal, hq.observed silent_question]
    exact h.apart

theorem step (h : Charged w) {e : Event} (hs : w.step cfg e = some w') : Charged w' := by
  rcases World.step_quiet hs with
    hquiet | ⟨m, now, p, rfl, hidle, hp, rfl⟩ |
    ⟨m, t, c, now, -, hchecking, ⟨-, rfl⟩ | ⟨-, rfl⟩⟩ |
    ⟨m, reply, t, c, now, -, hrechecking, rfl⟩
  · exact h.quiet hquiet
  · refine ⟨?_, ?_, h.apart⟩
    · intro d
      have hnone : p.credit = none := by rcases hp with rfl | rfl <;> rfl
      rw [hnone, if_neg (fun h ↦ nomatch h)]
      exact (Nat.le_add_right ..).trans (h.replies d)
    · intro n hn
      have hlt := Nat.lt_succ_of_le (h.calls n hn).1
      exact ⟨hlt.le, fun _ ↦ hlt.ne⟩
  · -- A call that is refused has not been asked about.
    have hnew (n : ℕ) (hn : n ∈ w.observed Action.refusal ∨ n ∈ w.observed Action.question) :
        n ≠ w.calls := by
      refine (h.calls n hn).2 ?_
      rw [hchecking]
      exact fun h ↦ nomatch h
    refine ⟨?_, ?_, ?_⟩
    · intro d
      exact (Nat.le_add_right ..).trans (h.replies d)
    · rintro n (hn | hn)
      · rcases List.mem_cons.mp hn with rfl | hn
        · exact ⟨le_refl _, fun hsome ↦ absurd rfl hsome⟩
        · exact ⟨(h.calls n (.inl hn)).1, fun hsome ↦ absurd rfl hsome⟩
      · exact ⟨(h.calls n (.inr hn)).1, fun hsome ↦ absurd rfl hsome⟩
    · intro n hn hasked
      rcases List.mem_cons.mp hn with rfl | hn
      · exact hnew _ (.inr hasked) rfl
      · exact h.apart n hn hasked
  · have hnew (n : ℕ) (hn : n ∈ w.observed Action.refusal ∨ n ∈ w.observed Action.question) :
        n ≠ w.calls := by
      refine (h.calls n hn).2 ?_
      rw [hchecking]
      exact fun h ↦ nomatch h
    refine ⟨?_, ?_, ?_⟩
    · intro d
      have hreplies := (Nat.le_add_right ..).trans (h.replies d)
      show (w.observed (Action.reply d)).length + (if some m.dialogId = some d then 1 else 0) ≤
        (((w.act (.admitted w.calls m.dialogId t)).act (.asked w.calls m.dialogId)).observed
          (Action.admission d)).length
      rw [World.observed_act, World.observed_act]
      dsimp only [Action.admission, Option.toList_none]
      rw [List.nil_append]
      rcases eq_or_ne m.dialogId d with rfl | hne
      · rw [if_pos rfl, if_pos rfl]
        exact Nat.succ_le_succ hreplies
      · rw [if_neg hne, if_neg (fun h ↦ hne (Option.some.inj h))]
        exact hreplies
    · rintro n (hn | hn)
      · exact ⟨(h.calls n (.inl hn)).1, fun hsome ↦ absurd rfl hsome⟩
      · rcases List.mem_cons.mp hn with rfl | hn
        · exact ⟨le_refl _, fun hsome ↦ absurd rfl hsome⟩
        · exact ⟨(h.calls n (.inr hn)).1, fun hsome ↦ absurd rfl hsome⟩
    · intro n hn hasked
      rcases List.mem_cons.mp hasked with rfl | hasked
      · exact hnew _ (.inl hn) rfl
      · exact h.apart n hn hasked
  · refine ⟨?_, ?_, h.apart⟩
    · intro d
      have hreplies := h.replies d
      rw [hrechecking, Progress.credit] at hreplies
      show ((w.act (.sent w.calls m.dialogId c reply)).observed (Action.reply d)).length + 0 ≤
        (w.observed (Action.admission d)).length
      rw [World.observed_act, Action.reply]
      rcases eq_or_ne m.dialogId d with rfl | hne
      · rw [if_pos rfl] at hreplies
        rw [if_pos rfl]
        exact hreplies
      · rw [if_neg (fun h ↦ hne (Option.some.inj h))] at hreplies
        rw [if_neg hne]
        exact hreplies
    · intro n hn
      exact ⟨(h.calls n hn).1, fun hsome ↦ absurd rfl hsome⟩

end Charged

/-- With a clock that does not go back and messages of at most `max_rate_dialogs` dialogs: an
interval of an hour, ends included, has no more admissions of one dialog than `max_per_hour`;
a dialog gets no more replies than it has admissions; and the suggester is not asked in a
call that was refused. -/
theorem rate_capped {cfg : Setup} {dialogs : Finset ℤ} (hcard : dialogs.card ≤ cfg.maxRateDialogs)
    {table : Dialogs} {start : Time} {w : World}
    (h : Machine.Runs (World.step cfg) (Steady dialogs) (.init table start) w) :
    (∀ d t, ((w.observed (Action.admission d)).filter fun s ↦ t ≤ s ∧ s ≤ t + 3600).length ≤
      cfg.maxPerHour) ∧
    (∀ d, (w.observed (Action.reply d)).length ≤ (w.observed (Action.admission d)).length) ∧
    ∀ call d d', .refused call d ∈ w.log → .asked call d' ∉ w.log := by
  have hcapped : Capped cfg dialogs w :=
    h.preserves (fun _ _ _ hw hok hs ↦ hw.step hcard hok hs) (Capped.init table start)
  have hcharged : Charged w :=
    h.preserves (fun _ _ _ hw _ hs ↦ hw.step hs) (Charged.init table start)
  refine ⟨hcapped.cap, ?_, ?_⟩
  · intro d
    exact (Nat.le_add_right ..).trans (hcharged.replies d)
  · intro call d d' hrefused hasked
    exact hcharged.apart call (List.mem_filterMap.mpr ⟨_, hrefused, rfl⟩)
      (List.mem_filterMap.mpr ⟨_, hasked, rfl⟩)

/-- One reply an hour: a message is refused exactly an hour after the one that was admitted,
and the next is admitted a second later. -/
theorem rate_capped_at_edge : ∃ w,
    Machine.Runs (World.step ⟨true, 1, 86400, 1000, 10000⟩) (Steady {7})
      (.init (Dialogs.enableDialog .empty 7) 0) w ∧
    w.observed (Action.admission 7) = [3601, 0] ∧ .asked 2 7 ∉ w.log ∧
    (w.observed (Action.reply 7)).length ≤ 2 := by
  have hexec : ((Machine.guarded (World.step ⟨true, 1, 86400, 1000, 10000⟩) (Steady {7})).exec
      (.init (Dialogs.enableDialog .empty 7) 0)
      [.incoming ⟨7, 1, false⟩ 0, .perform .incoming, .resume .incoming 0, .suggested none 0,
        .incoming ⟨7, 2, false⟩ 3600, .perform .incoming, .resume .incoming 3600,
        .incoming ⟨7, 3, false⟩ 3601, .perform .incoming, .resume .incoming 3601]).any
      (fun w ↦ w.observed (Action.admission 7) = [3601, 0] ∧ .refused 2 7 ∈ w.log) = true := by
    decide +kernel
  obtain ⟨w, hrun, hadmissions, hrefused⟩ := Machine.exists_run_of_exec hexec
  obtain ⟨-, hreplies, hquestions⟩ := rate_capped (by decide) hrun
  refine ⟨w, hrun, hadmissions, hquestions 2 7 7 hrefused, (hreplies 7).trans ?_⟩
  rw [hadmissions]
  exact le_refl _

end TgMessenger.Ghostwrite
