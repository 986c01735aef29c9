import TgMessenger.Ghostwrite.Engine

/-!
# Own messages and messages of humans

Telegram echoes what the engine sends among the outgoing messages.  An echo is told from a
message of a human by its id: the id is in the cache when the reply has been acknowledged,
and what comes while a reply is being sent to the same dialog is put aside until the id is
there.  What was put aside is compared with that one id only, so an echo that comes while the
next reply is being sent is taken for a message of a human.
-/

namespace TgMessenger.Ghostwrite

/-! ## When echoes come -/

/-- The dialog a reply is being sent to. -/
def Progress.peer : Progress → Option ℤ
  | .sending m _ _ => some m.dialogId
  | _ => none

/-- The reply that Telegram has taken and that has not been acknowledged. -/
def Progress.delivered : Progress → Option Key
  | .sending m _ (some id) => some (m.dialogId, id)
  | _ => none

/-- The events put aside that are looked at now. -/
def Progress.queue : Progress → List OutgoingEvent
  | .deferred _ _ _ e _ rest => e :: rest
  | _ => []

theorem Progress.delivered_of_peer {p : Progress} (h : p.peer = none) : p.delivered = none := by
  cases p <;> first | rfl | cases h

theorem Progress.peer_of_delivered {p : Progress} {k : Key} (h : p.delivered = some k) :
    p.peer = some k.1 := by
  unfold delivered at h
  split at h
  · obtain rfl := Option.some.inj h
    rfl
  · cases h

/-- No reply is being sent, and nothing that was put aside is looked at. -/
structure Progress.Calm (p : Progress) : Prop where
  peer : p.peer = none
  queue : p.queue = []

/-- An echo comes before its own reply is acknowledged, or while no reply is being sent to
the dialog and its id is in the cache; and storage does not fail. -/
def Timely (w : World) : Event → Prop
  | .outgoing e _ => e.key ∈ w.awaited → w.incoming.delivered = some e.key ∨
      w.sending.get? e.dialogId = none ∧ w.ownSent.contains e.key = true
  | .raised .. => False
  | _ => True

instance (w : World) (e : Event) : Decidable (Timely w e) :=
  match e with
  | .outgoing e _ => inferInstanceAs (Decidable (e.key ∈ w.awaited →
      w.incoming.delivered = some e.key ∨
        w.sending.get? e.dialogId = none ∧ w.ownSent.contains e.key = true))
  | .raised .. => .isFalse id
  | .incoming .. | .perform _ | .resume .. | .suggested .. | .deliver _ | .acked _
  | .sendFailed _ | .pauseAll | .enableDialog _ | .disableDialog _ | .resumeDialog _ =>
    .isTrue trivial

/-! ## Settlements -/

/-- A settled message leaves its dialog paused: the row was not enabled, or not active at the
reading of the clock, or is paused from there on for as long as the engine is told to. -/
def Settlement.Justified (cfg : Setup) (s : Settlement) : Prop :=
  match s.now with
  | none => s.row.any (·.enabled) = false
  | some now => s.row.any (·.isActive now) = false ∨
      ∃ row, s.row = some row ∧ row.pausedUntil = some (now + cfg.pauseOnHumanSec)

/-- The handling of an event has been settled. -/
def World.Settled (w : World) (e : OutgoingEvent) : Prop := ∃ s, .settled s ∈ w.log ∧ s.event = e

/-- The engine still has to do with an event. -/
def World.Holds (w : World) (e : OutgoingEvent) : Prop :=
  e ∈ (w.sending.get? e.dialogId).getD [] ∨ e ∈ w.incoming.queue ∨
    e ∈ w.outgoing.map Prod.fst

/-- A takeover pauses for the time it is told, and is not over before it has settled its
event. -/
def Takeover.Told (cfg : Setup) (w : World) (e : OutgoingEvent) : Takeover → Prop
  | .enabledQuery answer => answer = some false → w.Settled e
  | .activeQuery now answer => ∀ c ∈ answer, c.now = now ∧ (c.active = false → w.Settled e)
  | .pausing c pausedUntil done =>
    pausedUntil = c.now + cfg.pauseOnHumanSec ∧ (done = true → w.Settled e)

/-- What is looked at came from the dialog, and is of a human, or the reply itself. -/
def Progress.Told (cfg : Setup) (w : World) : Progress → Prop
  | .sending m _ id => ∀ i ∈ id, (m.dialogId, i) ∈ w.own
  | .deferred m _ own e takeover rest =>
    (∀ i ∈ own, (m.dialogId, i) ∈ w.own) ∧
    (∀ e' ∈ rest, e'.dialogId = m.dialogId ∧ (e' ∈ w.human ∨ own = some e'.messageId)) ∧
    e ∈ w.human ∧ takeover.Told cfg w e
  | _ => True

/-- Every message is told for what it is. -/
structure Told (cfg : Setup) (table : Dialogs) (w : World) : Prop where
  apart : ∀ e ∈ w.human, e.key ∉ w.own
  remembered : ∀ k, w.ownSent.contains k = true → k ∈ w.own
  peer : ∀ d, (w.sending.get? d).isSome = true ↔ w.incoming.peer = some d
  kept : ∀ d, ∀ e ∈ (w.sending.get? d).getD [],
    e.dialogId = d ∧ (e ∈ w.human ∨ w.incoming.delivered = some e.key)
  incoming : w.incoming.Told cfg w
  outgoing : ∀ o ∈ w.outgoing, o.1 ∈ w.human ∧ o.2.Told cfg w o.1
  settled : ∀ s, .settled s ∈ w.log → s.event ∈ w.human ∧ s.Justified cfg
  handled : ∀ e ∈ w.human, w.Holds e ∨ w.Settled e
  /-- A pause was there at the start, or is of `pause_all`, or of a message of a human. -/
  paused : ∀ d row t, w.dialogs.get? d = some row → row.pausedUntil = some t →
    (∃ row₀, table.get? d = some row₀ ∧ row₀.pausedUntil = some t) ∨ t = pauseForever ∨
      ∃ s, .settled s ∈ w.log ∧ s.event.dialogId = d

/-! ## What the pieces do -/

namespace World

variable {cfg : Setup} {w w' : World}

theorem Settled.mono {e : OutgoingEvent} (h : w.Settled e) (hlog : w.log ⊆ w'.log) :
    w'.Settled e := by
  obtain ⟨s, hs, he⟩ := h
  exact ⟨s, hlog hs, he⟩

end World

theorem Takeover.Told.mono {cfg : Setup} {w w' : World} {e : OutgoingEvent} {t : Takeover}
    (h : t.Told cfg w e) (hlog : w.log ⊆ w'.log) : t.Told cfg w' e := by
  cases t with
  | enabledQuery answer => exact fun hfalse ↦ (h hfalse).mono hlog
  | activeQuery now answer =>
    intro c hc
    exact ⟨(h c hc).1, fun hfalse ↦ ((h c hc).2 hfalse).mono hlog⟩
  | pausing c pausedUntil done => exact ⟨h.1, fun hdone ↦ (h.2 hdone).mono hlog⟩

theorem Progress.Told.mono {cfg : Setup} {w w' : World} {p : Progress} (h : p.Told cfg w)
    (hlog : w.log ⊆ w'.log) (hown : w.own ⊆ w'.own) (hhuman : w.human ⊆ w'.human) :
    p.Told cfg w' := by
  cases p with
  | sending m reply id => exact fun i hi ↦ hown (h i hi)
  | deferred m reply own e takeover rest =>
    obtain ⟨hid, hrest, he, htakeover⟩ := h
    refine ⟨fun i hi ↦ hown (hid i hi), ?_, hhuman he, htakeover.mono hlog⟩
    intro e' he'
    exact ⟨(hrest e' he').1, (hrest e' he').2.imp_left (@hhuman _)⟩
  | idle | checking | suggesting | rechecking | journaling => exact trivial

/-- A takeover that begins has nothing to show. -/
theorem Takeover.told_start (cfg : Setup) (w w' : World) (dialogId : ℤ) (now : Time)
    (e : OutgoingEvent) : (w'.startTakeover dialogId now).Told cfg w e := by
  rw [World.startTakeover]
  split_ifs
  · intro c hc
    cases hc
  · intro hfalse
    cases hfalse

/-- What was put aside is skipped up to the next message of a human. -/
theorem World.handleDeferred_told (cfg : Setup) {w : World} {m : Incoming} {own : Option ℤ}
    (hown : ∀ i ∈ own, (m.dialogId, i) ∈ w.own) (reply : String) (now : Time)
    {events : List OutgoingEvent}
    (hevents : ∀ e ∈ events, e.dialogId = m.dialogId ∧ (e ∈ w.human ∨ own = some e.messageId)) :
    ∃ p, w.handleDeferred m reply own now events = { w with incoming := p } ∧ p.peer = none ∧
      p.Told cfg w ∧ ∀ e ∈ events, e.key ∉ w.own → e ∈ p.queue := by
  induction events with
  | nil =>
    refine ⟨_, rfl, ?_, ?_, fun e he ↦ absurd he List.not_mem_nil⟩
    · split_ifs <;> rfl
    · split_ifs <;> exact trivial
  | cons e rest ih =>
    obtain ⟨hdialog, he⟩ := hevents e List.mem_cons_self
    have hrest := fun e' he' ↦ hevents e' (List.mem_cons_of_mem _ he')
    rw [World.handleDeferred]
    split_ifs with hskip
    · -- The reply itself is no message of a human.
      obtain ⟨p, heq, hpeer, hp, hqueue⟩ := ih hrest
      refine ⟨p, heq, hpeer, hp, ?_⟩
      intro e' he' hkey
      rcases List.mem_cons.mp he' with rfl | he'
      · rw [OutgoingEvent.key, hdialog] at hkey
        exact absurd (hown _ hskip) hkey
      · exact hqueue e' he' hkey
    · refine ⟨_, rfl, rfl, ⟨hown, hrest, he.resolve_right hskip, ?_⟩, fun e' he' _ ↦ he'⟩
      exact Takeover.told_start ..

namespace Told

variable {cfg : Setup} {table : Dialogs} {w w' : World}

/-- What the messages are told by is unchanged. -/
theorem same (h : Told cfg table w) (enabledDialogs : List ℤ)
    (rate : OrderedDict ℤ (List Time)) (calls : ℕ) (now : Time) (killed : ℤ → Bool)
    (awaited : List Key) :
    Told cfg table { w with enabledDialogs, rate, calls, now, killed, awaited } where
  apart := h.apart
  remembered := h.remembered
  peer := h.peer
  kept := h.kept
  incoming := h.incoming.mono (fun _ ↦ id) (fun _ ↦ id) (fun _ ↦ id)
  outgoing o ho := ⟨(h.outgoing o ho).1, (h.outgoing o ho).2.mono fun _ ↦ id⟩
  settled := h.settled
  handled := h.handled
  paused := h.paused

/-- The incoming task goes on, away from sending. -/
theorem goTo (h : Told cfg table w) {p : Progress} (hpeer : w.incoming.peer = none)
    (hpeer' : p.peer = none) (hp : p.Told cfg w)
    (hkeep : ∀ e ∈ w.human, e ∈ w.incoming.queue → e ∈ p.queue ∨ w.Settled e) :
    Told cfg table { w with incoming := p } where
  apart := h.apart
  remembered := h.remembered
  peer d := by rw [h.peer, hpeer, hpeer']
  kept d e he := by
    have hkept := h.kept d e he
    rw [Progress.delivered_of_peer hpeer] at hkept
    exact ⟨hkept.1, .inl (hkept.2.resolve_right fun h ↦ nomatch h)⟩
  incoming := hp.mono (fun _ ↦ id) (fun _ ↦ id) (fun _ ↦ id)
  outgoing o ho := ⟨(h.outgoing o ho).1, (h.outgoing o ho).2.mono fun _ ↦ id⟩
  settled := h.settled
  handled e he := by
    rcases h.handled e he with (hsending | hqueue | houtgoing) | hsettled
    · exact .inl (.inl hsending)
    · exact (hkeep e he hqueue).imp_left fun h ↦ .inr (.inl h)
    · exact .inl (.inr (.inr houtgoing))
    · exact .inr hsettled
  paused := h.paused

/-- The incoming task goes on, with no event at hand before and after. -/
theorem goCalm (h : Told cfg table w) (hcalm : w.incoming.Calm) {p : Progress} (hp : p.Calm) :
    Told cfg table { w with incoming := p } := by
  refine h.goTo hcalm.peer hp.peer ?_ ?_
  · cases p with
    | sending => cases hp.peer
    | deferred => cases hp.queue
    | idle | checking | suggesting | rechecking | journaling => exact trivial
  · rw [hcalm.queue]
    exact fun e _ he ↦ absurd he List.not_mem_nil

/-- The outgoing task goes on. -/
theorem watch (h : Told cfg table w) {o : Option (OutgoingEvent × Takeover)}
    (ho : ∀ x ∈ o, x.1 ∈ w.human ∧ x.2.Told cfg w x.1)
    (hkeep : ∀ e ∈ w.outgoing.map Prod.fst, e ∈ o.map Prod.fst ∨ w.Settled e) :
    Told cfg table { w with outgoing := o } where
  apart := h.apart
  remembered := h.remembered
  peer := h.peer
  kept := h.kept
  incoming := h.incoming.mono (fun _ ↦ id) (fun _ ↦ id) (fun _ ↦ id)
  outgoing x hx := ⟨(ho x hx).1, (ho x hx).2.mono fun _ ↦ id⟩
  settled := h.settled
  handled e he := by
    rcases h.handled e he with (hsending | hqueue | houtgoing) | hsettled
    · exact .inl (.inl hsending)
    · exact .inl (.inr (.inl hqueue))
    · exact (hkeep e houtgoing).imp_left fun h ↦ .inr (.inr h)
    · exact .inr hsettled
  paused := h.paused

/-- The log grows, and the table changes. -/
theorem write (h : Told cfg table w) {dialogs : Dialogs} {log : List Action} (hlog : w.log ⊆ log)
    (hsettled : ∀ s, .settled s ∈ log →
      .settled s ∈ w.log ∨ s.event ∈ w.human ∧ s.Justified cfg)
    (hpaused : ∀ d row t, dialogs.get? d = some row → row.pausedUntil = some t →
      (∃ row', w.dialogs.get? d = some row' ∧ row'.pausedUntil = some t) ∨ t = pauseForever ∨
        ∃ s, .settled s ∈ log ∧ s.event.dialogId = d) :
    Told cfg table { w with dialogs, log } where
  apart := h.apart
  remembered := h.remembered
  peer := h.peer
  kept := h.kept
  incoming := h.incoming.mono hlog (fun _ ↦ id) (fun _ ↦ id)
  outgoing o ho := ⟨(h.outgoing o ho).1, (h.outgoing o ho).2.mono hlog⟩
  settled s hs := (hsettled s hs).elim (h.settled s) id
  handled e he := (h.handled e he).imp_right fun hsettled ↦ hsettled.mono hlog
  paused d row t hrow ht := by
    rcases hpaused d row t hrow ht with ⟨row', hrow', ht'⟩ | hforever | hnew
    · rcases h.paused d row' t hrow' ht' with hold | hforever | ⟨s, hs, hd⟩
      · exact .inl hold
      · exact .inr (.inl hforever)
      · exact .inr (.inr ⟨s, hlog hs, hd⟩)
    · exact .inr (.inl hforever)
    · exact .inr (.inr hnew)

/-- The table changes, and gets no pause but `PAUSE_FOREVER`. -/
theorem setDialogs (h : Told cfg table w) {dialogs : Dialogs} (killed : ℤ → Bool)
    (hpaused : ∀ d t, dialogs.pause d = some t →
      w.dialogs.pause d = some t ∨ t = pauseForever) :
    Told cfg table { w with dialogs, killed } := by
  have hkilled := h.same w.enabledDialogs w.rate w.calls w.now killed w.awaited
  refine hkilled.write (fun _ ↦ id) (fun _ ↦ .inl) fun d row t hrow ht ↦ ?_
  have hnew := hpaused d t (Dialogs.pause_eq_some_iff.mpr ⟨row, hrow, ht⟩)
  exact hnew.imp Dialogs.pause_eq_some_iff.mp .inl

/-- An action that is no settlement. -/
theorem act (h : Told cfg table w) {a : Action} (ha : ∀ s, a ≠ .settled s) :
    Told cfg table (w.act a) := by
  refine h.write (List.subset_cons_self ..) ?_ ?_
  · intro s hs
    rcases List.mem_cons.mp hs with heq | hs
    · exact absurd heq.symm (ha s)
    · exact .inl hs
  · intro d row t hrow ht
    exact .inl ⟨row, hrow, ht⟩

theorem settle (h : Told cfg table w) {e : OutgoingEvent} (he : e ∈ w.human) {now : Option Time}
    (hjustified : Settlement.Justified cfg ⟨e, now, w.dialogs.get? e.dialogId⟩) :
    Told cfg table (w.settle e now) := by
  refine h.write (List.subset_cons_self ..) ?_ ?_
  · intro s hs
    rcases List.mem_cons.mp hs with heq | hs
    · obtain rfl := Action.settled.inj heq
      exact .inr ⟨he, hjustified⟩
    · exact .inl hs
  · intro d row t hrow ht
    exact .inl ⟨row, hrow, ht⟩

/-! ### Takeovers -/

/-- What a task takes over for is a message of a human. -/
theorem taking (h : Told cfg table w) {task : Task} {e : OutgoingEvent} {takeover : Takeover}
    (htaking : w.taking task = some (e, takeover)) : e ∈ w.human ∧ takeover.Told cfg w e := by
  cases task with
  | outgoing => exact h.outgoing _ htaking
  | incoming =>
    unfold World.taking at htaking
    dsimp only at htaking
    split at htaking
    · rename_i m reply own e t rest hdeferred
      obtain ⟨rfl, rfl⟩ := Prod.mk.inj (Option.some.inj htaking)
      have htold := h.incoming
      rw [hdeferred] at htold
      exact htold.2.2
    · cases htaking

theorem performTakeover (h : Told cfg table w) {e : OutgoingEvent} (he : e ∈ w.human)
    {takeover : Takeover} (ht : takeover.Told cfg w e) {r : World × Takeover}
    (hr : w.performTakeover e takeover = some r) : Told cfg table r.1 ∧ r.2.Told cfg r.1 e := by
  have hsettled (w : World) (now : Option Time) : (w.settle e now).Settled e :=
    ⟨_, List.mem_cons_self, rfl⟩
  unfold World.performTakeover at hr
  split at hr
  · obtain rfl := Option.some.inj hr
    dsimp only
    split_ifs with henabled
    · refine ⟨h, ?_⟩
      intro hfalse
      exact nomatch henabled.symm.trans (Option.some.inj hfalse)
    · exact ⟨h.settle he (eq_false_of_ne_true henabled), fun _ ↦ hsettled ..⟩
  · rename_i now
    obtain rfl := Option.some.inj hr
    have hchecked : Told cfg table (w.act (.checked (w.check e.dialogId now))) :=
      h.act fun s hs ↦ nomatch hs
    dsimp only
    split_ifs with hactive
    · refine ⟨hchecked, ?_⟩
      rintro c hc
      obtain rfl := Option.some.inj hc
      exact ⟨rfl, fun hfalse ↦ nomatch hactive.symm.trans hfalse⟩
    · refine ⟨hchecked.settle he (.inl (eq_false_of_ne_true hactive)), ?_⟩
      rintro c hc
      obtain rfl := Option.some.inj hc
      exact ⟨rfl, fun _ ↦ hsettled ..⟩
  · rename_i c pausedUntil
    obtain rfl := Option.some.inj hr
    refine ⟨?_, ht.1, fun _ ↦ hsettled ..⟩
    have hrow (d : ℤ) : (w.dialogs.pauseDialog e.dialogId pausedUntil).get? d =
        if d = e.dialogId then (w.dialogs.get? e.dialogId).map fun row ↦
          { row with pausedUntil := some pausedUntil } else w.dialogs.get? d :=
      Table.get?_update ..
    refine h.write (List.subset_cons_self ..) ?_ ?_
    · intro s hs
      rcases List.mem_cons.mp hs with heq | hs
      · obtain rfl := Action.settled.inj heq
        refine .inr ⟨he, ?_⟩
        dsimp only [Settlement.Justified]
        rw [hrow, if_pos rfl]
        cases w.dialogs.get? e.dialogId with
        | none => exact .inl rfl
        | some row => exact .inr ⟨_, rfl, congrArg some ht.1⟩
      · exact .inl hs
    · intro d row t hrow' ht'
      rw [hrow] at hrow'
      split_ifs at hrow' with hd
      · exact .inr (.inr ⟨_, List.mem_cons_self, hd.symm⟩)
      · exact .inl ⟨row, hrow', ht'⟩
  · cases hr

/-- The takeover of a task moves on. -/
theorem setTaking (h : Told cfg table w) {task : Task} {e : OutgoingEvent}
    {takeover takeover' : Takeover} (htaking : w.taking task = some (e, takeover))
    (ht : takeover'.Told cfg w e) : Told cfg table (w.setTaking task takeover') := by
  cases task with
  | outgoing =>
    rw [World.taking] at htaking
    refine h.watch ?_ ?_
    · rw [htaking]
      rintro x ⟨⟩
      exact ⟨(h.outgoing _ htaking).1, ht⟩
    · rw [htaking]
      exact fun e he ↦ .inl he
  | incoming =>
    unfold World.taking at htaking
    dsimp only at htaking
    split at htaking
    · rename_i m reply own e t rest hdeferred
      obtain ⟨rfl, rfl⟩ := Prod.mk.inj (Option.some.inj htaking)
      have htold := h.incoming
      rw [hdeferred] at htold
      rw [World.setTaking, hdeferred]
      refine h.goTo ?_ rfl ⟨htold.1, htold.2.1, htold.2.2.1, ht⟩ ?_
      · rw [hdeferred]
        rfl
      · rw [hdeferred]
        exact fun e _ he ↦ .inl he
    · cases htaking

/-- The takeover of a task is over. -/
theorem finishTaking (h : Told cfg table w) {task : Task} {e : OutgoingEvent}
    {takeover : Takeover} (htaking : w.taking task = some (e, takeover)) (hsettled : w.Settled e)
    (now : Time) : Told cfg table (w.finishTaking task now) := by
  cases task with
  | outgoing =>
    rw [World.taking] at htaking
    refine h.watch (fun x hx ↦ nomatch hx) ?_
    rw [htaking]
    rintro e' ⟨⟩
    exact .inr hsettled
  | incoming =>
    unfold World.taking at htaking
    dsimp only at htaking
    split at htaking
    · rename_i m reply own e t rest hdeferred
      obtain ⟨rfl, rfl⟩ := Prod.mk.inj (Option.some.inj htaking)
      have htold := h.incoming
      rw [hdeferred] at htold
      rw [World.finishTaking, hdeferred]
      dsimp only
      obtain ⟨p, heq, hpeer, hp, hqueue⟩ :=
        World.handleDeferred_told cfg htold.1 reply now htold.2.1
      rw [heq]
      refine h.goTo ?_ hpeer hp ?_
      · rw [hdeferred]
        rfl
      · rw [hdeferred]
        intro e' hhuman he'
        rcases List.mem_cons.mp he' with rfl | he'
        · exact .inr hsettled
        · exact .inl (hqueue e' he' (h.apart e' hhuman))
    · cases htaking

theorem resumeTakeover (h : Told cfg table w) {task : Task} {e : OutgoingEvent}
    {takeover : Takeover} (htaking : w.taking task = some (e, takeover))
    (ht : takeover.Told cfg w e) {now : Time} {r : World × Option Takeover}
    (hr : World.resumeTakeover cfg w e.dialogId now takeover = some r) :
    Told cfg table (r.1.goOn task now r.2) := by
  unfold World.resumeTakeover at hr
  split at hr
  · obtain rfl := Option.some.inj hr
    have hmoved : Told cfg table { w with enabledDialogs := e.dialogId :: w.enabledDialogs } :=
      h.same _ w.rate w.calls w.now w.killed w.awaited
    have htaking' : World.taking { w with enabledDialogs := e.dialogId :: w.enabledDialogs } task =
        some (e, .enabledQuery (some true)) := htaking
    exact hmoved.setTaking htaking' fun c hc ↦ nomatch hc
  · obtain rfl := Option.some.inj hr
    exact h.finishTaking htaking (ht rfl) now
  · rename_i t c
    obtain rfl := Option.some.inj hr
    obtain ⟨hnow, hsettled⟩ := ht c rfl
    dsimp only
    split_ifs with hactive
    · exact h.setTaking htaking ⟨congrArg (· + _) hnow.symm, fun h ↦ nomatch h⟩
    · exact h.finishTaking htaking (hsettled (eq_false_of_ne_true hactive)) now
  · obtain rfl := Option.some.inj hr
    exact h.finishTaking htaking (ht.2 rfl) now
  · cases hr

/-! ### Echoes and messages of humans -/

/-- An event of the dialog a reply is being sent to is put aside. -/
theorem putAside (h : Told cfg table w) {e : OutgoingEvent} {events human : List OutgoingEvent}
    (hsending : w.sending.get? e.dialogId = some events) (hsub : w.human ⊆ human)
    (hnew : ∀ x ∈ human, x ∈ w.human ∨ x = e) (hapart : ∀ x ∈ human, x.key ∉ w.own)
    (he : e ∈ human ∨ w.incoming.delivered = some e.key) :
    Told cfg table { w with human, sending := w.sending.set e.dialogId (events ++ [e]) } where
  apart := hapart
  remembered := h.remembered
  peer d := by
    rw [OrderedDict.get?_set, ← h.peer]
    split_ifs with hd
    · rw [hd, hsending]
      rfl
    · exact Iff.rfl
  kept d e' he' := by
    rw [OrderedDict.get?_set] at he'
    split_ifs at he' with hd
    · subst hd
      rcases List.mem_append.mp he' with he' | he'
      · obtain ⟨hdialog, hkind⟩ := h.kept e.dialogId e' (by rw [hsending]; exact he')
        exact ⟨hdialog, hkind.imp_left (@hsub _)⟩
      · obtain rfl := List.mem_singleton.mp he'
        exact ⟨rfl, he⟩
    · exact ⟨(h.kept d e' he').1, (h.kept d e' he').2.imp_left (@hsub _)⟩
  incoming := h.incoming.mono (fun _ ↦ id) (fun _ ↦ id) hsub
  outgoing o ho := ⟨hsub (h.outgoing o ho).1, (h.outgoing o ho).2.mono fun _ ↦ id⟩
  settled s hs := ⟨hsub (h.settled s hs).1, (h.settled s hs).2⟩
  handled e' he' := by
    have hmem : e' ∈ (w.sending.get? e'.dialogId).getD [] ∨ e' = e →
        e' ∈ ((w.sending.set e.dialogId (events ++ [e])).get? e'.dialogId).getD [] := by
      intro hkept
      rw [OrderedDict.get?_set]
      split_ifs with hd
      · refine List.mem_append.mpr (hkept.imp (fun hkept ↦ ?_) List.mem_singleton.mpr)
        rw [hd, hsending] at hkept
        exact hkept
      · exact hkept.resolve_right fun heq ↦ hd (congrArg _ heq)
    rcases hnew e' he' with he' | heq
    · rcases h.handled e' he' with (hkept | hheld) | hsettled
      · exact .inl (.inl (hmem (.inl hkept)))
      · exact .inl (.inr hheld)
      · exact .inr hsettled
    · exact .inl (.inl (hmem (.inr heq)))
  paused := h.paused

/-- An echo that comes in time is skipped, or put aside with its own reply. -/
theorem echo (h : Told cfg table w) {e : OutgoingEvent}
    (hok : w.incoming.delivered = some e.key ∨
      w.sending.get? e.dialogId = none ∧ w.ownSent.contains e.key = true) (now : Time) :
    Told cfg table (w.onOutgoing e now) := by
  rw [World.onOutgoing]
  split
  · rename_i events hsending
    refine h.putAside hsending (fun _ ↦ id) (fun _ ↦ .inl) h.apart (.inr ?_)
    exact hok.resolve_right fun hno ↦ by cases hno.1.symm.trans hsending
  · rename_i hnone
    have hcontains : w.ownSent.contains e.key = true := by
      rcases hok with hdelivered | hcached
      · have hpeer := (h.peer e.dialogId).mpr (Progress.peer_of_delivered hdelivered)
        rw [hnone] at hpeer
        cases hpeer
      · exact hcached.2
    rw [if_pos hcontains]
    refine ⟨h.apart, ?_, h.peer, h.kept, h.incoming.mono (fun _ ↦ id) (fun _ ↦ id) (fun _ ↦ id),
      ?_, h.settled, h.handled, h.paused⟩
    · intro k hk
      rw [OrderedDict.contains, OrderedDict.get?_erase] at hk
      split_ifs at hk
      · cases hk
      · exact h.remembered k hk
    · intro o ho
      exact ⟨(h.outgoing o ho).1, (h.outgoing o ho).2.mono fun _ ↦ id⟩

/-- A message of a human is put aside, or begins a takeover. -/
theorem human (h : Told cfg table w) {e : OutgoingEvent} (hown : e.key ∉ w.own)
    (houtgoing : w.outgoing = none) (now : Time) :
    Told cfg table (World.onOutgoing { w with human := e :: w.human } e now) := by
  have hapart : ∀ x ∈ e :: w.human, x.key ∉ w.own := by
    intro x hx
    rcases List.mem_cons.mp hx with rfl | hx
    · exact hown
    · exact h.apart x hx
  rw [World.onOutgoing]
  split
  · rename_i events hsending
    refine h.putAside hsending (List.subset_cons_self ..) ?_ hapart (.inl List.mem_cons_self)
    intro x hx
    exact (List.mem_cons.mp hx).symm
  · have hcontains : ¬w.ownSent.contains e.key = true := fun hcontains ↦
      hown (h.remembered _ hcontains)
    rw [if_neg hcontains]
    have hsub : w.human ⊆ e :: w.human := List.subset_cons_self ..
    refine ⟨hapart, h.remembered, h.peer, ?_, h.incoming.mono (fun _ ↦ id) (fun _ ↦ id) hsub,
      ?_, ?_, ?_, h.paused⟩
    · intro d e' he'
      exact ⟨(h.kept d e' he').1, (h.kept d e' he').2.imp_left (@hsub _)⟩
    · rintro o ⟨⟩
      exact ⟨List.mem_cons_self, Takeover.told_start ..⟩
    · intro s hs
      exact ⟨hsub (h.settled s hs).1, (h.settled s hs).2⟩
    · intro e' he'
      rcases List.mem_cons.mp he' with rfl | he'
      · exact .inl (.inr (.inr rfl))
      · rcases h.handled e' he' with (hkept | hqueue | hout) | hsettled
        · exact .inl (.inl hkept)
        · exact .inl (.inr (.inl hqueue))
        · rw [houtgoing] at hout
          cases hout
        · exact .inr hsettled

/-- The reply has its id, or has failed. -/
theorem endSending (h : Told cfg table w) {m : Incoming} {reply : String} {own : Option ℤ}
    (hsending : w.incoming = .sending m reply own) (now : Time) :
    Told cfg table (w.endSending m reply own now) := by
  have hown : ∀ i ∈ own, (m.dialogId, i) ∈ w.own := by
    have htold := h.incoming
    rw [hsending] at htold
    exact htold
  have hpeer (d : ℤ) : (w.sending.get? d).isSome = true ↔ m.dialogId = d := by
    rw [h.peer, hsending]
    exact Option.some_inj
  have hevents : ∀ e ∈ (w.sending.get? m.dialogId).getD [],
      e.dialogId = m.dialogId ∧ (e ∈ w.human ∨ own = some e.messageId) := by
    intro e he
    obtain ⟨hdialog, hkind⟩ := h.kept m.dialogId e he
    refine ⟨hdialog, hkind.imp_right fun hdelivered ↦ ?_⟩
    rw [hsending] at hdelivered
    cases own with
    | none => cases hdelivered
    | some id => exact congrArg (fun k : Key ↦ some k.2) (Option.some.inj hdelivered)
  obtain ⟨p, heq, hpeer', hp, hqueue⟩ := World.handleDeferred_told cfg
    (w := { w with sending := w.sending.erase m.dialogId }) hown reply now hevents
  have hnone (d : ℤ) : (w.sending.erase m.dialogId).get? d = none := by
    rw [OrderedDict.get?_erase]
    split_ifs with hd
    · rfl
    · exact Option.not_isSome_iff_eq_none.mp fun hsome ↦ hd ((hpeer d).mp hsome).symm
  rw [World.endSending, heq]
  refine ⟨h.apart, h.remembered, ?_, ?_, hp, ?_, h.settled, ?_, h.paused⟩
  · intro d
    rw [hnone, hpeer']
    exact Iff.intro (fun h ↦ by cases h) (fun h ↦ by cases h)
  · intro d e he
    rw [hnone] at he
    exact absurd he List.not_mem_nil
  · intro o ho
    exact ⟨(h.outgoing o ho).1, (h.outgoing o ho).2.mono fun _ ↦ id⟩
  · intro e he
    rcases h.handled e he with (hkept | hin | hout) | hsettled
    · refine .inl (.inr (.inl (hqueue e ?_ (h.apart e he))))
      have hd : m.dialogId = e.dialogId := by
        refine (hpeer _).mp ?_
        cases hevents : w.sending.get? e.dialogId with
        | none =>
          rw [hevents] at hkept
          exact absurd hkept List.not_mem_nil
        | some events => rfl
      rw [hd]
      exact hkept
    · rw [hsending] at hin
      exact absurd hin List.not_mem_nil
    · exact .inl (.inr (.inr hout))
    · exact .inr hsettled

/-- The cache gets an own id, and forgets the oldest. -/
theorem rememberOwn (h : Told cfg table w) {key : Key} (hkey : key ∈ w.own) :
    Told cfg table (w.rememberOwn cfg key) := by
  refine ⟨h.apart, ?_, h.peer, h.kept, h.incoming.mono (fun _ ↦ id) (fun _ ↦ id) (fun _ ↦ id),
    ?_, h.settled, h.handled, h.paused⟩
  · intro k hk
    obtain ⟨v, hv⟩ := Option.isSome_iff_exists.mp hk
    have hset := OrderedDict.get?_of_iterate_popFirst hv
    rw [OrderedDict.get?_moveToEnd, OrderedDict.get?_set] at hset
    split_ifs at hset with heq
    · exact heq ▸ hkey
    · exact h.remembered k (Option.isSome_iff_exists.mpr ⟨v, hset⟩)
  · intro o ho
    exact ⟨(h.outgoing o ho).1, (h.outgoing o ho).2.mono fun _ ↦ id⟩

/-- A reply is sent. -/
theorem startSending (h : Told cfg table w) (hcalm : w.incoming.Calm) (m : Incoming)
    (reply : String) :
    Told cfg table { w with
      sending := w.sending.set m.dialogId []
      incoming := .sending m reply none } := by
  have hnone (d : ℤ) : w.sending.get? d = none := by
    refine Option.not_isSome_iff_eq_none.mp fun hsome ↦ ?_
    exact nomatch hcalm.peer.symm.trans ((h.peer d).mp hsome)
  have hempty (d : ℤ) : ((w.sending.set m.dialogId []).get? d).getD [] = [] := by
    rw [OrderedDict.get?_set, hnone]
    split_ifs <;> rfl
  refine ⟨h.apart, h.remembered, ?_, ?_, (fun i hi ↦ nomatch hi), ?_, h.settled, ?_,
    h.paused⟩
  · intro d
    rw [OrderedDict.get?_set, hnone]
    split_ifs with hd
    · exact Iff.intro (fun _ ↦ congrArg some hd.symm) (fun _ ↦ rfl)
    · exact Iff.intro (fun h ↦ nomatch h) (fun h ↦ absurd (Option.some.inj h).symm hd)
  · intro d e he
    rw [hempty] at he
    exact absurd he List.not_mem_nil
  · intro o ho
    exact ⟨(h.outgoing o ho).1, (h.outgoing o ho).2.mono fun _ ↦ id⟩
  · intro e he
    rcases h.handled e he with (hkept | hin | hout) | hsettled
    · rw [hnone] at hkept
      exact absurd hkept List.not_mem_nil
    · rw [hcalm.queue] at hin
      exact absurd hin List.not_mem_nil
    · exact .inl (.inr (.inr hout))
    · exact .inr hsettled

/-- Telegram takes the reply that is being sent. -/
theorem deliver (h : Told cfg table w) {m : Incoming} {reply : String}
    (hsending : w.incoming = .sending m reply none) {id : ℤ}
    (hnew : ⟨m.dialogId, id⟩ ∉ w.human) (awaited : List Key) :
    Told cfg table { w with
      incoming := .sending m reply (some id)
      own := (m.dialogId, id) :: w.own
      awaited } := by
  refine ⟨?_, ?_, ?_, ?_, ?_, ?_, h.settled, ?_, h.paused⟩
  · intro e he hkey
    rcases List.mem_cons.mp hkey with hkey | hkey
    · obtain ⟨hd, hid⟩ := Prod.mk.inj hkey
      exact hnew (hd ▸ hid ▸ he)
    · exact h.apart e he hkey
  · exact fun k hk ↦ List.mem_cons_of_mem _ (h.remembered k hk)
  · intro d
    rw [h.peer, hsending]
    rfl
  · intro d e he
    have hkept := h.kept d e he
    rw [hsending] at hkept
    exact ⟨hkept.1, .inl (hkept.2.resolve_right fun h ↦ nomatch h)⟩
  · rintro i ⟨⟩
    exact List.mem_cons_self
  · intro o ho
    exact ⟨(h.outgoing o ho).1, (h.outgoing o ho).2.mono fun _ h ↦ h⟩
  · intro e he
    refine (h.handled e he).imp_left ?_
    rw [World.Holds, World.Holds, hsending]
    exact fun h ↦ h

/-! ### One event -/

theorem performIncoming (h : Told cfg table w) (hs : w.performIncoming = some w') :
    Told cfg table w' := by
  unfold World.performIncoming at hs
  split at hs
  · rename_i m now hchecking
    obtain rfl := Option.some.inj hs
    have hchecked : Told cfg table (w.act (.checked (w.check m.dialogId now))) :=
      h.act fun s hs ↦ nomatch hs
    have hcalm : w.incoming.Calm := by
      rw [hchecking]
      exact ⟨rfl, rfl⟩
    exact hchecked.goCalm hcalm ⟨rfl, rfl⟩
  · rename_i m reply now hrechecking
    obtain rfl := Option.some.inj hs
    have hchecked : Told cfg table (w.act (.checked (w.check m.dialogId now))) :=
      h.act fun s hs ↦ nomatch hs
    have hcalm : w.incoming.Calm := by
      rw [hrechecking]
      exact ⟨rfl, rfl⟩
    exact hchecked.goCalm hcalm ⟨rfl, rfl⟩
  · rename_i m reply dryRun hjournaling
    obtain rfl := Option.some.inj hs
    have hjournaled : Told cfg table (w.act (.journaled m.dialogId m.id reply dryRun)) :=
      h.act fun s hs ↦ nomatch hs
    have hcalm : w.incoming.Calm := by
      rw [hjournaling]
      exact ⟨rfl, rfl⟩
    exact hjournaled.goCalm hcalm ⟨rfl, rfl⟩
  · cases hs

theorem resumeIncoming (h : Told cfg table w) (hs : w.resumeIncoming cfg = some w') :
    Told cfg table w' := by
  rcases World.resumeIncoming_cases hs with
    ⟨m, t, c, hchecking, hcase⟩ | ⟨m, reply, t, c, hrechecking, hcase⟩
  · have hcalm : w.incoming.Calm := by
      rw [hchecking]
      exact ⟨rfl, rfl⟩
    have hrated : Told cfg table { w with rate := (overRateLimit cfg m.dialogId t w.rate).2 } :=
      h.same w.enabledDialogs _ w.calls w.now w.killed w.awaited
    rcases hcase with rfl | ⟨-, -, rfl⟩ | ⟨-, -, rfl⟩
    · exact h.goCalm hcalm ⟨rfl, rfl⟩
    · have hrefused := hrated.act (a := .refused w.calls m.dialogId) fun s hs ↦ nomatch hs
      exact hrefused.goCalm hcalm ⟨rfl, rfl⟩
    · have hadmitted := hrated.act (a := .admitted w.calls m.dialogId t) fun s hs ↦ nomatch hs
      have hasked := hadmitted.act (a := .asked w.calls m.dialogId) fun s hs ↦ nomatch hs
      exact hasked.goCalm hcalm ⟨rfl, rfl⟩
  · have hcalm : w.incoming.Calm := by
      rw [hrechecking]
      exact ⟨rfl, rfl⟩
    rcases hcase with rfl | ⟨-, -, rfl⟩ | ⟨-, -, rfl⟩
    · exact h.goCalm hcalm ⟨rfl, rfl⟩
    · exact h.goCalm hcalm ⟨rfl, rfl⟩
    · have hsent := h.act (a := .sent w.calls m.dialogId c reply) fun s hs ↦ nomatch hs
      exact hsent.startSending hcalm m reply

/-- Time passes. -/
theorem tick (h : Told cfg table w) (now : Time) : Told cfg table { w with now } :=
  h.same w.enabledDialogs w.rate w.calls now w.killed w.awaited

/-- The statement a task waits for takes effect. -/
theorem perform (h : Told cfg table w) {task : Task} (hs : w.step cfg (.perform task) = some w') :
    Told cfg table w' := by
  rcases World.step_perform hs with ⟨e, takeover, r, htaking, hr, rfl⟩ | ⟨rfl, -, hs⟩
  · obtain ⟨he, ht⟩ := h.taking htaking
    obtain ⟨htold, ht'⟩ := h.performTakeover he ht hr
    obtain ⟨dialogs, news, heq, -⟩ := World.performTakeover_eq hr
    have htaking' : r.1.taking task = some (e, takeover) := by
      rw [heq]
      exact htaking
    exact htold.setTaking htaking' ht'
  · exact h.performIncoming hs

/-- A task goes on. -/
theorem resume (h : Told cfg table w) {task : Task} {now : Time}
    (hs : w.step cfg (.resume task now) = some w') : Told cfg table w' := by
  have hmoved := h.tick now
  rcases World.step_resume hs with ⟨e, takeover, r, htaking, hr, rfl⟩ | ⟨rfl, -, hs⟩
  · have htaking' : World.taking { w with now } task = some (e, takeover) := htaking
    exact hmoved.resumeTakeover htaking' (hmoved.taking htaking').2 hr
  · exact hmoved.resumeIncoming hs

/-- `send_text` returns. -/
theorem acked (h : Told cfg table w) {now : Time} (hs : w.step cfg (.acked now) = some w') :
    Told cfg table w' := by
  obtain ⟨m, reply, id, hsending, rfl⟩ := World.step_acked hs
  have hown : (m.dialogId, id) ∈ w.own := by
    have htold := h.incoming
    rw [hsending] at htold
    exact htold id rfl
  exact ((h.tick now).rememberOwn hown).endSending hsending now

theorem step (h : Told cfg table w) {e : Event} (hok : Timely w e) (hs : w.step cfg e = some w') :
    Told cfg table w' := by
  cases e with
  | incoming m now =>
    obtain ⟨hidle, p, hp, rfl⟩ := World.step_incoming hs
    have hcalm : w.incoming.Calm := by
      rw [hidle]
      exact ⟨rfl, rfl⟩
    have hmoved : Told cfg table { w with calls := w.calls + 1, now } :=
      h.same w.enabledDialogs w.rate _ now w.killed w.awaited
    refine hmoved.goCalm hcalm ?_
    rcases hp with rfl | rfl
    · exact ⟨rfl, rfl⟩
    · exact ⟨rfl, rfl⟩
  | outgoing e now =>
    obtain ⟨hnone, ⟨hawaited, rfl⟩ | ⟨-, hown, -, rfl⟩⟩ := World.step_outgoing hs
    · have hmoved : Told cfg table { w with awaited := w.awaited.erase e.key, now } :=
        h.same w.enabledDialogs w.rate w.calls now w.killed _
      exact hmoved.echo (hok hawaited) now
    · exact (h.tick now).human hown hnone now
  | perform task => exact h.perform hs
  | raised task now => exact hok.elim
  | resume task now => exact h.resume hs
  | suggested reply now =>
    obtain ⟨m, p, hsuggesting, hp, rfl⟩ := World.step_suggested hs
    have hcalm : w.incoming.Calm := by
      rw [hsuggesting]
      exact ⟨rfl, rfl⟩
    refine (h.tick now).goCalm hcalm ?_
    rcases hp with rfl | ⟨reply, rfl⟩
    · exact ⟨rfl, rfl⟩
    · exact ⟨rfl, rfl⟩
  | deliver id =>
    obtain ⟨m, reply, hsending, -, hnew, rfl⟩ := World.step_deliver hs
    exact h.deliver hsending hnew _
  | acked now => exact h.acked hs
  | sendFailed now =>
    obtain ⟨m, reply, hsending, rfl⟩ := World.step_sendFailed hs
    exact (h.tick now).endSending hsending now
  | pauseAll =>
    obtain rfl := Option.some.inj hs
    refine h.setDialogs _ fun d t ht ↦ ?_
    rw [Dialogs.pause_pauseAll] at ht
    split_ifs at ht
    · exact .inr (Option.some.inj ht).symm
    · exact .inl ht
  | enableDialog d =>
    obtain rfl := Option.some.inj hs
    refine h.setDialogs _ fun d' t ht ↦ ?_
    rw [Dialogs.pause_enableDialog] at ht
    split_ifs at ht
    exact .inl ht
  | disableDialog d =>
    obtain rfl := Option.some.inj hs
    refine h.setDialogs w.killed fun d' t ht ↦ ?_
    rw [Dialogs.pause_disableDialog] at ht
    exact .inl ht
  | resumeDialog d =>
    obtain rfl := Option.some.inj hs
    refine h.setDialogs _ fun d' t ht ↦ ?_
    rw [Dialogs.pause_resumeDialog] at ht
    split_ifs at ht
    exact .inl ht

end Told

/-! ## Every takeover comes to its end -/

/-- How often a takeover goes on before it is over. -/
def Takeover.remaining : Takeover → ℕ
  | .enabledQuery answer => if answer.isNone then 6 else 5
  | .activeQuery _ answer => if answer.isNone then 4 else 3
  | .pausing _ _ done => if done then 1 else 2

theorem Takeover.remaining_pos (t : Takeover) : 0 < t.remaining := by
  cases t <;> rw [remaining] <;> split_ifs <;> exact Nat.succ_pos _

theorem World.remaining_startTakeover (w : World) (dialogId : ℤ) (now : Time) :
    (w.startTakeover dialogId now).remaining ≤ 6 := by
  rw [startTakeover]
  split_ifs
  · exact Nat.le_add_right 4 2
  · exact le_refl 6

namespace World

variable {cfg : Setup} {w w' : World}

/-- How much the engine has to do with the events it holds. -/
def work (w : World) : ℕ :=
  (w.outgoing.elim 0 fun o ↦ o.2.remaining) +
    match w.incoming with
    | .deferred _ _ _ _ takeover rest => takeover.remaining + 7 * rest.length
    | .sending m _ _ => 7 * ((w.sending.get? m.dialogId).getD []).length + 1
    | _ => 0

theorem work_handleDeferred (w : World) (m : Incoming) (reply : String) (own : Option ℤ)
    (now : Time) (events : List OutgoingEvent) :
    (w.handleDeferred m reply own now events).work ≤
      (w.outgoing.elim 0 fun o ↦ o.2.remaining) + 7 * events.length := by
  induction events with
  | nil =>
    rw [handleDeferred]
    split_ifs <;> exact le_refl _
  | cons e rest ih =>
    rw [handleDeferred]
    split_ifs
    · exact ih.trans (Nat.add_le_add_left (Nat.mul_le_mul_left 7 (Nat.le_succ _)) _)
    · have hstart := w.remaining_startTakeover e.dialogId now
      rw [work, List.length_cons]
      dsimp only
      omega

/-- A statement that a takeover waits for can take effect. -/
theorem performTakeover_of_isPending {e : OutgoingEvent} {t : Takeover} (h : t.isPending = true) :
    ∃ r, w.performTakeover e t = some r ∧ r.2.remaining < t.remaining := by
  cases t with
  | enabledQuery answer =>
    cases answer with
    | none => exact ⟨_, rfl, Nat.lt_succ_self 5⟩
    | some enabled => cases h
  | activeQuery now answer =>
    cases answer with
    | none => exact ⟨_, rfl, Nat.lt_succ_self 3⟩
    | some c => cases h
  | pausing c pausedUntil done =>
    cases done with
    | false => exact ⟨_, rfl, Nat.lt_succ_self 1⟩
    | true => cases h

/-- When it has, the takeover goes on or is over. -/
theorem resumeTakeover_of_not_isPending (cfg : Setup) (w : World) (dialogId : ℤ) (now : Time)
    {t : Takeover} (h : t.isPending = false) :
    ∃ r, resumeTakeover cfg w dialogId now t = some r ∧
      ∀ t' ∈ r.2, t'.remaining < t.remaining := by
  cases t with
  | enabledQuery answer =>
    cases answer with
    | none => cases h
    | some enabled =>
      cases enabled with
      | false => exact ⟨_, rfl, fun t' ht' ↦ nomatch ht'⟩
      | true =>
        refine ⟨_, rfl, ?_⟩
        rintro t' ⟨⟩
        exact Nat.lt_succ_self 4
  | activeQuery t answer =>
    cases answer with
    | none => cases h
    | some c =>
      refine ⟨_, rfl, fun t' ht' ↦ ?_⟩
      dsimp only at ht'
      split_ifs at ht'
      · obtain rfl := Option.some.inj ht'
        exact Nat.lt_succ_self 2
      · cases ht'
  | pausing c pausedUntil done =>
    cases done with
    | false => cases h
    | true => exact ⟨_, rfl, fun t' ht' ↦ nomatch ht'⟩

/-- A task can go on with its takeover. -/
theorem exists_goOn (cfg : Setup) {task : Task} {e : OutgoingEvent} {t : Takeover}
    (h : w.taking task = some (e, t)) : ∃ (ev : Event) (w₁ : World) (o : Option Takeover),
      Timely w ev ∧ w.step cfg ev = some (w₁.goOn task w.now o) ∧ w₁.human = w.human ∧
      w₁.incoming = w.incoming ∧ w₁.outgoing = w.outgoing ∧ w₁.sending = w.sending ∧
      ∀ t' ∈ o, t'.remaining < t.remaining := by
  cases hpending : t.isPending with
  | true =>
    obtain ⟨r, hr, hlt⟩ := performTakeover_of_isPending (w := w) (e := e) hpending
    obtain ⟨dialogs, news, heq, -⟩ := performTakeover_eq hr
    refine ⟨.perform task, r.1, some r.2, trivial, ?_, ?_, ?_, ?_, ?_, ?_⟩
    · unfold step
      dsimp only
      rw [h]
      dsimp only
      rw [hr]
      rfl
    · rw [heq]
    · rw [heq]
    · rw [heq]
    · rw [heq]
    · rintro t' ⟨⟩
      exact hlt
  | false =>
    obtain ⟨r, hr, hlt⟩ := resumeTakeover_of_not_isPending cfg w e.dialogId w.now hpending
    obtain ⟨enabledDialogs, heq⟩ := resumeTakeover_eq hr
    refine ⟨.resume task w.now, r.1, r.2, trivial, ?_, ?_, ?_, ?_, ?_, hlt⟩
    · unfold step
      dsimp only
      rw [h]
      dsimp only
      rw [hr]
      rfl
    · rw [heq]
    · rw [heq]
    · rw [heq]
    · rw [heq]

/-- Something happens that brings the engine nearer to the end, and brings no new message. -/
def Advances (cfg : Setup) (w : World) : Prop :=
  ∃ (ev : Event) (w' : World), Timely w ev ∧ w.step cfg ev = some w' ∧ w'.human = w.human ∧
    w'.work < w.work

/-- The outgoing task goes on with its takeover. -/
theorem advances_of_outgoing (cfg : Setup) {e : OutgoingEvent} {t : Takeover}
    (houtgoing : w.outgoing = some (e, t)) : w.Advances cfg := by
  have htaking : w.taking .outgoing = some (e, t) := houtgoing
  obtain ⟨ev, w₁, o, hok, hs, hhuman, hincoming, hout, hsending, hlt⟩ := exists_goOn cfg htaking
  have hwork : w.work = t.remaining + World.work { w with outgoing := none } := by
    rw [work, work, houtgoing, Option.elim_some, Option.elim_none, Nat.zero_add]
  have hrest : World.work { w₁ with outgoing := none } =
      World.work { w with outgoing := none } := by
    rw [work, work, hincoming, hsending]
  cases o with
  | none =>
    refine ⟨ev, _, hok, hs, hhuman, ?_⟩
    rw [hwork, goOn, finishTaking, hrest]
    exact Nat.lt_add_of_pos_left t.remaining_pos
  | some t' =>
    refine ⟨ev, _, hok, hs, hhuman, ?_⟩
    have hwork' : (w₁.goOn .outgoing w.now (some t')).work =
        t'.remaining + World.work { w₁ with outgoing := none } := by
      rw [goOn, setTaking, hout, houtgoing, work, work, Option.map_some, Option.elim_some,
        Option.elim_none, Nat.zero_add]
    rw [hwork, hwork', hrest]
    exact Nat.add_lt_add_right (hlt t' rfl) _

/-- The reply is acknowledged, or fails. -/
theorem advances_of_sending (cfg : Setup) {m : Incoming} {reply : String} {id : Option ℤ}
    (houtgoing : w.outgoing = none) (hincoming : w.incoming = .sending m reply id) :
    w.Advances cfg := by
  have hwork : w.work = 7 * ((w.sending.get? m.dialogId).getD []).length + 1 := by
    rw [work, houtgoing, hincoming, Option.elim_none, Nat.zero_add]
  have hless (ownSent : OrderedDict Key Unit) :
      (endSending { w with ownSent } m reply id w.now).work < w.work := by
    rw [hwork]
    refine Nat.lt_succ_of_le ((work_handleDeferred ..).trans (le_of_eq ?_))
    rw [houtgoing, Option.elim_none, Nat.zero_add]
  cases id with
  | none =>
    refine ⟨.sendFailed w.now, endSending w m reply none w.now, trivial, ?_, ?_, ?_⟩
    · unfold step
      dsimp only
      rw [hincoming]
      dsimp only
      rw [← hincoming]
    · obtain ⟨p, -, heq⟩ := endSending_eq w m reply none w.now
      rw [heq]
    · exact hless w.ownSent
  | some id =>
    refine ⟨.acked w.now, (w.rememberOwn cfg (m.dialogId, id)).endSending m reply (some id)
      w.now, trivial, ?_, ?_, ?_⟩
    · unfold step
      dsimp only
      rw [hincoming]
      dsimp only
      rw [← hincoming]
    · obtain ⟨p, -, heq⟩ := endSending_eq (w.rememberOwn cfg (m.dialogId, id)) m reply
        (some id) w.now
      rw [heq]
      rfl
    · exact hless _

/-- The incoming task goes on with the takeover for an event that was put aside. -/
theorem advances_of_deferred (cfg : Setup) {m : Incoming} {reply : String} {own : Option ℤ}
    {e : OutgoingEvent} {t : Takeover} {rest : List OutgoingEvent} (houtgoing : w.outgoing = none)
    (hincoming : w.incoming = .deferred m reply own e t rest) : w.Advances cfg := by
  have htaking : w.taking .incoming = some (e, t) := by rw [taking, hincoming]
  obtain ⟨ev, w₁, o, hok, hs, hhuman, hin, hout, -, hlt⟩ := exists_goOn cfg htaking
  rw [hincoming] at hin
  rw [houtgoing] at hout
  have hwork : w.work = t.remaining + 7 * rest.length := by
    rw [work, houtgoing, hincoming, Option.elim_none, Nat.zero_add]
  have hhuman' : (w₁.goOn .incoming w.now o).human = w.human := by
    obtain ⟨p, o', -, heq⟩ := goOn_eq w₁ .incoming w.now o
    rw [heq]
    exact hhuman
  refine ⟨ev, _, hok, hs, hhuman', ?_⟩
  cases o with
  | none =>
    rw [goOn, finishTaking, hin, hwork]
    refine (work_handleDeferred ..).trans_lt ?_
    rw [hout, Option.elim_none, Nat.zero_add]
    exact Nat.lt_add_of_pos_left t.remaining_pos
  | some t' =>
    rw [goOn, setTaking, hin, hwork, work, hout, Option.elim_none, Nat.zero_add]
    exact Nat.add_lt_add_right (hlt t' rfl) _

/-- This is so as long as it holds an event, or waits for its reply. -/
theorem advances (cfg : Setup)
    (h : w.outgoing ≠ none ∨ w.incoming.peer ≠ none ∨ w.incoming.queue ≠ []) :
    w.Advances cfg := by
  cases houtgoing : w.outgoing with
  | some o => exact advances_of_outgoing cfg houtgoing
  | none =>
    cases hincoming : w.incoming with
    | sending m reply id => exact advances_of_sending cfg houtgoing hincoming
    | deferred m reply own e t rest => exact advances_of_deferred cfg houtgoing hincoming
    | idle | checking | suggesting | rechecking | journaling =>
      rw [houtgoing, hincoming] at h
      rcases h with h | h | h
      · exact absurd rfl h
      · exact absurd rfl h
      · exact absurd rfl h

/-- The engine can come to an end with all it holds, with no new message. -/
theorem exists_rest (cfg : Setup) (w : World) : ∃ w',
    Machine.Runs (step cfg) Timely w w' ∧ w'.human = w.human ∧ w'.outgoing = none ∧
      w'.incoming.Calm := by
  induction hn : w.work using Nat.strong_induction_on generalizing w with
  | _ n ih =>
    rcases Classical.em (w.outgoing = none ∧ w.incoming.Calm) with hrest | hbusy
    · exact ⟨w, .refl, rfl, hrest⟩
    · have hbusy' : w.outgoing ≠ none ∨ w.incoming.peer ≠ none ∨ w.incoming.queue ≠ [] := by
        by_contra hno
        rw [not_or, not_or, not_not, not_not, not_not] at hno
        exact hbusy ⟨hno.1, hno.2.1, hno.2.2⟩
      obtain ⟨ev, w₁, hok, hs, hhuman, hlt⟩ := advances cfg hbusy'
      obtain ⟨w', hrun, hhuman', hrest⟩ := ih _ (hn ▸ hlt) w₁ rfl
      exact ⟨w', .head ⟨ev, hok, hs⟩ hrun, hhuman'.trans hhuman, hrest⟩

end World

/-! ## The result -/

/-- In every run in which storage does not fail and the echoes come in time: what the engine
takes over for, and pauses a dialog for, is a message of a human and no message of its own,
and such a message leaves its dialog paused; every message of a human is held or settled, and
the run can go on, with no new message, until all of them are settled. -/
theorem echoes_told {cfg : Setup} {table : Dialogs} {start : Time} {w : World}
    (h : Machine.Runs (World.step cfg) Timely (.init table start) w) :
    (∀ s, .settled s ∈ w.log → s.event ∈ w.human ∧ s.event.key ∉ w.own ∧ s.Justified cfg) ∧
    (∀ d row t, w.dialogs.get? d = some row → row.pausedUntil = some t →
      (∃ row₀, table.get? d = some row₀ ∧ row₀.pausedUntil = some t) ∨ t = pauseForever ∨
        ∃ s, .settled s ∈ w.log ∧ s.event.dialogId = d) ∧
    (∀ e ∈ w.human, w.Holds e ∨ w.Settled e) ∧
    ∃ w', Machine.Runs (World.step cfg) Timely w w' ∧ w'.human = w.human ∧
      ∀ e ∈ w.human, w'.Settled e := by
  have hinit : Told cfg table (.init table start) := by
    refine ⟨?_, ?_, ?_, ?_, trivial, ?_, ?_, ?_, ?_⟩
    · exact fun e he ↦ absurd he List.not_mem_nil
    · exact fun k hk ↦ nomatch hk
    · exact fun d ↦ Iff.intro (fun h ↦ nomatch h) (fun h ↦ nomatch h)
    · exact fun d e he ↦ absurd he List.not_mem_nil
    · exact fun o ho ↦ nomatch ho
    · exact fun s hs ↦ absurd hs List.not_mem_nil
    · exact fun e he ↦ absurd he List.not_mem_nil
    · exact fun d row t hrow ht ↦ .inl ⟨row, hrow, ht⟩
  have htold : Told cfg table w := h.preserves (fun _ _ _ hw hok hs ↦ hw.step hok hs) hinit
  refine ⟨?_, htold.paused, htold.handled, ?_⟩
  · intro s hs
    obtain ⟨hhuman, hjustified⟩ := htold.settled s hs
    exact ⟨hhuman, htold.apart _ hhuman, hjustified⟩
  · obtain ⟨w', hrun, hhuman, hout, hcalm⟩ := w.exists_rest cfg
    have htold' : Told cfg table w' := hrun.preserves (fun _ _ _ hw hok hs ↦ hw.step hok hs) htold
    refine ⟨w', hrun, hhuman, fun e he ↦ ?_⟩
    refine (htold'.handled e (hhuman ▸ he)).resolve_left ?_
    rintro (hkept | hin | ho)
    · have hnone : w'.sending.get? e.dialogId = none :=
        Option.not_isSome_iff_eq_none.mp fun hsome ↦
          nomatch hcalm.peer.symm.trans ((htold'.peer _).mp hsome)
      rw [hnone] at hkept
      exact absurd hkept List.not_mem_nil
    · rw [hcalm.queue] at hin
      exact absurd hin List.not_mem_nil
    · rw [hout] at ho
      exact nomatch ho

/-- A reply and a message of a human with the echo between them: the dialog is paused, and
for the human. -/
theorem echoes_told_of_early_echo : ∃ w,
    Machine.Runs (World.step ⟨true, 6, 86400, 1000, 10000⟩) Timely
      (.init (Dialogs.enableDialog .empty 7) 0) w ∧
    (7, 100) ∈ w.own ∧ w.Settled ⟨7, 101⟩ ∧ ∀ s, .settled s ∈ w.log → s.event.key ∉ w.own := by
  have hexec : ((Machine.guarded (World.step ⟨true, 6, 86400, 1000, 10000⟩) Timely).exec
      (.init (Dialogs.enableDialog .empty 7) 0)
      [.incoming ⟨7, 99, false⟩ 1, .perform .incoming, .resume .incoming 1,
        .suggested (some "hi") 2, .perform .incoming, .resume .incoming 2, .deliver 100,
        .outgoing ⟨7, 100⟩ 3, .outgoing ⟨7, 101⟩ 3, .acked 4, .perform .incoming,
        .resume .incoming 5, .perform .incoming]).any
      (fun w ↦ (7, 100) ∈ w.own ∧
        .settled ⟨⟨7, 101⟩, some 4, some ⟨true, some 86404⟩⟩ ∈ w.log) = true := by
    decide +kernel
  obtain ⟨w, hrun, hown, hsettled⟩ := Machine.exists_run_of_exec hexec
  exact ⟨w, hrun, hown, ⟨_, hsettled, rfl⟩, fun s hs ↦ ((echoes_told hrun).1 s hs).2.1⟩

/-- The echo of a reply that was acknowledged comes while the next reply is being sent to the
dialog, and is taken for a message of a human: no human wrote, and the dialog is paused. -/
theorem echo_taken_for_human : ∃ w,
    Machine.Runs (World.step ⟨true, 6, 86400, 1000, 10000⟩) Machine.anyEvent
      (.init (Dialogs.enableDialog .empty 7) 0) w ∧
    w.own = [(7, 102), (7, 100)] ∧ w.human = [] ∧
    .settled ⟨⟨7, 100⟩, some 6, some ⟨true, some 86406⟩⟩ ∈ w.log ∧
    w.dialogs.isActive 7 7 = false := by
  have hexec : ((Machine.guarded (World.step ⟨true, 6, 86400, 1000, 10000⟩) fun _ _ ↦ True).exec
      (.init (Dialogs.enableDialog .empty 7) 0)
      [.incoming ⟨7, 99, false⟩ 1, .perform .incoming, .resume .incoming 1,
        .suggested (some "hi") 2, .perform .incoming, .resume .incoming 2, .deliver 100,
        .acked 3, .perform .incoming,
        .incoming ⟨7, 101, false⟩ 4, .perform .incoming, .resume .incoming 4,
        .suggested (some "hi") 5, .perform .incoming, .resume .incoming 5,
        .outgoing ⟨7, 100⟩ 5, .deliver 102, .acked 6, .perform .incoming, .resume .incoming 6,
        .perform .incoming]).any
      (fun w ↦ w.own = [(7, 102), (7, 100)] ∧ w.human = [] ∧
        .settled ⟨⟨7, 100⟩, some 6, some ⟨true, some 86406⟩⟩ ∈ w.log ∧
        w.dialogs.isActive 7 7 = false) = true := by
    decide +kernel
  obtain ⟨w, hrun, hw⟩ := Machine.exists_run_of_exec hexec
  exact ⟨w, hrun, hw⟩

end TgMessenger.Ghostwrite
