import TgMessenger.Heartbeat.Service
import Mathlib.Order.Interval.Finset.Nat
import Mathlib.Tactic.Linarith

/-!
# The service does not spam

Everything rests on the records of a plan, which `_record_ping` writes before each send.
`Follows` relates a record to an earlier one of the same plan: they are an interval and the
jitter of the earlier one apart, and they either belong to the same day, counted up, or to
different days.  The relation composes, so it is enough to compare a new record with the
last one, which is what the row of the plan holds.
-/

namespace TgMessenger.Heartbeat

variable {localHour : Time → ℕ}

/-! ## Records of one plan -/

namespace Record

/-- The jitter a record stores. -/
def jitter (r : Record) : Time := r.nextJitterSec.getD 0

/-- What a record says of itself, for the settings of its plan. -/
structure Fits (plan : Settings) (r : Record) : Prop where
  counted : 1 ≤ r.pingsToday
  capped : r.pingsToday ≤ plan.maxPerDay
  started : r.now < r.dayStart + daySec
  jitter_nonneg : 0 ≤ r.jitter

/-- What a record says of an earlier one. -/
structure Follows (plan : Settings) (later earlier : Record) : Prop where
  spaced : earlier.now + plan.intervalHours * 3600 + earlier.jitter ≤ later.now
  day : later.dayStart = earlier.dayStart ∧ earlier.pingsToday < later.pingsToday ∨
    earlier.dayStart + daySec ≤ later.dayStart ∧ earlier.now < later.dayStart ∧
      later.dayStart ≤ later.now

variable {plan : Settings} {r r' r'' : Record}

theorem Follows.now_lt (h : Follows plan r r') (hfits : r'.Fits plan) : r'.now < r.now := by
  have hspaced := h.spaced
  have hinterval := plan.interval_pos
  have hjitter := hfits.jitter_nonneg
  linarith

theorem Follows.trans (h : Follows plan r r') (h' : Follows plan r' r'') (hfits : r'.Fits plan)
    (hfits'' : r''.Fits plan) : Follows plan r r'' := by
  have hnow := h.now_lt hfits
  have hnow' := h'.now_lt hfits''
  have hday : (0 : Time) < daySec := by decide +kernel
  refine ⟨h'.spaced.trans hnow.le, ?_⟩
  rcases h.day with ⟨heq, hlt⟩ | ⟨hnext, hbefore, hstart⟩
  · rcases h'.day with ⟨heq', hlt'⟩ | ⟨hnext', hbefore', hstart'⟩
    · exact .inl ⟨heq.trans heq', hlt'.trans hlt⟩
    · rw [heq]
      exact .inr ⟨hnext', hbefore', hstart'.trans hnow.le⟩
  · rcases h'.day with ⟨heq', hlt'⟩ | ⟨hnext', hbefore', hstart'⟩
    · rw [← heq']
      exact .inr ⟨hnext, hnow'.trans hbefore, hstart⟩
    · refine .inr ⟨?_, hnow'.trans hbefore, hstart⟩
      linarith

/-- Two records of one plan, one of them in the day the other starts or continues, belong to
the same day. -/
theorem Follows.same_day (h : Follows plan r r' ∨ Follows plan r' r)
    (hfrom : r'.dayStart ≤ r.now) (hto : r.now < r'.dayStart + daySec) :
    r.dayStart = r'.dayStart := by
  rcases h with h | h
  · rcases h.day with ⟨heq, -⟩ | ⟨hnext, -, hstart⟩
    · exact heq
    · linarith
  · rcases h.day with ⟨heq, -⟩ | ⟨-, hbefore, -⟩
    · exact heq.symm
    · linarith

end Record

/-- A day has at most as many records as the plan allows. -/
theorem length_day_le {plan : Settings} {rs : List Record}
    (hfits : ∀ r ∈ rs, r.Fits plan) (hrs : rs.Pairwise (Record.Follows plan)) {r : Record}
    (hr : r ∈ rs) :
    (rs.filter fun r' ↦ r.dayStart ≤ r'.now ∧ r'.now < r.dayStart + daySec).length ≤
      plan.maxPerDay := by
  set day := rs.filter fun r' ↦ r.dayStart ≤ r'.now ∧ r'.now < r.dayStart + daySec with hday
  have hmem (r' : Record) (hr' : r' ∈ day) : r' ∈ rs ∧ r'.dayStart = r.dayStart := by
    rw [hday, List.mem_filter, decide_eq_true_eq] at hr'
    obtain ⟨hmem, hfrom, hto⟩ := hr'
    refine ⟨hmem, ?_⟩
    rcases eq_or_ne r' r with rfl | hne
    · rfl
    · have hsymm : Std.Symm fun a b ↦ Record.Follows plan a b ∨ Record.Follows plan b a :=
        ⟨fun _ _ ↦ Or.symm⟩
      have hpair := (hrs.imp fun h ↦ Or.inl h : rs.Pairwise fun a b ↦
        Record.Follows plan a b ∨ Record.Follows plan b a).forall hmem hr hne
      exact Record.Follows.same_day hpair hfrom hto
  have hnodup : (day.map Record.pingsToday).Nodup := by
    refine List.pairwise_map.mpr ((hrs.filter _).imp_of_mem ?_)
    intro a b ha hb h
    rcases h.day with ⟨-, hlt⟩ | ⟨hnext, -, -⟩
    · exact hlt.ne'
    · have heq := (hmem a ha).2.trans (hmem b hb).2.symm
      have hpos : (0 : Time) < daySec := by decide +kernel
      linarith
  have hsub : (day.map Record.pingsToday).toFinset ⊆ Finset.Icc 1 plan.maxPerDay := by
    intro n hn
    obtain ⟨r', hr', rfl⟩ := List.mem_map.mp (List.mem_toFinset.mp hn)
    have hfit := hfits r' (hmem r' hr').1
    exact Finset.mem_Icc.mpr ⟨hfit.counted, hfit.capped⟩
  calc day.length = (day.map Record.pingsToday).toFinset.card := by
        rw [List.toFinset_card_of_nodup hnodup, List.length_map]
    _ ≤ (Finset.Icc 1 plan.maxPerDay).card := Finset.card_le_card hsub
    _ = plan.maxPerDay := by rw [Nat.card_Icc, Nat.add_sub_cancel]

/-! ## The invariant -/

/-- What `is_due` has checked. -/
structure HeartbeatPlan.Due (localHour : Time → ℕ) (row : HeartbeatPlan) (now : Time) : Prop where
  awake : row.isQuiet (localHour now) = false
  room : row.inDay now = true → row.pingsToday < row.maxPerDay
  rested : ∀ lastPingAt ∈ row.lastPingAt,
    lastPingAt + row.intervalHours * 3600 + row.nextJitterSec.getD 0 ≤ now

theorem HeartbeatPlan.due_of_isDue {row : HeartbeatPlan} {now : Time}
    (h : row.isDue localHour now = true) : row.Due localHour now := by
  unfold isDue at h
  split_ifs at h with hquiet hroom
  refine ⟨eq_false_of_ne_true hquiet, ?_, ?_⟩
  · intro hday
    rw [hday, Bool.true_and, decide_eq_true_eq] at hroom
    exact not_le.mp hroom
  · intro lastPingAt hlast
    rw [Option.mem_def.mp hlast] at h
    exact of_decide_eq_true h

namespace HeartbeatPlan

variable {row : HeartbeatPlan} {now : Time}

/-- Either the counter of the day goes on, or a new day starts now. -/
theorem Due.record_cases (h : row.Due localHour now) (tick : ℕ) (peer : ℤ) (rng : Rng) :
    (∃ dayStart, row.dayStart = some dayStart ∧ now < dayStart + daySec ∧
      (row.record tick peer now rng).dayStart = dayStart ∧
      (row.record tick peer now rng).pingsToday = row.pingsToday + 1 ∧
      row.pingsToday < row.maxPerDay) ∨
    (∀ dayStart ∈ row.dayStart, dayStart + daySec ≤ now) ∧
      (row.record tick peer now rng).dayStart = now ∧
      (row.record tick peer now rng).pingsToday = 1 := by
  have hcount : (row.record tick peer now rng).pingsToday =
    if row.inDay now then row.pingsToday + 1 else 1 := rfl
  have hstart : (row.record tick peer now rng).dayStart =
    if row.inDay now then row.dayStart.getD now else now := rfl
  cases hin : row.inDay now with
  | true =>
    obtain ⟨dayStart, hrow, hlt⟩ := (Option.any_eq_true ..).mp hin
    have hlt := of_decide_eq_true hlt
    rw [hin, if_pos rfl] at hcount hstart
    rw [hrow] at hstart
    exact .inl ⟨dayStart, hrow, by linarith, hstart, hcount, h.room hin⟩
  | false =>
    rw [hin, if_neg Bool.false_ne_true] at hcount hstart
    refine .inr ⟨?_, hstart, hcount⟩
    intro dayStart hrow
    rw [inDay, Option.mem_def.mp hrow, Option.any_some, decide_eq_false_iff_not] at hin
    linarith

theorem jitter_record_nonneg (row : HeartbeatPlan) (tick : ℕ) (peer : ℤ) (now : Time) (rng : Rng) :
    0 ≤ (row.record tick peer now rng).jitter := by
  have hnext : (row.record tick peer now rng).nextJitterSec =
    if 0 < row.jitterMinutes then some (rng.draw 0 (row.jitterMinutes * 60)) else none := rfl
  rw [Record.jitter, hnext]
  split_ifs with hpos
  · exact (rng.within 0 _ (by linarith)).1
  · exact le_refl 0

/-- What a plan that is due records fits its settings. -/
theorem Due.fits_record (h : row.Due localHour now) (tick : ℕ) (peer : ℤ) (rng : Rng) :
    (row.record tick peer now rng).Fits row.toSettings := by
  have hday : (0 : Time) < daySec := by decide +kernel
  have hnow : (row.record tick peer now rng).now = now := rfl
  have hone := row.one_le_maxPerDay
  have hjitter := row.jitter_record_nonneg tick peer now rng
  rcases h.record_cases tick peer rng with
    ⟨dayStart, -, hlt, hstart, hcount, hroom⟩ | ⟨-, hstart, hcount⟩
  · exact ⟨by omega, by omega, by rw [hstart]; exact hlt, hjitter⟩
  · exact ⟨by omega, by omega, by rw [hstart, hnow]; linarith, hjitter⟩

end HeartbeatPlan

/-- A row whose plan was `plan` at the start of the run and has these records since. -/
structure RowSound (plan row : HeartbeatPlan) (rs : List Record) (now : Time) : Prop where
  settings : row.toSettings = plan.toSettings
  capped : row.pingsToday ≤ plan.maxPerDay
  fits : ∀ r ∈ rs, r.Fits plan.toSettings ∧ r.now ≤ now
  follows : rs.Pairwise (Record.Follows plan.toSettings)
  /-- The row is as the last record left it. -/
  last : ∀ r ∈ rs.head?, row.lastPingAt = some r.now ∧ row.dayStart = some r.dayStart ∧
    row.pingsToday = r.pingsToday ∧ row.nextJitterSec = r.nextJitterSec
  fresh : rs = [] → row.dayStart = plan.dayStart
  /-- The day the run started in goes on, or is over. -/
  origin : ∀ dayStart ∈ plan.dayStart, ∀ r ∈ rs,
    r.dayStart = dayStart ∨ dayStart + daySec ≤ r.now

namespace RowSound

variable {plan row : HeartbeatPlan} {rs : List Record} {now now' : Time}

theorem mono (h : RowSound plan row rs now) (hle : now ≤ now') : RowSound plan row rs now' where
  settings := h.settings
  capped := h.capped
  fits r hr := ⟨(h.fits r hr).1, (h.fits r hr).2.trans hle⟩
  follows := h.follows
  last := h.last
  fresh := h.fresh
  origin := h.origin

/-- What a plan that is due records follows its last record. -/
theorem follows_record (h : RowSound plan row rs now) (hdue : row.Due localHour now) (tick : ℕ)
    (peer : ℤ) (rng : Rng) {r : Record} (hr : r ∈ rs.head?) :
    (row.record tick peer now rng).Follows plan.toSettings r := by
  obtain ⟨hping, hdayStart, htoday, hnext⟩ := h.last r hr
  have hspaced : r.now + plan.intervalHours * 3600 + r.jitter ≤ now := by
    have hrested := hdue.rested r.now hping
    rw [hnext, h.settings] at hrested
    exact hrested
  refine ⟨hspaced, ?_⟩
  rcases hdue.record_cases tick peer rng with
    ⟨dayStart, hrow, -, hstart, hcount, -⟩ | ⟨hover, hstart, -⟩
  · left
    rw [hrow] at hdayStart
    exact ⟨hstart.trans (Option.some.inj hdayStart), by omega⟩
  · right
    have hbefore : r.now < now := by
      have hinterval := plan.interval_pos
      have hjitter := (h.fits r (List.mem_of_mem_head? hr)).1.jitter_nonneg
      linarith
    rw [hstart]
    exact ⟨hover _ hdayStart, hbefore, le_refl _⟩

/-- A plan that is due stays in the day the run started in, or that day is over. -/
theorem origin_record (h : RowSound plan row rs now) (hdue : row.Due localHour now) (tick : ℕ)
    (peer : ℤ) (rng : Rng) {dayStart : Time} (hd : dayStart ∈ plan.dayStart) :
    (row.record tick peer now rng).dayStart = dayStart ∨ dayStart + daySec ≤ now := by
  -- The day of the row is that of the plan, or the day of the plan is over.
  have hday : row.dayStart = some dayStart ∨ dayStart + daySec ≤ now := by
    cases rs with
    | nil => exact .inl ((h.fresh rfl).trans hd)
    | cons r rs =>
      rcases h.origin dayStart hd r List.mem_cons_self with heq | hover
      · exact .inl ((h.last r rfl).2.1.trans (congrArg some heq))
      · exact .inr (hover.trans (h.fits r List.mem_cons_self).2)
  rcases hday with hday | hover
  · rcases hdue.record_cases tick peer rng with
      ⟨dayStart', hrow, -, hstart, -, -⟩ | ⟨hover, -, -⟩
    · exact .inl (hstart.trans (Option.some.inj (hrow.symm.trans hday)))
    · exact .inr (hover dayStart hday)
  · exact .inr hover

/-- A plan that is due may be recorded. -/
theorem record (h : RowSound plan row rs now) (hdue : row.Due localHour now) (tick : ℕ)
    (peer : ℤ) (rng : Rng) :
    RowSound plan (row.written (row.record tick peer now rng))
      (row.record tick peer now rng :: rs) now := by
  have hfits := hdue.fits_record tick peer rng
  rw [h.settings] at hfits
  refine ⟨h.settings, hfits.capped, ?_, ?_, ?_, nofun, ?_⟩
  · intro r hr
    rcases List.mem_cons.mp hr with rfl | hr
    · exact ⟨hfits, le_refl _⟩
    · exact h.fits r hr
  · refine List.pairwise_cons.mpr ⟨?_, h.follows⟩
    intro r hr
    cases rs with
    | nil => exact absurd hr List.not_mem_nil
    | cons r₀ rs =>
      have hfollows := h.follows_record hdue tick peer rng (r := r₀) rfl
      rcases List.mem_cons.mp hr with rfl | hmem
      · exact hfollows
      · exact hfollows.trans ((List.pairwise_cons.mp h.follows).1 r hmem)
          (h.fits r₀ List.mem_cons_self).1 (h.fits r hr).1
  · intro r hr
    obtain rfl := Option.some.inj hr
    exact ⟨rfl, rfl, rfl, rfl⟩
  · intro dayStart hd r hr
    rcases List.mem_cons.mp hr with rfl | hr
    · exact h.origin_record hdue tick peer rng hd
    · exact h.origin dayStart hd r hr

/-- A day a row had has at most as many records as the plan allows. -/
theorem length_day_le (h : RowSound plan row rs now) {dayStart : Time}
    (hday : plan.dayStart = some dayStart ∨ ∃ r ∈ rs, r.dayStart = dayStart) :
    (rs.filter fun r ↦ dayStart ≤ r.now ∧ r.now < dayStart + daySec).length ≤
      plan.maxPerDay := by
  have hrs (r : Record) (hr : r ∈ rs) := (h.fits r hr).1
  rcases hday with hday | ⟨r, hr, rfl⟩
  · rcases Classical.em
      ((rs.filter fun r ↦ dayStart ≤ r.now ∧ r.now < dayStart + daySec) = []) with hnil | hne
    · rw [hnil]
      exact Nat.zero_le _
    · obtain ⟨r, hr⟩ := List.exists_mem_of_ne_nil _ hne
      obtain ⟨hmem, hin⟩ := List.mem_filter.mp hr
      rcases h.origin dayStart hday r hmem with rfl | hover
      · exact Heartbeat.length_day_le hrs h.follows hmem
      · exact absurd hover (of_decide_eq_true hin).2.not_ge
  · exact Heartbeat.length_day_le hrs h.follows hr

end RowSound

/-! ## The log -/

/-- The record an action stores. -/
def Action.record : Action → Option Record
  | .recorded r => some r
  | _ => none

/-- The records of the pings in a log: of each call of `send_text`, what was stored right
before. -/
def pings : List Action → List Record
  | .sent .. :: .recorded r :: log => r :: pings log
  | _ :: log => pings log
  | [] => []

/-- The records of a plan, latest first. -/
def World.records (w : World) (peer : ℤ) : List Record :=
  (w.log.filterMap Action.record).filter (·.peer = peer)

theorem pings_sublist (log : List Action) : (pings log).Sublist (log.filterMap Action.record) := by
  induction log using pings.induct with
  | case1 tick peer now text r log ih =>
    rw [pings]
    exact ih.cons_cons r
  | case2 action log hne ih =>
    rw [pings]
    · cases hrecord : action.record with
      | none =>
        rw [List.filterMap_cons_none hrecord]
        exact ih
      | some r =>
        rw [List.filterMap_cons_some hrecord]
        exact ih.cons r
    · exact hne
  | case3 => exact List.nil_sublist _

/-- The run is sound so far. -/
structure Sound (localHour : Time → ℕ) (plans : Table ℤ HeartbeatPlan) (w : World) : Prop where
  rows : ∀ peer plan, plans.get? peer = some plan →
    ∃ row, w.plans.get? peer = some row ∧ RowSound plan row (w.records peer) w.now
  known : ∀ peer row, w.plans.get? peer = some row → ∃ plan, plans.get? peer = some plan
  /-- A ping is sent right after it was recorded. -/
  backed : ∀ tick peer now text earlier, .sent tick peer now text :: earlier <:+ w.log →
    ∃ r rest, earlier = .recorded r :: rest ∧ r.tick = tick ∧ r.peer = peer ∧ r.now = now
  awake : ∀ tick peer now text, .sent tick peer now text ∈ w.log →
    ∀ plan, plans.get? peer = some plan → plan.isQuiet (localHour now) = false

namespace Sound

variable {plans : Table ℤ HeartbeatPlan} {w : World} {peer : ℤ} {plan : HeartbeatPlan}

/-- The row of a plan that is due is written. -/
theorem write (h : Sound localHour plans w) (hplan : w.plans.get? peer = some plan)
    (hdue : plan.Due localHour w.now) (rng : Rng) :
    Sound localHour plans (w.write (plan.record w.ticks peer w.now rng)) := by
  set r := plan.record w.ticks peer w.now rng with hr
  have hlookup (k : ℤ) : (w.write r).plans.get? k =
      if k = peer then some (plan.written r) else w.plans.get? k := by
    refine (Table.get?_update ..).trans ?_
    rw [show r.peer = peer from rfl, hplan, Option.map_some]
  have hrecords (k : ℤ) :
      (w.write r).records k = if peer = k then r :: w.records k else w.records k := by
    refine (List.filter_cons ..).trans ?_
    simp only [decide_eq_true_eq]
    rfl
  refine ⟨?_, ?_, ?_, ?_⟩
  · intro k plan₀ hplan₀
    obtain ⟨row, hrow, hsound⟩ := h.rows k plan₀ hplan₀
    rw [hlookup, hrecords]
    rcases eq_or_ne k peer with rfl | hne
    · obtain rfl := Option.some.inj (hplan.symm.trans hrow)
      rw [if_pos rfl, if_pos rfl]
      exact ⟨_, rfl, hsound.record hdue w.ticks k rng⟩
    · rw [if_neg hne, if_neg hne.symm]
      exact ⟨row, hrow, hsound⟩
  · intro k row hrow
    rw [hlookup] at hrow
    split_ifs at hrow with hk
    · rw [hk]
      exact h.known peer plan hplan
    · exact h.known k row hrow
  · intro tick k now text earlier hsuffix
    rcases List.suffix_cons_iff.mp hsuffix with heq | hsuffix
    · cases heq
    · exact h.backed tick k now text earlier hsuffix
  · intro tick k now text hmem
    rcases List.mem_cons.mp hmem with heq | hmem
    · cases heq
    · exact h.awake tick k now text hmem

/-- A recorded ping is sent. -/
theorem send (h : Sound localHour plans w) {r : Record} {rest : List Action}
    (hlog : w.log = .recorded r :: rest) (htick : r.tick = w.ticks) (hpeer : r.peer = peer)
    (hnow : r.now = w.now)
    (hquiet : ∀ plan, plans.get? peer = some plan → plan.isQuiet (localHour w.now) = false)
    (text : String) : Sound localHour plans (w.send peer w.now text) := by
  refine ⟨h.rows, h.known, ?_, ?_⟩
  · intro tick k now text' earlier hsuffix
    rcases List.suffix_cons_iff.mp hsuffix with heq | hsuffix
    · obtain ⟨hsent, rfl⟩ := List.cons.inj heq
      obtain ⟨rfl, rfl, rfl, -⟩ := Action.sent.inj hsent
      exact ⟨r, rest, hlog, htick, hpeer, hnow⟩
    · exact h.backed tick k now text' earlier hsuffix
  · intro tick k now text' hmem
    rcases List.mem_cons.mp hmem with heq | hmem
    · obtain ⟨-, rfl, rfl, -⟩ := Action.sent.inj heq
      exact hquiet
    · exact h.awake tick k now text' hmem

theorem journal (h : Sound localHour plans w) (peer : ℤ) (text : String) :
    Sound localHour plans (w.journal peer text) := by
  refine ⟨h.rows, h.known, ?_, ?_⟩
  · intro tick k now text' earlier hsuffix
    rcases List.suffix_cons_iff.mp hsuffix with heq | hsuffix
    · cases heq
    · exact h.backed tick k now text' earlier hsuffix
  · intro tick k now text' hmem
    rcases List.mem_cons.mp hmem with heq | hmem
    · cases heq
    · exact h.awake tick k now text' hmem

/-- One plan is processed. -/
theorem maybePing (h : Sound localHour plans w) (hplan : w.plans.get? peer = some plan)
    (outside : Outside) :
    Sound localHour plans (w.maybePing localHour outside peer plan w.now) := by
  unfold World.maybePing
  split
  swap
  · exact h
  rename_i hdue
  have hdue := HeartbeatPlan.due_of_isDue hdue
  have hwrite := h.write hplan hdue outside.rng
  have hquiet (plan₀ : HeartbeatPlan) (hplan₀ : plans.get? peer = some plan₀) :
      plan₀.isQuiet (localHour w.now) = false := by
    obtain ⟨row, hrow, hsound⟩ := h.rows peer plan₀ hplan₀
    obtain rfl := Option.some.inj (hplan.symm.trans hrow)
    rw [← hsound.settings]
    exact hdue.awake
  split
  · split
    · split
      · exact hwrite
      · exact h
    · have hsend := hwrite.send rfl rfl (show _ = peer from rfl) rfl hquiet
        (chooseText plan.toSettings outside)
      dsimp only
      split
      · exact hsend
      · exact hsend.journal peer _
  · exact h

end Sound

namespace World

/-- One plan leaves the time and the rows of the others alone. -/
theorem maybePing_frame (localHour : Time → ℕ) (w : World) (outside : Outside) (peer : ℤ)
    (plan : HeartbeatPlan) (now : Time) :
    (w.maybePing localHour outside peer plan now).now = w.now ∧
      ∀ k ≠ peer, (w.maybePing localHour outside peer plan now).plans.get? k = w.plans.get? k := by
  have hwrite (k : ℤ) (hk : k ≠ peer) :
      (w.write (plan.record w.ticks peer now outside.rng)).plans.get? k = w.plans.get? k :=
    (Table.get?_update ..).trans (if_neg hk)
  unfold World.maybePing
  split
  · split
    · split
      · split
        · exact ⟨rfl, hwrite⟩
        · exact ⟨rfl, fun _ _ ↦ rfl⟩
      · dsimp only
        split
        · exact ⟨rfl, hwrite⟩
        · exact ⟨rfl, hwrite⟩
    · exact ⟨rfl, fun _ _ ↦ rfl⟩
  · exact ⟨rfl, fun _ _ ↦ rfl⟩

end World

namespace Sound

variable {plans : Table ℤ HeartbeatPlan} {w w' : World}

theorem init {start : Time}
    (hplans : ∀ peer plan, plans.get? peer = some plan → plan.pingsToday ≤ plan.maxPerDay) :
    Sound localHour plans (.init plans start) where
  rows _ plan hplan :=
    ⟨plan, hplan, rfl, hplans _ plan hplan, fun _ h ↦ absurd h List.not_mem_nil,
      List.Pairwise.nil, nofun, fun _ ↦ rfl, fun _ _ _ h ↦ absurd h List.not_mem_nil⟩
  known _ plan hplan := ⟨plan, hplan⟩
  backed _ _ _ _ _ h := absurd (List.suffix_nil.mp h) (List.cons_ne_nil _ _)
  awake _ _ _ _ h := absurd h List.not_mem_nil

/-- The rest of the plans of a tick are processed. -/
theorem foldl {outside : ℤ → Outside} {now : Time} (es : List (ℤ × HeartbeatPlan))
    (hkeys : (es.map Prod.fst).Nodup) (h : Sound localHour plans w) (hnow : w.now = now)
    (hes : ∀ e ∈ es, w.plans.get? e.1 = some e.2) :
    Sound localHour plans
      (es.foldl (fun w e ↦ w.maybePing localHour (outside e.1) e.1 e.2 now) w) := by
  induction es generalizing w with
  | nil => exact h
  | cons e es ih =>
    rw [List.map_cons, List.nodup_cons] at hkeys
    obtain ⟨hfresh, hkeys⟩ := hkeys
    obtain ⟨hnow', hframe⟩ := w.maybePing_frame localHour (outside e.1) e.1 e.2 now
    subst hnow
    refine ih hkeys (h.maybePing (hes e List.mem_cons_self) _) hnow' ?_
    intro e' he'
    rw [hframe]
    · exact hes e' (List.mem_cons_of_mem _ he')
    · intro heq
      exact hfresh (heq ▸ List.mem_map_of_mem he')

/-- One tick. -/
theorem processPlans (h : Sound localHour plans w) {e : Time × (ℤ → Outside)}
    (hs : w.processPlans localHour e = some w') : Sound localHour plans w' := by
  obtain ⟨hle, hs⟩ := Option.ite_none_right_eq_some.mp hs
  obtain rfl := Option.some.inj hs
  have hstart : Sound localHour plans { w with now := e.1, ticks := w.ticks + 1 } := by
    refine ⟨?_, h.known, h.backed, h.awake⟩
    intro peer plan hplan
    obtain ⟨row, hrow, hsound⟩ := h.rows peer plan hplan
    exact ⟨row, hrow, hsound.mono hle⟩
  refine hstart.foldl _ ?_ rfl ?_
  · exact w.plans.nodup_keys.sublist (List.filter_sublist.map _)
  · intro e' he'
    exact Table.get?_eq_some_iff.mpr (List.mem_filter.mp he').1

end Sound

/-- In every run of ticks, every ping is sent right after a record of it was stored in the
same tick; the pings of a plan are its interval and the stored jitter apart; a day has at
most `max_per_day` of them, and the counter of the day stays within it; and no ping is sent
in quiet hours. -/
theorem pings_are_safe {plans : Table ℤ HeartbeatPlan} {start : Time} {w : World}
    (hplans : ∀ peer plan, plans.get? peer = some plan → plan.pingsToday ≤ plan.maxPerDay)
    (h : Machine.Runs (World.processPlans localHour) Machine.anyEvent (.init plans start) w) :
    (∀ tick peer now text earlier, .sent tick peer now text :: earlier <:+ w.log →
      ∃ r rest, earlier = .recorded r :: rest ∧ r.tick = tick ∧ r.peer = peer ∧ r.now = now) ∧
    ∀ peer plan, plans.get? peer = some plan →
      (((pings w.log).filter (·.peer = peer)).Pairwise fun later earlier ↦
        earlier.now + plan.intervalHours * 3600 + earlier.jitter ≤ later.now) ∧
      (∀ dayStart, plan.dayStart = some dayStart ∨
          (∃ r ∈ w.records peer, r.dayStart = dayStart) →
        (((pings w.log).filter (·.peer = peer)).filter fun r ↦
          dayStart ≤ r.now ∧ r.now < dayStart + daySec).length ≤ plan.maxPerDay) ∧
      (∀ row, w.plans.get? peer = some row → row.pingsToday ≤ plan.maxPerDay) ∧
      ∀ tick now text, .sent tick peer now text ∈ w.log →
        plan.isQuiet (localHour now) = false := by
  have hsound : Sound localHour plans w :=
    h.preserves (fun _ _ _ hw _ hs ↦ hw.processPlans hs) (.init hplans)
  refine ⟨hsound.backed, ?_⟩
  intro peer plan hplan
  obtain ⟨row, hrow, hrows⟩ := hsound.rows peer plan hplan
  have hsub : ((pings w.log).filter (·.peer = peer)).Sublist (w.records peer) :=
    (pings_sublist w.log).filter _
  refine ⟨?_, ?_, ?_, ?_⟩
  · exact (hrows.follows.imp fun h ↦ h.spaced).sublist hsub
  · intro dayStart hstart
    exact (hsub.filter _).length_le.trans (hrows.length_day_le hstart)
  · intro row' hrow'
    obtain rfl := Option.some.inj (hrow.symm.trans hrow')
    exact hrows.capped
  · intro tick now text hmem
    exact hsound.awake tick peer now text hmem plan hplan

/-- A plan for peer 7: every two hours, twice a day, not from 23 to 8. -/
def twiceADay : HeartbeatPlan where
  templates := ["hi"]
  intervalHours := 2
  jitterMinutes := 0
  quietStart := some 23
  quietEnd := some 8
  enabled := true
  maxPerDay := 2
  nonEmpty := List.cons_ne_nil _ _
  interval_pos := by decide +kernel
  jitter_nonneg := le_refl _
  one_le_maxPerDay := by decide
  quietStart_le := by decide
  quietEnd_le := by decide
  lastPingAt := none
  pingsToday := 0
  dayStart := none
  nextJitterSec := none

/-- Nothing fails and the last message is not ours. -/
def calm : Outside where
  lastIsOurs := some false
  provided := none
  rng := ⟨fun a _ ↦ a, fun _ _ h ↦ ⟨le_refl _, h⟩⟩
  record := .stored
  sendFails := false
  journalFails := false

/-- Ticks at 10, 12, 14 and 16 o'clock: two pings. -/
theorem pings_are_safe_of_one_plan : ∃ w, Machine.Runs
    (World.processPlans fun now ↦ (⌊now / 3600⌋ % 24).toNat) Machine.anyEvent
      (.init (Table.empty.upsert 7 twiceADay id) 0) w ∧
    ((pings w.log).map Record.now = [43200, 36000]) ∧
    ∀ row, w.plans.get? 7 = some row → row.pingsToday ≤ 2 := by
  have hexec : (Machine.exec (World.processPlans fun now ↦ (⌊now / 3600⌋ % 24).toNat)
      (.init (Table.empty.upsert 7 twiceADay id) 0)
      [(36000, fun _ ↦ calm), (43200, fun _ ↦ calm), (50400, fun _ ↦ calm),
        (57600, fun _ ↦ calm)]).any (fun w ↦ (pings w.log).map Record.now = [43200, 36000]) := by
    decide +kernel
  obtain ⟨w, hexec, hpings⟩ := (Option.any_eq_true ..).mp hexec
  have hrun := Machine.runs_of_exec (fun _ _ _ ↦ trivial) hexec
  have hplans (peer : ℤ) (plan : HeartbeatPlan)
      (hplan : (Table.empty.upsert 7 twiceADay id).get? peer = some plan) :
      peer = 7 ∧ plan = twiceADay := by
    rw [Table.get?_upsert] at hplan
    split_ifs at hplan with hpeer
    · exact ⟨hpeer, (Option.some.inj hplan).symm⟩
    · cases hplan
  have hsafe := pings_are_safe (fun peer plan hplan ↦ (hplans peer plan hplan).2 ▸ by decide) hrun
  exact ⟨w, hrun, of_decide_eq_true hpings, (hsafe.2 7 twiceADay rfl).2.2.1⟩

end TgMessenger.Heartbeat
