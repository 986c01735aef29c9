import TgMessenger.Moderation.DryRun
import TgMessenger.Data.RateWindow
import TgMessenger.Data.History

/-!
# The rate window

What `_record_rate_window` returns over a whole stream: `Recorded` is a message that it was
called for, with the count that came back.
-/

namespace TgMessenger.Moderation

/-- A message that `_record_rate_window` was called for: when, and what it returned. -/
structure Recorded where
  chatId : ℤ
  senderId : ℤ
  now : Time
  count : ℕ
deriving DecidableEq

/-- The key of the window. -/
def Recorded.key (r : Recorded) : ℤ × ℤ := (r.chatId, r.senderId)

namespace Engine

/-- The call of `_record_rate_window` that an event makes, if it makes one. -/
def recorded (cfg : Setup) (e : Engine) : Event → Option Recorded
  | .message message =>
    if message.dialogId ∈ e.blockedChats then none
    else if (e.rulesForChat cfg message.dialogId).1.any fun rule ↦
        rule.enabled && rule.conditions.maxMessagesPerMinute.isSome then
      some ⟨message.dialogId, message.senderId, cfg.clock e.readings,
        (e.recordRateWindow cfg message.dialogId message.senderId).1⟩
    else none
  | _ => none

/-- The calls of a whole stream, oldest first. -/
def recordings (cfg : Setup) (events : List Event) : List Recorded :=
  (events.foldl (fun (s : Engine × List Recorded) event ↦
    (s.1.handle cfg event, s.2 ++ (s.1.recorded cfg event).toList)) ({}, [])).2

/-- The call is the one that `process_message` makes, and its count is what the rules see. -/
theorem processMessage_of_recorded {cfg : Setup} {e : Engine} {message : Message} {r : Recorded}
    (h : e.recorded cfg (.message message) = some r) :
    r.key = (message.dialogId, message.senderId) ∧
      e.processMessage cfg message =
        ((e.rulesForChat cfg message.dialogId).2.recordRateWindow cfg r.chatId
          r.senderId).2.applyFirst
          cfg (some r.count) message (e.rulesForChat cfg message.dialogId).1 := by
  simp only [recorded] at h
  split at h
  · cases h
  · rename_i hblocked
    split at h
    · rename_i hany
      obtain rfl := Option.some.inj h
      refine ⟨rfl, ?_⟩
      simp only [processMessage, if_neg hblocked, if_pos hany]
      rfl
    · cases h

/-! ## What leaves the windows alone -/

/-- The windows are the same, and the clock went on. -/
structure SameRate (e e' : Engine) : Prop where
  rate : e'.rate = e.rate
  readings : e.readings ≤ e'.readings

namespace SameRate

variable {cfg : Setup} {e e' e'' : Engine}

theorem refl (e : Engine) : SameRate e e := ⟨rfl, le_rfl⟩

theorem trans (h : SameRate e e') (h' : SameRate e' e'') : SameRate e e'' :=
  ⟨h'.rate.trans h.rate, h.readings.trans h'.readings⟩

theorem apply (cfg : Setup) (e : Engine) (rule : ModerationRule) (message : Message) :
    SameRate e (e.apply cfg rule message) := by
  refine List.foldlRecOn _ _ (refl e) ?_
  intro e' h step _
  obtain ⟨journal, calls, heq⟩ := matching_doAction cfg e' rule message step.1 step.2
  rw [heq]
  exact ⟨h.rate, h.readings⟩

theorem newMember (cfg : Setup) (e : Engine) (rule : ModerationRule) (message : Message) :
    SameRate e (e.newMember cfg rule message).2 := by
  unfold Engine.newMember
  cases rule.conditions.fromNewMemberWithinSec with
  | none => exact refl e
  | some within =>
    dsimp only [isNewMember]
    cases e.joined.get? (message.dialogId, message.senderId) with
    | none => exact refl e
    | some joinedAt => exact ⟨rfl, Nat.le_succ _⟩

theorem applyFirst (cfg : Setup) (rateCount : Option ℕ) (message : Message)
    (rules : List ModerationRule) (e : Engine) :
    SameRate e (e.applyFirst cfg rateCount message rules) := by
  induction rules generalizing e with
  | nil => exact refl e
  | cons rule rules ih =>
    rw [Engine.applyFirst]
    split
    · exact ih e
    · dsimp only
      split
      · exact (newMember cfg e rule message).trans (apply cfg _ rule message)
      · exact (newMember cfg e rule message).trans (ih _)

theorem onChatAction (cfg : Setup) (e : Engine) (ev : ChatActionEvent) :
    SameRate e (e.onChatAction cfg ev) := by
  unfold Engine.onChatAction
  split
  · exact ⟨rfl, Nat.le_succ _⟩
  · exact refl e

end SameRate

/-- An event that is not recorded leaves the windows alone. -/
theorem sameRate_of_not_recorded {cfg : Setup} {e : Engine} {event : Event}
    (h : e.recorded cfg event = none) : SameRate e (e.handle cfg event) := by
  cases event with
  | disable chatIds => exact ⟨rfl, le_rfl⟩
  | message message =>
    dsimp only [handle, processMessage]
    simp only [recorded] at h
    split at h
    · rw [if_pos ‹_›]
      exact .refl e
    · split at h
      · cases h
      · rw [if_neg ‹_›, if_neg ‹_›]
        have hrules : SameRate e (e.rulesForChat cfg message.dialogId).2 := ⟨rfl, le_rfl⟩
        exact hrules.trans (SameRate.applyFirst cfg none message _ _)
  | chatAction ev => exact SameRate.onChatAction cfg e ev

/-- A recorded event is one event of the limiter. -/
theorem rate_of_recorded {cfg : Setup} {e : Engine} {event : Event} {r : Recorded}
    (h : e.recorded cfg event = some r) :
    r.now = cfg.clock e.readings ∧
      r.count = (RateWindow.next rateWindowSec e.rate r.key r.now).length ∧
      (e.handle cfg event).rate =
        RateWindow.record rateWindowSec cfg.rateCacheSize e.rate (r.key, r.now) ∧
      e.readings < (e.handle cfg event).readings := by
  cases event with
  | disable chatIds => cases h
  | chatAction ev => cases h
  | message message =>
    obtain ⟨hkey, hprocess⟩ := processMessage_of_recorded h
    have hsame := SameRate.applyFirst cfg (some r.count) message
      (e.rulesForChat cfg message.dialogId).1
      ((e.rulesForChat cfg message.dialogId).2.recordRateWindow cfg r.chatId r.senderId).2
    rw [← hprocess] at hsame
    simp only [recorded] at h
    split at h
    · cases h
    · split at h
      · obtain rfl := Option.some.inj h
        exact ⟨rfl, rfl, hsame.rate, hsame.readings⟩
      · cases h

end Engine

/-! ## What is counted -/

/-- `r'` is of the same sender in the same chat, and was at most 60 seconds old at `r`. -/
def Recorded.Counts (r r' : Recorded) : Prop :=
  r'.key = r.key ∧ r.now - r'.now ≤ rateWindowSec

instance (r r' : Recorded) : Decidable (r.Counts r') :=
  inferInstanceAs (Decidable (_ ∧ _))

/-- The other senders and chats that were active since the oldest message that counts for `r`. -/
def Recorded.othersSince (r : Recorded) (rs : List Recorded) : List (ℤ × ℤ) :=
  (((rs.dropWhile fun r' ↦ !decide (r.Counts r')).map Recorded.key).filter (· ≠ r.key)).dedup

/-- What the limiter is told. -/
def told (rs : List Recorded) : List ((ℤ × ℤ) × Time) := rs.map fun r ↦ (r.key, r.now)

theorem told_concat (rs : List Recorded) (r : Recorded) :
    told (rs ++ [r]) = told rs ++ [(r.key, r.now)] := List.map_append

theorem recent_told (r : Recorded) (rs : List Recorded) :
    (RateWindow.recent rateWindowSec r.now r.key (told rs)).length =
      (rs.filter (r.Counts ·)).length := by
  rw [RateWindow.recent, RateWindow.times, told]
  induction rs with
  | nil => rfl
  | cons r' rs ih =>
    rw [List.map_cons]
    by_cases hkey : r'.key = r.key
    · rw [List.filter_cons_of_pos (by simp [hkey]), List.map_cons]
      by_cases hage : r.now - r'.now ≤ rateWindowSec
      · rw [List.filter_cons_of_pos (by simp [hage]),
          List.filter_cons_of_pos (by simp [Recorded.Counts, hkey, hage]), List.length_cons,
          List.length_cons, ih]
      · rw [List.filter_cons_of_neg (by simpa using hage),
          List.filter_cons_of_neg (by simp [Recorded.Counts, hage]), ih]
    · rw [List.filter_cons_of_neg (by simp [hkey]),
        List.filter_cons_of_neg (by simp [Recorded.Counts, hkey]), ih]

theorem others_told (r : Recorded) (rs : List Recorded) :
    RateWindow.others r.key (RateWindow.since rateWindowSec r.now r.key (told rs)) =
      r.othersSince rs := by
  rw [RateWindow.others, RateWindow.since, told, List.dropWhile_map, List.map_map]
  rfl

/-! ## A whole stream -/

namespace Engine

/-- The windows are those of the limiter, told what was recorded; the times come in order, from
readings that are past, and every count is the limiter's. -/
structure Windowed (cfg : Setup) (s : Engine × List Recorded) : Prop where
  rate : s.1.rate = RateWindow.table rateWindowSec cfg.rateCacheSize (told s.2)
  past : ∀ r ∈ s.2, ∃ n < s.1.readings, r.now = cfg.clock n
  sorted : (s.2.map Recorded.now).Pairwise (· ≤ ·)
  counts : History.Justified (fun before r ↦ r.count = (RateWindow.next rateWindowSec
    (RateWindow.table rateWindowSec cfg.rateCacheSize (told before)) r.key r.now).length) s.2

theorem Windowed.handle {cfg : Setup} (hclock : Monotone cfg.clock) {s : Engine × List Recorded}
    (h : Windowed cfg s) (event : Event) :
    Windowed cfg (s.1.handle cfg event, s.2 ++ (s.1.recorded cfg event).toList) := by
  cases hrecorded : s.1.recorded cfg event with
  | none =>
    have hsame := sameRate_of_not_recorded hrecorded
    rw [Option.toList_none, List.append_nil]
    refine ⟨hsame.rate.trans h.rate, ?_, h.sorted, h.counts⟩
    intro r hr
    obtain ⟨n, hn, hnow⟩ := h.past r hr
    exact ⟨n, hn.trans_le hsame.readings, hnow⟩
  | some r =>
    obtain ⟨hnow, hcount, hrate, hreadings⟩ := rate_of_recorded hrecorded
    rw [Option.toList_some]
    constructor
    · show (s.1.handle cfg event).rate = _
      rw [hrate, h.rate, told_concat, RateWindow.table_concat]
    · intro r' hr'
      rcases List.mem_append.mp hr' with hr' | hr'
      · obtain ⟨n, hn, hnow⟩ := h.past r' hr'
        exact ⟨n, hn.trans hreadings, hnow⟩
      · rw [List.mem_singleton.mp hr']
        exact ⟨_, hreadings, hnow⟩
    · rw [List.map_append, List.pairwise_append]
      refine ⟨h.sorted, List.pairwise_singleton _ _, ?_⟩
      intro t ht t' ht'
      obtain ⟨r', hr', rfl⟩ := List.mem_map.mp ht
      obtain ⟨n, hn, hr'⟩ := h.past r' hr'
      rw [List.map_singleton, List.mem_singleton] at ht'
      rw [hr', ht', hnow]
      exact hclock hn.le
    · refine h.counts.concat ?_
      rw [hcount, h.rate]

theorem windowed (cfg : Setup) (hclock : Monotone cfg.clock) (events : List Event) :
    Windowed cfg (Engine.run cfg events, recordings cfg events) := by
  have hrun : Windowed cfg (events.foldl (fun (s : Engine × List Recorded) event ↦
      (s.1.handle cfg event, s.2 ++ (s.1.recorded cfg event).toList)) ({}, [])) := by
    refine List.foldlRecOn _ _ ?_ fun s h event _ ↦ h.handle hclock event
    exact ⟨rfl, fun r hr ↦ absurd hr List.not_mem_nil, List.Pairwise.nil, History.justified_nil⟩
  have hfst : (events.foldl (fun (s : Engine × List Recorded) event ↦
      (s.1.handle cfg event, s.2 ++ (s.1.recorded cfg event).toList)) ({}, [])).1 =
        Engine.run cfg events := by
    rw [Engine.run]
    exact (List.foldl_hom Prod.fst (fun _ _ ↦ rfl)).symm
  rw [← hfst]
  exact hrun

end Engine

/-- Under a clock that never goes back, a count never exceeds the number of the sender's
messages in the chat that were recorded in the last 60 seconds, the current one included, and
it is that number if fewer than `rateCacheSize` other senders and chats were active since the
oldest of them. -/
theorem rate_window_exact (cfg : Setup) (hclock : Monotone cfg.clock) (events : List Event)
    (before after : List Recorded) (r : Recorded)
    (hr : Engine.recordings cfg events = before ++ r :: after) :
    r.count ≤ ((before ++ [r]).filter (r.Counts ·)).length ∧
      ((r.othersSince (before ++ [r])).length < cfg.rateCacheSize →
        r.count = ((before ++ [r]).filter (r.Counts ·)).length) := by
  have h := Engine.windowed cfg hclock events
  have hcount := h.counts before r after hr
  have hsorted : ((told before ++ [(r.key, r.now)]).map Prod.snd).Pairwise (· ≤ ·) := by
    have hmap : (told before ++ [(r.key, r.now)]).map Prod.snd =
        (before ++ [r]).map Recorded.now := by
      rw [List.map_append, List.map_append, told, List.map_map]
      rfl
    rw [hmap]
    have hbegin : (before ++ [r]).Sublist (Engine.recordings cfg events) := by
      rw [hr]
      exact (List.Sublist.refl before).append (List.cons_sublist_cons.mpr (List.nil_sublist after))
    exact h.sorted.sublist (hbegin.map Recorded.now)
  rw [hcount, ← recent_told, ← others_told, told_concat]
  exact ⟨RateWindow.length_next_le hsorted, RateWindow.length_next_eq hsorted⟩

/-- One rule with a limit, and a reading of the clock every half minute. -/
def halfMinutes : Setup where
  enforce := false
  memberCacheSize := 2
  rateCacheSize := 2
  re := ⟨fun _ _ ↦ false, fun _ _ ↦ false⟩
  clock n := 30 * n
  stored := [⟨1, "flood", true, { maxMessagesPerMinute := some ⟨9, by decide⟩ }, {}⟩]
  fails _ := false

/-- A message of the chat. -/
def saidBy (senderId id : ℤ) : Event :=
  .message { id := id, dialogId := 1, senderId := senderId, out := false, date := "" }

/-- Two senders: the first message of the one is out of the window of its third. -/
theorem rate_window_exact_of_halfMinutes :
    Monotone halfMinutes.clock ∧
      ∃ before r after, Engine.recordings halfMinutes
        [saidBy 7 1, saidBy 8 2, saidBy 7 3, saidBy 7 4] = before ++ r :: after ∧
        r.count = 2 ∧ r.count = ((before ++ [r]).filter (r.Counts ·)).length := by
  have hclock : Monotone halfMinutes.clock := by
    intro m n h
    show (30 : ℚ) * m ≤ 30 * n
    exact mul_le_mul_of_nonneg_left (Rat.natCast_le_natCast.mpr h) (by decide +kernel)
  refine ⟨hclock, [⟨1, 7, 0, 1⟩, ⟨1, 8, 30, 1⟩, ⟨1, 7, 60, 2⟩], ⟨1, 7, 90, 2⟩, [], ?_, rfl, ?_⟩
  · decide +kernel
  · refine (rate_window_exact halfMinutes hclock [saidBy 7 1, saidBy 8 2, saidBy 7 3, saidBy 7 4]
      _ [] _ ?_).2 ?_
    · decide +kernel
    · decide +kernel

end TgMessenger.Moderation
