import TgMessenger.Data.Pages
import TgMessenger.Suggest.Receipts
import Mathlib.Logic.Function.Basic
import Mathlib.Data.List.Pairwise

/-!
# Dropping spent receipts is invisible

A pass over the dialogs drops the receipts it finds spent, so that it need not fetch their
histories again.  When nothing interleaves it proposes what a pass proposes that drops nothing,
as long as every message of ours comes after the receipts before it.
-/

namespace TgMessenger.Suggest

open Asyncio

/-! ## A pass that drops nothing -/

/-- The body of the loop, without the dropping. -/
def nudgeCandidatePlain (now afterSec : Time) (dialogId : ℤ) :
    SuggestProg (Option Candidate) := do
  let lastReadId : Option ℤ ← perform (.loadLastRead dialogId)
  let readAt : Option Time ← perform (.loadReadAt dialogId)
  match lastReadId, readAt with
  | some lastReadId, some readAt =>
    if now - readAt < afterSec then return none
    else do
      let history : List Message ← perform (.history dialogId)
      if shouldNudge history (some lastReadId) (some readAt) now afterSec then
        draftNudge dialogId readAt
      else return none
  | _, _ => return none

/-- `nudge_candidates` without `clear_last_read`. -/
def nudgeCandidatesPlain (now afterSec : Time) : List ℤ → SuggestProg (List Candidate)
  | [] => return []
  | dialogId :: dialogIds => do
    let candidate ← nudgeCandidatePlain now afterSec dialogId
    let out ← nudgeCandidatesPlain now afterSec dialogIds
    return candidate.toList ++ out

/-! ## One task alone -/

/-- The receipts, the histories on the server, and how many drafts were made. -/
structure Desk where
  lastRead : ℤ → Option ℤ
  readAt : ℤ → Option Time
  server : ℤ → List Message
  drafts : ℕ

namespace Desk

/-- A receipt is stored. -/
def record (d maxId : ℤ) (time : Time) (s : Desk) : Desk :=
  { s with lastRead := Function.update s.lastRead d (some maxId)
           readAt := Function.update s.readAt d (some time) }

/-- A receipt is dropped. -/
def clear (d : ℤ) (s : Desk) : Desk :=
  { s with lastRead := Function.update s.lastRead d none
           readAt := Function.update s.readAt d none }

/-- A message comes at the end of its dialog. -/
def append (m : Message) (s : Desk) : Desk :=
  { s with server := Function.update s.server m.dialogId (s.server m.dialogId ++ [m]) }

end Desk

/-- The history limit of the suggester, and how its drafts end. -/
structure Office where
  historyLimit : ℕ
  drafts : ℕ → Except String String

/-- What the operations do: the histories are read fresh. -/
def Office.system (cfg : Office) : System effects Unit Desk Unit where
  handle _
    | .listenReads _, s => .done (.ok ()) s
    | .setLastRead d maxId, s =>
      .done (.ok ()) { s with lastRead := Function.update s.lastRead d (some maxId) }
    | .setReadAt d time, s =>
      .done (.ok ()) { s with readAt := Function.update s.readAt d (some time) }
    | .loadLastRead d, s => .done (.ok (s.lastRead d)) s
    | .loadReadAt d, s => .done (.ok (s.readAt d)) s
    | .clearLastRead d, s => .done (.ok ()) (s.clear d)
    | .history d, s => .done (.ok ((s.server d).rtake cfg.historyLimit)) s
    | .suggest _, s => .done (cfg.drafts s.drafts) { s with drafts := s.drafts + 1 }
  env _ _ := none

/-- What happens, one after the other. -/
inductive Event where
  | record (event : MessageReadEvent) (clock : Time)
  | append (m : Message)
  | nudge (dialogIds : List ℤ) (now afterSec : Time)

/-- The answers of the passes `pass` in a sequence of events; `none` if one of the calls raises. -/
def answers (cfg : Office) (pass : Time → Time → List ℤ → SuggestProg (List Candidate)) :
    List Event → Desk → Option (List (List Candidate))
  | [], _ => some []
  | .record event clock :: es, s =>
    match (recordLastRead event clock).run cfg.system () s with
    | some (.ok (), s') => answers cfg pass es s'
    | _ => none
  | .append m :: es, s => answers cfg pass es (s.append m)
  | .nudge dialogIds now afterSec :: es, s =>
    match (pass now afterSec dialogIds).run cfg.system () s with
    | some (.ok out, s') => (answers cfg pass es s').map (out :: ·)
    | _ => none

section Runs

variable (cfg : Office) (s : Desk) (now afterSec : Time) (d : ℤ)

theorem run_recordLastRead (event : MessageReadEvent) (clock : Time) :
    (recordLastRead event clock).run cfg.system () s =
      some (.ok (), if event.outbox then s.record event.dialogId event.maxId clock else s) := by
  rw [recordLastRead]
  cases event.outbox <;> rfl

/-- The page a pass looks at. -/
abbrev Desk.page : List Message := (s.server d).rtake cfg.historyLimit

/-- The draft of a nudge, and what is left. -/
theorem run_draftNudge (time : Time) :
    (draftNudge d time).run cfg.system () s =
      some (.ok ((cfg.drafts s.drafts).toOption.map fun draft ↦ ⟨d, time, draft⟩),
        { s with drafts := s.drafts + 1 }) := by
  rw [draftNudge, Prog.perform_bind]
  rw [Prog.rescue, Prog.run]
  dsimp only [Office.system]
  cases cfg.drafts s.drafts <;> rfl

/-- What the body of the loop does, dropping spent receipts or not. -/
def Desk.nudge (drops : Bool) : Option Candidate × Desk :=
  match s.lastRead d, s.readAt d with
  | some v, some time =>
    if now - time < afterSec then (none, s)
    else if shouldNudge (s.page cfg d) (some v) (some time) now afterSec then
      ((cfg.drafts s.drafts).toOption.map fun draft ↦ ⟨d, time, draft⟩,
        { s with drafts := s.drafts + 1 })
    else (none, if drops && isSpent (s.page cfg d) v then s.clear d else s)
  | _, _ => (none, s)

theorem run_nudgeCandidate :
    (nudgeCandidate now afterSec d).run cfg.system () s =
      some (.ok (s.nudge cfg now afterSec d true).1, (s.nudge cfg now afterSec d true).2) := by
  rw [nudgeCandidate, Prog.run_bind_ok _ _ (Prog.run_perform_ok _ _ rfl),
    Prog.run_bind_ok _ _ (Prog.run_perform_ok _ _ rfl), Desk.nudge.eq_def]
  cases s.lastRead d with
  | none => rfl
  | some v =>
    cases s.readAt d with
    | none => rfl
    | some time =>
      dsimp only
      split
      · rfl
      · rw [Prog.run_bind_ok _ _ (Prog.run_perform_ok _ _ rfl)]
        split
        · exact run_draftNudge cfg s d time
        · rw [Bool.true_and]
          split <;> rfl

theorem run_nudgeCandidatePlain :
    (nudgeCandidatePlain now afterSec d).run cfg.system () s =
      some (.ok (s.nudge cfg now afterSec d false).1, (s.nudge cfg now afterSec d false).2) := by
  rw [nudgeCandidatePlain, Prog.run_bind_ok _ _ (Prog.run_perform_ok _ _ rfl),
    Prog.run_bind_ok _ _ (Prog.run_perform_ok _ _ rfl), Desk.nudge.eq_def]
  cases s.lastRead d with
  | none => rfl
  | some v =>
    cases s.readAt d with
    | none => rfl
    | some time =>
      dsimp only
      split
      · rfl
      · rw [Prog.run_bind_ok _ _ (Prog.run_perform_ok _ _ rfl)]
        split
        · exact run_draftNudge cfg s d time
        · rfl

/-- What a pass does, dropping spent receipts or not. -/
def Desk.nudges (s : Desk) (drops : Bool) : List ℤ → List Candidate × Desk
  | [] => ([], s)
  | d :: ds =>
    let found := s.nudge cfg now afterSec d drops
    let rest := Desk.nudges found.2 drops ds
    (found.1.toList ++ rest.1, rest.2)

theorem run_nudgeCandidates (ds : List ℤ) :
    (nudgeCandidates now afterSec ds).run cfg.system () s =
      some (.ok (s.nudges cfg now afterSec true ds).1, (s.nudges cfg now afterSec true ds).2) := by
  induction ds generalizing s with
  | nil => rfl
  | cons d ds ih =>
    rw [nudgeCandidates, Prog.run_bind_ok _ _ (run_nudgeCandidate cfg s now afterSec d),
      Prog.run_bind_ok _ _ (ih _)]
    rfl

theorem run_nudgeCandidatesPlain (ds : List ℤ) :
    (nudgeCandidatesPlain now afterSec ds).run cfg.system () s =
      some (.ok (s.nudges cfg now afterSec false ds).1,
        (s.nudges cfg now afterSec false ds).2) := by
  induction ds generalizing s with
  | nil => rfl
  | cons d ds ih =>
    rw [nudgeCandidatesPlain, Prog.run_bind_ok _ _ (run_nudgeCandidatePlain cfg s now afterSec d),
      Prog.run_bind_ok _ _ (ih _)]
    rfl

end Runs

/-! ## What a missing receipt hides -/

/-- A page shows nothing but what the whole history shows. -/
theorem isSpent_of_rtake {history : List Message} {n : ℕ} {v : ℤ}
    (h : isSpent (history.rtake n) v = true) : isSpent history v = true := by
  obtain ⟨last, hlast, hspent⟩ := isSpent_eq_true_iff.mp h
  rw [List.getLast?_rtake (by rintro hnil; rw [hnil] at hlast; cases hlast)] at hlast
  exact isSpent_eq_true_iff.mpr ⟨last, hlast, hspent⟩

/-- A spent receipt brings no nudge. -/
theorem shouldNudge_of_isSpent {history : List Message} {n : ℕ} {v : ℤ} {time now afterSec : Time}
    (h : isSpent history v = true) :
    shouldNudge (history.rtake n) (some v) (some time) now afterSec = false := by
  obtain ⟨last, hlast, hspent⟩ := isSpent_eq_true_iff.mp h
  rw [← Bool.not_eq_true, shouldNudge_eq_true_iff]
  rintro ⟨last', hlast', hout, hle, -⟩
  rw [List.getLast?_rtake (by rintro hnil; rw [hnil] at hlast'; cases hlast'), hlast] at hlast'
  obtain rfl := Option.some.inj hlast'
  rcases hspent with hout' | hlt
  · rw [hout] at hout'
    cases hout'
  · exact absurd hle hlt.not_ge

/-- The receipts of two desks are the same, but for spent ones which the first has dropped. -/
structure Agrees (s p : Desk) : Prop where
  server : s.server = p.server
  drafts : s.drafts = p.drafts
  receipts : ∀ d, s.lastRead d = p.lastRead d ∧ s.readAt d = p.readAt d ∨
    s.lastRead d = none ∧ ∃ v, p.lastRead d = some v ∧ isSpent (p.server d) v = true

theorem Agrees.refl (s : Desk) : Agrees s s := ⟨rfl, rfl, fun _ ↦ .inl ⟨rfl, rfl⟩⟩

section Agrees

variable (cfg : Office) {s p : Desk} (now afterSec : Time) (d : ℤ)

theorem Agrees.record (h : Agrees s p) {v : ℤ} {time : Time} :
    Agrees (s.record d v time) (p.record d v time) where
  server := h.server
  drafts := h.drafts
  receipts d' := by
    dsimp only [Desk.record]
    by_cases hd : d' = d
    · subst hd
      rw [Function.update_self, Function.update_self, Function.update_self, Function.update_self]
      exact .inl ⟨rfl, rfl⟩
    · simp only [Function.update_of_ne hd]
      exact h.receipts d'

/-- A message that is theirs, or that comes after the receipts, leaves the spent ones spent. -/
theorem Agrees.append (h : Agrees s p) {m : Message}
    (hm : m.out = true → ∀ v ∈ p.lastRead m.dialogId, v < m.id) :
    Agrees (s.append m) (p.append m) where
  server := by
    dsimp only [Desk.append]
    rw [h.server]
  drafts := h.drafts
  receipts d' := by
    refine (h.receipts d').imp id ?_
    rintro ⟨hnone, v, hv, hspent⟩
    refine ⟨hnone, v, hv, ?_⟩
    dsimp only [Desk.append]
    by_cases hd : d' = m.dialogId
    · subst hd
      rw [Function.update_self, isSpent_eq_true_iff]
      refine ⟨m, List.getLast?_concat, ?_⟩
      cases hout : m.out with
      | false => exact .inl rfl
      | true => exact .inr (hm hout v hv)
    · rw [Function.update_of_ne hd]
      exact hspent

/-- Dropping a receipt of the first desk, which the page shows to be spent. -/
theorem Agrees.clear (h : Agrees s p) {v : ℤ} (hv : s.lastRead d = some v)
    (hspent : isSpent (s.page cfg d) v = true) : Agrees (s.clear d) p where
  server := h.server
  drafts := h.drafts
  receipts d' := by
    dsimp only [Desk.clear]
    by_cases hd : d' = d
    · subst hd
      rw [Function.update_self]
      refine .inr ⟨rfl, ?_⟩
      rcases h.receipts d' with ⟨hlast, -⟩ | ⟨hnone, -⟩
      · refine ⟨v, hlast ▸ hv, ?_⟩
        rw [← h.server]
        exact isSpent_of_rtake hspent
      · rw [hnone] at hv
        cases hv
    · simp only [Function.update_of_ne hd]
      exact h.receipts d'

/-- A spent receipt that was dropped and one that was kept come to the same. -/
theorem Agrees.nudge (h : Agrees s p) :
    (s.nudge cfg now afterSec d true).1 = (p.nudge cfg now afterSec d false).1 ∧
      Agrees (s.nudge cfg now afterSec d true).2 (p.nudge cfg now afterSec d false).2 ∧
      (p.nudge cfg now afterSec d false).2.lastRead = p.lastRead := by
  have hpage : s.page cfg d = p.page cfg d := by
    rw [Desk.page, Desk.page, h.server]
  rcases h.receipts d with ⟨hlast, hread⟩ | ⟨hnone, v, hv, hspent⟩
  · rw [Desk.nudge.eq_def, Desk.nudge.eq_def, ← hlast, ← hread]
    cases hs : s.lastRead d with
    | none => exact ⟨rfl, h, rfl⟩
    | some v =>
      cases s.readAt d with
      | none => exact ⟨rfl, h, rfl⟩
      | some time =>
        dsimp only
        rw [← hpage, ← h.drafts]
        split
        · exact ⟨rfl, h, rfl⟩
        · split
          · exact ⟨rfl, ⟨h.server, rfl, h.receipts⟩, rfl⟩
          · rw [Bool.true_and, Bool.false_and]
            split
            · next hspent => exact ⟨rfl, h.clear cfg d hs hspent, rfl⟩
            · exact ⟨rfl, h, rfl⟩
  · rw [Desk.nudge.eq_def, Desk.nudge.eq_def, hnone, hv]
    dsimp only
    cases p.readAt d with
    | none => exact ⟨rfl, h, rfl⟩
    | some time =>
      dsimp only
      rw [shouldNudge_of_isSpent hspent]
      split
      · exact ⟨rfl, h, rfl⟩
      · exact ⟨rfl, h, rfl⟩

theorem Agrees.nudges (h : Agrees s p) (ds : List ℤ) :
    (s.nudges cfg now afterSec true ds).1 = (p.nudges cfg now afterSec false ds).1 ∧
      Agrees (s.nudges cfg now afterSec true ds).2 (p.nudges cfg now afterSec false ds).2 ∧
      (p.nudges cfg now afterSec false ds).2.lastRead = p.lastRead := by
  induction ds generalizing s p with
  | nil => exact ⟨rfl, h, rfl⟩
  | cons d ds ih =>
    obtain ⟨hfound, hagrees, hlast⟩ := Agrees.nudge cfg now afterSec d h
    obtain ⟨hrest, hagrees', hlast'⟩ := ih hagrees
    refine ⟨?_, hagrees', hlast'.trans hlast⟩
    dsimp only [Desk.nudges]
    rw [hfound, hrest]

end Agrees

/-! ## Sequences of events -/

/-- A message of ours comes after the receipts before it. -/
def Event.Precedes : Event → Event → Prop
  | .record event _, .append m => event.outbox = true → m.out = true →
      m.dialogId = event.dialogId → event.maxId < m.id
  | _, _ => True

/-- The messages of ours that are to come are above the stored receipts. -/
def Desk.Ahead (s : Desk) (es : List Event) : Prop :=
  ∀ m, .append m ∈ es → m.out = true → ∀ v ∈ s.lastRead m.dialogId, v < m.id

theorem Desk.Ahead.tail {s : Desk} {e : Event} {es : List Event} (h : s.Ahead (e :: es)) :
    s.Ahead es := fun m hm ↦ h m (List.mem_cons_of_mem _ hm)

theorem Desk.Ahead.record {s : Desk} {event : MessageReadEvent} {clock : Time} {es : List Event}
    (h : s.Ahead es) (hout : event.outbox = true)
    (hes : ∀ e ∈ es, (Event.record event clock).Precedes e) :
    (s.record event.dialogId event.maxId clock).Ahead es := by
  intro m hm hown v hv
  dsimp only [Desk.record] at hv
  by_cases hd : m.dialogId = event.dialogId
  · rw [hd, Function.update_self] at hv
    obtain rfl := Option.some.inj hv
    exact hes _ hm hout hown hd
  · rw [Function.update_of_ne hd] at hv
    exact h m hm hown v hv

theorem answers_of_agrees {cfg : Office} {es : List Event} {s p : Desk}
    (hes : es.Pairwise Event.Precedes) (hahead : p.Ahead es) (h : Agrees s p) :
    ∃ out, answers cfg nudgeCandidates es s = some out ∧
      answers cfg nudgeCandidatesPlain es p = some out := by
  induction es generalizing s p with
  | nil => exact ⟨[], rfl, rfl⟩
  | cons e es ih =>
    obtain ⟨he, hes'⟩ := List.pairwise_cons.mp hes
    cases e with
    | record event clock =>
      rw [answers, answers, run_recordLastRead, run_recordLastRead]
      dsimp only
      cases hout : event.outbox with
      | false => exact ih hes' hahead.tail h
      | true => exact ih hes' (hahead.tail.record hout he) (h.record event.dialogId)
    | append m =>
      rw [answers, answers]
      exact ih hes' hahead.tail (h.append (hahead m List.mem_cons_self))
    | nudge dialogIds now afterSec =>
      rw [answers, answers, run_nudgeCandidates, run_nudgeCandidatesPlain]
      obtain ⟨hfound, hagrees, hlast⟩ := Agrees.nudges cfg now afterSec h dialogIds
      have hahead' : (p.nudges cfg now afterSec false dialogIds).2.Ahead es := by
        intro m hm
        rw [hlast]
        exact hahead.tail m hm
      obtain ⟨out, hout, hout'⟩ := ih hes' hahead' hagrees
      dsimp only
      rw [hout, hout', ← hfound]
      exact ⟨_, rfl, rfl⟩

/-- Over every sequence of receipts, messages and passes in which the messages of ours come after
the receipts before them, the passes return, and propose what they would propose if they dropped
nothing. -/
theorem spent_invisible (cfg : Office) {es : List Event} {s : Desk}
    (hes : es.Pairwise Event.Precedes) (hahead : s.Ahead es) :
    ∃ out, answers cfg nudgeCandidates es s = some out ∧
      answers cfg nudgeCandidatesPlain es s = some out :=
  answers_of_agrees hes hahead (.refl s)

/-! ## A receipt ahead of the messages -/

/-- A message of the dialog. -/
def said (id : ℤ) (out : Bool) : Message :=
  { id := id, dialogId := 7, senderId := if out then 5 else 7, out := out, date := "",
    text := some "hi" }

/-- A suggester that has a draft for everything. -/
def pinging : Office := ⟨30, fun _ ↦ .ok "ping"⟩

/-- Nothing was stored or said before. -/
def emptyDesk : Desk := ⟨fun _ ↦ none, fun _ ↦ none, fun _ ↦ [], 0⟩

/-- The contact reads a message and answers; then we write again. -/
def reply (maxId : ℤ) : List Event :=
  [.append (said 1 true), .record ⟨7, maxId, true⟩ 1000, .append (said 2 false),
   .nudge [7] 9000 3600, .append (said 3 true), .nudge [7] 9500 3600]

/-- The receipt is about the message before it. -/
theorem spent_invisible_reply :
    ∃ out, answers pinging nudgeCandidates (reply 1) emptyDesk = some out ∧
      answers pinging nudgeCandidatesPlain (reply 1) emptyDesk = some out := by
  refine spent_invisible pinging ?_ ?_
  · simp [reply, Event.Precedes, said]
  · rintro m - - v ⟨⟩

/-- The receipt reaches a message that is still to come: the pass that keeps it proposes a nudge
for that message, the pass that has dropped it does not. -/
theorem spent_visible :
    answers pinging nudgeCandidates (reply 3) emptyDesk = some [[], []] ∧
      answers pinging nudgeCandidatesPlain (reply 3) emptyDesk =
        some [[], [⟨7, 1000, "ping"⟩]] := by
  constructor
  · decide +kernel
  · decide +kernel

end TgMessenger.Suggest
