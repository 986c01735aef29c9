import TgMessenger.Asyncio.Outline
import TgMessenger.Suggest.World
import Mathlib.Tactic.Linarith

/-!
# Nudges are not premature

A receipt is stored with two statements and loaded with two.  A pass that loads them in between
has the id of a fresh receipt and the time of an older one.  What it proposes was read long enough
ago in every run in which no pass loads such a pair, whatever else is recorded, dropped and
proposed meanwhile.
-/

namespace TgMessenger.Suggest

open Asyncio

/-- The time of a receipt is long enough ago for a pass. -/
def Call.Ages (time : Time) : Call → Prop
  | .nudgeCandidates _ now afterSec => afterSec ≤ now - time
  | _ => False

instance (time : Time) (call : Call) : Decidable (call.Ages time) :=
  match call with
  | .nudgeCandidates _ now afterSec => inferInstanceAs (Decidable (afterSec ≤ now - time))
  | .watchReadReceipts | .recordLastRead .. | .clearLastRead _ =>
    inferInstanceAs (Decidable False)

/-- The time a pass loads, when it is long enough ago, is not before that of a receipt which
reaches the id the pass has loaded and was stored with its time. -/
def Untorn (cfg : Setup) (calls : ℕ → Call) (t : ℕ) : Op → World → Prop
  | .loadReadAt d, w => cfg.faults w.statements = none → ∀ v ∈ w.held t, ∀ time ∈ w.readAt d,
      (calls t).Ages time → ∃ stamp ∈ w.stamped d, v ≤ stamp.1 ∧ stamp.2 ≤ time
  | _, _ => True

instance (cfg : Setup) (calls : ℕ → Call) (t : ℕ) (o : Op) (w : World) :
    Decidable (Untorn cfg calls t o w) :=
  match o with
  | .loadReadAt d => inferInstanceAs (Decidable (cfg.faults w.statements = none →
      ∀ v ∈ w.held t, ∀ time ∈ w.readAt d, (calls t).Ages time →
        ∃ stamp ∈ w.stamped d, v ≤ stamp.1 ∧ stamp.2 ≤ time))
  | .listenReads _ | .setLastRead .. | .setReadAt .. | .loadLastRead _ | .clearLastRead _
  | .history _ | .suggest _ => inferInstanceAs (Decidable True)

/-- A page of a dialog that a pass has fetched ends with a message of ours, which is covered by a
receipt recorded at least `afterSec` before `now`. -/
def World.Due (w : World) (t : ℕ) (now afterSec : Time) (d : ℤ) : Prop :=
  ∃ page ∈ w.pages, page.task = t ∧ page.dialogId = d ∧
    ∃ last ∈ page.messages.getLast?, last.out = true ∧
      ∃ stamp ∈ w.stamped d, last.id ≤ stamp.1 ∧ stamp.2 + afterSec ≤ now

/-! ## What a call relies on -/

/-- What a call does to the state, seen by the others. -/
def Guards (t : ℕ) (w w' : World) : Prop := ∀ u ≠ t, Grows u w w'

theorem World.Due.of_grows {w w' : World} {t u : ℕ} {now afterSec : Time} {d : ℤ}
    (h : w.Due t now afterSec d) (hgrows : Grows u w w') : w'.Due t now afterSec d := by
  obtain ⟨page, hpage, htask, hd, last, hlast, hout, stamp, hstamp, haged⟩ := h
  exact ⟨page, hgrows.pages page hpage, htask, hd, last, hlast, hout, stamp,
    hgrows.stamped _ stamp hstamp, haged⟩

/-! ## A pass -/

section Pass

variable {cfg : Setup} {calls : ℕ → Call} {t : ℕ} {dialogIds : List ℤ} {now afterSec : Time}

/-- The outline of a call, when no pass loads a torn pair. -/
abbrev PassOutline {α : Type} (cfg : Setup) (calls : ℕ → Call) (t : ℕ) (p : SuggestProg α)
    (P : World → Prop) (Q : α → World → Prop) : Prop :=
  Outline ((system cfg).restrict (Untorn cfg calls)) t (fun _ ↦ Grows t) (fun _ ↦ Guards t) p P
    (onResult Q fun _ _ ↦ True)

theorem restrict_not_parked {o : Op} {w w' : World}
    (h : ((system cfg).restrict (Untorn cfg calls)).handle t o w = .parked w') : False :=
  not_parked (System.restrict_parked h)

theorem guards_of_done {o : Op} {w w' : World} {x : Except String (effects.Ret o)}
    (h : ((system cfg).restrict (Untorn cfg calls)).handle t o w = .done x w') : Guards t w w' :=
  fun _ hu ↦ handle_grows (System.restrict_done h).2 hu

/-- One operation. -/
theorem perform_outline {o : Op} {P : World → Prop} {Q : effects.Ret o → World → Prop}
    (hP : Asyncio.Stable (Grows t) P) (hQ : ∀ r, Asyncio.Stable (Grows t) (Q r))
    (hdone : ∀ w r w', P w → Untorn cfg calls t o w → handle cfg t o w = .done (.ok r) w' →
      Q r w') :
    PassOutline cfg calls t (perform o) P Q := by
  refine .perform hP ?_ (fun w w' _ hr ↦ (restrict_not_parked hr).elim) ?_
  · rintro (e | r)
    · exact .true _
    · exact hQ r
  · rintro w (e | r) w' hw hr
    · exact ⟨guards_of_done hr, trivial⟩
    · obtain ⟨hok, hr'⟩ := System.restrict_done hr
      exact ⟨guards_of_done hr, hdone w r w' hw hok hr'⟩

/-- The pair a pass has loaded, when its time is long enough ago, is that of a receipt. -/
def World.Sound (d : ℤ) (now afterSec : Time) (lastReadId : Option ℤ) (readAt : Option Time)
    (w : World) : Prop :=
  ∀ v ∈ lastReadId, ∀ time ∈ readAt, afterSec ≤ now - time →
    ∃ stamp ∈ w.stamped d, v ≤ stamp.1 ∧ stamp.2 ≤ time

theorem stable_sound {d : ℤ} {lastReadId : Option ℤ} {readAt : Option Time} :
    Asyncio.Stable (Grows t) (World.Sound d now afterSec lastReadId readAt) := by
  intro w w' h hgrows v hv time htime haged
  obtain ⟨stamp, hstamp, hle⟩ := h v hv time htime haged
  exact ⟨stamp, hgrows.stamped d stamp hstamp, hle⟩

theorem stable_due {d : ℤ} : Asyncio.Stable (Grows t) fun w ↦ w.Due t now afterSec d :=
  fun _ _ h hgrows ↦ h.of_grows hgrows

/-- The answer of a pass. -/
def World.AllDue (w : World) (t : ℕ) (now afterSec : Time) (out : List Candidate) : Prop :=
  ∀ candidate ∈ out, w.Due t now afterSec candidate.dialogId

theorem stable_allDue {out : List Candidate} :
    Asyncio.Stable (Grows t) fun w ↦ w.AllDue t now afterSec out :=
  fun _ _ h hgrows candidate hcandidate ↦ (h candidate hcandidate).of_grows hgrows

/-- A pass that has nothing to propose. -/
theorem none_outline {P : World → Prop} (hP : Asyncio.Stable (Grows t) P) :
    PassOutline cfg calls t (.ret none : SuggestProg (Option Candidate)) P
      fun candidate? w ↦ w.AllDue t now afterSec candidate?.toList :=
  Outline.ret hP fun _ _ ↦ by rintro _ ⟨⟩

/-- A draft for a dialog where a nudge is due. -/
theorem draftNudge_outline {d : ℤ} {time : Time} :
    PassOutline cfg calls t (draftNudge d time) (fun w ↦ w.Due t now afterSec d)
      fun candidate? w ↦ w.AllDue t now afterSec candidate?.toList := by
  refine Outline.rescue (R := fun _ _ ↦ True) (Outline.seq (R := fun _ w ↦ w.Due t now afterSec d)
    (perform_outline stable_due (fun _ ↦ stable_due) ?_) fun draft ↦ ?_)
    fun _ ↦ none_outline (.true _)
  · intro w draft w' hdue _ hr
    injection hr with _ hw
    subst hw
    exact hdue
  · refine Outline.ret stable_due fun w hdue candidate hcandidate ↦ ?_
    obtain rfl := List.mem_singleton.mp hcandidate
    exact hdue

/-- Loading the id, and then the time of a receipt. -/
theorem loadReadAt_outline (hcall : calls t = .nudgeCandidates dialogIds now afterSec) {d : ℤ}
    {lastReadId : Option ℤ} :
    PassOutline cfg calls t (perform (.loadReadAt d)) (fun w ↦ w.held t = lastReadId)
      fun readAt ↦ World.Sound d now afterSec lastReadId readAt := by
  refine perform_outline ?_ (fun _ ↦ stable_sound) ?_
  · intro w w' h hgrows
    exact hgrows.held.trans h
  · intro w readAt w' hheld hok hr
    obtain ⟨e, -, hx, -⟩ | ⟨hfault, hx, rfl⟩ := World.statement_done hr
    · cases hx
    · cases hx
      intro v hv time htime haged
      refine hok hfault v (hheld ▸ hv) time htime ?_
      rw [hcall]
      exact haged

theorem nudgeCandidate_outline (hcall : calls t = .nudgeCandidates dialogIds now afterSec) (d : ℤ) :
    PassOutline cfg calls t (nudgeCandidate now afterSec d) (fun _ ↦ True)
      fun candidate? w ↦ w.AllDue t now afterSec candidate?.toList := by
  have hheld (lastReadId : Option ℤ) :
      Asyncio.Stable (Grows t) fun w ↦ w.held t = lastReadId :=
    fun w w' h hgrows ↦ hgrows.held.trans h
  refine Outline.seq (R := fun lastReadId w ↦ w.held t = lastReadId)
    (perform_outline (.true _) hheld ?_) fun lastReadId ↦ ?_
  · intro w lastReadId w' _ _ hr
    obtain ⟨e, -, hx, -⟩ | ⟨-, hx, rfl⟩ := World.statement_done hr
    · cases hx
    · cases hx
      exact Function.update_self ..
  refine Outline.seq (R := fun readAt ↦ World.Sound d now afterSec lastReadId readAt)
    (loadReadAt_outline hcall) fun readAt ↦ ?_
  split
  case h_2 => exact none_outline stable_sound
  case h_1 v time =>
    split
    · exact none_outline stable_sound
    · next haged =>
      rw [not_lt] at haged
      have hfetched (messages : List Message) : Asyncio.Stable (Grows t) fun w ↦
          ∃ page ∈ w.pages, page.task = t ∧ page.dialogId = d ∧ page.messages = messages := by
        rintro w w' ⟨page, hpage, hrest⟩ hgrows
        exact ⟨page, hgrows.pages page hpage, hrest⟩
      refine Outline.seq (R := fun messages w ↦ World.Sound d now afterSec (some v) (some time) w ∧
          ∃ page ∈ w.pages, page.task = t ∧ page.dialogId = d ∧ page.messages = messages)
        (perform_outline stable_sound (fun messages ↦ .and stable_sound (hfetched messages)) ?_)
        fun messages ↦ ?_
      · intro w messages w' hsound _ hr
        obtain ⟨e, hx, -⟩ | ⟨messages', hx, rfl⟩ := handle_history hr
        · cases hx
        · cases hx
          exact ⟨hsound, _, List.mem_cons_self, rfl, rfl, rfl⟩
      split
      · next hnudge =>
        obtain ⟨last, hlast, hout, hle, -⟩ := shouldNudge_eq_true_iff.mp hnudge
        refine Outline.pre draftNudge_outline ?_
        rintro w ⟨hsound, page, hpage, htask, hd, rfl⟩
        obtain ⟨stamp, hstamp, hv, htime⟩ := hsound v rfl time rfl haged
        exact ⟨page, hpage, htask, hd, last, hlast, hout, stamp, hstamp, hle.trans hv,
          (by linarith)⟩
      · split
        · exact Outline.seq (R := fun _ _ ↦ True)
            (perform_outline (.and stable_sound (hfetched messages)) (fun _ ↦ .true _)
              fun _ _ _ _ _ _ ↦ trivial) fun _ ↦ none_outline (.true _)
        · exact none_outline (.and stable_sound (hfetched messages))

theorem nudgeCandidates_outline (hcall : calls t = .nudgeCandidates dialogIds now afterSec)
    (ds : List ℤ) :
    PassOutline cfg calls t (nudgeCandidates now afterSec ds) (fun _ ↦ True)
      fun out w ↦ w.AllDue t now afterSec out := by
  induction ds with
  | nil => exact Outline.ret (.true _) fun _ _ ↦ by rintro _ ⟨⟩
  | cons d ds ih =>
    refine Outline.seq (nudgeCandidate_outline hcall d) fun candidate? ↦ ?_
    -- What was found due stays due while the rest of the dialogs is looked through.
    refine Outline.seq (R := fun out w ↦ w.AllDue t now afterSec out ∧
      w.AllDue t now afterSec candidate?.toList) ?_ fun out ↦ ?_
    · have hdue : Asyncio.Stable (Grows t)
          fun w ↦ w.AllDue t now afterSec candidate?.toList := stable_allDue
      have hkeeps (o : Op) (w w' : World) (hguards : Guards t w w')
          (h : w.AllDue t now afterSec candidate?.toList) :
          w'.AllDue t now afterSec candidate?.toList := fun candidate hcandidate ↦
        (h candidate hcandidate).of_grows (hguards (t + 1) (Nat.succ_ne_self t))
      refine ((ih.frame hdue hkeeps).pre ?_).post ?_
      · exact fun w hdue ↦ ⟨trivial, hdue⟩
      · rintro (e | out) w h
        · trivial
        · exact h
    · refine Outline.ret (.and stable_allDue stable_allDue) ?_
      rintro w ⟨hout, hcandidate⟩
      exact List.forall_mem_append.mpr ⟨hcandidate, hout⟩

end Pass

/-! ## Runs -/

/-- What a call has come to when it has ended. -/
def Settled (calls : ℕ → Call) (t : ℕ) (x : Except String (List Candidate)) (w : World) : Prop :=
  ∀ dialogIds now afterSec, calls t = .nudgeCandidates dialogIds now afterSec →
    onResult (E := effects) (fun out w ↦ w.AllDue t now afterSec out) (fun _ _ ↦ True) x w

/-- All calls keep to what they guarantee. -/
abbrev PassesOutlined (cfg : Setup) (calls : ℕ → Call) (c : SuggestConfig) : Prop :=
  Outlined ((system cfg).restrict (Untorn cfg calls)) (fun t _ ↦ Grows t) (fun t _ ↦ Guards t)
    (Settled calls) c

/-- No pass loads a torn pair. -/
def Whole (cfg : Setup) (calls : ℕ → Call) : SuggestConfig → Move ℕ ReadEvent → Prop :=
  Permitted (Untorn cfg calls)

instance (cfg : Setup) (calls : ℕ → Call) (c : SuggestConfig) (m : Move ℕ ReadEvent) :
    Decidable (Whole cfg calls c m) := inferInstanceAs (Decidable (Permitted _ c m))

section Runs

variable {cfg : Setup} {calls : ℕ → Call} {receipts : ℤ → Option (ℤ × Time)}

theorem passesOutlined_start : PassesOutlined cfg calls (start cfg calls receipts) := by
  intro t
  refine ⟨fun _ ↦ True, ?_, trivial⟩
  cases hcall : calls t with
  | nudgeCandidates dialogIds now afterSec =>
    dsimp only [start]
    rw [hcall]
    refine (nudgeCandidates_outline hcall dialogIds).post ?_
    intro x w hx dialogIds' now' afterSec' hcall'
    obtain ⟨rfl, rfl, rfl⟩ := Call.nudgeCandidates.inj (hcall.symm.trans hcall')
    exact hx
  | _ =>
    refine .trivial ?_ (fun o w w' hr ↦ (restrict_not_parked hr).elim)
      fun o w x w' hr ↦ guards_of_done hr
    intro x w dialogIds now afterSec hcall'
    rw [hcall] at hcall'
    cases hcall'

theorem PassesOutlined.step {c c' : SuggestConfig} {m : Move ℕ ReadEvent}
    (h : PassesOutlined cfg calls c)
    (hs : c.step ((system cfg).restrict (Untorn cfg calls)) m = some c') :
    PassesOutlined cfg calls c' := by
  have hok : anyMove c m := trivial
  refine Outlined.step ?_ ?_ h hok hs
  · intro c c' t u o k _ hu _ hguards
    exact hguards t hu.symm
  · intro c c' t e _ hstep
    obtain ⟨w, hw, rfl⟩ := Option.map_eq_some_iff.mp hstep
    cases e
    dsimp only [System.restrict, system] at hw
    split_ifs at hw
    cases hw
    exact ⟨rfl, fun _ _ ↦ id, fun _ ↦ id⟩

/-- In every run in which no pass loads a torn pair, of which the time is long enough ago, every
dialog a pass has proposed has a last message of ours that was covered by a receipt recorded at
least `afterSec` before `now`. -/
theorem nudges_due {c : SuggestConfig}
    (hrun : Reaches (system cfg) (Whole cfg calls) (start cfg calls receipts) c)
    {t : ℕ} {dialogIds : List ℤ} {now afterSec : Time} {out : List Candidate}
    (hcall : calls t = .nudgeCandidates dialogIds now afterSec) (hout : c.Returned t out) :
    ∀ candidate ∈ out, c.shared.Due t now afterSec candidate.dialogId := by
  obtain ⟨P, houtline, hP⟩ := hrun.restrict.preserves
    (fun c c' m hc _ hs ↦ PassesOutlined.step hc hs) passesOutlined_start t
  exact houtline.of_returned hP hout dialogIds now afterSec hcall

end Runs

/-! ## A nudge that is premature -/

/-- The first message is ours, and so is the last. -/
def stillAround : List Message :=
  [{ id := 1, dialogId := 7, senderId := 5, out := true, date := "", text := some "you there?" },
   { id := 3, dialogId := 7, senderId := 5, out := true, date := "", text := some "still around?" }]

/-- The histories and drafts of a dialog. -/
def aroundSetup : Setup where
  reads := []
  faults _ := none
  pages _ := .ok stillAround
  drafts _ := .ok "ping"

/-- The last message is read right before a pass: the receipt before it was recorded hours ago. -/
def freshCalls : ℕ → Call
  | 0 => .recordLastRead ⟨7, 3, true⟩ 9000
  | _ => .nudgeCandidates [7] 9000 3600

/-- The receipt of the first message. -/
def firstRead : ℤ → Option (ℤ × Time)
  | 7 => some (1, 1000)
  | _ => none

/-- The last message was read hours ago. -/
def agedCalls : ℕ → Call
  | 0 => .recordLastRead ⟨7, 3, true⟩ 5000
  | _ => .nudgeCandidates [7] 9000 3600

/-- The receipt is recorded, and then the pass finds it. -/
theorem nudges_due_of_aged :
    ∃ c, Reaches (system aroundSetup) (Whole aroundSetup agedCalls)
        (start aroundSetup agedCalls firstRead) c ∧
      c.Returned 1 [⟨7, 5000, "ping"⟩] ∧ c.shared.Due 1 9000 3600 7 := by
  have hexec : ((Machine.guarded (Config.step (system aroundSetup))
      (Whole aroundSetup agedCalls)).exec (start aroundSetup agedCalls firstRead)
      (List.replicate 2 (.run 0) ++ List.replicate 4 (.run 1))).any
        (fun c ↦ (c.task 1).returned? = some [⟨7, 5000, "ping"⟩]) = true := by
    decide +kernel
  obtain ⟨c, hrun, hreturned⟩ := Machine.exists_run_of_exec hexec
  rw [Prog.returned?_eq_some_iff] at hreturned
  exact ⟨c, hrun, hreturned, nudges_due hrun rfl hreturned ⟨7, 5000, "ping"⟩ List.mem_cons_self⟩

/-- The pass loads the new id and the old time, and proposes a nudge for a message that has just
been read. -/
theorem nudge_premature :
    ∃ c, Reaches (system aroundSetup) anyMove (start aroundSetup freshCalls firstRead) c ∧
      c.Returned 0 [] ∧ c.Returned 1 [⟨7, 1000, "ping"⟩] ∧ ¬ c.shared.Due 1 9000 3600 7 := by
  have hexec : ((Machine.guarded (Config.step (system aroundSetup)) fun _ _ ↦ True).exec
      (start aroundSetup freshCalls firstRead)
      (.run 0 :: List.replicate 4 (.run 1) ++ [.run 0])).any
        (fun c ↦ (c.task 0).returned? = some [] ∧
          (c.task 1).returned? = some [⟨7, 1000, "ping"⟩] ∧
          c.shared.pages = [⟨1, 7, 0, stillAround⟩] ∧
          c.shared.stamped 7 = [(3, 9000), (1, 1000)]) = true := by
    decide +kernel
  obtain ⟨c, hrun, h0, h1, hpages, hstamped⟩ := Machine.exists_run_of_exec hexec
  rw [Prog.returned?_eq_some_iff] at h0 h1
  refine ⟨c, hrun, h0, h1, ?_⟩
  rintro ⟨page, hpage, -, -, last, hlast, -, stamp, hstamp, hle, haged⟩
  rw [hpages, List.mem_singleton] at hpage
  subst hpage
  obtain rfl := Option.some.inj hlast
  rw [hstamped] at hstamp
  rcases List.mem_cons.mp hstamp with rfl | hstamp
  · norm_num at haged
  · obtain rfl := List.mem_singleton.mp hstamp
    exact absurd hle (by decide)

end TgMessenger.Suggest
