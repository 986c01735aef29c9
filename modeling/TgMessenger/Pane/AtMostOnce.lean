import TgMessenger.Pane.Recipient
import Mathlib.Algebra.Order.Ring.Nat

/-!
# One act for each call

A call acts at most once as long as `curl` tells the truth: it comes back with the answer of
every POST the daemon acts on.  A POST whose answer is lost, late or an error after the act
looks to `runApiRaw` like one that never arrived, and the child of the fallback acts again.
-/

namespace TgMessenger.Pane

variable {env : Env} {w w' : World}

/-- How often Telegram has acted for a call. -/
def World.acted (w : World) (t : ℕ) : ℕ := w.acts.countP (·.1 = t)

/-- `curl` does not come back without the answer of a POST the daemon has acted on, and the
daemon does not act on a POST `curl` no longer waits for. -/
def Answered (env : Env) (w : World) : Event → Prop
  | .warmEnded t stdout => ∀ call ∈ (w.status t).waiting,
      stdout.filter (call.action.plan env).answered = none → w.acted t = 0
  | .serve t readonly result => ∀ post ∈ w.posts t,
      (route env readonly result post.spawn).1.isSome → (w.status t).waiting.isSome
  | _ => True

instance (env : Env) (w : World) (e : Event) : Decidable (Answered env w e) :=
  match e with
  | .warmEnded t stdout => inferInstanceAs (Decidable (∀ call ∈ (w.status t).waiting,
      stdout.filter (call.action.plan env).answered = none → w.acted t = 0))
  | .serve t readonly result => inferInstanceAs (Decidable (∀ post ∈ w.posts t,
      (route env readonly result post.spawn).1.isSome → (w.status t).waiting.isSome))
  | .switchDialog _ | .adopt _ | .start .. | .loaded .. | .acts _ | .coldEnded .. =>
    .isTrue trivial

theorem Status.eq_warm_of_waiting {s : Status} (h : s.waiting.isSome = true) :
    ∃ call, s = .warm call := by
  cases s with
  | warm call => exact ⟨call, rfl⟩
  | _ => cases h

/-- How often a call may have acted, by where it stands. -/
def Once (w : World) (t : ℕ) : Prop :=
  match w.status t with
  | .idle => w.posts t = none ∧ w.acted t = 0
  | .warm _ => w.acted t ≤ if (w.posts t).any (·.reply.isSome) then 1 else 0
  | .cold _ _ acted => w.acted t ≤ if acted then 1 else 0
  | .loading .. | .ended _ => w.acted t ≤ 1

theorem Once.acted_le {t : ℕ} (h : Once w t) : w.acted t ≤ 1 := by
  unfold Once at h
  split at h
  · exact h.2.trans_le zero_le_one
  · exact h.trans (by split_ifs <;> decide)
  · exact h.trans (by split_ifs <;> decide)
  · exact h
  · exact h

/-- What a call may have done depends on its own status, POST and acts only. -/
theorem Once.congr {t : ℕ} (h : Once w t) (hstatus : w'.status t = w.status t)
    (hposts : w'.posts t = w.posts t) (hacted : w'.acted t = w.acted t) : Once w' t := by
  unfold Once
  rw [hstatus, hposts, hacted]
  exact h

namespace Once

/-- A call starts without having acted. -/
theorem start (h : ∀ t, Once w t) {t : ℕ} {action : Action}
    (hs : w.step env (.start t action) = some w') (u : ℕ) : Once w' u := by
  obtain ⟨hidle, -, hacts, hstatus, hposts⟩ := World.step_start hs
  have hacted : w'.acted u = w.acted u := by rw [World.acted, hacts, World.acted]
  rcases eq_or_ne u t with rfl | hne
  · have hzero : w.acted u = 0 := by
      have hu := h u
      rw [Once, hidle] at hu
      exact hu.2
    rw [Once, hstatus, Function.update_self, hacted, hzero]
    exact Nat.zero_le _
  · have hposts' : w'.posts u = w.posts u := by
      rcases hposts with ⟨-, hposts⟩ | ⟨spawn, -, -, hposts⟩
      · rw [hposts]
      · rw [hposts, Function.update_of_ne hne]
    exact (h u).congr (by rw [hstatus, Function.update_of_ne hne]) hposts' hacted

/-- The daemon acts only for a call that waits for it. -/
theorem serve (h : ∀ t, Once w t) {t : ℕ} {readonly : Bool} {result : ClientResult}
    (hok : Answered env w (.serve t readonly result))
    (hs : w.step env (.serve t readonly result) = some w') (u : ℕ) : Once w' u := by
  obtain ⟨post, hpost, hreply, -, hstatus, -, hposts, hacts⟩ := World.step_serve hs
  have hu := h u
  rcases eq_or_ne u t with rfl | hne
  · have hacted : w'.acted u =
        w.acted u + if (route env readonly result post.spawn).1.isSome then 1 else 0 := by
      rw [World.acted, hacts, List.countP_append, World.acted, Nat.add_comm]
      cases (route env readonly result post.spawn).1 <;> simp
    cases hroute : (route env readonly result post.spawn).1 with
    | none =>
      rw [hroute, Option.isSome_none, if_neg Bool.false_ne_true, Nat.add_zero] at hacted
      rw [Once, hstatus, hacted, hposts, Function.update_self]
      rw [Once] at hu
      split at hu
      · exact nomatch hpost.symm.trans hu.1
      · exact hu.trans (by split_ifs <;> simp_all)
      · exact hu
      · exact hu
      · exact hu
    | some dialogId =>
      have hwaiting := hok post hpost (by rw [hroute, Option.isSome_some])
      obtain ⟨call, hwarm⟩ := Status.eq_warm_of_waiting hwaiting
      rw [hroute, Option.isSome_some, if_pos rfl] at hacted
      rw [Once, hwarm, hpost, Option.any_some, hreply, Option.isSome_none,
        if_neg Bool.false_ne_true] at hu
      rw [Once, hstatus, hwarm, hacted, hposts, Function.update_self]
      exact Nat.succ_le_succ hu
  · have hacted : w'.acted u = w.acted u := by
      rw [World.acted, hacts, List.countP_append, World.acted, Nat.add_eq_right,
        List.countP_eq_zero]
      intro a ha
      obtain ⟨dialogId, -, rfl⟩ := Option.map_eq_some_iff.mp (Option.mem_toList.mp ha)
      simpa using hne.symm
    exact hu.congr (by rw [hstatus]) (by rw [hposts, Function.update_of_ne hne]) hacted

/-- `curl` comes back. -/
theorem warmEnded (h : ∀ t, Once w t) {t : ℕ} {stdout : Option String}
    (hok : Answered env w (.warmEnded t stdout))
    (hs : w.step env (.warmEnded t stdout) = some w') (u : ℕ) : Once w' u := by
  obtain ⟨call, hwarm, -, hacts, hposts, hcases⟩ := World.step_warmEnded hs
  have hacted : w'.acted u = w.acted u := by rw [World.acted, hacts, World.acted]
  rcases eq_or_ne u t with rfl | hne
  · rcases hcases with ⟨-, -, id, hstatus | hstatus⟩ | ⟨hnone, child, -, -, hstatus⟩
    · rw [Once, hstatus, Function.update_self, hacted]
      exact (h u).acted_le
    · rw [Once, hstatus, Function.update_self, hacted]
      exact (h u).acted_le
    · have hzero := hok call (by rw [hwarm]; rfl) hnone
      rw [Once, hstatus, Function.update_self, hacted, hzero]
      exact Nat.zero_le _
  · have hstatus : w'.status u = w.status u := by
      rcases hcases with ⟨-, -, id, hstatus | hstatus⟩ | ⟨-, child, -, -, hstatus⟩ <;>
        rw [hstatus, Function.update_of_ne hne]
    exact (h u).congr hstatus (by rw [hposts]) hacted

/-- A call ends. -/
theorem ended (h : ∀ t, Once w t) {t : ℕ} {result : Except String (Option ℕ)}
    {sentIds : List ℕ} (u : ℕ) :
    Once { w with sentIds, status := Function.update w.status t (.ended result) } u := by
  rcases eq_or_ne u t with rfl | hne
  · rw [Once]
    dsimp only
    rw [Function.update_self]
    exact (h u).acted_le
  · exact (h u).congr (Function.update_of_ne hne ..) rfl rfl

/-- The child of a call acts. -/
theorem acts (h : ∀ t, Once w t) {t : ℕ} (hs : w.step env (.acts t) = some w') (u : ℕ) :
    Once w' u := by
  obtain ⟨call, child, ref, hcold, -, rfl⟩ := World.step_acts hs
  have hu := h u
  rcases eq_or_ne u t with rfl | hne
  · rw [Once, hcold] at hu
    rw [Once]
    dsimp only
    rw [Function.update_self, World.acted]
    refine (List.countP_cons_of_pos ?_).trans_le (Nat.succ_le_succ hu)
    exact decide_eq_true rfl
  · have hother : ¬decide ((t, call, env.dialog ref).1 = u) = true := by simpa using hne.symm
    exact hu.congr (Function.update_of_ne hne ..) rfl (List.countP_cons_of_neg hother)

/-- One event. -/
theorem step (h : ∀ t, Once w t) {e : Event} (hok : Answered env w e)
    (hs : w.step env e = some w') : ∀ t, Once w' t := by
  cases e with
  | switchDialog id =>
    obtain rfl := Option.some.inj hs
    exact h
  | adopt port =>
    obtain rfl := Option.some.inj hs
    exact h
  | start t action => exact start h hs
  | serve t readonly result => exact serve h hok hs
  | warmEnded t stdout => exact warmEnded h hok hs
  | loaded t error =>
    obtain ⟨call, id, result, -, rfl⟩ := World.step_loaded hs
    exact ended h
  | acts t => exact acts h hs
  | coldEnded t stdout stderr =>
    obtain ⟨call, child, acted, result, sentIds, -, rfl⟩ := World.step_coldEnded hs
    exact ended h

end Once

/-- In every run in which `curl` comes back with the answer of every POST the daemon acts
on, Telegram acts at most once for each call. -/
theorem acts_at_most_once {cfg : ModConfig}
    (h : Machine.Runs (World.step env) (Answered env) (.init cfg) w) (t : ℕ) : w.acted t ≤ 1 := by
  have honce : ∀ t, Once w t :=
    h.preserves (fun _ _ _ hw hok hs ↦ Once.step hw hok hs) fun _ ↦ ⟨rfl, rfl⟩
  exact (honce t).acted_le

/-- A text whose POST never arrives is sent by the child alone. -/
theorem acts_at_most_once_of_refusal : ∃ w,
    Machine.Runs (World.step asciiEnv) (Answered asciiEnv) (.init warmPane) w ∧
      w.acts = [(0, ⟨.text "hi", "7"⟩, "7")] ∧ w.acted 0 ≤ 1 := by
  have hexec : ((Machine.guarded (World.step asciiEnv) (Answered asciiEnv)).exec (.init warmPane)
      [.start 0 (.text "hi"), .warmEnded 0 (some ""), .acts 0,
        .coldEnded 0 "sent. [id=5]\n" ""]).any (fun w ↦
          w.acts = [(0, ⟨.text "hi", "7"⟩, "7")]) = true := by
    decide +kernel
  obtain ⟨w, hrun, hacts⟩ := Machine.exists_run_of_exec hexec
  exact ⟨w, hrun, hacts, acts_at_most_once hrun 0⟩

/-- The daemon sends a text, `curl` gives up on the answer, and the child sends it again. -/
theorem text_sent_twice : ∃ w,
    Machine.Runs (World.step asciiEnv) Machine.anyEvent (.init warmPane) w ∧
      w.acts = [(0, ⟨.text "hi", "7"⟩, "7"), (0, ⟨.text "hi", "7"⟩, "7")] ∧ w.acted 0 = 2 := by
  have hexec : ((Machine.guarded (World.step asciiEnv) fun _ _ ↦ True).exec (.init warmPane)
      [.start 0 (.text "hi"), .serve 0 false (.done 5), .warmEnded 0 (some ""), .acts 0]).any
        (fun w ↦ w.acts = [(0, ⟨.text "hi", "7"⟩, "7"), (0, ⟨.text "hi", "7"⟩, "7")] ∧
          w.acted 0 = 2) = true := by
    decide +kernel
  obtain ⟨w, hrun, hacts⟩ := Machine.exists_run_of_exec hexec
  exact ⟨w, hrun, hacts⟩

end TgMessenger.Pane
