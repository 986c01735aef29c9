import TgMessenger.Pane.Send

/-!
# The recipient of a send

A call takes the recipient of its POST from the configuration when it starts, and the
recipient of its CLI child from the configuration when the child is spawned.  The POST
therefore always names the dialog the call was started in, and the child names it exactly
when that dialog is the open one again, or still, when `curl` comes back without an answer.
-/

namespace TgMessenger.Pane

variable {env : Env} {w w' : World}

/-- The target of a configuration and its resolved id name one dialog. -/
def ModConfig.Coherent (env : Env) (cfg : ModConfig) : Prop :=
  env.dialog cfg.peerRef = env.dialog cfg.resolvedId

theorem ModConfig.coherent_switchDialog (cfg : ModConfig) (id : String) :
    (cfg.switchDialog id).Coherent env := by
  rw [Coherent, peerRef_switchDialog, resolvedId_switchDialog]

/-! ## Runs -/

/-- The CLI child a call waits for, with the call. -/
def Status.child : Status → Option (Call × Spawn)
  | .cold call child _ => some (call, child)
  | _ => none

/-- What holds in every run. -/
structure Traced (env : Env) (w : World) : Prop where
  coherent : w.cfg.Coherent env
  post : ∀ t post, w.posts t = some post → (post.call, post.spawn) ∈ w.spawned
  child : ∀ t c, (w.status t).child = some c → c ∈ w.spawned
  /-- Telegram acts only in dialogs a child names. -/
  act : ∀ a ∈ w.acts, ∃ child, (a.2.1, child) ∈ w.spawned ∧ child.ref.map env.dialog = some a.2.2

/-- Every child names the dialog its call was started in. -/
def Kept (env : Env) (w : World) : Prop :=
  ∀ s ∈ w.spawned, s.2.ref.map env.dialog = some s.1.dialog

/-- When a call falls back, the dialog it was started in is the open one. -/
def Stays (env : Env) (w : World) : Event → Prop
  | .warmEnded t stdout => ∀ call ∈ (w.status t).waiting,
      stdout.filter (call.action.plan env).answered = none →
        env.dialog w.cfg.resolvedId = call.dialog
  | _ => True

instance (env : Env) (w : World) (e : Event) : Decidable (Stays env w e) :=
  match e with
  | .warmEnded t stdout => inferInstanceAs (Decidable (∀ call ∈ (w.status t).waiting,
      stdout.filter (call.action.plan env).answered = none →
        env.dialog w.cfg.resolvedId = call.dialog))
  | .switchDialog _ | .adopt _ | .start .. | .serve .. | .loaded .. | .acts _ | .coldEnded .. =>
    .isTrue trivial

theorem traced_init {cfg : ModConfig} (h : cfg.Coherent env) : Traced env (.init cfg) where
  coherent := h
  post _ _ h := nomatch h
  child _ _ h := nomatch h
  act _ h := absurd h List.not_mem_nil

theorem kept_init (cfg : ModConfig) : Kept env (.init cfg) := fun _ h ↦ absurd h List.not_mem_nil

/-- A call that is not in its child says nothing new about children. -/
theorem child_of_update {status : ℕ → Status} {t u : ℕ} {s : Status} {c : Call × Spawn}
    (h : (Function.update status t s u).child = some c) (hs : s.child = none) :
    (status u).child = some c := by
  rw [Function.update_apply] at h
  split_ifs at h
  · exact nomatch hs.symm.trans h
  · exact h

namespace Traced

/-- A call starts; its POST, if any, names the open dialog. -/
theorem start (h : Traced env w) {t : ℕ} {action : Action}
    (hs : w.step env (.start t action) = some w') :
    Traced env w' ∧ (Kept env w' ↔ Kept env w) := by
  obtain ⟨-, hcfg, hacts, hstatus, ⟨hspawned, hposts⟩ | ⟨spawn, href, hspawned, hposts⟩⟩ :=
    World.step_start hs
  · refine ⟨⟨?_, ?_, ?_, ?_⟩, ?_⟩
    · rw [hcfg]
      exact h.coherent
    · rw [hposts, hspawned]
      exact h.post
    · intro u c hu
      rw [hstatus] at hu
      rw [hspawned]
      exact h.child u c (child_of_update hu rfl)
    · rw [hacts, hspawned]
      exact h.act
    · rw [Kept, hspawned, Kept]
  · refine ⟨⟨?_, ?_, ?_, ?_⟩, ?_⟩
    · rw [hcfg]
      exact h.coherent
    · intro u post hu
      rw [hposts, Function.update_apply] at hu
      rw [hspawned]
      split_ifs at hu
      · obtain rfl := Option.some.inj hu
        exact List.mem_cons_self
      · exact List.mem_cons_of_mem _ (h.post u post hu)
    · intro u c hu
      rw [hstatus] at hu
      rw [hspawned]
      exact List.mem_cons_of_mem _ (h.child u c (child_of_update hu rfl))
    · intro a ha
      rw [hacts] at ha
      obtain ⟨child, hmem, hdialog⟩ := h.act a ha
      rw [hspawned]
      exact ⟨child, List.mem_cons_of_mem _ hmem, hdialog⟩
    · rw [Kept, hspawned, List.forall_mem_cons, Kept, and_iff_right]
      rw [href, Option.map_some]

/-- The daemon handles a POST. -/
theorem serve (h : Traced env w) {t : ℕ} {readonly : Bool} {result : ClientResult}
    (hs : w.step env (.serve t readonly result) = some w') :
    Traced env w' ∧ (Kept env w' ↔ Kept env w) := by
  obtain ⟨post, hpost, -, hcfg, hstatus, hspawned, hposts, hacts⟩ := World.step_serve hs
  refine ⟨⟨?_, ?_, ?_, ?_⟩, ?_⟩
  · rw [hcfg]
    exact h.coherent
  · intro u post' hu
    rw [hposts, Function.update_apply] at hu
    rw [hspawned]
    split_ifs at hu
    · obtain rfl := Option.some.inj hu
      exact h.post t post hpost
    · exact h.post u post' hu
  · rw [hstatus, hspawned]
    exact h.child
  · intro a ha
    rw [hacts, List.mem_append] at ha
    rw [hspawned]
    rcases ha with ha | ha
    · obtain ⟨dialogId, hroute, rfl⟩ := Option.map_eq_some_iff.mp (Option.mem_toList.mp ha)
      refine ⟨post.spawn, h.post t post hpost, ?_⟩
      rw [ref_of_route hroute, Option.map_some]
    · exact h.act a ha
  · rw [Kept, hspawned, Kept]

/-- A call ends with the answer, or falls back to a child that names the open dialog. -/
theorem warmEnded (h : Traced env w) {t : ℕ} {stdout : Option String}
    (hs : w.step env (.warmEnded t stdout) = some w') :
    Traced env w' ∧ (Kept env w' ↔ Kept env w ∧ Stays env w (.warmEnded t stdout)) := by
  obtain ⟨call, hwarm, hcfg, hacts, hposts, ⟨hanswer, hspawned, id, hstatus⟩ |
    ⟨hnone, child, href, hspawned, hstatus⟩⟩ := World.step_warmEnded hs
  · refine ⟨⟨?_, ?_, ?_, ?_⟩, ?_⟩
    · rw [hcfg]
      exact h.coherent
    · rw [hposts, hspawned]
      exact h.post
    · intro u c hu
      rw [hspawned]
      rcases hstatus with hstatus | hstatus <;> rw [hstatus] at hu <;>
        exact h.child u c (child_of_update hu rfl)
    · rw [hacts, hspawned]
      exact h.act
    · rw [Kept, hspawned, Kept, and_iff_left]
      intro call' hcall hnone
      rw [hwarm] at hcall
      obtain rfl := Option.some.inj hcall
      exact absurd hnone hanswer
  · refine ⟨⟨?_, ?_, ?_, ?_⟩, ?_⟩
    · rw [hcfg]
      exact h.coherent
    · intro u post hu
      rw [hposts] at hu
      rw [hspawned]
      exact List.mem_cons_of_mem _ (h.post u post hu)
    · intro u c hu
      rw [hstatus, Function.update_apply] at hu
      rw [hspawned]
      split_ifs at hu
      · obtain rfl := Option.some.inj hu
        exact List.mem_cons_self
      · exact List.mem_cons_of_mem _ (h.child u c hu)
    · intro a ha
      rw [hacts] at ha
      obtain ⟨child', hmem, hdialog⟩ := h.act a ha
      rw [hspawned]
      exact ⟨child', List.mem_cons_of_mem _ hmem, hdialog⟩
    · rw [Kept, hspawned, List.forall_mem_cons, Kept, and_comm]
      apply and_congr_right
      intro _
      dsimp only
      rw [href, Option.map_some, h.coherent, Option.some_inj]
      constructor
      · intro hdialog call' hcall _
        rw [hwarm] at hcall
        obtain rfl := Option.some.inj hcall
        exact hdialog
      · intro hstays
        exact hstays call (by rw [hwarm]; rfl) hnone

/-- The child of a call acts. -/
theorem acts (h : Traced env w) {t : ℕ} (hs : w.step env (.acts t) = some w') :
    Traced env w' ∧ (Kept env w' ↔ Kept env w) := by
  obtain ⟨call, child, ref, hcold, href, rfl⟩ := World.step_acts hs
  refine ⟨⟨h.coherent, h.post, ?_, ?_⟩, Iff.rfl⟩
  · intro u c hu
    simp only [Function.update_apply] at hu
    split_ifs at hu
    · obtain rfl := Option.some.inj hu
      exact h.child t _ (congrArg Status.child hcold)
    · exact h.child u c hu
  · intro a ha
    rcases List.mem_cons.mp ha with rfl | ha
    · refine ⟨child, h.child t _ (congrArg Status.child hcold), ?_⟩
      rw [href, Option.map_some]
    · exact h.act a ha

/-- One event. -/
theorem step (h : Traced env w) {e : Event} (hs : w.step env e = some w') :
    Traced env w' ∧ (Kept env w' ↔ Kept env w ∧ Stays env w e) := by
  cases e with
  | switchDialog id =>
    obtain rfl := Option.some.inj hs
    exact ⟨⟨w.cfg.coherent_switchDialog id, h.post, h.child, h.act⟩, (and_iff_left trivial).symm⟩
  | adopt port =>
    obtain rfl := Option.some.inj hs
    exact ⟨⟨h.coherent, h.post, h.child, h.act⟩, (and_iff_left trivial).symm⟩
  | start t action =>
    rw [and_iff_left (show Stays env w (.start t action) from trivial)]
    exact h.start hs
  | serve t readonly result =>
    rw [and_iff_left (show Stays env w (.serve t readonly result) from trivial)]
    exact h.serve hs
  | warmEnded t stdout => exact h.warmEnded hs
  | loaded t error =>
    obtain ⟨call, id, result, -, rfl⟩ := World.step_loaded hs
    refine ⟨⟨h.coherent, h.post, ?_, h.act⟩, (and_iff_left trivial).symm⟩
    intro u c hu
    exact h.child u c (child_of_update hu rfl)
  | acts t =>
    rw [and_iff_left (show Stays env w (.acts t) from trivial)]
    exact h.acts hs
  | coldEnded t stdout stderr =>
    obtain ⟨call, child, acted, result, sentIds, -, rfl⟩ := World.step_coldEnded hs
    refine ⟨⟨h.coherent, h.post, ?_, h.act⟩, (and_iff_left trivial).symm⟩
    intro u c hu
    exact h.child u c (child_of_update hu rfl)

/-- When the children name the dialogs their calls were started in, Telegram acts nowhere
else. -/
theorem act_kept (h : Traced env w) (hkept : Kept env w) : ∀ a ∈ w.acts, a.2.2 = a.2.1.dialog := by
  intro a ha
  obtain ⟨child, hmem, hdialog⟩ := h.act a ha
  exact Option.some.inj (hdialog.symm.trans (hkept _ hmem))

end Traced

/-- After any run, every child names the dialog its call was started in, and Telegram has
acted in no other, if and only if every call that fell back did so while that dialog was
open. -/
theorem recipient_kept_iff {cfg : ModConfig} (hcfg : cfg.Coherent env)
    (h : Machine.Runs (World.step env) Machine.anyEvent (.init cfg) w) :
    (Kept env w ∧ ∀ a ∈ w.acts, a.2.2 = a.2.1.dialog) ↔
      Machine.Runs (World.step env) (Stays env) (.init cfg) w := by
  have htraced : Traced env w :=
    h.preserves (fun _ _ _ hw _ hs ↦ (hw.step hs).1) (traced_init hcfg)
  rw [and_iff_left_of_imp htraced.act_kept]
  exact h.iff_of_step (fun _ _ _ hw hs ↦ (hw.step hs).1) (fun _ _ _ hw hs ↦ (hw.step hs).2)
    (traced_init hcfg) (kept_init cfg)

/-- A world whose usernames are not used and whose integers are those of ASCII. -/
def asciiEnv : Env where
  username name := name
  isdigit := Char.isDigit
  isInt s := !s.toList.isEmpty && s.toList.all Char.isDigit
  jsonId body := if body = "\x7b\"id\":5\x7d" then some 5 else none

/-- A pane on dialog 7 with a warm daemon. -/
def warmPane : ModConfig := ⟨"p", "7", "7", false, true, "", some 18080⟩

theorem coherent_warmPane : warmPane.Coherent asciiEnv := by
  rw [ModConfig.Coherent]
  decide +kernel

/-- The answer to a text reaches the pane after a switch to dialog 8. -/
theorem recipient_kept_of_answer : ∃ w,
    Machine.Runs (World.step asciiEnv) Machine.anyEvent (.init warmPane) w ∧
      w.cfg.resolvedId = "8" ∧ w.acts = [(0, ⟨.text "hi", "7"⟩, "7")] ∧ Kept asciiEnv w := by
  have hexec : ((Machine.guarded (World.step asciiEnv) (Stays asciiEnv)).exec (.init warmPane)
      [.start 0 (.text "hi"), .switchDialog "8", .serve 0 false (.done 5),
        .warmEnded 0 (some "\x7b\"id\":5\x7d"), .loaded 0 none]).any (fun w ↦
          w.cfg.resolvedId = "8" ∧ w.acts = [(0, ⟨.text "hi", "7"⟩, "7")]) = true := by
    decide +kernel
  obtain ⟨w, hrun, hdialog, hacts⟩ := Machine.exists_run_of_exec hexec
  have hany := hrun.mono fun _ _ _ ↦ trivial
  exact ⟨w, hany, hdialog, hacts, ((recipient_kept_iff coherent_warmPane hany).mpr hrun).1⟩

/-- The daemon refuses a text after a switch to dialog 8, and the child sends it there. -/
theorem text_sent_elsewhere : ∃ w,
    Machine.Runs (World.step asciiEnv) Machine.anyEvent (.init warmPane) w ∧
      warmPane.Coherent asciiEnv ∧ w.acts = [(0, ⟨.text "hi", "7"⟩, "8")] := by
  have hexec : ((Machine.guarded (World.step asciiEnv) fun _ _ ↦ True).exec (.init warmPane)
      [.start 0 (.text "hi"), .switchDialog "8", .warmEnded 0 none, .acts 0]).any (fun w ↦
        w.acts = [(0, ⟨.text "hi", "7"⟩, "8")]) = true := by
    decide +kernel
  obtain ⟨w, hrun, hacts⟩ := Machine.exists_run_of_exec hexec
  exact ⟨w, hrun, coherent_warmPane, hacts⟩

end TgMessenger.Pane
