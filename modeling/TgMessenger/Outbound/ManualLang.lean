import TgMessenger.Outbound.DialogLang

/-!
# The language the user has fixed

A language set by the user stays until the user changes it, in every run in which no detection
stores its language after such a change: the detection reads the stored language before it
suspends, and stores without a second look.
-/

namespace TgMessenger.Outbound.Detection

/-- Whether a call has read the language under the lock, and has not stored one. -/
def Stage.detecting : Stage → Bool
  | .loading _ | .asking _ _ | .storing _ _ _ => true
  | _ => false

namespace World

/-- What the user has fixed last is what `get_dialog_lang` returns. -/
def Respected (w : World) : Prop :=
  ∀ dialogId lang, w.manual dialogId = some lang →
    w.getDialogLang dialogId = some ⟨lang, .manual, none⟩

/-- No language is stored by a call since whose read of it the user has fixed one, unless the
user has removed it again. -/
def Undisturbed (w : World) : Event → Prop
  | .store t => w.since t = none
  | _ => True

instance (w : World) (e : Event) : Decidable (w.Undisturbed e) := by
  cases e <;> unfold Undisturbed <;> infer_instance

/-! ## Steps -/

/-- Only the call moves, and no language changes. -/
structure Frame (t : ℕ) (w w' : World) : Prop where
  kv : w'.kv = w.kv
  manual : w'.manual = w.manual
  since : w'.since = w.since
  stage : ∀ t' ≠ t, w'.stage t' = w.stage t'

theorem frame_goto (w : World) (t : ℕ) (stage : Stage) : Frame t w (w.goto t stage) where
  kv := rfl
  manual := rfl
  since := rfl
  stage _ ht := Function.update_of_ne ht ..

theorem stage_goto (w : World) (t : ℕ) (stage : Stage) : (w.goto t stage).stage t = stage :=
  Function.update_self ..

theorem frame_leave (cfg : Calls) (w : World) (t lock : ℕ) (stage : Stage) :
    Frame t w (w.leave cfg t lock stage) where
  kv := rfl
  manual := rfl
  since := rfl
  stage _ ht := Function.update_of_ne ht ..

theorem stage_leave (cfg : Calls) (w : World) (t lock : ℕ) (stage : Stage) :
    (w.leave cfg t lock stage).stage t = stage := Function.update_self ..

/-- The call waits for the lock or has it. -/
theorem enter_spec (cfg : Calls) (w : World) (t : ℕ) :
    Frame t w (w.enter cfg t) ∧ ((w.enter cfg t).stage t).detecting = false := by
  dsimp only [enter]
  split
  all_goals
    constructor
    · constructor
      · rfl
      · rfl
      · rfl
      · exact fun t' ht ↦ Function.update_of_ne ht ..
    · rw [stage_goto]
      rfl

theorem frame_found (cfg : Calls) (w : World) (t lock : ℕ) (finding : Finding) (now : Time) :
    Frame t w (w.found cfg t lock finding now) := by
  cases finding with
  | nothing => exact frame_leave ..
  | language lang => exact frame_goto ..
  | ask texts => exact frame_goto ..

theorem frame_detectAndStore (cfg : Calls) (w : World) (t lock : ℕ) (now : Time) :
    Frame t w (w.detectAndStore cfg t lock now) := by
  rw [detectAndStore]
  split
  · exact frame_goto ..
  · split
    · exact frame_found ..
    · exact frame_goto ..

/-- What a step does to the languages. -/
inductive Effect (cfg : Calls) (w : World) : Event → World → Prop where
  | /-- A call moves; it does not come to detect without a second read. -/
    move {e : Event} {w' : World} (t : ℕ) (hframe : Frame t w w')
      (hstage : (w'.stage t).detecting = true → (w.stage t).detecting = true)
      (he : w.Undisturbed e) : Effect cfg w e w'
  | reread {w' : World} (t : ℕ) (now : Time)
      (hstored : (w.kv (cfg.call t).dialogId).bind (freshStoredDialogLang now) = none)
      (hkv : w'.kv = w.kv) (hmanual : w'.manual = w.manual)
      (hsince : w'.since = Function.update w.since t none)
      (hother : ∀ t' ≠ t, w'.stage t' = w.stage t') : Effect cfg w (.reread t now) w'
  | store {w' : World} (t lock : ℕ) (lang : String) (detectedAt : Time)
      (ht : w.stage t = .storing lock lang detectedAt)
      (hkv : w'.kv = Function.update w.kv (cfg.call t).dialogId
        (some (dialogLang lang .auto (some detectedAt))))
      (hmanual : w'.manual = w.manual) (hsince : w'.since = w.since)
      (hstage : (w'.stage t).detecting = false) (hother : ∀ t' ≠ t, w'.stage t' = w.stage t') :
      Effect cfg w (.store t) w'
  | write {w' : World} (u : ℕ) (lang : Option String)
      (hkv : w'.kv = Function.update w.kv (cfg.change u).dialogId
        (lang.map fun lang ↦ dialogLang lang .manual none))
      (hmanual : w'.manual = Function.update w.manual (cfg.change u).dialogId lang)
      (hsince : ∀ t, w'.since t =
        if (cfg.call t).dialogId = (cfg.change u).dialogId then lang else w.since t)
      (hstage : w'.stage = w.stage) : Effect cfg w (.write u) w'

/-- A call that ends or waits does not detect. -/
theorem Effect.quiet {cfg : Calls} {w w' : World} {e : Event} {t : ℕ} (hframe : Frame t w w')
    (hstage : (w'.stage t).detecting = false) (he : w.Undisturbed e) : Effect cfg w e w' := by
  refine .move t hframe ?_ he
  rw [hstage]
  intro h
  cases h

theorem Effect.of_goto (cfg : Calls) (w : World) {e : Event} (t : ℕ) {stage : Stage}
    (hstage : stage.detecting = false) (he : w.Undisturbed e) :
    Effect cfg w e (w.goto t stage) :=
  .quiet (frame_goto ..) (by rw [stage_goto, hstage]) he

theorem Effect.of_leave (cfg : Calls) (w : World) {e : Event} (t lock : ℕ) {stage : Stage}
    (hstage : stage.detecting = false) (he : w.Undisturbed e) :
    Effect cfg w e (w.leave cfg t lock stage) :=
  .quiet (frame_leave ..) (by rw [stage_leave, hstage]) he

/-- A change of the user that is not its write changes no language. -/
theorem Effect.of_change (cfg : Calls) (w : World) {e : Event} (change : ℕ → ChangeStage)
    (he : w.Undisturbed e) : Effect cfg w e { w with change } :=
  .move 0 ⟨rfl, rfl, rfl, fun _ _ ↦ rfl⟩ id he

/-! ### A call -/

theorem effect_of_read {cfg : Calls} {w w' : World} {t : ℕ} {now : Time}
    (hs : step cfg w (.read t now) = some w') : Effect cfg w (.read t now) w' := by
  simp only [step] at hs
  split at hs
  · split at hs <;> cases hs
    · exact .of_goto cfg w t rfl trivial
    · obtain ⟨hframe, hstage⟩ := enter_spec cfg w t
      exact .quiet hframe hstage trivial
  · cases hs

theorem effect_of_resume {cfg : Calls} {w w' : World} {t : ℕ}
    (hs : step cfg w (.resume t) = some w') : Effect cfg w (.resume t) w' := by
  simp only [step] at hs
  split at hs
  · split_ifs at hs
    cases hs
    refine .quiet (t := t) ⟨rfl, rfl, rfl, fun _ ht ↦ Function.update_of_ne ht ..⟩ ?_ trivial
    rw [stage_goto]
    rfl
  · cases hs

/-- The second read finds a language, or the call is to detect one. -/
theorem effect_of_reread {cfg : Calls} {w w' : World} {t : ℕ} {now : Time}
    (hs : step cfg w (.reread t now) = some w') : Effect cfg w (.reread t now) w' := by
  simp only [step] at hs
  split at hs
  · split at hs <;> cases hs
    · exact .of_leave cfg w t _ rfl trivial
    · next hstored =>
      have hframe := frame_detectAndStore cfg
        { w with since := Function.update w.since t none } t
      exact .reread t now hstored (hframe ..).kv (hframe ..).manual (hframe ..).since
        (hframe ..).stage
  · cases hs

theorem effect_of_abort {cfg : Calls} {w w' : World} {t : ℕ}
    (hs : step cfg w (.abort t) = some w') : Effect cfg w (.abort t) w' := by
  simp only [step] at hs
  split at hs <;> cases hs
  · exact .of_goto cfg w t rfl trivial
  · refine .quiet (t := t) ⟨rfl, rfl, rfl, fun _ ht ↦ Function.update_of_ne ht ..⟩ ?_ trivial
    rw [stage_goto]
    rfl
  all_goals exact .of_leave cfg w t _ rfl trivial

/-! ### One event -/

theorem step_effect {cfg : Calls} {w w' : World} {e : Event} (hs : step cfg w e = some w') :
    Effect cfg w e w' := by
  cases e with
  | call t =>
    simp only [step] at hs
    split at hs <;> cases hs
    exact .of_goto cfg w t rfl trivial
  | read t now => exact effect_of_read hs
  | resume t => exact effect_of_resume hs
  | reread t now => exact effect_of_reread hs
  | loaded t history now =>
    simp only [step] at hs
    split at hs <;> cases hs
    next hstage =>
      refine .move t (frame_found ..) ?_ trivial
      intro _
      rw [hstage]
      rfl
  | answered t lang now =>
    simp only [step] at hs
    split at hs <;> cases hs
    next hstage =>
      refine .move t (frame_found ..) ?_ trivial
      intro _
      rw [hstage]
      rfl
  | store t =>
    simp only [step] at hs
    split at hs <;> cases hs
    next hstage =>
      refine .store t _ _ _ hstage rfl rfl rfl ?_ fun _ ht ↦ Function.update_of_ne ht ..
      rw [stage_goto]
      rfl
  | finish t =>
    simp only [step] at hs
    split at hs <;> cases hs
    exact .of_leave cfg w t _ rfl trivial
  | abort t => exact effect_of_abort hs
  | setDialogLang u =>
    simp only [step] at hs
    split at hs <;> cases hs
    exact .of_change cfg w _ trivial
  | write u =>
    simp only [step] at hs
    split at hs <;> cases hs
    exact .write u _ rfl rfl (fun _ ↦ rfl) rfl
  | returned u =>
    simp only [step] at hs
    split at hs <;> cases hs
    exact .of_change cfg w _ trivial
  | abortChange u =>
    simp only [step] at hs
    split at hs <;> cases hs
    all_goals exact .of_change cfg w _ trivial

/-! ## Runs -/

/-- A call that detects knows of the language the user has fixed, unless it was fixed since. -/
structure Sound (cfg : Calls) (w : World) : Prop where
  respected : w.Respected
  behind : ∀ t, (w.stage t).detecting = true → ∀ lang,
    w.manual (cfg.call t).dialogId = some lang → w.since t = some lang
  ahead : ∀ t lang, w.since t = some lang → w.manual (cfg.call t).dialogId = some lang

theorem sound_init (cfg : Calls) : Sound cfg init where
  respected dialogId lang h := by cases h
  behind t h := by cases h
  ahead t lang h := by cases h

/-- A language of the user is fresh at any time. -/
theorem Sound.manual_eq_none {cfg : Calls} {w : World} (h : Sound cfg w) {dialogId : ℤ}
    {now : Time} (hstored : (w.kv dialogId).bind (freshStoredDialogLang now) = none) :
    w.manual dialogId = none := by
  cases hmanual : w.manual dialogId with
  | none => rfl
  | some lang =>
    have hkv : w.kv dialogId = some ⟨lang, .manual, none⟩ := h.respected dialogId lang hmanual
    rw [hkv] at hstored
    cases hstored

/-- A step keeps what the user has fixed if and only if it meets the condition. -/
theorem Sound.respected_iff {cfg : Calls} {w w' : World} {e : Event} (h : Sound cfg w)
    (hs : step cfg w e = some w') : w'.Respected ↔ w.Undisturbed e := by
  cases step_effect hs with
  | move t hframe hstage he =>
    refine iff_of_true ?_ he
    intro dialogId lang hmanual
    rw [hframe.manual] at hmanual
    rw [getDialogLang, hframe.kv]
    exact h.respected dialogId lang hmanual
  | reread t now hstored hkv hmanual hsince hother =>
    refine iff_of_true ?_ trivial
    intro dialogId lang hlang
    rw [hmanual] at hlang
    rw [getDialogLang, hkv]
    exact h.respected dialogId lang hlang
  | store t lock lang detectedAt ht hkv hmanual hsince hstage hother =>
    have hdetecting : (w.stage t).detecting = true := by
      rw [ht]
      rfl
    constructor
    · intro hrespected
      show w.since t = none
      cases hfixed : w.since t with
      | none => rfl
      | some fixed =>
        have hlang : w'.manual (cfg.call t).dialogId = some fixed := by
          rw [hmanual]
          exact h.ahead t fixed hfixed
        have hread := hrespected _ fixed hlang
        rw [getDialogLang, hkv, Function.update_self] at hread
        cases hread
    · intro (hnone : w.since t = none) dialogId fixed hlang
      rw [hmanual] at hlang
      rw [getDialogLang, hkv]
      have hne : dialogId ≠ (cfg.call t).dialogId := by
        rintro rfl
        have hfixed := h.behind t hdetecting fixed hlang
        rw [hnone] at hfixed
        cases hfixed
      rw [Function.update_of_ne hne]
      exact h.respected dialogId fixed hlang
  | write u lang hkv hmanual hsince hstage =>
    refine iff_of_true ?_ trivial
    intro dialogId fixed hfixed
    rw [getDialogLang, hkv]
    rw [hmanual] at hfixed
    by_cases hd : dialogId = (cfg.change u).dialogId
    · subst hd
      rw [Function.update_self] at hfixed ⊢
      rw [hfixed]
      rfl
    · rw [Function.update_of_ne hd] at hfixed ⊢
      exact h.respected dialogId fixed hfixed

theorem Sound.step {cfg : Calls} {w w' : World} {e : Event} (h : Sound cfg w)
    (hok : w.Undisturbed e) (hs : step cfg w e = some w') : Sound cfg w' := by
  have hrespected := (h.respected_iff hs).mpr hok
  cases step_effect hs with
  | move t hframe hstage he =>
    refine ⟨hrespected, ?_, ?_⟩
    · intro t' ht' lang hlang
      rw [hframe.manual] at hlang
      rw [hframe.since]
      refine h.behind t' ?_ lang hlang
      by_cases heq : t' = t
      · subst heq
        exact hstage ht'
      · rwa [hframe.stage t' heq] at ht'
    · rw [hframe.manual, hframe.since]
      exact h.ahead
  | reread t now hstored hkv hmanual hsince hother =>
    refine ⟨hrespected, ?_, ?_⟩
    · intro t' ht' lang hlang
      rw [hmanual] at hlang
      have hne : t' ≠ t := by
        rintro rfl
        rw [h.manual_eq_none hstored] at hlang
        cases hlang
      rw [hsince, Function.update_of_ne hne]
      rw [hother t' hne] at ht'
      exact h.behind t' ht' lang hlang
    · intro t' lang hlang
      rw [hsince] at hlang
      rw [hmanual]
      by_cases heq : t' = t
      · subst heq
        rw [Function.update_self] at hlang
        cases hlang
      · rw [Function.update_of_ne heq] at hlang
        exact h.ahead t' lang hlang
  | store t lock lang detectedAt ht hkv hmanual hsince hstage hother =>
    refine ⟨hrespected, ?_, ?_⟩
    · intro t' ht' fixed hfixed
      rw [hmanual] at hfixed
      rw [hsince]
      have hne : t' ≠ t := by
        rintro rfl
        rw [hstage] at ht'
        cases ht'
      rw [hother t' hne] at ht'
      exact h.behind t' ht' fixed hfixed
    · rw [hmanual, hsince]
      exact h.ahead
  | write u lang hkv hmanual hsince hstage =>
    refine ⟨hrespected, ?_, ?_⟩
    · intro t' ht' fixed hfixed
      rw [hmanual] at hfixed
      rw [hsince]
      rw [hstage] at ht'
      by_cases hd : (cfg.call t').dialogId = (cfg.change u).dialogId
      · rw [hd, Function.update_self] at hfixed
        rw [hfixed]
        exact if_pos hd
      · rw [Function.update_of_ne hd] at hfixed
        exact (if_neg hd).trans (h.behind t' ht' fixed hfixed)
    · intro t' fixed hfixed
      rw [hsince] at hfixed
      rw [hmanual]
      by_cases hd : (cfg.call t').dialogId = (cfg.change u).dialogId
      · rw [if_pos hd] at hfixed
        rw [hd, Function.update_self, hfixed]
      · rw [if_neg hd] at hfixed
        rw [Function.update_of_ne hd]
        exact h.ahead t' fixed hfixed

/-- In every run all of whose steps meet the condition the language the user has fixed is the
one that is read, and of the steps that may follow, those and only those keep it that meet the
condition. -/
theorem manual_lang_respected {cfg : Calls} {w : World}
    (h : Machine.Runs (step cfg) Undisturbed init w) :
    w.Respected ∧ ∀ e w', step cfg w e = some w' → (w'.Respected ↔ w.Undisturbed e) := by
  have hsound := h.preserves (I := Sound cfg) (fun _ _ _ hw hok hs ↦ hw.step hok hs)
    (sound_init cfg)
  exact ⟨hsound.respected, fun e w' ↦ hsound.respected_iff⟩

/-- Detections in dialog 5, which the user sets to Spanish, to nothing, and to Spanish again. -/
def fiveCalls : Calls where
  call _ := { translator := 0, dialogId := 5 }
  change u := { dialogId := 5, code := if u = 1 then none else some " ES" }
  hasDetector _ := true

/-- A message of the other side. -/
def hello : Message :=
  { id := 1, dialogId := 5, senderId := 5, out := false, date := "", text := some "hello" }

/-- The events up to the detector's answer, some changes made meanwhile. -/
def detection (changes : List ℕ) : List Event :=
  [.call 0, .read 0 0, .reread 0 0, .loaded 0 [hello] 0] ++
    changes.flatMap (fun u ↦ [.setDialogLang u, .write u, .returned u]) ++
    [.answered 0 (some "en") 0, .store 0, .finish 0]

/-- A change that is taken back while the detection is under way, and one that comes after it. -/
theorem manual_lang_respected_of_removal :
    ∃ w, Machine.Runs (step fiveCalls) Undisturbed init w ∧ w.manual 5 = some "es" ∧
      w.Respected := by
  have hexec : (((step fiveCalls).guarded Undisturbed).exec init
      (detection [0, 1] ++ [.setDialogLang 2, .write 2, .returned 2])).any
        (fun w ↦ w.manual 5 = some "es") = true := by
    decide +kernel
  obtain ⟨w, hrun, hmanual⟩ := Machine.exists_run_of_exec hexec
  exact ⟨w, hrun, hmanual, (manual_lang_respected hrun).1⟩

/-- The user sets the language while the detector is at work; the answer replaces it. -/
theorem manual_lang_overwritten :
    ∃ w, Machine.Runs (step fiveCalls) Machine.anyEvent init w ∧ w.change 0 = .returned ∧
      w.manual 5 = some "es" ∧ w.getDialogLang 5 = some ⟨"en", .auto, some 0⟩ := by
  have hexec : ((Machine.guarded (step fiveCalls) fun _ _ ↦ True).exec init (detection [0])).any
      (fun w ↦ w.change 0 = .returned ∧ w.manual 5 = some "es" ∧
        w.getDialogLang 5 = some ⟨"en", .auto, some 0⟩) = true := by
    decide +kernel
  obtain ⟨w, hrun, hw⟩ := Machine.exists_run_of_exec hexec
  exact ⟨w, hrun, hw⟩

end World

end TgMessenger.Outbound.Detection
