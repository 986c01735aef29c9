import TgMessenger.Core.Names
import TgMessenger.Data.Machine
import Mathlib.Logic.Function.Basic

/-!
# The queue file of a session

`worker_reports_path` (`interop/worker.py`): every session has a queue file of its own.  The
one that all sessions once shared is renamed to the file of a session that starts and has
none.  Any number of processes may be at it at once: whether the files exist is looked up
first, the rename comes later.
-/

namespace TgMessenger.Interop.Adoption

variable {α : Type}

/-- `LEGACY_REPORTS_NAME`. -/
def legacyReportsName : String := "interop_reports.json"

/-- The name of the file of a session. -/
def reportsName (session : String) : String :=
  "interop_reports-" ++ sanitizeProfileName session ++ ".json"

theorem reportsName_ne_legacy (session : String) : reportsName session ≠ legacyReportsName := by
  intro h
  have hlist := congrArg (fun s : String ↦ s.toList[15]?) h
  simp only [reportsName, String.toList_append] at hlist
  cases hlist

/-- Sessions share a file only when they share the sanitised name. -/
theorem sanitize_eq_of_reportsName_eq {session session' : String}
    (h : reportsName session = reportsName session') :
    sanitizeProfileName session = sanitizeProfileName session' := by
  have hlist := congrArg String.toList h
  simp only [reportsName, String.toList_append, List.append_cancel_right_eq,
    List.append_cancel_left_eq] at hlist
  exact String.toList_inj.mp hlist

/-- How a call came back. -/
inductive Outcome where
  /-- The session has a file. -/
  | own
  /-- There is no legacy file. -/
  | noLegacy
  | adopted
  /-- The legacy file was gone when it was to be renamed. -/
  | gone
  /-- Renaming failed, and was logged. -/
  | failed
deriving DecidableEq

/-- What a call does next. -/
inductive Stage where
  /-- `path.exists()`. -/
  | lookUp
  /-- `legacy.exists()`. -/
  | lookUpLegacy
  /-- `legacy.replace(path)`. -/
  | replace
  | returned (outcome : Outcome)
deriving DecidableEq

/-- A call of `worker_reports_path`. -/
structure Call where
  session : String
  stage : Stage
deriving DecidableEq

/-- The files of the home directory by name, and the calls. -/
structure Home (α : Type) where
  files : String → Option α
  calls : List Call

/-- What can happen. -/
inductive Event where
  /-- A process calls `worker_reports_path`. -/
  | call (session : String)
  /-- A call goes on; `fails` is about the rename. -/
  | go (i : ℕ) (fails : Bool)

namespace Home

/-- Before the first call. -/
def init (files : String → Option α) : Home α := ⟨files, []⟩

/-- A call is at another stage. -/
def goTo (h : Home α) (i : ℕ) (session : String) (stage : Stage) : Home α :=
  { h with calls := h.calls.set i ⟨session, stage⟩ }

/-- `legacy.replace(path)`, when it does not fail for another reason. -/
def replace (h : Home α) (i : ℕ) (session : String) : Home α :=
  match h.files legacyReportsName with
  | none => h.goTo i session (.returned .gone)
  | some content =>
    { h.goTo i session (.returned .adopted) with
      files := Function.update (Function.update h.files legacyReportsName none)
        (reportsName session) (some content) }

/-- What an event does. -/
def step : Machine (Home α) Event
  | h, .call session => some { h with calls := h.calls ++ [⟨session, .lookUp⟩] }
  | h, .go i fails =>
    match h.calls[i]? with
    | some ⟨session, .lookUp⟩ =>
      some (h.goTo i session
        (if (h.files (reportsName session)).isSome then .returned .own else .lookUpLegacy))
    | some ⟨session, .lookUpLegacy⟩ =>
      some (h.goTo i session
        (if (h.files legacyReportsName).isSome then .replace else .returned .noLegacy))
    | some ⟨session, .replace⟩ =>
      some (if fails then h.goTo i session (.returned .failed) else h.replace i session)
    | _ => none

end Home

/-! ## Where the reports are -/

/-- The legacy file has become the file of a session that had none. -/
def Moved (files files' : String → Option α) (session : String) : Prop :=
  files (reportsName session) = none ∧ ∃ content, files legacyReportsName = some content ∧
    files' = Function.update (Function.update files legacyReportsName none)
      (reportsName session) (some content)

/-- After the move the legacy file is gone. -/
theorem Moved.legacy {files files' : String → Option α} {session : String}
    (h : Moved files files' session) : files' legacyReportsName = none := by
  obtain ⟨-, content, -, rfl⟩ := h
  rw [Function.update_of_ne (reportsName_ne_legacy session).symm, Function.update_self]

/-- A session that has no file after the move had none before. -/
theorem Moved.free {files files' : String → Option α} {session session' : String}
    (h : Moved files files' session) (hfree : files' (reportsName session') = none) :
    files (reportsName session') = none := by
  obtain ⟨-, content, -, rfl⟩ := h
  by_cases hsame : reportsName session' = reportsName session
  · rw [hsame, Function.update_self] at hfree
    cases hfree
  · rwa [Function.update_of_ne hsame, Function.update_of_ne (reportsName_ne_legacy session')]
      at hfree

namespace Home

variable {files : String → Option α} {h h' : Home α}

/-- The files are as they were, or the legacy file has been moved; and a call that found no
file of its session was right about it. -/
structure Sound (files : String → Option α) (h : Home α) : Prop where
  placed : h.files = files ∨ ∃ call ∈ h.calls, Moved files h.files call.session
  free : ∀ call ∈ h.calls, call.stage = .lookUpLegacy ∨ call.stage = .replace →
    files (reportsName call.session) = none

/-- A call that is at another stage is still a call of its session. -/
theorem exists_session_set {calls : List Call} {i : ℕ} {session : String} {stage : Stage}
    (hcall : calls[i]? = some ⟨session, stage⟩) (stage' : Stage) {P : String → Prop}
    (hP : ∃ call ∈ calls, P call.session) :
    ∃ call ∈ calls.set i ⟨session, stage'⟩, P call.session := by
  obtain ⟨call, hmem, hP⟩ := hP
  obtain ⟨j, hj, rfl⟩ := List.mem_iff_getElem.mp hmem
  by_cases hij : i = j
  · subst hij
    refine ⟨⟨session, stage'⟩, List.mem_set hj _, ?_⟩
    rw [List.getElem?_eq_getElem hj, Option.some.injEq] at hcall
    rwa [hcall] at hP
  · refine ⟨calls[j], List.mem_iff_getElem?.mpr ⟨j, ?_⟩, hP⟩
    rw [List.getElem?_set_ne hij, List.getElem?_eq_getElem hj]

namespace Sound

/-- A call goes to a stage that it may be at. -/
theorem goTo (hs : Sound files h) {i : ℕ} {session : String} {stage stage' : Stage}
    (hcall : h.calls[i]? = some ⟨session, stage⟩)
    (hfree : stage' = .lookUpLegacy ∨ stage' = .replace → files (reportsName session) = none) :
    Sound files (h.goTo i session stage') := by
  constructor
  · exact hs.placed.imp_right fun hmoved ↦ exists_session_set hcall stage' hmoved
  · intro call hmem hstage
    rcases List.mem_or_eq_of_mem_set hmem with hold | rfl
    · exact hs.free call hold hstage
    · exact hfree hstage

/-- The session has no file now, so it never had one. -/
theorem free_of_files (hs : Sound files h) {session : String}
    (hfree : h.files (reportsName session) = none) : files (reportsName session) = none := by
  rcases hs.placed with heq | ⟨call, -, hmoved⟩
  · rwa [heq] at hfree
  · exact hmoved.free hfree

theorem replace (hs : Sound files h) {i : ℕ} {session : String}
    (hcall : h.calls[i]? = some ⟨session, .replace⟩) : Sound files (h.replace i session) := by
  have hfree := hs.free ⟨session, .replace⟩ (List.mem_of_getElem? hcall) (.inr rfl)
  rw [Home.replace]
  cases hlegacy : h.files legacyReportsName with
  | none =>
    refine hs.goTo hcall ?_
    rintro (hstage | hstage) <;> cases hstage
  | some content =>
    -- the legacy file is there, so it has not been moved yet
    have heq : h.files = files := by
      rcases hs.placed with heq | ⟨call, -, hmoved⟩
      · exact heq
      · rw [hmoved.legacy] at hlegacy
        cases hlegacy
    rw [heq] at hlegacy
    constructor
    · refine .inr ⟨⟨session, .returned .adopted⟩, ?_, hfree, content, hlegacy, ?_⟩
      · exact List.mem_set (List.getElem?_eq_some_iff.mp hcall).1 _
      · rw [← heq]
    · intro call hmem hstage
      rcases List.mem_or_eq_of_mem_set hmem with hold | rfl
      · exact hs.free call hold hstage
      · rcases hstage with hstage | hstage <;> cases hstage

theorem step (hs : Sound files h) {event : Event} (hstep : Home.step h event = some h') :
    Sound files h' := by
  cases event with
  | call session =>
    obtain rfl := Option.some.inj hstep
    constructor
    · rcases hs.placed with heq | ⟨call, hmem, hmoved⟩
      · exact .inl heq
      · exact .inr ⟨call, List.mem_append_left _ hmem, hmoved⟩
    · intro call hmem hstage
      rcases List.mem_append.mp hmem with hold | hnew
      · exact hs.free call hold hstage
      · rw [List.mem_singleton.mp hnew] at hstage
        rcases hstage with hstage | hstage <;> cases hstage
  | go i fails =>
    simp only [Home.step] at hstep
    split at hstep
    · rename_i session hcall
      obtain rfl := Option.some.inj hstep
      refine hs.goTo hcall ?_
      intro hstage
      refine hs.free_of_files ?_
      split_ifs at hstage with hsome
      · rcases hstage with hstage | hstage <;> cases hstage
      · rwa [Bool.not_eq_true, Option.isSome_eq_false_iff, Option.isNone_iff_eq_none] at hsome
    · rename_i session hcall
      obtain rfl := Option.some.inj hstep
      have hfree := hs.free ⟨session, .lookUpLegacy⟩ (List.mem_of_getElem? hcall) (.inl rfl)
      exact hs.goTo hcall fun _ ↦ hfree
    · rename_i session hcall
      obtain rfl := Option.some.inj hstep
      split_ifs
      · refine hs.goTo hcall ?_
        rintro (hstage | hstage) <;> cases hstage
      · exact hs.replace hcall
    · cases hstep

theorem run (hrun : Home.step.Runs Machine.anyEvent (init files) h) : Sound files h := by
  refine hrun.preserves (fun _ _ _ hs _ hstep ↦ hs.step hstep) ⟨.inl rfl, ?_⟩
  exact fun call hmem ↦ absurd hmem List.not_mem_nil

end Sound

end Home

/-- Whatever calls are made and however they are interleaved: the reports of the legacy file
are in one place, in that file or in the file of one session that called, and every other file
is as it was; without a legacy file no file changes. -/
theorem legacy_reports_in_one_place (files : String → Option α) {h : Home α}
    (hrun : Home.step.Runs Machine.anyEvent (Home.init files) h) :
    (∀ content, files legacyReportsName = some content → ∃ place,
        (place = legacyReportsName ∨ ∃ call ∈ h.calls, place = reportsName call.session ∧
          ∀ call' ∈ h.calls, place = reportsName call'.session →
            sanitizeProfileName call'.session = sanitizeProfileName call.session) ∧
        h.files place = some content ∧
        ∀ other, other ≠ place →
          h.files other = if other = legacyReportsName then none else files other) ∧
      (∀ session, files (reportsName session) ≠ none →
        h.files (reportsName session) = files (reportsName session)) ∧
      (files legacyReportsName = none → h.files = files) := by
  have hs := Home.Sound.run hrun
  rcases hs.placed with heq | ⟨call, hmem, hfree, content, hcontent, heq⟩
  · rw [heq]
    refine ⟨?_, fun _ _ ↦ rfl, fun _ ↦ rfl⟩
    intro content hcontent
    refine ⟨legacyReportsName, .inl rfl, hcontent, ?_⟩
    intro other hother
    rw [if_neg hother]
  · rw [heq]
    refine ⟨?_, ?_, ?_⟩
    · intro content' hcontent'
      rw [hcontent, Option.some.injEq] at hcontent'
      subst hcontent'
      refine ⟨reportsName call.session, .inr ⟨call, hmem, rfl, ?_⟩, Function.update_self .., ?_⟩
      · exact fun call' _ hsame ↦ (sanitize_eq_of_reportsName_eq hsame).symm
      · intro other hother
        rw [Function.update_of_ne hother, Function.update_apply]
    · intro session hsession
      have hne : reportsName session ≠ reportsName call.session := by
        intro hsame
        rw [hsame] at hsession
        exact hsession hfree
      rw [Function.update_of_ne hne, Function.update_of_ne (reportsName_ne_legacy session)]
    · intro hnone
      rw [hnone] at hcontent
      cases hcontent

/-- Two sessions have looked before either renames: the one adopts the reports, the other finds
them gone. -/
theorem legacy_reports_in_one_place_of_race :
    ∃ h, Home.step.Runs Machine.anyEvent
        (Home.init fun name ↦ if name = legacyReportsName then some 5 else none) h ∧
      h.calls = [⟨"a", .returned .gone⟩, ⟨"b", .returned .adopted⟩] ∧
      ∃ place, h.files place = some 5 ∧ ∀ other, other ≠ place → h.files other = none := by
  have hexec : ((Home.step.guarded fun _ _ ↦ True).exec
      (Home.init fun name ↦ if name = legacyReportsName then some 5 else none)
      [.call "a", .call "b", .go 0 false, .go 1 false, .go 0 false, .go 1 false, .go 1 false,
        .go 0 false]).any
      (fun h ↦ h.calls = [⟨"a", .returned .gone⟩, ⟨"b", .returned .adopted⟩]) = true := by
    decide +kernel
  obtain ⟨h, hrun, hcalls⟩ := Machine.exists_run_of_exec hexec
  refine ⟨h, hrun, hcalls, ?_⟩
  obtain ⟨place, -, hplace, hother⟩ := (legacy_reports_in_one_place _ hrun).1 5 (if_pos rfl)
  refine ⟨place, hplace, ?_⟩
  intro other hne
  rw [hother other hne]
  split_ifs <;> rfl

end TgMessenger.Interop.Adoption
