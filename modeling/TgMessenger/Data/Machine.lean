import Mathlib.Data.Nat.Notation
import Mathlib.Logic.Relation

/-!
# State machines

A machine says what an event does to a state, when the event is possible.  A run is a
sequence of events; `Machine.Runs M ok` relates the two ends of the runs all of whose
events meet the condition `ok` on the event and the state before it.  What every such
event preserves, every such run preserves.
-/

universe u v

/-- What an event does to a state; `none` when it is not possible there. -/
abbrev Machine (σ : Type u) (ε : Type v) := σ → ε → Option σ

namespace Machine

variable {σ : Type u} {ε : Type v} {M : Machine σ ε} {ok ok' : σ → ε → Prop} {s s' : σ}

/-- One event that meets `ok`. -/
def Step (M : Machine σ ε) (ok : σ → ε → Prop) (s s' : σ) : Prop := ∃ e, ok s e ∧ M s e = some s'

/-- The runs all of whose events meet `ok`. -/
def Runs (M : Machine σ ε) (ok : σ → ε → Prop) : σ → σ → Prop :=
  Relation.ReflTransGen (M.Step ok)

/-- The condition every event meets. -/
def anyEvent : σ → ε → Prop := fun _ _ ↦ True

/-- The state after a whole sequence of events. -/
def exec (M : Machine σ ε) (s : σ) : List ε → Option σ
  | [] => some s
  | e :: es => (M s e).bind fun s' ↦ M.exec s' es

theorem exec_append (es es' : List ε) :
    M.exec s (es ++ es') = (M.exec s es).bind fun s' ↦ M.exec s' es' := by
  induction es generalizing s with
  | nil => rfl
  | cons e es ih =>
    rw [List.cons_append, exec, exec, Option.bind_assoc]
    congr 1
    funext s'
    exact ih

/-- The last event of a sequence that was executed. -/
theorem exec_concat_eq_some_iff {es : List ε} {e : ε} :
    M.exec s (es ++ [e]) = some s' ↔ ∃ s₁, M.exec s es = some s₁ ∧ M s₁ e = some s' := by
  rw [exec_append, Option.bind_eq_some_iff]
  refine exists_congr fun s₁ ↦ and_congr_right fun _ ↦ ?_
  rw [exec]
  exact Iff.of_eq (congrArg (· = some s') (Option.bind_fun_some _))

/-- A run stays a run when more is allowed. -/
theorem Runs.mono (h : M.Runs ok s s') (hok : ∀ s e, ok s e → ok' s e) : M.Runs ok' s s' := by
  induction h with
  | refl => exact .refl
  | tail _ hstep ih =>
    obtain ⟨e, he, hs⟩ := hstep
    exact ih.tail ⟨e, hok _ e he, hs⟩

/-- What every allowed event preserves holds at the end of every run. -/
theorem Runs.preserves {I : σ → Prop} (hstep : ∀ s s' e, I s → ok s e → M s e = some s' → I s')
    (h : M.Runs ok s s') (hs : I s) : I s' := by
  induction h with
  | refl => exact hs
  | tail _ hstep' ih =>
    obtain ⟨e, he, hstep'⟩ := hstep'
    exact hstep _ _ e ih he hstep'

/-- A run stays a run when more is allowed in the states that it can reach. -/
theorem Runs.mono_of_preserves {I : σ → Prop}
    (hstep : ∀ s s' e, I s → ok s e → M s e = some s' → I s')
    (hok : ∀ s e, I s → ok s e → ok' s e) (h : M.Runs ok s s') (hs : I s) : M.Runs ok' s s' := by
  induction h with
  | refl => exact .refl
  | tail hrun hlast ih =>
    obtain ⟨e, he, hlast⟩ := hlast
    exact ih.tail ⟨e, hok _ e (Runs.preserves hstep hrun hs) he, hlast⟩

/-- What exactly the allowed events preserve holds at the end of exactly the allowed runs. -/
theorem Runs.iff_of_step {I P : σ → Prop} (hI : ∀ s s' e, I s → M s e = some s' → I s')
    (hP : ∀ s s' e, I s → M s e = some s' → (P s' ↔ P s ∧ ok s e)) (h : M.Runs anyEvent s s')
    (hs : I s) (hPs : P s) : P s' ↔ M.Runs ok s s' := by
  constructor
  · intro hPs'
    induction h with
    | refl => exact .refl
    | tail hrun hstep ih =>
      obtain ⟨e, -, hstep⟩ := hstep
      have hmid := Runs.preserves (fun s s' e hs _ ↦ hI s s' e hs) hrun hs
      obtain ⟨hPmid, hok⟩ := (hP _ _ e hmid hstep).mp hPs'
      exact (ih hPmid).tail ⟨e, hok, hstep⟩
  · intro hrun
    refine (hrun.preserves (I := fun s ↦ I s ∧ P s) ?_ ⟨hs, hPs⟩).2
    rintro s s' e ⟨hs, hPs⟩ hok hstep
    exact ⟨hI s s' e hs hstep, (hP s s' e hs hstep).mpr ⟨hPs, hok⟩⟩

/-- Whichever of the allowed events happen, one is possible until `P` holds, and `P` comes to
hold. -/
inductive Inevitably (M : Machine σ ε) (ok : σ → ε → Prop) (P : σ → Prop) : σ → Prop
  | now {s : σ} (h : P s) : M.Inevitably ok P s
  | later {s : σ} (possible : ∃ e s', ok s e ∧ M s e = some s')
      (next : ∀ e s', ok s e → M s e = some s' → M.Inevitably ok P s') : M.Inevitably ok P s

/-- What is inevitable can be reached. -/
theorem Inevitably.exists_run {P : σ → Prop} (h : M.Inevitably ok P s) :
    ∃ s', M.Runs ok s s' ∧ P s' := by
  induction h with
  | now h => exact ⟨_, .refl, h⟩
  | later possible next ih =>
    obtain ⟨e, s', hok, hs⟩ := possible
    obtain ⟨s'', hrun, hP⟩ := ih e s' hok hs
    exact ⟨s'', .head ⟨e, hok, hs⟩ hrun, hP⟩

/-- `P` is inevitable when the allowed events lower a rank, and one is possible until `P` holds. -/
theorem inevitably_of_rank {P I : σ → Prop} (rank : σ → ℕ)
    (hpossible : ∀ s, I s → ¬P s → ∃ e s', ok s e ∧ M s e = some s')
    (hnext : ∀ s e s', I s → ok s e → M s e = some s' → I s' ∧ rank s' < rank s) (hs : I s) :
    M.Inevitably ok P s := by
  induction hn : rank s using Nat.strongRecOn generalizing s with
  | ind n ih =>
    by_cases hP : P s
    · exact .now hP
    · refine .later (hpossible s hs hP) fun e s' hok hstep ↦ ?_
      obtain ⟨hs', hlt⟩ := hnext s e s' hs hok hstep
      exact ih _ (hn ▸ hlt) hs' rfl

/-- An executed sequence is a run, when all its events are allowed anyway. -/
theorem runs_of_exec {es : List ε} (hok : ∀ e ∈ es, ∀ s, ok s e) (h : M.exec s es = some s') :
    M.Runs ok s s' := by
  induction es generalizing s with
  | nil =>
    obtain rfl := Option.some.inj h
    exact .refl
  | cons e es ih =>
    obtain ⟨s₁, hs, h⟩ := Option.bind_eq_some_iff.mp h
    exact .head ⟨e, hok e List.mem_cons_self s, hs⟩
      (ih (fun e he ↦ hok e (List.mem_cons_of_mem _ he)) h)

/-- The machine on which only the events that meet `ok` are possible. -/
def guarded (M : Machine σ ε) (ok : σ → ε → Prop) [∀ s e, Decidable (ok s e)] : Machine σ ε :=
  fun s e ↦ if ok s e then M s e else none

theorem runs_of_guarded [∀ s e, Decidable (ok s e)] {es : List ε}
    (h : (M.guarded ok).exec s es = some s') : M.Runs ok s s' := by
  induction es generalizing s with
  | nil =>
    obtain rfl := Option.some.inj h
    exact .refl
  | cons e es ih =>
    obtain ⟨s₁, hs, h⟩ := Option.bind_eq_some_iff.mp h
    obtain ⟨hok, hs⟩ := Option.ite_none_right_eq_some.mp hs
    exact .head ⟨e, hok, hs⟩ (ih h)

/-- Executing a sequence of events and looking at the state it ends in. -/
theorem exists_run_of_exec [∀ s e, Decidable (ok s e)] {P : σ → Prop} [DecidablePred P]
    {es : List ε} (h : ((M.guarded ok).exec s es).any (P ·) = true) :
    ∃ s', M.Runs ok s s' ∧ P s' := by
  obtain ⟨s', hs', hP⟩ := (Option.any_eq_true ..).mp h
  exact ⟨s', runs_of_guarded hs', of_decide_eq_true hP⟩

end Machine
