import TgMessenger.Data.Machine
import Mathlib.Data.Nat.Notation
import Mathlib.Logic.Function.Basic

/-!
# Cooperative tasks

A coroutine is a tree of awaited operations: `Prog E α` either returns, raises, or
awaits an operation of `E` and continues with its result.  What happens between two
awaits is not interruptible and is part of the continuation, so a run of several
tasks is a sequence of whole operations, chosen by a scheduler that may also let the
environment move.

* `Prog` is a monad, with `Prog.always` for `try … finally`.
* `Prog.run` runs one task alone, on a state that nobody else touches.
* `Config.step` and `Config.exec` run many tasks under a schedule.
* `Reaches ok` is the reachability relation of the runs all of whose moves meet `ok`.
-/

namespace Asyncio

/-- The operations a program may await, what each returns, and what it may raise. -/
structure Effects where
  /-- The awaitable operations. -/
  Op : Type
  /-- The result of an operation. -/
  Ret : Op → Type
  /-- The exceptions an operation may raise. -/
  Fault : Type

/-- A coroutine. -/
inductive Prog (E : Effects) (α : Type) where
  | /-- `return a`. -/
    ret (a : α)
  | /-- An exception leaves the coroutine. -/
    raise (e : E.Fault)
  | /-- `await o`, then go on with the result or the exception. -/
    op (o : E.Op) (k : Except E.Fault (E.Ret o) → Prog E α)

namespace Prog

variable {E : Effects} {α β γ : Type}

/-- Sequencing: an exception of the first part skips the second. -/
def bind : Prog E α → (α → Prog E β) → Prog E β
  | .ret a, f => f a
  | .raise e, _ => .raise e
  | .op o k, f => .op o fun x ↦ (k x).bind f

instance : Monad (Prog E) where
  pure := .ret
  bind := .bind

@[simp] theorem pure_eq (a : α) : (pure a : Prog E α) = .ret a := rfl

@[simp] theorem ret_bind (a : α) (f : α → Prog E β) : (Prog.ret a : Prog E α) >>= f = f a := rfl

@[simp] theorem raise_bind (e : E.Fault) (f : α → Prog E β) :
    (Prog.raise e : Prog E α) >>= f = .raise e := rfl

@[simp] theorem op_bind (o : E.Op) (k : Except E.Fault (E.Ret o) → Prog E α)
    (f : α → Prog E β) : Prog.op o k >>= f = .op o fun x ↦ k x >>= f := rfl

protected theorem bind_assoc (p : Prog E α) (f : α → Prog E β) (g : β → Prog E γ) :
    p >>= f >>= g = p >>= fun a ↦ f a >>= g := by
  induction p with
  | ret a => rfl
  | raise e => rfl
  | op o k ih => exact congrArg (Prog.op o) (funext fun x ↦ ih x)

protected theorem bind_ret (p : Prog E α) : p >>= Prog.ret = p := by
  induction p with
  | ret a => rfl
  | raise e => rfl
  | op o k ih => exact congrArg (Prog.op o) (funext fun x ↦ ih x)

instance : LawfulMonad (Prog E) := .mk' (Prog E) Prog.bind_ret (fun _ _ ↦ rfl) Prog.bind_assoc

/-- Await one operation and return its result. -/
def perform (o : E.Op) : Prog E (E.Ret o) :=
  .op o fun
    | .ok r => .ret r
    | .error e => .raise e

/-- An operation whose exceptions are passed on. -/
theorem perform_bind (o : E.Op) (f : E.Ret o → Prog E α) :
    perform o >>= f = .op o fun
      | .ok r => f r
      | .error e => .raise e := by
  refine congrArg (Prog.op o) (funext fun x ↦ ?_)
  cases x <;> rfl

/-- The program has nothing left to do. -/
def hasEnded : Prog E α → Bool
  | .op _ _ => false
  | _ => true

/-- The result of a program that has returned. -/
def returned? : Prog E α → Option α
  | .ret a => some a
  | _ => none

theorem returned?_eq_some_iff {p : Prog E α} {a : α} : p.returned? = some a ↔ p = .ret a := by
  cases p <;> simp [returned?]

/-- The next operation of a program, if there is one, is one of `A`. -/
def NextIn (A : E.Op → Prop) : Prog E α → Prop
  | .op o _ => A o
  | .ret _ => True
  | .raise _ => True

theorem NextIn.mono {A B : E.Op → Prop} {p : Prog E α} (h : p.NextIn A) (hAB : ∀ o, A o → B o) :
    p.NextIn B := by
  cases p with
  | op o k => exact hAB o h
  | ret a => trivial
  | raise e => trivial

instance (A : E.Op → Prop) [DecidablePred A] (p : Prog E α) : Decidable (p.NextIn A) :=
  match p with
  | .op o _ => inferInstanceAs (Decidable (A o))
  | .ret _ => inferInstanceAs (Decidable True)
  | .raise _ => inferInstanceAs (Decidable True)

/-- `try: p finally: fin`. -/
def always (p : Prog E α) (fin : Prog E Unit) : Prog E α :=
  match p with
  | .ret a => fin >>= fun _ ↦ .ret a
  | .raise e => fin >>= fun _ ↦ .raise e
  | .op o k => .op o fun x ↦ (k x).always fin

/-- `try: p except Exception: handler`. -/
def rescue (p : Prog E α) (handler : E.Fault → Prog E α) : Prog E α :=
  match p with
  | .ret a => .ret a
  | .raise e => handler e
  | .op o k => .op o fun x ↦ (k x).rescue handler

/-- A `for` loop over a list whose body returns nothing. -/
def forEach {ι : Type} (f : ι → Prog E Unit) : List ι → Prog E Unit
  | [] => .ret ()
  | i :: is => f i >>= fun _ ↦ forEach f is

end Prog

/-- What an operation does when a task executes it. -/
inductive Reply (F R σ : Type) where
  | /-- The task cannot move. -/
    blocked
  | /-- The task goes to sleep in the operation, leaving a trace in the state. -/
    parked (s : σ)
  | /-- The operation ends, with a result or an exception. -/
    done (x : Except F R) (s : σ)

/-- The meaning of the operations on a shared state, and the moves of everybody else. -/
structure System (E : Effects) (ι σ ε : Type) where
  /-- What task `t` does to the state by executing an operation. -/
  handle : ι → (o : E.Op) → σ → Reply E.Fault (E.Ret o) σ
  /-- What an event of the environment does to the state, when it is possible. -/
  env : ε → σ → Option σ

variable {E : Effects} {ι σ ε α β : Type}

/-! ## One task alone -/

namespace Prog

/-- Run a task to its end on a state nobody else touches; `none` if it gets stuck. -/
def run (S : System E ι σ ε) (t : ι) : Prog E α → σ → Option (Except E.Fault α × σ)
  | .ret a, s => some (.ok a, s)
  | .raise e, s => some (.error e, s)
  | .op o k, s =>
    match S.handle t o s with
    | .done x s' => (k x).run S t s'
    | .parked _ => none
    | .blocked => none

variable (S : System E ι σ ε) (t : ι)

@[simp] theorem run_ret (a : α) (s : σ) : (Prog.ret a : Prog E α).run S t s = some (.ok a, s) :=
  rfl

@[simp] theorem run_raise (e : E.Fault) (s : σ) :
    (Prog.raise e : Prog E α).run S t s = some (.error e, s) := rfl

theorem run_op_done {o : E.Op} {k : Except E.Fault (E.Ret o) → Prog E α} {s s' : σ}
    {x : Except E.Fault (E.Ret o)} (h : S.handle t o s = .done x s') :
    (Prog.op o k).run S t s = (k x).run S t s' := by
  rw [run, h]

/-- A sequence runs its first part and hands the result on. -/
theorem run_bind (p : Prog E α) (f : α → Prog E β) (s : σ) :
    (p >>= f).run S t s = (p.run S t s).bind fun
      | (.ok a, s') => (f a).run S t s'
      | (.error e, s') => some (.error e, s') := by
  induction p generalizing s with
  | ret a => rfl
  | raise e => rfl
  | op o k ih =>
    rw [op_bind, run, run]
    cases S.handle t o s with
    | done x s' => exact ih x s'
    | parked s' => rfl
    | blocked => rfl

/-- The first part of a sequence returned: go on from there. -/
theorem run_bind_ok {p : Prog E α} {f : α → Prog E β} {s s' : σ} {a : α}
    (h : p.run S t s = some (.ok a, s')) : (p >>= f).run S t s = (f a).run S t s' := by
  rw [run_bind, h]
  rfl

/-- The first part of a sequence raised. -/
theorem run_bind_error {p : Prog E α} {f : α → Prog E β} {s s' : σ} {e : E.Fault}
    (h : p.run S t s = some (.error e, s')) : (p >>= f).run S t s = some (.error e, s') := by
  rw [run_bind, h]
  rfl

theorem run_perform {o : E.Op} {s s' : σ} {x : Except E.Fault (E.Ret o)}
    (h : S.handle t o s = .done x s') : (perform o).run S t s = some (x, s') := by
  rw [perform, run_op_done S t h]
  cases x <;> rfl

theorem run_perform_ok {o : E.Op} {s s' : σ} {r : E.Ret o}
    (h : S.handle t o s = .done (.ok r) s') : (perform o).run S t s = some (.ok r, s') :=
  run_perform S t h

/-- `finally` runs after a body that returned. -/
theorem run_always_ok {p : Prog E α} {fin : Prog E Unit} {s s' s'' : σ} {a : α}
    (h : p.run S t s = some (.ok a, s')) (hfin : fin.run S t s' = some (.ok (), s'')) :
    (p.always fin).run S t s = some (.ok a, s'') := by
  induction p generalizing s with
  | ret b =>
    simp only [run_ret, Option.some.injEq, Prod.mk.injEq, Except.ok.injEq] at h
    obtain ⟨rfl, rfl⟩ := h
    rw [always, run_bind_ok S t hfin]
    rfl
  | raise e => simp at h
  | op o k ih =>
    rw [run] at h
    cases hr : S.handle t o s with
    | done x s₁ =>
      rw [hr] at h
      rw [always, run_op_done S t hr]
      exact ih x h
    | parked s₁ => simp [hr] at h
    | blocked => simp [hr] at h

/-- A handler runs after a body that raised. -/
theorem run_rescue (p : Prog E α) (handler : E.Fault → Prog E α) (s : σ) :
    (p.rescue handler).run S t s = (p.run S t s).bind fun
      | (.ok a, s') => some (.ok a, s')
      | (.error e, s') => (handler e).run S t s' := by
  induction p generalizing s with
  | ret a => rfl
  | raise e => rfl
  | op o k ih =>
    rw [rescue, run, run]
    cases S.handle t o s with
    | done x s' => exact ih x s'
    | parked s' => rfl
    | blocked => rfl

/-- A body that returned needs no handler. -/
theorem run_rescue_ok {p : Prog E α} {handler : E.Fault → Prog E α} {s s' : σ} {a : α}
    (h : p.run S t s = some (.ok a, s')) : (p.rescue handler).run S t s = some (.ok a, s') := by
  rw [run_rescue, h]
  rfl

/-- A body that raised is handled. -/
theorem run_rescue_error {p : Prog E α} {handler : E.Fault → Prog E α} {s s' : σ} {e : E.Fault}
    (h : p.run S t s = some (.error e, s')) :
    (p.rescue handler).run S t s = (handler e).run S t s' := by
  rw [run_rescue, h]
  rfl

end Prog

/-! ## Many tasks under a schedule -/

/-- A shared state and what every task still has to do. -/
structure Config (E : Effects) (ι σ α : Type) where
  /-- The state all tasks share. -/
  shared : σ
  /-- The rest of each task. -/
  task : ι → Prog E α

/-- One choice of the scheduler. -/
inductive Move (ι ε : Type) where
  | /-- Task `t` executes its next operation. -/
    run (t : ι)
  | /-- The environment moves. -/
    env (e : ε)

namespace Config

variable [DecidableEq ι]

/-- The configuration after a move; `none` when the move is not possible. -/
def step (S : System E ι σ ε) (c : Config E ι σ α) : Move ι ε → Option (Config E ι σ α)
  | .run t =>
    match c.task t with
    | .op o k =>
      match S.handle t o c.shared with
      | .done x s => some ⟨s, Function.update c.task t (k x)⟩
      | .parked s => some { c with shared := s }
      | .blocked => none
    | .ret _ => none
    | .raise _ => none
  | .env e => (S.env e c.shared).map fun s ↦ { c with shared := s }

/-- The configuration after a whole schedule. -/
def exec (S : System E ι σ ε) (c : Config E ι σ α) (ms : List (Move ι ε)) :
    Option (Config E ι σ α) := Machine.exec (step S) c ms

/-- A task has ended with result `a`. -/
def Returned (c : Config E ι σ α) (t : ι) (a : α) : Prop := c.task t = .ret a

/-- A task has ended, with a result or an exception. -/
def Ended (c : Config E ι σ α) (t : ι) : Prop :=
  (∃ a, c.task t = .ret a) ∨ ∃ e, c.task t = .raise e

omit [DecidableEq ι] in
theorem ended_iff_hasEnded {c : Config E ι σ α} {t : ι} :
    c.Ended t ↔ (c.task t).hasEnded = true := by
  rw [Ended]
  cases c.task t <;> simp [Prog.hasEnded]

/-- Everything one move can do: a task finishes an operation, goes to sleep in it, or
the environment moves. -/
theorem step_cases {S : System E ι σ ε} {c c' : Config E ι σ α} {m : Move ι ε}
    (h : c.step S m = some c') :
    (∃ t o k x s, m = .run t ∧ c.task t = .op o k ∧ S.handle t o c.shared = .done x s ∧
      c' = ⟨s, Function.update c.task t (k x)⟩) ∨
    (∃ t o k s, m = .run t ∧ c.task t = .op o k ∧ S.handle t o c.shared = .parked s ∧
      c' = { c with shared := s }) ∨
    (∃ e s, m = .env e ∧ S.env e c.shared = some s ∧ c' = { c with shared := s }) := by
  cases m with
  | run t =>
    rw [step] at h
    cases hp : c.task t with
    | ret a => simp [hp] at h
    | raise e => simp [hp] at h
    | op o k =>
      simp only [hp] at h
      cases hr : S.handle t o c.shared with
      | done x s =>
        rw [hr] at h
        exact .inl ⟨t, o, k, x, s, rfl, hp, hr, (Option.some.inj h).symm⟩
      | parked s =>
        rw [hr] at h
        exact .inr (.inl ⟨t, o, k, s, rfl, hp, hr, (Option.some.inj h).symm⟩)
      | blocked => simp [hr] at h
  | env e =>
    obtain ⟨s, hs, rfl⟩ := Option.map_eq_some_iff.mp h
    exact .inr (.inr ⟨e, s, rfl, hs, rfl⟩)

/-- A task that has ended makes no move. -/
theorem Ended.step_eq_none {S : System E ι σ ε} {c : Config E ι σ α} {t : ι} (h : c.Ended t) :
    c.step S (.run t) = none := by
  rcases h with ⟨a, h⟩ | ⟨e, h⟩ <;> simp only [step, h]

omit [DecidableEq ι] in
/-- A task ends where it is, whatever happens to the state. -/
theorem Ended.of_task_eq {c c' : Config E ι σ α} {t : ι} (h : c.Ended t)
    (ht : c'.task t = c.task t) : c'.Ended t := by
  rw [Ended, ht]
  exact h

/-- A move of one task leaves the programs of the others. -/
theorem task_step_ne {S : System E ι σ ε} {c c' : Config E ι σ α} {t u : ι}
    (h : c.step S (.run u) = some c') (hu : u ≠ t) : c'.task t = c.task t := by
  rcases step_cases h with ⟨v, o, k, x, s, hm, -, -, rfl⟩ | ⟨v, o, k, s, hm, -, -, rfl⟩ |
    ⟨e, s, hm, -⟩
  · obtain rfl := Move.run.inj hm
    exact Function.update_of_ne hu.symm ..
  · rfl
  · cases hm

/-- A move of the environment leaves all programs. -/
theorem task_step_env {S : System E ι σ ε} {c c' : Config E ι σ α} {e : ε}
    (h : c.step S (.env e) = some c') : c'.task = c.task := by
  obtain ⟨s, -, rfl⟩ := Option.map_eq_some_iff.mp h
  rfl

end Config

/-! ## A task alone within a configuration -/

/-- The program of a task that has ended. -/
def Prog.ended : Except E.Fault α → Prog E α
  | .ok a => .ret a
  | .error e => .raise e

/-- A task that runs alone to its end is a schedule of its own moves. -/
theorem Config.exec_of_run [DecidableEq ι] {S : System E ι σ ε} {t : ι} {c : Config E ι σ α}
    {x : Except E.Fault α} {s : σ} (h : (c.task t).run S t c.shared = some (x, s)) :
    ∃ n, c.exec S (List.replicate n (.run t)) = some ⟨s, Function.update c.task t (.ended x)⟩ := by
  generalize hp : c.task t = p at h
  induction p generalizing c with
  | ret a =>
    obtain ⟨rfl, rfl⟩ := Prod.mk.inj (Option.some.inj h)
    exact ⟨0, by rw [Prog.ended, ← hp, Function.update_eq_self]; rfl⟩
  | raise e =>
    obtain ⟨rfl, rfl⟩ := Prod.mk.inj (Option.some.inj h)
    exact ⟨0, by rw [Prog.ended, ← hp, Function.update_eq_self]; rfl⟩
  | op o k ih =>
    rw [Prog.run] at h
    cases hr : S.handle t o c.shared with
    | done y s₁ =>
      rw [hr] at h
      have hstep : c.step S (.run t) = some ⟨s₁, Function.update c.task t (k y)⟩ := by
        simp only [Config.step, hp, hr]
      obtain ⟨n, hn⟩ := ih y (c := ⟨s₁, Function.update c.task t (k y)⟩)
        (Function.update_self ..) h
      refine ⟨n + 1, ?_⟩
      rw [List.replicate_succ, Config.exec, Machine.exec, hstep, Option.bind_some, ← Config.exec,
        hn, Function.update_idem]
    | parked s₁ => simp [hr] at h
    | blocked => simp [hr] at h

section Reaches

variable [DecidableEq ι] (S : System E ι σ ε)

/-- One move that meets `ok`. -/
def Steps (ok : Config E ι σ α → Move ι ε → Prop) (c c' : Config E ι σ α) : Prop :=
  Machine.Step (Config.step S) ok c c'

/-- The runs all of whose moves meet `ok`. -/
def Reaches (ok : Config E ι σ α → Move ι ε → Prop) :
    Config E ι σ α → Config E ι σ α → Prop := Machine.Runs (Config.step S) ok

/-- The moves of every run. -/
def anyMove : Config E ι σ α → Move ι ε → Prop := fun _ _ ↦ True

variable {S}

/-- What every allowed move preserves holds at the end of every run. -/
theorem Reaches.preserves {ok : Config E ι σ α → Move ι ε → Prop} {I : Config E ι σ α → Prop}
    (hstep : ∀ c c' m, I c → ok c m → c.step S m = some c' → I c')
    {c c' : Config E ι σ α} (h : Reaches S ok c c') (hc : I c) : I c' :=
  Machine.Runs.preserves hstep h hc

/-- An executed schedule is a run, when all its moves are allowed anyway. -/
theorem reaches_of_exec {ok : Config E ι σ α → Move ι ε → Prop} {c c' : Config E ι σ α}
    {ms : List (Move ι ε)} (hok : ∀ m ∈ ms, ∀ c, ok c m) (h : c.exec S ms = some c') :
    Reaches S ok c c' := Machine.runs_of_exec hok h

/-- Moves of one task alone are a run, when they are allowed as long as the other tasks
stand still. -/
theorem reaches_of_exec_replicate {ok : Config E ι σ α → Move ι ε → Prop}
    {c c' : Config E ι σ α} {t : ι} {n : ℕ}
    (hok : ∀ c', (∀ u, u ≠ t → c'.task u = c.task u) → ok c' (.run t))
    (h : c.exec S (List.replicate n (.run t)) = some c') : Reaches S ok c c' := by
  induction n generalizing c with
  | zero =>
    obtain rfl := Option.some.inj h
    exact .refl
  | succ n ih =>
    obtain ⟨c₁, hs, h⟩ := Option.bind_eq_some_iff.mp h
    refine .head ⟨.run t, hok c fun _ _ ↦ rfl, hs⟩ (ih (fun c₂ h₂ ↦ hok c₂ fun u hu ↦ ?_) h)
    exact (h₂ u hu).trans (Config.task_step_ne hs hu.symm)

end Reaches

end Asyncio
