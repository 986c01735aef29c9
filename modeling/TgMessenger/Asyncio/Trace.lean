import TgMessenger.Asyncio.Task

/-!
# What a task awaits

The operations a task executes when it runs alone, in their order.  `Prog.Runs` puts them beside
the result and the state: a derivation of it follows the program.
-/

namespace Asyncio.Prog

variable {E : Effects} {ι σ ε α β : Type}

/-- The operations a task executes on a state nobody else touches. -/
def awaited (S : System E ι σ ε) (t : ι) : Prog E α → σ → List E.Op
  | .ret _, _ => []
  | .raise _, _ => []
  | .op o k, s =>
    o ::
      match S.handle t o s with
      | .done x s' => (k x).awaited S t s'
      | .parked _ => []
      | .blocked => []

/-- A task that runs alone executes these operations, ends so and leaves this state. -/
structure Runs (S : System E ι σ ε) (t : ι) (p : Prog E α) (s : σ) (os : List E.Op)
    (x : Except E.Fault α) (s' : σ) : Prop where
  run : p.run S t s = some (x, s')
  awaited : p.awaited S t s = os

namespace Runs

variable {S : System E ι σ ε} {t : ι} {s s' s'' : σ} {os os' : List E.Op} {a : α}
  {e : E.Fault} {p : Prog E α}

theorem ret (a : α) (s : σ) : Runs S t (.ret a : Prog E α) s [] (.ok a) s := ⟨rfl, rfl⟩

theorem raise (e : E.Fault) (s : σ) : Runs S t (.raise e : Prog E α) s [] (.error e) s :=
  ⟨rfl, rfl⟩

/-- An operation, and what is done with its result. -/
theorem op {o : E.Op} {k : Except E.Fault (E.Ret o) → Prog E α} {x : Except E.Fault (E.Ret o)}
    {y : Except E.Fault α} (ho : S.handle t o s = .done x s') (h : Runs S t (k x) s' os y s'') :
    Runs S t (.op o k) s (o :: os) y s'' := by
  constructor
  · rw [run_op_done S t ho]
    exact h.run
  · rw [Prog.awaited, ho]
    exact congrArg (o :: ·) h.awaited

theorem perform {o : E.Op} {x : Except E.Fault (E.Ret o)} (ho : S.handle t o s = .done x s') :
    Runs S t (Prog.perform o) s [o] x s' := by
  refine .op ho ?_
  cases x with
  | ok r => exact .ret r s'
  | error e => exact .raise e s'

/-- The first part returned. -/
theorem bind {f : α → Prog E β} {y : Except E.Fault β} (h : Runs S t p s os (.ok a) s')
    (hf : Runs S t (f a) s' os' y s'') : Runs S t (p >>= f) s (os ++ os') y s'' := by
  obtain ⟨hrun, rfl⟩ := h
  induction p generalizing s with
  | ret b =>
    obtain ⟨hb, rfl⟩ := Prod.mk.inj (Option.some.inj hrun)
    cases hb
    exact hf
  | raise e =>
    cases (Prod.mk.inj (Option.some.inj hrun)).1
  | op o k ih =>
    rw [Prog.run] at hrun
    rw [op_bind, Prog.awaited]
    cases ho : S.handle t o s with
    | done x s₁ =>
      rw [ho] at hrun
      exact .op ho (ih x hrun)
    | parked s₁ =>
      rw [ho] at hrun
      cases hrun
    | blocked =>
      rw [ho] at hrun
      cases hrun

/-- The first part raised. -/
theorem bind_error {f : α → Prog E β} (h : Runs S t p s os (.error e) s') :
    Runs S t (p >>= f) s os (.error e) s' := by
  obtain ⟨hrun, rfl⟩ := h
  refine ⟨run_bind_error S t hrun, ?_⟩
  induction p generalizing s with
  | ret b => cases (Prod.mk.inj (Option.some.inj hrun)).1
  | raise e' => rfl
  | op o k ih =>
    rw [Prog.run] at hrun
    rw [op_bind, Prog.awaited, Prog.awaited]
    cases ho : S.handle t o s with
    | done x s₁ =>
      rw [ho] at hrun
      exact congrArg (o :: ·) (ih x hrun)
    | parked s₁ => rfl
    | blocked => rfl

/-- The body of a `try` returned. -/
theorem rescue {handler : E.Fault → Prog E α} (h : Runs S t p s os (.ok a) s') :
    Runs S t (p.rescue handler) s os (.ok a) s' := by
  obtain ⟨hrun, rfl⟩ := h
  refine ⟨run_rescue_ok S t hrun, ?_⟩
  induction p generalizing s with
  | ret b => rfl
  | raise e => cases (Prod.mk.inj (Option.some.inj hrun)).1
  | op o k ih =>
    rw [Prog.run] at hrun
    rw [Prog.rescue, Prog.awaited, Prog.awaited]
    cases ho : S.handle t o s with
    | done x s₁ =>
      rw [ho] at hrun
      exact congrArg (o :: ·) (ih x hrun)
    | parked s₁ => rfl
    | blocked => rfl

/-- The body of a `try` raised. -/
theorem rescue_error {handler : E.Fault → Prog E α} {y : Except E.Fault α}
    (h : Runs S t p s os (.error e) s') (hhandler : Runs S t (handler e) s' os' y s'') :
    Runs S t (p.rescue handler) s (os ++ os') y s'' := by
  obtain ⟨hrun, rfl⟩ := h
  induction p generalizing s with
  | ret b => cases (Prod.mk.inj (Option.some.inj hrun)).1
  | raise e' =>
    obtain ⟨he, rfl⟩ := Prod.mk.inj (Option.some.inj hrun)
    cases he
    exact hhandler
  | op o k ih =>
    rw [Prog.run] at hrun
    rw [Prog.rescue, Prog.awaited]
    cases ho : S.handle t o s with
    | done x s₁ =>
      rw [ho] at hrun
      exact .op ho (ih x hrun)
    | parked s₁ =>
      rw [ho] at hrun
      cases hrun
    | blocked =>
      rw [ho] at hrun
      cases hrun

end Runs

end Asyncio.Prog
