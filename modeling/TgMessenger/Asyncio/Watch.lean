import TgMessenger.Asyncio.Task

/-!
# Watching tasks

A watch keeps a note for each task, which changes with the operations of that task and their
results, and says which operations a note licenses.  Notes change nothing: the watched system makes
the moves of the system (`Config.step_watched`).

`Prog.Abides W p n Q` says that the program, begun under the note `n`, performs only operations its
note licenses then, whatever they come to, and ends under a note that `Q` accepts together with the
result.  It is a property of the program text; `Abiding.step` carries it along every run.
-/

namespace Asyncio

variable {E : Effects} {ι σ ε ν α β : Type}

/-- What is noted of a task, and what a note licenses. -/
structure Watch (E : Effects) (σ ν : Type) where
  legal : ν → E.Op → Prop
  /-- The note after an operation, by the state before it. -/
  next : σ → ν → (o : E.Op) → Except E.Fault (E.Ret o) → ν

/-! ## The watched system -/

variable [DecidableEq ι]

/-- The system, with a note for each task. -/
def System.watched (S : System E ι σ ε) (W : Watch E σ ν) : System E ι (σ × (ι → ν)) ε where
  handle t o s :=
    match S.handle t o s.1 with
    | .blocked => .blocked
    | .parked s' => .parked (s', s.2)
    | .done x s' => .done x (s', Function.update s.2 t (W.next s.1 (s.2 t) o x))
  env e s := (S.env e s.1).map fun s' ↦ (s', s.2)

/-- A configuration without its notes. -/
def Config.forget (c : Config E ι (σ × (ι → ν)) α) : Config E ι σ α := ⟨c.shared.1, c.task⟩

/-- A watched move is a move, and every move can be watched. -/
theorem Config.step_watched (S : System E ι σ ε) (W : Watch E σ ν)
    (c : Config E ι (σ × (ι → ν)) α) (m : Move ι ε) :
    (c.step (S.watched W) m).map Config.forget = c.forget.step S m := by
  cases m with
  | run t =>
    rw [Config.step, Config.step, Config.forget]
    dsimp only
    cases c.task t with
    | ret a => rfl
    | raise e => rfl
    | op o k =>
      dsimp only [System.watched]
      cases S.handle t o c.shared.1 <;> rfl
  | env e =>
    rw [Config.step, Config.step, System.watched, Option.map_map, Option.map_map]
    rfl

/-! ## What a program performs -/

namespace Prog

/-- The program performs what its note licenses, and ends under a note that `Q` accepts. -/
def Abides (W : Watch E σ ν) : Prog E α → ν → (Except E.Fault α → ν → Prop) → Prop
  | .ret a, n, Q => Q (.ok a) n
  | .raise e, n, Q => Q (.error e) n
  | .op o k, n, Q => W.legal n o ∧ ∀ s x, (k x).Abides W (W.next s n o x) Q

namespace Abides

variable {W : Watch E σ ν} {n : ν}

theorem mono {p : Prog E α} {Q Q' : Except E.Fault α → ν → Prop} (h : p.Abides W n Q)
    (hQ : ∀ x n, Q x n → Q' x n) : p.Abides W n Q' := by
  induction p generalizing n with
  | ret a => exact hQ _ n h
  | raise e => exact hQ _ n h
  | op o k ih => exact ⟨h.1, fun s x ↦ ih x (h.2 s x)⟩

/-- One operation. -/
theorem perform {o : E.Op} {Q : Except E.Fault (E.Ret o) → ν → Prop} (ho : W.legal n o)
    (hnext : ∀ s x, Q x (W.next s n o x)) : (Prog.perform o).Abides W n Q := by
  refine ⟨ho, fun s x ↦ ?_⟩
  cases x <;> exact hnext s _

/-- Sequencing. -/
theorem bind {p : Prog E α} {f : α → Prog E β} {R : Except E.Fault α → ν → Prop}
    {Q : Except E.Fault β → ν → Prop} (hp : p.Abides W n R)
    (hf : ∀ a n, R (.ok a) n → (f a).Abides W n Q)
    (hraise : ∀ e n, R (.error e) n → Q (.error e) n) : (p >>= f).Abides W n Q := by
  induction p generalizing n with
  | ret a => exact hf a n hp
  | raise e => exact hraise e n hp
  | op o k ih => exact ⟨hp.1, fun s x ↦ ih x (hp.2 s x)⟩

/-- `try … except`. -/
theorem rescue {p : Prog E α} {handler : E.Fault → Prog E α} {R Q : Except E.Fault α → ν → Prop}
    (hp : p.Abides W n R) (hok : ∀ a n, R (.ok a) n → Q (.ok a) n)
    (hhandler : ∀ e n, R (.error e) n → (handler e).Abides W n Q) :
    (p.rescue handler).Abides W n Q := by
  induction p generalizing n with
  | ret a => exact hok a n hp
  | raise e => exact hhandler e n hp
  | op o k ih => exact ⟨hp.1, fun s x ↦ ih x (hp.2 s x)⟩

/-- `try … finally`. -/
theorem always {p : Prog E α} {fin : Prog E Unit} {R Q : Except E.Fault α → ν → Prop}
    (hp : p.Abides W n R)
    (hfin : ∀ x n, R x n → fin.Abides W n fun
      | .ok (), n => Q x n
      | .error e, n => Q (.error e) n) :
    (p.always fin).Abides W n Q := by
  induction p generalizing n with
  | ret a => exact (hfin _ n hp).bind (fun _ _ hQ ↦ hQ) fun _ _ hQ ↦ hQ
  | raise e => exact (hfin _ n hp).bind (fun _ _ hQ ↦ hQ) fun _ _ hQ ↦ hQ
  | op o k ih => exact ⟨hp.1, fun s x ↦ ih x (hp.2 s x)⟩

end Abides

/-- The program performs what its note licenses, and returns under a note that `R` accepts with
the result, if it returns. -/
abbrev Leaves (W : Watch E σ ν) (p : Prog E α) (n : ν) (R : α → ν → Prop) : Prop :=
  p.Abides W n fun
    | .ok a, n => R a n
    | .error _, _ => True

namespace Leaves

variable {W : Watch E σ ν} {n : ν}

theorem mono {p : Prog E α} {R R' : α → ν → Prop} (h : p.Leaves W n R)
    (hR : ∀ a n, R a n → R' a n) : p.Leaves W n R' := by
  refine Abides.mono h ?_
  rintro (e | a) n hn
  · trivial
  · exact hR a n hn

theorem abides {p : Prog E α} {R : α → ν → Prop} (h : p.Leaves W n R) :
    p.Abides W n fun _ _ ↦ True := Abides.mono h fun _ _ _ ↦ trivial

theorem ret {a : α} {R : α → ν → Prop} (hR : R a n) : (Prog.ret a).Leaves W n R := hR

theorem raise (e : E.Fault) (R : α → ν → Prop) : (Prog.raise e).Leaves W n R := trivial

/-- One operation. -/
theorem perform {o : E.Op} {R : E.Ret o → ν → Prop} (ho : W.legal n o)
    (hnext : ∀ s x, R x (W.next s n o (.ok x))) : (Prog.perform o).Leaves W n R := by
  refine Abides.perform ho fun s x ↦ ?_
  cases x with
  | error e => trivial
  | ok x => exact hnext s x

/-- Sequencing. -/
theorem bind {p : Prog E α} {f : α → Prog E β} {R : α → ν → Prop} {Q : β → ν → Prop}
    (hp : p.Leaves W n R) (hf : ∀ a n, R a n → (f a).Leaves W n Q) : (p >>= f).Leaves W n Q :=
  Abides.bind hp hf fun _ _ _ ↦ trivial

/-- An operation that leaves the note, and what comes after it. -/
theorem bind_of_same {o : E.Op} {f : E.Ret o → Prog E β} {Q : β → ν → Prop} (ho : W.legal n o)
    (hnext : ∀ s x, W.next s n o (.ok x) = n) (hf : ∀ x, (f x).Leaves W n Q) :
    (Prog.perform o >>= f).Leaves W n Q := by
  refine (perform (R := fun _ n' ↦ n' = n) ho hnext).bind ?_
  rintro x _ rfl
  exact hf x

/-- A handler that is licensed whatever went wrong. -/
theorem rescue {p : Prog E α} {handler : E.Fault → Prog E α} {R : α → ν → Prop}
    (hp : p.Leaves W n R) (hhandler : ∀ e n, (handler e).Leaves W n R) :
    (p.rescue handler).Leaves W n R :=
  Abides.rescue hp (fun _ _ ↦ id) fun e n _ ↦ hhandler e n

/-- `try … finally`, whose end is licensed under any note. -/
theorem always {p : Prog E α} {fin : Prog E Unit} {R : α → ν → Prop} (hp : p.Leaves W n R)
    (hfin : ∀ n, fin.Leaves W n fun _ _ ↦ True) : (p.always fin).Leaves W n fun _ _ ↦ True := by
  refine Abides.always hp fun x n _ ↦ Abides.mono (hfin n) ?_
  rintro (e | a) n hn <;> cases x <;> trivial

end Leaves

end Prog

/-! ## Every run -/

/-- Every task performs what its note licenses. -/
def Abiding (W : Watch E σ ν) (c : Config E ι (σ × (ι → ν)) α) : Prop :=
  ∀ t, (c.task t).Abides W (c.shared.2 t) fun _ _ ↦ True

variable {S : System E ι σ ε} {W : Watch E σ ν} {c c' : Config E ι (σ × (ι → ν)) α}
  {m : Move ι ε}

omit [DecidableEq ι] in
/-- The next operation of a task is licensed. -/
theorem Abiding.legal (h : Abiding W c) {t : ι} {o : E.Op}
    {k : Except E.Fault (E.Ret o) → Prog E α} (hp : c.task t = .op o k) :
    W.legal (c.shared.2 t) o := by
  have ht := h t
  rw [hp] at ht
  exact ht.1

/-- A watched operation is one of the system, and it is noted. -/
theorem handle_watched {t : ι} {o : E.Op} {s s' : σ × (ι → ν)} {x : Except E.Fault (E.Ret o)}
    (h : (S.watched W).handle t o s = .done x s') :
    S.handle t o s.1 = .done x s'.1 ∧
      s'.2 = Function.update s.2 t (W.next s.1 (s.2 t) o x) := by
  dsimp only [System.watched] at h
  split at h
  · cases h
  · cases h
  · next hs =>
    cases h
    exact ⟨hs, rfl⟩

/-- A task sleeps where it does in the system, and nothing is noted. -/
theorem parked_watched {t : ι} {o : E.Op} {s s' : σ × (ι → ν)}
    (h : (S.watched W).handle t o s = .parked s') :
    S.handle t o s.1 = .parked s'.1 ∧ s'.2 = s.2 := by
  dsimp only [System.watched] at h
  split at h
  · cases h
  · next hs =>
    cases h
    exact ⟨hs, rfl⟩
  · cases h

/-- An event beside the tasks is one of the system, and nothing is noted. -/
theorem env_watched {e : ε} {s s' : σ × (ι → ν)} (h : (S.watched W).env e s = some s') :
    S.env e s.1 = some s'.1 ∧ s'.2 = s.2 := by
  obtain ⟨s'', hs, rfl⟩ := Option.map_eq_some_iff.mp h
  exact ⟨hs, rfl⟩

/-- Tasks go on as they are licensed. -/
theorem Abiding.step (h : Abiding W c) (hs : c.step (S.watched W) m = some c') : Abiding W c' := by
  rcases Config.step_cases hs with ⟨t, o, k, x, s, rfl, hp, hr, rfl⟩ |
    ⟨t, o, k, s, rfl, hp, hr, rfl⟩ | ⟨e, s, rfl, he, rfl⟩
  · obtain ⟨-, hnote⟩ := handle_watched hr
    intro u
    dsimp only
    rw [hnote]
    by_cases hu : u = t
    · subst hu
      rw [Function.update_self, Function.update_self]
      have hu := h u
      rw [hp] at hu
      exact hu.2 _ x
    · rw [Function.update_of_ne hu, Function.update_of_ne hu]
      exact h u
  · intro u
    dsimp only
    rw [(parked_watched hr).2]
    exact h u
  · intro u
    dsimp only
    rw [(env_watched he).2]
    exact h u

end Asyncio
