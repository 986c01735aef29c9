import TgMessenger.Asyncio.Outline

/-!
# Keeping an invariant

Most coroutines share one invariant of the state, and rely on little else when the others move.
A `Discipline` names both, and `Keeps` are the outlines in which every assertion comes with the
invariant: what a task does keeps it, and is something all others rely on.

`Keeps.sound` is what this means for runs.
-/

namespace Asyncio

variable {E : Effects} {ι σ ε α β : Type}

/-- What holds in every run, and what a task relies on when the others move. -/
structure Discipline (ι σ : Type) where
  inv : σ → Prop
  others : ι → σ → σ → Prop
  inv_of_others : ∀ t s s', others t s s' → inv s'

namespace Discipline

/-- An assertion that survives what a task relies on. -/
def Stable (A : Discipline ι σ) (t : ι) (P : σ → Prop) : Prop :=
  ∀ s s', A.inv s → P s → A.others t s s' → P s'

/-- What a move of a task guarantees. -/
def Guarantee (A : Discipline ι σ) (t : ι) (s s' : σ) : Prop :=
  A.inv s' ∧ ∀ u, u ≠ t → A.others u s s'

variable {A : Discipline ι σ} {t : ι} {P Q : σ → Prop}

theorem stable_true : A.Stable t fun _ ↦ True := fun _ _ _ _ _ ↦ trivial

/-- What is known beside the state stays known. -/
theorem Stable.and_pure {φ : Prop} (hP : A.Stable t P) : A.Stable t fun s ↦ φ ∧ P s :=
  fun s s' hs h hothers ↦ ⟨h.1, hP s s' hs h.2 hothers⟩

theorem Stable.or (hP : A.Stable t P) (hQ : A.Stable t Q) : A.Stable t fun s ↦ P s ∨ Q s :=
  fun s s' hs h hothers ↦ h.imp (hP s s' hs · hothers) (hQ s s' hs · hothers)

theorem Stable.with_inv (hP : A.Stable t P) :
    Asyncio.Stable (A.others t) fun s ↦ A.inv s ∧ P s :=
  fun s s' h hothers ↦ ⟨A.inv_of_others t s s' hothers, hP s s' h.1 h.2 hothers⟩

end Discipline

/-- What the task does keeps the invariant, and leads from `P` to `R`, or to `X` with an
exception. -/
def Keeps (S : System E ι σ ε) (A : Discipline ι σ) (t : ι) (p : Prog E α) (P : σ → Prop)
    (R : α → σ → Prop) (X : σ → Prop) : Prop :=
  Outline S t (fun _ ↦ A.others t) (fun _ ↦ A.Guarantee t) p (fun s ↦ A.inv s ∧ P s)
    (onResult (fun a s ↦ A.inv s ∧ R a s) fun _ s ↦ A.inv s ∧ X s)

namespace Keeps

variable {S : System E ι σ ε} {A : Discipline ι σ} {t : ι} {P P' X X' : σ → Prop}
  {R R' : α → σ → Prop}

/-- A stronger precondition and weaker postconditions. -/
theorem conseq {p : Prog E α} (h : Keeps S A t p P R X) (hP : ∀ s, P' s → P s)
    (hR : ∀ a s, R a s → R' a s) (hX : ∀ s, X s → X' s) : Keeps S A t p P' R' X' := by
  refine Outline.conseq h (fun s hs ↦ ⟨hs.1, hP s hs.2⟩) ?_
  rintro (e | a) s hs
  · exact ⟨hs.1, hX s hs.2⟩
  · exact ⟨hs.1, hR a s hs.2⟩

theorem pre {p : Prog E α} (h : Keeps S A t p P R X) (hP : ∀ s, P' s → P s) :
    Keeps S A t p P' R X := h.conseq hP (fun _ _ ↦ id) fun _ ↦ id

theorem except {p : Prog E α} (h : Keeps S A t p P R X) (hX : ∀ s, X s → X' s) :
    Keeps S A t p P R X' := h.conseq (fun _ ↦ id) (fun _ _ ↦ id) hX

/-- What the precondition says beside the state can be taken for granted. -/
theorem assuming {p : Prog E α} {φ : Prop} (hφ : ∀ s, A.inv s → P s → φ)
    (h : φ → Keeps S A t p P R X) : Keeps S A t p P R X :=
  Outline.assuming (fun s hs ↦ hφ s hs.1 hs.2) h

/-- Returning. -/
theorem ret {a : α} (hP : A.Stable t P) (hR : ∀ s, A.inv s → P s → R a s) :
    Keeps S A t (.ret a) P R X :=
  Outline.ret hP.with_inv fun s hs ↦ ⟨hs.1, hR s hs.1 hs.2⟩

/-- An exception. -/
theorem raise {e : E.Fault} (hP : A.Stable t P) (hX : ∀ s, A.inv s → P s → X s) :
    Keeps S A t (.raise e : Prog E α) P R X :=
  Outline.raise hP.with_inv fun s hs ↦ ⟨hs.1, hX s hs.1 hs.2⟩

/-- Sequencing. -/
theorem bind {p : Prog E α} {f : α → Prog E β} {R' : β → σ → Prop}
    (hp : Keeps S A t p P R X) (hf : ∀ a, Keeps S A t (f a) (R a) R' X) :
    Keeps S A t (p >>= f) P R' X := Outline.seq hp hf

/-- One operation, at which no task sleeps. -/
theorem perform {o : E.Op} {R : E.Ret o → σ → Prop} (hP : A.Stable t P)
    (hR : ∀ r, A.Stable t (R r)) (hX : A.Stable t X)
    (hpark : ∀ s s', S.handle t o s ≠ .parked s')
    (hdone : ∀ s x s', A.inv s → P s → S.handle t o s = .done x s' →
      A.Guarantee t s s' ∧ onResult R (fun _ ↦ X) x s') :
    Keeps S A t (Prog.perform o) P R X := by
  refine Outline.perform hP.with_inv ?_ (fun s s' _ h ↦ absurd h (hpark s s')) ?_
  · rintro (e | r)
    · exact hX.with_inv
    · exact (hR r).with_inv
  · rintro s x s' ⟨hs, hPs⟩ hr
    obtain ⟨hg, hx⟩ := hdone s x s' hs hPs hr
    refine ⟨hg, ?_⟩
    cases x with
    | error e => exact ⟨hg.1, hx⟩
    | ok r => exact ⟨hg.1, hx⟩

/-- `try … except`. -/
theorem rescue {p : Prog E α} {handler : E.Fault → Prog E α} {X' : σ → Prop}
    (hp : Keeps S A t p P R X') (hhandler : ∀ e, Keeps S A t (handler e) X' R X) :
    Keeps S A t (p.rescue handler) P R X :=
  Outline.rescue (R := fun _ s ↦ A.inv s ∧ X' s) hp hhandler

/-- `try … finally`, where the end looks the same from everywhere. -/
theorem always {p : Prog E α} {fin : Prog E Unit} {F : σ → Prop} (hR : ∀ a, A.Stable t (R a))
    (hX : A.Stable t X) (hp : Keeps S A t p P (fun _ ↦ F) F)
    (hfin : ∀ a, Keeps S A t fin F (fun _ ↦ R a) X)
    (hfault : Keeps S A t fin F (fun _ ↦ X) X) : Keeps S A t (p.always fin) P R X := by
  refine Outline.always (R := fun _ s ↦ A.inv s ∧ F s) ?_ ?_ ?_
  · refine Outline.post hp ?_
    rintro (e | a) s hs
    · exact hs
    · exact hs
  · rintro (e | a)
    · exact hfault
    · exact hfin a
  · rintro (e | a)
    · exact hX.with_inv
    · exact (hR a).with_inv

/-- In every run the invariant holds, and a task that has ended has established what it is for:
each task keeps the invariant, and so does every move of the environment. -/
theorem sound [DecidableEq ι] {P X : ι → σ → Prop} {R : ι → α → σ → Prop}
    {ok : Config E ι σ α → Move ι ε → Prop} {c₀ c : Config E ι σ α} (hinv : A.inv c₀.shared)
    (hP : ∀ t, P t c₀.shared) (htasks : ∀ t, Keeps S A t (c₀.task t) (P t) (R t) (X t))
    (henv : ∀ s s' e, A.inv s → S.env e s = some s' → A.inv s' ∧ ∀ t, A.others t s s')
    (hrun : Reaches S ok c₀ c) :
    A.inv c.shared ∧ (∀ t a, c.task t = .ret a → R t a c.shared) ∧
      ∀ t e, c.task t = .raise e → X t c.shared := by
  have hmove {c c' : Config E ι σ α} {e : ε} (hs : A.inv c.shared)
      (hstep : c.step S (.env e) = some c') :
      A.inv c'.shared ∧ ∀ t, A.others t c.shared c'.shared := by
    rcases Config.step_cases hstep with ⟨_, _, _, _, _, hm, -⟩ | ⟨_, _, _, _, hm, -⟩ |
      ⟨e', s, hm, hs', rfl⟩
    · cases hm
    · cases hm
    · exact henv _ _ e' hs hs'
  have hkept : Outlined S (fun t _ ↦ A.others t) (fun t _ ↦ A.Guarantee t)
      (fun t ↦ onResult (fun a s ↦ A.inv s ∧ R t a s) fun _ s ↦ A.inv s ∧ X t s) c ∧
      A.inv c.shared := by
    refine hrun.preserves (I := fun c ↦ _ ∧ A.inv c.shared) ?_
      ⟨fun t ↦ ⟨_, htasks t, hinv, hP t⟩, hinv⟩
    rintro c c' m ⟨houtlined, hs⟩ _ hstep
    refine ⟨@Outlined.step E ι σ ε α _ S _ _ _ (fun c _ ↦ A.inv c.shared) ?_ ?_ c c' m houtlined
      hs hstep, ?_⟩
    · rintro c c' t u o k - hut - hg
      exact hg.2 t hut.symm
    · rintro c c' t e hs hstep
      exact (hmove hs hstep).2 t
    · cases m with
      | run t =>
        obtain ⟨Q, hQ, hQs⟩ := houtlined t
        obtain ⟨o, k, -, hg⟩ := (hQ.run_self hQs hstep).1
        exact hg.1
      | env e => exact (hmove hs hstep).1
  obtain ⟨houtlined, hs⟩ := hkept
  refine ⟨hs, fun t a ha ↦ ?_, fun t e he ↦ ?_⟩
  · obtain ⟨Q, hQ, hQs⟩ := houtlined t
    exact (hQ.of_returned hQs ha).2
  · obtain ⟨Q, hQ, hQs⟩ := houtlined t
    exact (hQ.of_raised hQs he).2

end Keeps

end Asyncio
