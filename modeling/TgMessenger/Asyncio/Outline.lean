import TgMessenger.Asyncio.Task
import Mathlib.Tactic.Choose

/-!
# Proof outlines for cooperative tasks

A rely–guarantee logic for `Prog`.  `Outline S t rely guar p P Q` says that the program
`p` of task `t` can be annotated with an assertion before each of its operations, such
that

* the annotation before the first operation follows from `P`, and the one at the end
  implies `Q`, where `Q` speaks of the result or the exception;
* every assertion survives the moves of everybody else, which are those of `rely`;
* every operation of the task makes a move of `guar` and establishes the next assertion.

What the others may do can depend on what the task still has to do: `rely` takes the rest
of the program.

The rules follow the structure of programs.  `Outlined.step` is soundness: the annotations
of all tasks move along every run, provided the guarantees of the others imply the rely of
each.
-/

namespace Asyncio

variable {E : Effects} {ι σ ε α β γ : Type}

/-! ## Outlines -/

/-- An assertion survives the moves of the others. -/
def Stable (rely : σ → σ → Prop) (P : σ → Prop) : Prop := ∀ s s', P s → rely s s' → P s'

theorem Stable.and {rely : σ → σ → Prop} {P Q : σ → Prop} (hP : Stable rely P)
    (hQ : Stable rely Q) : Stable rely fun s ↦ P s ∧ Q s :=
  fun s s' h hm ↦ ⟨hP s s' h.1 hm, hQ s s' h.2 hm⟩

theorem Stable.true (rely : σ → σ → Prop) : Stable rely fun _ ↦ True := fun _ _ _ _ ↦ trivial

/-- What an assertion about a result becomes where the result is only passed on. -/
def onResult (R : α → σ → Prop) (Q : E.Fault → σ → Prop) : Except E.Fault α → σ → Prop
  | .ok a => R a
  | .error e => Q e

/-- The program `p` of task `t` has a proof outline from `P` to `Q`. -/
def Outline (S : System E ι σ ε) (t : ι) (rely : Prog E α → σ → σ → Prop)
    (guar : E.Op → σ → σ → Prop) :
    Prog E α → (σ → Prop) → (Except E.Fault α → σ → Prop) → Prop
  | .ret a, P, Q =>
    ∃ I : σ → Prop, (∀ s, P s → I s) ∧ Stable (rely (.ret a)) I ∧ ∀ s, I s → Q (.ok a) s
  | .raise e, P, Q =>
    ∃ I : σ → Prop, (∀ s, P s → I s) ∧ Stable (rely (.raise e)) I ∧ ∀ s, I s → Q (.error e) s
  | .op o k, P, Q =>
    ∃ (I : σ → Prop) (R : Except E.Fault (E.Ret o) → σ → Prop), (∀ s, P s → I s) ∧
      Stable (rely (.op o k)) I ∧
      (∀ s s', I s → S.handle t o s = .parked s' → guar o s s' ∧ I s') ∧
      (∀ s x s', I s → S.handle t o s = .done x s' → guar o s s' ∧ R x s') ∧
      ∀ x, Outline S t rely guar (k x) (R x) Q

namespace Outline

variable {S : System E ι σ ε} {t : ι} {rely rely' : Prog E α → σ → σ → Prop}
  {guar : E.Op → σ → σ → Prop}

/-! ## Rules -/

/-- A stronger precondition and a weaker postcondition. -/
theorem conseq {p : Prog E α} {P P' : σ → Prop} {Q Q' : Except E.Fault α → σ → Prop}
    (h : Outline S t rely guar p P Q) (hP : ∀ s, P' s → P s) (hQ : ∀ x s, Q x s → Q' x s) :
    Outline S t rely guar p P' Q' := by
  induction p generalizing P P' with
  | ret a =>
    obtain ⟨I, hI, hst, hpost⟩ := h
    exact ⟨I, fun s hs ↦ hI s (hP s hs), hst, fun s hs ↦ hQ _ s (hpost s hs)⟩
  | raise e =>
    obtain ⟨I, hI, hst, hpost⟩ := h
    exact ⟨I, fun s hs ↦ hI s (hP s hs), hst, fun s hs ↦ hQ _ s (hpost s hs)⟩
  | op o k ih =>
    obtain ⟨I, R, hI, hst, hpark, hdone, hk⟩ := h
    exact ⟨I, R, fun s hs ↦ hI s (hP s hs), hst, hpark, hdone,
      fun x ↦ ih x (hk x) fun _ hs ↦ hs⟩

theorem pre {p : Prog E α} {P P' : σ → Prop} {Q : Except E.Fault α → σ → Prop}
    (h : Outline S t rely guar p P Q) (hP : ∀ s, P' s → P s) :
    Outline S t rely guar p P' Q := h.conseq hP fun _ _ hq ↦ hq

theorem post {p : Prog E α} {P : σ → Prop} {Q Q' : Except E.Fault α → σ → Prop}
    (h : Outline S t rely guar p P Q) (hQ : ∀ x s, Q x s → Q' x s) :
    Outline S t rely guar p P Q' := h.conseq (fun _ hs ↦ hs) hQ

/-- Any program has an outline from an assertion that never holds. -/
theorem vacuous (p : Prog E α) (Q : Except E.Fault α → σ → Prop) :
    Outline S t rely guar p (fun _ ↦ False) Q := by
  induction p with
  | ret a => exact ⟨fun _ ↦ False, fun _ h ↦ h, fun _ _ h _ ↦ h, fun _ h ↦ h.elim⟩
  | raise e => exact ⟨fun _ ↦ False, fun _ h ↦ h, fun _ _ h _ ↦ h, fun _ h ↦ h.elim⟩
  | op o k ih =>
    exact ⟨fun _ ↦ False, fun _ _ ↦ False, fun _ h ↦ h, fun _ _ h _ ↦ h, fun _ _ h _ ↦ h.elim,
      fun _ _ _ h _ ↦ h.elim, ih⟩

/-- Any program has an outline that says nothing, where every operation makes a move of `guar`. -/
theorem trivial {p : Prog E α} {Q : Except E.Fault α → σ → Prop} (hQ : ∀ x s, Q x s)
    (hpark : ∀ o s s', S.handle t o s = .parked s' → guar o s s')
    (hdone : ∀ o s x s', S.handle t o s = .done x s' → guar o s s') :
    Outline S t rely guar p (fun _ ↦ True) Q := by
  induction p with
  | ret a => exact ⟨fun _ ↦ True, fun _ h ↦ h, fun _ _ h _ ↦ h, fun s _ ↦ hQ _ s⟩
  | raise e => exact ⟨fun _ ↦ True, fun _ h ↦ h, fun _ _ h _ ↦ h, fun s _ ↦ hQ _ s⟩
  | op o k ih =>
    exact ⟨fun _ ↦ True, fun _ _ ↦ True, fun _ h ↦ h, fun _ _ h _ ↦ h,
      fun s s' h hr ↦ ⟨hpark o s s' hr, h⟩, fun s x s' h hr ↦ ⟨hdone o s x s' hr, h⟩, ih⟩

/-- An exception. -/
theorem raise {e : E.Fault} {P : σ → Prop} {Q : Except E.Fault α → σ → Prop}
    (hst : Stable (rely (.raise e)) P) (hQ : ∀ s, P s → Q (.error e) s) :
    Outline S t rely guar (.raise e) P Q := ⟨P, fun _ hs ↦ hs, hst, hQ⟩

/-- What the precondition says beside the state can be taken for granted. -/
theorem assuming {p : Prog E α} {φ : Prop} {P : σ → Prop} {Q : Except E.Fault α → σ → Prop}
    (hφ : ∀ s, P s → φ) (h : φ → Outline S t rely guar p P Q) : Outline S t rely guar p P Q := by
  by_cases hφ' : φ
  · exact h hφ'
  · exact (vacuous p Q).pre fun s hs ↦ hφ' (hφ s hs)

/-- A precondition with a parameter that the postcondition does not mention. -/
theorem ofExists {κ : Type} {p : Prog E α} {P : κ → σ → Prop} {Q : Except E.Fault α → σ → Prop}
    (h : ∀ i, Outline S t rely guar p (P i) Q) :
    Outline S t rely guar p (fun s ↦ ∃ i, P i s) Q := by
  have hstable {r : σ → σ → Prop} {I : κ → σ → Prop} (hst : ∀ i, Stable r (I i)) :
      Stable r fun s ↦ ∃ i, I i s := fun s s' ⟨i, hi⟩ hm ↦ ⟨i, hst i s s' hi hm⟩
  induction p generalizing P with
  | ret a =>
    choose I hI hst hpost using h
    exact ⟨fun s ↦ ∃ i, I i s, fun s ⟨i, hi⟩ ↦ ⟨i, hI i s hi⟩, hstable hst,
      fun s ⟨i, hi⟩ ↦ hpost i s hi⟩
  | raise e =>
    choose I hI hst hpost using h
    exact ⟨fun s ↦ ∃ i, I i s, fun s ⟨i, hi⟩ ↦ ⟨i, hI i s hi⟩, hstable hst,
      fun s ⟨i, hi⟩ ↦ hpost i s hi⟩
  | op o k ih =>
    choose I R hI hst hpark hdone hk using h
    refine ⟨fun s ↦ ∃ i, I i s, fun x s ↦ ∃ i, R i x s, fun s ⟨i, hi⟩ ↦ ⟨i, hI i s hi⟩,
      hstable hst, fun s s' ⟨i, hi⟩ hr ↦ ?_, fun s x s' ⟨i, hi⟩ hr ↦ ?_,
      fun x ↦ ih x fun i ↦ hk i x⟩
    · obtain ⟨hg, hi'⟩ := hpark i s s' hi hr
      exact ⟨hg, i, hi'⟩
    · obtain ⟨hg, hi'⟩ := hdone i s x s' hi hr
      exact ⟨hg, i, hi'⟩

/-- Returning. -/
theorem ret {a : α} {P : σ → Prop} {Q : Except E.Fault α → σ → Prop}
    (hst : Stable (rely (.ret a)) P) (hQ : ∀ s, P s → Q (.ok a) s) :
    Outline S t rely guar (.ret a) P Q := ⟨P, fun _ hs ↦ hs, hst, hQ⟩

/-- Sequencing. -/
theorem bind {rely : Prog E β → σ → σ → Prop} {p : Prog E α} {f : α → Prog E β} {P : σ → Prop}
    {R : α → σ → Prop} {Q : Except E.Fault β → σ → Prop}
    (hp : Outline S t (fun p' ↦ rely (p' >>= f)) guar p P (onResult R fun e ↦ Q (.error e)))
    (hf : ∀ a, Outline S t rely guar (f a) (R a) Q) : Outline S t rely guar (p >>= f) P Q := by
  induction p generalizing P with
  | ret a =>
    obtain ⟨I, hI, -, hpost⟩ := hp
    exact (hf a).pre fun s hs ↦ hpost s (hI s hs)
  | raise e => exact hp
  | op o k ih =>
    obtain ⟨I, R', hI, hst, hpark, hdone, hk⟩ := hp
    exact ⟨I, R', hI, hst, hpark, hdone, fun x ↦ ih x (hk x)⟩

/-- One operation and the rest of the program. -/
theorem op {o : E.Op} {k : Except E.Fault (E.Ret o) → Prog E α} {P : σ → Prop}
    {R : Except E.Fault (E.Ret o) → σ → Prop} {Q : Except E.Fault α → σ → Prop}
    (hst : Stable (rely (.op o k)) P)
    (hpark : ∀ s s', P s → S.handle t o s = .parked s' → guar o s s' ∧ P s')
    (hdone : ∀ s x s', P s → S.handle t o s = .done x s' → guar o s s' ∧ R x s')
    (hk : ∀ x, Outline S t rely guar (k x) (R x) Q) : Outline S t rely guar (.op o k) P Q :=
  ⟨P, R, fun _ hs ↦ hs, hst, hpark, hdone, hk⟩

section Const

variable {rely : σ → σ → Prop}

/-- Sequencing, when the others always may do the same. -/
theorem seq {p : Prog E α} {f : α → Prog E β} {P : σ → Prop} {R : α → σ → Prop}
    {Q : Except E.Fault β → σ → Prop}
    (hp : Outline S t (fun _ ↦ rely) guar p P (onResult R fun e ↦ Q (.error e)))
    (hf : ∀ a, Outline S t (fun _ ↦ rely) guar (f a) (R a) Q) :
    Outline S t (fun _ ↦ rely) guar (p >>= f) P Q := bind hp hf

/-- An assertion that nobody can break holds at the end if it held at the beginning. -/
theorem frame {p : Prog E α} {P I : σ → Prop} {Q : Except E.Fault α → σ → Prop}
    (h : Outline S t (fun _ ↦ rely) guar p P Q) (hI : Stable rely I)
    (hguar : ∀ o s s', guar o s s' → I s → I s') :
    Outline S t (fun _ ↦ rely) guar p (fun s ↦ P s ∧ I s) fun x s ↦ Q x s ∧ I s := by
  induction p generalizing P with
  | ret a =>
    obtain ⟨J, hJ, hst, hpost⟩ := h
    exact ⟨fun s ↦ J s ∧ I s, fun s hs ↦ ⟨hJ s hs.1, hs.2⟩, hst.and hI,
      fun s hs ↦ ⟨hpost s hs.1, hs.2⟩⟩
  | raise e =>
    obtain ⟨J, hJ, hst, hpost⟩ := h
    exact ⟨fun s ↦ J s ∧ I s, fun s hs ↦ ⟨hJ s hs.1, hs.2⟩, hst.and hI,
      fun s hs ↦ ⟨hpost s hs.1, hs.2⟩⟩
  | op o k ih =>
    obtain ⟨J, R, hJ, hst, hpark, hdone, hk⟩ := h
    refine ⟨fun s ↦ J s ∧ I s, fun x s ↦ R x s ∧ I s, fun s hs ↦ ⟨hJ s hs.1, hs.2⟩, hst.and hI,
      fun s s' hs hr ↦ ?_, fun s x s' hs hr ↦ ?_, fun x ↦ ih x (hk x)⟩
    · obtain ⟨hg, hs'⟩ := hpark s s' hs.1 hr
      exact ⟨hg, hs', hguar o s s' hg hs.2⟩
    · obtain ⟨hg, hs'⟩ := hdone s x s' hs.1 hr
      exact ⟨hg, hs', hguar o s s' hg hs.2⟩

/-- One operation. -/
theorem perform {o : E.Op} {P : σ → Prop} {Q : Except E.Fault (E.Ret o) → σ → Prop}
    (hst : Stable rely P) (hQ : ∀ x, Stable rely (Q x))
    (hpark : ∀ s s', P s → S.handle t o s = .parked s' → guar o s s' ∧ P s')
    (hdone : ∀ s x s', P s → S.handle t o s = .done x s' → guar o s s' ∧ Q x s') :
    Outline S t (fun _ ↦ rely) guar (Prog.perform o) P Q := by
  refine ⟨P, Q, fun _ hs ↦ hs, hst, hpark, hdone, ?_⟩
  rintro (e | r)
  · exact ⟨Q (.error e), fun _ hs ↦ hs, hQ _, fun _ hs ↦ hs⟩
  · exact ⟨Q (.ok r), fun _ hs ↦ hs, hQ _, fun _ hs ↦ hs⟩

/-- `try … finally`. -/
theorem always {p : Prog E α} {fin : Prog E Unit} {P : σ → Prop}
    {R Q : Except E.Fault α → σ → Prop} (hp : Outline S t (fun _ ↦ rely) guar p P R)
    (hfin : ∀ x, Outline S t (fun _ ↦ rely) guar fin (R x)
      (onResult (fun _ ↦ Q x) fun e ↦ Q (.error e)))
    (hQ : ∀ x, Stable rely (Q x)) : Outline S t (fun _ ↦ rely) guar (p.always fin) P Q := by
  induction p generalizing P with
  | ret a =>
    obtain ⟨I, hI, -, hpost⟩ := hp
    exact seq ((hfin (.ok a)).pre fun s hs ↦ hpost s (hI s hs))
      fun _ ↦ .ret (hQ (.ok a)) fun _ hs ↦ hs
  | raise e =>
    obtain ⟨I, hI, -, hpost⟩ := hp
    exact seq ((hfin (.error e)).pre fun s hs ↦ hpost s (hI s hs))
      fun _ ↦ ⟨_, fun _ hs ↦ hs, hQ (.error e), fun _ hs ↦ hs⟩
  | op o k ih =>
    obtain ⟨I, R', hI, hst, hpark, hdone, hk⟩ := hp
    exact ⟨I, R', hI, hst, hpark, hdone, fun x ↦ ih x (hk x)⟩

/-- `try … except`. -/
theorem rescue {p : Prog E α} {handler : E.Fault → Prog E α} {P : σ → Prop}
    {R : E.Fault → σ → Prop} {Q : Except E.Fault α → σ → Prop}
    (hp : Outline S t (fun _ ↦ rely) guar p P (onResult (fun a ↦ Q (.ok a)) R))
    (hhandler : ∀ e, Outline S t (fun _ ↦ rely) guar (handler e) (R e) Q) :
    Outline S t (fun _ ↦ rely) guar (p.rescue handler) P Q := by
  induction p generalizing P with
  | ret a => exact hp
  | raise e =>
    obtain ⟨I, hI, -, hpost⟩ := hp
    exact (hhandler e).pre fun s hs ↦ hpost s (hI s hs)
  | op o k ih =>
    obtain ⟨I, R', hI, hst, hpark, hdone, hk⟩ := hp
    exact ⟨I, R', hI, hst, hpark, hdone, fun x ↦ ih x (hk x)⟩

/-- A loop: the assertion speaks of what is still to be done. -/
theorem forEach {κ : Type} {f : κ → Prog E Unit} {P : List κ → σ → Prop}
    {Q : E.Fault → σ → Prop} (hst : Stable rely (P []))
    (hf : ∀ i is, Outline S t (fun _ ↦ rely) guar (f i) (P (i :: is))
      (onResult (fun _ ↦ P is) Q)) (is : List κ) :
    Outline S t (fun _ ↦ rely) guar (Prog.forEach f is) (P is) (onResult (fun _ ↦ P []) Q) := by
  induction is with
  | nil => exact .ret hst fun _ hs ↦ hs
  | cons i is ih => exact seq (hf i is) fun _ ↦ ih

end Const

/-- `try … finally` and what comes after it, which may rely on more. -/
theorem alwaysBind {relyIn : σ → σ → Prop} {rely : Prog E β → σ → σ → Prop} {p : Prog E α}
    {fin : Prog E Unit} {f : α → Prog E β} {P : σ → Prop} {R : Except E.Fault α → σ → Prop}
    {Q : Except E.Fault β → σ → Prop} (hp : Outline S t (fun _ ↦ relyIn) guar p P R)
    (hrely : ∀ p s s', rely p s s' → relyIn s s')
    (hfin : ∀ x, Outline S t rely guar (fin >>= fun _ ↦ .ended x >>= f) (R x) Q) :
    Outline S t rely guar (p.always fin >>= f) P Q := by
  induction p generalizing P with
  | ret a =>
    obtain ⟨I, hI, -, hpost⟩ := hp
    rw [Prog.always, bind_assoc]
    exact (hfin (.ok a)).pre fun s hs ↦ hpost s (hI s hs)
  | raise e =>
    obtain ⟨I, hI, -, hpost⟩ := hp
    rw [Prog.always, bind_assoc]
    exact (hfin (.error e)).pre fun s hs ↦ hpost s (hI s hs)
  | op o k ih =>
    obtain ⟨I, R', hI, hst, hpark, hdone, hk⟩ := hp
    exact ⟨I, R', hI, fun s s' hs hm ↦ hst s s' hs (hrely _ s s' hm), hpark, hdone,
      fun x ↦ ih x (hk x)⟩

/-! ## Soundness -/

/-- A task that executes an operation keeps its outline and makes a guaranteed move. -/
theorem run_self [DecidableEq ι] {c c' : Config E ι σ α} {P : σ → Prop}
    {Q : Except E.Fault α → σ → Prop} (h : Outline S t rely guar (c.task t) P Q)
    (hP : P c.shared) (hs : c.step S (.run t) = some c') :
    (∃ o k, c.task t = .op o k ∧ guar o c.shared c'.shared) ∧
      ∃ P', Outline S t rely guar (c'.task t) P' Q ∧ P' c'.shared := by
  rcases Config.step_cases hs with ⟨u, o, k, x, s, hm, hp, hr, rfl⟩ |
    ⟨u, o, k, s, hm, hp, hr, rfl⟩ | ⟨e, s, hm, -⟩
  · obtain rfl := Move.run.inj hm
    rw [hp] at h
    obtain ⟨I, R, hI, -, -, hdone, hk⟩ := h
    obtain ⟨hg, hR⟩ := hdone _ x s (hI _ hP) hr
    exact ⟨⟨o, k, hp, hg⟩, R x, by simp only [Function.update_self]; exact hk x, hR⟩
  · obtain rfl := Move.run.inj hm
    rw [hp] at h
    obtain ⟨I, R, hI, hst, hpark, hdone, hk⟩ := h
    obtain ⟨hg, hI'⟩ := hpark _ s (hI _ hP) hr
    exact ⟨⟨o, k, hp, hg⟩, I, by rw [hp]; exact ⟨I, R, fun _ hs ↦ hs, hst, hpark, hdone, hk⟩, hI'⟩
  · cases hm

/-- A task keeps its outline when the others make a move it relies on. -/
theorem run_other {p : Prog E α} {P : σ → Prop} {Q : Except E.Fault α → σ → Prop} {s s' : σ}
    (h : Outline S t rely guar p P Q) (hP : P s) (hr : rely p s s') :
    ∃ P', Outline S t rely guar p P' Q ∧ P' s' := by
  cases p with
  | ret a =>
    obtain ⟨I, hI, hst, hpost⟩ := h
    exact ⟨I, ⟨I, fun _ hs ↦ hs, hst, hpost⟩, hst s s' (hI s hP) hr⟩
  | raise e =>
    obtain ⟨I, hI, hst, hpost⟩ := h
    exact ⟨I, ⟨I, fun _ hs ↦ hs, hst, hpost⟩, hst s s' (hI s hP) hr⟩
  | op o k =>
    obtain ⟨I, R, hI, hst, hpark, hdone, hk⟩ := h
    exact ⟨I, ⟨I, R, fun _ hs ↦ hs, hst, hpark, hdone, hk⟩, hst s s' (hI s hP) hr⟩

/-- A task that returned established its postcondition. -/
theorem of_returned {p : Prog E α} {P : σ → Prop} {Q : Except E.Fault α → σ → Prop} {s : σ}
    {a : α} (h : Outline S t rely guar p P Q) (hP : P s) (hp : p = .ret a) : Q (.ok a) s := by
  subst hp
  obtain ⟨I, hI, -, hpost⟩ := h
  exact hpost s (hI s hP)

/-- A task that raised established its postcondition. -/
theorem of_raised {p : Prog E α} {P : σ → Prop} {Q : Except E.Fault α → σ → Prop} {s : σ}
    {e : E.Fault} (h : Outline S t rely guar p P Q) (hP : P s) (hp : p = .raise e) :
    Q (.error e) s := by
  subst hp
  obtain ⟨I, hI, -, hpost⟩ := h
  exact hpost s (hI s hP)

end Outline

/-- Every task of a configuration has a proof outline that fits the state. -/
def Outlined (S : System E ι σ ε) (rely : ι → Prog E α → σ → σ → Prop)
    (guar : ι → E.Op → σ → σ → Prop) (Q : ι → Except E.Fault α → σ → Prop)
    (c : Config E ι σ α) : Prop :=
  ∀ t, ∃ P, Outline S t (rely t) (guar t) (c.task t) P (Q t) ∧ P c.shared

/-- Soundness: when the guarantees of the others are among the moves each task relies on,
all outlines survive every allowed move. -/
theorem Outlined.step [DecidableEq ι] {S : System E ι σ ε}
    {rely : ι → Prog E α → σ → σ → Prop} {guar : ι → E.Op → σ → σ → Prop}
    {Q : ι → Except E.Fault α → σ → Prop} {ok : Config E ι σ α → Move ι ε → Prop}
    (hrun : ∀ c c' : Config E ι σ α, ∀ t u o k, ok c (.run u) → u ≠ t → c.task u = .op o k →
      guar u o c.shared c'.shared → rely t (c.task t) c.shared c'.shared)
    (henv : ∀ c c' : Config E ι σ α, ∀ t e, ok c (.env e) → c.step S (.env e) = some c' →
      rely t (c.task t) c.shared c'.shared)
    {c c' : Config E ι σ α} {m : Move ι ε} (h : Outlined S rely guar Q c) (hm : ok c m)
    (hs : c.step S m = some c') : Outlined S rely guar Q c' := by
  intro t
  obtain ⟨P, hP, hPs⟩ := h t
  cases m with
  | run u =>
    by_cases hu : u = t
    · subst hu
      exact (hP.run_self hPs hs).2
    · obtain ⟨P', hP', hPs'⟩ := h u
      obtain ⟨o, k, hp, hg⟩ := (hP'.run_self hPs' hs).1
      have htask : c'.task t = c.task t := Config.task_step_ne hs hu
      rw [htask]
      exact hP.run_other hPs (hrun c c' t u o k hm hu hp hg)
  | env e =>
    have htask : c'.task t = c.task t := congrFun (Config.task_step_env hs) t
    rw [htask]
    exact hP.run_other hPs (henv c c' t e hm hs)

/-! ## Permitted operations

A condition on the operations of a run is a precondition of each of them: a task has an outline on
the system in which nothing else is possible. -/

section Permitted

variable {S : System E ι σ ε} {ok : ι → E.Op → σ → Prop}

/-- The operation that is executed is permitted. -/
def Permitted (ok : ι → E.Op → σ → Prop) (c : Config E ι σ α) : Move ι ε → Prop
  | .run t => (c.task t).NextIn fun o ↦ ok t o c.shared
  | .env _ => True

instance [∀ t o s, Decidable (ok t o s)] (c : Config E ι σ α) (m : Move ι ε) :
    Decidable (Permitted ok c m) :=
  match m with
  | .run t => inferInstanceAs (Decidable ((c.task t).NextIn fun o ↦ ok t o c.shared))
  | .env _ => inferInstanceAs (Decidable True)

open Classical in
/-- The system in which only the permitted operations are possible. -/
noncomputable def System.restrict (S : System E ι σ ε) (ok : ι → E.Op → σ → Prop) :
    System E ι σ ε where
  handle t o s := if ok t o s then S.handle t o s else .blocked
  env := S.env

theorem System.restrict_done {t : ι} {o : E.Op} {s s' : σ} {x : Except E.Fault (E.Ret o)}
    (h : (S.restrict ok).handle t o s = .done x s') : ok t o s ∧ S.handle t o s = .done x s' := by
  dsimp only [System.restrict] at h
  split at h
  · next hok => exact ⟨hok, h⟩
  · cases h

theorem System.restrict_parked {t : ι} {o : E.Op} {s s' : σ}
    (h : (S.restrict ok).handle t o s = .parked s') : S.handle t o s = .parked s' := by
  dsimp only [System.restrict] at h
  split at h
  · exact h
  · cases h

variable [DecidableEq ι]

theorem System.step_restrict {c : Config E ι σ α} {m : Move ι ε} (hok : Permitted ok c m) :
    c.step (S.restrict ok) m = c.step S m := by
  cases m with
  | run t =>
    rw [Config.step, Config.step]
    rw [Permitted] at hok
    cases hp : c.task t with
    | op o k =>
      rw [hp, Prog.NextIn] at hok
      simp only [System.restrict, if_pos hok]
    | ret a => rfl
    | raise e => rfl
  | env e => rfl

/-- A run of permitted operations is a run where nothing else is possible. -/
theorem Reaches.restrict {c c' : Config E ι σ α} (h : Reaches S (Permitted ok) c c') :
    Reaches (S.restrict ok) anyMove c c' := by
  refine Relation.ReflTransGen.mono ?_ _ _ h
  rintro c c' ⟨m, hok, hs⟩
  exact ⟨m, trivial, (System.step_restrict hok).trans hs⟩

end Permitted

end Asyncio
