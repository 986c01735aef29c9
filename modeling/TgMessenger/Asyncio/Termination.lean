import TgMessenger.Asyncio.Task
import Mathlib.Data.Finset.Basic
import Mathlib.Logic.Hydra
import Mathlib.Tactic.Common

/-!
# Termination of cooperative tasks

Every operation a task finishes leaves a smaller program, so finitely many tasks make
finitely many moves, unless a task is put to sleep over and over.  `terminates_of_rank`
excludes that by a rank which going to sleep lowers.
-/

namespace Asyncio

variable {E : Effects} {ι σ ε α : Type}

/-- `p'` is what is left of `p` after its first operation. -/
def Prog.Next (p' p : Prog E α) : Prop := ∃ o k x, p = .op o k ∧ p' = k x

theorem Prog.wellFounded_next : WellFounded (Prog.Next : Prog E α → Prog E α → Prop) := by
  refine ⟨fun p ↦ ?_⟩
  induction p with
  | ret a => exact ⟨_, fun _ ⟨_, _, _, h, _⟩ ↦ nomatch h⟩
  | raise e => exact ⟨_, fun _ ⟨_, _, _, h, _⟩ ↦ nomatch h⟩
  | op o k ih =>
    refine ⟨_, ?_⟩
    rintro _ ⟨o', k', x, h, rfl⟩
    cases h
    exact ih x

variable [DecidableEq ι] {S : System E ι σ ε}

/-- No run from here goes on forever. -/
def Terminates (S : System E ι σ ε) (ok : Config E ι σ α → Move ι ε → Prop)
    (c : Config E ι σ α) : Prop := Acc (fun c' c ↦ Steps S ok c c') c

/-- What a task still has to do, with its rank as a tie-breaker. -/
abbrev Work (E : Effects) (α : Type) := Prog E α × ℕ

/-- Less work. -/
def Work.Less : Work E α → Work E α → Prop := Prod.Lex Prog.Next (· < ·)

theorem Work.wellFounded_less : WellFounded (Work.Less : Work E α → Work E α → Prop) :=
  Prog.wellFounded_next.prod_lex wellFounded_lt

/-- The work of some tasks. -/
def Config.work (rank : ι → σ → ℕ) (c : Config E ι σ α) (tasks : Multiset ι) :
    Multiset (Work E α) := tasks.map fun t ↦ (c.task t, rank t c.shared)

omit [DecidableEq ι] in
/-- The work of a set of tasks gets less when that of one of them does and the others
keep theirs. -/
theorem Config.cutExpand_work {rank : ι → σ → ℕ} {c c' : Config E ι σ α} {tasks : Finset ι}
    {t : ι} (ht : t ∈ tasks)
    (hless : Work.Less (c'.task t, rank t c'.shared) (c.task t, rank t c.shared))
    (hothers : ∀ u, u ≠ t → c'.task u = c.task u ∧ rank u c'.shared = rank u c.shared) :
    Relation.CutExpand Work.Less (c'.work rank tasks.val) (c.work rank tasks.val) := by
  obtain ⟨rest, hrest⟩ := Multiset.exists_cons_of_mem (Finset.mem_val.mpr ht)
  have hnotMem : t ∉ rest := by
    have := tasks.nodup
    rw [hrest] at this
    exact (Multiset.nodup_cons.mp this).1
  have hsame : c'.work rank rest = c.work rank rest := by
    refine Multiset.map_congr rfl fun u hu ↦ ?_
    obtain ⟨htask, hrank⟩ := hothers u fun heq ↦ hnotMem (heq ▸ hu)
    rw [htask, hrank]
  rw [hrest, work, work, Multiset.map_cons, Multiset.map_cons, ← Multiset.singleton_add,
    ← Multiset.singleton_add]
  rw [work, work] at hsame
  rw [hsame]
  exact Relation.cutExpand_single_add hless _

/-- Finitely many tasks terminate when the environment does not move and going to sleep
lowers a rank that only the task itself can raise. -/
theorem terminates_of_rank {ok : Config E ι σ α → Move ι ε → Prop} {I : Config E ι σ α → Prop}
    (tasks : Finset ι) (rank : ι → σ → ℕ)
    (hstep : ∀ c c' m, I c → ok c m → c.step S m = some c' → I c')
    (henv : ∀ c e, ¬ok c (.env e)) (hended : ∀ c t, I c → t ∉ tasks → c.Ended t)
    (hothers : ∀ c c' t u, I c → ok c (.run u) → c.step S (.run u) = some c' → t ≠ u →
      rank t c'.shared = rank t c.shared)
    (hpark : ∀ t o s s', S.handle t o s = .parked s' → rank t s' < rank t s)
    {c : Config E ι σ α} (hc : I c) : Terminates S ok c := by
  have hdescend {c c' : Config E ι σ α} (hI : I c) (hs : Steps S ok c c') :
      Relation.CutExpand Work.Less (c'.work rank tasks.val) (c.work rank tasks.val) := by
    obtain ⟨m, hok, hs⟩ := hs
    cases m with
    | env e => exact absurd hok (henv c e)
    | run t =>
      have ht : t ∈ tasks := by
        by_contra ht
        rw [(hended c t hI ht).step_eq_none] at hs
        cases hs
      refine Config.cutExpand_work ht ?_ fun u hu ↦
        ⟨Config.task_step_ne hs hu.symm, hothers c c' u t hI hok hs hu⟩
      rcases Config.step_cases hs with ⟨u, o, k, x, s, hm, hp, hr, rfl⟩ |
        ⟨u, o, k, s, hm, hp, hr, rfl⟩ | ⟨e, s, hm, -⟩
      · obtain rfl := Move.run.inj hm
        refine Prod.Lex.left _ _ ⟨o, k, x, hp, ?_⟩
        simp only [Function.update_self]
      · obtain rfl := Move.run.inj hm
        exact Prod.Lex.right _ (hpark t o c.shared s hr)
      · cases hm
  have hwork : WellFounded (InvImage (Relation.CutExpand (Work.Less (E := E) (α := α)))
      fun c : Config E ι σ α ↦ c.work rank tasks.val) :=
    InvImage.wf _ Work.wellFounded_less.cutExpand
  induction c using hwork.induction with
  | _ c ih => exact ⟨_, fun c' hs ↦ ih c' (hdescend hc hs) (by
      obtain ⟨m, hok, hs⟩ := hs
      exact hstep c c' m hc hok hs)⟩

end Asyncio
