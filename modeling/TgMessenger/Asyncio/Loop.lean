import TgMessenger.Asyncio.Termination
import Mathlib.Data.List.Nodup

/-!
# Turns of an event loop

`Config.step` lets any task go first after each operation.  An event loop is stricter: a task
keeps its turn until it awaits something, and of the tasks that await a resource which is given
out first come first served, such as a lock around a connection, the first has to go on.

`Loop.step` is one operation under these rules, with the queue of the resource as part of the
state.  Every run of a loop is a run of its tasks, so what holds of all those holds here too; what
the loop adds is the order of the queue (`Loop.before_step`).
-/

namespace Asyncio

/-- What a task does before it can execute an operation. -/
inductive Wait where
  | /-- Nothing: the operation belongs to the turn it was reached in. -/
    nothing
  | /-- It waits for something of its own. -/
    reply
  | /-- It waits in the queue. -/
    queue
deriving DecidableEq

variable {E : Effects} {ι σ ε α : Type}

/-- What a program waits for before its next operation. -/
def Prog.wait? (wait : E.Op → Wait) : Prog E α → Option Wait
  | .op o _ => some (wait o)
  | .ret _ => none
  | .raise _ => none

/-- Tasks on an event loop. -/
structure Loop (E : Effects) (ι σ α : Type) where
  config : Config E ι σ α
  /-- The tasks that wait in the queue, first come first. -/
  queue : List ι
  /-- The task that has not finished its turn. -/
  running : Option ι

namespace Loop

/-- Nobody has had a turn yet. -/
def start (c : Config E ι σ α) : Loop E ι σ α := ⟨c, [], none⟩

variable [DecidableEq ι]

/-- The task can have the next operation. -/
def Ready (wait : E.Op → Wait) (l : Loop E ι σ α) (t : ι) : Prop :=
  l.running = some t ∨
    l.running = none ∧ ((l.config.task t).wait? wait = some .queue → l.queue.head? = some t)

instance (wait : E.Op → Wait) (l : Loop E ι σ α) (t : ι) : Decidable (l.Ready wait t) :=
  inferInstanceAs (Decidable (_ ∨ _))

/-- After an operation of task `t`: it goes to the end of the queue if that is what it waits for
next, and keeps its turn if it waits for nothing. -/
def after (wait : E.Op → Wait) (l : Loop E ι σ α) (t : ι) (c : Config E ι σ α) : Loop E ι σ α where
  config := c
  queue := l.queue.erase t ++ if (c.task t).wait? wait = some .queue then [t] else []
  running := if (c.task t).wait? wait = some .nothing then some t else none

/-- One operation, or a move of the environment. -/
def step (S : System E ι σ ε) (wait : E.Op → Wait) (l : Loop E ι σ α) :
    Move ι ε → Option (Loop E ι σ α)
  | .run t => if l.Ready wait t then (l.config.step S (.run t)).map (l.after wait t) else none
  | .env e => (l.config.step S (.env e)).map fun c ↦ { l with config := c }

/-- The queue and the turn fit what the tasks wait for. -/
structure Orderly (wait : E.Op → Wait) (l : Loop E ι σ α) : Prop where
  nodup : l.queue.Nodup
  mem_queue : ∀ t, t ∈ l.queue ↔ (l.config.task t).wait? wait = some .queue
  running : ∀ t, l.running = some t ↔ (l.config.task t).wait? wait = some .nothing

/-- Task `t` is in front of task `u` in the queue. -/
def Before (l : Loop E ι σ α) (t u : ι) : Prop := [t, u].Sublist l.queue

variable {S : System E ι σ ε} {wait : E.Op → Wait} {l l' : Loop E ι σ α} {t u v : ι}

omit [DecidableEq ι] in
theorem start_orderly {c : Config E ι σ α}
    (h : ∀ t, (c.task t).wait? wait ≠ some .queue ∧ (c.task t).wait? wait ≠ some .nothing) :
    (start c).Orderly wait where
  nodup := List.nodup_nil
  mem_queue t := iff_of_false List.not_mem_nil (h t).1
  running t := iff_of_false nofun (h t).2

theorem step_run (h : l.step S wait (.run t) = some l') :
    l.Ready wait t ∧ ∃ c, l.config.step S (.run t) = some c ∧ l' = l.after wait t c := by
  obtain ⟨hready, h⟩ := Option.ite_none_right_eq_some.mp h
  obtain ⟨c, hc, rfl⟩ := Option.map_eq_some_iff.mp h
  exact ⟨hready, c, hc, rfl⟩

theorem step_env {e : ε} (h : l.step S wait (.env e) = some l') :
    ∃ c, l.config.step S (.env e) = some c ∧ l' = { l with config := c } := by
  obtain ⟨c, hc, rfl⟩ := Option.map_eq_some_iff.mp h
  exact ⟨c, hc, rfl⟩

/-- Every move of the loop is a move of its tasks. -/
theorem config_step {m : Move ι ε} (h : l.step S wait m = some l') :
    l.config.step S m = some l'.config := by
  cases m with
  | run t =>
    obtain ⟨-, c, hc, rfl⟩ := step_run h
    exact hc
  | env e =>
    obtain ⟨c, hc, rfl⟩ := step_env h
    exact hc

theorem Orderly.step {m : Move ι ε} (h : l.Orderly wait) (hs : l.step S wait m = some l') :
    l'.Orderly wait := by
  cases m with
  | env e =>
    obtain ⟨c, hc, rfl⟩ := step_env hs
    have htask := Config.task_step_env hc
    exact ⟨h.nodup, by rw [htask]; exact h.mem_queue, by rw [htask]; exact h.running⟩
  | run t =>
    obtain ⟨hready, c, hc, rfl⟩ := step_run hs
    have hothers (u : ι) (hu : u ≠ t) : c.task u = l.config.task u :=
      Config.task_step_ne hc hu.symm
    refine ⟨?_, fun u ↦ ?_, fun u ↦ ?_⟩
    · refine List.Nodup.append (h.nodup.erase t) ?_ ?_
      · split_ifs
        · exact List.nodup_singleton t
        · exact List.nodup_nil
      · split_ifs
        · exact List.disjoint_singleton.mpr h.nodup.not_mem_erase
        · exact List.disjoint_nil_right _
    · by_cases hu : u = t
      · subst hu
        simp only [after, List.mem_append, h.nodup.not_mem_erase, false_or]
        split_ifs with hwait
        · exact iff_of_true List.mem_cons_self hwait
        · exact iff_of_false List.not_mem_nil hwait
      · have hlast : u ∉ if (c.task t).wait? wait = some .queue then [t] else [] := by
          split_ifs
          · exact fun hmem ↦ hu (List.mem_singleton.mp hmem)
          · exact List.not_mem_nil
        simp only [after, List.mem_append, hlast, or_false, List.mem_erase_of_ne hu]
        rw [h.mem_queue, hothers u hu]
    · by_cases hu : u = t
      · subst hu
        simp only [after]
        split_ifs with hwait
        · exact iff_of_true rfl hwait
        · exact iff_of_false nofun hwait
      · have hidle : ¬(l.config.task u).wait? wait = some .nothing := by
          intro hwait
          have hrunning := (h.running u).mpr hwait
          rcases hready with hready | ⟨hready, -⟩
          · exact hu (Option.some.inj (hrunning.symm.trans hready))
          · cases hrunning.symm.trans hready
        simp only [after]
        rw [hothers u hu]
        refine iff_of_false ?_ hidle
        split_ifs
        · exact fun heq ↦ hu (Option.some.inj heq).symm
        · exact nofun

omit [DecidableEq ι] in
/-- A task that waits in the queue behind another does not move. -/
theorem Before.not_ready (hl : l.Orderly wait) (h : l.Before t u) (hne : t ≠ u) :
    ¬l.Ready wait u := by
  have hmem : u ∈ l.queue := h.subset (List.mem_cons_of_mem _ List.mem_cons_self)
  have hwait := (hl.mem_queue u).mp hmem
  rintro (hready | ⟨-, hhead⟩)
  · cases ((hl.running u).mp hready).symm.trans hwait
  · obtain ⟨rest, hqueue⟩ := List.head?_eq_some_iff.mp (hhead hwait)
    have hnodup := hl.nodup
    rw [Before, hqueue] at h
    rw [hqueue] at hnodup
    rcases List.cons_sublist_cons'.mp h with hrest | ⟨heq, -⟩
    · exact (List.nodup_cons.mp hnodup).1 (hrest.subset (List.mem_cons_of_mem _ List.mem_cons_self))
    · exact hne heq

/-- A move leaves the order of the tasks in the queue that do not make it. -/
theorem before_step {m : Move ι ε} (h : l.Before t u) (hs : l.step S wait m = some l')
    (ht : m ≠ .run t) (hu : m ≠ .run u) : l'.Before t u := by
  cases m with
  | env e =>
    obtain ⟨c, -, rfl⟩ := step_env hs
    exact h
  | run v =>
    obtain ⟨-, c, -, rfl⟩ := step_run hs
    have hvt : v ≠ t := fun heq ↦ ht (heq ▸ rfl)
    have hvu : v ≠ u := fun heq ↦ hu (heq ▸ rfl)
    have herase : [t, u].erase v = [t, u] :=
      List.erase_of_not_mem (by simp [hvt, hvu])
    exact (herase ▸ h.erase v).trans (List.sublist_append_left ..)

/-- A task that goes to the queue is behind all that are there. -/
theorem before_of_step (hs : l.step S wait (.run u) = some l')
    (ht : t ∈ l.queue) (hne : t ≠ u)
    (hwait : (l'.config.task u).wait? wait = some .queue) : l'.Before t u := by
  obtain ⟨-, c, -, rfl⟩ := step_run hs
  simp only [after] at hwait
  simp only [Before, after, if_pos hwait]
  exact (List.singleton_sublist.mpr ((List.mem_erase_of_ne hne).mpr ht)).append (.refl [u])

/-- While some task can move, the loop can: the task that has the turn, the first in the queue,
or any other. -/
theorem exists_step (hl : l.Orderly wait)
    (hnext : ∀ t o k, l.config.task t = .op o k → wait o ≠ .reply →
      ∃ c, l.config.step S (.run t) = some c)
    (h : ∃ t c, l.config.step S (.run t) = some c) :
    ∃ t l', l.step S wait (.run t) = some l' := by
  have hmove {t : ι} {c : Config E ι σ α} (hready : l.Ready wait t)
      (hc : l.config.step S (.run t) = some c) : ∃ t l', l.step S wait (.run t) = some l' :=
    ⟨t, l.after wait t c, by rw [step, if_pos hready, hc]; rfl⟩
  have hof {t : ι} {w : Wait} (hw : (l.config.task t).wait? wait = some w) (hne : w ≠ .reply) :
      ∃ c, l.config.step S (.run t) = some c := by
    cases hp : l.config.task t with
    | ret a =>
      rw [hp] at hw
      cases hw
    | raise e =>
      rw [hp] at hw
      cases hw
    | op o k =>
      rw [hp] at hw
      exact hnext t o k hp (Option.some.inj hw ▸ hne)
  cases hrunning : l.running with
  | some t =>
    obtain ⟨c, hc⟩ := hof ((hl.running t).mp hrunning) nofun
    exact hmove (.inl hrunning) hc
  | none =>
    cases hqueue : l.queue with
    | cons t rest =>
      have hmem : t ∈ l.queue := hqueue ▸ List.mem_cons_self
      obtain ⟨c, hc⟩ := hof ((hl.mem_queue t).mp hmem) nofun
      exact hmove (.inr ⟨hrunning, fun _ ↦ by rw [hqueue]; rfl⟩) hc
    | nil =>
      obtain ⟨t, c, hc⟩ := h
      refine hmove (.inr ⟨hrunning, fun hwait ↦ ?_⟩) hc
      have hmem := (hl.mem_queue t).mpr hwait
      rw [hqueue] at hmem
      exact absurd hmem List.not_mem_nil

/-- No run from here goes on forever. -/
def Terminates (S : System E ι σ ε) (wait : E.Op → Wait) (ok : Loop E ι σ α → Move ι ε → Prop)
    (l : Loop E ι σ α) : Prop := Acc (fun l' l ↦ Machine.Step (step S wait) ok l l') l

/-- A loop whose moves are moves its tasks can make only finitely often stops. -/
theorem terminates_of_config {ok : Config E ι σ α → Move ι ε → Prop}
    {ok' : Loop E ι σ α → Move ι ε → Prop} {I : Loop E ι σ α → Prop}
    (hok : ∀ l l' m, I l → ok' l m → l.step S wait m = some l' → ok l.config m ∧ I l')
    (h : Asyncio.Terminates S ok l.config) (hl : I l) : Terminates S wait ok' l := by
  generalize hc : l.config = c at h
  induction h generalizing l with
  | intro c _ ih =>
    subst hc
    refine ⟨_, fun l' ⟨m, hm, hs⟩ ↦ ?_⟩
    obtain ⟨hconfig, hl'⟩ := hok l l' m hl hm hs
    exact ih l'.config ⟨m, hconfig, config_step hs⟩ hl' rfl

end Loop

end Asyncio
