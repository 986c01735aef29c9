import Mathlib.Data.List.Basic
import Mathlib.Data.Nat.Notation
import Mathlib.Logic.Function.Basic

/-!
# State graphs

A graph of nodes that work on one state: a node makes its calls and returns an update, which is
merged into the state, and an edge names the next node.  An engine runs such graphs and keeps the
state of every thread; what is relied on of it is in `Engine.Documented`.
-/

universe u

/-- A graph of nodes `ν` over states `σ`, whose nodes make calls `ε` and return updates `υ`. -/
structure StateGraph (ν σ υ ε : Type u) where
  entry : σ → ν
  /-- The calls of a node, and its update unless it raises. -/
  node : ν → σ → List ε × Option υ
  /-- Where the edge behind a node leads, unless it raises; `some none` is the end. -/
  next : ν → σ → Option (Option ν)

namespace StateGraph

variable {ν σ υ ε : Type u}

/-- What a run has gone through: the states, its calls, and the last state unless it has raised. -/
structure Run (σ ε : Type u) where
  states : List σ
  calls : List ε
  last : Option σ

/-- A run along the edges, of so many nodes at most. -/
def run (G : StateGraph ν σ υ ε) (merge : σ → υ → σ) : ℕ → ν → σ → Run σ ε
  | 0, _, _ => ⟨[], [], none⟩
  | limit + 1, n, s =>
    match G.node n s with
    | (calls, none) => ⟨[], calls, none⟩
    | (calls, some update) =>
      let s' := merge s update
      match G.next n s' with
      | none => ⟨[s'], calls, none⟩
      | some none => ⟨[s'], calls, some s'⟩
      | some (some n') =>
        let rest := G.run merge limit n' s'
        ⟨s' :: rest.states, calls ++ rest.calls, rest.last⟩

variable {G : StateGraph ν σ υ ε} {merge : σ → υ → σ} {limit : ℕ} {n n' : ν} {s : σ}
  {calls : List ε} {update : υ}

theorem run_of_raises (h : G.node n s = (calls, none)) :
    G.run merge (limit + 1) n s = ⟨[], calls, none⟩ := by
  rw [run, h]

theorem run_of_end (h : G.node n s = (calls, some update))
    (hnext : G.next n (merge s update) = some none) :
    G.run merge (limit + 1) n s = ⟨[merge s update], calls, some (merge s update)⟩ := by
  rw [run, h]
  dsimp only
  rw [hnext]

theorem run_of_next (h : G.node n s = (calls, some update))
    (hnext : G.next n (merge s update) = some (some n')) :
    G.run merge (limit + 1) n s =
      ⟨merge s update :: (G.run merge limit n' (merge s update)).states,
        calls ++ (G.run merge limit n' (merge s update)).calls,
        (G.run merge limit n' (merge s update)).last⟩ := by
  rw [run, h]
  dsimp only
  rw [hnext]

end StateGraph

/-- What runs graphs, with a store `κ` that keeps the states of the threads. -/
structure Engine (κ ν σ υ ε : Type u) where
  /-- The nodes that a run has at most. -/
  limit : ℕ
  merge : σ → υ → σ
  /-- The state of a thread. -/
  state : κ → String → σ
  /-- A run of a graph for a thread and an input: its last state unless it raises, its calls, and
  the store after it. -/
  invoke : StateGraph ν σ υ ε → String → υ → κ → Option σ × List ε × κ

namespace Engine

variable {κ ν σ υ ε : Type u}

/-- The run for an input: it is merged into the state of the thread. -/
def started (E : Engine κ ν σ υ ε) (G : StateGraph ν σ υ ε) (thread : String) (input : υ)
    (store : κ) : StateGraph.Run σ ε :=
  let s := E.merge (E.state store thread) input
  G.run E.merge E.limit (G.entry s) s

/-- A run goes along the edges; its last state is kept for the thread, and of a run that raises one
of those it has gone through; the other threads are as they were. -/
structure Documented (E : Engine κ ν σ υ ε) : Prop where
  calls : ∀ G thread input store,
    (E.invoke G thread input store).2.1 = (E.started G thread input store).calls
  last : ∀ G thread input store,
    (E.invoke G thread input store).1 = (E.started G thread input store).last
  kept : ∀ G thread input store, ∀ s ∈ (E.invoke G thread input store).1,
    E.state (E.invoke G thread input store).2.2 thread = s
  raised : ∀ G thread input store, (E.invoke G thread input store).1 = none →
    E.state (E.invoke G thread input store).2.2 thread ∈
      E.state store thread :: E.merge (E.state store thread) input ::
        (E.started G thread input store).states
  others : ∀ G thread input store thread', thread' ≠ thread →
    E.state (E.invoke G thread input store).2.2 thread' = E.state store thread'

/-- An engine that keeps the states in a function, of a run that raises the one it began with. -/
def inMemory (limit : ℕ) (merge : σ → υ → σ) : Engine (String → σ) ν σ υ ε where
  limit := limit
  merge := merge
  state store := store
  invoke G thread input store :=
    let s := merge (store thread) input
    let run := G.run merge limit (G.entry s) s
    (run.last, run.calls, Function.update store thread (run.last.getD s))

theorem documented_inMemory (limit : ℕ) (merge : σ → υ → σ) :
    (inMemory limit merge : Engine (String → σ) ν σ υ ε).Documented where
  calls _ _ _ _ := rfl
  last _ _ _ _ := rfl
  kept G thread input store s hs := by
    have hlast : (G.run merge limit (G.entry (merge (store thread) input))
        (merge (store thread) input)).last = some s := hs
    refine (Function.update_self ..).trans ?_
    rw [hlast]
    rfl
  raised G thread input store hraised := by
    have hlast : (G.run merge limit (G.entry (merge (store thread) input))
        (merge (store thread) input)).last = none := hraised
    show Function.update store thread _ thread ∈ store thread :: merge (store thread) input :: _
    rw [Function.update_self, hlast]
    exact List.mem_cons_of_mem _ List.mem_cons_self
  others G thread input store thread' h := Function.update_of_ne h ..

end Engine
