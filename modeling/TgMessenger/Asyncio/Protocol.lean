import TgMessenger.Asyncio.Task

/-!
# Protocols a coroutine follows

A protocol is a state machine over the operations of a program: in each of its states
some operations are legal, and an operation with its result leads to the next state.
`Prog.Follows P fin i p` says that the program `p`, started in state `i`, performs only
legal operations, whatever they return or raise, and ends in a state that satisfies
`fin`, also when it ends with an exception.

Following a protocol is a property of the program text alone, so it is proved once for
each coroutine, by the rules below; what it means for a run is up to the invariant that
connects the state of the protocol with the shared state.
-/

namespace Asyncio

variable {E : Effects} {I α β : Type}

/-- A state machine over the operations of a program. -/
structure Protocol (E : Effects) (I : Type) where
  /-- The operations that may be performed in a state. -/
  legal : I → E.Op → Prop
  /-- The state after an operation. -/
  next : I → (o : E.Op) → Except E.Fault (E.Ret o) → I

namespace Prog

/-- The program, started in a state of the protocol, follows it and ends in `fin`. -/
def Follows (P : Protocol E I) (fin : I → Prop) : I → Prog E α → Prop
  | i, .ret _ => fin i
  | i, .raise _ => fin i
  | i, .op o k => P.legal i o ∧ ∀ x, Follows P fin (P.next i o x) (k x)

namespace Follows

variable {P : Protocol E I} {F G : I → Prop} {i : I}

theorem mono {p : Prog E α} (hp : p.Follows P F i) (hFG : ∀ j, F j → G j) :
    p.Follows P G i := by
  induction p generalizing i with
  | ret a => exact hFG i hp
  | raise e => exact hFG i hp
  | op o k ih => exact ⟨hp.1, fun x ↦ ih x (hp.2 x)⟩

theorem bind {p : Prog E α} {f : α → Prog E β} (hp : p.Follows P F i)
    (hf : ∀ a j, F j → (f a).Follows P G j) (hraise : ∀ j, F j → G j) :
    (p >>= f).Follows P G i := by
  induction p generalizing i with
  | ret a => exact hf a i hp
  | raise e => exact hraise i hp
  | op o k ih => exact ⟨hp.1, fun x ↦ ih x (hp.2 x)⟩

theorem perform {o : E.Op} (ho : P.legal i o) (hnext : ∀ x, F (P.next i o x)) :
    (Prog.perform o).Follows P F i := by
  refine ⟨ho, fun x ↦ ?_⟩
  cases x <;> exact hnext _

theorem always {p : Prog E α} {fin : Prog E Unit} (hp : p.Follows P F i)
    (hfin : ∀ j, F j → fin.Follows P G j) : (p.always fin).Follows P G i := by
  induction p generalizing i with
  | ret a => exact (hfin i hp).bind (fun _ _ hj ↦ hj) fun _ hj ↦ hj
  | raise e => exact (hfin i hp).bind (fun _ _ hj ↦ hj) fun _ hj ↦ hj
  | op o k ih => exact ⟨hp.1, fun x ↦ ih x (hp.2 x)⟩

theorem ite {c : Prop} [Decidable c] {p q : Prog E α} (hp : p.Follows P F i)
    (hq : q.Follows P F i) : (if c then p else q).Follows P F i := by
  split
  · exact hp
  · exact hq

theorem forEach {κ : Type} {f : κ → Prog E Unit} {is : List κ}
    (hf : ∀ k ∈ is, ∀ j, F j → (f k).Follows P F j) (hi : F i) :
    (Prog.forEach f is).Follows P F i := by
  induction is generalizing i with
  | nil => exact hi
  | cons k is ih =>
    exact (hf k List.mem_cons_self i hi).bind
      (fun _ _ hj ↦ ih (fun k hk ↦ hf k (List.mem_cons_of_mem _ hk)) hj) fun _ hj ↦ hj

end Follows

end Prog

end Asyncio
