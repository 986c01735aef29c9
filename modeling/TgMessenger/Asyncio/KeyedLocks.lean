import TgMessenger.Asyncio.Lock
import Mathlib.Logic.Function.Basic

/-!
# Locks by key

A dictionary of locks, one for each key, filled on demand and emptied when a lock is no
longer needed.  A task is handed the lock of a key, waits for it, holds it and releases
it, and all the while the dictionary may forget the entry and hand out another lock for
the same key.

`KeyedLocks` joins the dictionary, the lock objects and the places where the tasks stand.
`Sound` is the invariant that they agree; under it at most one task is inside the section
of a key.  There is one rule for each thing that can happen: a lock is created, entries
are dropped, a task enters, waits, resumes, leaves, is cancelled or gives up.  Only the
dropping of entries has a side condition: no entry in use may go.
-/

namespace Asyncio

universe u v

/-- Where a task stands with respect to the lock of a key. -/
inductive Place (K : Type u) where
  | outside
  | /-- Asleep in the queue of a lock it was handed for a key. -/
    waiting (key : K) (lock : ℕ)
  | /-- In the critical section of a key, with the lock it holds. -/
    inside (key : K) (lock : ℕ)
deriving DecidableEq, Repr

/-- A dictionary of locks, and where each task stands. -/
structure KeyedLocks (K : Type u) (ι : Type v) where
  /-- The lock of a key. -/
  lockOf : K → Option ℕ
  /-- The next lock object. -/
  next : ℕ
  /-- The lock objects. -/
  locks : ℕ → Lock ι
  place : ι → Place K

/-- One lock of a family changes. -/
theorem Lock.alert_update {ι : Type v} {locks : ℕ → Lock ι} (h : ∀ lock, (locks lock).Alert)
    {lock : ℕ} {l : Lock ι} (hl : l.Alert) (lock' : ℕ) :
    (Function.update locks lock l lock').Alert :=
  (Function.forall_update_iff locks fun _ l ↦ l.Alert).mpr ⟨hl, fun lock _ ↦ h lock⟩ lock'

namespace KeyedLocks

variable {K : Type u} {ι : Type v} {s : KeyedLocks K ι}

/-- A task holds the lock of a key, or waits for it. -/
def Uses (s : KeyedLocks K ι) (t : ι) (k : K) (lock : ℕ) : Prop :=
  s.place t = .waiting k lock ∨ s.place t = .inside k lock

/-- Dictionary, locks and places agree. -/
structure Sound (s : KeyedLocks K ι) : Prop where
  /-- A lock object in use is not given out as a new one. -/
  fresh : ∀ k lock, s.lockOf k = some lock → lock < s.next
  /-- Two keys do not share a lock. -/
  injective : ∀ k k' lock, s.lockOf k = some lock → s.lockOf k' = some lock → k = k'
  /-- The lock a task holds or waits for is still the lock of the key. -/
  tracked : ∀ t k lock, s.Uses t k lock → s.lockOf k = some lock
  /-- The owner of a lock is the task inside. -/
  owned : ∀ lock, ∃ owner, (s.locks lock).Owned owner ∧
    ∀ t, owner = some t ↔ ∃ k, s.place t = .inside k lock
  /-- The queue of a lock holds the tasks that wait. -/
  queued : ∀ lock t, t ∈ (s.locks lock).waiters.map Prod.fst ↔ ∃ k, s.place t = .waiting k lock

namespace Sound

/-- Nobody has been handed a lock yet. -/
theorem init (next : ℕ) : Sound (⟨fun _ ↦ none, next, fun _ ↦ .free, fun _ ↦ .outside⟩ :
    KeyedLocks K ι) where
  fresh _ _ h := nomatch h
  injective _ _ _ h := nomatch h
  tracked _ _ _ h := by rcases h with h | h <;> cases h
  owned _ := ⟨none, Lock.owned_free, fun _ ↦ ⟨nofun, fun ⟨_, h⟩ ↦ nomatch h⟩⟩
  queued _ _ := ⟨fun h ↦ absurd h List.not_mem_nil, fun ⟨_, h⟩ ↦ nomatch h⟩

/-- At most one task is inside the section of a key. -/
theorem exclusive (h : Sound s) {t u : ι} {k : K} {lock lock' : ℕ}
    (ht : s.place t = .inside k lock) (hu : s.place u = .inside k lock') : t = u := by
  obtain rfl : lock = lock' :=
    Option.some.inj ((h.tracked t k lock (.inr ht)).symm.trans (h.tracked u k lock' (.inr hu)))
  obtain ⟨owner, -, howner⟩ := h.owned lock
  exact Option.some.inj (((howner t).mpr ⟨k, ht⟩).symm.trans ((howner u).mpr ⟨k, hu⟩))

/-- A lock somebody uses is held or has waiters. -/
theorem busy_of_uses (h : Sound s) {t : ι} {k : K} {lock : ℕ} (ht : s.Uses t k lock) :
    (s.locks lock).locked = true ∨ (s.locks lock).waiters ≠ [] := by
  rcases ht with ht | ht
  · refine .inr fun hnil ↦ ?_
    have hqueued := (h.queued lock t).mpr ⟨k, ht⟩
    rw [hnil] at hqueued
    exact absurd hqueued List.not_mem_nil
  · obtain ⟨owner, howned, howner⟩ := h.owned lock
    rw [howned.locked_eq, (howner t).mpr ⟨k, ht⟩]
    exact .inl rfl

/-! ## The dictionary -/

/-- The dictionary forgets entries nobody uses. -/
theorem drop (h : Sound s) (lockOf : K → Option ℕ)
    (hsub : ∀ k lock, lockOf k = some lock → s.lockOf k = some lock)
    (hused : ∀ t k lock, s.Uses t k lock → lockOf k ≠ none) :
    Sound { s with lockOf := lockOf } where
  fresh k lock hk := h.fresh k lock (hsub k lock hk)
  injective k k' lock hk hk' := h.injective k k' lock (hsub k lock hk) (hsub k' lock hk')
  tracked t k lock ht := by
    obtain ⟨lock', hlock'⟩ := Option.ne_none_iff_exists'.mp (hused t k lock ht)
    exact hlock'.trans ((hsub k lock' hlock').symm.trans (h.tracked t k lock ht))
  owned := h.owned
  queued := h.queued

section DecidableEqKey

variable [DecidableEq K]

/-- A new lock for a key that has none. -/
theorem create (h : Sound s) {k : K} (hk : s.lockOf k = none) :
    Sound { s with lockOf := Function.update s.lockOf k (some s.next)
                   next := s.next + 1
                   locks := Function.update s.locks s.next .free } := by
  have hunused {t : ι} {k' : K} : ¬s.Uses t k' s.next :=
    fun ht ↦ absurd (h.fresh k' _ (h.tracked t k' _ ht)) (Nat.lt_irrefl _)
  have hentry {k' : K} {lock : ℕ} (hk' : Function.update s.lockOf k (some s.next) k' = some lock) :
      (k' = k ∧ lock = s.next) ∨ s.lockOf k' = some lock := by
    by_cases heq : k' = k
    · rw [heq, Function.update_self] at hk'
      exact .inl ⟨heq, (Option.some.inj hk').symm⟩
    · rw [Function.update_of_ne heq] at hk'
      exact .inr hk'
  refine ⟨fun k' lock hk' ↦ ?_, fun k₁ k₂ lock h₁ h₂ ↦ ?_, fun t k' lock ht ↦ ?_,
    fun lock ↦ ?_, fun lock t ↦ ?_⟩
  · rcases hentry hk' with ⟨-, rfl⟩ | hk'
    · exact Nat.lt_succ_self _
    · exact Nat.lt_succ_of_lt (h.fresh k' lock hk')
  · rcases hentry h₁ with ⟨hk₁, hl⟩ | h₁' <;> rcases hentry h₂ with ⟨hk₂, hl'⟩ | h₂'
    · exact hk₁.trans hk₂.symm
    · exact absurd (h.fresh k₂ lock h₂') (hl ▸ Nat.lt_irrefl _)
    · exact absurd (h.fresh k₁ lock h₁') (hl' ▸ Nat.lt_irrefl _)
    · exact h.injective k₁ k₂ lock h₁' h₂'
  · have hne : k' ≠ k := by
      rintro rfl
      exact nomatch hk.symm.trans (h.tracked t k' lock ht)
    exact (Function.update_of_ne hne ..).trans (h.tracked t k' lock ht)
  · by_cases hl : lock = s.next
    · simp only [hl, Function.update_self]
      exact ⟨none, Lock.owned_free, fun t ↦ ⟨nofun, fun ⟨k', ht⟩ ↦ absurd (.inr ht) hunused⟩⟩
    · simpa only [Function.update_of_ne hl] using h.owned lock
  · by_cases hl : lock = s.next
    · simp only [hl, Function.update_self]
      exact ⟨fun hm ↦ absurd hm List.not_mem_nil, fun ⟨k', ht⟩ ↦ absurd (.inl ht) hunused⟩
    · simpa only [Function.update_of_ne hl] using h.queued lock t

end DecidableEqKey

/-! ## The lock objects -/

section DecidableEq

variable [DecidableEq ι]

/-- One task and the lock it enters, waits for or leaves change together. -/
theorem move (h : Sound s) {t : ι} {lock : ℕ} {l : Lock ι} {q : Place K} {owner : Option ι}
    (hold : ∀ k lock', s.Uses t k lock' → lock' = lock)
    (hnew : ∀ k lock', q = .waiting k lock' ∨ q = .inside k lock' →
      lock' = lock ∧ s.lockOf k = some lock)
    (howned : l.Owned owner)
    (howner : ∀ u, owner = some u ↔ ∃ k, Function.update s.place t q u = .inside k lock)
    (hqueued : ∀ u, u ∈ l.waiters.map Prod.fst ↔
      ∃ k, Function.update s.place t q u = .waiting k lock) :
    Sound { s with locks := Function.update s.locks lock l
                   place := Function.update s.place t q } := by
  have hplace {u : ι} {lock' : ℕ} (hl : lock' ≠ lock) :
      ((∃ k, Function.update s.place t q u = .inside k lock') ↔ ∃ k, s.place u = .inside k lock') ∧
      ((∃ k, Function.update s.place t q u = .waiting k lock') ↔
        ∃ k, s.place u = .waiting k lock') := by
    by_cases hu : u = t
    · subst hu
      rw [Function.update_self]
      refine ⟨⟨?_, ?_⟩, ⟨?_, ?_⟩⟩
      · exact fun ⟨k, hq⟩ ↦ absurd (hnew k lock' (.inr hq)).1 hl
      · exact fun ⟨k, hq⟩ ↦ absurd (hold k lock' (.inr hq)) hl
      · exact fun ⟨k, hq⟩ ↦ absurd (hnew k lock' (.inl hq)).1 hl
      · exact fun ⟨k, hq⟩ ↦ absurd (hold k lock' (.inl hq)) hl
    · rw [Function.update_of_ne hu]
      exact ⟨Iff.rfl, Iff.rfl⟩
  refine ⟨h.fresh, h.injective, fun u k lock' hu ↦ ?_, fun lock' ↦ ?_, fun lock' u ↦ ?_⟩
  · by_cases hut : u = t
    · simp only [Uses, hut, Function.update_self] at hu
      obtain ⟨rfl, hentry⟩ := hnew k lock' hu
      exact hentry
    · simp only [Uses, Function.update_of_ne hut] at hu
      exact h.tracked u k lock' hu
  · by_cases hl : lock' = lock
    · simp only [hl, Function.update_self]
      exact ⟨owner, howned, howner⟩
    · obtain ⟨o, ho, howner'⟩ := h.owned lock'
      simp only [Function.update_of_ne hl]
      exact ⟨o, ho, fun u ↦ (howner' u).trans (hplace hl).1.symm⟩
  · by_cases hl : lock' = lock
    · simp only [hl, Function.update_self]
      exact hqueued u
    · simp only [Function.update_of_ne hl]
      exact (h.queued lock' u).trans (hplace hl).2.symm

omit [DecidableEq ι] in
/-- A task that stands outside uses no lock. -/
theorem not_uses_of_outside {t : ι} (ht : s.place t = .outside) {k : K} {lock : ℕ} :
    ¬s.Uses t k lock := by
  rintro (hw | hi)
  · exact nomatch ht.symm.trans hw
  · exact nomatch ht.symm.trans hi

omit [DecidableEq ι] in
theorem notMem_of_outside (h : Sound s) {t : ι} (ht : s.place t = .outside) (lock : ℕ) :
    t ∉ (s.locks lock).waiters.map Prod.fst := by
  rw [h.queued]
  exact fun ⟨_, hw⟩ ↦ not_uses_of_outside ht (.inl hw)

/-- A task takes the lock of a key without waiting. -/
theorem enter (h : Sound s) {t : ι} {lock : ℕ} {k : K} {taken : Lock ι}
    (ht : s.place t = .outside) (hk : s.lockOf k = some lock)
    (htaken : (s.locks lock).acquire? = some taken) :
    Sound { s with locks := Function.update s.locks lock taken
                   place := Function.update s.place t (.inside k lock) } := by
  obtain ⟨owner, howned, howner⟩ := h.owned lock
  have hnot := h.notMem_of_outside ht lock
  obtain ⟨rfl, howned'⟩ := howned.acquire htaken hnot
  refine h.move (fun _ _ hu ↦ absurd hu (not_uses_of_outside ht)) ?_ howned' (fun u ↦ ?_)
    (fun u ↦ ?_)
  · rintro k' lock' (hq | hq)
    · cases hq
    · obtain ⟨rfl, rfl⟩ := Place.inside.inj hq
      exact ⟨rfl, hk⟩
  · by_cases hu : u = t
    · rw [hu, Function.update_self]
      exact ⟨fun _ ↦ ⟨k, rfl⟩, fun _ ↦ rfl⟩
    · rw [Function.update_of_ne hu, ← howner]
      exact ⟨fun heq ↦ absurd (Option.some.inj heq).symm hu, nofun⟩
  · rw [Lock.waiters_of_acquire? htaken]
    by_cases hu : u = t
    · rw [hu, Function.update_self]
      exact ⟨fun hm ↦ absurd hm hnot, fun ⟨_, hq⟩ ↦ nomatch hq⟩
    · rw [Function.update_of_ne hu]
      exact h.queued lock u

/-- A task goes to sleep in the queue of the lock of a key. -/
theorem wait (h : Sound s) {t : ι} {lock : ℕ} {k : K} (ht : s.place t = .outside)
    (hk : s.lockOf k = some lock) :
    Sound { s with locks := Function.update s.locks lock ((s.locks lock).enqueue t)
                   place := Function.update s.place t (.waiting k lock) } := by
  obtain ⟨owner, howned, howner⟩ := h.owned lock
  have hnot := h.notMem_of_outside ht lock
  have hother : owner ≠ some t := by
    rw [Ne, howner]
    exact fun ⟨_, hq⟩ ↦ not_uses_of_outside ht (.inr hq)
  refine h.move (fun _ _ hu ↦ absurd hu (not_uses_of_outside ht)) ?_
    (howned.enqueue hnot hother) (fun u ↦ ?_) (fun u ↦ ?_)
  · rintro k' lock' (hq | hq)
    · obtain ⟨rfl, rfl⟩ := Place.waiting.inj hq
      exact ⟨rfl, hk⟩
    · cases hq
  · by_cases hu : u = t
    · rw [hu, Function.update_self]
      exact ⟨fun heq ↦ absurd heq hother, fun ⟨_, hq⟩ ↦ nomatch hq⟩
    · rw [Function.update_of_ne hu]
      exact howner u
  · rw [Lock.enqueue, List.map_append, List.mem_append, h.queued]
    by_cases hu : u = t
    · rw [hu, Function.update_self]
      exact ⟨fun _ ↦ ⟨k, rfl⟩, fun _ ↦ .inr (List.mem_singleton_self t)⟩
    · rw [Function.update_of_ne hu]
      exact ⟨fun hm ↦ hm.resolve_right fun hm ↦ hu (List.mem_singleton.mp hm), .inl⟩

omit [DecidableEq ι] in
/-- The lock of a place is determined by the place. -/
theorem eq_of_uses {t : ι} {k k' : K} {lock lock' : ℕ} (h : s.Uses t k lock)
    (h' : s.Uses t k' lock') : lock' = lock := by
  rcases h with h | h <;> rcases h' with h' | h'
  · exact (Place.waiting.inj (h'.symm.trans h)).2
  · exact nomatch h'.symm.trans h
  · exact nomatch h'.symm.trans h
  · exact (Place.inside.inj (h'.symm.trans h)).2

/-- A woken task takes the lock it waits for. -/
theorem resume (h : Sound s) {t : ι} {lock : ℕ} {k : K} (ht : s.place t = .waiting k lock)
    (hwoken : (s.locks lock).waiting? t = some .woken) :
    Sound { s with locks := Function.update s.locks lock ((s.locks lock).resume t)
                   place := Function.update s.place t (.inside k lock) } := by
  obtain ⟨owner, howned, howner⟩ := h.owned lock
  obtain ⟨rfl, howned'⟩ := howned.resume hwoken
  refine h.move (fun _ _ ↦ eq_of_uses (.inl ht)) ?_ howned' (fun u ↦ ?_) (fun u ↦ ?_)
  · rintro k' lock' (hq | hq)
    · cases hq
    · obtain ⟨rfl, rfl⟩ := Place.inside.inj hq
      exact ⟨rfl, h.tracked t k lock (.inl ht)⟩
  · by_cases hu : u = t
    · rw [hu, Function.update_self]
      exact ⟨fun _ ↦ ⟨k, rfl⟩, fun _ ↦ rfl⟩
    · rw [Function.update_of_ne hu, ← howner]
      exact ⟨fun heq ↦ absurd (Option.some.inj heq).symm hu, nofun⟩
  · refine Lock.mem_map_fst_remove.trans ?_
    by_cases hu : u = t
    · rw [hu, Function.update_self]
      exact ⟨fun hm ↦ absurd rfl hm.2, fun ⟨_, hq⟩ ↦ nomatch hq⟩
    · rw [Function.update_of_ne hu, h.queued]
      exact ⟨fun hm ↦ hm.1, fun hm ↦ ⟨hm, hu⟩⟩

/-- A task leaves its section. -/
theorem leave (h : Sound s) {t : ι} {lock : ℕ} {k : K} (ht : s.place t = .inside k lock) :
    Sound { s with locks := Function.update s.locks lock (s.locks lock).release
                   place := Function.update s.place t .outside } := by
  obtain ⟨owner, howned, howner⟩ := h.owned lock
  obtain rfl : owner = some t := (howner t).mpr ⟨k, ht⟩
  refine h.move (fun _ _ ↦ eq_of_uses (.inr ht)) (fun k' lock' hq ↦ ?_) howned.release
    (fun u ↦ ?_) (fun u ↦ ?_)
  · rcases hq with hq | hq <;> cases hq
  · by_cases hu : u = t
    · rw [hu, Function.update_self]
      exact ⟨nofun, fun ⟨_, hq⟩ ↦ nomatch hq⟩
    · rw [Function.update_of_ne hu, ← howner]
      exact ⟨nofun, fun heq ↦ absurd (Option.some.inj heq).symm hu⟩
  · rw [Lock.map_fst_release]
    by_cases hu : u = t
    · rw [hu, Function.update_self]
      exact ⟨fun hm ↦ absurd hm (howned.owner_notMem t rfl), fun ⟨_, hq⟩ ↦ nomatch hq⟩
    · rw [Function.update_of_ne hu]
      exact h.queued lock u

/-- A waiting task is cancelled; it still has to leave the queue. -/
theorem cancel (h : Sound s) (t : ι) (lock : ℕ) :
    Sound { s with locks := Function.update s.locks lock ((s.locks lock).cancel t) } := by
  refine ⟨h.fresh, h.injective, h.tracked, fun lock' ↦ ?_, fun lock' u ↦ ?_⟩
  · by_cases hl : lock' = lock
    · obtain ⟨owner, howned, howner⟩ := h.owned lock
      simp only [hl, Function.update_self]
      exact ⟨owner, howned.cancel t, howner⟩
    · simpa only [Function.update_of_ne hl] using h.owned lock'
  · by_cases hl : lock' = lock
    · simp only [hl, Function.update_self, Lock.map_fst_cancel]
      exact h.queued lock u
    · simpa only [Function.update_of_ne hl] using h.queued lock' u

/-- A waiting task gives up and leaves the queue. -/
theorem abandon (h : Sound s) {t : ι} {lock : ℕ} {k : K} (ht : s.place t = .waiting k lock) :
    Sound { s with locks := Function.update s.locks lock ((s.locks lock).abandon t)
                   place := Function.update s.place t .outside } := by
  obtain ⟨owner, howned, howner⟩ := h.owned lock
  refine h.move (fun _ _ ↦ eq_of_uses (.inl ht)) (fun k' lock' hq ↦ ?_) (howned.abandon t)
    (fun u ↦ ?_) (fun u ↦ ?_)
  · rcases hq with hq | hq <;> cases hq
  · by_cases hu : u = t
    · rw [hu, Function.update_self, howner, ht]
      simp only [reduceCtorEq]
    · rw [Function.update_of_ne hu]
      exact howner u
  · rw [Lock.map_fst_abandon]
    refine Lock.mem_map_fst_remove.trans ?_
    by_cases hu : u = t
    · rw [hu, Function.update_self]
      exact ⟨fun hm ↦ absurd rfl hm.2, fun ⟨_, hq⟩ ↦ nomatch hq⟩
    · rw [Function.update_of_ne hu, h.queued]
      exact ⟨fun hm ↦ hm.1, fun hm ↦ ⟨hm, hu⟩⟩

end DecidableEq

end Sound

end KeyedLocks

end Asyncio
