import Mathlib.Algebra.GroupWithZero.Nat
import Mathlib.Data.List.MinMax
import TgMessenger.Data.OrderedDict

/-!
# Tallies

An insertion-ordered dictionary of counters: what it holds after a list is gone through, the sum
of the counters, and the key whose counter is the most of them.
-/

universe u v

namespace OrderedDict

variable {K : Type u} [DecidableEq K]

/-- `d.get(k, 0)`. -/
def count (d : OrderedDict K ℕ) (k : K) : ℕ := (d.get? k).getD 0

/-- `sum(d.values())`. -/
def total (d : OrderedDict K ℕ) : ℕ := (d.items.map Prod.snd).sum

theorem count_of_mem {d : OrderedDict K ℕ} {e : K × ℕ} (h : e ∈ d.items) : d.count e.1 = e.2 := by
  rw [count, get?_eq_some_iff.mpr h]
  rfl

@[simp] theorem count_set (d : OrderedDict K ℕ) (k k' : K) (n : ℕ) :
    (d.set k n).count k' = if k' = k then n else d.count k' := by
  rw [count, get?_set]
  split_ifs <;> rfl

@[simp] theorem count_erase (d : OrderedDict K ℕ) (k k' : K) :
    (d.erase k).count k' = if k' = k then 0 else d.count k' := by
  rw [count, get?_erase]
  split_ifs <;> rfl

/-! ## Sums -/

/-- A stored entry, and the others. -/
theorem perm_cons_erase {V : Type v} {d : OrderedDict K V} {e : K × V} (h : e ∈ d.items) :
    d.items.Perm (e :: (d.erase e.1).items) := by
  have hnodup : (e :: (d.erase e.1).items).Nodup := by
    refine List.nodup_cons.mpr ⟨?_, (d.erase e.1).nodup.of_map⟩
    intro hmem
    exact (mem_items_erase.mp hmem).2 rfl
  rw [List.perm_ext_iff_of_nodup d.nodup.of_map hnodup]
  intro e'
  rw [List.mem_cons, mem_items_erase]
  constructor
  · intro he'
    by_cases hkey : e'.1 = e.1
    · have hsame := (get?_eq_some_iff.mpr he').symm.trans
        (hkey ▸ get?_eq_some_iff.mpr h : d.get? e'.1 = some e.2)
      exact .inl (Prod.ext hkey (Option.some.inj hsame))
    · exact .inr ⟨he', hkey⟩
  · rintro (rfl | ⟨he', -⟩)
    · exact h
    · exact he'

theorem total_of_mem {d : OrderedDict K ℕ} {e : K × ℕ} (h : e ∈ d.items) :
    d.total = e.2 + (d.erase e.1).total :=
  ((perm_cons_erase h).map Prod.snd).sum_nat.trans List.sum_cons

theorem total_erase (d : OrderedDict K ℕ) (k : K) :
    d.total = d.count k + (d.erase k).total := by
  rw [count]
  cases hget : d.get? k with
  | some n => exact total_of_mem (get?_eq_some_iff.mp hget)
  | none =>
    have hself : (d.erase k).items = d.items := by
      rw [erase, items_retain, List.filter_eq_self]
      intro e he
      rw [decide_eq_true_eq]
      rintro rfl
      rw [get?_eq_some_iff.mpr he] at hget
      cases hget
    rw [total, total, hself]
    exact (Nat.zero_add _).symm

theorem total_set (d : OrderedDict K ℕ) (k : K) (n : ℕ) :
    (d.set k n).total = n + (d.erase k).total := by
  have hmem : (k, n) ∈ (d.set k n).items := get?_eq_some_iff.mp (get?_set_self ..)
  have hothers : ((d.set k n).erase k).items.Perm (d.erase k).items := by
    rw [List.perm_ext_iff_of_nodup ((d.set k n).erase k).nodup.of_map (d.erase k).nodup.of_map]
    rintro ⟨k', n'⟩
    rw [mem_items_erase, mem_items_erase, ← get?_eq_some_iff, ← get?_eq_some_iff]
    refine and_congr_left fun hne ↦ ?_
    rw [get?_set_ne _ _ hne]
  rw [total_of_mem hmem]
  exact congrArg (n + ·) (hothers.map Prod.snd).sum_nat

/-! ## Counting -/

section Tally

variable {α : Type v} (kind : α → Option K)

/-- One more of its kind. -/
def bump (d : OrderedDict K ℕ) (a : α) : OrderedDict K ℕ :=
  match kind a with
  | none => d
  | some k => d.set k (d.count k + 1)

theorem count_bump (d : OrderedDict K ℕ) (a : α) (k : K) :
    (bump kind d a).count k = d.count k + if kind a = some k then 1 else 0 := by
  rw [bump]
  cases hkind : kind a with
  | none => rfl
  | some k' =>
    simp only [count_set, Option.some.injEq]
    by_cases hk : k = k'
    · rw [if_pos hk, if_pos hk.symm, hk]
    · rw [if_neg hk, if_neg (Ne.symm hk), Nat.add_zero]

theorem total_bump (d : OrderedDict K ℕ) (a : α) :
    (bump kind d a).total = d.total + if (kind a).isSome then 1 else 0 := by
  rw [bump]
  cases hkind : kind a with
  | none => rfl
  | some k =>
    rw [total_set, d.total_erase k, Option.isSome_some, if_pos rfl]
    omega

theorem pos_bump {d : OrderedDict K ℕ} (h : ∀ e ∈ d.items, 0 < e.2) (a : α) :
    ∀ e ∈ (bump kind d a).items, 0 < e.2 := by
  rw [bump]
  cases kind a with
  | none => exact h
  | some k =>
    rintro ⟨k', n⟩ he
    rw [← get?_eq_some_iff, get?_set] at he
    split_ifs at he
    · rw [← Option.some.inj he]
      exact Nat.succ_pos _
    · exact h _ (get?_eq_some_iff.mp he)

/-- How many there are of each kind, in the order in which the kinds were met. -/
def tally (l : List α) : OrderedDict K ℕ := l.foldl (bump kind) empty

theorem count_tally (l : List α) (k : K) :
    (tally kind l).count k = l.countP fun a ↦ kind a = some k := by
  induction l using List.reverseRecOn with
  | nil => rfl
  | append_singleton l a ih =>
    rw [tally, List.foldl_append, List.foldl_cons, List.foldl_nil, count_bump, ← tally, ih,
      List.countP_append, List.countP_singleton]
    simp only [decide_eq_true_eq]

theorem total_tally (l : List α) : (tally kind l).total = l.countP fun a ↦ (kind a).isSome := by
  induction l using List.reverseRecOn with
  | nil => rfl
  | append_singleton l a ih =>
    rw [tally, List.foldl_append, List.foldl_cons, List.foldl_nil, total_bump, ← tally, ih,
      List.countP_append, List.countP_singleton]

theorem pos_tally (l : List α) : ∀ e ∈ (tally kind l).items, 0 < e.2 := by
  induction l using List.reverseRecOn with
  | nil =>
    rintro e ⟨⟩
  | append_singleton l a ih =>
    rw [tally, List.foldl_append]
    exact pos_bump kind ih a

end Tally

/-! ## The most frequent -/

/-- Two counters are at most the sum of all. -/
theorem add_le_total {d : OrderedDict K ℕ} {e e' : K × ℕ} (h : e ∈ d.items) (h' : e' ∈ d.items)
    (hne : e'.1 ≠ e.1) : e.2 + e'.2 ≤ d.total := by
  have hother : e' ∈ (d.erase e.1).items := mem_items_erase.mpr ⟨h', hne⟩
  have hrest := total_of_mem hother
  rw [total_of_mem h]
  omega

/-- A counter of more than half of all is the largest, whatever the order. -/
theorem argmax_of_majority {d : OrderedDict K ℕ} {e : K × ℕ} (h : e ∈ d.items)
    (hmajority : d.total < 2 * e.2) : d.items.argmax Prod.snd = some e := by
  cases hmax : d.items.argmax Prod.snd with
  | none =>
    rw [List.argmax_eq_none.mp hmax] at h
    cases h
  | some m =>
    have hm : m ∈ d.items := List.argmax_mem hmax
    have hle : e.2 ≤ m.2 := List.le_of_mem_argmax h hmax
    by_cases hkey : m.1 = e.1
    · have hcount := (count_of_mem hm).symm.trans (hkey ▸ count_of_mem h)
      rw [Prod.ext hkey hcount]
    · have hsum := add_le_total h hm hkey
      omega

end OrderedDict
