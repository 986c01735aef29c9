import TgMessenger.Data.OrderedDict
import Mathlib.Data.List.Sort
import Mathlib.Order.Defs.LinearOrder
import Mathlib.Tactic.Common

/-!
# Tables with a primary key

`Table κ ρ` is a table whose rows `ρ` are found by a primary key `κ`.  The rows are
stored in ascending key order, which the structure carries as a field: a key occurs at
most once, and `ORDER BY key` is the stored order.

The statements are those a key-value use of SQL needs: `INSERT … ON CONFLICT DO UPDATE`
(`upsert`), `DELETE … WHERE` and `SELECT … WHERE` with a condition on the key.
`List.rtake n`, the last `n` elements, is `ORDER BY key DESC LIMIT n` put back in
ascending order.
-/

universe u v

/-- A table: rows in ascending order of their primary key. -/
structure Table (κ : Type u) (ρ : Type v) [LinearOrder κ] where
  /-- The keyed rows, by ascending key. -/
  entries : List (κ × ρ)
  /-- The keys ascend strictly. -/
  sorted : entries.Pairwise fun a b ↦ a.1 < b.1

namespace Table

variable {κ : Type u} {ρ : Type v} [LinearOrder κ]

/-- The table without rows. -/
def empty : Table κ ρ := ⟨[], List.Pairwise.nil⟩

/-- The row with primary key `k`. -/
def get? (t : Table κ ρ) (k : κ) : Option ρ := t.entries.lookup k

/-- The table has a row with primary key `k`. -/
def Has (t : Table κ ρ) (k : κ) : Prop := ∃ r, t.get? k = some r

theorem nodup_keys (t : Table κ ρ) : (t.entries.map Prod.fst).Nodup :=
  List.pairwise_map.mpr (t.sorted.imp ne_of_lt)

theorem get?_eq_some_iff {t : Table κ ρ} {k : κ} {r : ρ} :
    t.get? k = some r ↔ (k, r) ∈ t.entries := List.lookup_eq_some_iff_mem t.nodup_keys

theorem has_iff_mem {t : Table κ ρ} {k : κ} : t.Has k ↔ ∃ r, (k, r) ∈ t.entries :=
  exists_congr fun _ ↦ get?_eq_some_iff

@[simp] theorem not_has_empty (k : κ) : ¬ (empty : Table κ ρ).Has k := by
  rw [has_iff_mem]
  rintro ⟨r, h⟩
  exact List.not_mem_nil h

/-- Equal rows under every key: equal lookups. -/
theorem get?_congr {t t' : Table κ ρ} {k : κ}
    (h : ∀ r, (k, r) ∈ t.entries ↔ (k, r) ∈ t'.entries) : t.get? k = t'.get? k :=
  Option.ext fun r ↦ by rw [get?_eq_some_iff, get?_eq_some_iff, h]

/-! ## `DELETE` -/

/-- `DELETE … WHERE p`. -/
def deleteWhere (p : κ → Bool) (t : Table κ ρ) : Table κ ρ :=
  ⟨t.entries.filter fun e ↦ !p e.1, t.sorted.filter _⟩

theorem mem_deleteWhere {p : κ → Bool} {t : Table κ ρ} {e : κ × ρ} :
    e ∈ (t.deleteWhere p).entries ↔ e ∈ t.entries ∧ p e.1 = false := by
  simp [deleteWhere]

theorem get?_deleteWhere (p : κ → Bool) (t : Table κ ρ) (k : κ) :
    (t.deleteWhere p).get? k = if p k then none else t.get? k := by
  cases hp : p k with
  | true =>
    refine Option.eq_none_iff_forall_ne_some.mpr fun r hr ↦ ?_
    rw [get?_eq_some_iff, mem_deleteWhere, hp] at hr
    exact Bool.noConfusion hr.2
  | false =>
    refine get?_congr fun r ↦ ?_
    rw [mem_deleteWhere]
    exact and_iff_left hp

@[simp] theorem has_deleteWhere {p : κ → Bool} {t : Table κ ρ} {k : κ} :
    (t.deleteWhere p).Has k ↔ t.Has k ∧ p k = false := by
  simp only [has_iff_mem, mem_deleteWhere, exists_and_right]

/-! ## `INSERT … ON CONFLICT DO UPDATE` -/

/-- Insert the row `fresh` under `k`, or replace the row there by `merge` of it. -/
def upsertRow (k : κ) (fresh : ρ) (merge : ρ → ρ) : List (κ × ρ) → List (κ × ρ)
  | [] => [(k, fresh)]
  | e :: l =>
    if k < e.1 then (k, fresh) :: e :: l
    else if k = e.1 then (k, merge e.2) :: l
    else e :: upsertRow k fresh merge l

/-- The keys of an upserted list are the old ones and `k`. -/
theorem key_of_mem_upsertRow {k : κ} {fresh : ρ} {merge : ρ → ρ} {l : List (κ × ρ)}
    {e : κ × ρ} (h : e ∈ upsertRow k fresh merge l) : e.1 = k ∨ ∃ e' ∈ l, e'.1 = e.1 := by
  induction l with
  | nil =>
    rw [upsertRow, List.mem_singleton] at h
    exact .inl (congrArg Prod.fst h)
  | cons e' l ih =>
    rw [upsertRow] at h
    split_ifs at h with hlt heq
    · rcases List.mem_cons.mp h with rfl | h
      · exact .inl rfl
      · exact .inr ⟨e, h, rfl⟩
    · rcases List.mem_cons.mp h with rfl | h
      · exact .inl rfl
      · exact .inr ⟨e, List.mem_cons_of_mem _ h, rfl⟩
    · rcases List.mem_cons.mp h with rfl | h
      · exact .inr ⟨e, List.mem_cons_self, rfl⟩
      · exact (ih h).imp_right fun ⟨e'', h, he⟩ ↦ ⟨e'', List.mem_cons_of_mem _ h, he⟩

theorem sorted_upsertRow (k : κ) (fresh : ρ) (merge : ρ → ρ) {l : List (κ × ρ)}
    (h : l.Pairwise fun a b ↦ a.1 < b.1) :
    (upsertRow k fresh merge l).Pairwise fun a b ↦ a.1 < b.1 := by
  induction l with
  | nil => exact List.pairwise_singleton _ _
  | cons e l ih =>
    obtain ⟨hhd, htl⟩ := List.pairwise_cons.mp h
    rw [upsertRow]
    split_ifs with hlt heq
    · refine List.pairwise_cons.mpr ⟨fun e' he' ↦ ?_, h⟩
      rcases List.mem_cons.mp he' with rfl | he'
      · exact hlt
      · exact lt_trans hlt (hhd e' he')
    · exact List.pairwise_cons.mpr ⟨fun e' he' ↦ heq ▸ hhd e' he', htl⟩
    · refine List.pairwise_cons.mpr ⟨fun e' he' ↦ ?_, ih htl⟩
      rcases key_of_mem_upsertRow he' with hk | ⟨e'', he'', hk⟩
      · rw [hk]
        exact lt_of_le_of_ne (not_lt.mp hlt) (Ne.symm heq)
      · exact hk ▸ hhd e'' he''

theorem lookup_upsertRow (k k' : κ) (fresh : ρ) (merge : ρ → ρ) {l : List (κ × ρ)}
    (h : l.Pairwise fun a b ↦ a.1 < b.1) :
    (upsertRow k fresh merge l).lookup k' =
      if k' = k then some (((l.lookup k).map merge).getD fresh) else l.lookup k' := by
  induction l with
  | nil =>
    by_cases hk : k' = k
    · simp [upsertRow, hk]
    · have hne : (k' == k) = false := beq_eq_false_iff_ne.mpr hk
      simp [upsertRow, List.lookup_cons, hk, hne]
  | cons e l ih =>
    obtain ⟨hhd, htl⟩ := List.pairwise_cons.mp h
    obtain ⟨k₀, r⟩ := e
    rw [upsertRow]
    rcases lt_trichotomy k k₀ with hlt | rfl | hgt
    · have hnone : ((k₀, r) :: l).lookup k = none := List.lookup_eq_none_iff.mpr fun e he ↦ by
        rcases List.mem_cons.mp he with rfl | he
        · simpa using ne_of_lt hlt
        · simpa using ne_of_lt (lt_trans hlt (hhd e he))
      rw [if_pos hlt, hnone, List.lookup_cons]
      by_cases hk : k' = k
      · simp [hk]
      · have hne : (k' == k) = false := beq_eq_false_iff_ne.mpr hk
        simp [hk, hne]
    · rw [if_neg (lt_irrefl _), if_pos rfl]
      by_cases hk : k' = k
      · simp [hk]
      · have hne : (k' == k) = false := beq_eq_false_iff_ne.mpr hk
        simp [List.lookup_cons, hk, hne]
    · rw [if_neg hgt.asymm, if_neg (ne_of_gt hgt), List.lookup_cons, ih htl]
      have hne : (k == k₀) = false := beq_eq_false_iff_ne.mpr (ne_of_gt hgt)
      by_cases hk : k' = k
      · simp [hk, List.lookup_cons, hne]
      · simp [List.lookup_cons, hk]

/-- `INSERT INTO t (k, …) VALUES … ON CONFLICT(k) DO UPDATE SET …`. -/
def upsert (t : Table κ ρ) (k : κ) (fresh : ρ) (merge : ρ → ρ) : Table κ ρ :=
  ⟨upsertRow k fresh merge t.entries, sorted_upsertRow k fresh merge t.sorted⟩

theorem get?_upsert (t : Table κ ρ) (k k' : κ) (fresh : ρ) (merge : ρ → ρ) :
    (t.upsert k fresh merge).get? k' =
      if k' = k then some (((t.get? k).map merge).getD fresh) else t.get? k' :=
  lookup_upsertRow k k' fresh merge t.sorted

@[simp] theorem has_upsert {t : Table κ ρ} {k k' : κ} {fresh : ρ} {merge : ρ → ρ} :
    (t.upsert k fresh merge).Has k' ↔ k' = k ∨ t.Has k' := by
  rw [Has, get?_upsert]
  by_cases h : k' = k
  · simp [h]
  · simp [h, Has]

/-! ## `UPDATE` -/

/-- `UPDATE t SET … WHERE key = k`. -/
def update (t : Table κ ρ) (k : κ) (f : ρ → ρ) : Table κ ρ where
  entries := t.entries.map fun e ↦ if e.1 = k then (e.1, f e.2) else e
  sorted := by
    have hkey (e : κ × ρ) : (if e.1 = k then (e.1, f e.2) else e).1 = e.1 := by split_ifs <;> rfl
    refine List.pairwise_map.mpr (t.sorted.imp fun hlt ↦ ?_)
    rw [hkey, hkey]
    exact hlt

theorem get?_update (t : Table κ ρ) (k k' : κ) (f : ρ → ρ) :
    (t.update k f).get? k' = if k' = k then (t.get? k).map f else t.get? k' := by
  ext r
  rw [get?_eq_some_iff, update, List.mem_map]
  constructor
  · rintro ⟨e, he, heq⟩
    have hlookup := get?_eq_some_iff.mpr he
    split_ifs at heq with hek
    · obtain ⟨rfl, rfl⟩ := Prod.mk.inj heq
      rw [if_pos hek, ← hek, hlookup, Option.map_some]
    · subst heq
      rw [if_neg hek]
      exact hlookup
  · split_ifs with hk
    · intro h
      obtain ⟨r', hr', rfl⟩ := Option.map_eq_some_iff.mp h
      exact ⟨(k, r'), get?_eq_some_iff.mp hr', by rw [if_pos rfl, hk]⟩
    · intro h
      exact ⟨(k', r), get?_eq_some_iff.mp h, if_neg hk⟩

/-- `UPDATE t SET …`, on all rows. -/
def map (t : Table κ ρ) (f : ρ → ρ) : Table κ ρ where
  entries := t.entries.map fun e ↦ (e.1, f e.2)
  sorted := List.pairwise_map.mpr t.sorted

theorem get?_map (t : Table κ ρ) (k : κ) (f : ρ → ρ) : (t.map f).get? k = (t.get? k).map f := by
  ext r
  rw [get?_eq_some_iff, map, List.mem_map, Option.map_eq_some_iff]
  constructor
  · rintro ⟨e, he, heq⟩
    obtain ⟨rfl, rfl⟩ := Prod.mk.inj heq
    exact ⟨e.2, get?_eq_some_iff.mpr he, rfl⟩
  · rintro ⟨r', hr', rfl⟩
    exact ⟨(k, r'), get?_eq_some_iff.mp hr', rfl⟩

/-! ## `SELECT` -/

/-- `SELECT … WHERE p ORDER BY key`. -/
def select (p : κ → Bool) (t : Table κ ρ) : List (κ × ρ) := t.entries.filter fun e ↦ p e.1

theorem mem_select {p : κ → Bool} {t : Table κ ρ} {e : κ × ρ} :
    e ∈ t.select p ↔ t.get? e.1 = some e.2 ∧ p e.1 = true := by
  rw [select, List.mem_filter, get?_eq_some_iff]

theorem sorted_select (p : κ → Bool) (t : Table κ ρ) :
    (t.select p).Pairwise fun a b ↦ a.1 < b.1 := t.sorted.filter _

end Table
