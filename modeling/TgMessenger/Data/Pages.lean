import Mathlib.Data.List.DropRight
import Mathlib.Data.List.Sort
import Mathlib.Order.Defs.LinearOrder
import Mathlib.Tactic.Common

/-!
# Pages of lists

A page of a list is its end: `List.rtake n`, the last `n` elements.  Of an ascending list it is
what lies above a bound.
-/

universe u v w

namespace List

variable {α : Type u} {β : Type v} {κ : Type w} [LinearOrder κ]

theorem rtake_suffix (n : ℕ) (l : List α) : l.rtake n <:+ l := drop_suffix _ l

theorem length_rtake (n : ℕ) (l : List α) : (l.rtake n).length = min n l.length := by
  rw [rtake, length_drop]
  omega

theorem rtake_of_length_le {n : ℕ} {l : List α} (h : l.length ≤ n) : l.rtake n = l := by
  rw [rtake, Nat.sub_eq_zero_of_le h, drop_zero]

theorem rtake_append_of_le {n : ℕ} (l₁ : List α) {l₂ : List α} (h : n ≤ l₂.length) :
    (l₁ ++ l₂).rtake n = l₂.rtake n := by
  have hlen : (l₁ ++ l₂).length - n = l₁.length + (l₂.length - n) := by
    rw [length_append]
    omega
  rw [rtake, rtake, hlen, drop_length_add_append]

theorem map_rtake (f : α → β) (n : ℕ) (l : List α) : (l.rtake n).map f = (l.map f).rtake n := by
  rw [rtake, rtake, length_map, map_drop]

/-- A page that is not empty ends as the list does. -/
theorem getLast?_rtake {n : ℕ} {l : List α} (h : l.rtake n ≠ []) :
    (l.rtake n).getLast? = l.getLast? := by
  obtain ⟨before, hbefore⟩ := rtake_suffix n l
  conv_rhs => rw [← hbefore, getLast?_append_of_ne_nil before h]

/-- A short page is the whole list. -/
theorem eq_of_length_rtake_lt {n : ℕ} {l : List α} (h : (l.rtake n).length < n) :
    l.rtake n = l := by
  rw [length_rtake] at h
  exact rtake_of_length_le (by omega)

/-- The least element of a list bounds it from below. -/
theorem min?_getD_le {l : List ℤ} {a d : ℤ} (h : a ∈ l) : l.min?.getD d ≤ a := by
  cases hm : l.min? with
  | none => exact absurd (min?_eq_none_iff.mp hm) (ne_nil_of_mem h)
  | some b => exact (min?_eq_some_iff.mp hm).2 a h

theorem min?_getD_mem {l : List ℤ} {d : ℤ} (h : l ≠ []) : l.min?.getD d ∈ l := by
  cases hm : l.min? with
  | none => exact absurd (min?_eq_none_iff.mp hm) h
  | some b => exact (min?_eq_some_iff.mp hm).1

/-- The greatest element of a list bounds it from above. -/
theorem le_max?_getD {l : List ℤ} {a d : ℤ} (h : a ∈ l) : a ≤ l.max?.getD d := by
  cases hm : l.max? with
  | none => exact absurd (max?_eq_none_iff.mp hm) (ne_nil_of_mem h)
  | some b => exact (max?_eq_some_iff.mp hm).2 a h

theorem max?_getD_mem {l : List ℤ} {d : ℤ} (h : l ≠ []) : l.max?.getD d ∈ l := by
  cases hm : l.max? with
  | none => exact absurd (max?_eq_none_iff.mp hm) h
  | some b => exact (max?_eq_some_iff.mp hm).1

variable {f : α → κ}

/-- A page of an ascending list contains everything above any of its elements. -/
theorem mem_rtake_of_le {n : ℕ} {l : List α} (hl : l.Pairwise fun a b ↦ f a < f b) {x y : α}
    (hx : x ∈ l.rtake n) (hy : y ∈ l) (hxy : f x ≤ f y) : y ∈ l.rtake n := by
  obtain ⟨l₁, h⟩ := rtake_suffix n l
  rw [← h] at hy hl
  rcases mem_append.mp hy with hy | hy
  · exact absurd ((pairwise_append.mp hl).2.2 y hy x hx) (not_lt.mpr hxy)
  · exact hy

/-- In an ascending list, what lies above a bound is a suffix. -/
theorem filter_above_suffix {l : List α} (hl : l.Pairwise fun a b ↦ f a < f b) (b : κ) :
    l.filter (fun a ↦ decide (b < f a)) <:+ l := by
  induction l with
  | nil => exact suffix_rfl
  | cons a l ih =>
    obtain ⟨hhd, htl⟩ := pairwise_cons.mp hl
    rw [filter_cons]
    split_ifs with ha
    · have hall : l.filter (fun a ↦ decide (b < f a)) = l := filter_eq_self.mpr fun x hx ↦
        decide_eq_true (lt_trans (of_decide_eq_true ha) (hhd x hx))
      rewrite [hall]
      exact suffix_rfl
    · exact (ih htl).trans (suffix_cons a l)

/-- The newest `n` of the elements above a bound are the newest `n` of all, when there
are `n` of them. -/
theorem rtake_filter_above {n : ℕ} {l : List α} (hl : l.Pairwise fun a b ↦ f a < f b) (b : κ)
    (hn : n ≤ (l.filter fun a ↦ decide (b < f a)).length) :
    (l.filter fun a ↦ decide (b < f a)).rtake n = l.rtake n := by
  obtain ⟨l₁, h⟩ := filter_above_suffix hl b
  conv_rhs => rw [← h]
  exact (rtake_append_of_le l₁ hn).symm

/-- Ascending lists with the same elements are equal. -/
theorem eq_of_ascending {l l' : List α} (hl : l.Pairwise fun a b ↦ f a < f b)
    (hl' : l'.Pairwise fun a b ↦ f a < f b) (h : ∀ a, a ∈ l ↔ a ∈ l') : l = l' :=
  haveI : Std.Antisymm fun a b ↦ f a < f b := ⟨fun _ _ hab hba ↦ absurd hab hba.asymm⟩
  haveI : Std.Irrefl fun a b ↦ f a < f b := ⟨fun _ ↦ lt_irrefl _⟩
  Pairwise.eq_of_mem_iff hl hl' h

/-- A page that is short, or reaches down to the least element, is the newest page of an
ascending list only when it is the whole list. -/
theorem rtake_eq_iff {n : ℕ} {l p : List α} (hl : l.Pairwise fun a b ↦ f a < f b)
    (hp : p.Pairwise fun a b ↦ f a < f b) (hsub : p ⊆ l) (hlen : p.length ≤ n)
    (hfloor : p.length < n ∨ ∃ x ∈ p, ∀ a ∈ l, f x ≤ f a) :
    l.rtake n = p ↔ ∀ a ∈ l, a ∈ p := by
  constructor
  · rintro h a ha
    rcases hfloor with hshort | ⟨x, hx, hle⟩
    · rw [← h] at hshort ⊢
      rw [eq_of_length_rtake_lt hshort]
      exact ha
    · rw [← h] at hx ⊢
      exact mem_rtake_of_le hl hx ha (hle a ha)
  · intro h
    have hlp : l = p := eq_of_ascending hl hp fun a ↦ ⟨h a, fun ha ↦ hsub ha⟩
    rw [hlp, rtake_of_length_le hlen]

/-- What an ascending list has below one of its elements. -/
theorem filter_lt_of_ascending {before after : List κ} {x : κ}
    (h : (before ++ x :: after).Pairwise (· < ·)) :
    (before ++ x :: after).filter (fun a ↦ decide (a < x)) = before := by
  obtain ⟨-, hafter, hbefore⟩ := pairwise_append.mp h
  rw [filter_append, filter_eq_self.mpr, filter_eq_nil_iff.mpr, append_nil]
  · intro a ha hlt
    rcases mem_cons.mp ha with rfl | ha
    · exact lt_irrefl _ (of_decide_eq_true hlt)
    · exact lt_asymm ((pairwise_cons.mp hafter).1 a ha) (of_decide_eq_true hlt)
  · intro a ha
    exact decide_eq_true (hbefore a ha x mem_cons_self)

/-- A page of what comes before an infix of an ascending list can be put before it. -/
theorem isInfix_rtake_append {l part : List κ} {x : κ} (n : ℕ)
    (hl : l.Pairwise (· < ·)) (hpart : part <:+: l) (hx : part.head? = some x) :
    (l.filter fun a ↦ decide (a < x)).rtake n ++ part <:+: l := by
  obtain ⟨before, after, rfl⟩ := hpart
  obtain ⟨rest, rfl⟩ := head?_eq_some_iff.mp hx
  rw [append_assoc, cons_append] at hl ⊢
  rw [filter_lt_of_ascending hl]
  obtain ⟨dropped, hdropped⟩ := rtake_suffix n before
  refine ⟨dropped, after, ?_⟩
  rw [← append_assoc, hdropped, append_assoc, cons_append]

/-- A page of what an ascending list has below one of its elements is an infix. -/
theorem isInfix_rtake {l : List κ} {x : κ} (n : ℕ) (hl : l.Pairwise (· < ·))
    (hx : x ∈ l) : (l.filter fun a ↦ decide (a < x)).rtake n <:+: l := by
  obtain ⟨before, after, rfl⟩ := append_of_mem hx
  have hpart : [x] <:+: before ++ x :: after := ⟨before, after, by simp⟩
  exact (prefix_append _ [x]).isInfix.trans (isInfix_rtake_append n hl hpart rfl)

/-- An infix that has the first element of a list without repetitions begins with it. -/
theorem head?_of_isInfix {α : Type u} {l part : List α} {x : α} (hl : l.Nodup)
    (hpart : part <:+: l) (hx : l.head? = some x) (hmem : x ∈ part) : part.head? = some x := by
  obtain ⟨before, after, rfl⟩ := hpart
  cases before with
  | nil =>
    rw [nil_append, head?_append_of_ne_nil part (ne_nil_of_mem hmem)] at hx
    exact hx
  | cons y before =>
    obtain rfl := Option.some.inj hx
    rw [cons_append, cons_append, nodup_cons] at hl
    exact absurd (mem_append_left _ (mem_append_right _ hmem)) hl.1

end List
