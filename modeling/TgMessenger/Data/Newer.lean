import Mathlib.Data.List.Nodup
import Mathlib.Data.List.Perm.Subperm

/-!
# What came later

A list of what was issued, newest first, and a table of what is left of it, oldest first.  What
is newer than an entry of the table stands behind it there, or has left the table.
-/

universe u

namespace List

variable {α : Type u} [DecidableEq α] {a b : α} {issues before after : List α}

/-- What was issued after `a`, newest first. -/
def newer (issues : List α) (a : α) : List α := issues.takeWhile (· ≠ a)

theorem newer_cons_self (issues : List α) (a : α) : (a :: issues).newer a = [] := by
  rw [newer, takeWhile_cons_of_neg (by simp)]

theorem newer_cons_of_ne (issues : List α) (h : b ≠ a) :
    (b :: issues).newer a = b :: issues.newer a := by
  rw [newer, newer, takeWhile_cons_of_pos (by simpa using h)]

/-- An element splits the list at its place. -/
theorem eq_newer_append (h : a ∈ issues) : ∃ older, issues = issues.newer a ++ a :: older := by
  induction issues with
  | nil => cases h
  | cons b issues ih =>
    by_cases hb : b = a
    · rw [hb, newer_cons_self]
      exact ⟨issues, rfl⟩
    · obtain ⟨older, holder⟩ := ih (mem_of_ne_of_mem (Ne.symm hb) h)
      rw [newer_cons_of_ne issues hb]
      exact ⟨older, congrArg (b :: ·) holder⟩

omit [DecidableEq α] in
/-- What stands on either side of an element stands on that side in a longer list. -/
theorem sublist_sides {left right : List α} (hnodup : (left ++ a :: right).Nodup)
    (h : before ++ a :: after <+ left ++ a :: right) : before <+ left ∧ after <+ right := by
  obtain ⟨hleft, hright, hdisjoint⟩ := nodup_append.mp hnodup
  obtain ⟨l₁, l₂, heq, h₁, h₂⟩ := sublist_append_iff.mp h
  have hnot₁ : a ∉ l₁ := fun ha ↦ hdisjoint a (h₁.subset ha) a mem_cons_self rfl
  rcases append_eq_append_iff.mp heq with ⟨rest, rfl, hrest⟩ | ⟨rest, hbefore, rfl⟩
  · cases rest with
    | nil =>
      rw [nil_append] at hrest
      rw [append_nil] at h₁
      rw [← hrest] at h₂
      exact ⟨h₁, cons_sublist_cons.mp h₂⟩
    | cons b rest =>
      obtain ⟨rfl, -⟩ := cons.inj hrest
      exact absurd (mem_append_right before mem_cons_self) hnot₁
  · cases rest with
    | nil =>
      rw [append_nil] at hbefore
      rw [nil_append] at h₂
      rw [hbefore]
      exact ⟨h₁, cons_sublist_cons.mp h₂⟩
    | cons b rest =>
      -- The element would stand in the right part twice.
      have hmem : a ∈ right := h₂.tail.subset (mem_append_right rest mem_cons_self)
      exact absurd hmem (nodup_cons.mp hright).1

/-- What is newer than an entry of a table stands behind it, or has left. -/
theorem length_newer (hnodup : issues.Nodup) (htable : before ++ a :: after <+ issues.reverse) :
    (issues.newer a).length =
      after.length + (issues.newer a).countP fun b ↦ b ∉ before ++ a :: after := by
  have ha : a ∈ issues :=
    mem_reverse.mp (htable.subset (mem_append_right before mem_cons_self))
  obtain ⟨older, holder⟩ := eq_newer_append ha
  have hreverse : issues.reverse = older.reverse ++ a :: (issues.newer a).reverse := by
    rw [congrArg reverse holder, reverse_append, reverse_cons, append_assoc]
    rfl
  have hnodup' : (older.reverse ++ a :: (issues.newer a).reverse).Nodup := by
    rw [← hreverse]
    exact nodup_reverse.mpr hnodup
  rw [hreverse] at htable
  obtain ⟨hbefore, hafter⟩ := sublist_sides hnodup' htable
  obtain ⟨-, hnewer, hdisjoint⟩ := nodup_append.mp hnodup'
  obtain ⟨hself, hnewer⟩ := nodup_cons.mp hnewer
  -- Of the newer ones exactly those behind the entry are in the table.
  have hkept : ((issues.newer a).filter fun b ↦ b ∈ before ++ a :: after).Perm after := by
    refine (perm_ext_iff_of_nodup ((nodup_reverse.mp hnewer).filter _)
      (hafter.nodup hnewer)).mpr fun b ↦ ?_
    rw [mem_filter, decide_eq_true_eq, mem_append, mem_cons]
    constructor
    · rintro ⟨hb, hbefore' | rfl | hb'⟩
      · exact absurd rfl (hdisjoint b (hbefore.subset hbefore') b
          (mem_cons_of_mem a (mem_reverse.mpr hb)))
      · exact absurd (mem_reverse.mpr hb) hself
      · exact hb'
    · exact fun hb ↦ ⟨mem_reverse.mp (hafter.subset hb), .inr (.inr hb)⟩
  rw [← hkept.length_eq, ← countP_eq_length_filter, length_eq_countP_add_countP
    (fun b ↦ decide (b ∈ before ++ a :: after))]
  congr 1
  refine countP_congr fun b _ ↦ ?_
  simp only [decide_eq_true_eq]

end List
