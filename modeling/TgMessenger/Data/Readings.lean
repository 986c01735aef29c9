import Mathlib.Data.List.Count
import Mathlib.Tactic.Common

/-!
# Two readings of a list

A reading of a list is a partial map that is run over it with `List.filterMap`.  Here are two of
them, `f` and `g`, whose results tell what kind of element they come from: when the results of `f`
are those of `g`, the readings agree on every element.
-/

universe u v w

namespace List

variable {α : Type u} {β : Type v} {κ : Type w} [DecidableEq κ] {f g : α → Option β}
  (key : α → κ) (key' : β → κ)

/-- The results of a kind come from what is of that kind. -/
theorem countP_filterMap_key {l : List α} (hf : ∀ a ∈ l, ∀ b, f a = some b → key' b = key a)
    (k : κ) : (l.filterMap f).countP (fun b ↦ key' b = k) =
      l.countP fun a ↦ (f a).isSome ∧ key a = k := by
  rw [List.countP_filterMap]
  apply List.countP_congr
  intro a ha
  cases hfa : f a with
  | none => simp
  | some b => simp [hf a ha b hfa]

/-- Of a kind that is to be read, not more is read than is to be. -/
theorem countP_filterMap_le {l : List α} (hf : ∀ a ∈ l, ∀ b, f a = some b → key' b = key a)
    (hg : ∀ a ∈ l, ∀ b, g a = some b → key' b = key a) {k : κ}
    (hk : ∀ a ∈ l, key a = k → g a = none → f a = none) :
    (l.filterMap f).countP (fun b ↦ key' b = k) ≤ (l.filterMap g).countP fun b ↦ key' b = k := by
  rw [countP_filterMap_key key key' hf, countP_filterMap_key key key' hg]
  apply List.countP_mono_left
  intro a hmem ha
  simp only [decide_eq_true_eq] at ha ⊢
  refine ⟨?_, ha.2⟩
  rw [Option.isSome_iff_ne_none]
  intro hnone
  rw [hk a hmem ha.2 hnone] at ha
  cases ha.1

/-- When as much is read as is to be, each is read as it is to be. -/
theorem eq_of_filterMap_eq {l : List α} (hf : ∀ a ∈ l, ∀ b, f a = some b → key' b = key a)
    (hg : ∀ a ∈ l, ∀ b, g a = some b → key' b = key a)
    (hk : ∀ a ∈ l, ∀ a' ∈ l, key a = key a' → g a ≠ none → g a' = none → f a' = none)
    (h : l.filterMap f = l.filterMap g) : ∀ a ∈ l, f a = g a := by
  induction l with
  | nil => exact fun a ha ↦ absurd ha List.not_mem_nil
  | cons a l ih =>
    have hf' : ∀ a ∈ l, ∀ b, f a = some b → key' b = key a :=
      fun a ha ↦ hf a (List.mem_cons_of_mem _ ha)
    have hg' : ∀ a ∈ l, ∀ b, g a = some b → key' b = key a :=
      fun a ha ↦ hg a (List.mem_cons_of_mem _ ha)
    have hhead : f a = g a := by
      cases hga : g a with
      | none =>
        cases hfa : f a with
        | none => rfl
        | some b =>
          -- What is read without being to be read is to be read elsewhere.
          rw [List.filterMap_cons_some hfa, List.filterMap_cons_none hga] at h
          have hb : b ∈ l.filterMap g := h ▸ List.mem_cons_self
          obtain ⟨a', hmem, ha'⟩ := List.mem_filterMap.mp hb
          have hkey : key a' = key a :=
            (hg' a' hmem b ha').symm.trans (hf a List.mem_cons_self b hfa)
          rw [hk a' (List.mem_cons_of_mem _ hmem) a List.mem_cons_self hkey
            (ha' ▸ Option.some_ne_none b) hga] at hfa
          cases hfa
      | some b =>
        cases hfa : f a with
        | none =>
          -- What is to be read and is not is one less of its kind.
          rw [List.filterMap_cons_none hfa, List.filterMap_cons_some hga] at h
          have hle := countP_filterMap_le key key' hf' hg' (k := key a) fun a' ha' hkey ↦
            hk a List.mem_cons_self a' (List.mem_cons_of_mem _ ha') hkey.symm
              (hga ▸ Option.some_ne_none b)
          rw [h, List.countP_cons_of_pos (by simp [hg a List.mem_cons_self b hga])] at hle
          omega
        | some b' =>
          rw [List.filterMap_cons_some hfa, List.filterMap_cons_some hga] at h
          rw [(List.cons.inj h).1]
    have htail : l.filterMap f = l.filterMap g := by
      rw [List.filterMap_cons, List.filterMap_cons, hhead] at h
      cases hga : g a with
      | none =>
        rw [hga] at h
        exact h
      | some b =>
        rw [hga] at h
        exact (List.cons.inj h).2
    intro a' ha'
    rcases List.mem_cons.mp ha' with rfl | ha'
    · exact hhead
    · exact ih hf' hg' (fun a ha a' ha' ↦ hk a (List.mem_cons_of_mem _ ha) a'
        (List.mem_cons_of_mem _ ha')) htail a' ha'

end List
