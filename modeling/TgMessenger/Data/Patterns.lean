import Mathlib.Data.List.Basic
import Mathlib.Data.List.Forall2
import Mathlib.Order.Basic

/-!
# Patterns

Regular expressions that are a sequence of repeated character classes, such as
`[a-z][a-z0-9_]{3,30}`.  A pattern matches at the start of a text in several ways; a matcher that
backtracks goes through all of them.
-/

namespace Patterns

variable {α : Type*}

/-- A class of characters, and how often it may be repeated. -/
structure Item (α : Type*) where
  chars : α → Bool
  least : ℕ
  most : ℕ

/-- One character of a class. -/
def Item.one (chars : α → Bool) : Item α := ⟨chars, 1, 1⟩

/-- What an item matches. -/
structure Item.Fits (i : Item α) (part : List α) : Prop where
  chars : ∀ c ∈ part, i.chars c = true
  least : i.least ≤ part.length
  most : part.length ≤ i.most

/-- What is left of a text behind each match of an item. -/
def Item.rests (i : Item α) (l : List α) : List (List α) :=
  ((List.range (l.length + 1)).filter fun n ↦
    decide (i.least ≤ n) && decide (n ≤ i.most) && (l.take n).all i.chars).map l.drop

/-- What is left of a text behind each match of a pattern. -/
def rests : List (Item α) → List α → List (List α)
  | [], l => [l]
  | i :: pattern, l => (i.rests l).flatMap (rests pattern)

theorem Item.mem_rests {i : Item α} {l rest : List α} :
    rest ∈ i.rests l ↔ ∃ part, i.Fits part ∧ l = part ++ rest := by
  rw [Item.rests, List.mem_map]
  constructor
  · rintro ⟨n, hn, rfl⟩
    simp only [List.mem_filter, List.mem_range, Bool.and_eq_true, decide_eq_true_eq,
      List.all_eq_true] at hn
    obtain ⟨hlength, ⟨hleast, hmost⟩, hchars⟩ := hn
    have htake : (l.take n).length = n := List.length_take_of_le (Nat.le_of_lt_succ hlength)
    exact ⟨l.take n, ⟨hchars, hleast.trans_eq htake.symm, htake.trans_le hmost⟩,
      (List.take_append_drop n l).symm⟩
  · rintro ⟨part, hfits, rfl⟩
    refine ⟨part.length, ?_, List.drop_left⟩
    simp only [List.mem_filter, List.mem_range, Bool.and_eq_true, decide_eq_true_eq,
      List.all_eq_true, List.take_left, List.length_append]
    exact ⟨by omega, ⟨hfits.least, hfits.most⟩, hfits.chars⟩

theorem mem_rests {pattern : List (Item α)} {l rest : List α} :
    rest ∈ rests pattern l ↔
      ∃ parts, List.Forall₂ Item.Fits pattern parts ∧ l = parts.flatten ++ rest := by
  induction pattern generalizing l with
  | nil =>
    rw [rests, List.mem_singleton]
    constructor
    · rintro rfl
      exact ⟨[], .nil, rfl⟩
    · rintro ⟨parts, hparts, rfl⟩
      cases hparts
      rfl
  | cons i pattern ih =>
    rw [rests, List.mem_flatMap]
    constructor
    · rintro ⟨mid, hmid, hrest⟩
      obtain ⟨part, hfits, rfl⟩ := Item.mem_rests.mp hmid
      obtain ⟨parts, hparts, rfl⟩ := ih.mp hrest
      exact ⟨part :: parts, .cons hfits hparts, (List.append_assoc ..).symm⟩
    · rintro ⟨parts, hparts, rfl⟩
      cases hparts with
      | cons hfits hparts =>
        exact ⟨_, Item.mem_rests.mpr ⟨_, hfits, List.append_assoc ..⟩,
          ih.mpr ⟨_, hparts, rfl⟩⟩

end Patterns
