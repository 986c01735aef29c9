import TgMessenger.Cli.Output
import Mathlib.Data.List.TakeWhile

/-!
# What the pane reads of the commands' lines

The regular expressions `HISTORY_LINE` and `STREAM_LINE`, group by group.
-/

namespace TgMessenger.Pane

/-- A message the pane shows, as far as the commands give it. -/
structure TgMessage where
  id : ℤ
  out : Bool
  text : List Char
deriving DecidableEq

/-- The characters `.` does not match. -/
def isLineEnd (c : Char) : Bool := c == '\n' || c == '\r' || c == '\u2028' || c == '\u2029'

/-- `([←→])`, and whether the message is an own one. -/
def arrowGroup : Char → Option Bool
  | '→' => some true
  | '←' => some false
  | _ => none

/-- `\[(\d+)\] `: the digits, and what comes after. -/
def idGroup : List Char → Option (List Char × List Char)
  | '[' :: line =>
    match line.takeWhile Char.isDigit, line.dropWhile Char.isDigit with
    | c :: digits, ']' :: ' ' :: line => some (c :: digits, line)
    | _, _ => none
  | _ => none

/-- `(.*)$`. -/
def textGroup (line : List Char) : Option (List Char) :=
  if line.any isLineEnd then none else some line

/-- `Number(digits)`. -/
def number (digits : List Char) : ℕ := Nat.ofDigitChars 10 digits 0

/-! ## The groups -/

theorem arrowGroup_arrow (out : Bool) : arrowGroup (Cli.arrow out) = some out := by
  cases out <;> rfl

theorem arrowGroup_eq_some_iff {c : Char} {out : Bool} :
    arrowGroup c = some out ↔ c = Cli.arrow out := by
  constructor
  · intro h
    unfold arrowGroup at h
    split at h
    · cases h
      rfl
    · cases h
      rfl
    · cases h
  · rintro rfl
    exact arrowGroup_arrow out

/-- `\d+`. -/
def IsDigits (digits : List Char) : Prop := digits ≠ [] ∧ ∀ c ∈ digits, c.isDigit

theorem isDigits_toDigits (n : ℕ) : IsDigits (Nat.toDigits 10 n) :=
  ⟨Nat.toDigits_ne_nil, fun _ hc ↦ Nat.isDigit_of_mem_toDigits (by decide) (by decide) hc⟩

theorem idGroup_eq_some_iff {line digits rest : List Char} :
    idGroup line = some (digits, rest) ↔
      line = '[' :: digits ++ ']' :: ' ' :: rest ∧ IsDigits digits := by
  constructor
  · intro h
    unfold idGroup at h
    split at h
    · next line =>
      split at h
      · next c digits' rest' htake hdrop =>
        cases h
        refine ⟨?_, List.cons_ne_nil _ _, ?_⟩
        · rw [List.cons_append, ← htake, ← hdrop, List.takeWhile_append_dropWhile]
        · intro c hc
          rw [← htake] at hc
          exact List.mem_takeWhile_imp hc
      · cases h
    · cases h
  · rintro ⟨rfl, hne, hdigits⟩
    have hstop : ¬ Char.isDigit ']' = true := by decide
    rw [List.cons_append, idGroup, List.takeWhile_append_of_pos hdigits,
      List.dropWhile_append_of_pos hdigits, List.takeWhile_cons_of_neg hstop,
      List.dropWhile_cons_of_neg hstop, List.append_nil]
    cases digits with
    | nil => exact absurd rfl hne
    | cons c digits => rfl

theorem textGroup_eq_some_iff {line text : List Char} :
    textGroup line = some text ↔ line = text ∧ ∀ c ∈ text, isLineEnd c = false := by
  unfold textGroup
  split
  · next h =>
    constructor
    · intro h
      cases h
    · rintro ⟨rfl, hfree⟩
      obtain ⟨c, hc, hend⟩ := List.any_eq_true.mp h
      rw [hfree c hc] at hend
      cases hend
  · next h =>
    constructor
    · intro heq
      cases heq
      refine ⟨rfl, fun c hc ↦ Bool.eq_false_iff.mpr ?_⟩
      exact fun hend ↦ h (List.any_eq_true.mpr ⟨c, hc, hend⟩)
    · rintro ⟨rfl, _⟩
      rfl

/-- What is printed is read back. -/
theorem number_toDigits (n : ℕ) : number (Nat.toDigits 10 n) = n :=
  Nat.ofDigitChars_ten_toDigits

theorem toList_toString {n : ℤ} (h : 0 ≤ n) :
    (toString n).toList = Nat.toDigits 10 n.toNat := by
  rw [Int.toString_eq_repr, Int.repr_eq_if, if_pos h, Nat.toList_repr]

/-- A number below zero has a sign. -/
theorem isDigits_toString_iff {n : ℤ} : IsDigits (toString n).toList ↔ 0 ≤ n := by
  constructor
  · intro h
    by_contra hneg
    rw [Int.toString_eq_repr, Int.repr_eq_if, if_neg hneg, String.toList_append] at h
    have hsign := h.2 '-' (List.mem_append_left _ (List.mem_singleton_self _))
    revert hsign
    decide
  · intro h
    rw [toList_toString h]
    exact isDigits_toDigits _

theorem toDigits_eq_toString_iff {n : ℕ} {d : ℤ} :
    Nat.toDigits 10 n = (toString d).toList ↔ n = d := by
  constructor
  · intro h
    have hd : 0 ≤ d := isDigits_toString_iff.mp (h ▸ isDigits_toDigits n)
    rw [toList_toString hd] at h
    have hn := congrArg number h
    rw [number_toDigits, number_toDigits] at hn
    rw [hn, Int.toNat_of_nonneg hd]
  · rintro rfl
    rw [toList_toString (Int.natCast_nonneg n), Int.toNat_natCast]

end TgMessenger.Pane
