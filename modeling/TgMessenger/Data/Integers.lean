import TgMessenger.Data.Text
import Mathlib.Algebra.GroupWithZero.Nat
import Mathlib.Tactic.SplitIfs

/-!
# Integers as text

`int(text)` and `str(n)`.  Reading takes more than printing gives: blanks around the number, a
plus sign, underscores between digits, leading zeros, and the decimal digits of any script.
Either is refused beyond a number of digits.
-/

namespace TgMessenger

/-- `sys.int_info.default_max_str_digits`. -/
def maxStrDigits : ℕ := 4300

/-- `str(n)`; `none` when it raises. -/
def printInt (n : ℤ) : Option String :=
  let digits := Nat.toDigits 10 n.natAbs
  if digits.length ≤ maxStrDigits then some (.ofList (if n < 0 then '-' :: digits else digits))
  else none

/-- The characters that `int` strips; of ASCII they are fewer than those of `str.strip`. -/
def isIntSpace (c : Char) : Bool :=
  let n := c.toNat
  if n < 127 then (0x09 ≤ n && n ≤ 0x0d) || n == 0x20 else isSpace c

/-- The value of a digit; `decimal` has those of the digits beyond ASCII. -/
def digitValue (decimal : Char → Option (Fin 10)) (c : Char) : Option ℕ :=
  if c.isDigit then some (c.toNat - 48)
  else if c.toNat < 127 then none
  else (decimal c).map Fin.val

/-- The number that digits stand for, with single underscores between them. -/
def parseDigits (decimal : Char → Option (Fin 10)) (digits : List Char) : Option ℕ :=
  let groups := digits.splitOn '_'
  if groups.all fun group ↦ group ≠ [] && group.all fun c ↦ (digitValue decimal c).isSome then
    let values := groups.flatten.filterMap (digitValue decimal)
    if values.length ≤ maxStrDigits then some (values.foldl (fun n d ↦ 10 * n + d) 0) else none
  else none

/-- `int(text)`; `none` when it raises. -/
def parseInt (decimal : Char → Option (Fin 10)) (text : List Char) : Option ℤ :=
  match (text.dropWhile isIntSpace).rdropWhile isIntSpace with
  | '-' :: digits => (parseDigits decimal digits).map fun n : ℕ ↦ -(n : ℤ)
  | '+' :: digits => (parseDigits decimal digits).map fun n : ℕ ↦ (n : ℤ)
  | digits => (parseDigits decimal digits).map fun n : ℕ ↦ (n : ℤ)

/-! ## What is printed -/

theorem digitValue_of_isDigit (decimal : Char → Option (Fin 10)) {c : Char}
    (hc : c.isDigit = true) :
    digitValue decimal c = some (c.toNat - 48) := if_pos hc

/-- Digits that are printed are read as the number. -/
theorem parseDigits_toDigits (decimal : Char → Option (Fin 10)) {n : ℕ}
    (hn : (Nat.toDigits 10 n).length ≤ maxStrDigits) :
    parseDigits decimal (Nat.toDigits 10 n) = some n := by
  have hdigit : ∀ c ∈ Nat.toDigits 10 n, c.isDigit = true := fun c hc ↦
    Nat.isDigit_of_mem_toDigits (by decide) (by decide) hc
  have hgroups : (Nat.toDigits 10 n).splitOn '_' = [Nat.toDigits 10 n] :=
    List.splitOn_eq_singleton Nat.underscore_not_in_toDigits
  have hvalues : (Nat.toDigits 10 n).filterMap (digitValue decimal) =
      (Nat.toDigits 10 n).map fun c ↦ c.toNat - 48 := by
    rw [← List.filterMap_eq_map]
    exact List.filterMap_congr fun c hc ↦ digitValue_of_isDigit decimal (hdigit c hc)
  have hall : (Nat.toDigits 10 n).all (fun c ↦ (digitValue decimal c).isSome) = true := by
    rw [List.all_eq_true]
    intro c hc
    rw [digitValue_of_isDigit decimal (hdigit c hc)]
    rfl
  rw [parseDigits, hgroups]
  dsimp only
  rw [if_pos (by simp [hall, Nat.toDigits_ne_nil]), List.flatten_singleton, hvalues,
    List.length_map, if_pos hn, List.foldl_map, Option.some.injEq]
  exact Nat.ofDigitChars_ten_toDigits

/-- What is read is below the power of ten with as many zeros as it has digits. -/
theorem foldl_digits_lt (values : List ℕ) (hvalues : ∀ d ∈ values, d < 10) (n : ℕ) :
    values.foldl (fun n d ↦ 10 * n + d) n < 10 ^ values.length * (n + 1) := by
  induction values generalizing n with
  | nil => simp
  | cons d values ih =>
    have hd := hvalues d List.mem_cons_self
    have hlt := ih (fun d hd ↦ hvalues d (List.mem_cons_of_mem _ hd)) (10 * n + d)
    rw [List.foldl_cons, List.length_cons, Nat.pow_succ, Nat.mul_assoc]
    refine hlt.trans_le (Nat.mul_le_mul_left _ ?_)
    omega

/-- A number that was read can be printed. -/
theorem length_toDigits_of_parseDigits {decimal : Char → Option (Fin 10)} {digits : List Char}
    {n : ℕ} (h : parseDigits decimal digits = some n) :
    (Nat.toDigits 10 n).length ≤ maxStrDigits := by
  rw [parseDigits] at h
  dsimp only at h
  split_ifs at h with hgroups hlength
  obtain rfl := Option.some.inj h
  rw [Nat.length_toDigits_le_iff (by decide) (by decide)]
  have hvalues : ∀ d ∈ (digits.splitOn '_').flatten.filterMap (digitValue decimal), d < 10 := by
    intro d hd
    obtain ⟨c, -, hc⟩ := List.mem_filterMap.mp hd
    rw [digitValue] at hc
    split_ifs at hc with hdigit
    · obtain rfl := Option.some.inj hc
      have hnine : '9'.toNat = 57 := rfl
      rw [Char.isDigit_iff_toNat] at hdigit
      omega
    · obtain ⟨value, -, rfl⟩ := Option.map_eq_some_iff.mp hc
      exact value.2
  have hlt := foldl_digits_lt _ hvalues 0
  rw [Nat.zero_add, Nat.mul_one] at hlt
  exact hlt.trans_le (Nat.pow_le_pow_right (by decide) hlength)

/-- There is nothing to strip from what is printed. -/
theorem strip_eq_self_of_notSpace {text : List Char} (h : ∀ c ∈ text, ¬ isIntSpace c = true) :
    (text.dropWhile isIntSpace).rdropWhile isIntSpace = text := by
  have hdrop : text.dropWhile isIntSpace = text := by
    cases text with
    | nil => rfl
    | cons c text => exact List.dropWhile_cons_of_neg (h c List.mem_cons_self)
  rw [hdrop, List.rdropWhile_eq_self_iff]
  exact fun hne ↦ h _ (List.getLast_mem hne)

theorem not_isIntSpace_of_isDigit {c : Char} (hc : c.isDigit = true) : ¬ isIntSpace c = true := by
  have hzero : '0'.toNat = 48 := rfl
  have hnine : '9'.toNat = 57 := rfl
  rw [Char.isDigit_iff_toNat] at hc
  rw [isIntSpace, if_pos (by omega)]
  simp only [Bool.or_eq_true, Bool.and_eq_true, decide_eq_true_eq, beq_iff_eq]
  omega

/-- What is printed is read as the number. -/
theorem parseInt_of_printInt (decimal : Char → Option (Fin 10)) {n : ℤ} {text : String}
    (h : printInt n = some text) : parseInt decimal text.toList = some n := by
  have hdigit : ∀ c ∈ Nat.toDigits 10 n.natAbs, c.isDigit = true := fun c hc ↦
    Nat.isDigit_of_mem_toDigits (by decide) (by decide) hc
  have hspace : ∀ c ∈ Nat.toDigits 10 n.natAbs, ¬ isIntSpace c = true := fun c hc ↦
    not_isIntSpace_of_isDigit (hdigit c hc)
  rw [printInt] at h
  split_ifs at h with hlength hneg
  · obtain rfl := Option.some.inj h
    have hstrip : ∀ c ∈ '-' :: Nat.toDigits 10 n.natAbs, ¬ isIntSpace c = true := by
      intro c hc
      rcases List.mem_cons.mp hc with rfl | hc
      · decide
      · exact hspace c hc
    rw [String.toList_ofList, parseInt, strip_eq_self_of_notSpace hstrip]
    show (parseDigits decimal (Nat.toDigits 10 n.natAbs)).map _ = some n
    rw [parseDigits_toDigits decimal hlength, Option.map_some, Option.some.injEq]
    omega
  · obtain rfl := Option.some.inj h
    rw [String.toList_ofList, parseInt, strip_eq_self_of_notSpace hspace]
    have hnat : ((n.natAbs : ℕ) : ℤ) = n := by omega
    split
    · next heq =>
      have hminus := hdigit '-' (heq ▸ List.mem_cons_self)
      cases hminus
    · next heq =>
      have hplus := hdigit '+' (heq ▸ List.mem_cons_self)
      cases hplus
    · rw [parseDigits_toDigits decimal hlength, Option.map_some, hnat]

/-- What was read can be printed. -/
theorem exists_printInt_of_parseInt {decimal : Char → Option (Fin 10)} {text : List Char} {n : ℤ}
    (h : parseInt decimal text = some n) : ∃ digits, printInt n = some digits := by
  have hlength : (Nat.toDigits 10 n.natAbs).length ≤ maxStrDigits := by
    rw [parseInt] at h
    split at h
    all_goals
      obtain ⟨m, hm, rfl⟩ := Option.map_eq_some_iff.mp h
      have hlength := length_toDigits_of_parseDigits hm
      simpa using hlength
  exact ⟨_, if_pos hlength⟩

/-! ## Numbers that are not printed alike -/

theorem toDigits_injective : Function.Injective (Nat.toDigits 10) := by
  intro m n h
  rw [← Nat.ofDigitChars_toDigits (b := 10) (n := m) (by decide) (by decide), h,
    Nat.ofDigitChars_toDigits (by decide) (by decide)]

theorem toList_repr (n : ℤ) :
    n.repr.toList =
      if n < 0 then '-' :: Nat.toDigits 10 n.natAbs else Nat.toDigits 10 n.natAbs := by
  cases n with
  | ofNat n =>
    rw [if_neg (Int.not_lt.mpr (Int.natCast_nonneg n) : ¬ Int.ofNat n < 0)]
    exact String.toList_ofList
  | negSucc n =>
    rw [if_pos (Int.negSucc_lt_zero n)]
    change ("-" ++ Nat.repr (n + 1)).toList = _
    rw [String.toList_append, Nat.repr, Int.natAbs_negSucc]
    exact congrArg ('-' :: ·) String.toList_ofList

theorem repr_injective : Function.Injective Int.repr := by
  have hdigit (k : ℕ) (l : List Char) : Nat.toDigits 10 k ≠ '-' :: l := by
    intro h
    have hminus : '-' ∈ Nat.toDigits 10 k := h ▸ List.mem_cons_self
    cases Nat.isDigit_of_mem_toDigits (by decide) (by decide) hminus
  intro m n h
  have hlist := congrArg String.toList h
  rw [toList_repr, toList_repr] at hlist
  split_ifs at hlist with hm hn hn
  · have := toDigits_injective (List.cons.inj hlist).2
    omega
  · exact absurd hlist.symm (hdigit _ _)
  · exact absurd hlist (hdigit _ _)
  · have := toDigits_injective hlist
    omega

end TgMessenger
