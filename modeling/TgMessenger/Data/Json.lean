import Mathlib.Data.Rat.Defs

/-!
# JSON values

What a JSON text is read as, and the operations that work on such a value whatever it is: a
lookup, an index and a truth value.  `none` stands for a raised exception.
-/

/-- A value read from a JSON text.  An object has one field a key. -/
inductive Json where
  | null
  | bool (b : Bool)
  | num (q : ℚ)
  | /-- `NaN`, `Infinity` and `-Infinity`. -/
    special (name : String)
  | str (s : String)
  | arr (items : List Json)
  | obj (fields : List (String × Json))

namespace Json

/-- `bool(value)`. -/
def truthy : Json → Bool
  | null => false
  | bool b => b
  | num q => q ≠ 0
  | special _ => true
  | str s => s ≠ ""
  | arr items => !items.isEmpty
  | obj fields => !fields.isEmpty

/-- `value[key]`. -/
def field? (key : String) : Json → Option Json
  | obj fields => fields.lookup key
  | _ => none

/-- `value[0]`. -/
def first? : Json → Option Json
  | arr items => items.head?
  | str s => s.toList.head?.map fun c ↦ str c.toString
  | _ => none

/-- `value == text`. -/
def isStr (text : String) : Json → Bool
  | str s => s = text
  | _ => false

/-- The items of a list; nothing is in another value. -/
def items : Json → List Json
  | arr items => items
  | _ => []

@[simp] theorem items_arr (l : List Json) : (arr l).items = l := rfl

@[simp] theorem first?_arr (l : List Json) : (arr l).first? = l.head? := rfl

/-- A value with items is true. -/
theorem truthy_of_items {j : Json} (h : j.items ≠ []) : j.truthy = true := by
  cases j with
  | arr l =>
    cases l with
    | nil => exact absurd rfl h
    | cons item l => rfl
  | null | bool | num | special | str | obj => exact absurd rfl h

end Json
