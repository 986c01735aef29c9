import TgMessenger.Data.Text

/-!
# Profile names

`core/names.py`: names of profiles that can stand in the name of a file.
-/

namespace TgMessenger

/-- What `_SAFE` does not match. -/
def isSafeChar (c : Char) : Bool := c.isAlphanum || c == '_' || c == '.' || c == '-'

/-- `_SAFE.sub("_", name)`: an underscore for every run of other characters; `inRun` tells
that the last one was of such a run. -/
def subUnsafe (inRun : Bool) : List Char → List Char
  | [] => []
  | c :: rest =>
    if isSafeChar c then c :: subUnsafe false rest
    else if inRun then subUnsafe true rest
    else '_' :: subUnsafe true rest

/-- `name.strip("._")`. -/
def stripDots (name : List Char) : List Char :=
  let isDot c := c == '.' || c == '_'
  (name.dropWhile isDot).rdropWhile isDot

/-- `sanitize_profile_name`. -/
def sanitizeProfileName (name : String) : String :=
  let stripped := stripDots (subUnsafe false name.toList)
  if stripped = [] then "default" else .ofList stripped

/-- `is_safe_profile_name`. -/
def isSafeProfileName (name : String) : Bool :=
  name ≠ "" && sanitizeProfileName name == name

theorem isSafeChar_of_mem_subUnsafe {inRun : Bool} {name : List Char} {c : Char}
    (h : c ∈ subUnsafe inRun name) : isSafeChar c = true := by
  induction name generalizing inRun with
  | nil => cases h
  | cons c' rest ih =>
    rw [subUnsafe] at h
    split_ifs at h with hsafe
    · rcases List.mem_cons.mp h with rfl | h
      · exact hsafe
      · exact ih h
    · exact ih h
    · rcases List.mem_cons.mp h with rfl | h
      · rfl
      · exact ih h

/-- Safe characters are left alone. -/
theorem subUnsafe_eq_self {name : List Char} (h : ∀ c ∈ name, isSafeChar c = true)
    (inRun : Bool) : subUnsafe inRun name = name := by
  induction name generalizing inRun with
  | nil => rfl
  | cons c rest ih =>
    rw [subUnsafe, if_pos (h c List.mem_cons_self), ih]
    exact fun c hc ↦ h c (List.mem_cons_of_mem _ hc)

theorem stripDots_idempotent (name : List Char) : stripDots (stripDots name) = stripDots name :=
  rdropWhile_dropWhile_idempotent _ name

theorem mem_of_mem_stripDots {name : List Char} {c : Char} (h : c ∈ stripDots name) : c ∈ name :=
  List.dropWhile_subset _ ((List.rdropWhile_prefix _ _).subset h)

/-- Every character of a sanitised name can stand in the name of a file; a slash cannot. -/
theorem isSafeChar_of_mem_sanitizeProfileName {name : String} {c : Char}
    (h : c ∈ (sanitizeProfileName name).toList) : isSafeChar c = true := by
  rw [sanitizeProfileName] at h
  split_ifs at h
  · have hall : "default".toList.all isSafeChar = true := by decide
    exact List.all_eq_true.mp hall c h
  · rw [String.toList_ofList] at h
    exact isSafeChar_of_mem_subUnsafe (mem_of_mem_stripDots h)

/-- A sanitised name is its own canonical form. -/
theorem sanitizeProfileName_idempotent (name : String) :
    sanitizeProfileName (sanitizeProfileName name) = sanitizeProfileName name := by
  have hsafe := fun c ↦ @isSafeChar_of_mem_sanitizeProfileName name c
  by_cases hstripped : stripDots (subUnsafe false name.toList) = []
  · have hdefault : sanitizeProfileName name = "default" := if_pos hstripped
    rw [hdefault]
    decide
  · have hname : (sanitizeProfileName name).toList = stripDots (subUnsafe false name.toList) := by
      rw [sanitizeProfileName, if_neg hstripped, String.toList_ofList]
    rw [sanitizeProfileName, subUnsafe_eq_self hsafe, hname, stripDots_idempotent]
    rfl

/-- A sanitised name has no dot and no underscore at either end. -/
theorem ne_dot_of_mem_ends_sanitizeProfileName {name : String} {c : Char}
    (h : c ∈ (sanitizeProfileName name).toList.head? ∨
      c ∈ (sanitizeProfileName name).toList.getLast?) : c ≠ '.' ∧ c ≠ '_' := by
  have hdot : (c == '.' || c == '_') = false := by
    rw [sanitizeProfileName] at h
    split_ifs at h
    · rcases h with h | h
      · obtain rfl : 'd' = c := Option.some.inj h
        rfl
      · obtain rfl : 't' = c := Option.some.inj h
        rfl
    · rw [String.toList_ofList] at h
      rcases h with h | h
      · exact not_of_mem_head?_strip (fun c ↦ c == '.' || c == '_') h
      · exact not_of_mem_getLast?_strip (fun c ↦ c == '.' || c == '_') h
  rw [Bool.or_eq_false_iff, beq_eq_false_iff_ne, beq_eq_false_iff_ne] at hdot
  exact hdot

theorem sanitizeProfileName_ne_empty (name : String) : sanitizeProfileName name ≠ "" := by
  rw [sanitizeProfileName]
  split_ifs with hstripped
  · decide
  · intro hempty
    have hlist := congrArg String.toList hempty
    rw [String.toList_ofList] at hlist
    exact hstripped hlist

/-- The safe names are those that are their own canonical form. -/
theorem isSafeProfileName_iff {name : String} :
    isSafeProfileName name = true ↔ sanitizeProfileName name = name := by
  rw [isSafeProfileName, Bool.and_eq_true, decide_eq_true_eq, beq_iff_eq]
  constructor
  · exact And.right
  · intro h
    exact ⟨h ▸ sanitizeProfileName_ne_empty name, h⟩

end TgMessenger
