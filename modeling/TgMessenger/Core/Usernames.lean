import Mathlib.Data.List.Infix
import TgMessenger.Data.Patterns

/-!
# User names

`is_valid_username` of `core/usernames.py`, and the rules it checks.
-/

namespace TgMessenger.Usernames

/-- `USERNAME_MIN_LEN`. -/
def usernameMinLen : ℕ := 5

/-- `USERNAME_MAX_LEN`. -/
def usernameMaxLen : ℕ := 32

/-- `[a-z]`. -/
def isLetter (c : Char) : Bool := c.isLower

/-- `[a-z0-9]`. -/
def isLetterOrDigit (c : Char) : Bool := c.isLower || c.isDigit

/-- `[a-z0-9_]`. -/
def isNameChar (c : Char) : Bool := isLetterOrDigit c || c == '_'

/-- `_VALID_RE`, between its anchors: `[a-z][a-z0-9_]{3,30}[a-z0-9]`. -/
def validRe : List (Patterns.Item Char) :=
  [.one isLetter, ⟨isNameChar, 3, 30⟩, .one isLetterOrDigit]

/-- `_VALID_RE.match(name) is not None`.  The `$` holds at the end of the text, and before a
newline that ends it. -/
def matchesValidRe (name : List Char) : Bool :=
  (Patterns.rests validRe name).any fun rest ↦ rest == [] || rest == ['\n']

/-- `is_valid_username`. -/
def isValidUsername (name : List Char) : Bool :=
  if ¬ (usernameMinLen ≤ name.length ∧ name.length ≤ usernameMaxLen) then false
  else if ['_', '_'] <:+: name then false
  else matchesValidRe name

/-- The rules for a name, as the documentation of `is_valid_username` has them. -/
structure Documented (name : List Char) : Prop where
  least : usernameMinLen ≤ name.length
  most : name.length ≤ usernameMaxLen
  chars : ∀ c ∈ name, isNameChar c = true
  first : ∀ c ∈ name.head?, isLetter c = true
  last : ∀ c ∈ name.getLast?, c ≠ '_'
  noRun : ¬ ['_', '_'] <:+: name

/-! ## What the pattern matches -/

@[simp] theorem not_isNameChar_newline : isNameChar '\n' = false := rfl

theorem isNameChar_of_isLetterOrDigit {c : Char} (h : isLetterOrDigit c = true) :
    isNameChar c = true := by
  rw [isNameChar, h, Bool.true_or]

theorem isLetterOrDigit_of_isLetter {c : Char} (h : isLetter c = true) :
    isLetterOrDigit c = true := by
  rw [isLetterOrDigit, ← isLetter, h, Bool.true_or]

theorem ne_underscore_of_isLetterOrDigit {c : Char} (h : isLetterOrDigit c = true) : c ≠ '_' := by
  rintro rfl
  cases h

/-- A character of a name other than the underscore is a letter or a digit. -/
theorem isLetterOrDigit_of_ne {c : Char} (h : isNameChar c = true) (hne : c ≠ '_') :
    isLetterOrDigit c = true := by
  rw [isNameChar, Bool.or_eq_true, beq_iff_eq] at h
  exact h.resolve_right hne

/-- An item for one character matches the texts of one character of its class. -/
theorem fits_one {chars : Char → Bool} {part : List Char} :
    (Patterns.Item.one chars).Fits part ↔ ∃ c, chars c = true ∧ part = [c] := by
  constructor
  · intro h
    obtain ⟨c, rfl⟩ := List.length_eq_one_iff.mp (le_antisymm h.most h.least)
    exact ⟨c, h.chars c List.mem_cons_self, rfl⟩
  · rintro ⟨c, hc, rfl⟩
    refine ⟨?_, le_rfl, le_rfl⟩
    intro c' hc'
    rw [List.mem_singleton.mp hc']
    exact hc

/-- A match takes a letter, three to thirty characters of names, and a letter or a digit. -/
theorem mem_rests_validRe {name rest : List Char} :
    rest ∈ Patterns.rests validRe name ↔
      ∃ c mid d, isLetter c = true ∧ (∀ c' ∈ mid, isNameChar c' = true) ∧ 3 ≤ mid.length ∧
        mid.length ≤ 30 ∧ isLetterOrDigit d = true ∧ name = c :: mid ++ d :: rest := by
  rw [Patterns.mem_rests]
  constructor
  · rintro ⟨parts, hparts, rfl⟩
    rcases hparts with _ | ⟨hfirst, _ | ⟨hmid, _ | ⟨hlast, _ | _⟩⟩⟩
    obtain ⟨c, hc, rfl⟩ := fits_one.mp hfirst
    obtain ⟨d, hd, rfl⟩ := fits_one.mp hlast
    refine ⟨c, _, d, hc, hmid.chars, hmid.least, hmid.most, hd, ?_⟩
    simp
  · rintro ⟨c, mid, d, hc, hmid, hleast, hmost, hd, rfl⟩
    refine ⟨[[c], mid, [d]], ?_, by simp⟩
    exact .cons (fits_one.mpr ⟨c, hc, rfl⟩) (.cons ⟨hmid, hleast, hmost⟩
      (.cons (fits_one.mpr ⟨d, hd, rfl⟩) .nil))

/-- Up to the underscores, a name that is matched as a whole is one of the documented ones. -/
theorem documented_iff {name : List Char} :
    Documented name ↔ ¬ ['_', '_'] <:+: name ∧ [] ∈ Patterns.rests validRe name := by
  rw [mem_rests_validRe]
  constructor
  · intro h
    refine ⟨h.noRun, ?_⟩
    have hleast := h.least
    have hmost := h.most
    cases name with
    | nil => cases hleast
    | cons c tail =>
      cases htail : tail using List.reverseRecOn with
      | nil =>
        subst htail
        rw [usernameMinLen, List.length_singleton] at hleast
        omega
      | append_singleton mid d =>
        subst htail
        have hd := h.chars d (by simp)
        have hlast := h.last d (@List.getLast?_concat _ (c :: mid) d)
        simp only [usernameMinLen, usernameMaxLen, List.length_cons, List.length_append,
          List.length_nil] at hleast hmost
        refine ⟨c, mid, d, h.first c rfl, ?_, by omega, by omega, isLetterOrDigit_of_ne hd hlast,
          rfl⟩
        intro c' hc'
        exact h.chars c' (List.mem_cons_of_mem _ (List.mem_append_left _ hc'))
  · rintro ⟨hrun, c, mid, d, hc, hmid, hleast, hmost, hd, rfl⟩
    constructor
    case least =>
      rw [List.length_append, List.length_cons, List.length_singleton, usernameMinLen]
      omega
    case most =>
      rw [List.length_append, List.length_cons, List.length_singleton, usernameMaxLen]
      omega
    case chars =>
      intro c' hc'
      simp only [List.cons_append, List.mem_cons, List.mem_append, List.not_mem_nil,
        or_false] at hc'
      rcases hc' with rfl | hc' | rfl
      · exact isNameChar_of_isLetterOrDigit (isLetterOrDigit_of_isLetter hc)
      · exact hmid c' hc'
      · exact isNameChar_of_isLetterOrDigit hd
    case first =>
      rintro c' ⟨⟩
      exact hc
    case last =>
      intro c' hc'
      rw [List.getLast?_append_cons, List.getLast?_singleton] at hc'
      obtain rfl := Option.some.inj hc'
      exact ne_underscore_of_isLetterOrDigit hd
    case noRun => exact hrun

/-- What is left behind a match stands at the end of the text. -/
theorem rest_mem_rests_append {u rest : List Char} :
    rest ∈ Patterns.rests validRe (u ++ rest) ↔ [] ∈ Patterns.rests validRe u := by
  rw [Patterns.mem_rests, Patterns.mem_rests]
  simp only [List.append_cancel_right_eq, List.append_nil]

theorem exists_of_mem_rests {name rest : List Char} (h : rest ∈ Patterns.rests validRe name) :
    ∃ u, name = u ++ rest := by
  obtain ⟨parts, -, rfl⟩ := Patterns.mem_rests.mp h
  exact ⟨_, rfl⟩

/-- What has no underscore makes no run of them at the end. -/
theorem run_append_iff {u v : List Char} (h : '_' ∉ v) :
    ['_', '_'] <:+: u ++ v ↔ ['_', '_'] <:+: u := by
  induction v using List.reverseRecOn with
  | nil => rw [List.append_nil]
  | append_singleton v c ih =>
    rw [List.mem_append, List.mem_singleton, not_or] at h
    rw [← List.append_assoc, List.infix_concat_iff, ih h.1, or_iff_right]
    rintro ⟨before, hend⟩
    have hlast := congrArg List.getLast? hend
    rw [List.getLast?_concat, List.getLast?_append_cons] at hlast
    exact h.2 (Option.some.inj hlast)

theorem run_append_newline {u : List Char} :
    ['_', '_'] <:+: u ++ ['\n'] ↔ ['_', '_'] <:+: u := run_append_iff (by decide)

/-! ## What is accepted -/

/-- A name is accepted when it is one of the documented ones, and when it is one of at most 31
characters with a newline behind it. -/
theorem isValidUsername_iff {name : List Char} :
    isValidUsername name = true ↔
      Documented name ∨ ∃ u, name = u ++ ['\n'] ∧ u.length ≤ 31 ∧ Documented u := by
  constructor
  · intro h
    rw [isValidUsername] at h
    split_ifs at h with hlength hrun
    rw [matchesValidRe, List.any_eq_true] at h
    obtain ⟨rest, hrest, hend⟩ := h
    rw [Bool.or_eq_true, beq_iff_eq, beq_iff_eq] at hend
    rcases hend with rfl | rfl
    · exact .inl (documented_iff.mpr ⟨hrun, hrest⟩)
    · obtain ⟨u, rfl⟩ := exists_of_mem_rests hrest
      have hmost := hlength.2
      rw [List.length_append, List.length_singleton, usernameMaxLen] at hmost
      refine .inr ⟨u, rfl, by omega, documented_iff.mpr ⟨?_, rest_mem_rests_append.mp hrest⟩⟩
      rwa [run_append_newline] at hrun
  · rintro (h | ⟨u, rfl, hmost, h⟩)
    · have hmatch := (documented_iff.mp h).2
      rw [isValidUsername, if_neg (not_not.mpr ⟨h.least, h.most⟩), if_neg h.noRun, matchesValidRe,
        List.any_eq_true]
      exact ⟨[], hmatch, rfl⟩
    · have hmatch : ['\n'] ∈ Patterns.rests validRe (u ++ ['\n']) :=
        rest_mem_rests_append.mpr (documented_iff.mp h).2
      have hleast := h.least
      have hlength : usernameMinLen ≤ (u ++ ['\n']).length ∧
          (u ++ ['\n']).length ≤ usernameMaxLen := by
        rw [List.length_append, List.length_singleton, usernameMaxLen]
        exact ⟨by omega, by omega⟩
      rw [isValidUsername, if_neg (not_not.mpr hlength), if_neg (mt run_append_newline.mp h.noRun),
        matchesValidRe, List.any_eq_true]
      exact ⟨['\n'], hmatch, rfl⟩

/-- No documented name has a newline in it. -/
theorem Documented.newline_not_mem {name : List Char} (h : Documented name) : '\n' ∉ name := by
  intro hmem
  exact absurd (h.chars '\n' hmem) (by decide)

/-- Among the texts without a newline exactly the documented names are accepted. -/
theorem isValidUsername_iff_documented {name : List Char} (h : '\n' ∉ name) :
    isValidUsername name = true ↔ Documented name := by
  rw [isValidUsername_iff, or_iff_left]
  rintro ⟨u, rfl, -⟩
  exact h (by simp)

/-- The documented rules are what is checked, of every text but a documented name of at most 31
characters with a newline behind it. -/
theorem accepts_documented_iff (name : List Char) :
    (isValidUsername name = true ↔ Documented name) ↔
      ¬ ∃ u, name = u ++ ['\n'] ∧ u.length ≤ 31 ∧ Documented u := by
  rw [isValidUsername_iff]
  constructor
  · rintro h ⟨u, rfl, hmost, hu⟩
    exact (h.mp (.inr ⟨u, rfl, hmost, hu⟩)).newline_not_mem (by simp)
  · intro hnone
    rw [or_iff_left hnone]

/-- `abcde` with a newline behind it is accepted. -/
theorem accepts_newline :
    ¬ (isValidUsername ("abcde\n".toList) = true ↔ Documented "abcde\n".toList) := by
  intro h
  have hvalid : isValidUsername "abcde\n".toList = true := by decide
  exact (h.mp hvalid).newline_not_mem (by decide)

end TgMessenger.Usernames
