import Mathlib.Data.List.Basic
import Mathlib.Tactic.SplitIfs

/-!
# Lines of a stream

A stream comes in chunks.  Whole lines are cut off the front of a buffer, and what is left
waits for the next chunk.  However a text is cut into chunks, its lines are the lines of the
text.
-/

universe u

namespace Lines

variable {α : Type u} [DecidableEq α] (sep : α)

/-! ## The lines of a text -/

omit [DecidableEq α] in
/-- No line has a character in it at which the text is split. -/
theorem of_mem_splitOnP {p : α → Bool} {text line : List α} (h : line ∈ text.splitOnP p) {c : α}
    (hc : c ∈ line) : p c = false := by
  induction text generalizing line with
  | nil =>
    rw [List.splitOnP_nil, List.mem_singleton] at h
    subst h
    cases hc
  | cons c' text ih =>
    rw [List.splitOnP_cons_eq_if_modifyHead] at h
    split at h
    · rcases List.mem_cons.mp h with rfl | h
      · cases hc
      · exact ih h hc
    · next hc' =>
      obtain ⟨first, rest, hlines⟩ := List.exists_cons_of_ne_nil (List.splitOnP_ne_nil p text)
      rw [hlines] at h ih
      rcases List.mem_cons.mp h with rfl | h
      · rcases List.mem_cons.mp hc with rfl | hc
        · exact Bool.not_eq_true _ ▸ hc'
        · exact ih List.mem_cons_self hc
      · exact ih (List.mem_cons_of_mem first h) hc

variable {sep} in
/-- No line has the end of a line in it. -/
theorem notMem_of_mem_splitOn {text line : List α} (h : line ∈ text.splitOn sep) :
    sep ∉ line := by
  intro hmem
  rw [List.splitOn_eq_splitOnP] at h
  have hsep := of_mem_splitOnP h hmem
  rw [beq_self_eq_true] at hsep
  cases hsep

variable {sep} in
/-- The first line goes up to the first end of a line, and each end begins a line. -/
theorem splitOn_eq_cons {text head : List α} {rest : List (List α)}
    (h : text.splitOn sep = head :: rest) :
    head = text.takeWhile (· ≠ sep) ∧ rest.length = text.count sep := by
  induction text generalizing head rest with
  | nil =>
    cases h
    exact ⟨rfl, rfl⟩
  | cons c text ih =>
    obtain ⟨first, others, hlines⟩ := List.exists_cons_of_ne_nil (List.splitOn_ne_nil sep text)
    obtain ⟨hfirst, hothers⟩ := ih hlines
    rw [List.splitOn_cons_eq_if_modifyHead, hlines] at h
    split at h
    · next hc =>
      cases h
      rw [beq_iff_eq.mp hc, List.count_cons_self, List.length_cons, hothers]
      exact ⟨(List.takeWhile_cons_of_neg (by simp)).symm, rfl⟩
    · next hc =>
      cases h
      have hne : c ≠ sep := mt beq_iff_eq.mpr hc
      rw [List.count_cons_of_ne hne, List.takeWhile_cons_of_pos (by simpa using hne), hfirst]
      exact ⟨rfl, hothers⟩

variable {sep} in
/-- What has no line end joins the first line. -/
theorem splitOn_append_of_notMem {start text head : List α} {rest : List (List α)}
    (hstart : sep ∉ start) (h : text.splitOn sep = head :: rest) :
    (start ++ text).splitOn sep = (start ++ head) :: rest := by
  induction start with
  | nil => exact h
  | cons c start ih =>
    have hc : ¬ (c == sep) = true := fun hc ↦
      hstart (beq_iff_eq.mp hc ▸ List.mem_cons_self)
    rw [List.cons_append, List.splitOn_cons_eq_if_modifyHead, if_neg hc,
      ih (mt (List.mem_cons_of_mem c) hstart)]
    rfl

/-! ## Lines of a buffer -/

/-- The whole lines at the front of a buffer, and what is left. -/
def cut : List α → List (List α) × List α
  | [] => ([], [])
  | c :: buffer =>
    let (lines, left) := cut buffer
    if c = sep then ([] :: lines, left)
    else
      match lines with
      | [] => ([], c :: left)
      | line :: lines => ((c :: line) :: lines, left)

variable {sep}

/-- What is left of a buffer is its last line. -/
theorem cut_append_singleton (buffer : List α) :
    (cut sep buffer).1 ++ [(cut sep buffer).2] = buffer.splitOn sep := by
  induction buffer with
  | nil => rfl
  | cons c buffer ih =>
    rw [List.splitOn_cons_eq_if_modifyHead, ← ih]
    dsimp only [cut]
    by_cases hc : c = sep
    · rw [if_pos hc, if_pos (beq_iff_eq.mpr hc)]
      rfl
    · rw [if_neg hc, if_neg (mt beq_iff_eq.mp hc)]
      cases (cut sep buffer).1 with
      | nil => rfl
      | cons line lines => rfl

theorem cut_eq_iff {buffer : List α} {lines : List (List α)} {left : List α} :
    cut sep buffer = (lines, left) ↔ lines ++ [left] = buffer.splitOn sep := by
  rw [← cut_append_singleton]
  constructor
  · intro h
    rw [h]
  · intro h
    obtain ⟨hlines, hleft⟩ := List.append_inj' h rfl
    exact Prod.ext hlines.symm (List.singleton_inj.mp hleft).symm

/-- Nothing is cut off before the end of a line has come. -/
theorem cut_of_notMem {buffer : List α} (h : sep ∉ buffer) : cut sep buffer = ([], buffer) := by
  rw [cut_eq_iff, List.splitOn_eq_singleton h]
  rfl

/-- The lines of a chunk that comes into a buffer. -/
theorem cut_append (buffer chunk : List α) :
    cut sep (buffer ++ chunk) =
      ((cut sep buffer).1 ++ (cut sep ((cut sep buffer).2 ++ chunk)).1,
        (cut sep ((cut sep buffer).2 ++ chunk)).2) := by
  induction buffer with
  | nil => rfl
  | cons c buffer ih =>
    rw [List.cons_append]
    dsimp only [cut]
    rw [ih]
    by_cases hc : c = sep
    · rw [if_pos hc, if_pos hc]
      rfl
    · rw [if_neg hc, if_neg hc]
      cases (cut sep buffer).1 with
      | nil =>
        dsimp only [List.nil_append, List.cons_append, cut]
        rw [if_neg hc]
      | cons line lines => rfl

/-- What is left of a buffer has no whole line. -/
theorem notMem_cut (buffer : List α) : sep ∉ (cut sep buffer).2 := by
  induction buffer with
  | nil => exact List.not_mem_nil
  | cons c buffer ih =>
    dsimp only [cut]
    split_ifs with hc
    · exact ih
    · split
      · rw [List.mem_cons]
        rintro (heq | hmem)
        · exact hc heq.symm
        · exact ih hmem
      · exact ih

end Lines
