import Mathlib.Algebra.GroupWithZero.Nat
import Mathlib.Data.List.Basic
import Mathlib.Data.Nat.Basic
import Mathlib.Order.Basic
import Mathlib.Tactic.SplitIfs

/-!
# Filling lines

Words are put on lines of a width, with one separator between two of them: a word joins the last
line if there is room, and begins a new one otherwise.  A word longer than a line is cut into
pieces first.

How many lines there are depends on the lengths of the words only, and never grows with the width.
-/

universe u

namespace Filling

variable {α : Type u}

/-! ## Words on a line -/

/-- The length of words with a separator between them. -/
def span : List (List α) → ℕ
  | [] => 0
  | word :: words => word.length + (words.map fun word ↦ word.length + 1).sum

theorem length_intercalate (sep : α) (words : List (List α)) :
    ([sep].intercalate words).length = span words := by
  induction words with
  | nil => rfl
  | cons word words ih =>
    cases words with
    | nil => simp [span]
    | cons next words =>
      rw [List.intercalate_cons_cons, List.length_append, List.length_append, ih]
      simp only [span, List.length_singleton, List.map_cons, List.sum_cons]
      omega

theorem span_append_singleton {words : List (List α)} (h : words ≠ []) (word : List α) :
    span (words ++ [word]) = span words + 1 + word.length := by
  cases words with
  | nil => exact absurd rfl h
  | cons first words =>
    simp only [List.cons_append, span, List.map_append, List.sum_append, List.map_singleton,
      List.sum_singleton]
    omega

theorem intercalate_append_singleton (sep : α) {words : List (List α)} (h : words ≠ [])
    (word : List α) :
    [sep].intercalate (words ++ [word]) = [sep].intercalate words ++ sep :: word := by
  induction words with
  | nil => exact absurd rfl h
  | cons first words ih =>
    cases words with
    | nil => simp [List.intercalate_cons_cons]
    | cons next words =>
      rw [List.cons_append, List.cons_append, List.intercalate_cons_cons,
        List.intercalate_cons_cons, ← List.cons_append, ih (List.cons_ne_nil _ _)]
      simp

/-- No word is empty. -/
def Proper (words : List (List α)) : Prop := ∀ word ∈ words, word ≠ []

theorem Proper.cons {word : List α} {words : List (List α)} (h : word ≠ []) (h' : Proper words) :
    Proper (word :: words) := by
  intro word' hmem
  rcases List.mem_cons.mp hmem with rfl | hmem
  · exact h
  · exact h' word' hmem

theorem Proper.tail {word : List α} {words : List (List α)} (h : Proper (word :: words)) :
    Proper words := fun word' hmem ↦ h word' (List.mem_cons_of_mem _ hmem)

theorem Proper.append {words words' : List (List α)} (h : Proper words) (h' : Proper words') :
    Proper (words ++ words') := by
  intro word hmem
  rcases List.mem_append.mp hmem with hmem | hmem
  · exact h word hmem
  · exact h' word hmem

theorem Proper.singleton {word : List α} (h : word ≠ []) : Proper [word] := by
  intro word' hmem
  rw [List.mem_singleton.mp hmem]
  exact h

theorem Proper.span_pos {words : List (List α)} (h : Proper words) (hne : words ≠ []) :
    0 < span words := by
  cases words with
  | nil => exact absurd rfl hne
  | cons word words =>
    have hpos := List.length_pos_iff.mpr (h word List.mem_cons_self)
    rw [span]
    omega

theorem Proper.span_eq_zero_iff {words : List (List α)} (h : Proper words) :
    span words = 0 ↔ words = [] := by
  constructor
  · intro hzero
    by_contra hne
    have hpos := h.span_pos hne
    omega
  · rintro rfl
    rfl

section Words

variable [DecidableEq α] (sep : α)

/-- The words of a text, without the empty ones between two separators. -/
def wordsOf (text : List α) : List (List α) := (text.splitOn sep).filter (· ≠ [])

theorem proper_wordsOf (text : List α) : Proper (wordsOf sep text) := by
  intro word hmem
  exact of_decide_eq_true (List.mem_filter.mp hmem).2

/-- The words of a line are those that it was made of. -/
theorem wordsOf_intercalate {words : List (List α)} (h : Proper words)
    (hsep : ∀ word ∈ words, sep ∉ word) : wordsOf sep ([sep].intercalate words) = words := by
  by_cases hne : words = []
  · rw [hne]
    rfl
  · rw [wordsOf, List.splitOn_intercalate sep hsep hne, List.filter_eq_self]
    exact fun word hmem ↦ decide_eq_true (h word hmem)

variable {sep}

/-- Splitting takes the separators away, and nothing else. -/
theorem flatten_splitOn (text : List α) : (text.splitOn sep).flatten = text.filter (· ≠ sep) := by
  induction text with
  | nil => rfl
  | cons c text ih =>
    obtain ⟨first, rest, hsplit⟩ := List.exists_cons_of_ne_nil (List.splitOn_ne_nil sep text)
    rw [hsplit] at ih
    rw [List.splitOn_cons_eq_if_modifyHead, hsplit]
    split_ifs with hc
    · rw [List.filter_cons_of_neg (by simpa using hc), ← ih]
      rfl
    · rw [List.filter_cons_of_pos (by simpa using hc), ← ih]
      rfl

theorem flatten_wordsOf (text : List α) : (wordsOf sep text).flatten = text.filter (· ≠ sep) := by
  rw [← flatten_splitOn, wordsOf]
  induction text.splitOn sep with
  | nil => rfl
  | cons word words ih =>
    by_cases hword : word = []
    · rw [List.filter_cons_of_neg (by simpa using hword), ih, hword]
      rfl
    · rw [List.filter_cons_of_pos (by simpa using hword), List.flatten_cons, ih]
      rfl

omit [DecidableEq α] in
theorem mem_intercalate {c : α} {words : List (List α)} (h : c ∈ [sep].intercalate words) :
    c = sep ∨ ∃ word ∈ words, c ∈ word := by
  induction words with
  | nil => cases h
  | cons word words ih =>
    cases words with
    | nil =>
      rw [List.intercalate_singleton] at h
      exact .inr ⟨word, List.mem_cons_self, h⟩
    | cons next words =>
      rw [List.intercalate_cons_cons, List.mem_append, List.mem_append, List.mem_singleton] at h
      rcases h with (h | h) | h
      · exact .inr ⟨word, List.mem_cons_self, h⟩
      · exact .inl h
      · refine (ih h).imp_right ?_
        rintro ⟨word', hmem, hc⟩
        exact ⟨word', List.mem_cons_of_mem _ hmem, hc⟩

theorem mem_of_mem_wordsOf {text word : List α} (h : word ∈ wordsOf sep text) {c : α}
    (hc : c ∈ word) : c ∈ text ∧ c ≠ sep := by
  have hmem : c ∈ (wordsOf sep text).flatten := List.mem_flatten.mpr ⟨word, h, hc⟩
  rw [flatten_wordsOf, List.mem_filter] at hmem
  exact ⟨hmem.1, of_decide_eq_true hmem.2⟩

end Words

/-! ## Pieces of a word -/

/-- At most so many pieces. -/
def cut (width : ℕ) : ℕ → List α → List (List α)
  | 0, _ => []
  | _ + 1, [] => []
  | n + 1, c :: word => (c :: word).take width :: cut width n ((c :: word).drop width)

/-- The pieces of a word: as long as a line, but for the last. -/
def pieces (width : ℕ) (word : List α) : List (List α) := cut width word.length word

@[simp] theorem pieces_nil (width : ℕ) : pieces width ([] : List α) = [] := rfl

theorem cut_of_length_le {width n : ℕ} (hwidth : 0 < width) {word : List α}
    (hn : word.length ≤ n) : cut width n word = pieces width word := by
  rw [pieces]
  induction n using Nat.strongRecOn generalizing word with
  | _ n ih =>
    cases word with
    | nil => cases n <;> rfl
    | cons c word =>
      cases n with
      | zero => cases hn
      | succ n =>
        have hdrop : ((c :: word).drop width).length ≤ word.length := by
          rw [List.length_drop, List.length_cons]
          omega
        rw [List.length_cons] at hn
        rw [List.length_cons, cut, cut, ih n (Nat.lt_succ_self n) (by omega),
          ih word.length (by omega) hdrop]

theorem pieces_of_ne_nil {width : ℕ} (hwidth : 0 < width) {word : List α} (h : word ≠ []) :
    pieces width word = word.take width :: pieces width (word.drop width) := by
  cases word with
  | nil => exact absurd rfl h
  | cons c word =>
    have hdrop : ((c :: word).drop width).length ≤ word.length := by
      rw [List.length_drop, List.length_cons]
      omega
    rw [← cut_of_length_le hwidth hdrop]
    rfl

/-- A word that is no longer than a line is one piece. -/
theorem pieces_of_length_le {width : ℕ} (hwidth : 0 < width) {word : List α} (h : word ≠ [])
    (hle : word.length ≤ width) : pieces width word = [word] := by
  rw [pieces_of_ne_nil hwidth h, List.take_of_length_le hle, List.drop_eq_nil_of_le hle,
    pieces_nil]

/-- What is proved of the word that is left behind a piece. -/
theorem pieces_induction {width : ℕ} (hwidth : 0 < width) {motive : List α → Prop}
    (hnil : motive []) (hcons : ∀ word, word ≠ [] → motive (word.drop width) → motive word)
    (word : List α) : motive word := by
  induction h : word.length using Nat.strongRecOn generalizing word with
  | _ n ih =>
    by_cases hne : word = []
    · rw [hne]
      exact hnil
    · have hpos := List.length_pos_iff.mpr hne
      refine hcons word hne (ih _ ?_ _ rfl)
      rw [List.length_drop]
      omega

theorem flatten_pieces {width : ℕ} (hwidth : 0 < width) (word : List α) :
    (pieces width word).flatten = word := by
  induction word using pieces_induction hwidth with
  | hnil => rfl
  | hcons word hne ih =>
    rw [pieces_of_ne_nil hwidth hne, List.flatten_cons, ih, List.take_append_drop]

theorem length_le_of_mem_pieces {width : ℕ} (hwidth : 0 < width) {word piece : List α}
    (h : piece ∈ pieces width word) : piece.length ≤ width := by
  induction word using pieces_induction hwidth with
  | hnil => cases h
  | hcons word hne ih =>
    rw [pieces_of_ne_nil hwidth hne] at h
    rcases List.mem_cons.mp h with rfl | h
    · exact List.length_take_le ..
    · exact ih h

theorem proper_pieces {width : ℕ} (hwidth : 0 < width) (word : List α) :
    Proper (pieces width word) := by
  induction word using pieces_induction hwidth with
  | hnil =>
    rintro piece ⟨⟩
  | hcons word hne ih =>
    rw [pieces_of_ne_nil hwidth hne]
    refine Proper.cons ?_ ih
    rw [Ne, List.take_eq_nil_iff]
    rintro (hzero | hnil)
    · omega
    · exact hne hnil

theorem proper_flatMap_pieces {width : ℕ} (hwidth : 0 < width) (words : List (List α)) :
    Proper (words.flatMap (pieces width)) := by
  intro piece hmem
  obtain ⟨word, -, hpiece⟩ := List.mem_flatMap.mp hmem
  exact proper_pieces hwidth word piece hpiece

theorem length_le_of_mem_flatMap_pieces {width : ℕ} (hwidth : 0 < width)
    {words : List (List α)} {piece : List α} (h : piece ∈ words.flatMap (pieces width)) :
    piece.length ≤ width := by
  obtain ⟨word, -, hpiece⟩ := List.mem_flatMap.mp h
  exact length_le_of_mem_pieces hwidth hpiece

/-- The empty words have no pieces. -/
theorem flatMap_pieces_splitOn [DecidableEq α] (width : ℕ) (sep : α) (text : List α) :
    (text.splitOn sep).flatMap (pieces width) = (wordsOf sep text).flatMap (pieces width) := by
  rw [wordsOf]
  induction text.splitOn sep with
  | nil => rfl
  | cons word words ih =>
    by_cases hword : word = []
    · rw [List.filter_cons_of_neg (by simpa using hword), List.flatMap_cons, ih, hword]
      rfl
    · rw [List.filter_cons_of_pos (by simpa using hword), List.flatMap_cons, List.flatMap_cons, ih]

/-! ## The lines -/

/-- The lines of words, with a last line to go on with. -/
def fill (width : ℕ) (line : List (List α)) : List (List α) → List (List (List α))
  | [] => [line]
  | word :: words =>
    if line = [] then fill width [word] words
    else if span line + 1 + word.length ≤ width then fill width (line ++ [word]) words
    else line :: fill width [word] words

variable {width : ℕ}

theorem fill_ne_nil (line words : List (List α)) : fill width line words ≠ [] := by
  induction words generalizing line with
  | nil => exact List.cons_ne_nil _ _
  | cons word words ih =>
    rw [fill]
    split_ifs
    · exact ih _
    · exact ih _
    · exact List.cons_ne_nil _ _

/-- Every word stands on a line, and none is moved. -/
theorem flatten_fill (line words : List (List α)) :
    (fill width line words).flatten = line ++ words := by
  induction words generalizing line with
  | nil => simp [fill]
  | cons word words ih =>
    rw [fill]
    split_ifs with hline
    · rw [ih, hline]
      rfl
    · rw [ih, List.append_assoc]
      rfl
    · rw [List.flatten_cons, ih]
      rfl

/-- No line is longer than the width. -/
theorem span_le_of_mem_fill {line words : List (List α)} (hline : span line ≤ width)
    (hwords : ∀ word ∈ words, word.length ≤ width) :
    ∀ l ∈ fill width line words, span l ≤ width := by
  induction words generalizing line with
  | nil =>
    intro l hl
    rw [List.mem_singleton.mp hl]
    exact hline
  | cons word words ih =>
    have hword : span [word] ≤ width := hwords word List.mem_cons_self
    have hrest : ∀ word ∈ words, word.length ≤ width := fun word' hmem ↦
      hwords word' (List.mem_cons_of_mem _ hmem)
    rw [fill]
    split_ifs with hempty hroom
    · exact ih hword hrest
    · refine ih ?_ hrest
      rw [span_append_singleton hempty]
      exact hroom
    · intro l hl
      rcases List.mem_cons.mp hl with rfl | hl
      · exact hline
      · exact ih hword hrest l hl

/-- The words of a line are among the words. -/
theorem mem_of_mem_fill {line words l : List (List α)} (hl : l ∈ fill width line words)
    {word : List α} (h : word ∈ l) : word ∈ line ++ words := by
  rw [← @flatten_fill α width]
  exact List.mem_flatten.mpr ⟨l, hl, h⟩

/-! ## How many lines -/

/-- Full lines, and the columns used of the last one, after a word of a length. -/
def place (width : ℕ) (e : ℕ × ℕ) (n : ℕ) : ℕ × ℕ :=
  let q := (n - 1) / width
  let r := n - width * q
  if e.2 = 0 then (e.1 + q, r)
  else if e.2 + 1 + n ≤ width then (e.1, e.2 + 1 + n)
  else (e.1 + 1 + q, r)

/-- The same after words of some lengths. -/
def extent (width : ℕ) (e : ℕ × ℕ) (lengths : List ℕ) : ℕ × ℕ := lengths.foldl (place width) e

theorem extent_cons (width : ℕ) (e : ℕ × ℕ) (n : ℕ) (lengths : List ℕ) :
    extent width e (n :: lengths) = extent width (place width e n) lengths := rfl

/-- After the first word. -/
theorem place_zero (width k n : ℕ) :
    place width (k, 0) n = (k + (n - 1) / width, n - width * ((n - 1) / width)) := rfl

theorem place_shift (width k : ℕ) (e : ℕ × ℕ) (n : ℕ) :
    place width (e.1 + k, e.2) n = ((place width e n).1 + k, (place width e n).2) := by
  simp only [place]
  split_ifs
  · exact Prod.ext (by dsimp only; omega) rfl
  · rfl
  · exact Prod.ext (by dsimp only; omega) rfl

theorem extent_shift (width k : ℕ) (e : ℕ × ℕ) (lengths : List ℕ) :
    extent width (e.1 + k, e.2) lengths =
      ((extent width e lengths).1 + k, (extent width e lengths).2) := by
  induction lengths generalizing e with
  | nil => rfl
  | cons n lengths ih =>
    rw [extent_cons, place_shift]
    exact ih (place width e n)

/-- The pieces of a word, and where they leave the last line. -/
theorem fill_pieces_append (hwidth : 0 < width) {line : List (List α)} (hline : Proper line)
    {word : List α} (hword : word ≠ []) (rest : List (List α)) :
    ∃ full line', Proper line' ∧ line' ≠ [] ∧
      fill width line (pieces width word ++ rest) = full ++ fill width line' rest ∧
      place width (0, span line) word.length = (full.length, span line') := by
  induction word using pieces_induction hwidth generalizing line with
  | hnil => exact absurd rfl hword
  | hcons word hne ih =>
    have hpos := List.length_pos_iff.mpr hne
    by_cases hshort : word.length ≤ width
    · have hq : (word.length - 1) / width = 0 := Nat.div_eq_of_lt (by omega)
      have hself : Proper [word] := .singleton hne
      rw [pieces_of_length_le hwidth hne hshort, List.singleton_append, fill]
      simp only [place, hq, hline.span_eq_zero_iff, Nat.zero_add, Nat.mul_zero, Nat.sub_zero]
      split_ifs with hempty hroom
      · exact ⟨[], [word], hself, List.cons_ne_nil _ _, rfl, rfl⟩
      · refine ⟨[], line ++ [word], hline.append hself, List.append_ne_nil_of_left_ne_nil hempty _,
          rfl, ?_⟩
        rw [span_append_singleton hempty]
        rfl
      · exact ⟨[line], [word], hself, List.cons_ne_nil _ _, rfl, rfl⟩
    · -- The first piece fills a line of its own.
      have hlong : width < word.length := Nat.lt_of_not_le hshort
      set first := word.take width with hfirst
      have hlength : first.length = width := List.length_take_of_le hlong.le
      have hfirst' : Proper [first] := by
        refine .singleton ?_
        rintro hnil
        rw [hnil] at hlength
        exact absurd hlength.symm (Nat.ne_of_gt hwidth)
      have hdrop : word.drop width ≠ [] := by
        rw [Ne, List.drop_eq_nil_iff]
        omega
      have hdroplength : (word.drop width).length = word.length - width := List.length_drop ..
      obtain ⟨full, line', hproper, hne', hfill, hplace⟩ := ih hfirst' hdrop
      have hspan : span [first] = width := hlength
      obtain ⟨q, hq⟩ : ∃ q, q = (word.length - width - 1) / width := ⟨_, rfl⟩
      have hq' : (word.length - 1) / width = q + 1 := by
        rw [hq, ← Nat.add_div_right _ hwidth]
        congr 1
        omega
      have hmul : width * (q + 1) = width * q + width := Nat.mul_succ ..
      rw [hdroplength, hspan, place] at hplace
      simp only [← hq] at hplace
      rw [if_neg (by omega), if_neg (by omega), Prod.mk.injEq] at hplace
      rw [pieces_of_ne_nil hwidth hne, List.cons_append, fill]
      simp only [place, hq', hline.span_eq_zero_iff, hmul]
      rw [if_neg (by omega : ¬ span line + 1 + first.length ≤ width),
        if_neg (by omega : ¬ span line + 1 + word.length ≤ width)]
      split_ifs with hempty
      · refine ⟨full, line', hproper, hne', hfill, ?_⟩
        rw [Prod.mk.injEq]
        omega
      · refine ⟨line :: full, line', hproper, hne', ?_, ?_⟩
        · rw [← hfirst, hfill]
          rfl
        · rw [Prod.mk.injEq, List.length_cons]
          omega

/-- The number of lines, from the lengths of the words. -/
theorem length_fill (hwidth : 0 < width) {line words : List (List α)} (hline : Proper line)
    (hwords : Proper words) :
    (fill width line (words.flatMap (pieces width))).length =
      (extent width (0, span line) (words.map List.length)).1 + 1 := by
  induction words generalizing line with
  | nil => rfl
  | cons word words ih =>
    obtain ⟨full, line', hproper, -, hfill, hplace⟩ := fill_pieces_append hwidth hline
      (hwords word List.mem_cons_self) (words.flatMap (pieces width))
    rw [List.flatMap_cons, hfill, List.length_append, ih hproper hwords.tail, List.map_cons,
      extent_cons, hplace]
    have hshift := extent_shift width full.length (0, span line') (words.map List.length)
    rw [Nat.zero_add] at hshift
    rw [hshift]
    omega

/-! ## Wider lines -/

/-- No more lines are full, and if as many are, no more columns of the last are used. -/
def Ahead (e e' : ℕ × ℕ) : Prop := e.1 < e'.1 ∨ e.1 = e'.1 ∧ e.2 ≤ e'.2

/-- On wider lines a word is placed no later. -/
theorem Ahead.place {width' : ℕ} (hwidth : 0 < width) (hle : width ≤ width') {e e' : ℕ × ℕ}
    (h : Ahead e' e) (n : ℕ) : Ahead (place width' e' n) (place width e n) := by
  obtain ⟨q, hq⟩ : ∃ q, q = (n - 1) / width := ⟨_, rfl⟩
  obtain ⟨q', hq'⟩ : ∃ q', q' = (n - 1) / width' := ⟨_, rfl⟩
  have hqq : q' ≤ q := by
    rw [hq, hq']
    exact Nat.div_le_div_left hle hwidth
  have hrr : q' = q → n - width' * q' ≤ n - width * q := by
    rintro rfl
    exact Nat.sub_le_sub_left (Nat.mul_le_mul_right _ hle) _
  have hshort : n ≤ width → q = 0 ∧ n - width * q = n := by
    intro hn
    have hzero : q = 0 := by
      rw [hq]
      exact Nat.div_eq_of_lt (by omega)
    rw [hzero]
    exact ⟨rfl, rfl⟩
  have hshort' : n ≤ width' → n - width' * q' = n := by
    intro hn
    have hzero : q' = 0 := by
      rw [hq']
      exact Nat.div_eq_of_lt (by omega)
    rw [hzero]
    rfl
  simp only [Filling.place, ← hq, ← hq', Ahead] at h ⊢
  generalize n - width * q = r at *
  generalize n - width' * q' = r' at *
  split_ifs <;> dsimp only <;> omega

theorem Ahead.extent {width' : ℕ} (hwidth : 0 < width) (hle : width ≤ width') {e e' : ℕ × ℕ}
    (h : Ahead e' e) (lengths : List ℕ) :
    Ahead (extent width' e' lengths) (extent width e lengths) := by
  induction lengths generalizing e e' with
  | nil => exact h
  | cons n lengths ih => exact ih (h.place hwidth hle n)

theorem Ahead.fst_le {e e' : ℕ × ℕ} (h : Ahead e e') : e.1 ≤ e'.1 := by
  rcases h with h | h
  · exact h.le
  · exact h.1.le

/-- Wider lines are no more. -/
theorem length_fill_mono {width' : ℕ} (hwidth : 0 < width) (hle : width ≤ width')
    {words : List (List α)} (hwords : Proper words) :
    (fill width' [] (words.flatMap (pieces width'))).length ≤
      (fill width [] (words.flatMap (pieces width))).length := by
  have hnil : Proper ([] : List (List α)) := by
    rintro word ⟨⟩
  rw [length_fill (by omega) hnil hwords, length_fill hwidth hnil hwords]
  have hahead : Ahead (0, span ([] : List (List α))) (0, span ([] : List (List α))) :=
    .inr ⟨rfl, le_rfl⟩
  exact Nat.succ_le_succ (hahead.extent hwidth hle _).fst_le

/-- One more word in front makes at most one line more. -/
theorem length_fill_cons_le (hwidth : 0 < width) {word : List α} (hword : word ≠ [])
    (hshort : word.length ≤ width) {words : List (List α)} (hwords : Proper words) :
    (fill width [] ((word :: words).flatMap (pieces width))).length ≤
      (fill width [] (words.flatMap (pieces width))).length + 1 := by
  have hnil : Proper ([] : List (List α)) := by
    rintro word ⟨⟩
  rw [length_fill hwidth hnil (hwords.cons hword), length_fill hwidth hnil hwords, List.map_cons,
    extent_cons]
  have hahead : Ahead (place width (0, span ([] : List (List α))) word.length)
      (0 + 1, span ([] : List (List α))) := by
    have hq : (word.length - 1) / width = 0 := Nat.div_eq_of_lt (by omega)
    refine .inl ?_
    simp only [place, hq, span, if_true]
    omega
  have hle := (hahead.extent hwidth le_rfl (words.map List.length)).fst_le
  rw [extent_shift width 1 (0, span ([] : List (List α)))] at hle
  exact Nat.succ_le_succ hle

/-! ## One line -/

theorem fst_le_place (width : ℕ) (e : ℕ × ℕ) (n : ℕ) : e.1 ≤ (place width e n).1 := by
  simp only [place]
  split_ifs
  · exact Nat.le_add_right ..
  · exact le_rfl
  · exact (Nat.le_succ e.1).trans (Nat.le_add_right ..)

theorem fst_le_extent (width : ℕ) (e : ℕ × ℕ) (lengths : List ℕ) :
    e.1 ≤ (extent width e lengths).1 := by
  induction lengths generalizing e with
  | nil => exact le_rfl
  | cons n lengths ih => exact (fst_le_place width e n).trans (ih (place width e n))

/-- The line that is begun stays the last exactly when all words have room on it. -/
theorem extent_fst_eq_zero_iff {u : ℕ} (hu : 0 < u) (hle : u ≤ width) (lengths : List ℕ) :
    (extent width (0, u) lengths).1 = 0 ↔ u + (lengths.map (· + 1)).sum ≤ width := by
  induction lengths generalizing u with
  | nil => exact iff_of_true rfl hle
  | cons n lengths ih =>
    rw [List.map_cons, List.sum_cons, extent_cons]
    simp only [place]
    rw [if_neg hu.ne']
    split_ifs with hroom
    · rw [ih (by omega) hroom]
      omega
    · have hfst := (Nat.le_add_right (0 + 1) _).trans (fst_le_extent width
        (0 + 1 + (n - 1) / width, n - width * ((n - 1) / width)) lengths)
      refine iff_of_false ?_ ?_
      · omega
      · omega

/-- Words are on one line exactly when they have room there together. -/
theorem length_fill_eq_one_iff (hwidth : 0 < width) {words : List (List α)}
    (hwords : Proper words) :
    (fill width [] (words.flatMap (pieces width))).length = 1 ↔ span words ≤ width := by
  have hnil : Proper ([] : List (List α)) := by
    rintro word ⟨⟩
  rw [length_fill hwidth hnil hwords, Nat.add_eq_right]
  cases words with
  | nil => exact iff_of_true rfl (Nat.zero_le _)
  | cons word words =>
    have hpos := List.length_pos_iff.mpr (hwords word List.mem_cons_self)
    have hspan : span (word :: words) =
        word.length + ((words.map List.length).map (· + 1)).sum := by
      rw [span, List.map_map]
      rfl
    rw [List.map_cons, extent_cons, hspan]
    show (extent width (place width (0, 0) word.length) _).1 = 0 ↔ _
    rw [place_zero]
    by_cases hshort : word.length ≤ width
    · have hq : (word.length - 1) / width = 0 := Nat.div_eq_of_lt (by omega)
      rw [hq, Nat.mul_zero, Nat.sub_zero, Nat.zero_add]
      exact extent_fst_eq_zero_iff hpos hshort _
    · have hq : 0 < (word.length - 1) / width := Nat.div_pos (by omega) hwidth
      have hfst := hq.trans_le ((Nat.le_add_left _ 0).trans (fst_le_extent width
        (0 + (word.length - 1) / width, word.length - width * ((word.length - 1) / width))
        (words.map List.length)))
      refine iff_of_false hfst.ne' ?_
      omega

end Filling
