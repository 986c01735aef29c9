import TgMessenger.Data.Filling
import TgMessenger.Data.Lines
import Mathlib.Data.List.Forall2
import Mathlib.Order.Lattice

/-!
# Wrapped texts

`wrapText` of the pane (`hooks/register.tsx`): the lines of a text, each filled with words up to a
width.  A text is a string of JavaScript, whose length is in units of UTF-16.
-/

namespace TgMessenger.Pane.Wrap

open Filling

/-- A string, by its code units. -/
abbrev Units := List UInt16

def space : UInt16 := 0x20

def newline : UInt16 := 0x0a

/-- One piece, after the lines that are done and the line that is begun. -/
def put (w : ℕ) (s : List Units × Units) (piece : Units) : List Units × Units :=
  if s.2 = [] then (s.1, piece)
  else if s.2.length + 1 + piece.length ≤ w then (s.1, s.2 ++ space :: piece)
  else (s.1 ++ [s.2], piece)

/-- The loop over the pieces of a word, from an index on; the first argument bounds the number of
iterations. -/
def putWord (w : ℕ) (word : Units) : ℕ → ℕ → List Units × Units → List Units × Units
  | 0, _, s => s
  | n + 1, k, s =>
    if k < word.length then putWord w word n (k + w) (put w s ((word.drop k).take w)) else s

/-- The loop over the words of a paragraph. -/
def putPara (w : ℕ) (out : List Units) (para : Units) : List Units :=
  let s := (para.splitOn space).foldl (fun s word ↦ putWord w word word.length 0 s) (out, [])
  s.1 ++ [s.2]

/-- `Math.max(2, width)`. -/
def wrapWidth (width : ℤ) : ℕ := (max 2 width).toNat

/-- The lines of `wrapText`. -/
def wrapLines (text : Units) (width : ℤ) : List Units :=
  (text.splitOn newline).foldl (putPara (wrapWidth width)) []

/-- `wrapText`. -/
def wrapText (text : Units) (width : ℤ) : Units := [newline].intercalate (wrapLines text width)

theorem two_le_wrapWidth (width : ℤ) : 2 ≤ wrapWidth width := by
  rw [wrapWidth]
  omega

theorem wrapWidth_mono {width width' : ℤ} (h : width ≤ width') :
    wrapWidth width ≤ wrapWidth width' := by
  rw [wrapWidth, wrapWidth]
  omega

/-! ## The loops -/

/-- The lines of a paragraph. -/
def paraLines (w : ℕ) (para : Units) : List (List Units) :=
  fill w [] ((wordsOf space para).flatMap (pieces w))

/-- The loop over a word puts its pieces one after the other. -/
theorem putWord_eq (w : ℕ) (word : Units) (n k : ℕ) (s : List Units × Units) :
    putWord w word n k s = (cut w n (word.drop k)).foldl (put w) s := by
  induction n generalizing k s with
  | zero => rfl
  | succ n ih =>
    rw [putWord]
    split_ifs with hk
    · obtain ⟨c, rest, hrest⟩ := List.exists_cons_of_length_pos
        (by rw [List.length_drop]; omega : 0 < (word.drop k).length)
      rw [ih, ← List.drop_drop, hrest, cut, List.foldl_cons]
    · rw [List.drop_eq_nil_of_le (Nat.le_of_not_lt hk)]
      rfl

/-- A line that is begun is empty when it has no words. -/
theorem intercalate_eq_nil_iff {line : List Units} (h : Proper line) :
    [space].intercalate line = [] ↔ line = [] := by
  rw [← List.length_eq_zero_iff, length_intercalate, h.span_eq_zero_iff]

/-- Putting pieces fills lines. -/
theorem foldl_put {w : ℕ} {line words : List Units} (hline : Proper line) (hwords : Proper words)
    (out : List Units) :
    (words.foldl (put w) (out, [space].intercalate line)).1 ++
        [(words.foldl (put w) (out, [space].intercalate line)).2] =
      out ++ (fill w line words).map [space].intercalate := by
  induction words generalizing out line with
  | nil => rfl
  | cons word words ih =>
    have hword : Proper [word] := .singleton (hwords word List.mem_cons_self)
    have hone : [space].intercalate [word] = word := List.intercalate_singleton
    rw [List.foldl_cons, put, fill]
    simp only [intercalate_eq_nil_iff hline, length_intercalate]
    split_ifs with hempty hroom
    · have hgo := ih hword hwords.tail out
      rw [hone] at hgo
      exact hgo
    · have hgo := ih (hline.append hword) hwords.tail out
      rw [intercalate_append_singleton space hempty] at hgo
      exact hgo
    · have hgo := ih hword hwords.tail (out ++ [[space].intercalate line])
      rw [hone] at hgo
      rw [hgo, List.append_assoc]
      rfl

theorem putPara_eq {w : ℕ} (hw : 0 < w) (out : List Units) (para : Units) :
    putPara w out para = out ++ (paraLines w para).map [space].intercalate := by
  have hfold : ∀ s : List Units × Units,
      (para.splitOn space).foldl (fun s word ↦ putWord w word word.length 0 s) s =
        ((para.splitOn space).flatMap (pieces w)).foldl (put w) s := by
    intro s
    rw [List.foldl_flatMap]
    congr 1
    funext s word
    rw [putWord_eq, List.drop_zero]
    rfl
  have hnil : Proper ([] : List Units) := by
    rintro word ⟨⟩
  rw [putPara, hfold, flatMap_pieces_splitOn]
  exact @foldl_put w [] _ hnil (proper_flatMap_pieces hw _) out

/-- The lines of a text are those of its paragraphs. -/
theorem wrapLines_eq (text : Units) (width : ℤ) :
    wrapLines text width = (text.splitOn newline).flatMap fun para ↦
      (paraLines (wrapWidth width) para).map [space].intercalate := by
  have hw : 0 < wrapWidth width := Nat.lt_of_lt_of_le Nat.two_pos (two_le_wrapWidth width)
  have hfold : ∀ (paras : List Units) (out : List Units),
      paras.foldl (putPara (wrapWidth width)) out = out ++ paras.flatMap fun para ↦
        (paraLines (wrapWidth width) para).map [space].intercalate := by
    intro paras
    induction paras with
    | nil => exact fun out ↦ (List.append_nil out).symm
    | cons para paras ih =>
      intro out
      rw [List.foldl_cons, ih, putPara_eq hw, List.append_assoc]
      rfl
  exact hfold _ []

/-! ## What is on the lines -/

/-- What is not white. -/
def letters (text : Units) : Units := text.filter fun c ↦ c ≠ space ∧ c ≠ newline

/-- Lines that a paragraph is wrapped to. -/
structure Wraps (w : ℕ) (para : Units) (lines : List Units) : Prop where
  ne_nil : lines ≠ []
  /-- The words of the lines are those of the paragraph, each in parts; one that has room on a line
  is not split. -/
  words : ∃ parts : List (List Units), lines.flatMap (wordsOf space) = parts.flatten ∧
    List.Forall₂ (fun word parts ↦ parts.flatten = word ∧ (word.length ≤ w → parts = [word]))
      (wordsOf space para) parts

section ParaLines

variable {w : ℕ} {para : Units}

theorem proper_of_mem_paraLines (hw : 0 < w) {line : List Units} (h : line ∈ paraLines w para) :
    Proper line := fun _ hword ↦
  proper_flatMap_pieces hw _ _ (mem_of_mem_fill h hword)

theorem span_le_of_mem_paraLines (hw : 0 < w) {line : List Units} (h : line ∈ paraLines w para) :
    span line ≤ w :=
  span_le_of_mem_fill (Nat.zero_le w) (fun _ hword ↦ length_le_of_mem_flatMap_pieces hw hword)
    line h

/-- The characters of the words of a line are some of those of the paragraph. -/
theorem mem_para_of_mem_paraLines (hw : 0 < w) {line : List Units} (h : line ∈ paraLines w para)
    {word : Units} (hword : word ∈ line) {c : UInt16} (hc : c ∈ word) : c ∈ para ∧ c ≠ space := by
  obtain ⟨whole, hwhole, hpiece⟩ := List.mem_flatMap.mp (mem_of_mem_fill h hword)
  refine mem_of_mem_wordsOf hwhole ?_
  rw [← flatten_pieces hw whole]
  exact List.mem_flatten.mpr ⟨word, hpiece, hc⟩

theorem wordsOf_of_mem_paraLines (hw : 0 < w) {line : List Units} (h : line ∈ paraLines w para) :
    wordsOf space ([space].intercalate line) = line := by
  refine wordsOf_intercalate space (proper_of_mem_paraLines hw h) ?_
  intro word hword hspace
  exact (mem_para_of_mem_paraLines hw h hword hspace).2 rfl

theorem newline_notMem_paraLines (hw : 0 < w) (hpara : newline ∉ para) {line : List Units}
    (h : line ∈ paraLines w para) : newline ∉ [space].intercalate line := by
  intro hmem
  rcases mem_intercalate hmem with hspace | ⟨word, hword, hc⟩
  · exact absurd hspace (by decide)
  · exact hpara (mem_para_of_mem_paraLines hw h hword hc).1

theorem wraps_paraLines (hw : 0 < w) (para : Units) :
    Wraps w para ((paraLines w para).map [space].intercalate) := by
  constructor
  case ne_nil =>
    intro hnil
    exact fill_ne_nil _ _ (List.map_eq_nil_iff.mp hnil)
  case words =>
    refine ⟨(wordsOf space para).map (pieces w), ?_, ?_⟩
    · have hlines : ((paraLines w para).map [space].intercalate).flatMap (wordsOf space) =
          (paraLines w para).flatten := by
        rw [List.flatMap_map, List.flatten_eq_flatMap]
        exact List.flatMap_congr fun line hline ↦ wordsOf_of_mem_paraLines hw hline
      rw [hlines, paraLines, flatten_fill]
      exact List.flatMap_def
    · rw [List.forall₂_map_right_iff, List.forall₂_same]
      intro word hword
      refine ⟨flatten_pieces hw word, fun hle ↦ ?_⟩
      exact pieces_of_length_le hw (proper_wordsOf space para word hword) hle

end ParaLines

/-- The letters of the lines are those of the paragraph. -/
theorem Wraps.letters {w : ℕ} {para : Units} {lines : List Units} (h : Wraps w para lines) :
    lines.flatMap (List.filter (· ≠ space)) = para.filter (· ≠ space) := by
  obtain ⟨parts, hparts, hwords⟩ := h.words
  have hlines : lines.flatMap (List.filter (· ≠ space)) =
      (lines.flatMap (wordsOf space)).flatten := by
    rw [List.flatMap_def, List.flatMap_def, List.flatten_flatten, List.map_map]
    exact congrArg List.flatten (List.map_congr_left fun line _ ↦ (flatten_wordsOf line).symm)
  have hsame : parts.map List.flatten = wordsOf space para := by
    clear hparts
    generalize wordsOf space para = words at hwords
    induction hwords with
    | nil => rfl
    | cons hword _ ih => rw [List.map_cons, hword.1, ih]
  rw [hlines, hparts, ← flatten_wordsOf, ← hsame, List.flatten_flatten]

theorem letters_eq (text : Units) :
    letters text = (text.splitOn newline).flatMap (List.filter (· ≠ space)) := by
  have hfilter : letters text = (text.filter (· ≠ newline)).filter (· ≠ space) := by
    rw [letters, List.filter_filter]
    congr 1
    funext c
    rw [Bool.decide_and]
  rw [hfilter, ← @flatten_splitOn _ _ newline, List.filter_flatten]
  exact List.flatMap_def.symm

/-- The lines of a wrapped text. -/
theorem splitOn_wrapText (text : Units) (width : ℤ) :
    (wrapText text width).splitOn newline = wrapLines text width := by
  have hw : 0 < wrapWidth width := Nat.lt_of_lt_of_le Nat.two_pos (two_le_wrapWidth width)
  apply List.splitOn_intercalate
  · intro line hline
    rw [wrapLines_eq] at hline
    obtain ⟨para, hpara, hline⟩ := List.mem_flatMap.mp hline
    obtain ⟨words, hwords, rfl⟩ := List.mem_map.mp hline
    exact newline_notMem_paraLines hw (Lines.notMem_of_mem_splitOn hpara) hwords
  · rw [wrapLines_eq]
    intro hnil
    obtain ⟨para, hpara⟩ := List.exists_mem_of_ne_nil _ (List.splitOn_ne_nil newline text)
    exact (wraps_paraLines hw para).ne_nil (List.flatMap_eq_nil_iff.mp hnil para hpara)

/-- Wrapping loses nothing but white space and keeps to the width: no line is longer, each
paragraph has lines of its own with its words in their order, and a word is split only if it is
longer than a line. -/
theorem wrapText_faithful (text : Units) (width : ℤ) :
    (∀ line ∈ (wrapText text width).splitOn newline, (line.length : ℤ) ≤ max 2 width) ∧
      letters (wrapText text width) = letters text ∧
      ∃ groups : List (List Units), (wrapText text width).splitOn newline = groups.flatten ∧
        List.Forall₂ (Wraps (wrapWidth width)) (text.splitOn newline) groups := by
  have hw : 0 < wrapWidth width := Nat.lt_of_lt_of_le Nat.two_pos (two_le_wrapWidth width)
  refine ⟨?_, ?_, ?_⟩
  · intro line hline
    rw [splitOn_wrapText, wrapLines_eq] at hline
    obtain ⟨para, -, hline⟩ := List.mem_flatMap.mp hline
    obtain ⟨words, hwords, rfl⟩ := List.mem_map.mp hline
    have hspan := span_le_of_mem_paraLines hw hwords
    rw [length_intercalate]
    rw [wrapWidth] at hspan
    omega
  · rw [letters_eq, splitOn_wrapText, wrapLines_eq, List.flatMap_assoc, letters_eq]
    exact List.flatMap_congr fun para _ ↦ (wraps_paraLines hw para).letters
  · refine ⟨(text.splitOn newline).map fun para ↦
      (paraLines (wrapWidth width) para).map [space].intercalate, ?_, ?_⟩
    · rw [splitOn_wrapText, wrapLines_eq]
      exact List.flatMap_def
    · rw [List.forall₂_map_right_iff, List.forall₂_same]
      exact fun para _ ↦ wraps_paraLines hw para

end TgMessenger.Pane.Wrap
