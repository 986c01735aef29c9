import Mathlib.Algebra.Order.BigOperators.Group.List
import Mathlib.Algebra.Order.Group.Nat
import Mathlib.Data.List.Induction
import TgMessenger.Pane.Wrap

/-!
# The rows of the pane

Which messages the pane shows (`hooks/register.tsx`, `ui.render`), and the rows they are drawn in.
The rows of a message are counted at one width and drawn at another; of a newest message that has
too many of them the last lines are shown.
-/

namespace TgMessenger.Pane.Rows

open Filling Wrap

/-- A message of the list. -/
structure TgMessage where
  id : Option ℤ
  out : Bool
  system : Bool
  text : Units
  reactions : List Units

/-- What the pane is drawn from, besides the messages. -/
structure View where
  bodyColumns : Option ℤ
  viewportColumns : Option ℤ
  bodyRows : Option ℤ
  /-- The view is the chat. -/
  chat : Bool
  draftLen : ℕ
  /-- `cfg.ready`. -/
  ready : Bool

namespace View

variable (v : View)

def cols : ℤ := v.bodyColumns.getD (v.viewportColumns.getD 80) - 2

/-- `Math.ceil` of the quotient is minus the floor of minus the quotient. -/
def composerRows : ℤ :=
  if v.chat then min 5 (max 1 (-(-(v.draftLen + 1) / max 4 (v.cols - 4)))) else 0

def fixed : ℤ := if v.chat then 5 else 3

def listRows : Option ℤ :=
  match v.bodyRows with
  | none => none
  | some rows => if rows = 0 then none else some (max 1 (rows - v.fixed - v.composerRows))

def budget : ℕ := (max 1 (v.listRows.getD 35 - 2)).toNat

end View

/-- The arrow or dot in front of a message. -/
def mark (m : TgMessage) : UInt16 := if m.out then 0x2192 else if m.system then 0xb7 else 0x2190

/-- The text with what stands in front of it. -/
def marked (m : TgMessage) : Units := mark m :: space :: m.text

/-- The row of the reactions. -/
def reactionRows (m : TgMessage) : ℕ := if m.reactions = [] then 0 else 1

/-- The width that the rows are counted at. -/
def countWidth (v : View) : ℤ := max 2 (v.cols - 4)

/-- `perRows`. -/
def perRows (v : View) (m : TgMessage) : ℕ :=
  ((wrapText (marked m) (countWidth v)).splitOn newline).length + reactionRows m

/-- `lines.slice(-n)`; `-0` is `0`. -/
def sliceEnd {α : Type*} (n : ℕ) (lines : List α) : List α :=
  if n = 0 then lines else lines.drop (lines.length - n)

/-- The last lines of a message that has too many. -/
def tailLines (v : View) (m : TgMessage) : List Units :=
  sliceEnd (v.budget - 1) ((wrapText m.text (countWidth v)).splitOn newline)

/-- The newest message with its last lines. -/
def withTail (v : View) (m : TgMessage) : TgMessage :=
  { m with text := [newline].intercalate (tailLines v m) }

/-- The loop over the messages, from the newest on; `newest` tells that none was looked at. -/
def layoutLoop (v : View) : Bool → List TgMessage → List TgMessage → ℕ → List TgMessage
  | _, [], shown, _ => shown
  | newest, m :: older, shown, used =>
    if used < v.budget then
      if v.budget < used + perRows v m then
        if newest then withTail v m :: shown else shown
      else layoutLoop v false older (m :: shown) (used + perRows v m)
    else shown

/-- The messages that are shown. -/
def shownMessages (v : View) (list : List TgMessage) : List TgMessage :=
  layoutLoop v true list.reverse [] 0

/-- `padLines`. -/
def padLines (text : Units) (width : ℤ) : Units :=
  [newline].intercalate ((text.splitOn newline).map fun l ↦
    if l.length < width then l ++ List.replicate (width - l.length).toNat space else l)

def canReact (v : View) (m : TgMessage) : Bool := v.ready && !m.out && !m.system && m.id.isSome

/-- The width that a message is drawn at. -/
def drawWidth (v : View) (m : TgMessage) : ℤ := v.cols - if canReact v m then 4 else 0

/-- The text that is drawn. -/
def body (v : View) (m : TgMessage) : Units :=
  padLines (wrapText (marked m) (drawWidth v m)) (drawWidth v m)

/-- The rows that a message is drawn in. -/
def drawnRows (v : View) (m : TgMessage) : ℕ :=
  ((body v m).splitOn newline).length + reactionRows m

/-! ## The lines of a text -/

theorem one_le_budget (v : View) : 1 ≤ v.budget := by
  rw [View.budget]
  omega

/-- Padding makes no lines. -/
theorem length_padLines (text : Units) (width : ℤ) :
    ((padLines text width).splitOn newline).length = (text.splitOn newline).length := by
  rw [padLines, List.splitOn_intercalate, List.length_map]
  · intro line hline hmem
    obtain ⟨l, hl, rfl⟩ := List.mem_map.mp hline
    have hnone := Lines.notMem_of_mem_splitOn hl
    split_ifs at hmem
    · rcases List.mem_append.mp hmem with hmem | hmem
      · exact hnone hmem
      · exact absurd (List.eq_of_mem_replicate hmem) (by decide)
    · exact hnone hmem
  · intro hnil
    exact List.splitOn_ne_nil newline text (List.map_eq_nil_iff.mp hnil)

/-- How many lines a paragraph has. -/
def paraRows (w : ℕ) (para : Units) : ℕ := (paraLines w para).length

theorem wrapWidth_pos (width : ℤ) : 0 < wrapWidth width :=
  Nat.lt_of_lt_of_le Nat.two_pos (two_le_wrapWidth width)

theorem length_wrapText (text : Units) (width : ℤ) :
    ((wrapText text width).splitOn newline).length =
      ((text.splitOn newline).map (paraRows (wrapWidth width))).sum := by
  rw [splitOn_wrapText, wrapLines_eq, List.length_flatMap]
  congr 2
  funext para
  exact List.length_map ..

theorem paraRows_mono {w w' : ℕ} (hw : 0 < w) (hle : w ≤ w') (para : Units) :
    paraRows w' para ≤ paraRows w para :=
  length_fill_mono hw hle (proper_wordsOf space para)

/-- A wider text has no more lines. -/
theorem length_wrapText_mono {width width' : ℤ} (hle : wrapWidth width ≤ wrapWidth width')
    (text : Units) :
    ((wrapText text width').splitOn newline).length ≤
      ((wrapText text width).splitOn newline).length := by
  rw [length_wrapText, length_wrapText]
  induction text.splitOn newline with
  | nil => exact le_rfl
  | cons para paras ih =>
    exact Nat.add_le_add (paraRows_mono (wrapWidth_pos width) hle para) ih

/-! ## The mark -/

theorem mark_cases (m : TgMessage) : mark m = 0x2192 ∨ mark m = 0xb7 ∨ mark m = 0x2190 := by
  rw [mark]
  split_ifs
  · exact .inl rfl
  · exact .inr (.inl rfl)
  · exact .inr (.inr rfl)

theorem mark_ne_space (m : TgMessage) : mark m ≠ space := by
  rcases mark_cases m with h | h | h <;> rw [h] <;> decide

theorem mark_ne_newline (m : TgMessage) : mark m ≠ newline := by
  rcases mark_cases m with h | h | h <;> rw [h] <;> decide

/-- The mark is the first word of the first paragraph. -/
theorem wordsOf_marked (m : TgMessage) (para : Units) :
    wordsOf space (mark m :: space :: para) = [mark m] :: wordsOf space para := by
  have hsplit : (mark m :: space :: para).splitOn space = [mark m] :: para.splitOn space := by
    have happend := @List.splitOn_append_cons_self_of_not_mem _ [mark m] _ _ space
      (by rw [List.mem_singleton]; exact (mark_ne_space m).symm) para
    exact happend
  rw [wordsOf, hsplit, List.filter_cons_of_pos (by simp)]
  rfl

theorem splitOn_marked (m : TgMessage) {first : Units} {rest : List Units}
    (h : m.text.splitOn newline = first :: rest) :
    (marked m).splitOn newline = (mark m :: space :: first) :: rest := by
  have hstart : newline ∉ [mark m, space] := by
    simp only [List.mem_cons, List.not_mem_nil, or_false, not_or]
    exact ⟨(mark_ne_newline m).symm, by decide⟩
  exact Lines.splitOn_append_of_notMem hstart h

/-- The mark makes at most one line more. -/
theorem paraRows_marked_le {w : ℕ} (hw : 0 < w) (m : TgMessage) (para : Units) :
    paraRows w (mark m :: space :: para) ≤ paraRows w para + 1 := by
  have hshort : [mark m].length ≤ w := hw
  rw [paraRows, paraLines, wordsOf_marked]
  exact length_fill_cons_le hw (List.cons_ne_nil _ _) hshort (proper_wordsOf space para)

theorem length_marked_le (m : TgMessage) (width : ℤ) :
    ((wrapText (marked m) width).splitOn newline).length ≤
      ((wrapText m.text width).splitOn newline).length + 1 := by
  obtain ⟨first, rest, hsplit⟩ := List.exists_cons_of_ne_nil (List.splitOn_ne_nil newline m.text)
  rw [length_wrapText, length_wrapText, splitOn_marked m hsplit, hsplit, List.map_cons,
    List.map_cons, List.sum_cons, List.sum_cons]
  have hfirst := paraRows_marked_le (wrapWidth_pos width) m first
  omega

/-! ## Lines that are wrapped again -/

section Again

variable {w w' : ℕ} (hw : 0 < w) (hle : w ≤ w') {para : Units} {line : List Units}

include hw hle

/-- A line of a wrapped text is one line of a wider one. -/
theorem paraRows_line (h : line ∈ paraLines w para) :
    paraRows w' ([space].intercalate line) = 1 := by
  rw [paraRows, paraLines, wordsOf_of_mem_paraLines hw h,
    length_fill_eq_one_iff (by omega) (proper_of_mem_paraLines hw h)]
  exact (span_le_of_mem_paraLines hw h).trans hle

/-- With the mark in front of it the line is one line if there is room for two more, and two lines
otherwise. -/
theorem paraRows_marked_line (m : TgMessage) (hw' : 2 ≤ w') (h : line ∈ paraLines w para) :
    paraRows w' (mark m :: space :: [space].intercalate line) =
      if ([space].intercalate line).length + 2 ≤ w' then 1 else 2 := by
  have hproper := proper_of_mem_paraLines hw h
  have hmark : Proper ([mark m] :: line) := hproper.cons (List.cons_ne_nil _ _)
  have hmost := paraRows_marked_le (by omega : 0 < w') m ([space].intercalate line)
  rw [paraRows_line hw hle h] at hmost
  have hleast : 0 < paraRows w' (mark m :: space :: [space].intercalate line) :=
    List.length_pos_iff.mpr (fill_ne_nil _ _)
  have hone : paraRows w' (mark m :: space :: [space].intercalate line) = 1 ↔
      ([space].intercalate line).length + 2 ≤ w' := by
    rw [paraRows, paraLines, wordsOf_marked, wordsOf_of_mem_paraLines hw h,
      length_fill_eq_one_iff (by omega) hmark, length_intercalate]
    cases line with
    | nil => exact iff_of_true (by simpa [span] using (by omega : 1 ≤ w')) hw'
    | cons word words =>
      simp only [span, List.length_singleton, List.map_cons, List.sum_cons]
      omega
  split_ifs with hroom
  · exact hone.mpr hroom
  · have hne := mt hone.mp hroom
    omega

end Again

/-! ## Rows that are counted and rows that are drawn -/

variable {v : View} {m : TgMessage}

theorem wrapWidth_countWidth (v : View) : wrapWidth (countWidth v) = wrapWidth (v.cols - 4) := by
  rw [wrapWidth, wrapWidth, countWidth]
  omega

theorem wrapWidth_count_le_draw (v : View) (m : TgMessage) :
    wrapWidth (countWidth v) ≤ wrapWidth (drawWidth v m) := by
  rw [wrapWidth_countWidth]
  apply wrapWidth_mono
  rw [drawWidth]
  split_ifs <;> omega

/-- A message is drawn in no more rows than are counted. -/
theorem drawnRows_le_perRows (v : View) (m : TgMessage) : drawnRows v m ≤ perRows v m := by
  rw [drawnRows, perRows, body, length_padLines]
  exact Nat.add_le_add_right (length_wrapText_mono (wrapWidth_count_le_draw v m) (marked m)) _

theorem perRows_le (v : View) (m : TgMessage) :
    perRows v m ≤
      ((wrapText m.text (countWidth v)).splitOn newline).length + 1 + reactionRows m :=
  Nat.add_le_add_right (length_marked_le m (countWidth v)) _

/-! ## The tail of a message -/

/-- The lines of a message as they are counted, without its mark. -/
def textLines (v : View) (m : TgMessage) : List Units :=
  (wrapText m.text (countWidth v)).splitOn newline

theorem sliceEnd_suffix {α : Type*} (n : ℕ) (lines : List α) : sliceEnd n lines <:+ lines := by
  rw [sliceEnd]
  split_ifs
  · exact List.suffix_refl lines
  · exact List.drop_suffix ..

theorem length_sliceEnd {α : Type*} (n : ℕ) (lines : List α) :
    (sliceEnd n lines).length = if n = 0 then lines.length else min n lines.length := by
  rw [sliceEnd]
  split_ifs
  · rfl
  · rw [List.length_drop]
    omega

theorem textLines_ne_nil (v : View) (m : TgMessage) : textLines v m ≠ [] :=
  List.splitOn_ne_nil newline _

theorem tailLines_ne_nil (v : View) (m : TgMessage) : tailLines v m ≠ [] := by
  have hpos := List.length_pos_iff.mpr (textLines_ne_nil v m)
  have hlength := length_sliceEnd (v.budget - 1) (textLines v m)
  rw [← List.length_pos_iff, tailLines, ← textLines, hlength]
  split_ifs <;> omega

/-- Every line of the tail is that of a paragraph. -/
theorem exists_of_mem_tailLines {line : Units} (h : line ∈ tailLines v m) :
    newline ∉ line ∧ ∃ para words, words ∈ paraLines (wrapWidth (countWidth v)) para ∧
      line = [space].intercalate words := by
  have hmem : line ∈ textLines v m := (sliceEnd_suffix _ _).subset h
  refine ⟨Lines.notMem_of_mem_splitOn hmem, ?_⟩
  rw [textLines, splitOn_wrapText, wrapLines_eq] at hmem
  obtain ⟨para, -, hline⟩ := List.mem_flatMap.mp hmem
  obtain ⟨words, hwords, rfl⟩ := List.mem_map.mp hline
  exact ⟨para, words, hwords, rfl⟩

/-- There are two columns left for the mark on the first line of the tail. -/
def MarkFits (v : View) (m : TgMessage) : Prop :=
  ∀ line ∈ (tailLines v m).head?, line.length + 2 ≤ wrapWidth (drawWidth v m)

instance (v : View) (m : TgMessage) : Decidable (MarkFits v m) :=
  inferInstanceAs (Decidable (∀ line ∈ (tailLines v m).head?, _ ≤ _))

/-- The tail is drawn in as many rows as it has lines, and in one more if there is no room for the
mark. -/
theorem drawnRows_withTail (v : View) (m : TgMessage) :
    drawnRows v (withTail v m) =
      (tailLines v m).length + (if MarkFits v m then 0 else 1) + reactionRows m := by
  have hw := wrapWidth_pos (countWidth v)
  have hle := wrapWidth_count_le_draw v m
  obtain ⟨first, rest, htail⟩ := List.exists_cons_of_ne_nil (tailLines_ne_nil v m)
  have hsplit : (withTail v m).text.splitOn newline = first :: rest := by
    rw [← htail]
    apply List.splitOn_intercalate
    · exact fun line hline ↦ (exists_of_mem_tailLines hline).1
    · exact tailLines_ne_nil v m
  have hdraw : drawWidth v (withTail v m) = drawWidth v m := rfl
  have hmark : mark (withTail v m) = mark m := rfl
  have hrest : (rest.map (paraRows (wrapWidth (drawWidth v m)))).sum = rest.length := by
    have hone : ∀ line ∈ rest, paraRows (wrapWidth (drawWidth v m)) line = 1 := by
      intro line hline
      have hmem : line ∈ tailLines v m := htail ▸ List.mem_cons_of_mem _ hline
      obtain ⟨-, para, words, hwords, rfl⟩ := exists_of_mem_tailLines hmem
      exact paraRows_line hw hle hwords
    rw [List.map_congr_left hone, List.map_const', List.sum_replicate_nat, Nat.mul_one]
  obtain ⟨-, para, words, hwords, hfirst⟩ := exists_of_mem_tailLines
    (htail ▸ List.mem_cons_self : first ∈ tailLines v m)
  have hrow := paraRows_marked_line hw hle m (two_le_wrapWidth (drawWidth v m)) hwords
  have hfits : MarkFits v m ↔ first.length + 2 ≤ wrapWidth (drawWidth v m) := by
    rw [MarkFits, htail]
    simp
  rw [drawnRows, body, length_padLines, length_wrapText, splitOn_marked _ hsplit, hdraw, hmark,
    List.map_cons, List.sum_cons, hrest, hfirst, hrow, htail, List.length_cons, ← hfirst]
  show _ + reactionRows m = _
  by_cases hroom : first.length + 2 ≤ wrapWidth (drawWidth v m)
  · rw [if_pos hroom, if_pos (hfits.mpr hroom)]
    omega
  · rw [if_neg hroom, if_neg (mt hfits.mp hroom)]
    omega

/-! ## The layout -/

/-- The two are one message, but perhaps for the text. -/
def Same (m m' : TgMessage) : Prop := { m with text := m'.text } = m'

/-- The rows of the newest message fit: as they are counted; or those of its tail do, as the row of
the reactions or the mark takes none more. -/
def Fits (v : View) (m : TgMessage) : Prop :=
  perRows v m ≤ v.budget ∨
    2 ≤ v.budget ∧ (m.reactions = [] ∨ MarkFits v m) ∨
      v.budget = 1 ∧ m.reactions = [] ∧ (textLines v m).length = 1 ∧ MarkFits v m

/-- What the layout is to keep to.  Only of the newest message the text may be cut. -/
structure Laid (v : View) (list shown : List TgMessage) : Prop where
  rows : (shown.map (drawnRows v)).sum ≤ v.budget
  newest : ∀ m ∈ list.getLast?, ∃ m' ∈ shown.getLast?, Same m' m
  suffix : ∃ before after, list = before ++ after ∧ List.Forall₂ Same shown after ∧
    shown.dropLast = after.dropLast

/-- After the newest the loop goes on as long as there is room. -/
theorem layoutLoop_older (v : View) (older shown : List TgMessage) {used : ℕ}
    (hused : used ≤ v.budget) :
    ∃ k, layoutLoop v false older shown used = (older.take k).reverse ++ shown ∧
      used + ((older.take k).map (perRows v)).sum ≤ v.budget := by
  induction older generalizing shown used with
  | nil => exact ⟨0, rfl, hused⟩
  | cons m older ih =>
    rw [layoutLoop]
    split_ifs with hroom hfull hnewest
    · cases hnewest
    · exact ⟨0, rfl, hused⟩
    · obtain ⟨k, hk, hsum⟩ := ih (m :: shown) (Nat.le_of_not_lt hfull)
      refine ⟨k + 1, ?_, ?_⟩
      · rw [hk, List.take_succ_cons, List.reverse_cons, List.append_assoc]
        rfl
      · rw [List.take_succ_cons, List.map_cons, List.sum_cons]
        omega
    · exact ⟨0, rfl, hused⟩

theorem same_refl (m : TgMessage) : Same m m := rfl

theorem forall₂_same_refl (l : List TgMessage) : List.Forall₂ Same l l :=
  List.forall₂_same.mpr fun m _ ↦ same_refl m

/-- Either the messages shown are the last of the list, in as many rows as are counted at most; or
the newest alone is shown, with its tail. -/
theorem shownMessages_cases (v : View) (older : List TgMessage) (m : TgMessage) :
    (perRows v m ≤ v.budget ∧ ∃ before after, older = before ++ after ∧
      shownMessages v (older ++ [m]) = after ++ [m] ∧
        ((after ++ [m]).map (perRows v)).sum ≤ v.budget) ∨
      (v.budget < perRows v m ∧ shownMessages v (older ++ [m]) = [withTail v m]) := by
  have hbudget : 0 < v.budget := one_le_budget v
  rw [shownMessages, List.reverse_append, List.reverse_singleton, List.singleton_append, layoutLoop,
    if_pos hbudget, Nat.zero_add, if_pos rfl]
  split_ifs with hfull
  · exact .inr ⟨hfull, rfl⟩
  · obtain ⟨k, hk, hsum⟩ := layoutLoop_older v older.reverse [m] (Nat.le_of_not_lt hfull)
    refine .inl ⟨Nat.le_of_not_lt hfull, (older.reverse.drop k).reverse,
      (older.reverse.take k).reverse, ?_, hk, ?_⟩
    · rw [← List.reverse_append, List.take_append_drop, List.reverse_reverse]
    · rw [List.map_append, List.sum_append, List.map_reverse, List.sum_reverse]
      simpa [Nat.add_comm] using hsum

theorem reactionRows_eq_zero_iff : reactionRows m = 0 ↔ m.reactions = [] := by
  rw [reactionRows]
  split_ifs with hnone
  · exact iff_of_true rfl hnone
  · exact iff_of_false (by decide) hnone

theorem reactionRows_le_one (m : TgMessage) : reactionRows m ≤ 1 := by
  rw [reactionRows]
  split_ifs <;> omega

/-- With a budget of one row the tail is the whole text, as `slice(-0)` cuts nothing. -/
theorem length_tailLines_of_one (h : v.budget = 1) :
    (tailLines v m).length = (textLines v m).length := by
  have hlength := length_sliceEnd (v.budget - 1) (textLines v m)
  rwa [if_pos (by omega)] at hlength

/-- Of a message that has too many rows all lines but one of the budget are left. -/
theorem length_tailLines_of_two_le (h : v.budget < perRows v m) (htwo : 2 ≤ v.budget) :
    (tailLines v m).length = v.budget - 1 := by
  have hlength := length_sliceEnd (v.budget - 1) (textLines v m)
  rw [if_neg (by omega)] at hlength
  have hrows : perRows v m ≤ (textLines v m).length + 1 + reactionRows m := perRows_le v m
  have hreact := reactionRows_le_one m
  rw [tailLines, ← textLines, hlength]
  omega

/-- The rows of a newest message that has too many fit exactly when its tail leaves room. -/
theorem drawnRows_withTail_le_iff (h : v.budget < perRows v m) :
    drawnRows v (withTail v m) ≤ v.budget ↔ Fits v m := by
  have hreact := reactionRows_le_one m
  have hpos := List.length_pos_iff.mpr (textLines_ne_nil v m)
  rw [drawnRows_withTail, Fits, or_iff_right (Nat.not_le_of_lt h), ← reactionRows_eq_zero_iff]
  rcases Nat.eq_or_lt_of_le (one_le_budget v) with hone | htwo
  · rw [length_tailLines_of_one hone.symm]
    by_cases hfits : MarkFits v m
    · rw [if_pos hfits]
      simp only [hfits, and_true]
      omega
    · rw [if_neg hfits]
      simp only [hfits, and_false, or_false]
      omega
  · rw [length_tailLines_of_two_le h htwo]
    by_cases hfits : MarkFits v m
    · rw [if_pos hfits]
      simp only [hfits, or_true, and_true]
      omega
    · rw [if_neg hfits]
      simp only [hfits, or_false, and_false]
      omega

/-- The rows drawn fit exactly when those of the newest message do; that message is always shown,
and what is shown is always an end of the list. -/
theorem laid_iff (v : View) (list : List TgMessage) :
    Laid v list (shownMessages v list) ↔ ∀ m ∈ list.getLast?, Fits v m := by
  cases list using List.reverseRecOn with
  | nil =>
    refine iff_of_true ⟨Nat.zero_le _, ?_, ⟨[], [], rfl, .nil, rfl⟩⟩ ?_
    · rintro m ⟨⟩
    · rintro m ⟨⟩
  | append_singleton older m =>
    have hlast : ∀ {m'}, m' ∈ (older ++ [m]).getLast? ↔ m' = m := by
      intro m'
      rw [List.getLast?_concat, Option.mem_def, Option.some.injEq, eq_comm]
    rcases shownMessages_cases v older m with
      ⟨hfits, before, after, rfl, hshown, hsum⟩ | ⟨hfull, hshown⟩
    · refine iff_of_true ?_ ?_
      · rw [hshown]
        constructor
        case rows =>
          refine le_trans (List.sum_le_sum ?_) hsum
          exact fun m' _ ↦ drawnRows_le_perRows v m'
        case newest =>
          intro m' hm'
          rw [hlast.mp hm', List.getLast?_concat]
          exact ⟨m, rfl, same_refl m⟩
        case suffix =>
          exact ⟨before, after ++ [m], List.append_assoc .., forall₂_same_refl _, rfl⟩
      · intro m' hm'
        rw [hlast.mp hm']
        exact .inl hfits
    · have hrows : (([withTail v m]).map (drawnRows v)).sum = drawnRows v (withTail v m) :=
        Nat.add_zero _
      rw [hshown]
      constructor
      · intro hlaid m' hm'
        rw [hlast.mp hm', ← drawnRows_withTail_le_iff hfull, ← hrows]
        exact hlaid.rows
      · intro hfits
        constructor
        case rows =>
          rw [hrows, drawnRows_withTail_le_iff hfull]
          exact hfits m (hlast.mpr rfl)
        case newest =>
          intro m' hm'
          rw [hlast.mp hm']
          exact ⟨withTail v m, rfl, rfl⟩
        case suffix =>
          exact ⟨older, [m], rfl, .cons rfl .nil, rfl⟩

/-- A pane with a body of eight rows: the budget is one row. -/
def lowPane : View := ⟨some 40, none, some 8, true, 0, true⟩

/-- A message of two lines. -/
def twoLines : TgMessage := ⟨some 1, false, false, [0x61, newline, 0x62], []⟩

/-- All of the message is shown, in two rows. -/
theorem two_rows_of_one : ¬ Laid lowPane [twoLines] (shownMessages lowPane [twoLines]) := by
  intro h
  have hrows := h.rows
  revert hrows
  decide +kernel

end TgMessenger.Pane.Rows
