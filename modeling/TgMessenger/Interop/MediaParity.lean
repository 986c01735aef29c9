import TgMessenger.Pane.MediaCommand
import TgMessenger.Tui.Parsing

/-!
# The two media commands

The pane and the terminal interface each have a lexer for the composer's `@PATH [caption]`; the
pane's says that it reads quote for quote what the other does.  This file compares what the two
make of a text.
-/

namespace TgMessenger.Interop

open Quoting Quoting.Mode

/-- The characters that separate words for `shlex` only. -/
def isNewline (c : Char) : Bool := c == '\r' || c == '\n'

/-- The characters before which only the pane drops a backslash in double quotes. -/
def dropped (c : Char) : Bool := Shlex.keeps c && !Pane.keeps c

/-- A text without the characters at its ends that `strip` and `trim` both take off. -/
def stripBoth (l : List Char) : List Char :=
  (l.dropWhile fun c ↦ Pane.isTrimmed c && isSpace c).rdropWhile
    fun c ↦ Pane.isTrimmed c && isSpace c

/-- `strip` and `trim` leave the same: at neither end do they differ. -/
def SameCaption (l : List Char) : Prop :=
  ∀ c, (c ∈ (stripBoth l).head? ∨ c ∈ (stripBoth l).getLast?) → Pane.isTrimmed c = isSpace c

/-- A text that the two read alike, with its first word `w` and the text `tail` after that. -/
structure Plain (rest w tail : List Char) : Prop where
  /-- It is not of spaces alone. -/
  text : rest.all isSpace = false
  /-- No newline stands in the path outside quotes. -/
  newline : meets bare isNewline bare w = false
  /-- No backslash in double quotes in the path is dropped by the pane only. -/
  escape : meets doubleEscaped dropped bare w = false
  /-- The quotes of the caption are closed. -/
  quotes : IsBalanced tail
  /-- The caption has none of the characters that only one of the two strips at its ends. -/
  caption : SameCaption tail

/-- The first word names no file. -/
def Unnamed (w : List Char) : Prop := w = [] ∨ ¬ IsBalanced w ∨ hollow w = true

/-- The texts of which the two make the same. -/
def Parity : List Char → Prop
  | '@' :: rest =>
    Unnamed (word Pane.isSeparator bare (rest.dropWhile Pane.isSeparator)).1 ∨
      Plain rest (word Pane.isSeparator bare (rest.dropWhile Pane.isSeparator)).1
        (word Pane.isSeparator bare (rest.dropWhile Pane.isSeparator)).2
  | _ => True

theorem whitespace_eq (c : Char) :
    Shlex.whitespace c = (Pane.isSeparator c || isNewline c) := by
  rw [Shlex.whitespace, Pane.isSeparator, isNewline, Bool.or_assoc]

theorem whitespace_of_isSeparator {c : Char} (h : Pane.isSeparator c = true) :
    Shlex.whitespace c = true := by
  rw [whitespace_eq, h, Bool.true_or]

theorem whitespace_of_isNewline {c : Char} (h : isNewline c = true) :
    Shlex.whitespace c = true := by
  rw [whitespace_eq, h, Bool.or_true]

theorem keeps_of_keeps (c : Char) (h : Pane.keeps c = true) : Shlex.keeps c = true := by
  rw [Shlex.keeps, Bool.and_eq_true, bne_iff_ne, bne_iff_ne]
  constructor
  · rintro rfl
    cases h
  · rintro rfl
    cases h

/-- A newline outside quotes stands for itself. -/
theorem emit_of_isNewline {keeps : Char → Bool} {c : Char} (h : isNewline c = true) :
    bare.emit keeps c = [c] := by
  rw [isNewline, Bool.or_eq_true, beq_iff_eq, beq_iff_eq] at h
  rcases h with rfl | rfl <;> rfl

theorem next_of_isNewline {c : Char} (h : isNewline c = true) : bare.next c = bare :=
  Shlex.next_of_whitespace (whitespace_of_isNewline h)

section Word

variable {rest w tail : List Char}

theorem dropWhile_whitespace (rest : List Char) :
    rest.dropWhile Shlex.whitespace =
      (rest.dropWhile Pane.isSeparator).dropWhile Shlex.whitespace :=
  (dropWhile_dropWhile_of_le (fun _ ↦ whitespace_of_isSeparator) rest).symm

/-- A text is its first word and what comes after that. -/
theorem word_append
    (hword : word Pane.isSeparator bare (rest.dropWhile Pane.isSeparator) = (w, tail)) :
    (rest.dropWhile Pane.isSeparator = w ∧ tail = []) ∨
      ∃ c, rest.dropWhile Pane.isSeparator = w ++ c :: tail ∧ bare.after w = bare ∧
        Pane.isSeparator c = true := by
  have hcases := word_cases Pane.isSeparator bare (rest.dropWhile Pane.isSeparator)
  rw [hword] at hcases
  exact hcases

/-- Without newlines the two lexers find the same first word. -/
theorem word_whitespace
    (hword : word Pane.isSeparator bare (rest.dropWhile Pane.isSeparator) = (w, tail))
    (hne : w ≠ []) (hnewline : meets bare isNewline bare w = false) :
    word Shlex.whitespace bare (rest.dropWhile Shlex.whitespace) = (w, tail) := by
  have hblank : meets bare Pane.isSeparator bare w = false := by
    have hnot := not_meets_word Pane.isSeparator bare (rest.dropWhile Pane.isSeparator)
    rwa [hword] at hnot
  have hnone : meets bare Shlex.whitespace bare w = false := by
    rw [funext whitespace_eq, meets_or, hblank, hnewline, Bool.or_self]
  have hstart : rest.dropWhile Shlex.whitespace = rest.dropWhile Pane.isSeparator := by
    rw [dropWhile_whitespace]
    obtain ⟨c, w, rfl⟩ := List.exists_cons_of_ne_nil hne
    have hc : ¬ Shlex.whitespace c = true := by
      intro hspace
      rw [meets, Bool.or_eq_false_iff] at hnone
      simp [hspace] at hnone
    rcases word_append hword with ⟨hrest, -⟩ | ⟨d, hrest, -, -⟩
    · rw [hrest, List.dropWhile_cons_of_neg hc]
    · rw [hrest, List.cons_append, List.dropWhile_cons_of_neg hc]
  rw [hstart, word_congr (fun _ ↦ whitespace_of_isSeparator), hword]
  rw [hword]
  exact hnone

/-- The quotes of a text are closed when those of its first word and of the rest are. -/
theorem isBalanced_iff
    (hword : word Pane.isSeparator bare (rest.dropWhile Pane.isSeparator) = (w, tail)) :
    IsBalanced rest ↔ IsBalanced w ∧ IsBalanced tail := by
  rw [IsBalanced, ← after_dropWhile (fun _ ↦ Pane.next_of_isSeparator),
    after_word Pane.isSeparator (fun _ ↦ Pane.next_of_isSeparator), hword]
  exact Iff.rfl

end Word

/-! ## Where the two differ -/

section Differ

variable {rest w tail : List Char}

/-- What the pane strips of a caption is what the terminal interface does. -/
theorem trim_eq_stripChars_iff (l : List Char) :
    Pane.trim l = stripChars l ↔ SameCaption l :=
  strip_eq_strip_iff l

/-- A quote or a backslash. -/
def isMark (c : Char) : Bool := c == '\'' || c == '"' || c == '\\'

theorem isMark_of_isTrimmed (c : Char) (h : Pane.isTrimmed c = true) : isMark c = false := by
  rw [Bool.eq_false_iff, isMark]
  intro hmark
  simp only [Bool.or_eq_true, beq_iff_eq] at hmark
  rcases hmark with (rfl | rfl) | rfl
  all_goals
    revert h
    decide

theorem isMark_of_isSpace (c : Char) (h : isSpace c = true) : isMark c = false := by
  rw [Bool.eq_false_iff, isMark]
  intro hmark
  simp only [Bool.or_eq_true, beq_iff_eq] at hmark
  rcases hmark with (rfl | rfl) | rfl
  all_goals
    revert h
    decide

/-- The captions differ when there is a quote or a backslash in the one that is not in the
other. -/
theorem caption_ne {l r : List Char} (h : r.countP isMark < l.countP isMark) :
    nonEmpty (Pane.trim l) ≠ nonEmpty (stripChars r) := by
  intro heq
  have hcount := congrArg (List.countP isMark) (nonEmpty_injective heq)
  rw [Pane.trim, stripChars, countP_strip _ isMark_of_isTrimmed,
    countP_strip _ isMark_of_isSpace] at hcount
  omega

/-- The paths differ when more newlines are in the one. -/
theorem path_ne {l r : List Char}
    (h : (contents Pane.keeps bare r).countP isNewline <
      (contents Pane.keeps bare l).countP isNewline) :
    contents Pane.keeps bare l ≠ contents Shlex.keeps bare r := by
  intro heq
  have hcount := congrArg (List.countP isNewline) heq
  have hsame : (contents Shlex.keeps bare r).countP isNewline =
      (contents Pane.keeps bare r).countP isNewline := countP_contents rfl bare r
  omega

/-- A newline outside quotes begins the word the pane reads, and nothing but separators is in
it: the other lexer takes its path from the caption. -/
theorem differ_of_newlines {v tail' w' : List Char} {n : Char} (hn : isNewline n = true)
    (hword : word Shlex.whitespace bare (tail.dropWhile Shlex.whitespace) = (w', tail'))
    (hne : w' ≠ [])
    (hpath : contents Pane.keeps bare (n :: v) = contents Shlex.keeps bare w') :
    nonEmpty (Pane.trim tail) ≠ nonEmpty (stripChars tail') := by
  apply caption_ne
  cases hdrop : tail.dropWhile Shlex.whitespace with
  | nil =>
    rw [hdrop] at hword
    exact absurd (congrArg Prod.fst hword).symm hne
  | cons c t =>
    have hc : ¬ Shlex.whitespace c = true := by
      have hhead := List.head?_dropWhile_not Shlex.whitespace tail
      rw [hdrop] at hhead
      exact Bool.eq_false_iff.mp hhead
    rw [hdrop, word, if_neg fun h ↦ hc h.2] at hword
    obtain ⟨rfl, rfl⟩ := Prod.mk.inj hword
    have hmark : isMark c = true := by
      by_contra hnot
      have hemit : bare.emit Shlex.keeps c = [c] := by
        refine if_neg ?_
        simpa [isMark, and_assoc] using hnot
      rw [contents, contents, emit_of_isNewline hn, hemit] at hpath
      obtain ⟨rfl, -⟩ := List.cons.inj hpath
      exact hc (whitespace_of_isNewline hn)
    calc (word Shlex.whitespace (bare.next c) t).2.countP isMark
      _ ≤ t.countP isMark := (word_snd_suffix _ _ t).sublist.countP_le
      _ < (c :: t).countP isMark := by
        rw [List.countP_cons_of_pos hmark]
        exact Nat.lt_succ_self _
      _ ≤ tail.countP isMark := by
        rw [← hdrop]
        exact (List.dropWhile_sublist _).countP_le

/-- A newline outside quotes in the word the pane reads. -/
theorem differ_of_newline
    (hword : word Pane.isSeparator bare (rest.dropWhile Pane.isSeparator) = (w, tail))
    (hbalanced : IsBalanced w) (hnewline : meets bare isNewline bare w = true)
    {w' tail' : List Char}
    (hword' : word Shlex.whitespace bare (rest.dropWhile Shlex.whitespace) = (w', tail'))
    (hne' : w' ≠ []) (hpath : contents Pane.keeps bare w = contents Shlex.keeps bare w') :
    nonEmpty (Pane.trim tail) ≠ nonEmpty (stripChars tail') := by
  -- The word up to its first newline is `u`.
  obtain ⟨u, n, v, rfl, hu, hn, hnone⟩ := exists_of_meets hnewline
  have hspace := whitespace_of_isNewline hn
  have hv : bare.after v = bare := by
    rw [IsBalanced, after_append, hu, after_cons, next_of_isNewline hn] at hbalanced
    exact hbalanced
  have hcount : (contents Pane.keeps bare (u ++ n :: v)).countP isNewline =
      (contents Pane.keeps bare u).countP isNewline +
        ((contents Pane.keeps bare v).countP isNewline + 1) := by
    rw [contents_append, hu, contents, emit_of_isNewline hn, next_of_isNewline hn,
      List.countP_append, List.singleton_append, List.countP_cons_of_pos hn]
  have hblank : meets bare Pane.isSeparator bare (u ++ n :: v) = false := by
    have hnot := not_meets_word Pane.isSeparator bare (rest.dropWhile Pane.isSeparator)
    rwa [hword] at hnot
  rw [meets_append, Bool.or_eq_false_iff] at hblank
  have hnoSpace : meets bare Shlex.whitespace bare u = false := by
    rw [funext whitespace_eq, meets_or, hblank.1, hnone, Bool.or_self]
  obtain ⟨after, hrest, hafter⟩ : ∃ after,
      rest.dropWhile Pane.isSeparator = (u ++ n :: v) ++ after ∧
      (after = [] ∧ tail = [] ∨ ∃ c, after = c :: tail ∧ Pane.isSeparator c = true) := by
    rcases word_append hword with ⟨hrest, htail⟩ | ⟨c, hrest, -, hc⟩
    · exact ⟨[], by rw [hrest, List.append_nil], .inl ⟨rfl, htail⟩⟩
    · exact ⟨c :: tail, hrest, .inr ⟨c, rfl, hc⟩⟩
  rw [dropWhile_whitespace, hrest, List.append_assoc, List.cons_append] at hword'
  cases u with
  | cons c u =>
    -- The other lexer stops there.
    have hc : ¬ Shlex.whitespace c = true := by
      intro h
      rw [meets, Bool.or_eq_false_iff] at hnoSpace
      simp [h] at hnoSpace
    rw [List.cons_append, List.dropWhile_cons_of_neg hc, ← List.cons_append,
      word_append_cons hnoSpace hu hspace] at hword'
    obtain ⟨rfl, rfl⟩ := Prod.mk.inj hword'
    refine absurd hpath (path_ne ?_)
    omega
  | nil =>
    rw [List.nil_append, List.dropWhile_cons_of_pos hspace, List.dropWhile_append] at hword'
    rw [List.nil_append] at hcount hpath
    split_ifs at hword' with hempty
    · rcases hafter with ⟨rfl, rfl⟩ | ⟨c, rfl, hc⟩
      · exact absurd (congrArg Prod.fst hword').symm hne'
      · rw [List.dropWhile_cons_of_pos (whitespace_of_isSeparator hc)] at hword'
        exact differ_of_newlines hn hword' hne' hpath
    · -- The other lexer reads what comes after the newlines.
      have hfirst : w' = (word Shlex.whitespace bare (v.dropWhile Shlex.whitespace)).1 := by
        have hdrop : bare.after (v.dropWhile Shlex.whitespace) = bare := by
          rw [after_dropWhile (fun _ ↦ Shlex.next_of_whitespace), hv]
        rcases hafter with ⟨rfl, -⟩ | ⟨c, rfl, hc⟩
        · rw [List.append_nil] at hword'
          rw [hword']
        · rw [← word_fst_append_cons hdrop (whitespace_of_isSeparator hc), hword']
      refine absurd hpath (path_ne ?_)
      have hle : (contents Pane.keeps bare w').countP isNewline ≤
          (contents Pane.keeps bare v).countP isNewline := by
        rw [hfirst]
        exact (countP_contents_word_le _ _ _ _ _).trans
          (countP_contents_dropWhile_le _ _ (fun _ ↦ Shlex.next_of_whitespace) v)
      rw [hcount]
      omega

end Differ

/-! ## What the two make of a text -/

/-- A word that stands for nothing has no newline outside quotes. -/
theorem not_meets_newline {w : List Char} (hbalanced : IsBalanced w) (hhollow : hollow w = true) :
    meets bare isNewline bare w = false := by
  rw [Bool.eq_false_iff]
  intro hmeets
  obtain ⟨u, n, v, rfl, hu, hn, -⟩ := exists_of_meets hmeets
  have hnil : contents Pane.keeps bare (u ++ n :: v) = [] :=
    (contents_eq_nil_iff hbalanced).mpr hhollow
  rw [contents_append, hu, contents, emit_of_isNewline hn] at hnil
  exact List.cons_ne_nil _ _ (List.append_eq_nil_iff.mp hnil).2

/-- Where the pane finds no file, the terminal interface finds none. -/
theorem parseMediaCommand_of_unnamed {rest w tail : List Char}
    (hword : word Pane.isSeparator bare (rest.dropWhile Pane.isSeparator) = (w, tail))
    (h : Unnamed w) : Tui.parseMediaCommand ('@' :: rest) = none := by
  by_cases hbad : rest.all isSpace = true ∨ ¬ IsBalanced rest
  · exact Tui.parseMediaCommand_eq_none hbad
  · obtain ⟨hspace, hquotes⟩ := not_or.mp hbad
    rw [not_not] at hquotes
    by_cases hne : w = []
    · have hdrop : rest.dropWhile Pane.isSeparator = [] := by
        by_contra hdrop
        have hword' := word_dropWhile_ne_nil hdrop
        rw [hword] at hword'
        exact hword' hne
      apply Tui.parseMediaCommand_of_dropWhile_nil
      rw [dropWhile_whitespace, hdrop]
      rfl
    · have hbalanced : IsBalanced w := ((isBalanced_iff hword).mp hquotes).1
      have hhollow : hollow w = true := by
        rcases h with hnil | hnot | hhollow
        · exact absurd hnil hne
        · exact absurd hbalanced hnot
        · exact hhollow
      rw [Tui.parseMediaCommand_of_word
        (word_whitespace hword hne (not_meets_newline hbalanced hhollow)) hne
        (Bool.eq_false_iff.mpr hspace) hquotes]
      exact if_pos ((contents_eq_nil_iff hbalanced).mpr hhollow)

/-- The pane and the terminal interface make the same of a text exactly when it names no file, or
is plain. -/
theorem parseMediaCommand_eq_iff (text : List Char) :
    Pane.parseMediaCommand text = Tui.parseMediaCommand text ↔ Parity text := by
  by_cases hstart : text.head? = some '@'
  · obtain ⟨rest, rfl⟩ : ∃ rest, text = '@' :: rest := by
      cases text with
      | nil => cases hstart
      | cons c rest =>
        obtain rfl := Option.some.inj hstart
        exact ⟨rest, rfl⟩
    rw [Parity]
    obtain ⟨w, tail, hword⟩ : ∃ w tail,
        word Pane.isSeparator bare (rest.dropWhile Pane.isSeparator) = (w, tail) := ⟨_, _, rfl⟩
    rw [hword]
    dsimp only
    by_cases hunnamed : Unnamed w
    · refine iff_of_true ?_ (.inl hunnamed)
      rw [Pane.parseMediaCommand_eq_none hword hunnamed,
        parseMediaCommand_of_unnamed hword hunnamed]
    · rw [or_iff_right hunnamed]
      obtain ⟨hne, hbalanced, hhollow⟩ : w ≠ [] ∧ IsBalanced w ∧ hollow w = false := by
        rw [Unnamed, not_or, not_or, not_not, Bool.not_eq_true] at hunnamed
        exact hunnamed
      have hpath : contents Shlex.keeps bare w ≠ [] := by
        intro hnil
        rw [(contents_eq_nil_iff hbalanced).mp hnil] at hhollow
        cases hhollow
      have hlength := contents_eq_or_length_lt keeps_of_keeps bare w
      rw [Pane.parseMediaCommand_of_word hword hne hbalanced hhollow]
      constructor
      · intro heq
        obtain ⟨hspace, hquotes, w', tail', hword', hne', hpath', hcaption⟩ :=
          Tui.exists_word_of_parseMediaCommand heq.symm
        have hnewline : meets bare isNewline bare w = false := by
          rw [Bool.eq_false_iff]
          intro hmeets
          exact differ_of_newline hword hbalanced hmeets hword' hne' hpath'.symm hcaption.symm
        obtain ⟨rfl, rfl⟩ :=
          Prod.mk.inj (hword'.symm.trans (word_whitespace hword hne hnewline))
        rcases hlength with ⟨hescape, -⟩ | ⟨-, hlt⟩
        · refine ⟨hspace, hnewline, hescape, ((isBalanced_iff hword).mp hquotes).2, ?_⟩
          exact (trim_eq_stripChars_iff _).mp (nonEmpty_injective hcaption.symm)
        · rw [hpath'] at hlt
          exact absurd hlt (Nat.lt_irrefl _)
      · rintro ⟨hspace, hnewline, hescape, hquotes, hcaption⟩
        rw [Tui.parseMediaCommand_of_word (word_whitespace hword hne hnewline) hne hspace
          ((isBalanced_iff hword).mpr ⟨hbalanced, hquotes⟩), if_neg hpath,
          (trim_eq_stripChars_iff _).mpr hcaption]
        rcases hlength with ⟨-, hsame⟩ | ⟨hmeets, -⟩
        · rw [hsame]
        · cases hescape.symm.trans hmeets
  · rw [Pane.parseMediaCommand_of_ne hstart, Tui.parseMediaCommand_of_ne hstart]
    refine iff_of_true rfl ?_
    rw [Parity.eq_def]
    split
    · exact absurd rfl hstart
    · trivial

/-- An apostrophe in a caption. -/
theorem parseMediaCommand_apostrophe :
    Pane.parseMediaCommand "@a.jpg it's".toList = some ("a.jpg".toList, some "it's".toList) ∧
      Tui.parseMediaCommand "@a.jpg it's".toList = none := by
  decide +kernel

end TgMessenger.Interop
