import TgMessenger.Data.Text

/-!
# Quoting

The quoting grammar of a shell: single quotes, double quotes, and a backslash that escapes outside
quotes and in double quotes.  Where a character stands in it does not depend on what it is taken
for; lexers differ in which characters separate words, and in which backslashes in double quotes
they keep.
-/

namespace Quoting

/-- Where the next character stands. -/
inductive Mode where
  | bare | single | double | escaped | doubleEscaped
deriving DecidableEq

namespace Mode

/-- Where the character after `c` stands. -/
def next : Mode → Char → Mode
  | bare, c =>
    if c = '\'' then single
    else if c = '"' then double
    else if c = '\\' then escaped
    else bare
  | single, c => if c = '\'' then bare else single
  | double, c => if c = '"' then bare else if c = '\\' then doubleEscaped else double
  | escaped, _ => bare
  | doubleEscaped, _ => double

/-- Where the character after a text stands. -/
def after (q : Mode) (l : List Char) : Mode := l.foldl next q

@[simp] theorem after_nil (q : Mode) : q.after [] = q := rfl

@[simp] theorem after_cons (q : Mode) (c : Char) (l : List Char) :
    q.after (c :: l) = (q.next c).after l := rfl

theorem after_append (q : Mode) (l r : List Char) : q.after (l ++ r) = (q.after l).after r :=
  List.foldl_append

/-- What a character stands for; `keeps` says before which characters in double quotes a
backslash is kept. -/
def emit (keeps : Char → Bool) : Mode → Char → List Char
  | bare, c => if c = '\'' ∨ c = '"' ∨ c = '\\' then [] else [c]
  | single, c => if c = '\'' then [] else [c]
  | double, c => if c = '"' ∨ c = '\\' then [] else [c]
  | escaped, c => [c]
  | doubleEscaped, c => if keeps c then ['\\', c] else [c]

end Mode

open Mode

/-- The text from a mode on is quoted properly. -/
def IsBalanced (l : List Char) : Prop := bare.after l = bare

instance (l : List Char) : Decidable (IsBalanced l) := inferInstanceAs (Decidable (_ = _))

/-- What a text stands for. -/
def contents (keeps : Char → Bool) : Mode → List Char → List Char
  | _, [] => []
  | q, c :: l => q.emit keeps c ++ contents keeps (q.next c) l

/-- A character that satisfies `p` stands in mode `here`. -/
def meets (here : Mode) (p : Char → Bool) : Mode → List Char → Bool
  | _, [] => false
  | q, c :: l => (decide (q = here) && p c) || meets here p (q.next c) l

/-- The text up to the first separator outside quotes, and the text after it. -/
def word (sep : Char → Bool) : Mode → List Char → List Char × List Char
  | _, [] => ([], [])
  | q, c :: l =>
    if q = bare ∧ sep c = true then ([], l)
    else (c :: (word sep (q.next c) l).1, (word sep (q.next c) l).2)

/-- A text of empty quotes. -/
def hollow : List Char → Bool
  | [] => true
  | [_] => false
  | a :: b :: l => (decide (a = b) && (decide (a = '\'') || decide (a = '"'))) && hollow l

section Contents

variable {keeps keeps' p : Char → Bool} {q here : Mode} {l r : List Char} {c : Char}

theorem contents_append (keeps : Char → Bool) (q : Mode) (l r : List Char) :
    contents keeps q (l ++ r) = contents keeps q l ++ contents keeps (q.after l) r := by
  induction l generalizing q with
  | nil => rfl
  | cons c l ih => rw [List.cons_append, contents, contents, ih, List.append_assoc, after_cons]

theorem meets_append (here : Mode) (p : Char → Bool) (q : Mode) (l r : List Char) :
    meets here p q (l ++ r) = (meets here p q l || meets here p (q.after l) r) := by
  induction l generalizing q with
  | nil => rfl
  | cons c l ih => rw [List.cons_append, meets, meets, ih, Bool.or_assoc, after_cons]

theorem meets_or (here : Mode) (p r : Char → Bool) (q : Mode) (l : List Char) :
    meets here (fun c ↦ p c || r c) q l = (meets here p q l || meets here r q l) := by
  induction l generalizing q with
  | nil => rfl
  | cons c l ih =>
    rw [meets, meets, meets, ih, Bool.and_or_distrib_left]
    ac_rfl

/-- The first character that is met. -/
theorem exists_of_meets (h : meets here p q l = true) :
    ∃ u c v, l = u ++ c :: v ∧ q.after u = here ∧ p c = true ∧ meets here p q u = false := by
  induction l generalizing q with
  | nil => cases h
  | cons c l ih =>
    by_cases hc : (decide (q = here) && p c) = true
    · rw [Bool.and_eq_true, decide_eq_true_eq] at hc
      exact ⟨[], c, l, rfl, hc.1, hc.2, rfl⟩
    · rw [meets, Bool.eq_false_iff.mpr hc, Bool.false_or] at h
      obtain ⟨u, c', v, rfl, hafter, hc', hu⟩ := ih h
      refine ⟨c :: u, c', v, rfl, hafter, hc', ?_⟩
      rw [meets, Bool.eq_false_iff.mpr hc, Bool.false_or, hu]

/-- The characters that are neither quotes nor backslashes are counted alike. -/
theorem countP_emit (keeps keeps' : Char → Bool) (hp : p '\\' = false) (q : Mode) (c : Char) :
    (q.emit keeps c).countP p = (q.emit keeps' c).countP p := by
  cases q with
  | doubleEscaped =>
    rw [emit, emit]
    split_ifs <;> simp [List.countP_cons, hp]
  | bare => rfl
  | single => rfl
  | double => rfl
  | escaped => rfl

theorem countP_contents (hp : p '\\' = false) (q : Mode) (l : List Char) :
    (contents keeps q l).countP p = (contents keeps' q l).countP p := by
  induction l generalizing q with
  | nil => rfl
  | cons c l ih =>
    rw [contents, contents, List.countP_append, List.countP_append, ih,
      countP_emit keeps keeps' hp]

/-- Keeping fewer backslashes. -/
theorem contents_eq_or_length_lt (hle : ∀ c, keeps c = true → keeps' c = true) (q : Mode)
    (l : List Char) :
    meets doubleEscaped (fun c ↦ keeps' c && !keeps c) q l = false ∧
        contents keeps q l = contents keeps' q l ∨
      meets doubleEscaped (fun c ↦ keeps' c && !keeps c) q l = true ∧
        (contents keeps q l).length < (contents keeps' q l).length := by
  induction l generalizing q with
  | nil => exact .inl ⟨rfl, rfl⟩
  | cons c l ih =>
    rw [contents, contents, meets]
    by_cases hc : q = doubleEscaped ∧ keeps' c = true ∧ keeps c = false
    · obtain ⟨rfl, hkeep, hdrop⟩ := hc
      refine .inr ⟨by simp [hkeep, hdrop], ?_⟩
      have hrest : (contents keeps (doubleEscaped.next c) l).length ≤
          (contents keeps' (doubleEscaped.next c) l).length := by
        rcases ih (doubleEscaped.next c) with ⟨-, heq⟩ | ⟨-, hlt⟩
        · rw [heq]
        · exact hlt.le
      rw [emit, emit, if_pos hkeep, if_neg (by simp [hdrop]), List.length_append,
        List.length_append]
      exact Nat.add_lt_add_of_lt_of_le (Nat.lt_succ_self 1) hrest
    · have hemit : q.emit keeps c = q.emit keeps' c := by
        cases q with
        | doubleEscaped =>
          rw [emit, emit]
          cases hkeep : keeps c with
          | true => rw [if_pos rfl, if_pos (hle c hkeep)]
          | false =>
            have hkeep' : ¬ keeps' c = true := fun h ↦ hc ⟨rfl, h, hkeep⟩
            rw [if_neg Bool.false_ne_true, if_neg hkeep']
        | bare => rfl
        | single => rfl
        | double => rfl
        | escaped => rfl
      have hnot : (decide (q = doubleEscaped) && (keeps' c && !keeps c)) = false := by
        rw [Bool.eq_false_iff]
        intro h
        simp only [Bool.and_eq_true, decide_eq_true_eq, Bool.not_eq_true'] at h
        exact hc h
      rw [hnot, Bool.false_or, hemit, List.append_cancel_left_eq, List.length_append,
        List.length_append, Nat.add_lt_add_iff_left]
      exact ih (q.next c)

/-- A text that is quoted properly stands for nothing exactly when it is of empty quotes. -/
theorem contents_eq_nil_iff (h : IsBalanced l) : contents keeps bare l = [] ↔ hollow l = true := by
  induction l using hollow.induct with
  | case1 => exact iff_of_true rfl rfl
  | case2 c =>
    rw [IsBalanced, after_cons, after_nil, next] at h
    rw [hollow, contents, contents, List.append_nil, emit]
    split_ifs at h with h₁ h₂ h₃
    rw [if_neg (by simp [h₁, h₂, h₃])]
    simp
  | case3 a b l ih =>
    rw [IsBalanced, after_cons, after_cons] at h
    rw [hollow, contents, contents, Bool.and_eq_true]
    by_cases ha : a = '\''
    · subst ha
      by_cases hb : b = '\''
      · subst hb
        simpa [emit, next] using ih h
      · simp [emit, next, hb, Ne.symm hb]
    · by_cases ha' : a = '"'
      · subst ha'
        by_cases hb : b = '"'
        · subst hb
          simpa [emit, next] using ih h
        · by_cases hb' : b = '\\'
          · subst hb'
            cases l with
            | nil => cases h
            | cons c l =>
              cases hkeeps : keeps c <;> simp [emit, next, contents, hkeeps]
          · simp [emit, next, hb, hb', Ne.symm hb]
      · by_cases ha'' : a = '\\'
        · subst ha''
          simp [emit, next]
        · simp [emit, ha, ha', ha'']

end Contents

/-! ## Words -/

section Words

variable {sep sep' : Char → Bool} {q : Mode} {l r : List Char} {c : Char}

/-- A word ends the text, or stands before a separator outside quotes. -/
theorem word_cases (sep : Char → Bool) (q : Mode) (l : List Char) :
    (l = (word sep q l).1 ∧ (word sep q l).2 = []) ∨
      ∃ c, l = (word sep q l).1 ++ c :: (word sep q l).2 ∧ q.after (word sep q l).1 = bare ∧
        sep c = true := by
  induction l generalizing q with
  | nil => exact .inl ⟨rfl, rfl⟩
  | cons c l ih =>
    rw [word]
    split_ifs with hc
    · exact .inr ⟨c, rfl, hc.1, hc.2⟩
    · rcases ih (q.next c) with ⟨hl, hrest⟩ | ⟨c', hl, hafter, hc'⟩
      · exact .inl ⟨congrArg (c :: ·) hl, hrest⟩
      · exact .inr ⟨c', congrArg (c :: ·) hl, hafter, hc'⟩

/-- Something is left out after a word. -/
theorem length_word_snd_lt (h : (word sep q l).1 ≠ []) : (word sep q l).2.length < l.length := by
  rcases word_cases sep q l with ⟨hl, hrest⟩ | ⟨c, hl, -, -⟩
  · rw [hrest, hl]
    exact List.length_pos_of_ne_nil h
  · rw [congrArg List.length hl, List.length_append, List.length_cons]
    omega

/-- A text that does not begin with a separator has a word. -/
theorem word_dropWhile_ne_nil (hne : l.dropWhile sep ≠ []) :
    (word sep bare (l.dropWhile sep)).1 ≠ [] := by
  induction l with
  | nil => exact absurd rfl hne
  | cons c l ih =>
    by_cases hc : sep c = true
    · rw [List.dropWhile_cons_of_pos hc] at hne ⊢
      exact ih hne
    · rw [List.dropWhile_cons_of_neg hc, word, if_neg fun h ↦ hc h.2]
      exact List.cons_ne_nil _ _

theorem word_snd_suffix (sep : Char → Bool) (q : Mode) (l : List Char) :
    (word sep q l).2 <:+ l := by
  rcases word_cases sep q l with ⟨-, hrest⟩ | ⟨c, hl, -, -⟩
  · rw [hrest]
    exact List.nil_suffix
  · rw [congrArg (List.IsSuffix _) hl]
    exact (List.suffix_cons c _).trans (List.suffix_append _ _)

/-- The first word stands for no more than the text. -/
theorem countP_contents_word_le (keeps p : Char → Bool) (sep : Char → Bool) (q : Mode)
    (l : List Char) :
    (contents keeps q (word sep q l).1).countP p ≤ (contents keeps q l).countP p := by
  rcases word_cases sep q l with ⟨hl, -⟩ | ⟨c, hl, -, -⟩
  · rw [← hl]
  · rw [congrArg (contents keeps q) hl, contents_append, List.countP_append]
    exact Nat.le_add_right _ _

/-- Nor does what is left when separators before a text are. -/
theorem countP_contents_dropWhile_le (keeps p : Char → Bool)
    (hsep : ∀ c, sep c = true → bare.next c = bare) (l : List Char) :
    (contents keeps bare (l.dropWhile sep)).countP p ≤ (contents keeps bare l).countP p := by
  induction l with
  | nil => exact Nat.le_refl _
  | cons c l ih =>
    by_cases hc : sep c = true
    · rw [List.dropWhile_cons_of_pos hc, contents, hsep c hc, List.countP_append]
      exact ih.trans (Nat.le_add_left _ _)
    · rw [List.dropWhile_cons_of_neg hc]

/-- No separator stands in a word outside quotes. -/
theorem not_meets_word (sep : Char → Bool) (q : Mode) (l : List Char) :
    meets bare sep q (word sep q l).1 = false := by
  induction l generalizing q with
  | nil => rfl
  | cons c l ih =>
    rw [word]
    split_ifs with hc
    · rfl
    · rw [meets, ih, Bool.or_false, Bool.eq_false_iff]
      intro h
      rw [Bool.and_eq_true, decide_eq_true_eq] at h
      exact hc h

/-- A text without separators outside quotes is a word. -/
theorem word_of_not_meets (h : meets bare sep q l = false) : word sep q l = (l, []) := by
  induction l generalizing q with
  | nil => rfl
  | cons c l ih =>
    rw [meets, Bool.or_eq_false_iff] at h
    have hc : ¬ (q = bare ∧ sep c = true) := by
      rintro ⟨hq, hc⟩
      simp [hq, hc] at h
    rw [word, if_neg hc, ih h.2]

/-- A word before a separator. -/
theorem word_append_cons (hl : meets bare sep q l = false) (hafter : q.after l = bare)
    (hc : sep c = true) : word sep q (l ++ c :: r) = (l, r) := by
  induction l generalizing q with
  | nil => rw [List.nil_append, word, if_pos ⟨hafter, hc⟩]
  | cons d l ih =>
    rw [meets, Bool.or_eq_false_iff] at hl
    have hd : ¬ (q = bare ∧ sep d = true) := by
      rintro ⟨hq, hd⟩
      simp [hq, hd] at hl
    rw [List.cons_append, word, if_neg hd, ih hl.2 hafter]

/-- A word of a longer text is one of the text, when that ends before a separator outside
quotes. -/
theorem word_fst_append_cons (hafter : q.after l = bare) (hc : sep c = true) :
    (word sep q (l ++ c :: r)).1 = (word sep q l).1 := by
  induction l generalizing q with
  | nil => rw [List.nil_append, word, word, if_pos ⟨hafter, hc⟩]
  | cons d l ih =>
    rw [List.cons_append, word, word]
    split_ifs
    · rfl
    · exact congrArg (d :: ·) (ih hafter)

/-- More separators that do not stand in a word outside quotes. -/
theorem word_congr (hle : ∀ c, sep c = true → sep' c = true)
    (h : meets bare sep' q (word sep q l).1 = false) : word sep' q l = word sep q l := by
  rcases word_cases sep q l with ⟨hl, hrest⟩ | ⟨c, hl, hafter, hc⟩
  · refine Prod.ext ?_ ?_
    · rw [congrArg (word sep' q) hl, word_of_not_meets h]
    · rw [congrArg (word sep' q) hl, word_of_not_meets h, hrest]
  · rw [congrArg (word sep' q) hl, word_append_cons h hafter (hle c hc)]

/-- A text is quoted properly when its first word and the rest are. -/
theorem after_word (sep : Char → Bool) (hsep : ∀ c, sep c = true → bare.next c = bare) (q : Mode)
    (l : List Char) :
    q.after l = bare ↔ q.after (word sep q l).1 = bare ∧ IsBalanced (word sep q l).2 := by
  rcases word_cases sep q l with ⟨hl, hrest⟩ | ⟨c, hl, hafter, hc⟩
  · rw [hrest, ← hl]
    exact (and_iff_left rfl).symm
  · rw [congrArg q.after hl, after_append, hafter, after_cons, hsep c hc]
    exact (and_iff_right rfl).symm

/-- Separators before a text do not matter to the quoting. -/
theorem after_dropWhile (hsep : ∀ c, sep c = true → bare.next c = bare) (l : List Char) :
    bare.after (l.dropWhile sep) = bare.after l := by
  induction l with
  | nil => rfl
  | cons c l ih =>
    by_cases hc : sep c = true
    · rw [List.dropWhile_cons_of_pos hc, ih, after_cons, hsep c hc]
    · rw [List.dropWhile_cons_of_neg hc]

end Words

/-! ## Lexers -/

section Lexers

variable {σ ρ : Type} (read : σ → List Char → ρ) (ok : List Char → List Char → ρ)
  (Fails : ρ → Prop) (Started : List Char → Mode → σ → List Char → Prop) {sep keeps : Char → Bool}

/-- A lexer that reads one character after the other reads the contents of the first word.
`Started s q st out` says that it is in the state `st` with the text `s` to come, which stands in
mode `q`, and that what it has read stands for `out`. -/
theorem read_of_started
    (hend : ∀ q st out, Started [] q st out →
      (q = bare → read st [] = ok out []) ∧ (q ≠ bare → Fails (read st [])))
    (hsep : ∀ c l st out, Started (c :: l) bare st out → sep c = true →
      read st (c :: l) = ok out l)
    (hstep : ∀ c l q st out, Started (c :: l) q st out → ¬ (q = bare ∧ sep c = true) →
      ∃ st', Started l (q.next c) st' (out ++ q.emit keeps c) ∧ read st (c :: l) = read st' l)
    {l : List Char} {q : Mode} {st : σ} {out : List Char} (h : Started l q st out) :
    (q.after (word sep q l).1 = bare →
      read st l = ok (out ++ contents keeps q (word sep q l).1) (word sep q l).2) ∧
    (q.after (word sep q l).1 ≠ bare → Fails (read st l)) := by
  induction l generalizing q st out with
  | nil =>
    rw [word, after_nil, contents, List.append_nil]
    exact hend q st out h
  | cons c l ih =>
    by_cases hc : q = bare ∧ sep c = true
    · obtain ⟨rfl, hc⟩ := hc
      rw [word, if_pos ⟨rfl, hc⟩, after_nil, contents, List.append_nil]
      exact ⟨fun _ ↦ hsep c l st out h hc, fun hne ↦ absurd rfl hne⟩
    · obtain ⟨st', hstarted, hread⟩ := hstep c l q st out h hc
      rw [word, if_neg hc, hread]
      dsimp only
      rw [after_cons, contents, ← List.append_assoc]
      exact ih hstarted

end Lexers

end Quoting
