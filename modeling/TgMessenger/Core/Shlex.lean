import TgMessenger.Data.Quoting

/-!
# `shlex`

Python's lexer for shell-like texts, in POSIX mode, with `whitespace_split` and without comments,
as `shlex.split` sets it up.
-/

namespace TgMessenger.Shlex

open Quoting Quoting.Mode

/-- `shlex.whitespace`. -/
def whitespace (c : Char) : Bool := c == ' ' || c == '\t' || c == '\r' || c == '\n'

/-- `shlex.state`. -/
inductive State where
  | /-- `' '`. -/
    space
  | /-- `'a'`. -/
    word
  | quote (mark : Char)
  | /-- `'\\'`, with the `escapedstate` to go back to: a quote, or `'a'`. -/
    escape (mark : Option Char)

/-- The token that is returned; `None` when there is none. -/
def result (token : List Char) (quoted : Bool) : Option (List Char) :=
  if quoted = false ∧ token = [] then none else some token

/-- `shlex.read_token`: the token, and what is left of the text, or the text of the
`ValueError`. -/
def readToken : State → List Char → Bool → List Char →
    Except String (Option (List Char) × List Char)
  | .space, token, quoted, [] => .ok (result token quoted, [])
  | .word, token, quoted, [] => .ok (result token quoted, [])
  | .quote _, _, _, [] => .error "No closing quotation"
  | .escape _, _, _, [] => .error "No escaped character"
  | .space, token, quoted, c :: s =>
    if whitespace c then
      if token ≠ [] ∨ quoted then .ok (result token quoted, s)
      else readToken .space token quoted s
    else if c = '\\' then readToken (.escape none) token quoted s
    else if c = '\'' ∨ c = '"' then readToken (.quote c) token quoted s
    else readToken .word [c] quoted s
  | .quote mark, token, _, c :: s =>
    if c = mark then readToken .word token true s
    else if c = '\\' ∧ mark = '"' then readToken (.escape (some mark)) token true s
    else readToken (.quote mark) (token ++ [c]) true s
  | .escape none, token, quoted, c :: s => readToken .word (token ++ [c]) quoted s
  | .escape (some mark), token, quoted, c :: s =>
    -- In quotes only the quote and the escape character are escaped.
    if c ≠ '\\' ∧ c ≠ mark then readToken (.quote mark) (token ++ ['\\', c]) quoted s
    else readToken (.quote mark) (token ++ [c]) quoted s
  | .word, token, quoted, c :: s =>
    if whitespace c then
      if token ≠ [] ∨ quoted then .ok (result token quoted, s)
      else readToken .space token quoted s
    else if c = '\'' ∨ c = '"' then readToken (.quote c) token quoted s
    else if c = '\\' then readToken (.escape none) token quoted s
    else readToken .word (token ++ [c]) quoted s

/-- `shlex.get_token`.  The lexer begins every token in the state `' '`, and stays at the end of
its text. -/
def getToken (s : List Char) : Except String (Option (List Char) × List Char) :=
  readToken .space [] false s

/-- `list(lex)`: at most `n` tokens. -/
def tokens : ℕ → List Char → Except String (List (List Char))
  | 0, _ => .ok []
  | n + 1, s =>
    match getToken s with
    | .error e => .error e
    | .ok (none, _) => .ok []
    | .ok (some token, rest) =>
      match tokens n rest with
      | .error e => .error e
      | .ok later => .ok (token :: later)

/-- `shlex.split`. -/
def split (s : List Char) : Except String (List (List Char)) := tokens (s.length + 1) s

/-! ## Tokens and words -/

/-- Before which characters in double quotes a backslash is kept. -/
def keeps (c : Char) : Bool := c != '\\' && c != '"'

/-- Where the next character stands. -/
def State.mode : State → Mode
  | .space | .word => bare
  | .quote mark => if mark = '"' then double else single
  | .escape none => escaped
  | .escape (some _) => doubleEscaped

theorem next_of_whitespace {c : Char} (h : whitespace c = true) : bare.next c = bare := by
  simp only [whitespace, Bool.or_eq_true, beq_iff_eq] at h
  rcases h with ((rfl | rfl) | rfl) | rfl <;> rfl

/-- A token has begun. -/
inductive Started : State → List Char → Bool → Prop where
  | word {token : List Char} {quoted : Bool} (h : token ≠ [] ∨ quoted = true) :
    Started .word token quoted
  | single (token : List Char) (quoted : Bool) : Started (.quote '\'') token quoted
  | double (token : List Char) (quoted : Bool) : Started (.quote '"') token quoted
  | escaped (token : List Char) (quoted : Bool) : Started (.escape none) token quoted
  | doubleEscaped (token : List Char) (quoted : Bool) : Started (.escape (some '"')) token quoted

section Tokens

variable {st : State} {token : List Char} {quoted : Bool} {c : Char}

/-- One character of a token. -/
theorem Started.step (h : Started st token quoted)
    (hc : ¬ (st.mode = bare ∧ whitespace c = true)) :
    ∃ st' quoted', Started st' (token ++ st.mode.emit keeps c) quoted' ∧
      st'.mode = st.mode.next c ∧ ∀ s, readToken st token quoted (c :: s) =
        readToken st' (token ++ st.mode.emit keeps c) quoted' s := by
  cases h with
  | word hbegun =>
    have hc : ¬ whitespace c = true := fun hspace ↦ hc ⟨rfl, hspace⟩
    by_cases hquote : c = '\'' ∨ c = '"'
    · have hemit : State.word.mode.emit keeps c = [] := if_pos (hquote.imp_right .inl)
      rw [hemit, List.append_nil]
      rcases hquote with rfl | rfl
      · exact ⟨.quote '\'', quoted, .single .., rfl, fun s ↦ rfl⟩
      · exact ⟨.quote '"', quoted, .double .., rfl, fun s ↦ rfl⟩
    · by_cases hescape : c = '\\'
      · subst hescape
        refine ⟨.escape none, quoted, .escaped .., rfl, fun s ↦ ?_⟩
        rw [show State.word.mode.emit keeps '\\' = [] from rfl, List.append_nil]
        rfl
      · obtain ⟨hsingle, hdouble⟩ := not_or.mp hquote
        have hemit : State.word.mode.emit keeps c = [c] :=
          if_neg (by simp [hsingle, hdouble, hescape])
        refine ⟨.word, quoted, .word (.inl (by simp [hemit])), ?_, fun s ↦ ?_⟩
        · simp [State.mode, next, hsingle, hdouble, hescape]
        · rw [hemit, readToken, if_neg hc, if_neg hquote, if_neg hescape]
  | single =>
    by_cases hclose : c = '\''
    · subst hclose
      refine ⟨.word, true, .word (.inr rfl), rfl, fun s ↦ ?_⟩
      rw [show (State.quote '\'').mode.emit keeps '\'' = [] from rfl, List.append_nil]
      rfl
    · have hemit : (State.quote '\'').mode.emit keeps c = [c] := if_neg hclose
      refine ⟨.quote '\'', true, .single .., ?_, fun s ↦ ?_⟩
      · simp [State.mode, next, hclose]
      · rw [hemit, readToken, if_neg hclose, if_neg (by simp)]
  | double =>
    by_cases hclose : c = '"'
    · subst hclose
      refine ⟨.word, true, .word (.inr rfl), rfl, fun s ↦ ?_⟩
      rw [show (State.quote '"').mode.emit keeps '"' = [] from rfl, List.append_nil]
      rfl
    · by_cases hescape : c = '\\'
      · subst hescape
        refine ⟨.escape (some '"'), true, .doubleEscaped .., rfl, fun s ↦ ?_⟩
        rw [show (State.quote '"').mode.emit keeps '\\' = [] from rfl, List.append_nil]
        rfl
      · have hemit : (State.quote '"').mode.emit keeps c = [c] :=
          if_neg (by simp [hclose, hescape])
        refine ⟨.quote '"', true, .double .., ?_, fun s ↦ ?_⟩
        · simp [State.mode, next, hclose, hescape]
        · rw [hemit, readToken, if_neg hclose, if_neg (by simp [hescape])]
  | escaped => exact ⟨.word, quoted, .word (.inl (by simp [State.mode, emit])), rfl, fun s ↦ rfl⟩
  | doubleEscaped =>
    refine ⟨.quote '"', quoted, .double .., rfl, fun s ↦ ?_⟩
    rw [readToken, State.mode, emit, keeps]
    by_cases hkeep : c ≠ '\\' ∧ c ≠ '"'
    · rw [if_pos hkeep, if_pos (by simpa using hkeep)]
    · rw [if_neg hkeep, if_neg (by simpa using hkeep)]

/-- A token that has begun is returned. -/
theorem result_of_begun (h : token ≠ [] ∨ quoted = true) : result token quoted = some token := by
  rw [result, if_neg]
  rintro ⟨hquoted, hnil⟩
  rcases h with hne | htrue
  · exact hne hnil
  · cases hquoted.symm.trans htrue

/-- A token is the contents of its word. -/
theorem readToken_of_started (h : Started st token quoted) (l : List Char) :
    (st.mode.after (word whitespace st.mode l).1 = bare →
      readToken st token quoted l = .ok (some (token ++
        contents keeps st.mode (word whitespace st.mode l).1), (word whitespace st.mode l).2)) ∧
    (st.mode.after (word whitespace st.mode l).1 ≠ bare →
      ∃ e, readToken st token quoted l = .error e) := by
  refine @read_of_started (State × List Char × Bool) _ (fun s l ↦ readToken s.1 s.2.1 s.2.2 l)
    (fun token rest ↦ .ok (some token, rest)) (fun read ↦ ∃ e, read = .error e)
    (fun _ q s out ↦ s.1.mode = q ∧ s.2.1 = out ∧ Started s.1 s.2.1 s.2.2) whitespace keeps
    ?_ ?_ ?_ l st.mode (st, token, quoted) token ⟨rfl, rfl, h⟩
  · rintro q ⟨st, token, quoted⟩ out ⟨rfl, rfl, hstarted⟩
    dsimp only at hstarted ⊢
    cases hstarted with
    | word hbegun =>
      refine ⟨fun _ ↦ ?_, fun hne ↦ absurd rfl hne⟩
      rw [readToken, result_of_begun hbegun]
    | single => exact ⟨fun hbare ↦ absurd hbare (by decide), fun _ ↦ ⟨_, rfl⟩⟩
    | double => exact ⟨fun hbare ↦ absurd hbare (by decide), fun _ ↦ ⟨_, rfl⟩⟩
    | escaped => exact ⟨fun hbare ↦ absurd hbare (by decide), fun _ ↦ ⟨_, rfl⟩⟩
    | doubleEscaped => exact ⟨fun hbare ↦ absurd hbare (by decide), fun _ ↦ ⟨_, rfl⟩⟩
  · rintro c l ⟨st, token, quoted⟩ out ⟨hbare, rfl, hstarted⟩ hc
    dsimp only at hbare hstarted ⊢
    cases hstarted with
    | word hbegun => rw [readToken, if_pos hc, if_pos hbegun, result_of_begun hbegun]
    | single => cases hbare
    | double => cases hbare
    | escaped => cases hbare
    | doubleEscaped => cases hbare
  · rintro c l q ⟨st, token, quoted⟩ out ⟨rfl, rfl, hstarted⟩ hc
    obtain ⟨st', quoted', hstarted', hmode, hstep⟩ := hstarted.step hc
    exact ⟨(st', _, quoted'), ⟨hmode, rfl, hstarted'⟩, hstep l⟩

end Tokens

/-- The first character of a token. -/
theorem readToken_space {c : Char} (hc : ¬ whitespace c = true) :
    ∃ st, Started st (bare.emit keeps c) false ∧ st.mode = bare.next c ∧
      ∀ s, readToken .space [] false (c :: s) = readToken st (bare.emit keeps c) false s := by
  by_cases hescape : c = '\\'
  · subst hescape
    exact ⟨.escape none, .escaped .., rfl, fun s ↦ rfl⟩
  · by_cases hquote : c = '\'' ∨ c = '"'
    · have hemit : bare.emit keeps c = [] := if_pos (hquote.imp_right .inl)
      rw [hemit]
      rcases hquote with rfl | rfl
      · exact ⟨.quote '\'', .single .., rfl, fun s ↦ rfl⟩
      · exact ⟨.quote '"', .double .., rfl, fun s ↦ rfl⟩
    · obtain ⟨hsingle, hdouble⟩ := not_or.mp hquote
      have hemit : bare.emit keeps c = [c] := if_neg (by simp [hsingle, hdouble, hescape])
      rw [hemit]
      refine ⟨.word, .word (.inl (by simp)), ?_, fun s ↦ ?_⟩
      · simp [State.mode, next, hsingle, hdouble, hescape]
      · rw [readToken, if_neg hc, if_neg hescape, if_neg hquote]

/-- The first token is the contents of the first word, if there is one. -/
theorem getToken_cases (l : List Char) :
    (l.dropWhile whitespace = [] ∧ getToken l = .ok (none, [])) ∨
    (∃ w rest, word whitespace bare (l.dropWhile whitespace) = (w, rest) ∧ w ≠ [] ∧ IsBalanced w ∧
      getToken l = .ok (some (contents keeps bare w), rest)) ∨
    ¬ IsBalanced l ∧ ∃ e, getToken l = .error e := by
  induction l with
  | nil => exact .inl ⟨rfl, rfl⟩
  | cons c l ih =>
    by_cases hc : whitespace c = true
    · have hskip : getToken (c :: l) = getToken l := by
        rw [getToken, readToken, if_pos hc, if_neg (by simp), getToken]
      have hbalanced : IsBalanced (c :: l) ↔ IsBalanced l := by
        rw [IsBalanced, after_cons, next_of_whitespace hc, IsBalanced]
      rw [List.dropWhile_cons_of_pos hc, hskip, hbalanced]
      exact ih
    · obtain ⟨st, hstarted, hmode, hstep⟩ := readToken_space hc
      obtain ⟨hok, herror⟩ := readToken_of_started hstarted l
      rw [hmode] at hok herror
      have hword : word whitespace bare (c :: l) =
          (c :: (word whitespace (bare.next c) l).1, (word whitespace (bare.next c) l).2) := by
        rw [word, if_neg fun h ↦ hc h.2]
      rw [List.dropWhile_cons_of_neg hc, getToken, hstep l]
      by_cases hbare : (bare.next c).after (word whitespace (bare.next c) l).1 = bare
      · exact .inr (.inl ⟨_, _, hword, List.cons_ne_nil _ _, hbare, hok hbare⟩)
      · refine .inr (.inr ⟨?_, herror hbare⟩)
        intro hbalanced
        exact hbare ((after_word whitespace (fun _ ↦ next_of_whitespace) (bare.next c) l).mp
          hbalanced).1

/-- Reading all tokens raises no `ValueError` exactly when the text is quoted properly. -/
theorem tokens_spec {n : ℕ} {l : List Char} (hn : l.length < n) :
    (IsBalanced l → ∃ ts, tokens n l = .ok ts) ∧ (¬ IsBalanced l → ∃ e, tokens n l = .error e) := by
  induction n generalizing l with
  | zero => exact absurd hn (Nat.not_lt_zero _)
  | succ n ih =>
    rw [tokens]
    have hafter := after_dropWhile (fun _ ↦ next_of_whitespace) l
    rcases getToken_cases l with ⟨hnil, hget⟩ | ⟨w, rest, hword, hne, hw, hget⟩ | ⟨hnot, e, hget⟩
    · rw [hget]
      refine ⟨fun _ ↦ ⟨[], rfl⟩, fun hnot ↦ absurd ?_ hnot⟩
      rw [IsBalanced, ← hafter, hnil]
      rfl
    · rw [hget]
      dsimp only
      have hlength : rest.length < n := by
        have hlt : (word whitespace bare (l.dropWhile whitespace)).2.length <
            (l.dropWhile whitespace).length := length_word_snd_lt (by rwa [hword])
        have hdrop := (List.dropWhile_sublist whitespace (l := l)).length_le
        rw [hword] at hlt
        dsimp only at hlt
        omega
      have hiff : IsBalanced l ↔ IsBalanced rest := by
        rw [IsBalanced, ← hafter, after_word whitespace (fun _ ↦ next_of_whitespace), hword]
        exact and_iff_right hw
      obtain ⟨hok, herror⟩ := ih hlength
      rw [hiff]
      constructor
      · intro hrest
        obtain ⟨ts, hts⟩ := hok hrest
        rw [hts]
        exact ⟨_, rfl⟩
      · intro hrest
        obtain ⟨e, he⟩ := herror hrest
        rw [he]
        exact ⟨e, rfl⟩
    · rw [hget]
      exact ⟨fun h ↦ absurd h hnot, fun _ ↦ ⟨e, rfl⟩⟩

/-- What `split` returns: the first token is that of the first word. -/
theorem split_cases (l : List Char) :
    (¬ IsBalanced l ∧ ∃ e, split l = .error e) ∨
    (l.dropWhile whitespace = [] ∧ split l = .ok []) ∨
    IsBalanced l ∧ ∃ w rest later, word whitespace bare (l.dropWhile whitespace) = (w, rest) ∧
      w ≠ [] ∧ getToken l = .ok (some (contents keeps bare w), rest) ∧
      split l = .ok (contents keeps bare w :: later) := by
  obtain ⟨hok, herror⟩ := tokens_spec (Nat.lt_succ_self l.length)
  by_cases hbalanced : IsBalanced l
  · obtain ⟨ts, hts⟩ := hok hbalanced
    rw [tokens] at hts
    rcases getToken_cases l with ⟨hnil, hget⟩ | ⟨w, rest, hword, hne, -, hget⟩ | ⟨hnot, -⟩
    · refine .inr (.inl ⟨hnil, ?_⟩)
      rw [split, tokens, hget]
    · rw [hget] at hts
      dsimp only at hts
      cases hlater : tokens l.length rest with
      | error e =>
        rw [hlater] at hts
        cases hts
      | ok later =>
        refine .inr (.inr ⟨hbalanced, w, rest, later, hword, hne, hget, ?_⟩)
        rw [split, tokens, hget]
        dsimp only
        rw [hlater]
    · exact absurd hbalanced hnot
  · exact .inl ⟨hbalanced, herror hbalanced⟩

end TgMessenger.Shlex
