import TgMessenger.Data.Quoting
import TgMessenger.Pane.Config

/-!
# Media commands of the pane

The pane's `@PATH [caption]` (`claude-plugin/hooks/register.tsx`), over the characters of its text,
and the lexer it comes with.
-/

namespace TgMessenger.Pane

open Quoting Quoting.Mode

/-- `c === ' ' || c === '\t'`. -/
def isSeparator (c : Char) : Bool := c == ' ' || c == '\t'

/-- The characters a backslash escapes in double quotes. -/
def escapable (c : Char) : Bool := c == ' ' || c == '"' || c == '\\' || c == '$' || c == '`'

/-- Where `shlexFirstToken` reads the next character. -/
inductive Loop where
  | outer (started : Bool)
  | /-- `s[i + 1]`, after a backslash. -/
    escaped
  | single
  | double
  | /-- `s[i++]`, after a backslash that was passed over. -/
    literal

/-- `shlexFirstToken`: the token, and the text after it. -/
def shlexFirstToken : Loop → List Char → List Char → Option (List Char × List Char)
  | .outer started, token, [] => if started then some (token, []) else none
  | .escaped, _, [] | .single, _, [] | .double, _, [] | .literal, _, [] => none
  | .outer started, token, c :: s =>
    if isSeparator c then
      if started then some (token, s) else shlexFirstToken (.outer started) token s
    else if c = '\'' then shlexFirstToken .single token s
    else if c = '"' then shlexFirstToken .double token s
    else if c = '\\' then shlexFirstToken .escaped token s
    else shlexFirstToken (.outer true) (token ++ [c]) s
  | .escaped, token, c :: s => shlexFirstToken (.outer true) (token ++ [c]) s
  | .single, token, c :: s =>
    if c = '\'' then shlexFirstToken (.outer true) token s
    else shlexFirstToken .single (token ++ [c]) s
  | .double, token, c :: s =>
    if c = '"' then shlexFirstToken (.outer true) token s
    else if c = '\\' ∧ s.head?.any escapable then shlexFirstToken .literal token s
    else shlexFirstToken .double (token ++ [c]) s
  | .literal, token, c :: s => shlexFirstToken .double (token ++ [c]) s

/-- `s.trim()`. -/
def trim (l : List Char) : List Char := (l.dropWhile isTrimmed).rdropWhile isTrimmed

/-- `parseMediaCommand`: the path and the caption. -/
def parseMediaCommand : List Char → Option (List Char × Option (List Char))
  | '@' :: s =>
    match shlexFirstToken (.outer false) [] s with
    | none => none
    | some (token, rest) => if token = [] then none else some (token, nonEmpty (trim rest))
  | _ => none

/-! ## Tokens and words -/

/-- Before which characters in double quotes a backslash is kept. -/
def keeps (c : Char) : Bool := !escapable c

theorem next_of_isSeparator {c : Char} (h : isSeparator c = true) : bare.next c = bare := by
  simp only [isSeparator, Bool.or_eq_true, beq_iff_eq] at h
  rcases h with rfl | rfl <;> rfl

/-- A token has begun: `out` is what it stands for so far, `s` the text to come. -/
inductive Started (s : List Char) : Mode → Loop → List Char → List Char → Prop where
  | bare (out : List Char) : Started s bare (.outer true) out out
  | escaped (out : List Char) : Started s escaped .escaped out out
  | single (out : List Char) : Started s single .single out out
  | double (out : List Char) : Started s double .double out out
  | dropped (out : List Char) (h : s.head?.any escapable = true) :
    Started s doubleEscaped .literal out out
  | kept (out : List Char) (h : ¬ s.head?.any escapable = true) :
    Started s doubleEscaped .double (out ++ ['\\']) out

section Tokens

variable {q : Mode} {st : Loop} {token out l : List Char} {c : Char}

/-- One character of a token. -/
theorem Started.step (h : Started (c :: l) q st token out)
    (hc : ¬ (q = Mode.bare ∧ isSeparator c = true)) :
    ∃ st' token', Started l (q.next c) st' token' (out ++ q.emit keeps c) ∧
      shlexFirstToken st token (c :: l) = shlexFirstToken st' token' l := by
  cases h with
  | bare =>
    have hc : ¬ isSeparator c = true := fun hblank ↦ hc ⟨rfl, hblank⟩
    by_cases hsingle : c = '\''
    · subst hsingle
      refine ⟨.single, _, .single _, ?_⟩
      rw [show Mode.bare.emit keeps '\'' = [] from rfl, List.append_nil]
      rfl
    · by_cases hdouble : c = '"'
      · subst hdouble
        refine ⟨.double, _, .double _, ?_⟩
        rw [show Mode.bare.emit keeps '"' = [] from rfl, List.append_nil]
        rfl
      · by_cases hescape : c = '\\'
        · subst hescape
          refine ⟨.escaped, _, .escaped _, ?_⟩
          rw [show Mode.bare.emit keeps '\\' = [] from rfl, List.append_nil]
          rfl
        · have hnext : Mode.bare.next c = Mode.bare := by
            simp [next, hsingle, hdouble, hescape]
          have hemit : Mode.bare.emit keeps c = [c] :=
            if_neg (by simp [hsingle, hdouble, hescape])
          rw [hnext, hemit]
          refine ⟨.outer true, _, .bare _, ?_⟩
          rw [shlexFirstToken, if_neg hc, if_neg hsingle, if_neg hdouble, if_neg hescape]
  | escaped => exact ⟨.outer true, _, .bare _, rfl⟩
  | single =>
    by_cases hclose : c = '\''
    · subst hclose
      refine ⟨.outer true, _, .bare _, ?_⟩
      rw [show Mode.single.emit keeps '\'' = [] from rfl, List.append_nil]
      rfl
    · have hnext : Mode.single.next c = Mode.single := if_neg hclose
      have hemit : Mode.single.emit keeps c = [c] := if_neg hclose
      rw [hnext, hemit]
      refine ⟨.single, _, .single _, ?_⟩
      rw [shlexFirstToken, if_neg hclose]
  | double =>
    by_cases hclose : c = '"'
    · subst hclose
      refine ⟨.outer true, _, .bare _, ?_⟩
      rw [show Mode.double.emit keeps '"' = [] from rfl, List.append_nil]
      rfl
    · by_cases hescape : c = '\\'
      · subst hescape
        have hnext : Mode.double.next '\\' = doubleEscaped := rfl
        have hemit : Mode.double.emit keeps '\\' = [] := rfl
        rw [hnext, hemit, List.append_nil]
        -- Whether the backslash is dropped is decided by the character after it.
        by_cases hdrop : l.head?.any escapable = true
        · refine ⟨.literal, _, .dropped _ hdrop, ?_⟩
          rw [shlexFirstToken, if_neg hclose, if_pos ⟨rfl, hdrop⟩]
        · refine ⟨.double, _, .kept _ hdrop, ?_⟩
          rw [shlexFirstToken, if_neg hclose, if_neg fun h ↦ hdrop h.2]
      · have hnext : Mode.double.next c = Mode.double := by simp [next, hclose, hescape]
        have hemit : Mode.double.emit keeps c = [c] := if_neg (by simp [hclose, hescape])
        rw [hnext, hemit]
        refine ⟨.double, _, .double _, ?_⟩
        rw [shlexFirstToken, if_neg hclose, if_neg fun h ↦ hescape h.1]
  | dropped _ hdrop =>
    have hemit : doubleEscaped.emit keeps c = [c] := if_neg (by simpa [keeps] using hdrop)
    rw [hemit]
    exact ⟨.double, _, .double _, rfl⟩
  | kept _ hkeep =>
    have hkeep : ¬ escapable c = true := hkeep
    have hclose : c ≠ '"' := by
      rintro rfl
      exact hkeep rfl
    have hescape : c ≠ '\\' := by
      rintro rfl
      exact hkeep rfl
    have hemit : doubleEscaped.emit keeps c = ['\\', c] := if_pos (by simpa [keeps] using hkeep)
    rw [hemit]
    refine ⟨.double, _, .double _, ?_⟩
    rw [shlexFirstToken, if_neg hclose, if_neg fun h ↦ hescape h.1, List.append_assoc]
    rfl

/-- A token is the contents of its word. -/
theorem shlexFirstToken_of_started (h : Started l q st token out) :
    (q.after (word isSeparator q l).1 = Mode.bare →
      shlexFirstToken st token l =
        some (out ++ contents keeps q (word isSeparator q l).1, (word isSeparator q l).2)) ∧
    (q.after (word isSeparator q l).1 ≠ Mode.bare → shlexFirstToken st token l = none) := by
  refine @read_of_started (Loop × List Char) _ (fun s l ↦ shlexFirstToken s.1 s.2 l)
    (fun token rest ↦ some (token, rest)) (· = none)
    (fun l q s out ↦ Started l q s.1 s.2 out) isSeparator keeps ?_ ?_ ?_ l q (st, token) out h
  · rintro q ⟨st, token⟩ out hstarted
    dsimp only at hstarted ⊢
    cases hstarted with
    | bare => exact ⟨fun _ ↦ rfl, fun hne ↦ absurd rfl hne⟩
    | escaped => exact ⟨fun hbare ↦ absurd hbare (by decide), fun _ ↦ rfl⟩
    | single => exact ⟨fun hbare ↦ absurd hbare (by decide), fun _ ↦ rfl⟩
    | double => exact ⟨fun hbare ↦ absurd hbare (by decide), fun _ ↦ rfl⟩
    | dropped => exact ⟨fun hbare ↦ absurd hbare (by decide), fun _ ↦ rfl⟩
    | kept => exact ⟨fun hbare ↦ absurd hbare (by decide), fun _ ↦ rfl⟩
  · rintro c l ⟨st, token⟩ out hstarted hc
    dsimp only at hstarted ⊢
    cases hstarted with
    | bare => rw [shlexFirstToken, if_pos hc, if_pos rfl]
  · rintro c l q ⟨st, token⟩ out hstarted hc
    obtain ⟨st', token', hstarted', hstep⟩ := hstarted.step hc
    exact ⟨(st', token'), hstarted', hstep⟩

end Tokens

/-- The first token is the contents of the first word, if there is one. -/
theorem shlexFirstToken_cases (l : List Char) :
    (l.dropWhile isSeparator = [] ∧ shlexFirstToken (.outer false) [] l = none) ∨
    ∃ w rest, word isSeparator bare (l.dropWhile isSeparator) = (w, rest) ∧ w ≠ [] ∧
      (IsBalanced w ∧ shlexFirstToken (.outer false) [] l = some (contents keeps bare w, rest) ∨
        ¬ IsBalanced w ∧ shlexFirstToken (.outer false) [] l = none) := by
  induction l with
  | nil => exact .inl ⟨rfl, rfl⟩
  | cons c l ih =>
    by_cases hc : isSeparator c = true
    · have hskip : shlexFirstToken (.outer false) [] (c :: l) =
          shlexFirstToken (.outer false) [] l := by
        rw [shlexFirstToken, if_pos hc, if_neg Bool.false_ne_true]
      rw [List.dropWhile_cons_of_pos hc, hskip]
      exact ih
    · have hbegin : shlexFirstToken (.outer false) [] (c :: l) =
          shlexFirstToken (.outer true) [] (c :: l) := by
        rw [shlexFirstToken, shlexFirstToken, if_neg hc, if_neg hc]
      obtain ⟨hsome, hnone⟩ := shlexFirstToken_of_started (Started.bare (s := c :: l) [])
      have hne : (word isSeparator bare (c :: l)).1 ≠ [] := by
        rw [word, if_neg fun h ↦ hc h.2]
        exact List.cons_ne_nil _ _
      rw [List.dropWhile_cons_of_neg hc, hbegin]
      refine .inr ⟨_, _, rfl, hne, ?_⟩
      by_cases hbalanced : IsBalanced (word isSeparator bare (c :: l)).1
      · exact .inl ⟨hbalanced, hsome hbalanced⟩
      · exact .inr ⟨hbalanced, hnone hbalanced⟩

theorem parseMediaCommand_of_ne {text : List Char} (h : text.head? ≠ some '@') :
    parseMediaCommand text = none := by
  rw [parseMediaCommand.eq_def]
  split
  · exact absurd rfl h
  · rfl

section Cases

variable {rest w tail : List Char}

/-- There is no command without a path. -/
theorem parseMediaCommand_eq_none
    (hword : word isSeparator bare (rest.dropWhile isSeparator) = (w, tail))
    (h : w = [] ∨ ¬ IsBalanced w ∨ hollow w = true) : parseMediaCommand ('@' :: rest) = none := by
  rw [parseMediaCommand]
  rcases shlexFirstToken_cases rest with ⟨-, hnone⟩ | ⟨w', tail', hword', hne, hread⟩
  · rw [hnone]
  · obtain ⟨rfl, rfl⟩ := Prod.mk.inj (hword'.symm.trans hword)
    rcases hread with ⟨hbalanced, hsome⟩ | ⟨-, hnone⟩
    · have hhollow : hollow w' = true := by
        rcases h with hnil | hnot | hhollow
        · exact absurd hnil hne
        · exact absurd hbalanced hnot
        · exact hhollow
      rw [hsome]
      exact if_pos ((contents_eq_nil_iff hbalanced).mpr hhollow)
    · rw [hnone]

/-- The path is what the first word stands for, the caption what comes after that. -/
theorem parseMediaCommand_of_word
    (hword : word isSeparator bare (rest.dropWhile isSeparator) = (w, tail))
    (hne : w ≠ []) (hbalanced : IsBalanced w) (hhollow : hollow w = false) :
    parseMediaCommand ('@' :: rest) = some (contents keeps bare w, nonEmpty (trim tail)) := by
  rw [parseMediaCommand]
  rcases shlexFirstToken_cases rest with ⟨hnil, -⟩ | ⟨w', tail', hword', -, hread⟩
  · rw [hnil] at hword
    exact absurd (congrArg Prod.fst hword).symm hne
  · obtain ⟨rfl, rfl⟩ := Prod.mk.inj (hword'.symm.trans hword)
    rcases hread with ⟨-, hsome⟩ | ⟨hnot, -⟩
    · have hpath : contents keeps bare w' ≠ [] := by
        intro hnil
        rw [(contents_eq_nil_iff hbalanced).mp hnil] at hhollow
        cases hhollow
      rw [hsome]
      exact if_neg hpath
    · exact absurd hbalanced hnot

end Cases

end TgMessenger.Pane
