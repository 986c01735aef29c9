import TgMessenger.Core.Shlex

/-!
# Media commands of the terminal interface

The composer's `@PATH [caption]` (`tui/parsing.py`), over the characters of its text.
-/

namespace TgMessenger.Tui

open Quoting Quoting.Mode

/-- `_strip_first_token`. -/
def stripFirstToken (s : List Char) : List Char :=
  match Shlex.getToken s with
  | .error _ => []
  | .ok (_, rest) => rest

/-- `parse_media_command`: the path and the caption. -/
def parseMediaCommand : List Char → Option (List Char × Option (List Char))
  | '@' :: rest =>
    if stripChars rest = [] then none
    else
      match Shlex.split rest with
      | .error _ => none
      | .ok [] => none
      | .ok (path :: _) =>
        if path = [] then none
        else some (path, nonEmpty (stripChars (stripFirstToken rest)))
  | _ => none

theorem parseMediaCommand_of_ne {text : List Char} (h : text.head? ≠ some '@') :
    parseMediaCommand text = none := by
  rw [parseMediaCommand.eq_def]
  split
  · exact absurd rfl h
  · rfl

section Cases

variable {rest w tail : List Char}

/-- There is no command in a text of spaces or with a quote that is not closed. -/
theorem parseMediaCommand_eq_none (h : rest.all isSpace = true ∨ ¬ IsBalanced rest) :
    parseMediaCommand ('@' :: rest) = none := by
  rw [parseMediaCommand]
  split_ifs with hblank
  · rfl
  · rcases h with hspace | hbalanced
    · exact absurd ((stripChars_eq_nil_iff rest).mpr hspace) hblank
    · rcases Shlex.split_cases rest with ⟨-, e, he⟩ | ⟨-, hsplit⟩ | ⟨hyes, -⟩
      · rw [he]
      · rw [hsplit]
      · exact absurd hyes hbalanced

/-- The command of any other text: the path is what its first word stands for, the caption what
comes after that. -/
theorem parseMediaCommand_of_word
    (hword : word Shlex.whitespace bare (rest.dropWhile Shlex.whitespace) = (w, tail))
    (hne : w ≠ []) (hspace : rest.all isSpace = false) (hbalanced : IsBalanced rest) :
    parseMediaCommand ('@' :: rest) =
      if contents Shlex.keeps bare w = [] then none
      else some (contents Shlex.keeps bare w, nonEmpty (stripChars tail)) := by
  have hblank : stripChars rest ≠ [] := by
    intro hnil
    rw [(stripChars_eq_nil_iff rest).mp hnil] at hspace
    cases hspace
  rw [parseMediaCommand, if_neg hblank]
  rcases Shlex.split_cases rest with ⟨hnot, -⟩ | ⟨hnil, -⟩ |
    ⟨-, w', tail', later, hword', -, hget, hsplit⟩
  · exact absurd hbalanced hnot
  · rw [hnil] at hword
    exact absurd (congrArg Prod.fst hword).symm hne
  · obtain ⟨rfl, rfl⟩ := Prod.mk.inj (hword'.symm.trans hword)
    rw [hsplit, stripFirstToken, hget]

/-- Nor is there one in separators alone. -/
theorem parseMediaCommand_of_dropWhile_nil (hnil : rest.dropWhile Shlex.whitespace = []) :
    parseMediaCommand ('@' :: rest) = none := by
  rw [parseMediaCommand]
  split_ifs
  · rfl
  · rcases Shlex.split_cases rest with ⟨-, e, he⟩ | ⟨-, hsplit⟩ |
      ⟨-, w', tail', -, hword', hne, -⟩
    · rw [he]
    · rw [hsplit]
    · rw [hnil] at hword'
      exact absurd (congrArg Prod.fst hword').symm hne

/-- What a command was read from. -/
theorem exists_word_of_parseMediaCommand {path : List Char} {caption : Option (List Char)}
    (h : parseMediaCommand ('@' :: rest) = some (path, caption)) :
    rest.all isSpace = false ∧ IsBalanced rest ∧ ∃ w tail,
      word Shlex.whitespace bare (rest.dropWhile Shlex.whitespace) = (w, tail) ∧ w ≠ [] ∧
        contents Shlex.keeps bare w = path ∧ nonEmpty (stripChars tail) = caption := by
  by_cases hbad : rest.all isSpace = true ∨ ¬ IsBalanced rest
  · rw [parseMediaCommand_eq_none hbad] at h
    cases h
  · obtain ⟨hspace, hbalanced⟩ := not_or.mp hbad
    rw [not_not] at hbalanced
    rw [Bool.not_eq_true] at hspace
    refine ⟨hspace, hbalanced, _, _, rfl, ?_⟩
    by_cases hnil : rest.dropWhile Shlex.whitespace = []
    · rw [parseMediaCommand_of_dropWhile_nil hnil] at h
      cases h
    · have hne := word_dropWhile_ne_nil hnil
      rw [parseMediaCommand_of_word rfl hne hspace hbalanced] at h
      split_ifs at h
      obtain ⟨hpath, hcaption⟩ := Prod.mk.inj (Option.some.inj h)
      exact ⟨hne, hpath, hcaption⟩

end Cases

end TgMessenger.Tui
