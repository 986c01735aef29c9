import TgMessenger.Core.Models
import TgMessenger.Data.Lines

/-!
# What the commands print

`read` (`cli/commands/message.py`) prints a history, `listen` (`cli/commands/watch.py`) prints
events as they come.  Both print by `click.echo`, which takes the ANSI sequences out of what
goes to a pipe.
-/

namespace TgMessenger.Cli

/-- What `click.echo` does to a text that goes to a pipe.  A sequence starts with an escape and
goes over no newline. -/
structure Click where
  stripAnsi : List Char → List Char
  stripAnsi_append : ∀ start text, '\x1b' ∉ start →
    stripAnsi (start ++ text) = start ++ stripAnsi text
  stripAnsi_newline : ∀ line text,
    stripAnsi (line ++ '\n' :: text) = stripAnsi line ++ '\n' :: stripAnsi text
  mem_of_mem_stripAnsi : ∀ text c, c ∈ stripAnsi text → c ∈ text

/-- As on a text without an escape. -/
def Click.plain : Click where
  stripAnsi := id
  stripAnsi_append _ _ _ := rfl
  stripAnsi_newline _ _ := rfl
  mem_of_mem_stripAnsi _ _ := id

/-- `click.echo`. -/
def Click.echo (click : Click) (text : List Char) : List Char := click.stripAnsi text ++ ['\n']

/-- A text without an escape is printed as it is. -/
theorem Click.echo_of_notMem (click : Click) {text : List Char} (h : '\x1b' ∉ text) :
    click.echo text = text ++ ['\n'] := by
  have hnil : click.stripAnsi [] = [] := by
    rw [List.eq_nil_iff_forall_not_mem]
    intro c hc
    cases click.mem_of_mem_stripAnsi [] c hc
  have htext := click.stripAnsi_append text [] h
  rw [hnil, List.append_nil] at htext
  rw [Click.echo, htext]

/-- The arrow of a message. -/
def arrow (out : Bool) : Char := if out then '→' else '←'

/-- `text or "<media>"`. -/
def bodyOf : Option String → List Char
  | none => "<media>".toList
  | some text => if text = "" then "<media>".toList else text.toList

/-! ## `read` -/

/-- The prefix of a message: `← [id] `. -/
def start (m : Message) : List Char :=
  arrow m.out :: ' ' :: '[' :: (toString m.id).toList ++ [']', ' ']

/-- The indent of the continuation lines. -/
def indent (m : Message) : List Char := List.replicate (start m).length ' '

/-- `message_line`. -/
def messageLine (m : Message) : List Char :=
  let body := bodyOf m.text
  if '\n' ∉ body then start m ++ body
  else
    match body.splitOn '\n' with
    | [] => start m
    | head :: rest => ['\n'].intercalate ((start m ++ head) :: rest.map (indent m ++ ·))

/-- `_print_message_with_translation`. -/
def printMessage (click : Click) (m : Message) : List Char :=
  click.echo (messageLine m) ++
    match m.translatedText with
    | none => []
    | some text => if text = "" then [] else click.echo ("  ↳ ".toList ++ text.toList)

/-- The standard output of `read`. -/
def read (click : Click) (messages : List Message) : List Char :=
  if messages.isEmpty then click.echo "No messages.".toList
  else messages.flatMap (printMessage click)

/-! ## `listen` -/

/-- An event of a direct dialog: a message, and whether it is an own one. -/
structure StreamEvent where
  out : Bool
  dialogId : ℕ
  id : ℕ
  text : Option String
deriving DecidableEq

/-- The prefix of an event: `← [dialog] [id] `. -/
def streamStart (ev : StreamEvent) : List Char :=
  arrow ev.out :: ' ' :: ('[' :: Nat.toDigits 10 ev.dialogId ++ ']' :: ' ' ::
    ('[' :: Nat.toDigits 10 ev.id ++ [']', ' ']))

/-- `_line` under `--ids`. -/
def streamLine (ev : StreamEvent) : List Char := streamStart ev ++ bodyOf ev.text

/-- The first line of `listen`. -/
def preamble : List Char := "Listening for incoming messages (Ctrl+C to stop)...".toList

/-- The standard output of `listen --ids --out`. -/
def listen (click : Click) (events : List StreamEvent) : List Char :=
  click.echo preamble ++ events.flatMap fun ev ↦ click.echo (streamLine ev)

/-! ## Lines -/

/-- The sequences are taken out line by line. -/
theorem splitOn_stripAnsi (click : Click) (text : List Char) :
    (click.stripAnsi text).splitOn '\n' = (text.splitOn '\n').map click.stripAnsi := by
  by_cases hline : '\n' ∈ text
  · obtain ⟨line, rest, rfl, hfirst⟩ := List.eq_append_cons_of_mem hline
    have hstripped : '\n' ∉ click.stripAnsi line := fun h ↦
      hfirst (click.mem_of_mem_stripAnsi line _ h)
    rw [click.stripAnsi_newline, List.splitOn_append_cons_self_of_not_mem hstripped,
      List.splitOn_append_cons_self_of_not_mem hfirst, splitOn_stripAnsi click rest]
    rfl
  · rw [List.splitOn_eq_singleton hline, List.splitOn_eq_singleton]
    · rfl
    · exact fun h ↦ hline (click.mem_of_mem_stripAnsi text _ h)
termination_by text.length

/-- A line that is printed ends. -/
theorem splitOn_echo_append (click : Click) (text rest : List Char) :
    (click.echo text ++ rest).splitOn '\n' =
      (text.splitOn '\n').map click.stripAnsi ++ rest.splitOn '\n' := by
  rw [Click.echo, List.append_assoc, List.singleton_append, List.splitOn_append_cons_self,
    splitOn_stripAnsi]

/-- The characters of a printed number. -/
theorem mem_toString {n : ℤ} {c : Char} (h : c ∈ (toString n).toList) :
    c = '-' ∨ c.isDigit = true := by
  rw [Int.toString_eq_repr, Int.repr_eq_if] at h
  split at h
  · rw [Nat.toList_repr] at h
    exact .inr (Nat.isDigit_of_mem_toDigits (by decide) (by decide) h)
  · rw [String.toList_append, Nat.toList_repr, List.mem_append] at h
    rcases h with h | h
    · exact .inl (List.mem_singleton.mp h)
    · exact .inr (Nat.isDigit_of_mem_toDigits (by decide) (by decide) h)

/-- The characters of the start of a message. -/
theorem mem_start {m : Message} {c : Char} (h : c ∈ start m) :
    c ∈ ['→', '←', ' ', '[', ']', '-'] ∨ c.isDigit = true := by
  simp only [start, arrow, List.mem_cons, List.mem_append, List.not_mem_nil, or_false] at h
  rcases h with (h | h | h | h) | h | h
  · left
    split at h <;> simp [h]
  · simp [h]
  · simp [h]
  · rcases mem_toString h with h | h
    · simp [h]
    · exact .inr h
  · simp [h]
  · simp [h]

theorem notMem_start {c : Char} (hc : c ∉ ['→', '←', ' ', '[', ']', '-'])
    (hdigit : c.isDigit = false) (m : Message) : c ∉ start m := by
  intro h
  rcases mem_start h with h | h
  · exact hc h
  · rw [hdigit] at h
    cases h

/-- A message is printed line by line. -/
theorem splitOn_messageLine (m : Message) :
    ∃ head rest, (bodyOf m.text).splitOn '\n' = head :: rest ∧
      (messageLine m).splitOn '\n' = (start m ++ head) :: rest.map (indent m ++ ·) := by
  have hstart : '\n' ∉ start m := notMem_start (by decide) (by decide) m
  have hindent : '\n' ∉ indent m := by
    intro h
    cases List.eq_of_mem_replicate h
  dsimp only [messageLine]
  split
  · next hline =>
    refine ⟨_, [], List.splitOn_eq_singleton hline, List.splitOn_eq_singleton ?_⟩
    rw [List.mem_append]
    rintro (h | h)
    · exact hstart h
    · exact hline h
  · obtain ⟨head, rest, hlines⟩ :=
      List.exists_cons_of_ne_nil (List.splitOn_ne_nil '\n' (bodyOf m.text))
    refine ⟨head, rest, hlines, ?_⟩
    have hfree : ∀ line ∈ head :: rest, '\n' ∉ line := fun line hline ↦
      Lines.notMem_of_mem_splitOn (hlines ▸ hline)
    rw [hlines]
    refine List.splitOn_intercalate _ ?_ (List.cons_ne_nil _ _)
    intro line hline
    rcases List.mem_cons.mp hline with rfl | hline
    · rw [List.mem_append]
      rintro (h | h)
      · exact hstart h
      · exact hfree head List.mem_cons_self h
    · obtain ⟨tail, htail, rfl⟩ := List.mem_map.mp hline
      rw [List.mem_append]
      rintro (h | h)
      · exact hindent h
      · exact hfree tail (List.mem_cons_of_mem head htail) h

/-- Neither the start nor the indent of a line has an escape. -/
theorem splitOn_stripAnsi_messageLine (click : Click) (m : Message) :
    ∃ head rest, (bodyOf m.text).splitOn '\n' = head :: rest ∧
      ((messageLine m).splitOn '\n').map click.stripAnsi =
        (start m ++ click.stripAnsi head) ::
          (rest.map click.stripAnsi).map (indent m ++ ·) := by
  obtain ⟨head, rest, hbody, hlines⟩ := splitOn_messageLine m
  have hindent : '\x1b' ∉ indent m := by
    intro h
    cases List.eq_of_mem_replicate h
  refine ⟨head, rest, hbody, ?_⟩
  rw [hlines, List.map_cons, click.stripAnsi_append _ _ (notMem_start (by decide) (by decide) m),
    List.map_map, List.map_map]
  congr 1
  apply List.map_congr_left
  intro line _
  exact click.stripAnsi_append _ _ hindent

/-- The lines of a message: the text, and its translation. -/
def printedLines (click : Click) (m : Message) : List (List Char) :=
  ((messageLine m).splitOn '\n').map click.stripAnsi ++
    match m.translatedText with
    | none => []
    | some text =>
      if text = "" then []
      else (("  ↳ ".toList ++ text.toList).splitOn '\n').map click.stripAnsi

theorem splitOn_printMessage_append (click : Click) (m : Message) (rest : List Char) :
    (printMessage click m ++ rest).splitOn '\n' =
      printedLines click m ++ rest.splitOn '\n' := by
  rw [printMessage, printedLines, List.append_assoc, splitOn_echo_append, List.append_assoc]
  congr 1
  split
  · rfl
  · split
    · rfl
    · rw [splitOn_echo_append]

/-- Nothing is printed after the end of the last line. -/
theorem splitOn_read (click : Click) (messages : List Message) (h : messages ≠ []) :
    (read click messages).splitOn '\n' = messages.flatMap (printedLines click) ++ [[]] := by
  rw [read, if_neg (mt List.isEmpty_iff.mp h)]
  clear h
  induction messages with
  | nil => rfl
  | cons m messages ih =>
    rw [List.flatMap_cons, splitOn_printMessage_append, ih, List.flatMap_cons, List.append_assoc]

theorem notMem_streamStart {c : Char} (hc : c ∉ ['→', '←', ' ', '[', ']', '-'])
    (hdigit : c.isDigit = false) (ev : StreamEvent) : c ∉ streamStart ev := by
  have hdigits (n : ℕ) : c ∉ Nat.toDigits 10 n := by
    intro h
    have hc := Nat.isDigit_of_mem_toDigits (by decide) (by decide) h
    rw [hdigit] at hc
    cases hc
  intro h
  simp only [streamStart, arrow, List.mem_cons, List.mem_append, List.not_mem_nil, or_false,
    hdigits] at h
  apply hc
  split at h <;> grind

/-- An event is printed line by line. -/
theorem splitOn_streamLine (click : Click) (ev : StreamEvent) {head : List Char}
    {rest : List (List Char)} (hbody : (bodyOf ev.text).splitOn '\n' = head :: rest) :
    ((streamLine ev).splitOn '\n').map click.stripAnsi =
      (streamStart ev ++ click.stripAnsi head) :: rest.map click.stripAnsi := by
  rw [streamLine, Lines.splitOn_append_of_notMem
    (notMem_streamStart (by decide) (by decide) ev) hbody, List.map_cons,
    click.stripAnsi_append _ _ (notMem_streamStart (by decide) (by decide) ev)]

/-- Nothing is printed after the end of the last line. -/
theorem splitOn_listen (click : Click) (events : List StreamEvent) :
    (listen click events).splitOn '\n' =
      preamble :: (events.flatMap fun ev ↦
        ((streamLine ev).splitOn '\n').map click.stripAnsi) ++ [[]] := by
  rw [listen, click.echo_of_notMem (by decide), List.append_assoc, List.singleton_append,
    List.splitOn_append_cons_self_of_not_mem (by decide)]
  rw [List.cons_append]
  congr 1
  induction events with
  | nil => rfl
  | cons ev events ih =>
    rw [List.flatMap_cons, splitOn_echo_append, ih, List.flatMap_cons, List.append_assoc]

end TgMessenger.Cli
