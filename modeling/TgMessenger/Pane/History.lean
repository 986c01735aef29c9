import TgMessenger.Pane.Wire
import Mathlib.Algebra.GroupWithZero.Nat
import Mathlib.Data.List.ModifyLast
import Mathlib.Algebra.BigOperators.Group.List.Basic
import Mathlib.Algebra.Order.BigOperators.Group.List

/-!
# The history of a dialog, read off the output of `read`

`parseHistory` (`claude-plugin/hooks/register.tsx`) goes over the lines of the standard output.
A line that looks like a message begins one, and a line that is indented under the last message
continues it.  The output ends with a newline, so its last line is empty: it continues the last
message.
-/

namespace TgMessenger.Pane

/-- `HISTORY_LINE`: the arrow, the digits and the text. -/
def historyLine : List Char → Option (Bool × List Char × List Char)
  | c :: ' ' :: line => do
    let out ← arrowGroup c
    let (digits, line) ← idGroup line
    let text ← textGroup line
    return (out, digits, text)
  | _ => none

/-- The messages so far, and the width of the last prefix. -/
structure History where
  out : List TgMessage
  prefixLen : ℕ

/-- A line continues a message when it is indented under it. -/
def continues (prefixLen : ℕ) (raw : List Char) : Prop :=
  List.replicate (min prefixLen raw.length) ' ' <+: raw

instance (prefixLen : ℕ) (raw : List Char) : Decidable (continues prefixLen raw) :=
  inferInstanceAs (Decidable (_ <+: _))

/-- A line joins a message. -/
def TgMessage.join (m : TgMessage) (line : List Char) : TgMessage :=
  { m with text := m.text ++ '\n' :: line }

namespace History

/-- One line of the output. -/
def step (h : History) (raw : List Char) : History :=
  match historyLine raw with
  | some (out, digits, text) =>
    ⟨h.out ++ [⟨number digits, out, text⟩], 1 + digits.length + 4⟩
  | none =>
    if h.out ≠ [] ∧ continues h.prefixLen raw then
      ⟨h.out.modifyLast (·.join (raw.drop h.prefixLen)), h.prefixLen⟩
    else h

end History

/-- `parseHistory`. -/
def parseHistory (stdout : List Char) : List TgMessage :=
  ((stdout.splitOn '\n').foldl History.step ⟨[], 0⟩).out

/-- What the pane is to show of a message. -/
def ofMessage (m : Message) : TgMessage := ⟨m.id, m.out, Cli.bodyOf m.text⟩

/-! ## Lines of a message -/

theorem historyLine_eq_some_iff {raw : List Char} {out : Bool} {digits text : List Char} :
    historyLine raw = some (out, digits, text) ↔
      raw = Cli.arrow out :: ' ' :: ('[' :: digits ++ ']' :: ' ' :: text) ∧
        IsDigits digits ∧ ∀ c ∈ text, isLineEnd c = false := by
  constructor
  · intro h
    unfold historyLine at h
    split at h
    · next c line =>
      obtain ⟨out', harrow, h⟩ := Option.bind_eq_some_iff.mp h
      obtain ⟨⟨digits', line'⟩, hid, h⟩ := Option.bind_eq_some_iff.mp h
      obtain ⟨text', htext, h⟩ := Option.bind_eq_some_iff.mp h
      cases h
      obtain ⟨rfl, hdigits⟩ := idGroup_eq_some_iff.mp hid
      obtain ⟨rfl, hfree⟩ := textGroup_eq_some_iff.mp htext
      rw [arrowGroup_eq_some_iff.mp harrow]
      exact ⟨rfl, hdigits, hfree⟩
    · cases h
  · rintro ⟨rfl, hdigits, hfree⟩
    rw [historyLine, arrowGroup_arrow, idGroup_eq_some_iff.mpr ⟨rfl, hdigits⟩]
    simp only [Option.bind_eq_bind, Option.bind_some]
    rw [textGroup_eq_some_iff.mpr ⟨rfl, hfree⟩]
    rfl

/-- The digits of a message's id. -/
theorem start_eq (m : Message) (hid : 0 ≤ m.id) (text : List Char) :
    Cli.start m ++ text = Cli.arrow m.out :: ' ' ::
      ('[' :: Nat.toDigits 10 m.id.toNat ++ ']' :: ' ' :: text) := by
  rw [Cli.start, toList_toString hid]
  simp only [List.cons_append, List.append_assoc, List.nil_append]

theorem historyLine_start (m : Message) {text : List Char} (hid : 0 ≤ m.id)
    (htext : ∀ c ∈ text, isLineEnd c = false) :
    historyLine (Cli.start m ++ text) = some (m.out, Nat.toDigits 10 m.id.toNat, text) :=
  historyLine_eq_some_iff.mpr ⟨start_eq m hid text, isDigits_toDigits _, htext⟩

theorem length_start (m : Message) (hid : 0 ≤ m.id) :
    (Cli.start m).length = 1 + (Nat.toDigits 10 m.id.toNat).length + 4 := by
  have hlength := congrArg List.length (start_eq m hid [])
  simp only [List.length_append, List.length_cons, List.length_nil] at hlength
  omega

/-- An indented line begins no message. -/
theorem historyLine_indent (m : Message) (line : List Char) :
    historyLine (Cli.indent m ++ line) = none := by
  have hpos : (Cli.start m).length = (Cli.start m).tail.length + 1 := rfl
  rw [Cli.indent, hpos, List.replicate_succ, List.cons_append]
  unfold historyLine
  split
  · next heq =>
    cases heq
    rfl
  · rfl

theorem continues_indent (m : Message) (line : List Char) :
    continues (Cli.start m).length (Cli.indent m ++ line) := by
  have hmin : min (Cli.start m).length (Cli.indent m ++ line).length = (Cli.start m).length := by
    rw [List.length_append, Cli.indent, List.length_replicate]
    omega
  rw [continues, hmin]
  exact List.prefix_append ..

theorem continues_nil (prefixLen : ℕ) : continues prefixLen [] := by
  rw [continues, List.length_nil, Nat.min_zero]
  exact List.prefix_refl _

/-! ## What the pane has got is clean

A line that looks like a message has no line end in its text, so no message of the pane has one
before its first newline. -/

/-- The first line of a message has no line end, and its id is an id. -/
structure TgMessage.Clean (m : TgMessage) : Prop where
  id_nonneg : 0 ≤ m.id
  firstLine : ∀ c ∈ m.text.takeWhile (· ≠ '\n'), isLineEnd c = false

theorem TgMessage.Clean.join {m : TgMessage} (h : m.Clean) (line : List Char) :
    (m.join line).Clean where
  id_nonneg := h.id_nonneg
  firstLine := by
    intro c hc
    have htake : (m.text ++ '\n' :: line).takeWhile (· ≠ '\n') =
        m.text.takeWhile (· ≠ '\n') := by
      rw [List.takeWhile_append]
      split
      · next hall =>
        rw [List.takeWhile_cons_of_neg (by decide), List.append_nil]
        exact ((List.takeWhile_prefix _).eq_of_length hall).symm
      · rfl
    exact h.firstLine c (htake ▸ hc)

namespace History

/-- A list that is not empty has a last message. -/
theorem modifyLast_join {out : List TgMessage} (h : out ≠ []) (line : List Char) :
    ∃ before last, out = before ++ [last] ∧
      out.modifyLast (·.join line) = before ++ [last.join line] := by
  obtain ⟨before, last, rfl⟩ := (List.eq_nil_or_concat' out).resolve_left h
  exact ⟨before, last, rfl, List.modifyLast_concat ..⟩

theorem clean_step {h : History} (hclean : ∀ m ∈ h.out, m.Clean) (raw : List Char) :
    ∀ m ∈ (h.step raw).out, m.Clean := by
  unfold step
  split
  · next out digits text hline =>
    obtain ⟨_, _, hfree⟩ := historyLine_eq_some_iff.mp hline
    intro m hm
    rcases List.mem_append.mp hm with hm | hm
    · exact hclean m hm
    · rw [List.mem_singleton.mp hm]
      exact ⟨Int.natCast_nonneg _, fun c hc ↦ hfree c ((List.takeWhile_prefix _).subset hc)⟩
  · split
    · next hcont =>
      obtain ⟨before, last, hout, hjoin⟩ := modifyLast_join hcont.1 (raw.drop h.prefixLen)
      dsimp only
      rw [hjoin]
      rw [hout] at hclean
      intro m hm
      rcases List.mem_append.mp hm with hm | hm
      · exact hclean m (List.mem_append_left _ hm)
      · rw [List.mem_singleton.mp hm]
        exact (hclean last (List.mem_append_right _ (List.mem_singleton_self last))).join _
    · exact hclean

end History

/-- A message that comes out of `parseHistory` is clean. -/
theorem clean_parseHistory (stdout : List Char) : ∀ m ∈ parseHistory stdout, m.Clean :=
  List.foldlRecOn (motive := fun h : History ↦ ∀ m ∈ h.out, m.Clean) _ _
    (fun _ hm ↦ absurd hm List.not_mem_nil) fun _ hclean raw _ ↦ History.clean_step hclean raw

/-! ## Lines are only lost by what is shown otherwise -/

/-- The lines that messages show. -/
def lineCount (out : List TgMessage) : ℕ := (out.map fun m ↦ m.text.count '\n' + 1).sum

theorem lineCount_append (before after : List TgMessage) :
    lineCount (before ++ after) = lineCount before + lineCount after := by
  rw [lineCount, List.map_append, List.sum_append, lineCount, lineCount]

theorem lineCount_cons (m : TgMessage) (out : List TgMessage) :
    lineCount (m :: out) = lineCount [m] + lineCount out := lineCount_append [m] out

theorem lineCount_singleton (m : TgMessage) : lineCount [m] = m.text.count '\n' + 1 := rfl

namespace History

/-- A line that looks like a message is a line more. -/
theorem step_message (h : History) {raw : List Char} {out : Bool} {digits text : List Char}
    (hline : historyLine raw = some (out, digits, text)) :
    h.step raw = ⟨h.out ++ [⟨number digits, out, text⟩], 1 + digits.length + 4⟩ := by
  rw [step, hline]

/-- A line that continues a message is a line more. -/
theorem step_continues {h : History} {raw : List Char} (hline : historyLine raw = none)
    (hne : h.out ≠ []) (hcont : continues h.prefixLen raw) :
    (h.step raw).out ≠ [] ∧ (h.step raw).prefixLen = h.prefixLen ∧
      lineCount h.out + 1 ≤ lineCount (h.step raw).out := by
  obtain ⟨before, last, hout, hjoin⟩ := modifyLast_join hne (raw.drop h.prefixLen)
  have hstep : h.step raw = ⟨before ++ [last.join (raw.drop h.prefixLen)], h.prefixLen⟩ := by
    rw [step, hline]
    dsimp only
    rw [if_pos ⟨hne, hcont⟩, hjoin]
  rw [hstep, hout]
  refine ⟨List.append_ne_nil_of_right_ne_nil _ (List.cons_ne_nil _ _), rfl, ?_⟩
  rw [lineCount_append, lineCount_append, lineCount_singleton, lineCount_singleton,
    TgMessage.join, List.count_append, List.count_cons_self]
  omega

/-- No line is a line less. -/
theorem step_le (h : History) (raw : List Char) :
    (h.out ≠ [] → (h.step raw).out ≠ []) ∧ lineCount h.out ≤ lineCount (h.step raw).out := by
  cases hline : historyLine raw with
  | some groups =>
    rw [step_message h hline]
    refine ⟨fun hne ↦ List.append_ne_nil_of_left_ne_nil hne _, ?_⟩
    rw [lineCount_append]
    exact Nat.le_add_right _ _
  | none =>
    by_cases hcont : h.out ≠ [] ∧ continues h.prefixLen raw
    · obtain ⟨hne, _, hle⟩ := step_continues hline hcont.1 hcont.2
      exact ⟨fun _ ↦ hne, (Nat.le_succ _).trans hle⟩
    · have hstep : h.step raw = h := by
        rw [step, hline]
        dsimp only
        rw [if_neg hcont]
      rw [hstep]
      exact ⟨id, le_refl _⟩

theorem foldl_step_le (lines : List (List Char)) (h : History) :
    (h.out ≠ [] → (lines.foldl step h).out ≠ []) ∧
      lineCount h.out ≤ lineCount (lines.foldl step h).out := by
  induction lines generalizing h with
  | nil => exact ⟨id, le_refl _⟩
  | cons raw lines ih =>
    obtain ⟨hne, hle⟩ := step_le h raw
    obtain ⟨hne', hle'⟩ := ih (h.step raw)
    exact ⟨hne' ∘ hne, hle.trans hle'⟩

/-- The indented lines under a message are as many lines more. -/
theorem foldl_step_indent (m : Message) (rest : List (List Char)) (h : History)
    (hne : h.out ≠ []) (hlen : h.prefixLen = (Cli.start m).length) :
    ((rest.map (Cli.indent m ++ ·)).foldl step h).out ≠ [] ∧
      lineCount h.out + rest.length ≤
        lineCount ((rest.map (Cli.indent m ++ ·)).foldl step h).out := by
  induction rest generalizing h with
  | nil => exact ⟨hne, le_refl _⟩
  | cons line rest ih =>
    obtain ⟨hne', hlen', hle⟩ := step_continues (historyLine_indent m line) hne
      (hlen ▸ continues_indent m line)
    obtain ⟨hne'', hle'⟩ := ih (h.step (Cli.indent m ++ line)) hne' (hlen'.trans hlen)
    refine ⟨hne'', ?_⟩
    rw [List.length_cons, List.map_cons, List.foldl_cons]
    omega

/-- A message whose first line is clean is shown with all its lines. -/
theorem foldl_step_printedLines (click : Cli.Click) (m : Message) (hclean : (ofMessage m).Clean)
    (h : History) :
    ((Cli.printedLines click m).foldl step h).out ≠ [] ∧
      lineCount h.out + lineCount [ofMessage m] ≤
        lineCount ((Cli.printedLines click m).foldl step h).out := by
  obtain ⟨head, rest, hbody, hlines⟩ := Cli.splitOn_stripAnsi_messageLine click m
  obtain ⟨hhead, hrest⟩ := Lines.splitOn_eq_cons hbody
  have hfree : ∀ c ∈ click.stripAnsi head, isLineEnd c = false := by
    intro c hc
    have hmem := click.mem_of_mem_stripAnsi head c hc
    rw [hhead] at hmem
    exact hclean.firstLine c hmem
  rw [Cli.printedLines, hlines, List.foldl_append, List.foldl_cons,
    step_message h (historyLine_start m hclean.id_nonneg hfree)]
  set first : History := ⟨h.out ++ [_], _⟩ with hfirst
  have hne : first.out ≠ [] := List.append_ne_nil_of_right_ne_nil _ (List.cons_ne_nil _ _)
  obtain ⟨hne', hle'⟩ := foldl_step_indent m (rest.map click.stripAnsi) first hne
    (length_start m hclean.id_nonneg).symm
  refine ⟨(foldl_step_le _ _).1 hne', le_trans ?_ (hle'.trans (foldl_step_le _ _).2)⟩
  rw [lineCount_append, lineCount_singleton, lineCount_singleton, List.length_map, hrest]
  dsimp only [ofMessage]
  omega

theorem foldl_step_flatMap (click : Cli.Click) (messages : List Message)
    (hclean : ∀ m ∈ messages, (ofMessage m).Clean) (h : History) :
    (messages ≠ [] → ((messages.flatMap (Cli.printedLines click)).foldl step h).out ≠ []) ∧
      lineCount h.out + lineCount (messages.map ofMessage) ≤
        lineCount ((messages.flatMap (Cli.printedLines click)).foldl step h).out := by
  induction messages generalizing h with
  | nil => exact ⟨absurd rfl, le_refl _⟩
  | cons m messages ih =>
    obtain ⟨hne, hle⟩ := foldl_step_printedLines click m (hclean m List.mem_cons_self) h
    obtain ⟨_, hle'⟩ := ih (fun m hm ↦ hclean m (List.mem_cons_of_mem _ hm))
      ((Cli.printedLines click m).foldl step h)
    obtain ⟨hne', _⟩ := foldl_step_le (messages.flatMap (Cli.printedLines click))
      ((Cli.printedLines click m).foldl step h)
    rw [List.flatMap_cons, List.foldl_append, List.map_cons, lineCount_cons]
    refine ⟨fun _ ↦ hne' hne, ?_⟩
    omega

end History

/-- The pane never shows what was printed: the empty last line of the output goes to the last
message. -/
theorem parseHistory_read_iff (click : Cli.Click) (messages : List Message) :
    parseHistory (Cli.read click messages) = messages.map ofMessage ↔ messages = [] := by
  constructor
  · intro h
    by_contra hne
    have hclean : ∀ m ∈ messages, (ofMessage m).Clean := by
      intro m hm
      apply clean_parseHistory (Cli.read click messages)
      rw [h]
      exact List.mem_map_of_mem hm
    obtain ⟨hout, hle⟩ := History.foldl_step_flatMap click messages hclean ⟨[], 0⟩
    rw [parseHistory, Cli.splitOn_read click messages hne, List.foldl_append] at h
    -- The empty last line of the output is one line more than was printed.
    obtain ⟨_, _, hlt⟩ := History.step_continues rfl (hout hne) (continues_nil _)
    rw [List.foldl_cons, List.foldl_nil] at h
    rw [h] at hlt
    have hzero : lineCount ([] : List TgMessage) = 0 := rfl
    dsimp only at hle
    omega
  · rintro rfl
    have hread : Cli.read click [] = "No messages.".toList ++ ['\n'] :=
      click.echo_of_notMem (by decide)
    rw [hread]
    decide +kernel

/-- One message of one line: it comes back with a newline at its end. -/
theorem history_gains_newline :
    parseHistory
        (Cli.read .plain [⟨5, 1, 1, false, "", some "hi", none, none, false, none, none⟩]) =
        [⟨5, false, "hi\n".toList⟩] ∧
      ofMessage ⟨5, 1, 1, false, "", some "hi", none, none, false, none, none⟩ =
        ⟨5, false, "hi".toList⟩ := by
  decide +kernel

end TgMessenger.Pane
