import TgMessenger.Data.Pages
import TgMessenger.Data.Readings
import TgMessenger.Pane.Wire

/-!
# The live stream, read off the output of `listen`

`runStream` (`claude-plugin/hooks/register.tsx`) cuts whole lines off the chunks of the standard
output, and `parseStreamLine` makes messages of the lines of the open dialog.  The texts come as
they are, so a line of a text may look like a line of `listen`.
-/

namespace TgMessenger.Pane

/-! ## The code -/

/-- `STREAM_LINE`: the arrow, the two ids and the text. -/
def streamLine : List Char → Option (Bool × List Char × List Char × List Char)
  | c :: ' ' :: line => do
    let out ← arrowGroup c
    let (dialog, line) ← idGroup line
    let (digits, line) ← idGroup line
    let text ← textGroup line
    return (out, dialog, digits, text)
  | _ => none

/-- `parseStreamLine`. -/
def parseStreamLine (resolvedId : List Char) (sentIds : List ℕ) (line : List Char) :
    Option TgMessage :=
  match streamLine line with
  | none => none
  | some (out, dialog, digits, text) =>
    if dialog ≠ resolvedId then none
    else if out ∧ number digits ∈ sentIds then none
    else some ⟨number digits, out, text⟩

/-- A chunk of the output, and what the pane remembers to have sent when it comes. -/
structure Chunk where
  text : List Char
  sentIds : List ℕ

/-- `runStream`: what is left of the buffer, the messages of all bursts, and the messages
shown. -/
structure Stream where
  buffer : List Char
  obtained : List TgMessage
  messages : List TgMessage

/-- A chunk comes. -/
def Stream.step (resolvedId : List Char) (s : Stream) (chunk : Chunk) : Stream :=
  let (lines, buffer) := Lines.cut '\n' (s.buffer ++ chunk.text)
  let batch := lines.filterMap (parseStreamLine resolvedId chunk.sentIds)
  { buffer
    obtained := s.obtained ++ batch
    messages := if batch = [] then s.messages else (s.messages ++ batch).rtake 100 }

/-- The messages the pane obtains. -/
def obtained (dialog : ℤ) (chunks : List Chunk) : List TgMessage :=
  (chunks.foldl (Stream.step (toString dialog).toList) ⟨[], [], []⟩).obtained

/-! ## What the pane is to obtain -/

/-- A message of the open dialog, unless the pane sent it. -/
def shown (dialog : ℤ) (sends : List ℕ) (ev : Cli.StreamEvent) : Option TgMessage :=
  if ev.dialogId = dialog ∧ ¬ (ev.out ∧ ev.id ∈ sends) then
    some ⟨ev.id, ev.out, Cli.bodyOf ev.text⟩
  else none

/-- What a line of the output comes from. -/
inductive Origin where
  | preamble
  /-- The first line of an event. -/
  | first (ev : Cli.StreamEvent)
  /-- A further line of its text. -/
  | rest (ev : Cli.StreamEvent)

/-- The lines of the output, by what they come from. -/
def origins (events : List Cli.StreamEvent) : List Origin :=
  .preamble :: events.flatMap fun ev ↦
    .first ev :: List.replicate ((Cli.bodyOf ev.text).count '\n') (.rest ev)

/-- A line as it arrives. -/
structure Line where
  text : List Char
  sentIds : List ℕ

/-- The lines that arrive, chunk by chunk. -/
def arrived : List Char → List Chunk → List Line
  | _, [] => []
  | buffer, chunk :: chunks =>
    let (lines, buffer) := Lines.cut '\n' (buffer ++ chunk.text)
    lines.map (⟨·, chunk.sentIds⟩) ++ arrived buffer chunks

/-- The line of a message. -/
def lineOf (out : Bool) (dialog digits text : List Char) : List Char :=
  Cli.arrow out :: ' ' :: ('[' :: dialog ++ ']' :: ' ' :: ('[' :: digits ++ ']' :: ' ' :: text))

/-- A message is attributed to the event whose text it comes from. -/
def Attributed (dialog : ℤ) : Line × Origin → Prop
  | (line, origin) =>
    ∀ m, parseStreamLine (toString dialog).toList line.sentIds line.text = some m →
    match origin with
    | .preamble => False
    | .first ev | .rest ev => ev.dialogId = dialog ∧ m.id = ev.id ∧ m.out = ev.out

/-- No contact's text makes a line of `listen`, the texts of the open dialog are lines as they
are printed, and the pane remembers what it sent. -/
def Sound (click : Cli.Click) (dialog : ℤ) (sends : List ℕ) : Line × Origin → Prop
  | (_, .preamble) => True
  | (line, .first ev) =>
    ev.dialogId = dialog →
      if ev.out ∧ ev.id ∈ sends then ev.id ∈ line.sentIds ∨ ∃ c ∈ line.text, isLineEnd c
      else
        ¬ (ev.out ∧ ev.id ∈ line.sentIds) ∧ (∀ c ∈ Cli.bodyOf ev.text, isLineEnd c = false) ∧
          click.stripAnsi (Cli.bodyOf ev.text) = Cli.bodyOf ev.text
  | (line, .rest _) =>
    0 ≤ dialog → ∀ out digits text, line.text = lineOf out (toString dialog).toList digits text →
      IsDigits digits → (∀ c ∈ text, isLineEnd c = false) → out ∧ number digits ∈ line.sentIds

/-! ## Lines arrive whole -/

/-- However the output is cut into chunks, its lines are the lines that arrive. -/
theorem map_text_arrived (buffer : List Char) (chunks : List Chunk)
    (h : '\n' ∉ buffer) :
    (arrived buffer chunks).map Line.text =
      (Lines.cut '\n' (buffer ++ chunks.flatMap Chunk.text)).1 := by
  induction chunks generalizing buffer with
  | nil =>
    rw [List.flatMap_nil, List.append_nil, Lines.cut_of_notMem h]
    rfl
  | cons chunk chunks ih =>
    dsimp only [arrived]
    rw [List.map_append, ih _ (Lines.notMem_cut _), List.flatMap_cons, ← List.append_assoc,
      Lines.cut_append (buffer ++ chunk.text), List.map_map]
    congr 1
    exact List.map_id _

/-- The pane obtains the messages of the lines that arrive. -/
theorem obtained_foldl_step (resolvedId : List Char) (chunks : List Chunk) (s : Stream) :
    (chunks.foldl (Stream.step resolvedId) s).obtained =
      s.obtained ++ (arrived s.buffer chunks).filterMap fun line ↦
        parseStreamLine resolvedId line.sentIds line.text := by
  induction chunks generalizing s with
  | nil => exact (List.append_nil _).symm
  | cons chunk chunks ih =>
    rw [List.foldl_cons, ih]
    dsimp only [Stream.step, arrived]
    rw [List.filterMap_append, List.filterMap_map, List.append_assoc]
    rfl

theorem obtained_eq (dialog : ℤ) (chunks : List Chunk) :
    obtained dialog chunks = (arrived [] chunks).filterMap fun line ↦
      parseStreamLine (toString dialog).toList line.sentIds line.text :=
  obtained_foldl_step _ chunks ⟨[], [], []⟩

/-! ## Lines of the shape of a message -/

theorem streamLine_lineOf {dialog digits : List Char} (hdialog : IsDigits dialog)
    (hdigits : IsDigits digits) (out : Bool) (text : List Char) :
    streamLine (lineOf out dialog digits text) =
      (textGroup text).map fun text ↦ (out, dialog, digits, text) := by
  rw [lineOf, streamLine, arrowGroup_arrow, idGroup_eq_some_iff.mpr ⟨rfl, hdialog⟩]
  simp only [Option.bind_eq_bind, Option.bind_some]
  rw [idGroup_eq_some_iff.mpr ⟨rfl, hdigits⟩, Option.bind_some]
  cases textGroup text with
  | none => rfl
  | some text => rfl

theorem streamLine_eq_some_iff {line : List Char} {out : Bool} {dialog digits text : List Char} :
    streamLine line = some (out, dialog, digits, text) ↔
      line = lineOf out dialog digits text ∧ IsDigits dialog ∧ IsDigits digits ∧
        ∀ c ∈ text, isLineEnd c = false := by
  constructor
  · intro h
    unfold streamLine at h
    split at h
    · next c line =>
      obtain ⟨out', harrow, h⟩ := Option.bind_eq_some_iff.mp h
      obtain ⟨⟨dialog', line'⟩, hid, h⟩ := Option.bind_eq_some_iff.mp h
      obtain ⟨⟨digits', line''⟩, hid', h⟩ := Option.bind_eq_some_iff.mp h
      obtain ⟨text', htext, h⟩ := Option.bind_eq_some_iff.mp h
      cases h
      obtain ⟨rfl, hdialog⟩ := idGroup_eq_some_iff.mp hid
      obtain ⟨rfl, hdigits⟩ := idGroup_eq_some_iff.mp hid'
      obtain ⟨rfl, hfree⟩ := textGroup_eq_some_iff.mp htext
      rw [arrowGroup_eq_some_iff.mp harrow]
      exact ⟨rfl, hdialog, hdigits, hfree⟩
    · cases h
  · rintro ⟨rfl, hdialog, hdigits, hfree⟩
    rw [streamLine_lineOf hdialog hdigits, textGroup_eq_some_iff.mpr ⟨rfl, hfree⟩]
    rfl

theorem parseStreamLine_eq_some_iff {resolvedId line : List Char} {sentIds : List ℕ}
    {m : TgMessage} :
    parseStreamLine resolvedId sentIds line = some m ↔
      ∃ out digits text, line = lineOf out resolvedId digits text ∧ IsDigits resolvedId ∧
        IsDigits digits ∧ (∀ c ∈ text, isLineEnd c = false) ∧
        ¬ (out ∧ number digits ∈ sentIds) ∧ m = ⟨number digits, out, text⟩ := by
  constructor
  · intro h
    unfold parseStreamLine at h
    split at h
    · cases h
    · next out dialog digits text hline =>
      obtain ⟨rfl, hdialog, hdigits, hfree⟩ := streamLine_eq_some_iff.mp hline
      split at h
      · cases h
      · next heq =>
        split at h
        · cases h
        · next hsent =>
          cases h
          rw [not_not] at heq
          subst heq
          exact ⟨out, digits, text, rfl, hdialog, hdigits, hfree, hsent, rfl⟩
  · rintro ⟨out, digits, text, rfl, hdialog, hdigits, hfree, hsent, rfl⟩
    rw [parseStreamLine, streamLine_eq_some_iff.mpr ⟨rfl, hdialog, hdigits, hfree⟩]
    dsimp only
    rw [if_neg (not_not.mpr rfl), if_neg hsent]

/-- A line of the shape of a message of the open dialog is one. -/
theorem sound_rest_iff {click : Cli.Click} {dialog : ℤ} {sends : List ℕ} {line : Line}
    {ev : Cli.StreamEvent} :
    Sound click dialog sends (line, .rest ev) ↔
      parseStreamLine (toString dialog).toList line.sentIds line.text = none := by
  constructor
  · intro hsound
    rw [Option.eq_none_iff_forall_ne_some]
    intro m hm
    obtain ⟨out, digits, text, hline, hdialog, hdigits, hfree, hsent, _⟩ :=
      parseStreamLine_eq_some_iff.mp hm
    exact hsent (hsound (isDigits_toString_iff.mp hdialog) out digits text hline hdigits hfree)
  · intro hparse hdialog out digits text hline hdigits hfree
    by_contra hsent
    have hsome := parseStreamLine_eq_some_iff.mpr ⟨out, digits, text, hline,
      isDigits_toString_iff.mpr hdialog, hdigits, hfree, hsent, rfl⟩
    rw [hparse] at hsome
    cases hsome

/-! ## Lines of an event -/

/-- The lines of an event, as they arrive. -/
structure Block where
  ev : Cli.StreamEvent
  first : Line
  rest : List Line

namespace Block

/-- The lines are those of the event. -/
def Printed (click : Cli.Click) (b : Block) : Prop :=
  ∃ head tail, (Cli.bodyOf b.ev.text).splitOn '\n' = head :: tail ∧
    b.first.text = Cli.streamStart b.ev ++ click.stripAnsi head ∧
    b.rest.map Line.text = tail.map click.stripAnsi

def lines (b : Block) : List (Line × Origin) :=
  (b.first, .first b.ev) :: b.rest.map fun line ↦ (line, .rest b.ev)

end Block

theorem zip_replicate_length {α β : Type*} (l : List α) (x : β) :
    l.zip (List.replicate l.length x) = l.map fun a ↦ (a, x) := by
  induction l with
  | nil => rfl
  | cons a l ih =>
    rw [List.length_cons, List.replicate_succ, List.zip_cons_cons, ih, List.map_cons]

/-- The lines of events come event by event. -/
theorem exists_blocks (click : Cli.Click) (lines : List Line) (events : List Cli.StreamEvent)
    (h : lines.map Line.text = events.flatMap fun ev ↦
      ((Cli.streamLine ev).splitOn '\n').map click.stripAnsi) :
    ∃ blocks : List Block, blocks.map Block.ev = events ∧
      (∀ b ∈ blocks, b.Printed click) ∧ lines = blocks.flatMap (fun b ↦ b.first :: b.rest) ∧
      lines.zip (origins events).tail = blocks.flatMap Block.lines := by
  induction events generalizing lines with
  | nil =>
    cases List.map_eq_nil_iff.mp h
    exact ⟨[], rfl, fun _ hb ↦ absurd hb List.not_mem_nil, rfl, rfl⟩
  | cons ev events ih =>
    obtain ⟨head, tail, hbody⟩ :=
      List.exists_cons_of_ne_nil (List.splitOn_ne_nil '\n' (Cli.bodyOf ev.text))
    rw [List.flatMap_cons, Cli.splitOn_streamLine click ev hbody] at h
    obtain ⟨own, others, rfl, hown, hothers⟩ := List.map_eq_append_iff.mp h
    obtain ⟨first, rest, rfl, hfirst, hrest⟩ := List.map_eq_cons_iff.mp hown
    obtain ⟨blocks, hevents, hprinted, hlines, hzip⟩ := ih others hothers
    have hlength : rest.length = (Cli.bodyOf ev.text).count '\n' := by
      rw [← (Lines.splitOn_eq_cons hbody).2, ← List.length_map Line.text, hrest,
        List.length_map]
    refine ⟨⟨ev, first, rest⟩ :: blocks, by rw [List.map_cons, hevents], ?_, ?_, ?_⟩
    · intro b hb
      rcases List.mem_cons.mp hb with rfl | hb
      · exact ⟨head, tail, hbody, hfirst, hrest⟩
      · exact hprinted b hb
    · rw [List.flatMap_cons, ← hlines]
    · rw [List.flatMap_cons, ← hzip]
      dsimp only [origins, List.tail_cons, Block.lines]
      rw [List.flatMap_cons, List.cons_append, List.cons_append, List.zip_cons_cons,
        List.zip_append (by rw [List.length_replicate, hlength]), ← hlength,
        zip_replicate_length]
      rfl

/-- The message of the first line of an event. -/
theorem parse_streamStart (dialog : ℤ) (sentIds : List ℕ) (ev : Cli.StreamEvent)
    (text : List Char) {m : TgMessage} :
    parseStreamLine (toString dialog).toList sentIds (Cli.streamStart ev ++ text) = some m ↔
      ev.dialogId = dialog ∧ ¬ (ev.out ∧ ev.id ∈ sentIds) ∧
        (∀ c ∈ text, isLineEnd c = false) ∧ m = ⟨ev.id, ev.out, text⟩ := by
  have hline : Cli.streamStart ev ++ text =
      lineOf ev.out (Nat.toDigits 10 ev.dialogId) (Nat.toDigits 10 ev.id) text := by
    simp only [Cli.streamStart, lineOf, List.cons_append, List.append_assoc, List.nil_append]
  rw [parseStreamLine, hline, streamLine_lineOf (isDigits_toDigits _) (isDigits_toDigits _)]
  cases htext : textGroup text with
  | none =>
    constructor
    · intro h
      cases h
    · rintro ⟨_, _, hfree, _⟩
      rw [textGroup_eq_some_iff.mpr ⟨rfl, hfree⟩] at htext
      cases htext
  | some text' =>
    obtain ⟨rfl, hfree⟩ := textGroup_eq_some_iff.mp htext
    dsimp only [Option.map_some]
    rw [number_toDigits]
    split
    · next hdialog =>
      constructor
      · intro h
        cases h
      · rintro ⟨heq, _⟩
        exact absurd (toDigits_eq_toString_iff.mpr heq) hdialog
    · next hdialog =>
      rw [not_not, toDigits_eq_toString_iff] at hdialog
      split
      · next hsent =>
        constructor
        · intro h
          cases h
        · rintro ⟨_, hnot, _⟩
          exact absurd hsent hnot
      · next hsent =>
        rw [Option.some_inj]
        exact ⟨fun h ↦ ⟨hdialog, hsent, hfree, h.symm⟩, fun h ↦ h.2.2.2.symm⟩

theorem shown_eq_some_iff {dialog : ℤ} {sends : List ℕ} {ev : Cli.StreamEvent}
    {m : TgMessage} :
    shown dialog sends ev = some m ↔
      ev.dialogId = dialog ∧ ¬ (ev.out ∧ ev.id ∈ sends) ∧
        m = ⟨ev.id, ev.out, Cli.bodyOf ev.text⟩ := by
  unfold shown
  split
  · next h =>
    rw [Option.some_inj]
    exact ⟨fun heq ↦ ⟨h.1, h.2, heq.symm⟩, fun heq ↦ heq.2.2.symm⟩
  · next h =>
    constructor
    · intro heq
      cases heq
    · rintro ⟨hdialog, hsends, _⟩
      exact absurd ⟨hdialog, hsends⟩ h

theorem bodyOf_of_free {ev : Cli.StreamEvent} {head : List Char}
    {tail : List (List Char)}
    (hbody : (Cli.bodyOf ev.text).splitOn '\n' = head :: tail)
    (hfree : ∀ c ∈ Cli.bodyOf ev.text, isLineEnd c = false) : head = Cli.bodyOf ev.text := by
  have hline : '\n' ∉ Cli.bodyOf ev.text := by
    intro hmem
    cases hfree _ hmem
  rw [List.splitOn_eq_singleton hline] at hbody
  cases hbody
  rfl

/-- The first line of an event is sound when the pane makes of it what it is to. -/
theorem sound_first_iff {click : Cli.Click} {dialog : ℤ} {sends : List ℕ} {b : Block}
    (hprinted : b.Printed click) :
    Sound click dialog sends (b.first, .first b.ev) ↔
      parseStreamLine (toString dialog).toList b.first.sentIds b.first.text =
        shown dialog sends b.ev := by
  obtain ⟨head, tail, hbody, hfirst, _⟩ := hprinted
  have hstart : ∀ c ∈ Cli.streamStart b.ev, isLineEnd c = false := by
    intro c hc
    by_contra hend
    simp only [isLineEnd, Bool.not_eq_false, Bool.or_eq_true, beq_iff_eq] at hend
    rcases hend with ((rfl | rfl) | rfl) | rfl <;>
      exact Cli.notMem_streamStart (by decide) (by decide) b.ev hc
  by_cases hdialog : b.ev.dialogId = dialog
  · by_cases hsends : b.ev.out ∧ b.ev.id ∈ sends
    · have hshown : shown dialog sends b.ev = none := by
        rw [shown, if_neg]
        exact fun h ↦ h.2 hsends
      rw [hshown, Option.eq_none_iff_forall_ne_some, hfirst]
      dsimp only [Sound]
      rw [if_pos hsends, hfirst]
      constructor
      · intro hsound m hm
        obtain ⟨_, hsent, hfree, _⟩ := (parse_streamStart ..).mp hm
        rcases hsound hdialog with hmem | ⟨c, hc, hend⟩
        · exact hsent ⟨hsends.1, hmem⟩
        · have hno : isLineEnd c = false := (List.mem_append.mp hc).elim (hstart c) (hfree c)
          rw [hno] at hend
          cases hend
      · intro hnone _
        by_contra hnot
        rw [not_or] at hnot
        refine hnone _ ((parse_streamStart ..).mpr ⟨hdialog, fun h ↦ hnot.1 h.2, ?_, rfl⟩)
        intro c hc
        rw [Bool.eq_false_iff]
        exact fun hend ↦ hnot.2 ⟨c, List.mem_append_right _ hc, hend⟩
    · have hshown := shown_eq_some_iff.mpr ⟨hdialog, hsends, rfl⟩
      rw [hshown, hfirst, parse_streamStart]
      dsimp only [Sound]
      rw [if_neg hsends]
      constructor
      · intro hsound
        obtain ⟨hsent, hfree, hstrip⟩ := hsound hdialog
        rw [bodyOf_of_free hbody hfree, hstrip]
        exact ⟨hdialog, hsent, hfree, rfl⟩
      · rintro ⟨_, hsent, hfree, heq⟩ _
        have htext : Cli.bodyOf b.ev.text = click.stripAnsi head := congrArg TgMessage.text heq
        rw [← htext] at hfree
        rw [bodyOf_of_free hbody hfree] at htext
        exact ⟨hsent, hfree, htext.symm⟩
  · have hshown : shown dialog sends b.ev = none := by
      rw [shown, if_neg]
      exact fun h ↦ hdialog h.1
    rw [hshown, hfirst, Option.eq_none_iff_forall_ne_some]
    constructor
    · intro _ m hm
      exact hdialog ((parse_streamStart ..).mp hm).1
    · intro _ heq
      exact absurd heq hdialog

/-! ## The stream is faithful exactly when its lines are sound -/

/-- The pane obtains the messages of the open dialog, and each is attributed to the event whose
text it comes from. -/
def Faithful (dialog : ℤ) (sends : List ℕ) (events : List Cli.StreamEvent)
    (chunks : List Chunk) : Prop :=
  obtained dialog chunks = events.filterMap (shown dialog sends) ∧
    ∀ p ∈ (arrived [] chunks).zip (origins events), Attributed dialog p

/-- The first line of the output is no message. -/
theorem parse_preamble (resolvedId : List Char) (sentIds : List ℕ) :
    parseStreamLine resolvedId sentIds Cli.preamble = none := by
  rw [Option.eq_none_iff_forall_ne_some]
  intro m hm
  obtain ⟨out, digits, text, hline, _⟩ := parseStreamLine_eq_some_iff.mp hm
  have hhead : Cli.preamble.head? = some (Cli.arrow out) := by
    rw [hline]
    rfl
  revert hhead
  cases out <;> decide

/-- A message the pane obtains has no line end. -/
theorem free_of_parse {resolvedId line : List Char} {sentIds : List ℕ} {m : TgMessage}
    (h : parseStreamLine resolvedId sentIds line = some m) :
    ∀ c ∈ m.text, isLineEnd c = false := by
  obtain ⟨out, digits, text, _, _, _, hfree, _, rfl⟩ := parseStreamLine_eq_some_iff.mp h
  exact hfree

/-- Where no further line is a message, the first lines are read. -/
theorem filterMap_blocks {parse : Line → Option TgMessage} {blocks : List Block}
    (h : ∀ b ∈ blocks, ∀ line ∈ b.rest, parse line = none) :
    (blocks.flatMap fun b ↦ b.first :: b.rest).filterMap parse =
      blocks.filterMap fun b ↦ parse b.first := by
  induction blocks with
  | nil => rfl
  | cons b blocks ih =>
    have hrest : b.rest.filterMap parse = [] :=
      List.filterMap_eq_nil_iff.mpr (h b List.mem_cons_self)
    rw [List.flatMap_cons, List.filterMap_append,
      ih fun b hb ↦ h b (List.mem_cons_of_mem _ hb), List.filterMap_cons, List.filterMap_cons,
      hrest]
    cases parse b.first with
    | none => rfl
    | some m => rfl

/-- The lines that arrive, event by event. -/
theorem arrived_eq_blocks (click : Cli.Click) (events : List Cli.StreamEvent)
    (chunks : List Chunk) (houtput : chunks.flatMap Chunk.text = Cli.listen click events) :
    ∃ (first : Line) (blocks : List Block), first.text = Cli.preamble ∧
      blocks.map Block.ev = events ∧ (∀ b ∈ blocks, b.Printed click) ∧
      arrived [] chunks = first :: blocks.flatMap (fun b ↦ b.first :: b.rest) ∧
      (arrived [] chunks).zip (origins events) =
        (first, .preamble) :: blocks.flatMap Block.lines := by
  have hcut := Lines.cut_eq_iff.mpr (Cli.splitOn_listen click events).symm
  have hlines := map_text_arrived [] chunks List.not_mem_nil
  rw [List.nil_append, houtput, hcut] at hlines
  obtain ⟨first, lines, hcons, hfirst, hrest⟩ := List.map_eq_cons_iff.mp hlines
  obtain ⟨blocks, hevents, hprinted, heq, hzip⟩ := exists_blocks click lines events hrest
  refine ⟨first, blocks, hfirst, hevents, hprinted, by rw [hcons, heq], ?_⟩
  rw [hcons, ← hzip]
  rfl

/-- A further line that was read as a message would be a message of its own. -/
theorem rest_eq_none {click : Cli.Click} {dialog : ℤ} {sends : List ℕ}
    {blocks : List Block} (hprinted : ∀ b ∈ blocks, b.Printed click)
    (hobtained : (blocks.flatMap fun b ↦ b.first :: b.rest).filterMap
        (fun line ↦ parseStreamLine (toString dialog).toList line.sentIds line.text) =
      blocks.filterMap fun b ↦ shown dialog sends b.ev)
    (hattributed : ∀ b ∈ blocks, ∀ p ∈ b.lines, Attributed dialog p) :
    ∀ b ∈ blocks, ∀ line ∈ b.rest,
      parseStreamLine (toString dialog).toList line.sentIds line.text = none := by
  intro b hb line hline
  rw [Option.eq_none_iff_forall_ne_some]
  intro m hm
  -- It is attributed to the event, so the event is one that is to be shown.
  obtain ⟨hdialog, hid, hout⟩ := hattributed b hb (line, .rest b.ev)
    (List.mem_cons_of_mem _ (List.mem_map_of_mem hline)) m hm
  have hmem : m ∈ blocks.filterMap fun b ↦ shown dialog sends b.ev := by
    rw [← hobtained, List.mem_filterMap]
    exact ⟨line, List.mem_flatMap.mpr ⟨b, hb, List.mem_cons_of_mem _ hline⟩, hm⟩
  obtain ⟨b', _, hshown⟩ := List.mem_filterMap.mp hmem
  obtain ⟨_, hsends, hm'⟩ := shown_eq_some_iff.mp hshown
  rw [hm'] at hid hout
  dsimp only at hid hout
  rw [hout, Int.natCast_inj.mp hid] at hsends
  -- Its text is then obtained as it is, and has only one line.
  have hshown' := shown_eq_some_iff.mpr ⟨hdialog, hsends, rfl⟩
  have hmem' : (⟨b.ev.id, b.ev.out, Cli.bodyOf b.ev.text⟩ : TgMessage) ∈
      blocks.filterMap fun b ↦ shown dialog sends b.ev :=
    List.mem_filterMap.mpr ⟨b, hb, hshown'⟩
  rw [← hobtained] at hmem'
  obtain ⟨line', _, hline'⟩ := List.mem_filterMap.mp hmem'
  have hfree := free_of_parse hline'
  obtain ⟨head, tail, hbody, _, hrest⟩ := hprinted b hb
  have htail : tail ≠ [] := by
    rintro rfl
    rw [List.map_nil, List.map_eq_nil_iff] at hrest
    rw [hrest] at hline
    cases hline
  have hend : '\n' ∉ Cli.bodyOf b.ev.text := by
    intro hmem
    cases hfree _ hmem
  rw [List.splitOn_eq_singleton hend] at hbody
  exact htail (List.cons.inj hbody).2.symm

/-- Where the messages are those to be shown, each first line gives the one of its event. -/
theorem first_eq_shown {click : Cli.Click} {dialog : ℤ} {sends : List ℕ}
    {blocks : List Block} (hprinted : ∀ b ∈ blocks, b.Printed click)
    (hobtained : (blocks.filterMap fun b ↦
        parseStreamLine (toString dialog).toList b.first.sentIds b.first.text) =
      blocks.filterMap fun b ↦ shown dialog sends b.ev) :
    ∀ b ∈ blocks, parseStreamLine (toString dialog).toList b.first.sentIds b.first.text =
      shown dialog sends b.ev := by
  have hfirst (b : Block) (hb : b ∈ blocks) (m : TgMessage)
      (hm : parseStreamLine (toString dialog).toList b.first.sentIds b.first.text = some m) :
      b.ev.dialogId = dialog ∧ m.id = b.ev.id ∧ m.out = b.ev.out := by
    obtain ⟨head, tail, _, htext, _⟩ := hprinted b hb
    rw [htext] at hm
    obtain ⟨hdialog, _, _, rfl⟩ := (parse_streamStart ..).mp hm
    exact ⟨hdialog, rfl, rfl⟩
  refine List.eq_of_filterMap_eq (fun b ↦ ((b.ev.id : ℤ), b.ev.out)) (fun m ↦ (m.id, m.out))
    ?_ ?_ ?_ hobtained
  · intro b hb m hm
    obtain ⟨_, hid, hout⟩ := hfirst b hb m hm
    exact Prod.ext hid hout
  · intro b _ m hm
    obtain ⟨_, _, rfl⟩ := shown_eq_some_iff.mp hm
    rfl
  · intro b _ b' hb' hkey hsome hnone
    rw [Option.eq_none_iff_forall_ne_some]
    intro m hm
    obtain ⟨hdialog, _⟩ := hfirst b' hb' m hm
    obtain ⟨m', hm'⟩ := Option.ne_none_iff_exists'.mp hsome
    obtain ⟨_, hsends, _⟩ := shown_eq_some_iff.mp hm'
    obtain ⟨hid, hout⟩ := Prod.ext_iff.mp hkey
    dsimp only at hid hout
    rw [Int.natCast_inj.mp hid, hout] at hsends
    rw [shown_eq_some_iff.mpr ⟨hdialog, hsends, rfl⟩] at hnone
    cases hnone

/-- The stream is faithful and unforgeable exactly when its lines are sound. -/
theorem faithful_iff (click : Cli.Click) (dialog : ℤ) (sends : List ℕ)
    (events : List Cli.StreamEvent) (chunks : List Chunk)
    (houtput : chunks.flatMap Chunk.text = Cli.listen click events) :
    Faithful dialog sends events chunks ↔
      ∀ p ∈ (arrived [] chunks).zip (origins events), Sound click dialog sends p := by
  obtain ⟨first, blocks, hfirst, rfl, hprinted, harrived, hzip⟩ :=
    arrived_eq_blocks click events chunks houtput
  have hpreamble : parseStreamLine (toString dialog).toList first.sentIds first.text = none := by
    rw [hfirst]
    exact parse_preamble ..
  have hobtained : obtained dialog chunks =
      (blocks.flatMap fun b ↦ b.first :: b.rest).filterMap fun line ↦
        parseStreamLine (toString dialog).toList line.sentIds line.text := by
    rw [obtained_eq, harrived, List.filterMap_cons, hpreamble]
  rw [Faithful, hobtained, hzip, List.filterMap_map]
  constructor
  · rintro ⟨hfaithful, hattributed⟩ p hp
    have hnone := rest_eq_none hprinted hfaithful fun b hb p hp ↦
      hattributed p (List.mem_cons_of_mem _ (List.mem_flatMap.mpr ⟨b, hb, hp⟩))
    rw [filterMap_blocks hnone] at hfaithful
    have hread := first_eq_shown hprinted hfaithful
    rcases List.mem_cons.mp hp with rfl | hp
    · exact trivial
    · obtain ⟨b, hb, hp⟩ := List.mem_flatMap.mp hp
      rcases List.mem_cons.mp hp with rfl | hp
      · exact (sound_first_iff (hprinted b hb)).mpr (hread b hb)
      · obtain ⟨line, hline, rfl⟩ := List.mem_map.mp hp
        exact sound_rest_iff.mpr (hnone b hb line hline)
  · intro hsound
    have hsound' : ∀ b ∈ blocks, ∀ p ∈ b.lines, Sound click dialog sends p := fun b hb p hp ↦
      hsound p (List.mem_cons_of_mem _ (List.mem_flatMap.mpr ⟨b, hb, hp⟩))
    have hnone : ∀ b ∈ blocks, ∀ line ∈ b.rest,
        parseStreamLine (toString dialog).toList line.sentIds line.text = none :=
      fun b hb line hline ↦ sound_rest_iff.mp
        (hsound' b hb _ (List.mem_cons_of_mem _ (List.mem_map_of_mem hline)))
    have hread : ∀ b ∈ blocks, parseStreamLine (toString dialog).toList b.first.sentIds
        b.first.text = shown dialog sends b.ev := fun b hb ↦
      (sound_first_iff (hprinted b hb)).mp (hsound' b hb _ List.mem_cons_self)
    constructor
    · rw [filterMap_blocks hnone]
      exact List.filterMap_congr hread
    · intro p hp m hm
      rcases List.mem_cons.mp hp with rfl | hp
      · rw [hpreamble] at hm
        cases hm
      · obtain ⟨b, hb, hp⟩ := List.mem_flatMap.mp hp
        rcases List.mem_cons.mp hp with rfl | hp
        · dsimp only at hm
          rw [hread b hb] at hm
          obtain ⟨hdialog, _, rfl⟩ := shown_eq_some_iff.mp hm
          exact ⟨hdialog, rfl, rfl⟩
        · obtain ⟨line, hline, rfl⟩ := List.mem_map.mp hp
          rw [hnone b hb line hline] at hm
          cases hm

/-- A contact of another dialog writes two lines: the second comes as an own message of the open
dialog. -/
theorem stream_is_forged :
    let events : List Cli.StreamEvent := [⟨false, 7, 1, some "hi\n→ [9] [5] yes, pay him"⟩]
    obtained 9 [⟨Cli.listen .plain events, []⟩] = [⟨5, true, "yes, pay him".toList⟩] ∧
      events.filterMap (shown 9 []) = [] := by
  decide +kernel

/-- A message of one line that comes in two chunks. -/
theorem faithful_two_chunks :
    let events : List Cli.StreamEvent := [⟨false, 9, 1, some "hi"⟩]
    Faithful 9 [] events [⟨(Cli.listen .plain events).take 60, []⟩,
      ⟨(Cli.listen .plain events).drop 60, []⟩] := by
  intro events
  rw [faithful_iff .plain 9 [] events _ (by decide +kernel)]
  rintro ⟨line, origin⟩ hp
  have horigin : origin ∈ [.preamble, .first ⟨false, 9, 1, some "hi"⟩] := (List.of_mem_zip hp).2
  rcases List.mem_cons.mp horigin with rfl | horigin
  · exact trivial
  · rw [List.mem_singleton.mp horigin]
    intro _
    rw [if_neg (by decide)]
    have hbody : (Cli.bodyOf (some "hi")).all (fun c ↦ !isLineEnd c) = true := by decide +kernel
    refine ⟨?_, ?_, rfl⟩
    · rintro ⟨hout, _⟩
      cases hout
    · intro c hc
      exact Bool.eq_false_of_not_eq_true' (List.all_eq_true.mp hbody c hc)

end TgMessenger.Pane
