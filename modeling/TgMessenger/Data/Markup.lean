import Mathlib.Data.List.Chain
import Mathlib.Data.List.Nodup
import Mathlib.Tactic.SplitIfs

/-!
# Markup

Fragments of HTML that consist of tags with quoted attributes and of text, and how a browser reads
them: it replaces the ends of lines, and its tokenizer goes through the characters.  Text that was
escaped is read as text, wherever it stands.
-/

namespace Markup

/-- What the tokenizer emits. -/
inductive Token where
  | start (name : List Char) (attributes : List (List Char × List Char))
  | stop (name : List Char)
  | char (c : Char)
deriving DecidableEq

/-! ## The tokenizer -/

/-- The characters of names. -/
def isNameChar (c : Char) : Bool := c.isLower || c.isDigit || c == '-'

/-- The character references that escaping uses. -/
def decode (l : List Char) : Option Char :=
  if l = ['a', 'm', 'p'] then some '&'
  else if l = ['l', 't'] then some '<'
  else if l = ['g', 't'] then some '>'
  else if l = ['q', 'u', 'o', 't'] then some '"'
  else if l = ['#', 'x', '2', '7'] then some '\''
  else none

/-- Where the tokenizer stands. -/
inductive State where
  | data
  | reference (buffer : List Char)
  | opened
  | startName (name : List Char)
  | stopName (name : List Char)
  | between (name : List Char) (attributes : List (List Char × List Char))
  | key (name : List Char) (attributes : List (List Char × List Char)) (key : List Char)
  | equals (name : List Char) (attributes : List (List Char × List Char)) (key : List Char)
  | value (name : List Char) (attributes : List (List Char × List Char)) (key value : List Char)
  | valueReference (name : List Char) (attributes : List (List Char × List Char))
      (key value buffer : List Char)
  | behind (name : List Char) (attributes : List (List Char × List Char))

/-- An attribute that is there already is dropped. -/
def addAttribute (attributes : List (List Char × List Char)) (key value : List Char) :
    List (List Char × List Char) :=
  if attributes.any (fun a ↦ a.1 = key) then attributes else attributes ++ [(key, value)]

/-- U+0000 is replaced in a value. -/
def valueChar (c : Char) : Char := if c = '\x00' then '\ufffd' else c

/-- One character; `none` for what does not occur in the fragments.  U+0000 in the data is dropped
here: a browser's tokenizer emits it, and the tree builder, which there is none of here, ignores it
in the body of a page. -/
def next : State → Char → Option (State × List Token)
  | .data, c =>
    if c = '<' then some (.opened, [])
    else if c = '&' then some (.reference [], [])
    else if c = '\x00' then some (.data, [])
    else some (.data, [.char c])
  | .reference buffer, c =>
    if c = ';' then (decode buffer).map fun c ↦ (.data, [.char c])
    else some (.reference (buffer ++ [c]), [])
  | .opened, c =>
    if c = '/' then some (.stopName [], [])
    else if c.isLower then some (.startName [c], [])
    else none
  | .startName name, c =>
    if isNameChar c then some (.startName (name ++ [c]), [])
    else if c = ' ' then some (.between name [], [])
    else if c = '>' then some (.data, [.start name []])
    else none
  | .stopName name, c =>
    if isNameChar c then some (.stopName (name ++ [c]), [])
    else if c = '>' ∧ name ≠ [] then some (.data, [.stop name])
    else none
  | .between name attributes, c =>
    if isNameChar c then some (.key name attributes [c], []) else none
  | .key name attributes key, c =>
    if isNameChar c then some (.key name attributes (key ++ [c]), [])
    else if c = '=' then some (.equals name attributes key, [])
    else none
  | .equals name attributes key, c =>
    if c = '"' then some (.value name attributes key [], []) else none
  | .value name attributes key value, c =>
    if c = '"' then some (.behind name (addAttribute attributes key value), [])
    else if c = '&' then some (.valueReference name attributes key value [], [])
    else some (.value name attributes key (value ++ [valueChar c]), [])
  | .valueReference name attributes key value buffer, c =>
    if c = ';' then
      (decode buffer).map fun c ↦ (.value name attributes key (value ++ [valueChar c]), [])
    else some (.valueReference name attributes key value (buffer ++ [c]), [])
  | .behind name attributes, c =>
    if c = ' ' then some (.between name attributes, [])
    else if c = '>' then some (.data, [.start name attributes])
    else none

/-- A text that ends elsewhere than in the data is refused. -/
def finish : State → Option (List Token)
  | .data => some []
  | _ => none

/-- The tokens of a text. -/
def run : State → List Char → Option (List Token)
  | s, [] => finish s
  | s, c :: l => (next s c).bind fun r ↦ (run r.1 l).map (r.2 ++ ·)

/-- The ends of lines are replaced; `afterReturn` says that a carriage return was before. -/
def normalizeFrom : Bool → List Char → List Char
  | _, [] => []
  | afterReturn, c :: l =>
    if c = '\r' then '\n' :: normalizeFrom true l
    else if c = '\n' ∧ afterReturn then normalizeFrom false l
    else c :: normalizeFrom false l

def normalize (l : List Char) : List Char := normalizeFrom false l

/-- What a browser reads. -/
def read (l : List Char) : Option (List Token) := run .data (normalize l)

/-! ## Escaping -/

def escapeChar (c : Char) : List Char :=
  if c = '&' then ['&', 'a', 'm', 'p', ';']
  else if c = '<' then ['&', 'l', 't', ';']
  else if c = '>' then ['&', 'g', 't', ';']
  else if c = '"' then ['&', 'q', 'u', 'o', 't', ';']
  else if c = '\'' then ['&', '#', 'x', '2', '7', ';']
  else [c]

/-- `html.escape`. -/
def escape (l : List Char) : List Char := l.flatMap escapeChar

@[simp] theorem escape_nil : escape [] = [] := rfl

@[simp] theorem escape_cons (c : Char) (l : List Char) :
    escape (c :: l) = escapeChar c ++ escape l := List.flatMap_cons

@[simp] theorem escape_append (l r : List Char) : escape (l ++ r) = escape l ++ escape r :=
  List.flatMap_append

/-- Where there is nothing to escape. -/
theorem escape_eq_self {l : List Char} (h : ∀ c ∈ l, escapeChar c = [c]) : escape l = l := by
  induction l with
  | nil => rfl
  | cons c l ih =>
    rw [escape, List.flatMap_cons, h c List.mem_cons_self]
    exact congrArg (c :: ·) (ih fun c hc ↦ h c (List.mem_cons_of_mem _ hc))

theorem entity_of_decode {name : List Char} {c : Char} (h : decode name = some c)
    (hname : (name.all fun d ↦ d ≠ ';' && d ≠ '\r') = true)
    (hc : c ≠ '\r' ∧ c ≠ '\n' ∧ c ≠ '\x00') :
    decode name = some c ∧ (∀ d ∈ name, d ≠ ';') ∧ '\r' ∉ name ∧ c ≠ '\r' ∧ c ≠ '\n' ∧
      c ≠ '\x00' := by
  have hall (d : Char) (hd : d ∈ name) : d ≠ ';' ∧ d ≠ '\r' := by
    simpa using List.all_eq_true.mp hname d hd
  exact ⟨h, fun d hd ↦ (hall d hd).1, fun hd ↦ (hall _ hd).2 rfl, hc⟩

/-- A character that is escaped, or stands for itself. -/
theorem escapeChar_cases (c : Char) :
    (∃ name, escapeChar c = '&' :: name ++ [';'] ∧ decode name = some c ∧
      (∀ d ∈ name, d ≠ ';') ∧ '\r' ∉ name ∧ c ≠ '\r' ∧ c ≠ '\n' ∧ c ≠ '\x00') ∨
    (escapeChar c = [c] ∧ c ≠ '&' ∧ c ≠ '<' ∧ c ≠ '"') := by
  rw [escapeChar]
  split_ifs with hamp hlt hgt hquot hapos
  · subst hamp
    exact .inl ⟨['a', 'm', 'p'], rfl, entity_of_decode rfl rfl (by decide)⟩
  · subst hlt
    exact .inl ⟨['l', 't'], rfl, entity_of_decode rfl rfl (by decide)⟩
  · subst hgt
    exact .inl ⟨['g', 't'], rfl, entity_of_decode rfl rfl (by decide)⟩
  · subst hquot
    exact .inl ⟨['q', 'u', 'o', 't'], rfl, entity_of_decode rfl rfl (by decide)⟩
  · subst hapos
    exact .inl ⟨['#', 'x', '2', '7'], rfl, entity_of_decode rfl rfl (by decide)⟩
  · exact .inr ⟨rfl, hamp, hlt, hquot⟩

/-! ## The ends of lines -/

theorem normalizeFrom_cons {b : Bool} {c : Char} (hreturn : c ≠ '\r') (hnewline : c ≠ '\n')
    (l : List Char) : normalizeFrom b (c :: l) = c :: normalizeFrom false l := by
  rw [normalizeFrom, if_neg hreturn, if_neg fun h ↦ hnewline h.1]

theorem normalize_append {u : List Char} (hu : '\r' ∉ u) (v : List Char) :
    normalize (u ++ v) = u ++ normalize v := by
  induction u with
  | nil => rfl
  | cons c u ih =>
    have hc : c ≠ '\r' := fun hc ↦ hu (hc ▸ List.mem_cons_self)
    rw [List.cons_append, normalize, normalizeFrom, if_neg hc, if_neg (by simp)]
    exact congrArg (c :: ·) (ih fun hmem ↦ hu (List.mem_cons_of_mem _ hmem))

/-- A text whose next character does not end a line. -/
theorem normalizeFrom_append {v : List Char} (hv : v.head? ≠ some '\n') (b : Bool) (u : List Char) :
    normalizeFrom b (u ++ v) = normalizeFrom b u ++ normalize v := by
  induction u generalizing b with
  | nil =>
    cases v with
    | nil => rfl
    | cons c v =>
      have hc : c ≠ '\n' := fun hc ↦ hv (congrArg some hc)
      rw [List.nil_append, normalizeFrom, normalize, normalizeFrom, normalizeFrom]
      simp [hc]
  | cons c u ih =>
    rw [List.cons_append, normalizeFrom, normalizeFrom]
    split_ifs
    · rw [ih, List.cons_append]
    · exact ih false
    · rw [ih, List.cons_append]

theorem normalize_append_cons {c : Char} (hreturn : c ≠ '\r') (hnewline : c ≠ '\n')
    (u v : List Char) : normalize (u ++ c :: v) = normalize u ++ c :: normalize v := by
  have hhead : (c :: v).head? ≠ some '\n' := fun h ↦ hnewline (Option.some.inj h)
  rw [normalize, normalizeFrom_append hhead, normalize, normalizeFrom_cons hreturn hnewline]
  rfl

/-- The ends of lines are not escaped. -/
theorem normalizeFrom_escape (b : Bool) (l : List Char) :
    normalizeFrom b (escape l) = escape (normalizeFrom b l) := by
  induction l generalizing b with
  | nil => rfl
  | cons c l ih =>
    rw [escape, List.flatMap_cons]
    rcases escapeChar_cases c with ⟨name, hc, -, -, hreturn, hc', hc'', -⟩ | ⟨hc, -⟩
    · have hname : '\r' ∉ name ++ [';'] := by simp [hreturn]
      have hstart : normalizeFrom b (('&' :: name ++ [';']) ++ escape l) =
          '&' :: (name ++ [';']) ++ normalize (escape l) := by
        rw [List.cons_append, List.cons_append, normalizeFrom_cons (by decide) (by decide)]
        exact congrArg ('&' :: ·) (normalize_append hname _)
      rw [normalizeFrom_cons hc' hc'', hc]
      refine hstart.trans ?_
      rw [normalize, ih, escape, escape, List.flatMap_cons, hc]
      rfl
    · rw [hc, List.singleton_append, normalizeFrom, normalizeFrom]
      split_ifs with hreturn
      · rw [← escape, ih]
        rfl
      · exact ih false
      · rw [← escape, ih, escape, escape, List.flatMap_cons, hc]
        rfl

/-! ## Reading on -/

/-- Reading `l` leads from a state to another, and emits tokens. -/
def Leads (s : State) (l : List Char) (s' : State) (out : List Token) : Prop :=
  ∀ rest, run s (l ++ rest) = (run s' rest).map (out ++ ·)

namespace Leads

variable {s s' s'' : State} {l l' : List Char} {out out' : List Token} {c : Char}

theorem refl (s : State) : Leads s [] s [] := by
  intro rest
  show run s rest = (run s rest).map id
  rw [Option.map_id_fun, id]

theorem trans (h : Leads s l s' out) (h' : Leads s' l' s'' out') :
    Leads s (l ++ l') s'' (out ++ out') := by
  intro rest
  rw [List.append_assoc, h, h', Option.map_map]
  congr 1
  funext tokens
  exact (List.append_assoc ..).symm

theorem step (h : next s c = some (s', out)) : Leads s [c] s' out := by
  intro rest
  show (next s c).bind _ = _
  rw [h]
  rfl

theorem cons (h : next s c = some (s', [])) (h' : Leads s' l s'' out) :
    Leads s (c :: l) s'' out := (step h).trans h'

theorem run_eq (h : Leads .data l .data out) : run .data l = some out := by
  have hrun := h []
  rw [List.append_nil] at hrun
  rw [hrun]
  exact congrArg some (List.append_nil out)

end Leads

/-- Characters that are put into a buffer. -/
theorem leads_buffer {s : List Char → State} {p : Char → Prop}
    (h : ∀ before c, p c → next (s before) c = some (s (before ++ [c]), [])) {l : List Char}
    (hl : ∀ c ∈ l, p c) (before : List Char) : Leads (s before) l (s (before ++ l)) [] := by
  induction l generalizing before with
  | nil =>
    rw [List.append_nil]
    exact .refl _
  | cons c l ih =>
    have hrest := ih (fun c hc ↦ hl c (List.mem_cons_of_mem _ hc)) (before ++ [c])
    rw [List.append_assoc] at hrest
    exact .cons (h before c (hl c List.mem_cons_self)) hrest

variable {name : List Char} {attributes : List (List Char × List Char)}

theorem leads_startName {l : List Char} (h : ∀ c ∈ l, isNameChar c = true) (before : List Char) :
    Leads (.startName before) l (.startName (before ++ l)) [] :=
  leads_buffer (s := .startName) (fun _ _ hc ↦ if_pos hc) h before

theorem leads_stopName {l : List Char} (h : ∀ c ∈ l, isNameChar c = true) (before : List Char) :
    Leads (.stopName before) l (.stopName (before ++ l)) [] :=
  leads_buffer (s := .stopName) (fun _ _ hc ↦ if_pos hc) h before

theorem leads_key {l : List Char} (h : ∀ c ∈ l, isNameChar c = true) (before : List Char) :
    Leads (.key name attributes before) l (.key name attributes (before ++ l)) [] :=
  leads_buffer (s := .key name attributes) (fun _ _ hc ↦ if_pos hc) h before

theorem leads_reference {l : List Char} (h : ∀ c ∈ l, c ≠ ';') (before : List Char) :
    Leads (.reference before) l (.reference (before ++ l)) [] :=
  leads_buffer (s := .reference) (fun _ _ hc ↦ if_neg hc) h before

theorem leads_valueReference {key value l : List Char} (h : ∀ c ∈ l, c ≠ ';')
    (before : List Char) : Leads (.valueReference name attributes key value before) l
      (.valueReference name attributes key value (before ++ l)) [] :=
  leads_buffer (s := .valueReference name attributes key value) (fun _ _ hc ↦ if_neg hc) h before

/-! ## What escaped text is read as -/

/-- The characters of a text. -/
def textTokens (l : List Char) : List Token := (l.filter (· ≠ '\x00')).map .char

theorem textTokens_cons {c : Char} (hc : c ≠ '\x00') (l : List Char) :
    textTokens (c :: l) = [.char c] ++ textTokens l := by
  rw [textTokens, List.filter_cons, if_pos (decide_eq_true hc)]
  rfl

theorem leads_escape (l : List Char) : Leads .data (escape l) .data (textTokens l) := by
  induction l with
  | nil => exact .refl _
  | cons c l ih =>
    obtain ⟨entity, hc, hdecode, hend, -, -, -, hzero⟩ | ⟨hc, hamp, hlt, -⟩ := escapeChar_cases c
    · have hrefers : Leads .data ('&' :: (entity ++ [';'])) .data [.char c] := by
        have hamp : next .data '&' = some (.reference [], []) := rfl
        refine .cons hamp (.trans (leads_reference hend []) (.step ?_))
        show (decode entity).map _ = _
        rw [hdecode]
        rfl
      rw [escape, List.flatMap_cons, hc, textTokens_cons hzero]
      exact hrefers.trans ih
    · rw [escape, List.flatMap_cons, hc]
      by_cases hzero : c = '\x00'
      · subst hzero
        exact .cons rfl ih
      · have hstep : next .data c = some (.data, [.char c]) := by
          rw [next, if_neg hlt, if_neg hamp, if_neg hzero]
        rw [textTokens_cons hzero]
        exact (Leads.step hstep).trans ih

theorem leads_escape_value (key l before : List Char) :
    Leads (.value name attributes key before) (escape l)
      (.value name attributes key (before ++ l.map valueChar)) [] := by
  induction l generalizing before with
  | nil =>
    rw [List.map_nil, List.append_nil]
    exact .refl _
  | cons c l ih =>
    have hrest := ih (before ++ [valueChar c])
    rw [List.append_assoc] at hrest
    rw [escape, List.flatMap_cons]
    rcases escapeChar_cases c with ⟨entity, hc, hdecode, hend, -⟩ | ⟨hc, hamp, -, hquot⟩
    · have hrefers : Leads (.value name attributes key before) ('&' :: (entity ++ [';']))
          (.value name attributes key (before ++ [valueChar c])) [] := by
        have hamp : next (.value name attributes key before) '&' =
            some (.valueReference name attributes key before [], []) := rfl
        refine .cons hamp (.trans (leads_valueReference hend []) (.step ?_))
        show (decode entity).map _ = _
        rw [hdecode]
        rfl
      rw [hc]
      exact hrefers.trans hrest
    · have hstep : next (.value name attributes key before) c =
          some (.value name attributes key (before ++ [valueChar c]), []) := by
        rw [next, if_neg hquot, if_neg hamp]
      rw [hc]
      exact .cons hstep hrest

/-! ## Fragments -/

/-- A part of a fragment. -/
inductive Piece where
  | start (name : List Char) (attributes : List (List Char × List Char))
  | stop (name : List Char)
  | text (l : List Char)

namespace Piece

/-- An attribute of a tag. -/
def renderAttribute (a : List Char × List Char) : List Char :=
  ' ' :: a.1 ++ '=' :: '"' :: escape a.2 ++ ['"']

def render : Piece → List Char
  | start name attributes => '<' :: name ++ attributes.flatMap renderAttribute ++ ['>']
  | stop name => '<' :: '/' :: name ++ ['>']
  | text l => escape l

/-- What an attribute is read as. -/
def readAttribute (a : List Char × List Char) : List Char × List Char :=
  (a.1, (normalize a.2).map valueChar)

/-- What it is read as. -/
def tokens : Piece → List Token
  | start name attributes => [.start name (attributes.map readAttribute)]
  | stop name => [.stop name]
  | text l => textTokens (normalize l)

/-- The name of a tag. -/
def isTagName : List Char → Bool
  | [] => false
  | c :: l => c.isLower && l.all isNameChar

/-- The name of an attribute. -/
def isKey (key : List Char) : Bool := key ≠ [] && key.all isNameChar

/-- The names are proper. -/
def isProper : Piece → Bool
  | start name attributes =>
    isTagName name && attributes.all (fun a ↦ isKey a.1) &&
      decide ((attributes.map Prod.fst).Nodup)
  | stop name => isTagName name
  | text _ => true

def isText : Piece → Bool
  | text _ => true
  | _ => false

end Piece

open Piece

theorem return_notMem_of_isNameChar {l : List Char} (h : ∀ c ∈ l, isNameChar c = true) :
    '\r' ∉ l := by
  intro hmem
  have hreturn := h _ hmem
  revert hreturn
  decide

theorem isNameChar_of_isLower {c : Char} (h : c.isLower = true) : isNameChar c = true := by
  rw [isNameChar, h]
  rfl

/-- The characters of a name. -/
theorem isNameChar_of_isTagName (h : isTagName name = true) :
    (∃ c l, name = c :: l ∧ c.isLower = true) ∧ ∀ c ∈ name, isNameChar c = true := by
  cases name with
  | nil => cases h
  | cons c l =>
    rw [isTagName, Bool.and_eq_true, List.all_eq_true] at h
    refine ⟨⟨c, l, rfl, h.1⟩, ?_⟩
    rintro d (_ | ⟨_, hd⟩)
    · exact isNameChar_of_isLower h.1
    · exact h.2 d hd

theorem leads_startTag (h : isTagName name = true) :
    Leads .data ('<' :: name) (.startName name) [] := by
  obtain ⟨⟨c, l, rfl, hc⟩, hname⟩ := isNameChar_of_isTagName h
  have hslash : c ≠ '/' := by
    rintro rfl
    cases hc
  have hopened : next .data '<' = some (.opened, []) := rfl
  have hfirst : next .opened c = some (.startName [c], []) := by
    rw [next, if_neg hslash, if_pos hc]
  have hrest := leads_startName (fun c hc ↦ hname c (List.mem_cons_of_mem _ hc)) [c]
  exact .cons hopened (.cons hfirst hrest)

/-- One attribute is read, after a name or after another attribute. -/
theorem leads_attribute {s : State} (hs : next s ' ' = some (.between name attributes, []))
    {key : List Char} (hkey : isKey key = true) (hnew : key ∉ attributes.map Prod.fst)
    (l : List Char) : Leads s (renderAttribute (key, l))
      (.behind name (attributes ++ [(key, l.map valueChar)])) [] := by
  rw [isKey, Bool.and_eq_true, List.all_eq_true, decide_eq_true_eq] at hkey
  obtain ⟨hne, hchars⟩ := hkey
  obtain ⟨c, rest, rfl⟩ := List.exists_cons_of_ne_nil hne
  have hfirst : next (.between name attributes) c = some (.key name attributes [c], []) :=
    if_pos (hchars c List.mem_cons_self)
  have hrest : Leads (.key name attributes [c]) rest (.key name attributes (c :: rest)) [] :=
    leads_key (fun c hc ↦ hchars c (List.mem_cons_of_mem _ hc)) [c]
  have hvalue : Leads (.value name attributes (c :: rest) []) (escape l)
      (.value name attributes (c :: rest) (l.map valueChar)) [] :=
    leads_escape_value (c :: rest) l []
  have hclose : next (.value name attributes (c :: rest) (l.map valueChar)) '"' =
      some (.behind name (attributes ++ [(c :: rest, l.map valueChar)]), []) := by
    have hfree : ¬ attributes.any (fun a ↦ a.1 = c :: rest) = true := by
      simpa [List.any_eq_true] using hnew
    rw [next, if_pos rfl, addAttribute, if_neg hfree]
  have hbehind : Leads (.key name attributes (c :: rest)) ('=' :: '"' :: (escape l ++ ['"']))
      (.behind name (attributes ++ [(c :: rest, l.map valueChar)])) [] :=
    .cons rfl (.cons rfl (hvalue.trans (.step hclose)))
  have hall := Leads.cons hs (.cons hfirst (hrest.trans hbehind))
  simpa [renderAttribute] using hall

/-- The attributes of a tag are read. -/
theorem leads_attributes {s : State} (hs : next s ' ' = some (.between name attributes, []))
    (hend : next s '>' = some (.data, [.start name attributes]))
    {more : List (List Char × List Char)} (hkeys : ∀ a ∈ more, isKey a.1 = true)
    (hnodup : ((attributes ++ more).map Prod.fst).Nodup) :
    Leads s (more.flatMap renderAttribute ++ ['>']) .data
      [.start name (attributes ++ more.map fun a ↦ (a.1, a.2.map valueChar))] := by
  induction more generalizing s attributes with
  | nil =>
    rw [List.map_nil, List.append_nil]
    exact .step hend
  | cons a more ih =>
    obtain ⟨key, l⟩ := a
    have hnew : key ∉ attributes.map Prod.fst := by
      rw [List.map_append] at hnodup
      exact fun hmem ↦ List.disjoint_of_nodup_append hnodup hmem List.mem_cons_self
    have hattribute := leads_attribute hs (hkeys _ List.mem_cons_self) hnew l
    have hrest := ih (s := .behind name (attributes ++ [(key, l.map valueChar)])) rfl rfl
      (fun a ha ↦ hkeys a (List.mem_cons_of_mem _ ha)) (by simpa using hnodup)
    have hall := hattribute.trans hrest
    rw [List.append_assoc] at hall
    rw [List.flatMap_cons, List.append_assoc]
    exact hall

theorem leads_stopTag (h : isTagName name = true) :
    Leads .data ('<' :: '/' :: name ++ ['>']) .data [.stop name] := by
  obtain ⟨⟨c, l, hcons, -⟩, hname⟩ := isNameChar_of_isTagName h
  have hne : name ≠ [] := by
    rw [hcons]
    exact List.cons_ne_nil c l
  have hclose : next (.stopName name) '>' = some (.data, [.stop name]) := if_pos ⟨rfl, hne⟩
  have hopened : next .data '<' = some (.opened, []) := rfl
  have hslash : next .opened '/' = some (.stopName [], []) := rfl
  exact .cons hopened (.cons hslash ((leads_stopName hname []).trans (.step hclose)))

/-! ## The ends of lines in a fragment -/

/-- The ends of lines in values are replaced. -/
theorem normalize_attributes {attributes : List (List Char × List Char)}
    (h : ∀ a ∈ attributes, isKey a.1 = true) (rest : List Char) :
    normalize (attributes.flatMap renderAttribute ++ rest) =
      (attributes.map fun a ↦ (a.1, normalize a.2)).flatMap renderAttribute ++ normalize rest := by
  induction attributes with
  | nil => rfl
  | cons a attributes ih =>
    obtain ⟨key, l⟩ := a
    have hkey : '\r' ∉ ' ' :: key ++ ['=', '"'] := by
      have hproper := h _ List.mem_cons_self
      rw [isKey, Bool.and_eq_true, List.all_eq_true] at hproper
      have hreturn := return_notMem_of_isNameChar hproper.2
      simpa using hreturn
    have hvalue : normalize (escape l ++ '"' :: (attributes.flatMap renderAttribute ++ rest)) =
        escape (normalize l) ++ '"' :: normalize (attributes.flatMap renderAttribute ++ rest) := by
      rw [normalize_append_cons (by decide) (by decide), normalize, normalizeFrom_escape]
      rfl
    have hsplit : ((key, l) :: attributes).flatMap renderAttribute ++ rest =
        (' ' :: key ++ ['=', '"']) ++
          (escape l ++ '"' :: (attributes.flatMap renderAttribute ++ rest)) := by
      simp [renderAttribute]
    rw [hsplit, normalize_append hkey, hvalue, ih fun a ha ↦ h a (List.mem_cons_of_mem _ ha)]
    simp [renderAttribute]

/-- One part is read. -/
theorem read_piece {p : Piece} (h : p.isProper = true) : read p.render = some p.tokens := by
  cases p with
  | text l =>
    rw [render, read, normalize, normalizeFrom_escape]
    exact (leads_escape _).run_eq
  | stop name =>
    have hreturn : '\r' ∉ '<' :: '/' :: name ++ ['>'] := by
      have hname := return_notMem_of_isNameChar (isNameChar_of_isTagName h).2
      simpa using hname
    have hnormal := normalize_append hreturn []
    rw [show normalize [] = [] from rfl, List.append_nil] at hnormal
    rw [render, read, hnormal]
    exact (leads_stopTag h).run_eq
  | start name attributes =>
    rw [isProper, Bool.and_eq_true, Bool.and_eq_true, List.all_eq_true, decide_eq_true_eq] at h
    obtain ⟨⟨hname, hkeys⟩, hnodup⟩ := h
    have hreturn : '\r' ∉ '<' :: name := by
      have hname := return_notMem_of_isNameChar (isNameChar_of_isTagName hname).2
      simpa using hname
    have hkeys' : ∀ a ∈ attributes.map (fun a ↦ (a.1, normalize a.2)), isKey a.1 = true :=
      List.forall_mem_map.mpr hkeys
    have hnodup' : ((attributes.map fun a ↦ (a.1, normalize a.2)).map Prod.fst).Nodup := by
      simpa [Function.comp_def] using hnodup
    have hend : next (.startName name) '>' = some (.data, [.start name []]) := rfl
    have hleads := (leads_startTag hname).trans (leads_attributes rfl hend hkeys' hnodup')
    rw [render, read, List.append_assoc, normalize_append hreturn, normalize_attributes hkeys]
    refine hleads.run_eq.trans ?_
    rw [tokens, List.map_map]
    rfl

/-- A text is read that is followed by another. -/
theorem run_append {u v : List Char} {out : List Token} {s : State} (h : run s u = some out) :
    run s (u ++ v) = (run .data v).map (out ++ ·) := by
  induction u generalizing s out with
  | nil =>
    rw [run] at h
    cases s with
    | data =>
      obtain rfl := Option.some.inj h
      exact (congrFun Option.map_id_fun' _).symm
    | _ => cases h
  | cons c u ih =>
    obtain ⟨r, hnext, h⟩ := Option.bind_eq_some_iff.mp h
    obtain ⟨out', hrun, rfl⟩ := Option.map_eq_some_iff.mp h
    rw [List.cons_append, run, hnext, Option.bind_some, ih hrun, Option.map_map]
    congr 1
    funext tokens
    exact (List.append_assoc ..).symm

/-- A fragment is read that is followed by another, and does not end in the middle of a line's
end. -/
theorem read_append {u v : List Char} {out out' : List Token} (hu : read u = some out)
    (hv : read v = some out') (h : v.head? ≠ some '\n' ∨ u.getLast? = some '>') :
    read (u ++ v) = some (out ++ out') := by
  have hnormal : normalize (u ++ v) = normalize u ++ normalize v := by
    rcases h with h | h
    · exact normalizeFrom_append h false u
    · obtain ⟨u, rfl⟩ := List.getLast?_eq_some_iff.mp h
      rw [List.append_assoc, List.singleton_append, normalize_append_cons (by decide) (by decide),
        normalize_append_cons (by decide) (by decide), List.append_assoc]
      rfl
  rw [read, hnormal, run_append hu, show run .data (normalize v) = some out' from hv]
  rfl

theorem getLast?_render {p : Piece} (h : p.isText = false) : p.render.getLast? = some '>' := by
  cases p with
  | start name attributes => exact List.getLast?_concat
  | stop name => exact List.getLast?_concat
  | text l => cases h

theorem head?_render {p : Piece} (h : p.isText = false) (rest : List Char) :
    (p.render ++ rest).head? = some '<' := by
  cases p with
  | start name attributes => rfl
  | stop name => rfl
  | text l => cases h

/-- A fragment is read as what it was made of. -/
theorem read_render {pieces : List Piece} (hproper : ∀ p ∈ pieces, p.isProper = true)
    (happart : pieces.IsChain fun p q ↦ ¬ (p.isText = true ∧ q.isText = true)) :
    read (pieces.flatMap render) = some (pieces.flatMap tokens) := by
  induction pieces with
  | nil => rfl
  | cons p pieces ih =>
    have hrest := ih (fun q hq ↦ hproper q (List.mem_cons_of_mem _ hq)) happart.tail
    refine read_append (read_piece (hproper p List.mem_cons_self)) hrest ?_
    by_cases hp : p.isText = true
    · refine .inl ?_
      cases pieces with
      | nil => exact fun h ↦ nomatch h
      | cons q pieces =>
        have hq : q.isText = false :=
          Bool.eq_false_iff.mpr fun hq ↦ (List.isChain_cons_cons.mp happart).1 ⟨hp, hq⟩
        have hhead := head?_render hq (pieces.flatMap render)
        rw [← List.flatMap_cons] at hhead
        intro h
        cases hhead.symm.trans h
    · exact .inr (getLast?_render (Bool.eq_false_iff.mpr hp))

/-- Parts that begin and end with tags. -/
structure IsBlock (pieces : List Piece) : Prop where
  proper : ∀ p ∈ pieces, p.isProper = true
  apart : pieces.IsChain fun p q ↦ ¬ (p.isText = true ∧ q.isText = true)
  first : ∀ p ∈ pieces.head?, p.isText = false
  last : ∀ p ∈ pieces.getLast?, p.isText = false

namespace IsBlock

variable {pieces pieces' : List Piece}

theorem nil : IsBlock [] where
  proper := by rintro p ⟨⟩
  apart := .nil
  first := by rintro p ⟨⟩
  last := by rintro p ⟨⟩

theorem tag {p : Piece} (hproper : p.isProper = true) (htag : p.isText = false) :
    IsBlock [p] where
  proper := List.forall_mem_singleton.mpr hproper
  apart := .singleton p
  first := by
    rintro _ ⟨⟩
    exact htag
  last := by
    rintro _ ⟨⟩
    exact htag

theorem append (h : IsBlock pieces) (h' : IsBlock pieces') : IsBlock (pieces ++ pieces') where
  proper := List.forall_mem_append.mpr ⟨h.proper, h'.proper⟩
  apart := by
    refine List.isChain_append.mpr ⟨h.apart, h'.apart, fun p hp q _ htexts ↦ ?_⟩
    rw [h.last p hp] at htexts
    cases htexts.1
  first := by
    intro p hp
    cases pieces with
    | nil => exact h'.first p hp
    | cons q pieces => exact h.first p hp
  last := by
    intro p hp
    cases pieces' with
    | nil => exact h.last p (by simpa using hp)
    | cons q pieces' => exact h'.last p (by simpa using hp)

/-- A text between two of them. -/
theorem text (h : IsBlock pieces) (h' : IsBlock pieces') (hne : pieces ≠ []) (hne' : pieces' ≠ [])
    (l : List Char) : IsBlock (pieces ++ .text l :: pieces') where
  proper := by
    refine List.forall_mem_append.mpr ⟨h.proper, ?_⟩
    rintro p (_ | ⟨_, hp⟩)
    · rfl
    · exact h'.proper p hp
  apart := by
    refine List.isChain_append.mpr ⟨h.apart, ?_, fun p hp q _ htexts ↦ ?_⟩
    · cases pieces' with
      | nil => exact absurd rfl hne'
      | cons q pieces' =>
        refine List.isChain_cons_cons.mpr ⟨fun htexts ↦ ?_, h'.apart⟩
        rw [h'.first q rfl] at htexts
        cases htexts.2
    · rw [h.last p hp] at htexts
      cases htexts.1
  first := by
    intro p hp
    cases pieces with
    | nil => exact absurd rfl hne
    | cons q pieces => exact h.first p hp
  last := by
    intro p hp
    cases pieces' with
    | nil => exact absurd rfl hne'
    | cons q pieces' => exact h'.last p (by simpa using hp)

theorem read (h : IsBlock pieces) :
    Markup.read (pieces.flatMap render) = some (pieces.flatMap tokens) :=
  read_render h.proper h.apart

theorem getLast?_render (h : IsBlock pieces) (hne : pieces ≠ []) :
    (pieces.flatMap render).getLast? = some '>' := by
  obtain ⟨pieces, p, rfl⟩ := List.eq_nil_or_concat pieces |>.resolve_left hne
  have hlast := h.last p (by simp)
  rw [List.concat_eq_append, List.flatMap_append, List.flatMap_singleton, List.getLast?_append,
    Markup.getLast?_render hlast]
  rfl

end IsBlock

/-- A list of fragments is read. -/
theorem read_flatMap {α : Type*} {f : α → List Piece} (l : List α)
    (h : ∀ x ∈ l, IsBlock (f x) ∧ f x ≠ []) :
    read (l.flatMap fun x ↦ (f x).flatMap render) =
      some (l.flatMap fun x ↦ (f x).flatMap tokens) := by
  induction l with
  | nil => rfl
  | cons x l ih =>
    obtain ⟨hx, hne⟩ := h x List.mem_cons_self
    have hrest := ih fun y hy ↦ h y (List.mem_cons_of_mem _ hy)
    exact read_append hx.read hrest (.inr (hx.getLast?_render hne))

end Markup
