import TgMessenger.Cli.Dotenv
import TgMessenger.Data.Lines
import Mathlib.Data.List.Sort

/-!
# Writing the `.env`

`core/dotenv.py` merges credentials into the `.env` of the home: the file is parsed, the pairs
are updated, and all of them are written back, bare.

A value is stripped of blanks and then of quotes when it is read, so what was within quotes can
begin or end with a blank; the quotes are not written back.
-/

namespace TgMessenger.Dotenv

open Cli

/-! ## The writer -/

/-- The pairs of a text. -/
def parsePairs (content : List Char) : OrderedDict String String :=
  OrderedDict.empty.update ((content.splitOnP isLineBoundary).filterMap parseLine)

/-- `_parse_dotenv_lines`; `none` when reading raises. -/
def parseDotenvLines : File → Option (OrderedDict String String)
  | .missing => some .empty
  | .unreadable => none
  | .text content => some (parsePairs content)

/-- A line of what is written. -/
def printPair (pair : String × String) : List Char := pair.1.toList ++ '=' :: pair.2.toList

/-- `serialized`: the pairs by key, one on a line. -/
def printPairs (pairs : OrderedDict String String) : List Char :=
  ['\n'].intercalate
      ((pairs.items.insertionSort fun pair pair' ↦ pair.1 ≤ pair'.1).map printPair) ++ ['\n']

/-- `write_env_values`: what the file has then; `none` when reading raises. -/
def writeEnvValues (file : File) (updates : OrderedDict String String) : Option (List Char) :=
  (parseDotenvLines file).map fun pairs ↦ printPairs (pairs.update updates.items)

/-! ## What a line can carry -/

/-- A key that a line can carry. -/
structure ParseableKey (key : String) : Prop where
  ne_nil : key.toList ≠ []
  strip : stripChars key.toList = key.toList
  bound : ∀ c ∈ key.toList, isLineBoundary c = false
  no_equals : '=' ∉ key.toList
  no_comment : key.toList.head? ≠ some '#'

/-- A value that a line can carry: no break of a line, no outer quotes or blanks. -/
structure ParseableValue (value : String) : Prop where
  strip : stripChars value.toList = value.toList
  quotes : stripQuotes value.toList = value.toList
  bound : ∀ c ∈ value.toList, isLineBoundary c = false

theorem stripQuotes_idempotent (text : List Char) :
    stripQuotes (stripQuotes text) = stripQuotes text := rdropWhile_dropWhile_idempotent _ text

theorem mem_of_mem_stripChars {text : List Char} {c : Char} (h : c ∈ stripChars text) :
    c ∈ text := List.dropWhile_subset _ ((List.rdropWhile_prefix _ _).subset h)

theorem mem_of_mem_stripQuotes {text : List Char} {c : Char} (h : c ∈ stripQuotes text) :
    c ∈ text := List.dropWhile_subset _ ((List.rdropWhile_prefix _ _).subset h)

/-- A line that is printed for a key that a line can carry is read back, its value stripped. -/
theorem parseLine_printPair {key : String} (hkey : ParseableKey key) (value : String) :
    parseLine (printPair (key, value)) =
      some (key, .ofList (stripQuotes (stripChars value.toList))) := by
  obtain ⟨c, rest, hcons⟩ := List.exists_cons_of_ne_nil hkey.ne_nil
  have hc : ¬ isSpace c = true := head_not_of_strip isSpace (hcons ▸ hkey.strip)
  have hequals : ¬ isSpace '=' = true := by decide
  -- stripping the line strips the end of the value
  have hstrip : stripChars (printPair (key, value)) =
      key.toList ++ '=' :: value.toList.rdropWhile isSpace := by
    rw [stripChars, rdropWhile_dropWhile_comm, printPair, rdropWhile_append_cons _ _ hequals,
      hcons, List.cons_append, List.dropWhile_cons_of_neg hc]
  have hcomment : (key.toList ++ '=' :: value.toList.rdropWhile isSpace).head? ≠ some '#' := by
    have hhead := hkey.no_comment
    rw [hcons] at hhead ⊢
    exact hhead
  have htake : (key.toList ++ '=' :: value.toList.rdropWhile isSpace).takeWhile
      (fun c ↦ decide (c ≠ '=')) = key.toList := by
    rw [List.takeWhile_append_of_pos, List.takeWhile_cons_of_neg (by simp), List.append_nil]
    intro c hmem
    rw [decide_eq_true_eq]
    rintro rfl
    exact hkey.no_equals hmem
  have hdrop : (key.toList ++ '=' :: value.toList.rdropWhile isSpace).dropWhile
      (fun c ↦ decide (c ≠ '=')) = '=' :: value.toList.rdropWhile isSpace := by
    rw [List.dropWhile_append_of_pos, List.dropWhile_cons_of_neg (by simp)]
    intro c hmem
    rw [decide_eq_true_eq]
    rintro rfl
    exact hkey.no_equals hmem
  have hvalue : stripChars (value.toList.rdropWhile isSpace) = stripChars value.toList := by
    rw [stripChars, rdropWhile_dropWhile_comm, List.rdropWhile_idempotent,
      ← rdropWhile_dropWhile_comm, stripChars]
  rw [parseLine, hstrip]
  dsimp only
  rw [if_neg, htake, hdrop, hkey.strip, if_neg hkey.ne_nil, List.tail_cons, hvalue,
    String.ofList_toList]
  rintro (hnil | hhead | hnot)
  · simp at hnil
  · exact hcomment hhead
  · exact hnot (List.mem_append_right _ List.mem_cons_self)

/-- What a line is read as can be carried by a line, the outer blanks of the value apart. -/
theorem of_parseLine {line : List Char} (hbound : ∀ c ∈ line, isLineBoundary c = false)
    {key value : String} (h : parseLine line = some (key, value)) :
    ParseableKey key ∧ stripQuotes value.toList = value.toList ∧
      ∀ c ∈ value.toList, isLineBoundary c = false := by
  rw [parseLine] at h
  dsimp only at h
  split_ifs at h with hline hkey
  rw [not_or, not_or, not_not] at hline
  obtain ⟨hnil, hhead, hequals⟩ := hline
  rw [Option.some.injEq, Prod.mk.injEq] at h
  obtain ⟨rfl, rfl⟩ := h
  have hmem : ∀ c ∈ stripChars line, isLineBoundary c = false := fun c hc ↦
    hbound c (mem_of_mem_stripChars hc)
  refine ⟨⟨?_, ?_, ?_, ?_, ?_⟩, ?_, ?_⟩
  · rwa [String.toList_ofList]
  · rw [String.toList_ofList, stripChars_idempotent]
  · intro c hc
    rw [String.toList_ofList] at hc
    exact hmem c (List.takeWhile_subset _ (mem_of_mem_stripChars hc))
  · intro hc
    rw [String.toList_ofList] at hc
    have hne := List.mem_takeWhile_imp (mem_of_mem_stripChars hc)
    simp at hne
  · -- the line is stripped, so the key begins where the line does
    rw [String.toList_ofList]
    obtain ⟨c, rest, hcons⟩ := List.exists_cons_of_ne_nil hnil
    have hc : ¬ isSpace c = true := by
      have hfixed := stripChars_idempotent line
      rw [hcons] at hfixed
      exact head_not_of_strip isSpace hfixed
    rw [hcons] at hhead hkey ⊢
    by_cases heq : c = '='
    · rw [List.takeWhile_cons_of_neg (by simp [heq])]
      exact fun hcomment ↦ nomatch hcomment
    · rw [List.takeWhile_cons_of_pos (by simp [heq]), stripChars, head?_strip isSpace hc]
      exact hhead
  · rw [String.toList_ofList, stripQuotes_idempotent]
  · intro c hc
    rw [String.toList_ofList] at hc
    have hvalue := mem_of_mem_stripChars (mem_of_mem_stripQuotes hc)
    exact hmem c (List.dropWhile_subset _ (List.mem_of_mem_tail hvalue))

/-! ## Reading what was written -/

/-- What is printed is read line by line. -/
theorem filterMap_parseLine_print {lines : List (List Char)}
    (hlines : ∀ line ∈ lines, ∀ c ∈ line, isLineBoundary c = false) :
    ((['
'].intercalate lines ++ ['
']).splitOnP isLineBoundary).filterMap parseLine =
      lines.filterMap parseLine := by
  induction lines with
  | nil => decide
  | cons line lines ih =>
    have hline := hlines line List.mem_cons_self
    cases lines with
    | nil =>
      rw [List.intercalate_singleton,
        List.splitOnP_append_cons_of_forall_mem hline '
' (by decide), List.splitOnP_nil,
        List.filterMap_cons, List.filterMap_cons]
      rfl
    | cons line' lines =>
      rw [List.intercalate_cons_cons, List.append_assoc, List.append_assoc, List.singleton_append,
        List.splitOnP_append_cons_of_forall_mem hline '
' (by decide), List.filterMap_cons,
        List.filterMap_cons, ih fun line hmem ↦ hlines line (List.mem_cons_of_mem _ hmem)]

/-- A value that is written bare, as it is read again. -/
def reread (value : String) : String := .ofList (stripQuotes (stripChars value.toList))

/-- A value is read as it was when it has no outer blanks. -/
theorem reread_eq_self_iff {value : String} (hquotes : stripQuotes value.toList = value.toList) :
    reread value = value ↔ stripChars value.toList = value.toList := by
  rw [reread, ← String.toList_inj, String.toList_ofList]
  constructor
  · intro heq
    by_contra hstrip
    have hlt := length_strip_lt isSpace hstrip
    have hle : (stripQuotes (stripChars value.toList)).length ≤ (stripChars value.toList).length :=
      (List.rdropWhile_prefix _ _).length_le.trans (List.dropWhile_sublist _).length_le
    rw [heq] at hle
    exact absurd hlt (by rw [stripChars] at hle; omega)
  · intro hstrip
    rw [hstrip, hquotes]

/-- What was written for keys that a line can carry. -/
theorem get?_parsePairs_printPairs {pairs : OrderedDict String String}
    (hkeys : ∀ key ∈ pairs.keys, ParseableKey key)
    (hbound : ∀ key value, pairs.get? key = some value →
      ∀ c ∈ value.toList, isLineBoundary c = false) (key : String) :
    (parsePairs (printPairs pairs)).get? key = (pairs.get? key).map reread := by
  have hperm := List.perm_insertionSort (fun pair pair' : String × String ↦ pair.1 ≤ pair'.1)
    pairs.items
  have hlines : ∀ line ∈ (pairs.items.insertionSort fun pair pair' ↦ pair.1 ≤ pair'.1).map
      printPair, ∀ c ∈ line, isLineBoundary c = false := by
    intro line hline c hc
    obtain ⟨pair, hpair, rfl⟩ := List.mem_map.mp hline
    have hmem := hperm.mem_iff.mp hpair
    rcases List.mem_append.mp hc with hc | hc
    · exact (hkeys pair.1 (List.mem_map_of_mem hmem)).bound c hc
    · rcases List.mem_cons.mp hc with rfl | hc
      · decide
      · exact hbound pair.1 pair.2 (OrderedDict.get?_eq_some_iff.mpr hmem) c hc
  have hread : ((pairs.items.insertionSort fun pair pair' ↦ pair.1 ≤ pair'.1).map
      printPair).filterMap parseLine =
        (pairs.items.insertionSort fun pair pair' ↦ pair.1 ≤ pair'.1).map
          fun pair ↦ (pair.1, reread pair.2) := by
    rw [List.filterMap_map, ← List.filterMap_eq_map]
    apply List.filterMap_congr
    intro pair hpair
    have hmem := hperm.mem_iff.mp hpair
    exact parseLine_printPair (hkeys pair.1 (List.mem_map_of_mem hmem)) pair.2
  have hnodup : (((pairs.items.insertionSort fun pair pair' ↦ pair.1 ≤ pair'.1).map
      fun pair ↦ (pair.1, reread pair.2)).map Prod.fst).Nodup := by
    rw [List.map_map]
    exact (hperm.map Prod.fst).nodup_iff.mpr pairs.nodup
  apply Option.ext
  intro value
  rw [parsePairs, printPairs, filterMap_parseLine_print hlines, hread,
    OrderedDict.get?_update_eq_some_iff hnodup, OrderedDict.get?_empty, Option.map_eq_some_iff]
  constructor
  · rintro (hmem | ⟨-, hnone⟩)
    · obtain ⟨pair, hpair, heq⟩ := List.mem_map.mp hmem
      obtain ⟨rfl, rfl⟩ := Prod.mk.inj heq
      exact ⟨pair.2, OrderedDict.get?_eq_some_iff.mpr (hperm.mem_iff.mp hpair), rfl⟩
    · cases hnone
  · rintro ⟨value', hget, rfl⟩
    have hmem := hperm.mem_iff.mpr (OrderedDict.get?_eq_some_iff.mp hget)
    exact .inl (List.mem_map_of_mem (f := fun pair ↦ (pair.1, reread pair.2)) hmem)

/-- What any text is read as. -/
theorem of_get?_parsePairs {content : List Char} {key value : String}
    (h : (parsePairs content).get? key = some value) :
    ParseableKey key ∧ stripQuotes value.toList = value.toList ∧
      ∀ c ∈ value.toList, isLineBoundary c = false := by
  rw [parsePairs, OrderedDict.get?_update, OrderedDict.get?_empty, Option.or_none] at h
  obtain ⟨before, after, heq, -⟩ := List.lookup_eq_some_iff.mp h
  have hmem : (key, value) ∈ (content.splitOnP isLineBoundary).filterMap parseLine := by
    rw [← List.mem_reverse, heq]
    exact List.mem_append_right _ List.mem_cons_self
  obtain ⟨line, hline, hparse⟩ := List.mem_filterMap.mp hmem
  exact of_parseLine (fun c hc ↦ Lines.of_mem_splitOnP hline hc) hparse

/-! ## What is preserved -/

/-- Parsing what was written gives the new value of every key that was updated, and the old
value of every other. -/
def Preserves (file : File) (updates : OrderedDict String String) : Prop :=
  ∃ old written, parseDotenvLines file = some old ∧ writeEnvValues file updates = some written ∧
    ∀ key, (parsePairs written).get? key = (updates.get? key).or (old.get? key)

theorem of_get?_parseDotenvLines {file : File} {old : OrderedDict String String}
    (hold : parseDotenvLines file = some old) {key value : String}
    (h : old.get? key = some value) :
    ParseableKey key ∧ stripQuotes value.toList = value.toList ∧
      ∀ c ∈ value.toList, isLineBoundary c = false := by
  cases file with
  | missing =>
    obtain rfl := Option.some.inj hold
    cases h
  | unreadable => cases hold
  | text content =>
    obtain rfl := Option.some.inj hold
    exact of_get?_parsePairs h

/-- What a pair of the merged file is: an updated one, or an old one. -/
theorem get?_merged (old updates : OrderedDict String String) (key : String) :
    (old.update updates.items).get? key = (updates.get? key).or (old.get? key) := by
  apply Option.ext
  intro value
  rw [OrderedDict.get?_update_eq_some_iff updates.nodup, ← OrderedDict.get?_eq_some_iff,
    Option.or_eq_some_iff, OrderedDict.get?_eq_none_iff]
  rfl

/-- With values that a line can carry, exactly then is everything preserved when a line can
carry the updated keys too, and no other value had blanks within its quotes, outermost. -/
theorem preserves_iff {file : File} {old : OrderedDict String String}
    (hold : parseDotenvLines file = some old) (updates : OrderedDict String String)
    (hvalues : ∀ key value, updates.get? key = some value → ParseableValue value) :
    Preserves file updates ↔ (∀ key ∈ updates.keys, ParseableKey key) ∧
      ∀ key value, old.get? key = some value → key ∉ updates.keys →
        stripChars value.toList = value.toList := by
  have hwritten : writeEnvValues file updates = some (printPairs (old.update updates.items)) := by
    rw [writeEnvValues, hold]
    rfl
  have hbound : ∀ key value, (old.update updates.items).get? key = some value →
      ∀ c ∈ value.toList, isLineBoundary c = false := by
    intro key value hget
    rw [get?_merged, Option.or_eq_some_iff] at hget
    rcases hget with hupdate | ⟨-, hget⟩
    · exact (hvalues key value hupdate).bound
    · exact (of_get?_parseDotenvLines hold hget).2.2
  have hread : (∀ key ∈ updates.keys, ParseableKey key) → ∀ key,
      (parsePairs (printPairs (old.update updates.items))).get? key =
        ((updates.get? key).or (old.get? key)).map reread := by
    intro hkeys key
    rw [get?_parsePairs_printPairs ?_ hbound, get?_merged]
    intro key hkey
    rw [← OrderedDict.contains_iff_mem_keys, OrderedDict.contains, Option.isSome_iff_exists] at hkey
    obtain ⟨value, hget⟩ := hkey
    rw [get?_merged, Option.or_eq_some_iff] at hget
    rcases hget with hupdate | ⟨-, hget⟩
    · exact hkeys key (List.mem_map_of_mem (OrderedDict.get?_eq_some_iff.mp hupdate))
    · exact (of_get?_parseDotenvLines hold hget).1
  constructor
  · rintro ⟨old', written, hold', hwritten', hpreserved⟩
    rw [hold, Option.some.injEq] at hold'
    rw [hwritten, Option.some.injEq] at hwritten'
    subst hold' hwritten'
    have hkeys : ∀ key ∈ updates.keys, ParseableKey key := by
      intro key hkey
      obtain ⟨pair, hpair, rfl⟩ := List.mem_map.mp hkey
      have hget := hpreserved pair.1
      rw [OrderedDict.get?_eq_some_iff.mpr hpair, Option.some_or] at hget
      exact (of_get?_parsePairs hget).1
    refine ⟨hkeys, ?_⟩
    intro key value hget hkey
    have hsame := hpreserved key
    rw [hread hkeys key, OrderedDict.get?_eq_none_iff.mpr hkey, Option.none_or, hget,
      Option.map_some, Option.some.injEq] at hsame
    exact (reread_eq_self_iff (of_get?_parseDotenvLines hold hget).2.1).mp hsame
  · rintro ⟨hkeys, hstrip⟩
    refine ⟨old, _, hold, hwritten, ?_⟩
    intro key
    rw [hread hkeys key]
    cases hupdate : updates.get? key with
    | some value =>
      have hvalue := hvalues key value hupdate
      rw [Option.some_or, Option.map_some, (reread_eq_self_iff hvalue.quotes).mpr hvalue.strip]
    | none =>
      rw [Option.none_or]
      cases hget : old.get? key with
      | none => rfl
      | some value =>
        have hquotes := (of_get?_parseDotenvLines hold hget).2.1
        have hvalue := hstrip key value hget (OrderedDict.get?_eq_none_iff.mp hupdate)
        rw [Option.map_some, (reread_eq_self_iff hquotes).mpr hvalue]

/-- The update of a user who sets the id of the application. -/
def setApiId : OrderedDict String String := OrderedDict.empty.update [("TG_API_ID", "1")]

theorem isLineBoundary_of_all {text : List Char} (h : text.all (fun c ↦ !isLineBoundary c) = true) :
    ∀ c ∈ text, isLineBoundary c = false :=
  fun c hc ↦ (Bool.not_eq_true' _).mp (List.all_eq_true.mp h c hc)

theorem parseable_setApiId :
    ∀ key value, setApiId.get? key = some value → ParseableValue value := by
  intro key value hget
  have hmem := OrderedDict.get?_eq_some_iff.mp hget
  obtain ⟨-, rfl⟩ := Prod.mk.inj (List.mem_singleton.mp hmem)
  exact ⟨by decide, by decide, isLineBoundary_of_all (by decide)⟩

theorem parseable_TG_API_ID : ParseableKey "TG_API_ID" :=
  ⟨by decide, by decide, isLineBoundary_of_all (by decide), by decide, by decide⟩

/-- A key in quotes without blanks. -/
theorem preserves_of_quoted : Preserves (.text "SESSION_ENCRYPTION_KEY='k'".toList) setApiId := by
  refine (preserves_iff rfl setApiId parseable_setApiId).mpr ⟨?_, ?_⟩
  · intro key hkey
    rw [List.mem_singleton.mp hkey]
    exact parseable_TG_API_ID
  · intro key value hget _
    have hmem := OrderedDict.get?_eq_some_iff.mp hget
    have hitems : (parsePairs "SESSION_ENCRYPTION_KEY='k'".toList).items =
        [("SESSION_ENCRYPTION_KEY", "k")] := by
      decide +kernel
    rw [hitems] at hmem
    obtain ⟨-, rfl⟩ := Prod.mk.inj (List.mem_singleton.mp hmem)
    decide

/-- A key with a blank within its quotes is another key after the id was set. -/
theorem blank_in_quotes_lost :
    ParseableKey "TG_API_ID" ∧
      (∀ key value, setApiId.get? key = some value → ParseableValue value) ∧
      ¬ Preserves (.text "SESSION_ENCRYPTION_KEY=' k'".toList) setApiId := by
  refine ⟨parseable_TG_API_ID, parseable_setApiId, ?_⟩
  rintro ⟨old, written, hold, hwritten, hpreserved⟩
  have hsame := hpreserved "SESSION_ENCRYPTION_KEY"
  obtain rfl := Option.some.inj hold
  obtain rfl := Option.some.inj hwritten
  revert hsame
  decide +kernel

end TgMessenger.Dotenv
