import Mathlib.Data.List.DropRight
import Mathlib.Data.Rat.Init
import TgMessenger.Core.Usernames
import TgMessenger.Data.Text

/-!
# Candidates for a user name

`generate_candidates` and `find_available_marked` of `core/usernames.py`: names made of a base,
and the asking of the server which of them are free.
-/

namespace TgMessenger.Usernames

abbrev Name := List Char

/-- `random.Random`, as far as it is asked. -/
structure Rng (σ : Type*) where
  randint : ℕ → ℕ → σ → ℕ × σ
  random : σ → ℚ × σ
  choice : List Char → σ → Char × σ
  choice_mem : ∀ l s, l ≠ [] → (choice l s).1 ∈ l

/-- `str(n)`. -/
def str (n : ℕ) : List Char := Nat.toDigits 10 n

/-! ## The stem -/

/-- `_TRANSLIT.get(ch, ch)`. -/
def translit (c : Char) : List Char :=
  match c with
  | 'а' => ['a'] | 'б' => ['b'] | 'в' => ['v'] | 'г' => ['g'] | 'д' => ['d'] | 'е' => ['e']
  | 'ё' => ['e'] | 'ж' => ['z', 'h'] | 'з' => ['z'] | 'и' => ['i'] | 'й' => ['y'] | 'к' => ['k']
  | 'л' => ['l'] | 'м' => ['m'] | 'н' => ['n'] | 'о' => ['o'] | 'п' => ['p'] | 'р' => ['r']
  | 'с' => ['s'] | 'т' => ['t'] | 'у' => ['u'] | 'ф' => ['f'] | 'х' => ['h'] | 'ц' => ['t', 's']
  | 'ч' => ['c', 'h'] | 'ш' => ['s', 'h'] | 'щ' => ['s', 'c', 'h'] | 'ъ' => [] | 'ы' => ['y']
  | 'ь' => [] | 'э' => ['e'] | 'ю' => ['y', 'u'] | 'я' => ['y', 'a']
  | _ => [c]

/-- `_transliterate`. -/
def transliterate (text : List Char) : List Char := text.flatMap translit

/-- `re.sub(r"_+", "_", text)`. -/
def collapse : List Char → List Char
  | [] => []
  | c :: rest => if c = '_' ∧ rest.head? = some '_' then collapse rest else c :: collapse rest

/-- `_normalize_base`; `lower` is `str.lower`. -/
def normalizeBase (lower : List Char → List Char) (base : List Char) : List Char :=
  let text := transliterate (lower base)
  let text := collapse (text.filter isNameChar)
  let text := text.dropWhile fun c ↦ c.isDigit || c == '_'
  (text.dropWhile (· == '_')).rdropWhile (· == '_')

/-- `_trim`. -/
def trim (name : Name) : Name := (name.take usernameMaxLen).rdropWhile (· == '_')

theorem length_str_pos (n : ℕ) : 0 < (str n).length := Nat.length_toDigits_pos

section Generate

variable {σ : Type*} (rng : Rng σ)

/-- `_pad`. -/
def pad (name : Name) (s : σ) : Name × σ :=
  if name.length < usernameMinLen then
    let digit := rng.randint 0 9 s
    pad (name ++ str digit.1) digit.2
  else (name, s)
termination_by usernameMinLen - name.length
decreasing_by
  have := length_str_pos (rng.randint 0 9 s).1
  rw [List.length_append]
  omega

/-! ## The candidates -/

/-- `add`; `seen` has the names of `out`. -/
def add (out : List Name) (name : Name) : List Name :=
  let name := trim name
  if isValidUsername name ∧ name ∉ out then out ++ [name] else out

/-- The loop over the suffixes, and whether it returned. -/
def addSuffixes (stem : Name) (count : ℕ) : List (List Char) → List Name → List Name × Bool
  | [], out => (out, false)
  | suffix :: rest, out =>
    let out := add out (stem ++ suffix)
    if count ≤ out.length then (out, true) else addSuffixes stem count rest out

/-- `_LEET.get(ch, ch)`. -/
def leetChar (c : Char) : Char :=
  match c with
  | 'o' => '0' | 'i' => '1' | 'e' => '3' | 'a' => '4' | 's' => '5'
  | _ => c

/-- The `float` that is written `0.4`. -/
def twoFifths : ℚ := 3602879701896397 / 9007199254740992

/-- Some of the characters as leet. -/
def leetSome : List Char → σ → List Char × σ
  | [], s => ([], s)
  | c :: rest, s =>
    let roll := rng.random s
    let later := leetSome rest roll.2
    ((if roll.1 < twoFifths then leetChar c else c) :: later.1, later.2)

/-- The name of one attempt of the last loop. -/
def filler (stem : Name) (s : σ) : Name × σ :=
  let roll := rng.randint 0 3 s
  if roll.1 = 0 then
    let n := rng.randint 0 9999 roll.2
    (stem ++ str n.1, n.2)
  else if roll.1 = 1 then
    let n := rng.randint 1 99 roll.2
    (stem ++ ['_'] ++ str n.1, n.2)
  else if roll.1 = 2 then leetSome rng stem roll.2
  else
    let c := rng.choice "abcdefghijklmnopqrstuvwxyz".toList roll.2
    (stem ++ [c.1], c.2)

/-- The last loop, with as many attempts left. -/
def fill (stem : Name) (count : ℕ) : ℕ → List Name → σ → List Name × σ
  | 0, out, s => (out, s)
  | left + 1, out, s =>
    if out.length < count then
      let name := filler rng stem s
      fill stem count left (add out name.1) name.2
    else (out, s)

/-- The suffixes of the second step, in a year. -/
def suffixes (year : ℕ) : List (List Char) :=
  [str year, str (year % 100), ['0', '1'], ['1'], ['_', '0', '1']]

/-- The stem, as long as a name has to be. -/
def stemOf (lower : List Char → List Char) (base : List Char) (s : σ) : Name × σ :=
  let stem := normalizeBase lower base
  pad rng (if stem = [] then "user".toList else stem) s

/-- `generate_candidates`. -/
def generateCandidates (lower : List Char → List Char) (year : ℕ) (base : List Char) (count : ℕ)
    (s : σ) : List Name × σ :=
  let stem := stemOf rng lower base s
  let found := addSuffixes stem.1 count (suffixes year) (add [] stem.1)
  if found.2 then (found.1.take count, stem.2)
  else
    let leet := stem.1.map leetChar
    let out := add (add found.1 leet) (leet ++ str (year % 100))
    let filled := fill rng stem.1 count (count * 20) out stem.2
    (filled.1.take count, filled.2)

end Generate

/-! ## Which are free -/

section Check

variable {τ ε : Type*} (check : τ → Name → Except ε (Bool × τ)) (limit : ℤ)

/-- The loop of `find_available_marked`, with `check_username` of the client. -/
def checkCandidates (free : List Name) : List Name → τ → Except ε ((List Name × List Name) × τ)
  | [], t => .ok ((free, []), t)
  | name :: rest, t =>
    if limit ≤ free.length then .ok ((free, name :: rest), t)
    else
      match check t name with
      | .error e => .error e
      | .ok (available, t) => checkCandidates (if available then free ++ [name] else free) rest t

/-- `find_available_marked`. -/
def findAvailableMarked {σ : Type*} (rng : Rng σ) (lower : List Char → List Char) (year : ℕ)
    (base : List Char) (count : ℕ) (s : σ) (t : τ) :
    Except ε ((List Name × List Name) × τ) :=
  checkCandidates check limit [] (generateCandidates rng lower year base count s).1 t

end Check

/-! ## Stems -/

/-- What a stem is, but for its length. -/
structure Stem (name : Name) : Prop where
  chars : ∀ c ∈ name, isNameChar c = true
  first : ∃ c rest, name = c :: rest ∧ isLetter c = true
  last : ∀ c ∈ name.getLast?, c ≠ '_'
  noRun : ¬ ['_', '_'] <:+: name

@[simp] theorem head?_collapse (l : List Char) : (collapse l).head? = l.head? := by
  induction l with
  | nil => rfl
  | cons c rest ih =>
    rw [collapse]
    split_ifs with h
    · rw [ih, h.2, h.1]
      rfl
    · rfl

theorem collapse_sublist (l : List Char) : (collapse l).Sublist l := by
  induction l with
  | nil => exact .slnil
  | cons c rest ih =>
    rw [collapse]
    split_ifs
    · exact ih.cons c
    · exact ih.cons_cons c

theorem noRun_collapse (l : List Char) : ¬ ['_', '_'] <:+: collapse l := by
  induction l with
  | nil => decide
  | cons c rest ih =>
    rw [collapse]
    split_ifs with h
    · exact ih
    · rw [List.infix_cons_iff, not_or]
      refine ⟨?_, ih⟩
      rintro ⟨after, hstart⟩
      obtain ⟨hc, hrest⟩ := List.cons.inj hstart
      have hhead : (collapse rest).head? = some '_' := by
        rw [← hrest]
        rfl
      rw [head?_collapse] at hhead
      exact h ⟨hc.symm, hhead⟩

/-- A character of a name that is neither a digit nor an underscore is a letter. -/
theorem isLetter_of_not {c : Char} (h : isNameChar c = true)
    (hnot : (c.isDigit || c == '_') = false) : isLetter c = true := by
  rw [Bool.or_eq_false_iff] at hnot
  rw [isNameChar, isLetterOrDigit, hnot.1, hnot.2, Bool.or_false, Bool.or_false] at h
  exact h

/-- What is left of a base is nothing, or a stem. -/
theorem stem_normalizeBase {lower : List Char → List Char} {base : List Char}
    (h : normalizeBase lower base ≠ []) : Stem (normalizeBase lower base) := by
  set kept := collapse ((transliterate (lower base)).filter isNameChar)
  set text := kept.dropWhile (fun c ↦ c.isDigit || c == '_') with htext
  have hname : normalizeBase lower base =
      (text.dropWhile (· == '_')).rdropWhile (· == '_') := rfl
  have hpart : normalizeBase lower base <:+: kept :=
    (List.rdropWhile_prefix ..).isInfix.trans
      ((List.dropWhile_suffix _).isInfix.trans (List.dropWhile_suffix _).isInfix)
  have hchars : ∀ c ∈ kept, isNameChar c = true := by
    intro c hc
    exact (List.mem_filter.mp ((collapse_sublist _).subset hc)).2
  constructor
  case chars => exact fun c hc ↦ hchars c (hpart.subset hc)
  case first =>
    cases hcons : text with
    | nil =>
      rw [hname, hcons] at h
      exact absurd rfl h
    | cons c rest =>
      have hne : text ≠ [] := hcons ▸ List.cons_ne_nil c rest
      have hhead : text.head hne = c :=
        (List.head_eq_iff_head?_eq_some hne).mpr (by rw [hcons]; rfl)
      have hnot : (c.isDigit || c == '_') = false := by
        rw [← hhead]
        exact List.head_dropWhile_not _ hne
      have hc : isLetter c = true := by
        refine isLetter_of_not (hchars c ?_) hnot
        exact (List.dropWhile_suffix _).subset (hcons ▸ List.mem_cons_self)
      have hdot : ¬ (c == '_') = true := by
        rw [Bool.or_eq_false_iff] at hnot
        rw [hnot.2]
        exact Bool.false_ne_true
      have hhead := head?_strip (· == '_') hdot rest
      rw [← hcons, ← hname] at hhead
      obtain ⟨after, hafter⟩ := List.head?_eq_some_iff.mp hhead
      exact ⟨c, after, hafter, hc⟩
  case last =>
    intro c hc
    rw [hname] at hc
    exact beq_eq_false_iff_ne.mp (not_of_mem_getLast?_strip (· == '_') hc)
  case noRun => exact fun hrun ↦ noRun_collapse _ (hrun.trans hpart)

theorem stem_user : Stem "user".toList where
  chars := List.all_eq_true.mp (by decide)
  first := ⟨'u', ['s', 'e', 'r'], rfl, rfl⟩
  last := by
    rintro c ⟨⟩
    decide
  noRun := by decide

theorem isNameChar_of_mem_str {n : ℕ} {c : Char} (h : c ∈ str n) : isNameChar c = true := by
  have hdigit := Nat.isDigit_of_mem_toDigits (by decide) (by decide) h
  rw [isNameChar, isLetterOrDigit, hdigit, Bool.or_true, Bool.true_or]

theorem underscore_notMem_str (n : ℕ) : '_' ∉ str n := by
  intro h
  exact absurd (Nat.isDigit_of_mem_toDigits (by decide) (by decide) h) (by decide)

/-- A stem with digits behind it is a stem. -/
theorem Stem.append_str {name : Name} (h : Stem name) (n : ℕ) : Stem (name ++ str n) := by
  constructor
  case chars =>
    intro c hc
    rcases List.mem_append.mp hc with hc | hc
    · exact h.chars c hc
    · exact isNameChar_of_mem_str hc
  case first =>
    obtain ⟨c, rest, rfl, hc⟩ := h.first
    exact ⟨c, rest ++ str n, rfl, hc⟩
  case last =>
    intro c hc
    have hne : str n ≠ [] := Nat.toDigits_ne_nil
    rw [List.getLast?_append_of_ne_nil _ hne] at hc
    rintro rfl
    exact underscore_notMem_str n (List.mem_of_getLast? hc)
  case noRun => exact mt (run_append_iff (underscore_notMem_str n)).mp h.noRun

variable {σ : Type*} {rng : Rng σ}

/-- Padding makes a stem one that is long enough. -/
theorem Stem.pad {name : Name} (h : Stem name) (s : σ) :
    Stem (pad rng name s).1 ∧ usernameMinLen ≤ (pad rng name s).1.length := by
  fun_induction Usernames.pad with
  | case1 name s hshort digit ih => exact ih (h.append_str _)
  | case2 name s hlong => exact ⟨h, Nat.le_of_not_lt hlong⟩

/-- The stem of every base is long enough. -/
theorem stem_stemOf (lower : List Char → List Char) (base : List Char) (s : σ) :
    Stem (stemOf rng lower base s).1 ∧ usernameMinLen ≤ (stemOf rng lower base s).1.length := by
  rw [stemOf]
  apply Stem.pad
  split_ifs with hnil
  · exact stem_user
  · exact stem_normalizeBase hnil

/-! ## What is added -/

theorem trim_isPrefix (name : Name) : trim name <+: name :=
  (List.rdropWhile_prefix ..).trans (List.take_prefix ..)

/-- No more than one underscore is taken off the end of a name without runs of them. -/
theorem length_le_of_noRun {name : Name} (h : ¬ ['_', '_'] <:+: name) :
    name.length ≤ (name.rdropWhile (· == '_')).length + 1 := by
  cases name using List.reverseRecOn with
  | nil => exact Nat.zero_le _
  | append_singleton name c =>
    by_cases hc : c = '_'
    · have hself : name.rdropWhile (· == '_') = name := by
        rw [List.rdropWhile_eq_self_iff]
        intro hne hlast
        rw [beq_iff_eq] at hlast
        refine h ⟨name.dropLast, [], ?_⟩
        rw [List.append_nil, hc, ← List.dropLast_append_getLast hne, hlast]
        simp
      rw [List.rdropWhile_concat_pos _ _ _ (by simp [hc]), hself, List.length_append,
        List.length_singleton]
    · rw [List.rdropWhile_concat_neg _ _ _ (by simp [hc])]
      exact Nat.le_succ _

/-- A stem that is long enough is cut to a name that follows the rules. -/
theorem Stem.documented_trim {name : Name} (h : Stem name) (hleast : usernameMinLen ≤ name.length) :
    Documented (trim name) := by
  have hlong : usernameMinLen ≤ (trim name).length := by
    by_cases hmost : name.length ≤ usernameMaxLen
    · have hself : name.rdropWhile (· == '_') = name := by
        rw [List.rdropWhile_eq_self_iff]
        intro hne hlast
        rw [beq_iff_eq] at hlast
        exact h.last _ (List.getLast?_eq_some_getLast hne) hlast
      rw [trim, List.take_of_length_le hmost, hself]
      exact hleast
    · have hrun : ¬ ['_', '_'] <:+: name.take usernameMaxLen := fun hrun ↦
        h.noRun (hrun.trans (List.take_prefix ..).isInfix)
      have hlength := length_le_of_noRun hrun
      rw [List.length_take_of_le (Nat.le_of_not_le hmost)] at hlength
      rw [usernameMinLen]
      rw [usernameMaxLen] at hlength
      exact Nat.le_trans (by decide) (Nat.le_of_succ_le_succ hlength)
  constructor
  case least => exact hlong
  case most =>
    exact (List.rdropWhile_prefix ..).length_le.trans (List.length_take_le ..)
  case chars => exact fun c hc ↦ h.chars c ((trim_isPrefix name).subset hc)
  case first =>
    intro c hc
    obtain ⟨c', rest, hname, hletter⟩ := h.first
    obtain ⟨after, hafter⟩ := List.head?_eq_some_iff.mp hc
    obtain ⟨cut, hcut⟩ := trim_isPrefix name
    rw [hafter, hname] at hcut
    rw [(List.cons.inj hcut).1]
    exact hletter
  case last =>
    intro c hc
    rintro rfl
    have hne : trim name ≠ [] := by
      intro hnil
      rw [hnil] at hc
      cases hc
    have hlast := List.rdropWhile_last_not (· == '_') (name.take usernameMaxLen) hne
    rw [List.getLast?_eq_some_getLast hne] at hc
    exact hlast (beq_iff_eq.mpr (Option.some.inj hc))
  case noRun => exact fun hrun ↦ h.noRun (hrun.trans (trim_isPrefix name).isInfix)

/-- What holds of the candidates from the first on. -/
structure Pool (out : List Name) : Prop where
  ne_nil : out ≠ []
  nodup : out.Nodup
  documented : ∀ name ∈ out, Documented name

/-- The characters of a name are those of names. -/
def Spelled (name : List Char) : Prop := ∀ c ∈ name, isNameChar c = true

theorem Spelled.append {name end_ : List Char} (h : Spelled name) (h' : Spelled end_) :
    Spelled (name ++ end_) := by
  intro c hc
  rcases List.mem_append.mp hc with hc | hc
  · exact h c hc
  · exact h' c hc

theorem spelled_str (n : ℕ) : Spelled (str n) := fun _ hc ↦ isNameChar_of_mem_str hc

/-- Of what is spelled as a name is, nothing is accepted but by the rules. -/
theorem Spelled.documented {name : Name} (h : Spelled name) (hvalid : isValidUsername name = true) :
    Documented name := by
  refine (isValidUsername_iff_documented ?_).mp hvalid
  intro hmem
  exact absurd (h _ hmem) (by decide)

theorem Spelled.trim {name : Name} (h : Spelled name) : Spelled (trim name) :=
  fun c hc ↦ h c ((trim_isPrefix name).subset hc)

/-- An addition keeps the candidates in order. -/
theorem Pool.add {out : List Name} (h : Pool out) {name : Name} (hname : Spelled name) :
    Pool (add out name) := by
  rw [Usernames.add]
  split_ifs with hadd
  · obtain ⟨hvalid, hnew⟩ := hadd
    constructor
    case ne_nil => exact List.append_ne_nil_of_left_ne_nil h.ne_nil _
    case nodup =>
      rw [List.nodup_append]
      refine ⟨h.nodup, List.pairwise_singleton .., ?_⟩
      rintro name' hname' _ hlast rfl
      exact hnew (List.mem_singleton.mp hlast ▸ hname')
    case documented =>
      intro name' hname'
      rcases List.mem_append.mp hname' with hname' | hname'
      · exact h.documented name' hname'
      · rw [List.mem_singleton.mp hname']
        exact hname.trim.documented hvalid
  · exact h

/-- The stem is the first of the candidates. -/
theorem pool_add_nil {stem : Name} (h : Documented (trim stem)) : Pool (add [] stem) := by
  have hvalid : isValidUsername (trim stem) = true := isValidUsername_iff.mpr (.inl h)
  have hadd : add [] stem = [trim stem] := if_pos ⟨hvalid, List.not_mem_nil⟩
  rw [hadd]
  constructor
  case ne_nil => exact List.cons_ne_nil _ _
  case nodup => exact List.pairwise_singleton ..
  case documented =>
    intro name hname
    rw [List.mem_singleton.mp hname]
    exact h

theorem Pool.addSuffixes {stem : Name} (hstem : Spelled stem) {count : ℕ}
    {suffixes : List (List Char)} (hsuffixes : ∀ suffix ∈ suffixes, Spelled suffix)
    {out : List Name} (h : Pool out) : Pool (addSuffixes stem count suffixes out).1 := by
  induction suffixes generalizing out with
  | nil => exact h
  | cons suffix rest ih =>
    have hadd := h.add (hstem.append (hsuffixes suffix List.mem_cons_self))
    rw [Usernames.addSuffixes]
    split_ifs
    · exact hadd
    · exact ih (fun s hs ↦ hsuffixes s (List.mem_cons_of_mem _ hs)) hadd

theorem spelled_suffixes (year : ℕ) : ∀ suffix ∈ suffixes year, Spelled suffix := by
  intro suffix h
  simp only [suffixes, List.mem_cons, List.not_mem_nil, or_false] at h
  rcases h with rfl | rfl | rfl | rfl | rfl
  · exact spelled_str year
  · exact spelled_str (year % 100)
  · exact List.all_eq_true.mp (by decide)
  · exact List.all_eq_true.mp (by decide)
  · exact List.all_eq_true.mp (by decide)

theorem isNameChar_leetChar {c : Char} (h : isNameChar c = true) :
    isNameChar (leetChar c) = true := by
  fun_cases leetChar c <;> first | rfl | exact h

theorem Spelled.leet {name : Name} (h : Spelled name) : Spelled (name.map leetChar) := by
  intro c hc
  obtain ⟨c', hc', rfl⟩ := List.mem_map.mp hc
  exact isNameChar_leetChar (h c' hc')

theorem Spelled.leetSome {name : Name} (h : Spelled name) (s : σ) :
    Spelled (leetSome rng name s).1 := by
  induction name generalizing s with
  | nil => exact h
  | cons c rest ih =>
    intro c' hc'
    rcases List.mem_cons.mp hc' with rfl | hc'
    · split_ifs
      · exact isNameChar_leetChar (h c List.mem_cons_self)
      · exact h c List.mem_cons_self
    · exact ih (fun c hc ↦ h c (List.mem_cons_of_mem _ hc)) _ c' hc'

theorem Spelled.filler {stem : Name} (h : Spelled stem) (s : σ) :
    Spelled (filler rng stem s).1 := by
  rw [Usernames.filler]
  split_ifs
  · exact h.append (spelled_str _)
  · exact (h.append (List.all_eq_true.mp (by decide))).append (spelled_str _)
  · exact h.leetSome _
  · refine h.append ?_
    intro c hc
    rw [List.mem_singleton.mp hc]
    have hall : "abcdefghijklmnopqrstuvwxyz".toList.all isNameChar = true := by decide
    exact List.all_eq_true.mp hall _ (rng.choice_mem _ _ (by decide))

theorem Pool.fill {stem : Name} (hstem : Spelled stem) {count left : ℕ} {out : List Name}
    (h : Pool out) (s : σ) : Pool (fill rng stem count left out s).1 := by
  induction left generalizing out s with
  | zero => exact h
  | succ left ih =>
    rw [Usernames.fill]
    split_ifs
    · exact ih (h.add (hstem.filler s)) _
    · exact h

/-- The first of the candidates of a pool. -/
theorem Pool.take {out : List Name} (h : Pool out) {count : ℕ} (hcount : 1 ≤ count) :
    Pool (out.take count) := by
  constructor
  case ne_nil =>
    intro hnil
    rcases List.take_eq_nil_iff.mp hnil with rfl | hnil
    · omega
    · exact h.ne_nil hnil
  case nodup => exact h.nodup.sublist (List.take_sublist ..)
  case documented => exact fun name hname ↦ h.documented name (List.mem_of_mem_take hname)

/-- The candidates are a pool, of no more than are asked for. -/
theorem pool_generateCandidates (lower : List Char → List Char) (year : ℕ) (base : List Char)
    {count : ℕ} (hcount : 1 ≤ count) (s : σ) :
    Pool (generateCandidates rng lower year base count s).1 ∧
      (generateCandidates rng lower year base count s).1.length ≤ count := by
  obtain ⟨hstem, hleast⟩ := @stem_stemOf σ rng lower base s
  have hspelled : Spelled (stemOf rng lower base s).1 := hstem.chars
  have hfirst := pool_add_nil (hstem.documented_trim hleast)
  have hsuffixes := @Pool.addSuffixes _ hspelled count _ (spelled_suffixes year) _ hfirst
  rw [generateCandidates]
  split_ifs
  · exact ⟨hsuffixes.take hcount, List.length_take_le ..⟩
  · have hleet :=
      (hsuffixes.add hspelled.leet).add (hspelled.leet.append (spelled_str (year % 100)))
    exact ⟨(hleet.fill hspelled _).take hcount, List.length_take_le ..⟩

/-! ## What is asked -/

section Checked

variable {τ ε : Type*} (check : τ → Name → Except ε (Bool × τ)) (limit : ℤ)

/-- Names that are asked for one after the other, each with its answer. -/
inductive Asked : τ → List (Name × Bool) → τ → Prop
  | nil (t : τ) : Asked t [] t
  | cons {t t' t'' : τ} {name : Name} {answer : Bool} {later : List (Name × Bool)} :
    check t name = .ok (answer, t') → Asked t' later t'' → Asked t ((name, answer) :: later) t''

/-- The names that are available. -/
def available (examined : List (Name × Bool)) : List Name := (examined.filter Prod.snd).map Prod.fst

/-- Names of which a first part was examined, each before the limit was reached. -/
structure Examined (names : List Name) (t : τ) (examined : List (Name × Bool)) (rest : List Name)
    (t' : τ) : Prop where
  names : names = examined.map Prod.fst ++ rest
  asked : Asked check t examined t'
  below : ∀ n < examined.length, ((available (examined.take n)).length : ℤ) < limit

/-- What comes of the names: those available in the longest part examined before the limit was
reached, and the others; or the error of the client. -/
inductive Checked (names : List Name) (t : τ) : Except ε ((List Name × List Name) × τ) → Prop
  | found {examined : List (Name × Bool)} {rest : List Name} {t' : τ} :
    Examined check limit names t examined rest t' →
      (rest = [] ∨ limit ≤ (available examined).length) →
        Checked names t (.ok ((available examined, rest), t'))
  | failed {examined : List (Name × Bool)} {name : Name} {rest : List Name} {t' : τ} {e : ε} :
    Examined check limit names t examined (name :: rest) t' →
      (available examined).length < limit → check t' name = .error e → Checked names t (.error e)

variable {check limit}

theorem available_cons (name : Name) (answer : Bool) (later : List (Name × Bool)) :
    available ((name, answer) :: later) =
      (if answer then [name] else []) ++ available later := by
  cases answer <;> rfl

/-- One more name in front, asked before the limit was reached. -/
theorem Examined.cons {names rest : List Name} {t t' t'' : τ} {name : Name} {answer : Bool}
    {examined : List (Name × Bool)} (hask : check t name = .ok (answer, t')) (hlimit : 0 < limit)
    (h : Examined check (limit - if answer then 1 else 0) names t' examined rest t'') :
    Examined check limit (name :: names) t ((name, answer) :: examined) rest t'' := by
  constructor
  case names => rw [h.names]; rfl
  case asked => exact .cons hask h.asked
  case below =>
    intro n hn
    cases n with
    | zero => exact hlimit
    | succ n =>
      have hbelow := h.below n (Nat.lt_of_succ_lt_succ hn)
      rw [List.take_succ_cons, available_cons]
      cases answer
      · simpa using hbelow
      · simp only [if_true, List.singleton_append, List.length_cons] at hbelow ⊢
        omega

/-- The loop, after it has found so many names to be free. -/
theorem checkCandidates_spec (free names : List Name) (t : τ) :
    (∃ examined rest t', Examined check (limit - free.length) names t examined rest t' ∧
      (rest = [] ∨ limit - free.length ≤ (available examined).length) ∧
        checkCandidates check limit free names t =
          .ok ((free ++ available examined, rest), t')) ∨
      ∃ examined name rest t' e,
        Examined check (limit - free.length) names t examined (name :: rest) t' ∧
          (available examined).length < limit - free.length ∧ check t' name = .error e ∧
            checkCandidates check limit free names t = .error e := by
  induction names generalizing free t with
  | nil =>
    refine .inl ⟨[], [], t, ⟨rfl, .nil t, ?_⟩, .inl rfl, ?_⟩
    · rintro n ⟨⟩
    · rw [checkCandidates, available, List.filter_nil, List.map_nil, List.append_nil]
  | cons name names ih =>
    rw [checkCandidates]
    split_ifs with hlimit
    · refine .inl ⟨[], name :: names, t, ⟨rfl, .nil t, ?_⟩, .inr ?_, ?_⟩
      · rintro n ⟨⟩
      · exact Int.sub_nonpos_of_le hlimit
      · rw [available, List.filter_nil, List.map_nil, List.append_nil]
    · have hbelow : 0 < limit - free.length := by omega
      cases hask : check t name with
      | error e =>
        refine .inr ⟨[], name, names, t, e, ⟨rfl, .nil t, ?_⟩, hbelow, hask, rfl⟩
        rintro n ⟨⟩
      | ok result =>
        obtain ⟨answer, t'⟩ := result
        have hleft : limit - (if answer then free ++ [name] else free).length =
            limit - free.length - if answer then 1 else 0 := by
          cases answer
          · simp
          · simp only [if_true, List.length_append, List.length_singleton]
            omega
        have hfree : ∀ examined, (if answer then free ++ [name] else free) ++ available examined =
            free ++ available ((name, answer) :: examined) := by
          intro examined
          rw [available_cons]
          cases answer
          · rfl
          · exact List.append_assoc ..
        have hlength : ∀ examined, ((available ((name, answer) :: examined)).length : ℤ) =
            (available examined).length + if answer then 1 else 0 := by
          intro examined
          rw [available_cons]
          cases answer
          · simp
          · simp only [if_true, List.singleton_append, List.length_cons]
            omega
        rcases ih (if answer then free ++ [name] else free) t' with
          ⟨examined, rest, t'', hexamined, hend, hresult⟩ |
          ⟨examined, name', rest, t'', e, hexamined, hend, herror, hresult⟩
        · rw [hleft] at hexamined hend
          rw [hfree] at hresult
          refine .inl ⟨_, rest, t'', hexamined.cons hask hbelow, ?_, hresult⟩
          rw [hlength]
          exact hend.imp_right (by omega)
        · rw [hleft] at hexamined hend
          refine .inr ⟨_, name', rest, t'', e, hexamined.cons hask hbelow, ?_, herror, hresult⟩
          rw [hlength]
          omega

/-- The loop of `find_available_marked`. -/
theorem checked_checkCandidates (names : List Name) (t : τ) :
    Checked check limit names t (checkCandidates check limit [] names t) := by
  have hzero : limit - ([] : List Name).length = limit := Int.sub_zero limit
  have hspec := @checkCandidates_spec τ ε check limit [] names t
  rw [hzero] at hspec
  rcases hspec with
    ⟨examined, rest, t', hexamined, hend, hresult⟩ |
    ⟨examined, name, rest, t', e, hexamined, hend, herror, hresult⟩
  · rw [hresult]
    exact .found hexamined hend
  · rw [hresult]
    exact .failed hexamined hend herror

end Checked

/-- Of every base some candidates are made, no more than are asked for, all different and all by
the rules; and of those examined before the limit was reached the available ones are found, the
others left unchecked. -/
theorem candidates_marked {τ ε : Type*} (lower : List Char → List Char) (year : ℕ)
    (base : List Char) {count : ℕ} (hcount : 1 ≤ count) (s : σ)
    (check : τ → Name → Except ε (Bool × τ)) (limit : ℤ) (t : τ) :
    Pool (generateCandidates rng lower year base count s).1 ∧
      (generateCandidates rng lower year base count s).1.length ≤ count ∧
        Checked check limit (generateCandidates rng lower year base count s).1 t
          (findAvailableMarked check limit rng lower year base count s t) :=
  ⟨(pool_generateCandidates lower year base hcount s).1,
    (pool_generateCandidates lower year base hcount s).2, checked_checkCandidates _ t⟩

/-- A source that always gives the least number and the first character. -/
def Rng.least : Rng Unit where
  randint a _ s := (a, s)
  random s := (0, s)
  choice l s := (l.headD 'a', s)
  choice_mem
    | [], _, h => absurd rfl h
    | _ :: _, _, _ => List.mem_cons_self

theorem candidates_marked_least :
    Pool (generateCandidates .least id 2026 "Ann".toList 3 ()).1 ∧
      (generateCandidates .least id 2026 "Ann".toList 3 ()).1.length ≤ 3 ∧
        Checked (fun t _ ↦ (.ok (false, t) : Except Unit (Bool × Unit))) 1
          (generateCandidates .least id 2026 "Ann".toList 3 ()).1 ()
          (findAvailableMarked (fun t _ ↦ (.ok (false, t) : Except Unit (Bool × Unit))) 1
            .least id 2026 "Ann".toList 3 () ()) :=
  candidates_marked id 2026 "Ann".toList (by decide) () _ 1 ()

end TgMessenger.Usernames
