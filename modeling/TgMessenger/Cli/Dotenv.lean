import TgMessenger.Core.Paths
import TgMessenger.Data.Layers
import TgMessenger.Data.OrderedDict

/-!
# The `.env` sources

`_load_dotenv` (`cli/main.py`) layers the `.env` of the working directory, those of the roots
and the fixed `~/.tg/.env` into the environment.  `_parse_dotenv` (`cli/parsers.py`) reads one.
-/

namespace TgMessenger.Cli

open Layers

/-! ## One source -/

/-- The characters `str.splitlines` splits at. -/
def isLineBoundary (c : Char) : Bool :=
  let n := c.toNat
  (0x0a ≤ n && n ≤ 0x0d) || (0x1c ≤ n && n ≤ 0x1e) || n == 0x85 || n == 0x2028 || n == 0x2029

/-- `value.strip("'\"")`. -/
def stripQuotes (text : List Char) : List Char :=
  let isQuote c := c == '\x27' || c == '\x22'
  (text.dropWhile isQuote).rdropWhile isQuote

/-- A line of a `.env`: its key and its value. -/
def parseLine (line : List Char) : Option (String × String) :=
  let line := stripChars line
  if line = [] ∨ line.head? = some '#' ∨ '=' ∉ line then none
  else
    let key := stripChars (line.takeWhile (· ≠ '='))
    let value := (line.dropWhile (· ≠ '=')).tail
    if key = [] then none
    else some (.ofList key, .ofList (stripQuotes (stripChars value)))

/-- What a path of `_load_dotenv` is: the text of one, or a `Path`, which equals no text. -/
inductive Source
  | str (text : String)
  | path (p : Path)
deriving DecidableEq

/-- `Path(source)`. -/
def Source.toPath : Source → Path
  | .str text => .ofString text
  | .path p => p

/-- `_parse_dotenv`; `none` when it raises. -/
def parseDotenv (host : Host) (source : Source) : Option (OrderedDict String String) :=
  match host.file source.toPath with
  | .missing => some .empty
  | .unreadable => none
  | .text content =>
    some (((content.splitOnP isLineBoundary).filterMap parseLine).foldl
      (fun pairs pair ↦ pairs.set pair.1 pair.2) .empty)

/-- `_CREDS_PAIR`. -/
def credsPair : List String := ["TG_API_ID", "TG_API_HASH"]

/-- `source_has_pair`. -/
def sourceHasPair (parsed : String → Option String) : Bool :=
  credsPair.all fun k ↦ strip ((parsed k).getD "") ≠ ""

/-- `os.environ.setdefault(key, value)`. -/
def setDefault (env : Environ) (key value : String) : Option Environ :=
  match env key with
  | some _ => some env
  | none => putEnv env key value

/-- The pair of a source is put as a whole, where neither half is set. -/
def applyPair (parsed : String → Option String) (env : Environ) : Option Environ :=
  let envPairEmpty := credsPair.all fun k ↦ (env k).isNone
  if envPairEmpty && sourceHasPair parsed then
    credsPair.foldlM (fun env key ↦ putEnv env key ((parsed key).getD "")) env
  else some env

/-- The other keys of a source, one by one. -/
def applyOther (items : List (String × String)) (env : Environ) : Option Environ :=
  items.foldlM
    (fun env pair ↦ if pair.1 ∈ credsPair then some env else setDefault env pair.1 pair.2) env

/-- `_apply_dotenv_source`, on the environment. -/
def applyDotenvSource (host : Host) (source : Source) (env : Environ) : Option Environ := do
  let parsed ← parseDotenv host source
  let env ← applyPair parsed.get? env
  applyOther parsed.items env

/-! ## All sources -/

/-- The scan for the source that names the root. -/
def scanHome (host : Host) : List Path → Process → Option (Option Path × Process)
  | [], s => some (none, s)
  | candidate :: candidates, s => do
    let parsed ← parseDotenv host (.path candidate)
    match parsed.get? "TG_HOME" with
    | some value => do
      let environ ← putEnv s.environ "TG_HOME" value
      some (some candidate, resetTgHomeCache { s with environ })
    | none => scanHome host candidates s

/-- `TG_HOME` is taken from the home sources, unless it is set; with the source it came from. -/
def extractHome (host : Host) (s : Process) : Option (Option Path × Process) :=
  if (s.environ "TG_HOME").isSome then some (none, s)
  else do
    let (home, s) ← tgHome host s
    scanHome host [home.child ".env", host.defaultHome.child ".env"] s

/-- The home sources are layered in, none of them twice. -/
def applyCandidates (host : Host) : List Source → List Source → Environ → Option Environ
  | _, [], env => some env
  | applied, candidate :: candidates, env =>
    if candidate ∈ applied then applyCandidates host applied candidates env
    else do
      let env ← applyDotenvSource host candidate env
      applyCandidates host (applied ++ [candidate]) candidates env

/-- `_load_dotenv`; `none` when it raises. -/
def loadDotenv (host : Host) (path : Source) (s : Process) : Option Process := do
  let environ ← applyDotenvSource host path s.environ
  let s := resetTgHomeCache { s with environ }
  let (redirecting, s) ← extractHome host s
  let (home, s) ← tgHome host s
  let candidates :=
    home.child ".env" :: redirecting.toList ++ [host.defaultHome.child ".env"]
  let environ ← applyCandidates host [path] (candidates.map .path) s.environ
  some { s with environ }

/-! ## What a source does -/

theorem putEnv_eq_some {env env' : Environ} {key value : String}
    (h : putEnv env key value = some env') : env' = Function.update env key (some value) := by
  rw [putEnv] at h
  split_ifs at h
  exact (Option.some.inj h).symm

theorem setDefault_eq_some {env env' : Environ} {key value : String}
    (h : setDefault env key value = some env') (k : String) :
    env' k = (env k).or (if k = key then some value else none) := by
  rw [setDefault] at h
  split at h
  · next held hkey =>
    obtain rfl := Option.some.inj h
    split_ifs with hk
    · rw [hk, hkey, Option.some_or]
    · rw [Option.or_none]
  · next hkey =>
    rw [putEnv_eq_some h]
    split_ifs with hk
    · rw [hk, Function.update_self, hkey, Option.none_or]
    · rw [Function.update_of_ne hk, Option.or_none]

/-- Both halves of a pair are there. -/
theorem ne_none_of_sourceHasPair {parsed : String → Option String}
    (h : sourceHasPair parsed = true) : ∀ k ∈ credsPair, parsed k ≠ none := by
  intro k hk hnone
  have hblank := List.all_eq_true.mp h k hk
  rw [hnone] at hblank
  exact absurd hblank (by decide)

/-- The keys outside the pair keep the value they have, and take the first one they lack. -/
theorem applyOther_eq_some {items : List (String × String)} {env env' : Environ}
    (h : applyOther items env = some env') (k : String) :
    env' k = if k ∈ credsPair then env k else (env k).or (items.lookup k) := by
  induction items generalizing env with
  | nil =>
    obtain rfl := Option.some.inj h
    rw [List.lookup_nil, Option.or_none, ite_self]
  | cons pair items ih =>
    obtain ⟨key, value⟩ := pair
    obtain ⟨next, hnext, hrest⟩ := Option.bind_eq_some_iff.mp h
    dsimp only at hnext
    rw [ih hrest]
    by_cases hkey : key ∈ credsPair
    · rw [if_pos hkey] at hnext
      obtain rfl := Option.some.inj hnext
      split_ifs with hk
      · rfl
      · have hne : (k == key) = false := beq_eq_false_iff_ne.mpr (ne_of_mem_of_not_mem hkey hk).symm
        rw [List.lookup_cons, hne]
    · rw [if_neg hkey] at hnext
      have hvalue := setDefault_eq_some hnext k
      split_ifs with hk
      · rw [hvalue, if_neg (ne_of_mem_of_not_mem hk hkey), Option.or_none]
      · rw [hvalue, Option.or_assoc, List.lookup_cons]
        by_cases heq : k = key
        · rw [if_pos heq, beq_iff_eq.mpr heq, Option.some_or]
        · rw [if_neg heq, beq_eq_false_iff_ne.mpr heq, Option.none_or]

/-- The pair is put as a whole. -/
theorem foldlM_putEnv {parsed : String → Option String} (hpair : sourceHasPair parsed = true)
    {env env' : Environ}
    (h : credsPair.foldlM (fun env key ↦ putEnv env key ((parsed key).getD "")) env = some env')
    (k : String) : env' k = if k ∈ credsPair then parsed k else env k := by
  obtain ⟨first, hfirst, hrest⟩ := Option.bind_eq_some_iff.mp h
  obtain ⟨second, hsecond, hlast⟩ := Option.bind_eq_some_iff.mp hrest
  obtain rfl := Option.some.inj hlast
  rw [putEnv_eq_some hsecond, putEnv_eq_some hfirst]
  have hhalf : ∀ key ∈ credsPair, some ((parsed key).getD "") = parsed key := by
    intro key hkey
    obtain ⟨value, hvalue⟩ :=
      Option.ne_none_iff_exists'.mp (ne_none_of_sourceHasPair hpair key hkey)
    rw [hvalue, Option.getD_some]
  by_cases hhash : k = "TG_API_HASH"
  · rw [hhash, Function.update_self, hhalf _ (by decide), if_pos (by decide)]
  · rw [Function.update_of_ne hhash]
    by_cases hid : k = "TG_API_ID"
    · rw [hid, Function.update_self, hhalf _ (by decide), if_pos (by decide)]
    · rw [Function.update_of_ne hid, if_neg]
      simp [credsPair, hid, hhash]

theorem applyPair_eq_some {parsed : String → Option String} {env env' : Environ}
    (h : applyPair parsed env = some env') (k : String) :
    env' k = if k ∈ credsPair then
      if Unset credsPair env ∧ sourceHasPair parsed = true then parsed k else env k
      else env k := by
  have hunset : (credsPair.all fun k ↦ (env k).isNone) = true ↔ Unset credsPair env := by
    simp only [List.all_eq_true, Option.isNone_iff_eq_none, Unset]
  dsimp only [applyPair] at h
  split_ifs at h with hpair
  · rw [Bool.and_eq_true, hunset] at hpair
    rw [foldlM_putEnv hpair.2 h, if_pos hpair]
  · rw [Bool.and_eq_true, hunset] at hpair
    rw [← Option.some.inj h, if_neg hpair, ite_self]

/-- `_apply_dotenv_source` layers what it parses. -/
theorem applyDotenvSource_eq_some {host : Host} {source : Source} {env env' : Environ}
    (h : applyDotenvSource host source env = some env') :
    ∃ parsed, parseDotenv host source = some parsed ∧
      env' = layer credsPair sourceHasPair env parsed.get? := by
  obtain ⟨parsed, hparsed, happly⟩ := Option.bind_eq_some_iff.mp h
  obtain ⟨filled, hfilled, hother⟩ := Option.bind_eq_some_iff.mp happly
  refine ⟨parsed, hparsed, ?_⟩
  funext k
  rw [applyOther_eq_some hother, layer, applyPair_eq_some hfilled]
  split_ifs <;> rfl

end TgMessenger.Cli
