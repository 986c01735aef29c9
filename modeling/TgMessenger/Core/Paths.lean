import TgMessenger.Data.Text
import Mathlib.Data.List.DropRight
import Mathlib.Logic.Function.Basic

/-!
# The home root

`core/paths.py`: the one root everything is persisted under.  `TG_HOME` is read and expanded on
every call; the choice between the legacy root and the default one is made once.
-/

namespace TgMessenger

/-- `os.environ`. -/
abbrev Environ := String → Option String

/-- `os.environ[key] = value`; `none` when a null byte makes it raise. -/
def putEnv (env : Environ) (key value : String) : Option Environ :=
  if '\x00' ∈ key.toList ∨ '\x00' ∈ value.toList then none
  else some (Function.update env key (some value))

/-- A path of `pathlib`: its root, and the names on the way. -/
structure Path where
  root : String
  parts : List String
deriving DecidableEq

namespace Path

/-- `Path(text)`: slashes that repeat and dots are dropped, two leading slashes are kept. -/
def ofString (text : String) : Path where
  root :=
    if startsWith "//" text && !startsWith "///" text then "//"
    else if startsWith "/" text then "/" else ""
  parts := ((text.toList.splitOn '/').filter fun p ↦ p ≠ [] && p ≠ ['.']).map String.ofList

/-- `p / name`. -/
def child (p : Path) (name : String) : Path := { p with parts := p.parts ++ [name] }

/-- `p / text`: a text that begins with a slash is a path of its own. -/
def join (p : Path) (text : String) : Path :=
  let q := ofString text
  if q.root = "" then { p with parts := p.parts ++ q.parts } else q

/-- The path is that of the entry of this name in the directory. -/
structure IsEntry (dir p : Path) (name : String) : Prop where
  path : p = dir.child name
  slash : '/' ∉ name.toList
  null : '\x00' ∉ name.toList
  other : name ≠ "" ∧ name ≠ "." ∧ name ≠ ".."

end Path

/-- What a path of a `.env` leads to. -/
inductive File
  | missing
  /-- It exists, and `read_text` raises. -/
  | unreadable
  | text (content : List Char)

/-- The host of the process: the two roots, the file system and the user database. -/
structure Host where
  legacyHome : Path
  defaultHome : Path
  /-- The names in a directory; `none` for what is no directory or cannot be listed. -/
  iterdir : Path → Option (List String)
  file : Path → File
  /-- The home of a user by name, and that of the process's own user under no name. -/
  userHome : String → Option String

/-- The process: its environment, and `_ROOT_CACHE`. -/
structure Process where
  environ : Environ
  rootCache : Option Path

/-! ## Expansion -/

/-- `\w` under `re.ASCII`. -/
def isWord (c : Char) : Bool := c.isAlphanum || c == '_'

/-- What `os.path.expandvars` finds behind a `$`: the name, the text that stands for it, and
what comes after. -/
def reference (rest : List Char) : Option (String × List Char × List Char) :=
  let name := rest.takeWhile isWord
  if name ≠ [] then some (.ofList name, name, rest.dropWhile isWord)
  else
    match rest with
    | '\x7b' :: rest =>
      if '\x7d' ∈ rest then
        let name := rest.takeWhile (· ≠ '\x7d')
        some (.ofList name, '\x7b' :: name ++ ['\x7d'], (rest.dropWhile (· ≠ '\x7d')).tail)
      else none
    | _ => none

/-- `os.path.expandvars`, on as many characters as the fuel: a variable that is not set is left
as it is, and a value is not expanded again. -/
def expandVars (env : Environ) : ℕ → List Char → List Char
  | 0, _ => []
  | _ + 1, [] => []
  | fuel + 1, c :: rest =>
    if c = '$' then
      match reference rest with
      | some (name, source, after) =>
        (match env name with
          | some value => value.toList
          | none => '$' :: source) ++ expandVars env fuel after
      | none => '$' :: expandVars env fuel rest
    else c :: expandVars env fuel rest

/-- `os.path.expanduser`. -/
def expandUser (host : Host) (env : Environ) (text : List Char) : List Char :=
  match text with
  | '~' :: rest =>
    let name := rest.takeWhile (· ≠ '/')
    let home := if name = [] then (env "HOME").or (host.userHome "")
      else host.userHome (.ofList name)
    match home with
    | none => text
    | some home =>
      let expanded := home.toList.rdropWhile (· = '/') ++ rest.dropWhile (· ≠ '/')
      if expanded = [] then ['/'] else expanded
  | _ => text

/-- `resolve_env_dir`; `none` when it raises. -/
def resolveEnvDir (host : Host) (env : Environ) (var : String) : Option (Option Path) :=
  let raw := strip ((env var).getD "")
  if raw = "" then some none
  else
    let expanded :=
      expandUser host env (expandVars env raw.toList.length raw.toList)
    if expanded.head? ≠ some '/' then none else some (some (.ofString (.ofList expanded)))

/-! ## The root -/

/-- `_has_data`: a lone `.env` is no data. -/
def hasData (host : Host) (p : Path) : Bool :=
  match host.iterdir p with
  | none => false
  | some names => names.any (· ≠ ".env")

/-- The root without `TG_HOME`. -/
def fallbackRoot (host : Host) : Path :=
  if !hasData host host.defaultHome && hasData host host.legacyHome then host.legacyHome
  else host.defaultHome

/-- `reset_tg_home_cache`. -/
def resetTgHomeCache (s : Process) : Process := { s with rootCache := none }

/-- `tg_home`; `none` when it raises. -/
def tgHome (host : Host) (s : Process) : Option (Path × Process) :=
  match resolveEnvDir host s.environ "TG_HOME" with
  | none => none
  | some (some env) => some (env, s)
  | some none =>
    match s.rootCache with
    | some root => some (root, s)
    | none => some (fallbackRoot host, { s with rootCache := some (fallbackRoot host) })

/-! ## What the root depends on -/

/-- The variables `expandVars` looks up. -/
def references : ℕ → List Char → List String
  | 0, _ => []
  | _ + 1, [] => []
  | fuel + 1, c :: rest =>
    if c = '$' then
      match reference rest with
      | some (name, _, after) => name :: references fuel after
      | none => references fuel rest
    else references fuel rest

theorem expandVars_congr {env env' : Environ} (fuel : ℕ) :
    ∀ text : List Char, (∀ name ∈ references fuel text, env name = env' name) →
      expandVars env fuel text = expandVars env' fuel text := by
  induction fuel with
  | zero => exact fun _ _ ↦ rfl
  | succ fuel ih =>
    intro text hnames
    cases text with
    | nil => rfl
    | cons c rest =>
      rw [references] at hnames
      rw [expandVars, expandVars]
      by_cases hc : c = '$'
      · rw [if_pos hc] at hnames
        rw [if_pos hc, if_pos hc]
        cases href : reference rest with
        | none =>
          rw [href] at hnames
          exact congrArg _ (ih rest hnames)
        | some found =>
          obtain ⟨name, source, after⟩ := found
          rw [href] at hnames
          dsimp only
          rw [hnames name List.mem_cons_self,
            ih after fun name' hname' ↦ hnames name' (List.mem_cons_of_mem _ hname')]
      · rw [if_neg hc] at hnames
        rw [if_neg hc, if_neg hc, ih rest hnames]

/-- The variables the value of `TG_HOME` refers to. -/
def homeReferences (env : Environ) : List String :=
  let raw := (strip ((env "TG_HOME").getD "")).toList
  "HOME" :: references raw.length raw

/-- The root an environment stands for, where nothing is memoised. -/
def rootOf (host : Host) (env : Environ) : Option Path :=
  (resolveEnvDir host env "TG_HOME").map fun root ↦ root.getD (fallbackRoot host)

/-- The root is one of `TG_HOME` and of the variables it refers to. -/
theorem rootOf_congr (host : Host) {env env' : Environ}
    (hhome : env "TG_HOME" = env' "TG_HOME")
    (hnames : ∀ name ∈ homeReferences env, env name = env' name) :
    rootOf host env = rootOf host env' := by
  have htext := expandVars_congr _ _ fun name hname ↦
    hnames name (List.mem_cons_of_mem _ hname)
  have hdir : resolveEnvDir host env "TG_HOME" = resolveEnvDir host env' "TG_HOME" := by
    dsimp only [resolveEnvDir]
    rw [htext, ← hhome, expandUser.eq_def, expandUser.eq_def,
      hnames "HOME" List.mem_cons_self]
  rw [rootOf, rootOf, hdir]

theorem rootOf_of_unset (host : Host) {env : Environ} (h : env "TG_HOME" = none) :
    rootOf host env = some (fallbackRoot host) := by
  have hdir : resolveEnvDir host env "TG_HOME" = some none := by
    dsimp only [resolveEnvDir]
    rw [h, if_pos (by decide)]
  rw [rootOf, hdir]
  rfl

/-- What is memoised, if anything, is the choice that would be made again. -/
def Memoised (host : Host) (s : Process) : Prop :=
  ∀ root, s.rootCache = some root → root = fallbackRoot host

theorem memoised_resetTgHomeCache (host : Host) (s : Process) :
    Memoised host (resetTgHomeCache s) := by
  intro root hroot
  cases hroot

/-- `tg_home` resolves the root of the environment and changes no variable. -/
theorem tgHome_eq_some {host : Host} {s s' : Process} {root : Path} (hs : Memoised host s)
    (h : tgHome host s = some (root, s')) :
    rootOf host s.environ = some root ∧ s'.environ = s.environ ∧ Memoised host s' := by
  rw [tgHome] at h
  rw [rootOf]
  split at h
  · cases h
  · next env henv =>
    rw [henv]
    cases h
    exact ⟨rfl, rfl, hs⟩
  · next henv =>
    rw [henv]
    split at h
    · next cached hcached =>
      cases h
      rw [hs root hcached]
      exact ⟨rfl, rfl, hs⟩
    · cases h
      refine ⟨rfl, rfl, ?_⟩
      intro root hroot
      exact (Option.some.inj hroot).symm

/-- `tg_home` raises in no environment that has a root. -/
theorem tgHome_fst {host : Host} {s : Process} (hs : Memoised host s) :
    (tgHome host s).map Prod.fst = rootOf host s.environ := by
  cases h : tgHome host s with
  | none =>
    rw [tgHome] at h
    rw [rootOf]
    split at h
    · next henv =>
      rw [henv]
      rfl
    · cases h
    · split at h <;> cases h
  | some found => exact (tgHome_eq_some hs h).1.symm

end TgMessenger
