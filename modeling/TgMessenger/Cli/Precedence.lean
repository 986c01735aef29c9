import TgMessenger.Cli.Dotenv

/-!
# Which source wins

The precedence the docstring of `_load_dotenv` states, as a function of the environment and of
what the sources hold, and that the two passes compute it.
-/

namespace TgMessenger.Cli

open Layers

/-! ## The precedence -/

section

variable (host : Host) (path : Source) (env : Environ)

/-- What a source holds under a key; one that cannot be read holds nothing. -/
def value (key : String) (source : Source) : Option String :=
  (parseDotenv host source).bind (·.get? key)

/-- All that a source holds. -/
def settings (source : Source) : String → Option String := fun key ↦ value host key source

/-- The home sources that may name the root. -/
def homeSources : List Path :=
  [(fallbackRoot host).child ".env", host.defaultHome.child ".env"]

/-- `TG_HOME`, of the first that holds it. -/
def settledHome : Option String :=
  (env "TG_HOME").or ((path :: (homeSources host).map .path).findSome? (value host "TG_HOME"))

/-- The home source that names the root, if one does. -/
def redirecting : Option Path :=
  if ((env "TG_HOME").or (value host "TG_HOME" path)).isSome then none
  else (homeSources host).find? fun p ↦ (value host "TG_HOME" (.path p)).isSome

/-- The environment the active root is taken from: under the `.env` of the working directory,
with `TG_HOME` settled, before any home source is layered in. -/
def settled : Environ :=
  Function.update (layer credsPair sourceHasPair env (settings host path)) "TG_HOME"
    (settledHome host path env)

/-- The home sources that are layered in, the highest first. -/
def homes (root : Path) : List Source :=
  (root.child ".env" ::
    (redirecting host path env).toList ++ [host.defaultHome.child ".env"]).map .path

/-- The sources, the highest first. -/
def sources (root : Path) : List Source := path :: homes host path env root

/-- No home source holds a variable that the value of `TG_HOME` refers to and that is not set. -/
def Stays (root : Path) : Prop :=
  ∀ name ∈ homeReferences (settled host path env), settled host path env name = none →
    ∀ source ∈ homes host path env root, value host name source = none

/-- The pair is that of the first source that holds both its halves, and `TG_HOME` is settled.
Unless a home source moves it, the root is the one that `TG_HOME` names, and every other key has
the value of the first source that holds it. -/
structure Precedence (root : Path) (s' : Process) : Prop where
  creds : ∀ key ∈ credsPair, s'.environ key =
    if Unset credsPair env then
      ((sources host path env root).find? fun source ↦
        sourceHasPair (settings host source)).bind (value host key)
    else env key
  home : s'.environ "TG_HOME" = settledHome host path env
  active : Stays host path env root → (tgHome host s').map Prod.fst = some root
  other : Stays host path env root → ∀ key ∉ credsPair, key ≠ "TG_HOME" →
    s'.environ key = (env key).or ((sources host path env root).findSome? (value host key))

end

/-! ## The two passes -/

section

variable {host : Host} {path : Source}

theorem applyDotenvSource_eq_layer {source : Source} {env env' : Environ}
    (h : applyDotenvSource host source env = some env') :
    env' = layer credsPair sourceHasPair env (settings host source) := by
  obtain ⟨parsed, hparsed, rfl⟩ := applyDotenvSource_eq_some h
  have hsettings : settings host source = parsed.get? := by
    funext key
    rw [settings, value, hparsed, Option.bind_some]
  rw [hsettings]

/-- The environment under several sources. -/
abbrev layered (host : Host) (env : Environ) (ss : List Source) : Environ :=
  (ss.map (settings host)).foldl (layer credsPair sourceHasPair) env

theorem layered_concat (env : Environ) (ss : List Source) (source : Source) :
    layered host env (ss ++ [source]) =
      layer credsPair sourceHasPair (layered host env ss) (settings host source) := by
  rw [layered, List.map_append, List.foldl_append]
  rfl

/-- A source that was applied is not missed when it is left out. -/
theorem layered_concat_of_mem (env : Environ) {ss : List Source} {source : Source}
    (h : source ∈ ss) : layered host env (ss ++ [source]) = layered host env ss := by
  rw [layered_concat]
  exact layer_of_mem_layers (fun _ ↦ ne_none_of_sourceHasPair) (List.mem_map_of_mem h) env

/-- The home sources are layered in, those left out included. -/
theorem applyCandidates_eq_some {start : Environ} {candidates : List Source} :
    ∀ {applied ss : List Source} {env env' : Environ},
      applyCandidates host applied candidates env = some env' → (∀ s ∈ applied, s ∈ ss) →
      env = layered host start ss → env' = layered host start (ss ++ candidates) := by
  induction candidates with
  | nil =>
    intro applied ss env env' h _ henv
    rw [List.append_nil, ← henv]
    exact (Option.some.inj h).symm
  | cons candidate candidates ih =>
    intro applied ss env env' h happlied henv
    rw [List.append_cons]
    rw [applyCandidates] at h
    split_ifs at h with hmem
    · refine ih h ?_ ?_
      · intro s hs
        exact List.mem_append_left _ (happlied s hs)
      · rw [layered_concat_of_mem start (happlied _ hmem), henv]
    · obtain ⟨next, hnext, hrest⟩ := Option.bind_eq_some_iff.mp h
      refine ih hrest ?_ ?_
      · intro s hs
        rw [List.mem_append] at hs ⊢
        exact hs.imp_left (happlied s)
      · rw [layered_concat, ← henv]
        exact applyDotenvSource_eq_layer hnext

/-- The scan takes `TG_HOME` from the first candidate that holds it. -/
theorem scanHome_eq_some {candidates : List Path} {s s' : Process} {found : Option Path}
    (hs : Memoised host s) (hunset : s.environ "TG_HOME" = none)
    (h : scanHome host candidates s = some (found, s')) :
    found = candidates.find? (fun p ↦ (value host "TG_HOME" (.path p)).isSome) ∧
      s'.environ = Function.update s.environ "TG_HOME"
        (candidates.findSome? fun p ↦ value host "TG_HOME" (.path p)) ∧
      Memoised host s' := by
  induction candidates with
  | nil =>
    cases h
    refine ⟨rfl, ?_, hs⟩
    rw [List.findSome?_nil, ← hunset, Function.update_eq_self]
  | cons candidate candidates ih =>
    obtain ⟨parsed, hparsed, hrest⟩ := Option.bind_eq_some_iff.mp h
    have hvalue : value host "TG_HOME" (.path candidate) = parsed.get? "TG_HOME" := by
      rw [value, hparsed, Option.bind_some]
    rw [List.find?_cons, List.findSome?_cons, hvalue]
    cases hhome : parsed.get? "TG_HOME" with
    | none =>
      rw [hhome] at hrest
      exact ih hrest
    | some home =>
      rw [hhome] at hrest
      obtain ⟨environ, henviron, hlast⟩ := Option.bind_eq_some_iff.mp hrest
      cases hlast
      exact ⟨rfl, putEnv_eq_some henviron, memoised_resetTgHomeCache host _⟩

/-- `TG_HOME` is settled after the extraction. -/
theorem extractHome_eq_some {s s' : Process} {found : Option Path} (hs : Memoised host s)
    (h : extractHome host s = some (found, s')) :
    (found = if (s.environ "TG_HOME").isSome then none
      else (homeSources host).find? fun p ↦ (value host "TG_HOME" (.path p)).isSome) ∧
      s'.environ = Function.update s.environ "TG_HOME" ((s.environ "TG_HOME").or
        ((homeSources host).findSome? fun p ↦ value host "TG_HOME" (.path p))) ∧
      Memoised host s' := by
  rw [extractHome] at h
  split_ifs at h with hset
  · cases h
    obtain ⟨home, hhome⟩ := Option.isSome_iff_exists.mp hset
    refine ⟨(if_pos hset).symm, ?_, hs⟩
    rw [hhome, Option.some_or, ← hhome, Function.update_eq_self]
  · have hunset : s.environ "TG_HOME" = none := Option.not_isSome_iff_eq_none.mp hset
    obtain ⟨⟨home, next⟩, hnext, hscan⟩ := Option.bind_eq_some_iff.mp h
    obtain ⟨hroot, henviron, hmemo⟩ := tgHome_eq_some hs hnext
    rw [rootOf_of_unset host hunset] at hroot
    obtain rfl := Option.some.inj hroot
    rw [← henviron] at hunset
    obtain ⟨hfound, hscanned, hmemo'⟩ := scanHome_eq_some hmemo hunset hscan
    rw [if_neg hset]
    refine ⟨hfound, ?_, hmemo'⟩
    rw [hscanned, ← henviron, hunset, Option.none_or]
    rfl

/-- Under `TG_HOME` settled from the start, the first layer gives the settled environment. -/
theorem layer_settled (env : Environ) :
    layer credsPair sourceHasPair
        (Function.update env "TG_HOME" (settledHome host path env)) (settings host path) =
      settled host path env := by
  refine layer_update (by decide) ?_ env
  rw [settledHome, List.findSome?_cons]
  cases env "TG_HOME" with
  | some home => rfl
  | none =>
    rw [Option.none_or, settings]
    cases value host "TG_HOME" path with
    | some home => rfl
    | none => rw [Option.or_none]

/-- `_load_dotenv` layers the sources, the highest first, over the settled `TG_HOME`. -/
theorem loadDotenv_eq_some {s s' : Process} (h : loadDotenv host path s = some s') :
    ∃ root, rootOf host (settled host path s.environ) = some root ∧
      s'.environ = layered host
        (Function.update s.environ "TG_HOME" (settledHome host path s.environ))
        (sources host path s.environ root) ∧
      Memoised host s' := by
  obtain ⟨cwd, hcwd, h⟩ := Option.bind_eq_some_iff.mp h
  obtain ⟨⟨found, next⟩, hnext, h⟩ := Option.bind_eq_some_iff.mp h
  obtain ⟨⟨root, last⟩, hlast, h⟩ := Option.bind_eq_some_iff.mp h
  obtain ⟨environ, henviron, h⟩ := Option.bind_eq_some_iff.mp h
  cases h
  obtain rfl := applyDotenvSource_eq_layer hcwd
  obtain ⟨hfound, hextracted, hmemo⟩ := extractHome_eq_some
    (memoised_resetTgHomeCache host _) hnext
  obtain ⟨hroot, hsame, hmemo'⟩ := tgHome_eq_some hmemo hlast
  have hhome : layer credsPair sourceHasPair s.environ (settings host path) "TG_HOME" =
      (s.environ "TG_HOME").or (value host "TG_HOME" path) := layer_of_notMem (by decide) ..
  have hsettled : next.environ = settled host path s.environ := by
    rw [hextracted, settled, settledHome, List.findSome?_cons, List.findSome?_map]
    refine congrArg _ ?_
    show (layer credsPair sourceHasPair s.environ (settings host path) "TG_HOME").or _ = _
    rw [hhome, Option.or_assoc]
    cases value host "TG_HOME" path <;> rfl
  have hredirecting : found = redirecting host path s.environ := by
    rw [hfound, redirecting, ← hhome]
    rfl
  rw [hsettled] at hroot hsame
  refine ⟨root, hroot, ?_, hmemo'⟩
  have hpath : last.environ = layered host
      (Function.update s.environ "TG_HOME" (settledHome host path s.environ)) [path] := by
    rw [hsame, ← layer_settled]
    rfl
  have hall := applyCandidates_eq_some henviron (fun source hsource ↦ hsource) hpath
  rw [hredirecting] at hall
  exact hall

/-- Where nothing names the root, no source does. -/
theorem value_of_mem_sources {env : Environ} {root : Path} {source : Source}
    (hunset : settledHome host path env = none)
    (hroot : rootOf host (settled host path env) = some root)
    (hsource : source ∈ sources host path env root) : value host "TG_HOME" source = none := by
  obtain ⟨-, hnone⟩ := Option.or_eq_none_iff.mp hunset
  rw [List.findSome?_eq_none_iff] at hnone
  have hsettled : settled host path env "TG_HOME" = none := by
    rw [settled, Function.update_self, hunset]
  rw [rootOf_of_unset host hsettled] at hroot
  obtain rfl := Option.some.inj hroot
  refine hnone source ?_
  rw [sources, homes, List.mem_cons] at hsource
  rw [List.mem_cons]
  refine hsource.imp_right fun hmem ↦ ?_
  obtain ⟨p, hp, rfl⟩ := List.mem_map.mp hmem
  refine List.mem_map_of_mem ?_
  simp only [List.mem_append, List.mem_cons, Option.mem_toList, List.not_mem_nil, or_false]
    at hp
  rw [homeSources]
  obtain (rfl | hredirecting) | rfl := hp
  · exact List.mem_cons_self
  · rw [redirecting] at hredirecting
    split_ifs at hredirecting
    exact List.mem_of_find?_eq_some hredirecting
  · exact List.mem_cons_of_mem _ List.mem_cons_self

/-- The pair under the sources, over the settled `TG_HOME`. -/
theorem layered_creds {env : Environ} (root : Path) {key : String} (hkey : key ∈ credsPair) :
    layered host (Function.update env "TG_HOME" (settledHome host path env))
        (sources host path env root) key =
      if Unset credsPair env then
        ((sources host path env root).find? fun source ↦
          sourceHasPair (settings host source)).bind (value host key)
      else env key := by
  have hne : key ≠ "TG_HOME" := ne_of_mem_of_not_mem hkey (by decide)
  split_ifs with hunset
  · rw [layered, foldl_layer_of_unset (fun _ ↦ ne_none_of_sourceHasPair) hkey _ _
      ((unset_update (by decide) _ _).mpr hunset), List.find?_map, Option.bind_map]
    rfl
  · rw [layered, foldl_layer_of_set hkey _ _
      (mt (unset_update (by decide) _ _).mp hunset), Function.update_of_ne hne]

/-- A key outside the pair under the sources. -/
theorem layered_other {env : Environ} (root : Path) {key : String} (hkey : key ∉ credsPair)
    (hne : key ≠ "TG_HOME") :
    layered host (Function.update env "TG_HOME" (settledHome host path env))
        (sources host path env root) key =
      (env key).or ((sources host path env root).findSome? (value host key)) := by
  rw [layered, foldl_layer_of_notMem hkey, Function.update_of_ne hne, List.findSome?_map]
  rfl

/-- `TG_HOME` stays settled. -/
theorem layered_home {env : Environ} {root : Path}
    (hroot : rootOf host (settled host path env) = some root) :
    layered host (Function.update env "TG_HOME" (settledHome host path env))
      (sources host path env root) "TG_HOME" = settledHome host path env := by
  rw [layered, foldl_layer_of_notMem (by decide), Function.update_self, List.findSome?_map]
  cases hhome : settledHome host path env with
  | some home => rfl
  | none =>
    rw [Option.none_or, List.findSome?_eq_none_iff]
    exact fun source hsource ↦ value_of_mem_sources hhome hroot hsource

/-- What `TG_HOME` refers to is afterwards as it was when the root was resolved. -/
theorem Stays.layered_eq {env : Environ} {root : Path} (h : Stays host path env root)
    {name : String} (hname : name ∈ homeReferences (settled host path env)) :
    layered host (Function.update env "TG_HOME" (settledHome host path env))
      (sources host path env root) name = settled host path env name := by
  rw [sources, layered, List.map_cons, List.foldl_cons, layer_settled]
  by_cases hnone : settled host path env name = none
  · rw [hnone]
    refine foldl_layer_eq_none ?_ _ hnone
    intro d hd
    obtain ⟨source, hsource, rfl⟩ := List.mem_map.mp hd
    exact h name hname hnone source hsource
  · exact foldl_layer_of_ne_none _ hnone

/-- After `_load_dotenv` the pair comes from one source and `TG_HOME` is settled; and unless a home
source adds a variable that the value of `TG_HOME` refers to, the root it names is the active one
and every other key has the value of the highest source that holds it. -/
theorem loadDotenv_precedence {s s' : Process} (h : loadDotenv host path s = some s') :
    ∃ root, rootOf host (settled host path s.environ) = some root ∧
      Precedence host path s.environ root s' := by
  obtain ⟨root, hroot, henviron, hmemo⟩ := loadDotenv_eq_some h
  have hhome : s'.environ "TG_HOME" = settledHome host path s.environ := by
    rw [henviron, layered_home hroot]
  refine ⟨root, hroot, ?_, hhome, ?_, ?_⟩
  · intro key hkey
    rw [henviron]
    exact layered_creds root hkey
  · intro hstays
    rw [tgHome_fst hmemo, ← hroot]
    refine (rootOf_congr host ?_ ?_).symm
    · rw [hhome, settled, Function.update_self]
    · intro name hname
      rw [henviron, hstays.layered_eq hname]
  · intro _ key hkey hne
    rw [henviron]
    exact layered_other root hkey hne

end

/-! ## A redirect, and a blank half -/

/-- A host with these files and no legacy root. -/
def hostWith (files : List (String × String)) : Host where
  legacyHome := .ofString "/home/u/.tg_messenger"
  defaultHome := .ofString "/home/u/.tg"
  iterdir _ := none
  file p := ((files.find? fun file ↦ Path.ofString file.1 = p).map fun file ↦
    File.text file.2.toList).getD .missing
  userHome _ := none

/-- Keys that are set one by one. -/
def environOf (items : List (String × String)) : Environ := fun key ↦ items.lookup key

/-- A redirect by `~/.tg/.env`, to a root whose own `TG_HOME` does nothing. -/
theorem loadDotenv_precedence_of_redirect :
    let host := hostWith [("/home/u/.tg/.env", "TG_HOME=/srv/tg\nTG_API_ID=1\nKEY=old"),
      ("/srv/tg/.env", "KEY='new'\nTG_HOME=/srv/other")]
    let env := environOf []
    ∃ s', loadDotenv host (.str ".env") ⟨env, none⟩ = some s' ∧
      Precedence host (.str ".env") env (.ofString "/srv/tg") s' ∧
      (tgHome host s').map Prod.fst = some (.ofString "/srv/tg") ∧
      s'.environ "TG_HOME" = some "/srv/tg" ∧ s'.environ "KEY" = some "new" := by
  intro host env
  have hloads : (loadDotenv host (.str ".env") ⟨env, none⟩).isSome = true := by
    decide +kernel
  obtain ⟨s', hs'⟩ := Option.isSome_iff_exists.mp hloads
  obtain ⟨root, hroot, hprecedence⟩ := loadDotenv_precedence hs'
  have hsrv : rootOf host (settled host (.str ".env") env) = some (.ofString "/srv/tg") := by
    decide +kernel
  obtain rfl := Option.some.inj (hsrv.symm.trans hroot)
  have hstays : Stays host (.str ".env") env (.ofString "/srv/tg") := by
    unfold Stays
    decide +kernel
  refine ⟨s', hs', hprecedence, hprecedence.active hstays, ?_, ?_⟩
  · rw [hprecedence.home]
    decide +kernel
  · rw [hprecedence.other hstays "KEY" (by decide) (by decide)]
    decide +kernel

/-- A blank half is not empty, and the pair of its source is not taken. -/
theorem loadDotenv_blank_half :
    let host := hostWith [("/home/u/.tg/.env", "TG_API_ID=' '\nTG_API_HASH=h")]
    let env := environOf []
    ((loadDotenv host (.str ".env") ⟨env, none⟩).any fun s ↦
      ((tgHome host s).any fun root ↦
        s.environ "TG_API_ID" ≠ ((sources host (.str ".env") env root.1).find? fun source ↦
          credsPair.all fun key ↦ (value host key source).getD "" ≠ "").bind
            (value host "TG_API_ID"))) = true := by
  decide +kernel

end TgMessenger.Cli
