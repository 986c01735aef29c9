import TgMessenger.Translate.Failure

/-!
# Setting everything at once

`Translator.set_settings` calls one setter after the other.  The mode and the cap are validated
before the first of them; a code is validated by its own setter, when the setters before it
have written.
-/

namespace TgMessenger.Translate

open Asyncio MessageStore

/-! ## The setters -/

/-- `set_max_messages`. -/
def setMaxMessages (n : Option ℤ) : TranslateProg Unit :=
  match n with
  | none => perform (.deleteValue .maxMessages)
  | some value =>
    if value < 1 then .raise "max messages must be >= 1"
    else perform (.setValue .maxMessages (.num value))

/-- The arguments of `set_settings`. -/
structure SettingsArgs where
  mode : String
  target : Option String := none
  known : Option Codes := none
  unknown : Option Codes := none
  model : Option String := none
  /-- What `int(max_messages)` returns, or the text of its `ValueError`. -/
  maxMessages : Option (Except String ℤ) := none

/-- The cap that is set, or the text of the `ValueError`. -/
def checkedCap (maxMessages : Option (Except String ℤ)) : Except String (Option ℤ) :=
  match maxMessages with
  | none => .ok none
  | some (.error e) => .error e
  | some (.ok n) => if n < 1 then .error "max messages must be >= 1" else .ok (some n)

/-- `if value is not None: await setter(value)`. -/
def given {α : Type} (value : Option α) (setter : α → TranslateProg Unit) : TranslateProg Unit :=
  match value with
  | none => return ()
  | some value => setter value

/-- `set_settings`. -/
def setSettings (env : Env) (args : SettingsArgs) : TranslateProg Unit :=
  if (modeOf args.mode).isNone then .raise ("invalid translate mode: " ++ args.mode)
  else
    match checkedCap args.maxMessages with
    | .error e => .raise e
    | .ok cap => do
      given args.target fun target ↦ setUserLang (orNone target)
      given args.known (setKnownLangs env)
      given args.unknown (setUnknownLangs env)
      given args.model fun model ↦ setTranslateModel (orNone model)
      given cap fun n ↦ setMaxMessages (some n)
      setTranslateMode (some args.mode)

/-! ## Runs in which no statement fails -/

section Runs

variable {cfg : Setup} {t : ℕ} {w w' : World}

/-- No statement of a run has failed. -/
def Unfaulted (cfg : Setup) (w w' : World) : Prop :=
  ∀ n, w.statements ≤ n → n < w'.statements → cfg.faults n = none

/-- A statement counts. -/
theorem statements_le_handle (cfg : Setup) (t : ℕ) (o : Op) (w : World)
    {x : Except String (effects.Ret o)} (h : handle cfg t o w = .done x w') :
    w.statements ≤ w'.statements := by
  have hstatement {α : Type} (result : α) (f : World → World)
      {y : Except String α} (hy : w.statement cfg result f = .done y w')
      (hf : ∀ w, (f w).statements = w.statements) : w.statements ≤ w'.statements := by
    rw [World.statement] at hy
    split at hy
    · cases hy
      exact Nat.le_succ _
    · cases hy
      rw [hf]
      exact Nat.le_succ _
  cases o with
  | translate payload target skipLangs onlyLangs =>
    cases h
    exact le_rfl
  | getValue key => exact hstatement _ _ h fun _ ↦ rfl
  | setValue key value => exact hstatement _ _ h fun _ ↦ rfl
  | deleteValue key => exact hstatement _ _ h fun _ ↦ rfl
  | clearAllTranslations => exact hstatement _ _ h fun _ ↦ rfl
  | getMessageTranslation => exact hstatement _ _ h fun _ ↦ rfl
  | upsertMessageForTranslation m => exact hstatement _ _ h fun _ ↦ rfl
  | setMessageTranslation => exact hstatement _ _ h fun _ ↦ rfl

theorem statements_le_run {α : Type} (p : TranslateProg α) {x : Except String α}
    (h : p.run (system cfg) t w = some (x, w')) : w.statements ≤ w'.statements := by
  induction p generalizing w with
  | ret a =>
    obtain ⟨-, rfl⟩ := Prod.mk.inj (Option.some.inj h)
    exact le_rfl
  | raise e =>
    obtain ⟨-, rfl⟩ := Prod.mk.inj (Option.some.inj h)
    exact le_rfl
  | op o k ih =>
    rw [Prog.run] at h
    split at h
    · next y w₁ hhandle => exact (statements_le_handle cfg t o w hhandle).trans (ih y h)
    · cases h
    · cases h

/-- A run of two parts: both returned, or the first raised. -/
theorem run_bind_cases {α β : Type} {p : TranslateProg α} {f : α → TranslateProg β}
    {x : Except String β} (h : (p >>= f).run (system cfg) t w = some (x, w'))
    (hw : Unfaulted cfg w w') :
    (∃ a w₁, p.run (system cfg) t w = some (.ok a, w₁) ∧ Unfaulted cfg w w₁ ∧
      (f a).run (system cfg) t w₁ = some (x, w') ∧ Unfaulted cfg w₁ w') ∨
      ∃ e, p.run (system cfg) t w = some (.error e, w') ∧ x = .error e := by
  rw [Prog.run_bind] at h
  obtain ⟨⟨y, w₁⟩, hfirst, h⟩ := Option.bind_eq_some_iff.mp h
  cases y with
  | ok a =>
    have hle := statements_le_run p hfirst
    have hle' := statements_le_run (f a) h
    exact .inl ⟨a, w₁, hfirst, fun n hn hn' ↦ hw n hn (hn'.trans_le hle'), h,
      fun n hn hn' ↦ hw n (hle.trans hn) hn'⟩
  | error e =>
    obtain ⟨rfl, rfl⟩ := Prod.mk.inj (Option.some.inj h)
    exact .inr ⟨e, hfirst, rfl⟩

/-- A statement that has not failed. -/
theorem run_statement_of_unfaulted {o : Op} {result : effects.Ret o} {f : World → World}
    (ho : handle cfg t o w = w.statement cfg result f) {x : Except String (effects.Ret o)}
    (h : (perform o).run (system cfg) t w = some (x, w')) (hw : Unfaulted cfg w w') :
    x = .ok result ∧ w' = f { w with statements := w.statements + 1 } := by
  rw [run_statement cfg t ho] at h
  cases hfault : cfg.faults w.statements with
  | some e =>
    rw [hfault] at h
    obtain ⟨-, rfl⟩ := Prod.mk.inj (Option.some.inj h)
    rw [hw w.statements le_rfl (Nat.lt_succ_self _)] at hfault
    cases hfault
  | none =>
    rw [hfault] at h
    obtain ⟨rfl, rfl⟩ := Prod.mk.inj (Option.some.inj h)
    exact ⟨rfl, rfl⟩

/-- What a setter leaves that has written a value and cleared the cache. -/
structure Wrote (w w' : World) (key : Key) (value : Option Json) : Prop where
  kv : w'.kv = Function.update w.kv key value
  db : w'.db = w.db.clearAllTranslations

/-- Writing a value and clearing the cache. -/
theorem run_write {o : Op} {result : effects.Ret o} {key : Key} {value : Option Json}
    (ho : ∀ w, handle cfg t o w = w.statement cfg result (.write t key value))
    {x : Except String Unit}
    (h : (perform o >>= fun _ ↦ perform .clearAllTranslations).run (system cfg) t w =
      some (x, w')) (hw : Unfaulted cfg w w') : x = .ok () ∧ Wrote w w' key value := by
  rcases run_bind_cases h hw with ⟨a, w₁, hfirst, hw₁, hclear, hw'⟩ | ⟨e, hfirst, -⟩
  · obtain ⟨-, rfl⟩ := run_statement_of_unfaulted (ho w) hfirst hw₁
    obtain ⟨rfl, rfl⟩ := run_statement_of_unfaulted rfl hclear hw'
    exact ⟨rfl, rfl, rfl⟩
  · obtain ⟨herror, -⟩ := run_statement_of_unfaulted (ho w) hfirst hw
    cases herror

/-- `set_user_lang`: a bad code is refused before anything is written. -/
theorem run_setUserLang {code : Option String} {x : Except String Unit}
    (h : (setUserLang code).run (system cfg) t w = some (x, w')) (hw : Unfaulted cfg w w') :
    (∃ text, code = some text ∧ cleanSupportedLangCode (some text) = none ∧
        (∃ e, x = .error e) ∧ w' = w) ∨
      x = .ok () ∧ (code ≠ none → cleanSupportedLangCode code ≠ none) ∧
        Wrote w w' .userLang ((cleanSupportedLangCode code).map .str) := by
  rw [setUserLang.eq_def] at h
  cases code with
  | none =>
    obtain ⟨hx, hwrote⟩ := run_write (fun _ ↦ rfl) h hw
    exact .inr ⟨hx, fun hne ↦ absurd rfl hne, hwrote⟩
  | some text =>
    dsimp only at h
    cases hclean : cleanSupportedLangCode (some text) with
    | none =>
      rw [hclean] at h
      obtain ⟨rfl, rfl⟩ := Prod.mk.inj (Option.some.inj h)
      exact .inl ⟨text, rfl, hclean, ⟨_, rfl⟩, rfl⟩
    | some lang =>
      rw [hclean] at h
      obtain ⟨hx, hwrote⟩ := run_write (fun _ ↦ rfl) h hw
      exact .inr ⟨hx, fun _ ↦ Option.some_ne_none lang, hwrote⟩

/-- `_set_lang_list`: a bad list is refused before anything is written. -/
theorem run_setLangList {key : Key} {codes : Codes} {x : Except String Unit}
    (h : (setLangList cfg.toEnv key codes).run (system cfg) t w = some (x, w'))
    (hw : Unfaulted cfg w w') :
    (∃ e, cleanedCodes codes = .error e ∧ w' = w) ∨
      ∃ langs, cleanedCodes codes = .ok langs ∧ x = .ok () ∧
        Wrote w w' key (some (.str (cfg.dumps langs))) := by
  rw [setLangList] at h
  cases hcleaned : cleanedCodes codes with
  | error e =>
    rw [hcleaned] at h
    obtain ⟨-, rfl⟩ := Prod.mk.inj (Option.some.inj h)
    exact .inl ⟨e, rfl, rfl⟩
  | ok langs =>
    rw [hcleaned] at h
    obtain ⟨hx, hwrote⟩ := run_write (fun _ ↦ rfl) h hw
    exact .inr ⟨langs, rfl, hx, hwrote⟩

/-- Nothing in a program raises but a statement that fails. -/
def Quiet (cfg : Setup) (t : ℕ) (p : TranslateProg Unit) : Prop :=
  ∀ w w' x, p.run (system cfg) t w = some (x, w') → Unfaulted cfg w w' → x = .ok ()

theorem quiet_given {α : Type} {value : Option α} {setter : α → TranslateProg Unit}
    (h : ∀ a, value = some a → Quiet cfg t (setter a)) : Quiet cfg t (given value setter) := by
  cases value with
  | none =>
    intro w w' x hrun _
    exact (Prod.mk.inj (Option.some.inj hrun)).1.symm
  | some a => exact h a rfl

theorem quiet_bind {p : TranslateProg Unit} {f : Unit → TranslateProg Unit} (hp : Quiet cfg t p)
    (hf : ∀ a, Quiet cfg t (f a)) : Quiet cfg t (p >>= f) := by
  intro w w' x hrun hw
  rcases run_bind_cases hrun hw with ⟨a, w₁, -, -, hrest, hw'⟩ | ⟨e, hfirst, -⟩
  · exact hf a w₁ w' x hrest hw'
  · cases hp w w' _ hfirst hw

theorem quiet_setTranslateModel (name : Option String) : Quiet cfg t (setTranslateModel name) := by
  intro w w' x hrun hw
  rw [setTranslateModel] at hrun
  cases hname : name.filter (fun name ↦ !isBlank name) with
  | none =>
    rw [hname] at hrun
    exact (run_write (fun _ ↦ rfl) hrun hw).1
  | some name =>
    rw [hname] at hrun
    exact (run_write (fun _ ↦ rfl) hrun hw).1

theorem quiet_setMaxMessages {n : ℤ} (hn : ¬ n < 1) : Quiet cfg t (setMaxMessages (some n)) := by
  intro w w' x hrun hw
  rw [setMaxMessages, if_neg hn] at hrun
  exact (run_statement_of_unfaulted rfl hrun hw).1

theorem quiet_setTranslateMode {mode : String} (hmode : (modeOf mode).isSome = true) :
    Quiet cfg t (setTranslateMode (some mode)) := by
  intro w w' x hrun hw
  rw [setTranslateMode, if_pos hmode] at hrun
  exact (run_write (fun _ ↦ rfl) hrun hw).1

end Runs

/-! ## What was written before a refusal -/

/-- The target is refused. -/
def TargetRefused (args : SettingsArgs) : Prop :=
  ∃ target, args.target = some target ∧ target ≠ "" ∧ cleanSupportedLangCode (some target) = none

/-- What a good target sets. -/
def targetWritten (args : SettingsArgs) : List (Key × Option Json) :=
  args.target.toList.map fun target ↦
    (.userLang, (cleanSupportedLangCode (orNone target)).map .str)

/-- What a good list of known languages sets. -/
def knownWritten (env : Env) (args : SettingsArgs) : List (Key × Option Json) :=
  match args.known.map cleanedCodes with
  | some (.ok langs) => [(.knownLangs, some (.str (env.dumps langs)))]
  | _ => []

/-- What was set, with a good target, when a list is refused. -/
def written (env : Env) (args : SettingsArgs) : List (Key × Option Json) :=
  targetWritten args ++ knownWritten env args

/-- No message has a cached decision. -/
def Untranslated (db : Db) : Prop :=
  ∀ d id row, db.row? d id = some row → row.translatedText = none ∧ row.translatedLang = none

/-- A refusal comes before anything is written, or what was written was stored already and there
was nothing to clear. -/
def Harmless (env : Env) (args : SettingsArgs) (w : World) : Prop :=
  modeOf args.mode = none ∨ (∃ e, checkedCap args.maxMessages = .error e) ∨ TargetRefused args ∨
    (∀ p ∈ written env args, w.kv p.1 = p.2) ∧ (written env args ≠ [] → Untranslated w.db)

/-- What a list of writings does. -/
structure Applied (w w' : World) (writes : List (Key × Option Json)) : Prop where
  kv : w'.kv = writes.foldl (fun kv p ↦ Function.update kv p.1 p.2) w.kv
  db : w'.db = if writes = [] then w.db else w.db.clearAllTranslations

/-- Clearing changes nothing exactly when there is nothing to clear. -/
theorem clearAllTranslations_eq_self_iff (db : Db) :
    db.clearAllTranslations = db ↔ Untranslated db := by
  constructor
  · intro hclear d id row hrow
    have hmap : db.clearAllTranslations.row? d id = (db.row? d id).map fun r ↦
        { r with translatedText := none, translatedLang := none } := db.row?_clearAllTranslations
    rw [hclear, hrow, Option.map_some, Option.some.injEq] at hmap
    rw [hmap]
    exact ⟨rfl, rfl⟩
  · intro huntranslated
    have hentries : (db.messages.map fun r ↦
        { r with translatedText := none, translatedLang := none }).entries =
          db.messages.entries := by
      refine (List.map_congr_left ?_).trans (List.map_id _)
      intro e he
      obtain ⟨htext, hlang⟩ := huntranslated (ofLex e.1).1 (ofLex e.1).2 e.2
        (Table.get?_eq_some_iff.mpr he)
      obtain ⟨key, row⟩ := e
      cases row
      cases htext
      cases hlang
      rfl
    obtain ⟨⟨entries, sorted⟩, sync⟩ := db
    simp only [Db.clearAllTranslations, Table.map] at hentries ⊢
    congr

theorem untranslated_clearAllTranslations (db : Db) : Untranslated db.clearAllTranslations := by
  intro d id row hrow
  rw [Db.row?_clearAllTranslations] at hrow
  obtain ⟨stored, -, rfl⟩ := Option.map_eq_some_iff.mp hrow
  exact ⟨rfl, rfl⟩

namespace Applied

variable {w w₁ w' : World} {key : Key} {value : Option Json}
  {writes writes' : List (Key × Option Json)}

theorem nil (w : World) : Applied w w [] := ⟨rfl, rfl⟩

theorem of_wrote (h : Wrote w w' key value) : Applied w w' [(key, value)] := ⟨h.kv, h.db⟩

theorem append (h : Applied w w₁ writes) (h' : Applied w₁ w' writes') :
    Applied w w' (writes ++ writes') := by
  constructor
  · rw [h'.kv, h.kv, List.foldl_append]
  · rw [h'.db, h.db]
    cases writes with
    | nil => rfl
    | cons p writes =>
      cases writes' with
      | nil => rw [List.append_nil, if_pos rfl]
      | cons p' writes' =>
        rw [if_neg (List.cons_ne_nil _ _), if_neg (List.cons_ne_nil _ _), List.cons_append,
          if_neg (List.cons_ne_nil _ _)]
        exact (clearAllTranslations_eq_self_iff _).mpr (untranslated_clearAllTranslations w.db)

end Applied

/-- Writing values under different keys changes nothing exactly when they were there. -/
theorem foldl_update_eq_self_iff {writes : List (Key × Option Json)}
    (hnodup : (writes.map Prod.fst).Nodup) (kv : Key → Option Json) :
    writes.foldl (fun kv p ↦ Function.update kv p.1 p.2) kv = kv ↔ ∀ p ∈ writes, kv p.1 = p.2 := by
  have hother : ∀ (writes : List (Key × Option Json)) (kv : Key → Option Json) (key : Key),
      key ∉ writes.map Prod.fst →
        writes.foldl (fun kv p ↦ Function.update kv p.1 p.2) kv key = kv key := by
    intro writes
    induction writes with
    | nil => exact fun _ _ _ ↦ rfl
    | cons p writes ih =>
      intro kv key hkey
      rw [List.map_cons, List.mem_cons, not_or] at hkey
      rw [List.foldl_cons, ih _ _ hkey.2, Function.update_of_ne hkey.1]
  induction writes generalizing kv with
  | nil => simp
  | cons p writes ih =>
    rw [List.map_cons, List.nodup_cons] at hnodup
    rw [List.foldl_cons, List.forall_mem_cons]
    constructor
    · intro hsame
      have hp : kv p.1 = p.2 := by
        rw [← hsame, hother _ _ _ hnodup.1, Function.update_self]
      rw [← hp, Function.update_eq_self] at hsame
      exact ⟨hp, (ih hnodup.2 kv).mp hsame⟩
    · rintro ⟨hp, hrest⟩
      rw [← hp, Function.update_eq_self]
      exact (ih hnodup.2 kv).mpr hrest

theorem nodup_written (env : Env) (args : SettingsArgs) :
    ((written env args).map Prod.fst).Nodup := by
  rw [written, targetWritten, knownWritten]
  cases args.target with
  | none =>
    split
    · exact List.nodup_singleton _
    · exact List.nodup_nil
  | some target =>
    split
    · show [Key.userLang, Key.knownLangs].Nodup
      decide
    · exact List.nodup_singleton _

/-- What was written has changed nothing exactly when it was harmless. -/
theorem Applied.unchanged_iff {env : Env} {args : SettingsArgs} {w w' : World}
    (h : Applied w w' (written env args)) :
    (w'.kv = w.kv ∧ w'.db = w.db) ↔
      (∀ p ∈ written env args, w.kv p.1 = p.2) ∧ (written env args ≠ [] → Untranslated w.db) := by
  rw [h.kv, h.db, foldl_update_eq_self_iff (nodup_written env args)]
  refine and_congr_right fun _ ↦ ?_
  split_ifs with hnil
  · simp [hnil]
  · rw [clearAllTranslations_eq_self_iff]
    exact ⟨fun huntranslated _ ↦ huntranslated, fun huntranslated ↦ huntranslated hnil⟩

/-! ## A refusal -/

section Refusal

variable {cfg : Setup} {t : ℕ} {args : SettingsArgs} {w w' : World} {x : Except String Unit}

/-- The target is refused, or written. -/
theorem run_given_target
    (h : (given args.target fun target ↦ setUserLang (orNone target)).run (system cfg) t w =
      some (x, w')) (hw : Unfaulted cfg w w') :
    (TargetRefused args ∧ (∃ e, x = .error e) ∧ w' = w) ∨
      ¬ TargetRefused args ∧ x = .ok () ∧ Applied w w' (targetWritten args) := by
  rw [targetWritten]
  cases htarget : args.target with
  | none =>
    rw [htarget] at h
    obtain ⟨hx, rfl⟩ := Prod.mk.inj (Option.some.inj h)
    refine .inr ⟨?_, hx.symm, .nil w⟩
    rintro ⟨target, heq, -⟩
    rw [htarget] at heq
    cases heq
  | some target =>
    rw [htarget] at h
    rcases run_setUserLang h hw with ⟨text, htext, hclean, hx, hw'⟩ | ⟨hx, hgood, hwrote⟩
    · rw [orNone] at htext
      split_ifs at htext with hempty
      obtain rfl := Option.some.inj htext
      exact .inl ⟨⟨target, htarget, hempty, hclean⟩, hx, hw'⟩
    · refine .inr ⟨?_, hx, .of_wrote hwrote⟩
      rintro ⟨target', heq, hempty, hclean⟩
      rw [htarget, Option.some.injEq] at heq
      subst heq
      rw [orNone, if_neg hempty] at hgood
      exact hgood (Option.some_ne_none target) hclean

/-- The known languages are refused, or written. -/
theorem run_given_known
    (h : (given args.known (setKnownLangs cfg.toEnv)).run (system cfg) t w = some (x, w'))
    (hw : Unfaulted cfg w w') :
    Applied w w' (knownWritten cfg.toEnv args) := by
  rw [knownWritten]
  cases hknown : args.known with
  | none =>
    rw [hknown] at h
    obtain ⟨-, rfl⟩ := Prod.mk.inj (Option.some.inj h)
    exact .nil w
  | some codes =>
    rw [hknown] at h
    rcases run_setLangList h hw with ⟨e, he, rfl⟩ | ⟨langs, hlangs, -, hwrote⟩
    · rw [Option.map_some, he]
      exact .nil w'
    · rw [Option.map_some, hlangs]
      exact .of_wrote hwrote

/-- The unknown languages are refused, or written. -/
theorem run_given_unknown
    (h : (given args.unknown (setUnknownLangs cfg.toEnv)).run (system cfg) t w = some (x, w'))
    (hw : Unfaulted cfg w w') : w' = w ∨ x = .ok () := by
  cases hunknown : args.unknown with
  | none =>
    rw [hunknown] at h
    obtain ⟨-, rfl⟩ := Prod.mk.inj (Option.some.inj h)
    exact .inl rfl
  | some codes =>
    rw [hunknown] at h
    rcases run_setLangList h hw with ⟨-, -, rfl⟩ | ⟨-, -, hx, -⟩
    · exact .inl rfl
    · exact .inr hx

/-- The setters after the lists refuse nothing. -/
theorem quiet_rest {cap : Option ℤ} (hmode : ¬ (modeOf args.mode).isNone = true)
    (hcap : checkedCap args.maxMessages = .ok cap) :
    Quiet cfg t (do
      given args.model fun model ↦ setTranslateModel (orNone model)
      given cap fun n ↦ setMaxMessages (some n)
      setTranslateMode (some args.mode)) := by
  refine quiet_bind ?_ fun _ ↦ quiet_bind ?_ fun _ ↦ ?_
  · exact quiet_given fun model _ ↦ quiet_setTranslateModel (orNone model)
  · refine quiet_given fun n hn ↦ quiet_setMaxMessages ?_
    intro hlt
    rw [checkedCap.eq_def] at hcap
    split at hcap
    · cases hcap
      cases hn
    · cases hcap
    · split_ifs at hcap with hlow
      cases hcap
      cases hn
      exact hlow hlt
  · apply quiet_setTranslateMode
    rwa [Option.isNone_iff_eq_none, ← ne_eq, Option.ne_none_iff_isSome] at hmode

/-- A list is refused: the known languages were written, if they are good. -/
theorem applied_of_refused {cap : Option ℤ} (hmode : ¬ (modeOf args.mode).isNone = true)
    (hcap : checkedCap args.maxMessages = .ok cap) {e : String}
    (hrun : (do
      given args.known (setKnownLangs cfg.toEnv)
      given args.unknown (setUnknownLangs cfg.toEnv)
      given args.model fun model ↦ setTranslateModel (orNone model)
      given cap fun n ↦ setMaxMessages (some n)
      setTranslateMode (some args.mode) : TranslateProg Unit).run (system cfg) t w =
        some (.error e, w')) (hw : Unfaulted cfg w w') :
    Applied w w' (knownWritten cfg.toEnv args) := by
  rcases run_bind_cases hrun hw with ⟨a, w₁, hknown, hw₁, hrun, hw⟩ | ⟨e', hknown, -⟩
  · have hfirst := run_given_known hknown hw₁
    rcases run_bind_cases hrun hw with ⟨a, w₂, -, -, hrun, hw⟩ | ⟨e', hunknown, -⟩
    · cases quiet_rest hmode hcap w₂ w' _ hrun hw
    · rcases run_given_unknown hunknown hw with rfl | hx
      · exact hfirst
      · cases hx
  · exact run_given_known hknown hw

/-- When `set_settings` refuses its arguments and no statement has failed, the settings and the
cached translations are as before if and only if nothing had been written, or nothing that was
not stored, with no translation to clear. -/
theorem set_settings_unchanged_iff {e : String}
    (hrun : (setSettings cfg.toEnv args).run (system cfg) t w = some (.error e, w'))
    (hw : Unfaulted cfg w w') : (w'.kv = w.kv ∧ w'.db = w.db) ↔ Harmless cfg.toEnv args w := by
  rw [setSettings] at hrun
  by_cases hmode : (modeOf args.mode).isNone = true
  · rw [if_pos hmode] at hrun
    obtain ⟨-, rfl⟩ := Prod.mk.inj (Option.some.inj hrun)
    exact iff_of_true ⟨rfl, rfl⟩ (.inl (Option.isNone_iff_eq_none.mp hmode))
  · rw [if_neg hmode] at hrun
    cases hcap : checkedCap args.maxMessages with
    | error e' =>
      rw [hcap] at hrun
      obtain ⟨-, rfl⟩ := Prod.mk.inj (Option.some.inj hrun)
      exact iff_of_true ⟨rfl, rfl⟩ (.inr (.inl ⟨e', hcap⟩))
    | ok cap =>
      rw [hcap] at hrun
      dsimp only at hrun
      rcases run_bind_cases hrun hw with ⟨a, w₁, htarget, hw₁, hrun, hw⟩ | ⟨e', htarget, -⟩
      · rcases run_given_target htarget hw₁ with ⟨-, ⟨e', he'⟩, -⟩ | ⟨hgood, -, hfirst⟩
        · cases he'
        · have hwritten : Applied w w' (written cfg.toEnv args) :=
            hfirst.append (applied_of_refused hmode hcap hrun hw)
          rw [hwritten.unchanged_iff]
          constructor
          · exact fun hidle ↦ .inr (.inr (.inr hidle))
          · rintro (hnone | ⟨e', he'⟩ | hrefused | hidle)
            · exact absurd (Option.isNone_iff_eq_none.mpr hnone) hmode
            · rw [hcap] at he'
              cases he'
            · exact absurd hrefused hgood
            · exact hidle
      · rcases run_given_target htarget hw with ⟨hrefused, -, rfl⟩ | ⟨-, hx, -⟩
        · exact iff_of_true ⟨rfl, rfl⟩ (.inr (.inr (.inl hrefused)))
        · cases hx

end Refusal

/-- A good target, then a list with a bad code. -/
def badKnown : SettingsArgs := { mode := "off", target := some "en", known := some (.list ["xx"]) }

/-- A bad target, then a good list. -/
def badTarget : SettingsArgs := { badKnown with target := some "xx", known := some (.list ["ru"]) }

/-- The bad target is refused before anything is written. -/
theorem set_settings_unchanged_of_bad_target :
    ∃ w', (setSettings (failingModel none).toEnv badTarget).run (system (failingModel none)) 0
        (.init .empty fun _ ↦ none) = some (.error "invalid language code", w') ∧
      w'.kv = (fun _ ↦ none) ∧ w'.db = .empty := by
  have hexec : ((setSettings (failingModel none).toEnv badTarget).run (system (failingModel none))
      0 (.init .empty fun _ ↦ none)).any
        (fun p ↦ p.1 = .error "invalid language code") = true := by
    decide +kernel
  obtain ⟨⟨x, w'⟩, hrun, hx⟩ := (Option.any_eq_true _ _).mp hexec
  obtain rfl := of_decide_eq_true hx
  have hclean : cleanSupportedLangCode (some "xx") = none := by decide +kernel
  have hharmless : Harmless (failingModel none).toEnv badTarget (.init .empty fun _ ↦ none) :=
    .inr (.inr (.inl ⟨"xx", rfl, by decide, hclean⟩))
  obtain ⟨hkv, hdb⟩ := (set_settings_unchanged_iff hrun fun _ _ _ ↦ rfl).mpr hharmless
  exact ⟨w', hrun, hkv, hdb⟩

/-- The target is stored although the list after it is refused. -/
theorem set_settings_half_applied :
    ∃ w', (setSettings (failingModel none).toEnv badKnown).run (system (failingModel none)) 0
        (.init .empty fun _ ↦ none) = some (.error "invalid language code", w') ∧
      (w'.kv .userLang).isSome = true ∧ w'.kv ≠ fun _ ↦ none := by
  have hexec : ((setSettings (failingModel none).toEnv badKnown).run (system (failingModel none))
      0 (.init .empty fun _ ↦ none)).any (fun p ↦
        p.1 = .error "invalid language code" ∧ (p.2.kv .userLang).isSome = true) = true := by
    decide +kernel
  obtain ⟨⟨x, w'⟩, hrun, hx⟩ := (Option.any_eq_true _ _).mp hexec
  obtain ⟨rfl, hkv⟩ := of_decide_eq_true hx
  refine ⟨w', hrun, hkv, ?_⟩
  intro hsame
  rw [hsame] at hkv
  cases hkv

end TgMessenger.Translate
