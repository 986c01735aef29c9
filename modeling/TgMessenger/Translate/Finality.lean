import TgMessenger.Asyncio.Outline
import TgMessenger.Translate.World

/-!
# Changes of the policy are final

Every setter clears the cache after it has written its setting.  Once it has returned no
decision is left that was made from what the setting was before, in every run in which no pass
writes a decision after such a clearing.
-/

namespace TgMessenger.Translate

open Asyncio MessageStore

/-! ## What the operations do -/

namespace World

/-- A statement raises and changes nothing, or returns. -/
theorem statement_done {α : Type} {cfg : Setup} {w w' : World} {result : α}
    {f : World → World} {x : Except String α} (h : w.statement cfg result f = .done x w') :
    (∃ e, cfg.faults w.statements = some e ∧ x = .error e ∧
      w' = { w with statements := w.statements + 1 }) ∨
    (cfg.faults w.statements = none ∧ x = .ok result ∧
      w' = f { w with statements := w.statements + 1 }) := by
  rw [statement] at h
  split at h
  · next e he =>
    cases h
    exact .inl ⟨e, he, rfl, rfl⟩
  · next hnone =>
    cases h
    exact .inr ⟨hnone, rfl, rfl⟩

/-- A call made from no value of a setting that its writer has replaced, and then cleared. -/
def Current (w : World) (seen : Key → Option ℕ) : Prop :=
  ∀ key, ∀ version ∈ seen key, w.cleared key ≤ version

instance (w : World) (seen : Key → Option ℕ) : Decidable (w.Current seen) :=
  inferInstanceAs (Decidable (∀ key, ∀ version ∈ seen key, w.cleared key ≤ version))

/-- Every cached decision is current. -/
def Fresh (w : World) : Prop := ∀ d id, w.db.Decided d id → w.Current (w.basis d id)

end World

theorem handle_ne_parked {cfg : Setup} {t : ℕ} {o : Op} {w w' : World} :
    handle cfg t o w ≠ .parked w' := by
  have hstatement {α : Type} {result : α} {f : World → World} :
      w.statement cfg result f ≠ .parked w' := by
    rw [World.statement]
    split
    · rintro ⟨⟩
    · rintro ⟨⟩
  cases o with
  | translate => rintro ⟨⟩
  | _ => exact hstatement

/-- What an operation of a call does to the decisions. -/
inductive Effect (cfg : Setup) (t : ℕ) (w : World) : Op → World → Prop where
  | quiet {o : Op} {w' : World} (hdecided : ∀ d id, w'.db.Decided d id → w.db.Decided d id)
      (hbasis : w'.basis = w.basis) (hcleared : w'.cleared = w.cleared)
      (ho : ∀ d id lang text, o = .setMessageTranslation d id lang text →
        cfg.faults w.statements ≠ none) : Effect cfg t w o w'
  | clear {w' : World} (hdecided : ∀ d id, ¬ w'.db.Decided d id) :
      Effect cfg t w .clearAllTranslations w'
  | decide {d id : ℤ} {lang : String} {text : Option String} {w' : World}
      (hfault : cfg.faults w.statements = none) (hcleared : w'.cleared = w.cleared)
      (hdecided : ∀ d' id', w'.db.Decided d' id' ↔
        if d' = d ∧ id' = id then w.db.Has d' id' else w.db.Decided d' id')
      (hbasis : ∀ d' id', w'.basis d' id' =
        if d' = d ∧ id' = id then w.seen t else w.basis d' id') :
      Effect cfg t w (.setMessageTranslation d id lang text) w'

theorem handle_effect {cfg : Setup} {t : ℕ} {o : Op} {w w' : World}
    {x : Except String (effects.Ret o)} (h : handle cfg t o w = .done x w') :
    Effect cfg t w o w' := by
  cases o with
  | translate =>
    cases h
    exact .quiet (fun _ _ ↦ id) rfl rfl (by rintro _ _ _ _ ⟨⟩)
  | clearAllTranslations =>
    obtain ⟨e, -, -, rfl⟩ | ⟨-, -, rfl⟩ := World.statement_done h
    · exact .quiet (fun _ _ ↦ id) rfl rfl (by rintro _ _ _ _ ⟨⟩)
    · exact .clear fun d id ↦ Db.not_decided_clearAllTranslations
  | upsertMessageForTranslation m =>
    obtain ⟨e, -, -, rfl⟩ | ⟨-, -, rfl⟩ := World.statement_done h
    · exact .quiet (fun _ _ ↦ id) rfl rfl (by rintro _ _ _ _ ⟨⟩)
    · exact .quiet (fun _ _ ↦ Db.Decided.of_upsertMessageForTranslation) rfl rfl
        (by rintro _ _ _ _ ⟨⟩)
  | setMessageTranslation d id lang text =>
    obtain ⟨e, he, -, rfl⟩ | ⟨hfault, -, rfl⟩ := World.statement_done h
    · refine .quiet (fun _ _ hdecided ↦ hdecided) rfl rfl ?_
      intro _ _ _ _ _
      rw [he]
      exact Option.some_ne_none e
    · exact .decide hfault rfl (fun _ _ ↦ Db.decided_setMessageTranslation) fun _ _ ↦ rfl
  | getValue | setValue | deleteValue | getMessageTranslation =>
    obtain ⟨e, -, -, rfl⟩ | ⟨-, -, rfl⟩ := World.statement_done h
    · exact .quiet (fun _ _ ↦ id) rfl rfl (by rintro _ _ _ _ ⟨⟩)
    · exact .quiet (fun _ _ ↦ id) rfl rfl (by rintro _ _ _ _ ⟨⟩)

/-- An operation only adds to what others have cleared, and writes for nobody else. -/
structure Guar (t : ℕ) (w w' : World) : Prop where
  wrote : ∀ u ≠ t, w'.wrote u = w.wrote u
  cleared : ∀ key, w.cleared key ≤ w'.cleared key

theorem guar_clear (t : ℕ) (w : World) : Guar t w (w.clear t) where
  wrote _ _ := rfl
  cleared key := by
    dsimp only [World.clear]
    cases w.wrote t with
    | none => exact Nat.le_refl _
    | some last =>
      obtain ⟨key', version⟩ := last
      dsimp only
      by_cases hkey : key = key'
      · subst hkey
        rw [Function.update_self]
        exact Nat.le_max_left _ _
      · rw [Function.update_of_ne hkey]

theorem handle_guar {cfg : Setup} {t : ℕ} {o : Op} {w w' : World}
    {x : Except String (effects.Ret o)} (h : handle cfg t o w = .done x w') : Guar t w w' := by
  have hsame {w' : World} (hwrote : w'.wrote = w.wrote) (hcleared : w'.cleared = w.cleared) :
      Guar t w w' :=
    ⟨fun u _ ↦ congrFun hwrote u, fun key ↦ (congrFun hcleared key).ge⟩
  cases o with
  | translate =>
    cases h
    exact hsame rfl rfl
  | clearAllTranslations =>
    obtain ⟨e, -, -, rfl⟩ | ⟨-, -, rfl⟩ := World.statement_done h
    · exact hsame rfl rfl
    · exact ⟨(guar_clear t _).wrote, (guar_clear t _).cleared⟩
  | setValue | deleteValue =>
    obtain ⟨e, -, -, rfl⟩ | ⟨-, -, rfl⟩ := World.statement_done h
    · exact hsame rfl rfl
    · exact ⟨fun u hu ↦ Function.update_of_ne hu .., fun key ↦ Nat.le_refl _⟩
  | getValue | getMessageTranslation | upsertMessageForTranslation | setMessageTranslation =>
    obtain ⟨e, -, -, rfl⟩ | ⟨-, -, rfl⟩ := World.statement_done h
    · exact hsame rfl rfl
    · exact hsame rfl rfl

theorem not_parked {cfg : Setup} {t : ℕ} {o : Op} {w w' : World}
    (h : (system cfg).handle t o w = .parked w') : False := handle_ne_parked h

theorem guar_of_done {cfg : Setup} {t : ℕ} {o : Op} {w w' : World}
    {x : Except String (effects.Ret o)} (h : (system cfg).handle t o w = .done x w') :
    Guar t w w' := handle_guar h

/-! ## Decisions stay current -/

/-- The message whose decision a call writes next. -/
def nextDecision : TranslateProg (List Message) → Option (ℤ × ℤ)
  | .op (.setMessageTranslation d id _ _) _ => some (d, id)
  | _ => none

/-- A decision is written before any setting that the call has read was replaced and the cache
cleared after it. -/
def Timely (cfg : Setup) (c : TranslateConfig) : Move ℕ StoreEvent → Prop
  | .run t => ∀ k ∈ nextDecision (c.task t), cfg.faults c.shared.statements = none →
      (c.shared.db.row? k.1 k.2).isSome = true → c.shared.Current (c.shared.seen t)
  | .env _ => True

instance (cfg : Setup) (c : TranslateConfig) (m : Move ℕ StoreEvent) :
    Decidable (Timely cfg c m) :=
  match m with
  | .run t => inferInstanceAs (Decidable (∀ k ∈ nextDecision (c.task t),
      cfg.faults c.shared.statements = none → (c.shared.db.row? k.1 k.2).isSome = true →
        c.shared.Current (c.shared.seen t)))
  | .env _ => inferInstanceAs (Decidable True)

theorem timely_run_iff {cfg : Setup} {c : TranslateConfig} {t : ℕ} {o : Op}
    {k : Except String (effects.Ret o) → TranslateProg (List Message)} (hp : c.task t = .op o k) :
    Timely cfg c (.run t) ↔ ∀ d id lang text, o = .setMessageTranslation d id lang text →
      cfg.faults c.shared.statements = none → (c.shared.db.row? d id).isSome = true →
        c.shared.Current (c.shared.seen t) := by
  rw [Timely, hp]
  cases o with
  | setMessageTranslation d id lang text =>
    constructor
    · rintro h _ _ _ _ ⟨⟩
      exact h (d, id) rfl
    · rintro h _ ⟨⟩
      exact h d id lang text rfl
  | _ =>
    refine iff_of_true ?_ ?_
    · rintro _ ⟨⟩
    · rintro _ _ _ _ ⟨⟩

/-- A move keeps all decisions current if and only if it is timely. -/
theorem fresh_iff {cfg : Setup} {c c' : TranslateConfig} {m : Move ℕ StoreEvent}
    (h : c.shared.Fresh) (hs : c.step (system cfg) m = some c') :
    c'.shared.Fresh ↔ Timely cfg c m := by
  rcases Config.step_cases hs with ⟨t, o, k, x, w, rfl, hp, hr, rfl⟩ |
    ⟨t, o, k, w, rfl, hp, hr, rfl⟩ | ⟨e, w, rfl, hw, rfl⟩
  · rw [timely_run_iff hp]
    cases handle_effect hr with
    | quiet hdecided hbasis hcleared ho =>
      refine iff_of_true ?_ ?_
      · intro d id hd key
        rw [hbasis, hcleared]
        exact h d id (hdecided d id hd) key
      · intro d id lang text heq hnone
        exact absurd hnone (ho d id lang text heq)
    | clear hdecided =>
      refine iff_of_true ?_ ?_
      · intro d id hd
        exact absurd hd (hdecided d id)
      · rintro _ _ _ _ ⟨⟩
    | @decide d id lang text w' hfault hcleared hdecided hbasis =>
      constructor
      · rintro hfresh _ _ _ _ ⟨⟩ - hrow
        have hd : w.db.Decided d id := by
          rw [hdecided, if_pos ⟨rfl, rfl⟩, Db.has_iff_row?]
          exact Option.isSome_iff_exists.mp hrow
        have hcurrent := hfresh d id hd
        intro key
        rw [World.Current, hbasis, if_pos ⟨rfl, rfl⟩, hcleared] at hcurrent
        exact hcurrent key
      · intro hok d' id' hd key
        rw [hbasis, hcleared]
        rw [hdecided] at hd
        split_ifs at hd ⊢ with hkey
        · obtain ⟨rfl, rfl⟩ := hkey
          rw [Db.has_iff_row?] at hd
          exact hok _ _ _ _ rfl hfault (Option.isSome_iff_exists.mpr hd) key
        · exact h d' id' hd key
  · exact absurd hr handle_ne_parked
  · refine iff_of_true ?_ trivial
    intro d id hd key
    cases e with
    | upsertMessage m =>
      cases hw
      exact h d id hd.of_upsertMessage key
    | deleteRow dialogId messageId =>
      cases hw
      exact h d id hd.of_deleteRow key

/-! ## What a setter has done when it returns -/

/-- The moves of the others. -/
def Rely (t : ℕ) (w w' : World) : Prop :=
  w'.wrote t = w.wrote t ∧ ∀ key, w.cleared key ≤ w'.cleared key

/-- A call has written the setting, and has cleared the cache after it. -/
def Settled (t : ℕ) (key : Key) (w : World) : Prop :=
  ∃ version, w.wrote t = some (key, version) ∧ version ≤ w.cleared key

theorem stable_settled (t : ℕ) (key : Key) : Asyncio.Stable (Rely t) (Settled t key) := by
  rintro w w' ⟨version, hwrote, hcleared⟩ ⟨hsame, hmono⟩
  exact ⟨version, hsame.trans hwrote, hcleared.trans (hmono key)⟩

section Outlines

variable {cfg : Setup} {t : ℕ} {key : Key}

/-- The outline of a call with what its setting has come to. -/
abbrev CallOutline {α : Type} (cfg : Setup) (t : ℕ) (key : Key) (p : TranslateProg α) : Prop :=
  Outline (system cfg) t (fun _ ↦ Rely t) (fun _ ↦ Guar t) p (fun _ ↦ True)
    (onResult (fun _ ↦ Settled t key) fun _ _ ↦ True)

/-- An invalid value is refused. -/
theorem callOutline_raise {α : Type} (e : String) :
    CallOutline cfg t key (.raise e : TranslateProg α) :=
  .raise (.true _) fun _ _ ↦ trivial

/-- A write and a clearing. -/
theorem callOutline_change {o : Op}
    (ho : ∀ w x w', handle cfg t o w = .done x w' → (∃ e, x = .error e) ∨
      ∃ version, w'.wrote t = some (key, version)) :
    CallOutline cfg t key (do
      let _ ← perform o
      perform .clearAllTranslations) := by
  have hstable : Asyncio.Stable (Rely t) fun w ↦ ∃ version, w.wrote t = some (key, version) := by
    rintro w w' ⟨version, hwrote⟩ ⟨hsame, -⟩
    exact ⟨version, hsame.trans hwrote⟩
  refine Outline.seq (R := fun _ w ↦ ∃ version, w.wrote t = some (key, version))
    (Outline.perform (.true _) ?_ ?_ ?_) fun _ ↦ Outline.perform hstable ?_ ?_ ?_
  · rintro (e | r)
    · exact .true _
    · exact hstable
  · exact fun w w' _ hr ↦ (not_parked hr).elim
  · intro w x w' _ hr
    refine ⟨guar_of_done hr, ?_⟩
    obtain ⟨e, rfl⟩ | hwrote := ho w x w' hr
    · trivial
    · cases x with
      | error e => trivial
      | ok r => exact hwrote
  · rintro (e | r)
    · exact .true _
    · exact stable_settled t key
  · exact fun w w' _ hr ↦ (not_parked hr).elim
  · rintro w x w' ⟨version, hwrote⟩ hr
    refine ⟨guar_of_done hr, ?_⟩
    obtain ⟨e, -, rfl, -⟩ | ⟨-, rfl, rfl⟩ := World.statement_done hr
    · trivial
    · refine ⟨version, hwrote, ?_⟩
      dsimp only [World.clear]
      rw [hwrote]
      dsimp only
      rw [Function.update_self]
      exact Nat.le_max_right _ _

theorem callOutline_setValue (value : Json) :
    CallOutline cfg t key (do
      perform (.setValue key value)
      perform .clearAllTranslations) := by
  refine callOutline_change (o := .setValue key value) fun w x w' hr ↦ ?_
  obtain ⟨e, -, rfl, -⟩ | ⟨-, -, rfl⟩ := World.statement_done hr
  · exact .inl ⟨e, rfl⟩
  · exact .inr ⟨_, Function.update_self ..⟩

theorem callOutline_deleteValue :
    CallOutline cfg t key (do
      perform (.deleteValue key)
      perform .clearAllTranslations) := by
  refine callOutline_change (o := .deleteValue key) fun w x w' hr ↦ ?_
  obtain ⟨e, -, rfl, -⟩ | ⟨-, -, rfl⟩ := World.statement_done hr
  · exact .inl ⟨e, rfl⟩
  · exact .inr ⟨_, Function.update_self ..⟩

theorem callOutline_setUserLang (code : Option String) :
    CallOutline cfg t .userLang (setUserLang code) := by
  rw [setUserLang.eq_def]
  split
  · exact callOutline_deleteValue
  · split
    · exact callOutline_raise _
    · exact callOutline_setValue _

theorem callOutline_setTranslateMode (mode : Option String) :
    CallOutline cfg t .translateMode (setTranslateMode mode) := by
  rw [setTranslateMode.eq_def]
  split
  · exact callOutline_deleteValue
  · split
    · exact callOutline_setValue _
    · exact callOutline_raise _

theorem callOutline_setLangList (env : Env) (codes : Codes) :
    CallOutline cfg t key (setLangList env key codes) := by
  rw [setLangList]
  split
  · exact callOutline_raise _
  · exact callOutline_setValue _

theorem callOutline_setTranslateModel (name : Option String) :
    CallOutline cfg t .translateModel (setTranslateModel name) := by
  rw [setTranslateModel]
  split
  · exact callOutline_deleteValue
  · exact callOutline_setValue _

/-- A setter that returned has cleared the cache after its write. -/
theorem callOutline_prog {call : Call} (hkey : call.setting = some key) :
    CallOutline cfg t key (call.prog cfg.toEnv) := by
  have hreturn {p : TranslateProg Unit} (hp : CallOutline cfg t key p) :
      CallOutline cfg t key (do
        p
        return ([] : List Message)) :=
    Outline.seq hp fun _ ↦ .ret (stable_settled t key) fun _ hs ↦ hs
  cases call with
  | translateHistory | translateMessage => cases hkey
  | setUserLang code =>
    cases hkey
    exact hreturn (callOutline_setUserLang code)
  | setTranslateMode mode =>
    cases hkey
    exact hreturn (callOutline_setTranslateMode mode)
  | setKnownLangs codes =>
    cases hkey
    exact hreturn (callOutline_setLangList _ codes)
  | setUnknownLangs codes =>
    cases hkey
    exact hreturn (callOutline_setLangList _ codes)
  | setTranslateModel name =>
    cases hkey
    exact hreturn (callOutline_setTranslateModel name)

end Outlines

/-! ## Runs -/

/-- What a call has established when it has ended. -/
def Established (calls : ℕ → Call) (t : ℕ) (x : Except String (List Message)) (w : World) : Prop :=
  ∀ key, (calls t).setting = some key →
    onResult (E := effects) (fun _ ↦ Settled t key) (fun _ _ ↦ True) x w

theorem outlined_start (cfg : Setup) (calls : ℕ → Call) (db : Db) (kv : Key → Option Json) :
    Outlined (system cfg) (fun t _ ↦ Rely t) (fun t _ ↦ Guar t) (Established calls)
      (start cfg calls db kv) := by
  intro t
  refine ⟨fun _ ↦ True, ?_, trivial⟩
  cases hsetting : (calls t).setting with
  | none =>
    refine .trivial ?_ (fun o s s' hr ↦ (not_parked hr).elim) fun o s x s' hr ↦ guar_of_done hr
    intro x w key hkey
    rw [hsetting] at hkey
    cases hkey
  | some key =>
    refine (callOutline_prog hsetting).post ?_
    intro x w hx key' hkey'
    obtain rfl := Option.some.inj (hsetting.symm.trans hkey')
    exact hx

theorem Outlined.move {cfg : Setup} {calls : ℕ → Call} {c c' : TranslateConfig}
    {m : Move ℕ StoreEvent}
    (h : Outlined (system cfg) (fun t _ ↦ Rely t) (fun t _ ↦ Guar t) (Established calls) c)
    (hs : c.step (system cfg) m = some c') :
    Outlined (system cfg) (fun t _ ↦ Rely t) (fun t _ ↦ Guar t) (Established calls) c' := by
  have hok : anyMove c m := trivial
  refine Outlined.step ?_ ?_ h hok hs
  · intro c c' t u o k _ hu _ hguar
    exact ⟨hguar.wrote t hu.symm, hguar.cleared⟩
  · intro c c' t e _ hstep
    obtain ⟨w, hw, rfl⟩ := Option.map_eq_some_iff.mp hstep
    cases e <;> cases hw <;> exact ⟨rfl, fun _ ↦ Nat.le_refl _⟩

/-- In every run all of whose moves are timely no decision can be read that was made from what a
setting was before a setter that has returned; and a move that may follow keeps every decision
current if and only if it is timely. -/
theorem policy_final {cfg : Setup} {calls : ℕ → Call} {db : Db} {kv : Key → Option Json}
    {c : TranslateConfig} (hrun : Reaches (system cfg) (Timely cfg) (start cfg calls db kv) c) :
    (∀ t result key, c.Returned t result → (calls t).setting = some key →
      ∃ version, c.shared.wrote t = some (key, version) ∧
        ∀ d id lang sourceText text,
          c.shared.db.getMessageTranslation d id lang sourceText = some text →
            ∀ basis, c.shared.basis d id key = some basis → version ≤ basis) ∧
    ∀ m c', c.step (system cfg) m = some c' → (c'.shared.Fresh ↔ Timely cfg c m) := by
  have hfresh : c.shared.Fresh := by
    refine hrun.preserves (I := fun c ↦ c.shared.Fresh) ?_ ?_
    · exact fun c c' m hc hm hs ↦ (fresh_iff hc hs).mpr hm
    · intro d id _ key version hversion
      exact Nat.zero_le _
  have houtlined := hrun.preserves
    (I := Outlined (system cfg) (fun t _ ↦ Rely t) (fun t _ ↦ Guar t) (Established calls))
    (fun c c' m hc _ hs ↦ Outlined.move hc hs) (outlined_start cfg calls db kv)
  refine ⟨?_, fun m c' ↦ fresh_iff hfresh⟩
  intro t result key hreturned hkey
  obtain ⟨P, houtline, hP⟩ := houtlined t
  obtain ⟨version, hwrote, hcleared⟩ := houtline.of_returned hP hreturned key hkey
  refine ⟨version, hwrote, ?_⟩
  intro d id lang sourceText text hread basis hbasis
  exact hcleared.trans (hfresh d id (Db.decided_of_getMessageTranslation hread) key basis hbasis)

/-- The lists of languages as JSON texts; of those that are read here there are two. -/
def listEnv : Env where
  environ _ := none
  isLetter := Char.isAlpha
  decimal _ := none
  dumps codes := "[" ++ ", ".intercalate (codes.map fun code ↦ "\x22" ++ code ++ "\x22") ++ "]"
  loads text :=
    if text = "[]" then some (.arr [])
    else if text = "[\x22es\x22]" then some (.arr [.str "es"]) else none

/-- A model that says of message 1 that it needs no translation. -/
def skippingModel : Setup where
  toEnv := listEnv
  faults _ := none
  answers _ := .ok (OrderedDict.empty.set 1 none)
  modelVersion _ := 0

/-- A message in Spanish. -/
def hola : Message :=
  { id := 1, dialogId := 7, senderId := 7, out := false, date := "", text := some "hola" }

/-- The user, who wants English and knows Spanish, says that she knows no language, while a
message is translated. -/
def holaCalls (t : ℕ) : Call :=
  if t = 0 then .translateMessage hola else .setKnownLangs (.list [])

/-- The settings before. -/
def spanishKnown : Key → Option Json
  | .userLang => some (.str "en")
  | .knownLangs => some (.str "[\x22es\x22]")
  | _ => none

/-- The setter comes first. -/
theorem policy_final_of_turns :
    ∃ c, Reaches (system skippingModel) (Timely skippingModel)
        (start skippingModel holaCalls .empty spanishKnown) c ∧
      c.Returned 1 [] ∧ c.shared.db.getMessageTranslation 7 1 "en" (some "hola") = some none ∧
      ∃ version, c.shared.wrote 1 = some (.knownLangs, version) ∧
        ∀ basis, c.shared.basis 7 1 .knownLangs = some basis → version ≤ basis := by
  have hexec : ((Machine.guarded (Config.step (system skippingModel))
      (Timely skippingModel)).exec (start skippingModel holaCalls .empty spanishKnown)
      (List.replicate 2 (.run 1) ++ List.replicate 11 (.run 0))).any
        (fun c ↦ (c.task 1).returned? = some [] ∧
          c.shared.db.getMessageTranslation 7 1 "en" (some "hola") = some none) = true := by
    decide +kernel
  obtain ⟨c, hrun, hreturned, hread⟩ := Machine.exists_run_of_exec hexec
  rw [Prog.returned?_eq_some_iff] at hreturned
  obtain ⟨version, hwrote, hfinal⟩ := (policy_final hrun).1 1 [] .knownLangs hreturned rfl
  exact ⟨c, hrun, hreturned, hread, version, hwrote, hfinal 7 1 "en" (some "hola") none hread⟩

/-- The setter returns while the model is at work; then the answer for one who knows Spanish is
cached for one who does not. -/
theorem stale_decision_cached :
    ∃ c, Reaches (system skippingModel) anyMove
        (start skippingModel holaCalls .empty spanishKnown) c ∧
      c.Returned 1 [] ∧ c.shared.wrote 1 = some (.knownLangs, 1) ∧
      c.shared.db.getMessageTranslation 7 1 "en" (some "hola") = some none ∧
      c.shared.basis 7 1 .knownLangs = some 0 := by
  have hexec : ((Machine.guarded (Config.step (system skippingModel)) fun _ _ ↦ True).exec
      (start skippingModel holaCalls .empty spanishKnown)
      (List.replicate 8 (.run 0) ++ List.replicate 2 (.run 1) ++ List.replicate 3 (.run 0))).any
        (fun c ↦ (c.task 1).returned? = some [] ∧ c.shared.wrote 1 = some (.knownLangs, 1) ∧
          c.shared.db.getMessageTranslation 7 1 "en" (some "hola") = some none ∧
          c.shared.basis 7 1 .knownLangs = some 0) = true := by
    decide +kernel
  obtain ⟨c, hrun, hreturned, hrest⟩ := Machine.exists_run_of_exec hexec
  exact ⟨c, hrun, Prog.returned?_eq_some_iff.mp hreturned, hrest⟩

end TgMessenger.Translate
