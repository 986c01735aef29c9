import TgMessenger.Asyncio.Trace
import TgMessenger.Data.Pages
import TgMessenger.Translate.Failure

/-!
# What a pass makes of its messages

`translate_history` on a storage that works: the messages come back in their order, each with the
text of its decision, with the text that the model returned for it, or as it was.  The model is
asked once, for the last of the new messages.
-/

namespace TgMessenger.Translate

open Asyncio MessageStore

/-! ## Requests -/

/-- What `translate_fn` is asked. -/
structure Request where
  payload : List (ℤ × String)
  target : String
  skipLangs : List String
  onlyLangs : List String
deriving DecidableEq

/-- The request of an operation. -/
def Op.request? : Op → Option Request
  | .translate payload target skipLangs onlyLangs => some ⟨payload, target, skipLangs, onlyLangs⟩
  | _ => none

/-- The requests of a coroutine that runs alone. -/
def requestsOf {α : Type} (cfg : Setup) (t : ℕ) (p : TranslateProg α) (w : World) : List Request :=
  (p.awaited (system cfg) t w).filterMap Op.request?

/-- A coroutine that runs alone makes these requests, ends so and leaves this state. -/
structure Asks {α : Type} (cfg : Setup) (t : ℕ) (p : TranslateProg α) (w : World)
    (requests : List Request) (x : Except String α) (w' : World) : Prop where
  run : p.run (system cfg) t w = some (x, w')
  requests : requestsOf cfg t p w = requests

namespace Asks

variable {cfg : Setup} {t : ℕ} {w w' w'' : World} {requests : List Request}
  {α β : Type} {p : TranslateProg α} {a : α} {e : String}

theorem of_runs {os : List Op} {x : Except String α} (h : p.Runs (system cfg) t w os x w') :
    Asks cfg t p w (os.filterMap Op.request?) x w' :=
  ⟨h.run, congrArg (List.filterMap Op.request?) h.awaited⟩

theorem runs {x : Except String α} (h : Asks cfg t p w requests x w') :
    ∃ os, p.Runs (system cfg) t w os x w' ∧ os.filterMap Op.request? = requests :=
  ⟨_, ⟨h.run, rfl⟩, h.requests⟩

theorem ret (a : α) (w : World) : Asks cfg t (.ret a : TranslateProg α) w [] (.ok a) w :=
  of_runs (.ret a w)

/-- The first part makes no requests. -/
theorem bind {f : α → TranslateProg β} {y : Except String β}
    (h : Asks cfg t p w [] (.ok a) w') (hf : Asks cfg t (f a) w' requests y w'') :
    Asks cfg t (p >>= f) w requests y w'' := by
  obtain ⟨os, hp, hnil⟩ := h.runs
  obtain ⟨os', hrest, rfl⟩ := hf.runs
  rw [← List.nil_append (os'.filterMap _), ← hnil, ← List.filterMap_append]
  exact of_runs (hp.bind hrest)

/-- The second part makes no requests. -/
theorem bind_quiet {f : α → TranslateProg β} {y : Except String β}
    (h : Asks cfg t p w requests (.ok a) w') (hf : Asks cfg t (f a) w' [] y w'') :
    Asks cfg t (p >>= f) w requests y w'' := by
  obtain ⟨os, hp, rfl⟩ := h.runs
  obtain ⟨os', hrest, hnil⟩ := hf.runs
  rw [← List.append_nil (os.filterMap _), ← hnil, ← List.filterMap_append]
  exact of_runs (hp.bind hrest)

theorem bind_error {f : α → TranslateProg β} (h : Asks cfg t p w requests (.error e) w') :
    Asks cfg t (p >>= f) w requests (.error e) w' := by
  obtain ⟨os, hp, rfl⟩ := h.runs
  exact of_runs hp.bind_error

theorem rescue {handler : String → TranslateProg α} (h : Asks cfg t p w requests (.ok a) w') :
    Asks cfg t (p.rescue handler) w requests (.ok a) w' := by
  obtain ⟨os, hp, rfl⟩ := h.runs
  exact of_runs hp.rescue

/-- A handler that returns at once. -/
theorem rescue_error {handler : String → TranslateProg α}
    (h : Asks cfg t p w requests (.error e) w') (hhandler : handler e = .ret a) :
    Asks cfg t (p.rescue handler) w requests (.ok a) w' := by
  obtain ⟨os, hp, rfl⟩ := h.runs
  have hret : (handler e).Runs (system cfg) t w' [] (.ok a) w' := by
    rw [hhandler]
    exact .ret a w'
  have hrescue := of_runs (hp.rescue_error hret)
  rwa [List.append_nil] at hrescue

end Asks

/-! ## The policy -/

/-- What the storage reads of a setting. -/
def stored (kv : Key → Option Json) (key : Key) : Option Json :=
  (kv key).filter fun value ↦ !value matches .null

/-- The mode that the settings give. -/
def modeStored (env : Env) (kv : Key → Option Json) : TranslateMode :=
  match storedMode (stored kv .translateMode) with
  | some mode => mode
  | none => if (userLangOf env (stored kv .userLang)).isSome then .allUnknown else .off

/-- What a mode skips, and what it is restricted to. -/
def skipOnlyOf (env : Env) (kv : Key → Option Json) (target : String) :
    TranslateMode → List String × List String
  | .skipKnown => (langListOf env (stored kv .knownLangs), [])
  | .onlyUnknown =>
    if langListOf env (stored kv .unknownLangs) ≠ [] then
      ([], langListOf env (stored kv .unknownLangs))
    else ([target], [])
  | .allUnknown | .off =>
    (if target ∈ langListOf env (stored kv .knownLangs) then
      langListOf env (stored kv .knownLangs)
    else langListOf env (stored kv .knownLangs) ++ [target], [])

/-- The policy that the settings give; `none` when nothing is translated. -/
def policyOf (env : Env) (kv : Key → Option Json) : Option (String × List String × List String) :=
  match userLangOf env (stored kv .userLang) with
  | none => none
  | some target =>
    if modeStored env kv = .off then none
    else some (target, skipOnlyOf env kv target (modeStored env kv))

/-! ## The messages -/

/-- A message that is sent to the model: it is not one's own, has a text that needs a translation,
and no decision on it is cached. -/
def undecided (env : Env) (target : String) (db : Db) (m : Message) : Bool :=
  !m.out && m.text.any (· ≠ "") && needsTranslation env m.text && (decision target m db).isNone

/-- The new messages of a pass. -/
def newMessages (env : Env) (target : String) (db : Db) (messages : List Message) : List Message :=
  messages.filter (undecided env target db)

/-- A message before the model is asked. -/
def prepared (env : Env) (target : String) (db : Db) (m : Message) : Message :=
  if m.out then m
  else
    match decision target m db with
    | some text => { m with translatedText := text }
    | none => if needsTranslation env m.text then m else { m with translatedText := none }

/-- The text the `n`-th call of the model returned for a message. -/
def answered (cfg : Setup) (n : ℕ) (id : ℤ) : Option String :=
  match cfg.answers n with
  | .ok translated => (translated.get? id).join
  | .error _ => none

/-- What was returned is put into a message. -/
def withText (answer : Option String) (m : Message) : Message :=
  match answer with
  | some text => { m with translatedText := some text }
  | none => m

theorem withText_eq (answer : Option String) (m : Message) :
    withText answer m = { m with translatedText := (withText answer m).translatedText } := by
  cases answer <;> rfl

theorem prepared_eq (env : Env) (target : String) (db : Db) (m : Message) :
    prepared env target db m =
      { m with translatedText := (prepared env target db m).translatedText } := by
  rw [prepared]
  by_cases hout : m.out = true
  · rw [if_pos hout]
  · rw [if_neg hout]
    cases decision target m db with
    | some text => rfl
    | none =>
      dsimp only
      split_ifs <;> rfl

theorem prepared_of_undecided {env : Env} {target : String} {db : Db} {m : Message}
    (h : undecided env target db m = true) : prepared env target db m = m := by
  simp only [undecided, Bool.and_eq_true, Bool.not_eq_true', Option.isNone_iff_eq_none] at h
  obtain ⟨⟨⟨hout, -⟩, hneeds⟩, hnone⟩ := h
  rw [prepared, if_neg (by simp [hout]), hnone]
  exact if_pos hneeds

/-- A part of a pass has changed nothing but the rows of these messages. -/
structure Touches (ids : List ℤ) (w w' : World) : Prop where
  kv : w'.kv = w.kv
  requests : w'.requests = w.requests
  rows : ∀ d id, id ∉ ids → w'.db.row? d id = w.db.row? d id

namespace Touches

variable {ids ids' : List ℤ} {w w₁ w' : World}

theorem refl (w : World) : Touches [] w w := ⟨rfl, rfl, fun _ _ _ ↦ rfl⟩

theorem append (h : Touches ids w w₁) (h' : Touches ids' w₁ w') : Touches (ids ++ ids') w w' := by
  refine ⟨h'.kv.trans h.kv, h'.requests.trans h.requests, ?_⟩
  intro d id hid
  rw [List.mem_append, not_or] at hid
  rw [h'.rows d id hid.2, h.rows d id hid.1]

theorem decision_eq (h : Touches ids w w') {target : String} {m : Message} (hm : m.id ∉ ids) :
    decision target m w'.db = decision target m w.db := by
  rw [decision, decision, Db.getMessageTranslation, Db.getMessageTranslation, h.rows _ _ hm]

theorem prepared_eq (h : Touches ids w w') {env : Env} {target : String} {m : Message}
    (hm : m.id ∉ ids) : prepared env target w'.db m = prepared env target w.db m := by
  rw [prepared, prepared, h.decision_eq hm]

theorem undecided_eq (h : Touches ids w w') {env : Env} {target : String} {m : Message}
    (hm : m.id ∉ ids) : undecided env target w'.db m = undecided env target w.db m := by
  rw [undecided, undecided, h.decision_eq hm]

end Touches

/-! ## A pass on a storage that works -/

section Working

variable {cfg : Setup} {t : ℕ} {w : World}

/-- A statement. -/
theorem asks_statement (hworks : ∀ n, cfg.faults n = none) {o : Op} {result : effects.Ret o}
    {f : World → World} (ho : handle cfg t o w = w.statement cfg result f)
    (hrequest : o.request? = none) :
    Asks cfg t (perform o) w [] (.ok result) (f { w with statements := w.statements + 1 }) := by
  have hdone : (system cfg).handle t o w =
      .done (.ok result) (f { w with statements := w.statements + 1 }) := by
    refine ho.trans ?_
    rw [World.statement, hworks]
  have hasks := Asks.of_runs (.perform hdone)
  rwa [List.filterMap_cons_none hrequest] at hasks

/-- A setting is read. -/
theorem asks_getValue (hworks : ∀ n, cfg.faults n = none) (key : Key) (w : World) :
    ∃ w', Asks cfg t (perform (.getValue key)) w [] (.ok (stored w.kv key)) w' ∧
      Touches [] w w' :=
  ⟨_, asks_statement hworks rfl rfl, rfl, rfl, fun _ _ _ ↦ rfl⟩

/-- A setting is read and understood. -/
theorem asks_read {α : Type} (hworks : ∀ n, cfg.faults n = none) (key : Key)
    (f : Option Json → α) (w : World) :
    ∃ w', Asks cfg t (do
        let raw : Option Json ← perform (.getValue key)
        return f raw : TranslateProg α) w [] (.ok (f (stored w.kv key))) w' ∧ Touches [] w w' := by
  obtain ⟨w', hget, hw'⟩ := asks_getValue (t := t) hworks key w
  exact ⟨w', hget.bind (.ret _ w'), hw'⟩

theorem asks_getTranslateMode (hworks : ∀ n, cfg.faults n = none) (w : World) :
    ∃ w', Asks cfg t (getTranslateMode cfg.toEnv) w [] (.ok (modeStored cfg.toEnv w.kv)) w' ∧
      Touches [] w w' := by
  obtain ⟨w₁, hget, hw₁⟩ := asks_getValue (t := t) hworks .translateMode w
  rw [modeStored]
  cases hmode : storedMode (stored w.kv .translateMode) with
  | some mode =>
    refine ⟨w₁, hget.bind ?_, hw₁⟩
    dsimp only
    rw [hmode]
    exact .ret mode w₁
  | none =>
    obtain ⟨w', hlang, hw'⟩ := asks_read (t := t) hworks .userLang (userLangOf cfg.toEnv) w₁
    rw [hw₁.kv] at hlang
    refine ⟨w', hget.bind ?_, hw₁.append hw'⟩
    dsimp only
    rw [hmode]
    exact hlang.bind (.ret _ w')

theorem asks_resolveSkipOnly (hworks : ∀ n, cfg.faults n = none) (target : String) (w : World) :
    ∃ w', Asks cfg t (resolveSkipOnly cfg.toEnv target) w []
        (.ok (skipOnlyOf cfg.toEnv w.kv target (modeStored cfg.toEnv w.kv))) w' ∧
      Touches [] w w' := by
  obtain ⟨w₁, hmode, hw₁⟩ := asks_getTranslateMode (t := t) hworks w
  obtain ⟨w₂, hknown, hw₂⟩ :=
    asks_read (t := t) hworks .knownLangs (langListOf cfg.toEnv) w₁
  obtain ⟨w₃, hunknown, hw₃⟩ :=
    asks_read (t := t) hworks .unknownLangs (langListOf cfg.toEnv) w₁
  rw [hw₁.kv] at hknown hunknown
  cases hm : modeStored cfg.toEnv w.kv with
  | skipKnown =>
    rw [hm] at hmode
    exact ⟨w₂, hmode.bind (hknown.bind (.ret _ w₂)), hw₁.append hw₂⟩
  | onlyUnknown =>
    rw [hm] at hmode
    refine ⟨w₃, hmode.bind (hunknown.bind ?_), hw₁.append hw₃⟩
    rw [skipOnlyOf]
    split_ifs with hne
    · exact .ret _ w₃
    · exact .ret _ w₃
  | allUnknown =>
    rw [hm] at hmode
    exact ⟨w₂, hmode.bind (hknown.bind (.ret _ w₂)), hw₁.append hw₂⟩
  | off =>
    rw [hm] at hmode
    exact ⟨w₂, hmode.bind (hknown.bind (.ret _ w₂)), hw₁.append hw₂⟩

/-- The policy is read. -/
theorem asks_translationPolicy (hworks : ∀ n, cfg.faults n = none) (w : World) :
    ∃ w', Asks cfg t (translationPolicy cfg.toEnv) w [] (.ok (policyOf cfg.toEnv w.kv)) w' ∧
      Touches [] w w' := by
  obtain ⟨w₁, hlang, hw₁⟩ := asks_read (t := t) hworks .userLang (userLangOf cfg.toEnv) w
  obtain ⟨w₂, hmode, hw₂⟩ := asks_getTranslateMode (t := t) hworks w₁
  rw [hw₁.kv] at hmode
  rw [policyOf]
  cases htarget : userLangOf cfg.toEnv (stored w.kv .userLang) with
  | none =>
    rw [htarget] at hlang
    exact ⟨w₂, hlang.bind (hmode.bind (.ret none w₂)), hw₁.append hw₂⟩
  | some target =>
    rw [htarget] at hlang
    dsimp only
    split_ifs with hoff
    · refine ⟨w₂, hlang.bind (hmode.bind ?_), hw₁.append hw₂⟩
      dsimp only
      rw [if_pos hoff]
      exact .ret none w₂
    · obtain ⟨w₃, hresolve, hw₃⟩ := asks_resolveSkipOnly (t := t) hworks target w₂
      rw [hw₂.kv, hw₁.kv] at hresolve
      refine ⟨w₃, hlang.bind (hmode.bind ?_), hw₁.append (hw₂.append hw₃)⟩
      dsimp only
      rw [if_neg hoff]
      exact hresolve.bind (.ret _ w₃)

/-- The two statements that cache a decision. -/
theorem asks_putDecision {α : Type} (hworks : ∀ n, cfg.faults n = none) (target : String)
    (text : Option String) (m : Message) (a : α) (w : World) :
    ∃ w', Asks cfg t (do
        perform (.upsertMessageForTranslation m)
        perform (.setMessageTranslation m.dialogId m.id target text)
        return a : TranslateProg α) w [] (.ok a) w' ∧ Touches [m.id] w w' := by
  refine ⟨_, (asks_statement hworks rfl rfl).bind ((asks_statement hworks rfl rfl).bind
    (.ret a _)), rfl, rfl, ?_⟩
  intro d id hid
  rw [List.mem_singleton] at hid
  have hother : ¬ (d = m.dialogId ∧ id = m.id) := fun h ↦ hid h.2
  refine (Db.row?_setMessageTranslation ..).trans ?_
  rw [if_neg hother]
  refine (Db.row?_upsertMessageForTranslation m).trans ?_
  rw [if_neg hother]

/-- The decision on a message is looked up. -/
theorem asks_decision (hworks : ∀ n, cfg.faults n = none) (target : String) (m : Message)
    (w : World) :
    Asks cfg t (perform (.getMessageTranslation m.dialogId m.id target m.text)) w []
      (.ok (decision target m w.db)) { w with statements := w.statements + 1 } :=
  asks_statement (f := fun w ↦ w) hworks rfl rfl

/-- A message with a decision is prepared. -/
theorem asks_prepareMessage_of_decision (hworks : ∀ n, cfg.faults n = none) {target : String}
    {m : Message} {text : Option String} (hcached : decision target m w.db = some text) :
    Asks cfg t (prepareMessage cfg.toEnv target m) w [] (.ok ({ m with translatedText := text },
      false)) { w with statements := w.statements + 1 } := by
  have hget := asks_decision (t := t) hworks target m w
  rw [hcached] at hget
  exact .rescue (hget.bind (.ret _ _))

/-- One message is prepared. -/
theorem asks_prepareMessage (hworks : ∀ n, cfg.faults n = none) (target : String) {m : Message}
    (hout : m.out = false) (w : World) :
    ∃ w', Asks cfg t (prepareMessage cfg.toEnv target m) w []
        (.ok (prepared cfg.toEnv target w.db m,
          needsTranslation cfg.toEnv m.text && (decision target m w.db).isNone)) w' ∧
      Touches [m.id] w w' := by
  have hget := asks_decision (t := t) hworks target m w
  have htouches : Touches [m.id] w { w with statements := w.statements + 1 } :=
    ⟨rfl, rfl, fun _ _ _ ↦ rfl⟩
  rw [prepared, if_neg (by simp [hout])]
  cases hcached : decision target m w.db with
  | some text =>
    rw [Option.isNone_some, Bool.and_false]
    exact ⟨_, asks_prepareMessage_of_decision hworks hcached, htouches⟩
  | none =>
    rw [hcached] at hget
    dsimp only
    cases hneeds : needsTranslation cfg.toEnv m.text with
    | true =>
      refine ⟨_, .rescue (hget.bind ?_), htouches⟩
      dsimp only
      rw [hneeds]
      exact .ret (m, true) _
    | false =>
      obtain ⟨w', hput, hw'⟩ := asks_putDecision (t := t) hworks target none m
        ({ m with translatedText := none }, false) { w with statements := w.statements + 1 }
      refine ⟨w', .rescue (hget.bind ?_), hw'.kv, hw'.requests, hw'.rows⟩
      dsimp only
      rw [hneeds]
      exact hput

/-- A message and its text. -/
def withItsText (m : Message) : Message × String := (m, m.text.getD "")

/-- The messages are prepared. -/
theorem asks_prepareMessages (hworks : ∀ n, cfg.faults n = none) (target : String)
    {messages : List Message} (hids : (messages.map Message.id).Nodup) :
    ∀ w : World, ∃ w', Asks cfg t (prepareMessages cfg.toEnv target messages) w []
        (.ok (messages.map (prepared cfg.toEnv target w.db),
          (newMessages cfg.toEnv target w.db messages).map withItsText)) w' ∧
      Touches (messages.map Message.id) w w' := by
  induction messages with
  | nil => exact fun w ↦ ⟨w, .ret _ w, .refl w⟩
  | cons m messages ih =>
    intro w
    rw [List.map_cons, List.nodup_cons] at hids
    by_cases hout : m.out = true
    · obtain ⟨w', hrest, hw'⟩ := ih hids.2 w
      have hnot : undecided cfg.toEnv target w.db m = false := by simp [undecided, hout]
      refine ⟨w', ?_, hw'.kv, hw'.requests, fun d id hid ↦ hw'.rows d id ?_⟩
      · rw [prepareMessages, if_pos hout, List.map_cons, prepared, if_pos hout, newMessages,
          List.filter_cons_of_neg (by simp [hnot])]
        exact hrest.bind (.ret _ w')
      · exact fun hmem ↦ hid (List.mem_cons_of_mem _ hmem)
    · obtain ⟨w₁, hfirst, hw₁⟩ := asks_prepareMessage (t := t) hworks target
        (Bool.not_eq_true _ ▸ hout) w
      obtain ⟨w', hrest, hw'⟩ := ih hids.2 w₁
      have hother : ∀ x ∈ messages, x.id ∉ [m.id] := by
        intro x hx hmem
        rw [List.mem_singleton] at hmem
        exact hids.1 (hmem ▸ List.mem_map_of_mem hx)
      have hresult : messages.map (prepared cfg.toEnv target w₁.db) =
          messages.map (prepared cfg.toEnv target w.db) :=
        List.map_congr_left fun x hx ↦ hw₁.prepared_eq (hother x hx)
      have hnew : newMessages cfg.toEnv target w₁.db messages =
          newMessages cfg.toEnv target w.db messages :=
        List.filter_congr fun x hx ↦ hw₁.undecided_eq (hother x hx)
      rw [hresult, hnew] at hrest
      refine ⟨w', ?_, hw₁.append hw'⟩
      rw [prepareMessages, if_neg hout, List.map_cons, newMessages]
      refine hfirst.bind (hrest.bind ?_)
      dsimp only
      cases hsent : m.text.filter fun text ↦
          (needsTranslation cfg.toEnv m.text && (decision target m w.db).isNone) && text ≠ "" with
      | some text =>
        obtain ⟨htext, hkeep⟩ := Option.filter_eq_some_iff.mp hsent
        have hundecided : undecided cfg.toEnv target w.db m = true := by
          simp only [Bool.and_eq_true, decide_eq_true_eq] at hkeep
          obtain ⟨⟨hneeds, hnone⟩, hne⟩ := hkeep
          rw [undecided, hneeds, hnone, htext]
          simp [hout, hne]
        rw [List.filter_cons_of_pos hundecided, List.map_cons, withItsText, htext]
        exact .ret _ w'
      | none =>
        have hdecided : ¬ undecided cfg.toEnv target w.db m = true := by
          intro hundecided
          simp only [undecided, Bool.and_eq_true, Option.any_eq_true] at hundecided
          obtain ⟨⟨⟨-, text, htext, hne⟩, hneeds⟩, hnone⟩ := hundecided
          rw [Option.filter_eq_none_iff] at hsent
          refine hsent text htext ?_
          rw [hneeds, hnone]
          exact hne
        rw [List.filter_cons_of_neg hdecided]
        exact .ret _ w'

/-- The cap is read. -/
theorem asks_getMaxMessages (hworks : ∀ n, cfg.faults n = none) {cap : ℕ}
    (hcap : maxMessagesOf cfg.toEnv (stored w.kv .maxMessages) = .ok cap) :
    ∃ w', Asks cfg t (getMaxMessages cfg.toEnv) w [] (.ok cap) w' ∧ Touches [] w w' := by
  obtain ⟨w', hget, hw'⟩ := asks_getValue (t := t) hworks .maxMessages w
  refine ⟨w', hget.bind ?_, hw'⟩
  rw [hcap]
  exact .ret cap w'

/-- The decisions on what was sent are cached, and handed back. -/
theorem asks_cacheTranslations (hworks : ∀ n, cfg.faults n = none) (target : String)
    (translated : OrderedDict ℤ (Option String)) (ms : List Message) :
    ∀ (updates : OrderedDict ℤ (Option String)) (w : World), ∃ byId w',
      Asks cfg t (cacheTranslations target translated ms updates) w [] (.ok byId) w' ∧
      ∀ id, byId.get? id =
        if id ∈ ms.map Message.id then some (translated.get? id).join else updates.get? id := by
  induction ms with
  | nil => exact fun updates w ↦ ⟨updates, w, .ret updates w, fun id ↦ rfl⟩
  | cons m ms ih =>
    intro updates w
    obtain ⟨w₁, hput, -⟩ :=
      asks_putDecision (t := t) hworks target (translated.get? m.id).join m true w
    obtain ⟨byId, w', hrest, hbyId⟩ := ih (updates.set m.id (translated.get? m.id).join) w₁
    refine ⟨byId, w', hput.rescue.bind hrest, ?_⟩
    intro id
    rw [hbyId, OrderedDict.get?_set, List.map_cons]
    by_cases hmem : id ∈ ms.map Message.id
    · rw [if_pos hmem, if_pos (List.mem_cons_of_mem _ hmem)]
    · rw [if_neg hmem]
      by_cases hid : id = m.id
      · rw [if_pos hid, if_pos (hid ▸ List.mem_cons_self ..), hid]
      · rw [if_neg hid, if_neg fun h ↦ (List.mem_cons.mp h).elim hid hmem]

/-- The model is asked; what it returned for other messages is dropped. -/
theorem asks_translatePending (hworks : ∀ n, cfg.faults n = none) (ms : List Message)
    (target : String) (skipLangs onlyLangs : List String) (w : World) :
    ∃ byId w', Asks cfg t (translatePending (ms.map withItsText) target skipLangs onlyLangs) w
        [⟨ms.map fun m ↦ (m.id, m.text.getD ""), target, skipLangs, onlyLangs⟩] (.ok byId) w' ∧
      ∀ id, (byId.get? id).join =
        if id ∈ ms.map Message.id then answered cfg w.requests id else none := by
  have hpayload : (ms.map withItsText).map (fun p ↦ (p.1.id, p.2)) =
      ms.map fun m ↦ (m.id, m.text.getD "") := List.map_map
  have hsent : (ms.map withItsText).map Prod.fst = ms := by
    rw [List.map_map]
    exact List.map_id ms
  rw [translatePending, hpayload, hsent]
  have hcall : Asks cfg t (perform (.translate (ms.map fun m ↦ (m.id, m.text.getD "")) target
      skipLangs onlyLangs)) w
        [⟨ms.map fun m ↦ (m.id, m.text.getD ""), target, skipLangs, onlyLangs⟩]
        (cfg.answers w.requests)
        ({ w with requests := w.requests + 1 }.read t .translateModel (cfg.modelVersion t)) :=
    .of_runs (.perform rfl)
  cases hanswer : cfg.answers w.requests with
  | error e =>
    rw [hanswer] at hcall
    refine ⟨OrderedDict.empty, _, .bind_quiet (a := none)
      (.rescue_error (.bind_error hcall) rfl) (.ret OrderedDict.empty _), ?_⟩
    intro id
    rw [answered, hanswer, ite_self]
    rfl
  | ok translated =>
    rw [hanswer] at hcall
    obtain ⟨byId, w', hcache, hbyId⟩ := asks_cacheTranslations (t := t) hworks target translated
      ms .empty ({ w with requests := w.requests + 1 }.read t .translateModel (cfg.modelVersion t))
    refine ⟨byId, w', .bind_quiet (a := some translated)
      (.rescue (hcall.bind_quiet (.ret (some translated) _))) hcache, ?_⟩
    intro id
    rw [hbyId, answered, hanswer, OrderedDict.get?_empty]
    split_ifs <;> rfl

end Working

/-! ## The whole pass -/

/-- The last of the new messages. -/
def sentMessages (env : Env) (target : String) (db : Db) (messages : List Message) (cap : ℕ) :
    List Message :=
  (newMessages env target db messages).rtake cap

/-- What the model returned for a message that was sent to it. -/
def returned (cfg : Setup) (w : World) (target : String) (messages : List Message) (cap : ℕ)
    (id : ℤ) : Option String :=
  if id ∈ (sentMessages cfg.toEnv target w.db messages cap).map Message.id then
    answered cfg w.requests id
  else none

/-- What a pass makes of a message. -/
def passed (cfg : Setup) (w : World) (target : String) (messages : List Message) (cap : ℕ)
    (m : Message) : Message :=
  withText (returned cfg w target messages cap m.id) (prepared cfg.toEnv target w.db m)

/-- The requests of a pass. -/
def passRequests (env : Env) (w : World) (target : String) (skipLangs onlyLangs : List String)
    (messages : List Message) (cap : ℕ) : List Request :=
  if newMessages env target w.db messages = [] then []
  else [⟨(sentMessages env target w.db messages cap).map fun m ↦ (m.id, m.text.getD ""), target,
    skipLangs, onlyLangs⟩]

section Pass

variable {cfg : Setup} {t : ℕ} {w : World} {messages : List Message} {cap : ℕ} {target : String}

theorem mem_sentMessages {env : Env} {db : Db} {m : Message}
    (h : m ∈ sentMessages env target db messages cap) :
    m ∈ messages ∧ undecided env target db m = true :=
  List.mem_filter.mp ((List.rtake_suffix cap _).subset h)

theorem sentMessages_of_nil {env : Env} {db : Db} (h : newMessages env target db messages = []) :
    sentMessages env target db messages cap = [] := by
  rw [sentMessages, h, List.rtake_nil]

/-- Two messages of a list without repeated ids are one when their ids are. -/
theorem eq_of_id_eq (hids : (messages.map Message.id).Nodup) {m m' : Message} (hm : m ∈ messages)
    (hm' : m' ∈ messages) (hid : m.id = m'.id) : m = m' :=
  List.inj_on_of_nodup_map hids hm hm' hid

/-- A message whose id was sent was sent itself. -/
theorem undecided_of_mem_ids (hids : (messages.map Message.id).Nodup) {env : Env} {db : Db}
    {m : Message} (hm : m ∈ messages)
    (hid : m.id ∈ (sentMessages env target db messages cap).map Message.id) :
    undecided env target db m = true := by
  obtain ⟨m', hm', hsame⟩ := List.mem_map.mp hid
  obtain ⟨hmem, hundecided⟩ := mem_sentMessages hm'
  rwa [← eq_of_id_eq hids hmem hm hsame]

/-- A pass with a policy. -/
theorem asks_pass (hids : (messages.map Message.id).Nodup) (hworks : ∀ n, cfg.faults n = none)
    (hcap : maxMessagesOf cfg.toEnv (stored w.kv .maxMessages) = .ok cap)
    {skipLangs onlyLangs : List String}
    (hpolicy : policyOf cfg.toEnv w.kv = some (target, skipLangs, onlyLangs)) :
    ∃ w', Asks cfg t (translateHistory cfg.toEnv messages) w
      (passRequests cfg.toEnv w target skipLangs onlyLangs messages cap)
      (.ok (messages.map (passed cfg w target messages cap))) w' := by
  obtain ⟨w₁, hread, hw₁⟩ := asks_translationPolicy (t := t) hworks w
  obtain ⟨w₂, hprepare, hw₂⟩ := asks_prepareMessages (t := t) hworks target hids w₁
  have hprepared : messages.map (prepared cfg.toEnv target w₁.db) =
      messages.map (prepared cfg.toEnv target w.db) :=
    List.map_congr_left fun m _ ↦ hw₁.prepared_eq List.not_mem_nil
  have hnew : newMessages cfg.toEnv target w₁.db messages =
      newMessages cfg.toEnv target w.db messages :=
    List.filter_congr fun m _ ↦ hw₁.undecided_eq List.not_mem_nil
  rw [hpolicy] at hread
  rw [hprepared, hnew] at hprepare
  rw [translateHistory]
  by_cases hnil : newMessages cfg.toEnv target w.db messages = []
  · have hpassed : messages.map (passed cfg w target messages cap) =
        messages.map (prepared cfg.toEnv target w.db) := by
      refine List.map_congr_left fun m _ ↦ ?_
      rw [passed, returned, sentMessages_of_nil hnil, List.map_nil, if_neg List.not_mem_nil]
      rfl
    refine ⟨w₂, ?_⟩
    rw [passRequests, if_pos hnil, hpassed]
    refine hread.bind (hprepare.bind ?_)
    dsimp only
    rw [hnil, List.map_nil, translateRest, if_pos rfl]
    exact .ret _ w₂
  · have hcap₂ : maxMessagesOf cfg.toEnv (stored w₂.kv .maxMessages) = .ok cap := by
      rw [hw₂.kv, hw₁.kv]
      exact hcap
    obtain ⟨w₃, hcapped, hw₃⟩ := asks_getMaxMessages (t := t) hworks hcap₂
    obtain ⟨byId, w', hask, hbyId⟩ := asks_translatePending (t := t) hworks
      (sentMessages cfg.toEnv target w.db messages cap) target skipLangs onlyLangs w₃
    have hrequests : w₃.requests = w.requests :=
      hw₃.requests.trans (hw₂.requests.trans hw₁.requests)
    have hresult : withTranslations byId (messages.map (prepared cfg.toEnv target w.db)) =
        messages.map (passed cfg w target messages cap) := by
      rw [withTranslations, List.map_map]
      refine List.map_congr_left fun m _ ↦ ?_
      rw [Function.comp_apply, passed, returned, ← hrequests, ← hbyId, prepared_eq]
      rfl
    have hpending : ((newMessages cfg.toEnv target w.db messages).map withItsText).rtake cap =
        (sentMessages cfg.toEnv target w.db messages cap).map withItsText := by
      rw [sentMessages, List.rtake, List.rtake, List.length_map, List.map_drop]
    refine ⟨w', ?_⟩
    rw [passRequests, if_neg hnil, ← hresult]
    refine hread.bind (hprepare.bind ?_)
    dsimp only
    rw [translateRest, if_neg fun h ↦ hnil (List.map_eq_nil_iff.mp h)]
    refine hcapped.bind ?_
    rw [hpending]
    exact hask.bind_quiet (.ret (withTranslations byId
      (messages.map (prepared cfg.toEnv target w.db))) w')

/-- A pass without a policy. -/
theorem asks_off (hworks : ∀ n, cfg.faults n = none) (hpolicy : policyOf cfg.toEnv w.kv = none) :
    ∃ w', Asks cfg t (translateHistory cfg.toEnv messages) w [] (.ok messages) w' := by
  obtain ⟨w₁, hread, -⟩ := asks_translationPolicy (t := t) hworks w
  rw [hpolicy] at hread
  exact ⟨w₁, hread.bind (.ret messages w₁)⟩

/-- `translate_history` on a storage that works.  The result has the messages of the input, in
their order; one's own are unchanged, and of the others only the translated text may differ.  The
model is asked once at most: when the policy translates and there are new messages, for the last
of them, as many as the cap allows; a text that it returned for one of these is carried by its
message, and nothing with a cached decision is sent. -/
theorem translate_history_conservative (hids : (messages.map Message.id).Nodup)
    (hworks : ∀ n, cfg.faults n = none)
    (hcap : maxMessagesOf cfg.toEnv (stored w.kv .maxMessages) = .ok cap) :
    ∃ result w', (translateHistory cfg.toEnv messages).run (system cfg) t w =
        some (.ok result, w') ∧
      result.length = messages.length ∧
      result.map Message.id = messages.map Message.id ∧
      List.Forall₂ (fun m r ↦ (m.out = true → r = m) ∧
        r = { m with translatedText := r.translatedText }) messages result ∧
      (requestsOf cfg t (translateHistory cfg.toEnv messages) w).length ≤ 1 ∧
      (policyOf cfg.toEnv w.kv = none →
        requestsOf cfg t (translateHistory cfg.toEnv messages) w = [] ∧ result = messages) ∧
      ∀ target skipLangs onlyLangs,
        policyOf cfg.toEnv w.kv = some (target, skipLangs, onlyLangs) →
        requestsOf cfg t (translateHistory cfg.toEnv messages) w =
          passRequests cfg.toEnv w target skipLangs onlyLangs messages cap ∧
        (sentMessages cfg.toEnv target w.db messages cap).length =
          min cap (newMessages cfg.toEnv target w.db messages).length ∧
        (∀ m ∈ sentMessages cfg.toEnv target w.db messages cap, ∀ text,
          answered cfg w.requests m.id = some text →
          { m with translatedText := some text } ∈ result) ∧
        ∀ m ∈ messages, decision target m w.db ≠ none →
          ∀ request ∈ requestsOf cfg t (translateHistory cfg.toEnv messages) w,
            m.id ∉ request.payload.map Prod.fst := by
  cases hpolicy : policyOf cfg.toEnv w.kv with
  | none =>
    have hoff : ∃ w', Asks cfg t (translateHistory cfg.toEnv messages) w [] (.ok messages) w' :=
      asks_off hworks hpolicy
    obtain ⟨w', hrun, hrequests⟩ := hoff
    refine ⟨messages, w', hrun, rfl, rfl, ?_, ?_, fun _ ↦ ⟨hrequests, rfl⟩, ?_⟩
    · exact List.forall₂_same.mpr fun m _ ↦ ⟨fun _ ↦ rfl, rfl⟩
    · rw [hrequests]
      exact Nat.zero_le 1
    · rintro target skipLangs onlyLangs ⟨⟩
  | some policy =>
    obtain ⟨target, skipLangs, onlyLangs⟩ := policy
    obtain ⟨w', hrun, hrequests⟩ := asks_pass (t := t) hids hworks hcap hpolicy
    have hpassed : ∀ m, passed cfg w target messages cap m =
        { m with translatedText := (passed cfg w target messages cap m).translatedText } := by
      intro m
      rw [passed, withText_eq, prepared_eq]
    refine ⟨_, w', hrun, List.length_map _, ?_, ?_, ?_, ?_, ?_⟩
    · rw [List.map_map]
      refine List.map_congr_left fun m _ ↦ ?_
      rw [Function.comp_apply, hpassed]
    · rw [List.forall₂_map_right_iff]
      refine List.forall₂_same.mpr fun m hm ↦ ⟨?_, hpassed m⟩
      intro hout
      rw [passed, returned, prepared, if_pos hout]
      split_ifs with hid
      · have hundecided := undecided_of_mem_ids hids hm hid
        rw [undecided, hout] at hundecided
        cases hundecided
      · rfl
    · rw [hrequests, passRequests]
      split_ifs
      · exact Nat.zero_le 1
      · exact le_rfl
    · rintro ⟨⟩
    · rintro target skipLangs onlyLangs ⟨⟩
      refine ⟨hrequests, List.length_rtake _ _, ?_, ?_⟩
      · intro m hm text htext
        obtain ⟨hmem, hundecided⟩ := mem_sentMessages hm
        refine List.mem_map.mpr ⟨m, hmem, ?_⟩
        rw [passed, returned, if_pos (List.mem_map_of_mem hm), htext, withText,
          prepared_of_undecided hundecided]
      · intro m hm hdecided request hrequest hid
        rw [hrequests, passRequests] at hrequest
        split_ifs at hrequest
        · cases hrequest
        · obtain rfl := List.mem_singleton.mp hrequest
          rw [List.map_map] at hid
          have hundecided := undecided_of_mem_ids hids hm hid
          simp only [undecided, Bool.and_eq_true, Option.isNone_iff_eq_none] at hundecided
          exact hdecided hundecided.2

end Pass

/-- The model knows this greeting, and adds a message nobody asked for. -/
def greetingModel : Setup :=
  { failingModel none with
    answers := fun _ ↦ .ok ((OrderedDict.empty.set 1 (some "good day")).set 9 none) }

/-- A message of one's own. -/
def ownBonjour : Message := { bonjour with id := 2, out := true }

/-- The greeting is translated, one's own message is not. -/
theorem translate_history_conservative_of_greeting :
    ∃ result w', (translateHistory greetingModel.toEnv [bonjour, ownBonjour]).run
        (system greetingModel) 0 (.init .empty fun _ ↦ none) = some (.ok result, w') ∧
      result.map Message.id = [1, 2] ∧
      { bonjour with translatedText := some "good day" } ∈ result := by
  have hcap : maxMessagesOf greetingModel.toEnv
      (stored (World.init .empty fun _ ↦ none).kv .maxMessages) = .ok defaultMaxMessages := rfl
  have hpolicy : policyOf greetingModel.toEnv (World.init .empty fun _ ↦ none).kv =
      some ("en", ["en"], []) := by
    decide +kernel
  have hsent : sentMessages greetingModel.toEnv "en" .empty [bonjour, ownBonjour]
      defaultMaxMessages = [bonjour] := by
    decide +kernel
  obtain ⟨result, w', hrun, -, hids, -, -, -, hpass⟩ :=
    @translate_history_conservative greetingModel 0 (.init .empty fun _ ↦ none)
      [bonjour, ownBonjour] _ (by decide) (fun _ ↦ rfl) hcap
  obtain ⟨-, -, htexts, -⟩ := hpass _ _ _ hpolicy
  refine ⟨result, w', hrun, hids, htexts bonjour ?_ "good day" (by decide +kernel)⟩
  refine hsent.symm ▸ List.mem_singleton_self bonjour

end TgMessenger.Translate
