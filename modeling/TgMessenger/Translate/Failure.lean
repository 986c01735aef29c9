import TgMessenger.Translate.World

/-!
# When the model fails

`make_translate_fn` (`agent/factory.py`) asks the model for structured output and answers with an
empty map when that fails.  `_translate_pending` takes a message that is not in the map for one
that needs no translation, and caches that.
-/

namespace TgMessenger.Translate

open Asyncio MessageStore

/-! ## The structured call -/

/-- `TranslationItem`. -/
structure TranslationItem where
  id : ℤ
  translation : Option String := none

/-- `TranslationBatch`. -/
structure TranslationBatch where
  items : List TranslationItem := []

/-- How `ainvoke` of a structured model ends. -/
inductive Invocation where
  | /-- The time is up, or the provider raises. -/
    raised
  | batch (batch : TranslationBatch)
  | /-- A dictionary, and what `TranslationBatch.model_validate` makes of it. -/
    dict (validated : Option TranslationBatch)
  | /-- A value of another type. -/
    other

/-- `_structured_translate`. -/
def structuredTranslate : Invocation → Option TranslationBatch
  | .raised => none
  | .batch batch => some batch
  | .dict validated => validated
  | .other => none

/-- The method of the structured output. -/
inductive Method where
  | jsonSchema | jsonMode
deriving DecidableEq

/-- `_with_fallback_method`: the fallback is there when the method is not `json_mode` anyway. -/
def withFallbackMethod (method : Method) (primary fallback : Invocation) :
    Option TranslationBatch :=
  let batch := structuredTranslate primary
  if (batch.all fun batch ↦ batch.items.isEmpty) && method = .jsonSchema then
    structuredTranslate fallback
  else batch

/-- `_batch_to_map`. -/
def batchToMap (batch : TranslationBatch) : OrderedDict ℤ (Option String) :=
  batch.items.foldl (fun map item ↦ map.set item.id item.translation) .empty

/-- What the `translate` of `make_translate_fn` returns. -/
def translate (method : Method) (primary fallback : Invocation) : OrderedDict ℤ (Option String) :=
  match withFallbackMethod method primary fallback with
  | none => .empty
  | some batch => batchToMap batch

/-- What needs a translation has a text. -/
theorem ne_none_of_needsTranslation {env : Env} {text : Option String}
    (h : needsTranslation env text = true) : text ≠ none := by
  rintro rfl
  cases h

/-! ## Caching a decision -/

/-- How far the two statements come that cache a decision. -/
inductive Outcome where
  | refused | upserted | written
deriving DecidableEq

namespace Outcome

/-- How far they come when the first of them is the `n`-th statement. -/
def of (faults : ℕ → Option String) (n : ℕ) : Outcome :=
  if (faults n).isSome then refused
  else if (faults (n + 1)).isSome then upserted
  else written

/-- How many of them there are. -/
def statements : Outcome → ℕ
  | refused => 1
  | upserted | written => 2

/-- What they do to the rows. -/
def apply (lang : String) (text : Option String) (m : Message) (db : Db) : Outcome → Db
  | refused => db
  | upserted => db.upsertMessageForTranslation m
  | written => (db.upsertMessageForTranslation m).setMessageTranslation m.dialogId m.id lang text

end Outcome

/-- How far the caching of each message comes when the next statement is the `n`-th. -/
def outcomes (faults : ℕ → Option String) : ℕ → List Message → List (Message × Outcome)
  | _, [] => []
  | n, m :: ms => (m, .of faults n) :: outcomes faults (n + (Outcome.of faults n).statements) ms

/-- Two messages are the same to the cache, but perhaps for their texts. -/
abbrev SameRow (m x : Message) : Prop := x.dialogId = m.dialogId ∧ x.id = m.id

/-- The decision on a message. -/
def decision (lang : String) (x : Message) (db : Db) : Option (Option String) :=
  db.getMessageTranslation x.dialogId x.id lang x.text

section Decisions

variable {lang : String} {text : Option String} {m x : Message} {db : Db}

/-- A row is made sure of: a decision on another text of the message is forgotten. -/
theorem decision_upsert (hx : x.text ≠ none) :
    decision lang x (db.upsertMessageForTranslation m) =
      if SameRow m x ∧ m.text ≠ x.text then none else decision lang x db := by
  by_cases hrow : SameRow m x
  · obtain ⟨hd, hid⟩ := id hrow
    have hstored : (db.upsertMessageForTranslation m).row? x.dialogId x.id =
        some (((db.row? x.dialogId x.id).map (Db.onConflictForTranslation
          (Db.excludedForTranslation m))).getD (Db.excludedForTranslation m)) := by
      rw [Db.row?_upsertMessageForTranslation, if_pos hrow, hd, hid]
    by_cases htext : m.text = x.text
    · rw [if_neg fun h ↦ h.2 htext, decision, decision, Db.getMessageTranslation, hstored,
        Db.getMessageTranslation]
      cases db.row? x.dialogId x.id with
      | none => simp [Db.excludedForTranslation, Row.ofMessage]
      | some stored =>
        by_cases hsame : stored.text = x.text
        · simp [Db.onConflictForTranslation, Db.excludedForTranslation, Row.ofMessage, htext,
            hsame]
        · simp [Db.onConflictForTranslation, Db.excludedForTranslation, Row.ofMessage, htext,
            hsame, hx]
    · rw [if_pos ⟨hrow, htext⟩, decision, Db.getMessageTranslation, hstored]
      cases db.row? x.dialogId x.id with
      | none => simp [Db.excludedForTranslation, Row.ofMessage]
      | some stored =>
        simp [Db.onConflictForTranslation, Db.excludedForTranslation, Row.ofMessage, htext, hx]
  · rw [if_neg fun h ↦ hrow h.1, decision, decision, Db.getMessageTranslation,
      Db.row?_upsertMessageForTranslation, if_neg hrow, Db.getMessageTranslation]

/-- A decision is written: it is found for the text it was made on. -/
theorem decision_set (hx : x.text ≠ none) :
    decision lang x ((db.upsertMessageForTranslation m).setMessageTranslation m.dialogId m.id
      lang text) =
      if SameRow m x then if m.text = x.text then some text else none
      else decision lang x db := by
  by_cases hrow : SameRow m x
  · obtain ⟨hd, hid⟩ := id hrow
    rw [if_pos hrow, decision, Db.getMessageTranslation, Db.row?_setMessageTranslation,
      if_pos hrow, Db.row?_upsertMessageForTranslation, if_pos ⟨rfl, rfl⟩]
    by_cases htext : m.text = x.text
    · cases db.row? m.dialogId m.id with
      | none => simp [Db.excludedForTranslation, Row.ofMessage, htext]
      | some stored =>
        simp [Db.onConflictForTranslation, Db.excludedForTranslation, Row.ofMessage, htext]
    · cases db.row? m.dialogId m.id with
      | none => simp [Db.excludedForTranslation, Row.ofMessage, htext, hx]
      | some stored =>
        simp [Db.onConflictForTranslation, Db.excludedForTranslation, Row.ofMessage, htext, hx]
  · rw [if_neg hrow, decision, Db.getMessageTranslation, Db.row?_setMessageTranslation,
      if_neg hrow, Db.row?_upsertMessageForTranslation, if_neg hrow, ← Db.getMessageTranslation,
      ← decision]

end Decisions

/-! ## What is kept of the decisions of a pass -/

/-- A decision on the text of the message is written, and no row is made sure of after it for
another text of the message. -/
def Kept (outs : List (Message × Outcome)) (x : Message) : Prop :=
  ∃ before m after, outs = before ++ (m, .written) :: after ∧ SameRow m x ∧ m.text = x.text ∧
    ∀ p ∈ after, p.2 ≠ .refused → SameRow p.1 x → p.1.text = x.text

theorem not_kept_nil {x : Message} : ¬ Kept [] x := by
  rintro ⟨before, m, after, houts, -⟩
  simp at houts

/-- The last message counts first. -/
theorem kept_concat_iff {outs : List (Message × Outcome)} {p : Message × Outcome} {x : Message} :
    Kept (outs ++ [p]) x ↔
      (p.2 = .written ∧ SameRow p.1 x ∧ p.1.text = x.text) ∨
      (Kept outs x ∧ (p.2 ≠ .refused → SameRow p.1 x → p.1.text = x.text)) := by
  constructor
  · rintro ⟨before, m, after, houts, hrow, htext, hafter⟩
    obtain rfl | ⟨after, q, rfl⟩ := List.eq_nil_or_concat after
    · obtain ⟨rfl, hp⟩ := List.append_inj' houts rfl
      obtain rfl := List.singleton_inj.mp hp
      exact .inl ⟨rfl, hrow, htext⟩
    · rw [List.concat_eq_append, ← List.cons_append, ← List.append_assoc] at houts
      obtain ⟨rfl, hp⟩ := List.append_inj' houts rfl
      obtain rfl := List.singleton_inj.mp hp
      refine .inr ⟨⟨before, m, after, rfl, hrow, htext, ?_⟩, ?_⟩
      · intro q hq
        exact hafter q (by simp [hq])
      · exact hafter p (by simp)
  · rintro (⟨hwritten, hrow, htext⟩ | ⟨⟨before, m, after, rfl, hrow, htext, hafter⟩, hp⟩)
    · obtain ⟨m, o⟩ := p
      obtain rfl : o = .written := hwritten
      exact ⟨outs, m, [], rfl, hrow, htext, by simp⟩
    · refine ⟨before, m, after ++ [p], by simp, hrow, htext, ?_⟩
      intro q hq
      obtain hq | hq := List.mem_append.mp hq
      · exact hafter q hq
      · obtain rfl := List.mem_singleton.mp hq
        exact hp

/-- The outcome of one message is applied. -/
def applyOutcome (lang : String) (text : Option String) (db : Db) (p : Message × Outcome) : Db :=
  p.2.apply lang text p.1 db

/-- A message of which nothing was known is decided after the pass if and only if a decision on
it is kept. -/
theorem decision_foldl {lang : String} {x : Message} {db : Db} (text : Option String)
    (hx : x.text ≠ none) (hdb : decision lang x db = none) (outs : List (Message × Outcome)) :
    (Kept outs x → decision lang x (outs.foldl (applyOutcome lang text) db) = some text) ∧
    (¬ Kept outs x → decision lang x (outs.foldl (applyOutcome lang text) db) = none) := by
  induction outs using List.reverseRecOn with
  | nil => exact ⟨fun h ↦ (not_kept_nil h).elim, fun _ ↦ hdb⟩
  | append_singleton outs p ih =>
    obtain ⟨hkept, hlost⟩ := ih
    obtain ⟨m, o⟩ := p
    rw [List.foldl_append, List.foldl_cons, List.foldl_nil, kept_concat_iff, applyOutcome]
    cases o with
    | refused => simpa [Outcome.apply] using ⟨hkept, hlost⟩
    | upserted =>
      rw [Outcome.apply, decision_upsert hx]
      by_cases hother : SameRow m x ∧ m.text ≠ x.text
      · rw [if_pos hother]
        refine ⟨?_, fun _ ↦ rfl⟩
        rintro (⟨hwritten, -⟩ | ⟨-, hsame⟩)
        · cases hwritten
        · exact absurd (hsame Outcome.noConfusion hother.1) hother.2
      · rw [if_neg hother]
        have hsame : SameRow m x → m.text = x.text := by
          intro hrow
          exact not_not.mp fun htext ↦ hother ⟨hrow, htext⟩
        constructor
        · rintro (⟨hwritten, -⟩ | ⟨hkeeps, -⟩)
          · cases hwritten
          · exact hkept hkeeps
        · exact fun hnot ↦ hlost fun hkeeps ↦ hnot (.inr ⟨hkeeps, fun _ ↦ hsame⟩)
    | written =>
      rw [Outcome.apply, decision_set hx]
      by_cases hrow : SameRow m x
      · by_cases htext : m.text = x.text
        · simp [hrow, htext]
        · simp [hrow, htext]
      · simpa [hrow] using ⟨hkept, hlost⟩

/-! ## A failing pass -/

section Runs

variable (cfg : Setup) (t : ℕ)

/-- A statement alone. -/
theorem run_statement {o : Op} {result : effects.Ret o} {f : World → World} {w : World}
    (ho : handle cfg t o w = w.statement cfg result f) :
    (perform o).run (system cfg) t w =
      match cfg.faults w.statements with
      | some e => some (.error e, { w with statements := w.statements + 1 })
      | none => some (.ok result, f { w with statements := w.statements + 1 }) := by
  cases hfault : cfg.faults w.statements with
  | some e =>
    refine Prog.run_perform (system cfg) t (ho.trans ?_)
    rw [World.statement, hfault]
  | none =>
    refine Prog.run_perform (system cfg) t (ho.trans ?_)
    rw [World.statement, hfault]

/-- The two statements that cache a decision, and what comes after them. -/
theorem run_putDecision {α : Type} (lang : String) (text : Option String) (m : Message) (a : α)
    (w : World) :
    ∃ x w', (do
        perform (.upsertMessageForTranslation m)
        perform (.setMessageTranslation m.dialogId m.id lang text)
        return a : TranslateProg α).run (system cfg) t w = some (x, w') ∧
      w'.requests = w.requests ∧
      w'.statements = w.statements + (Outcome.of cfg.faults w.statements).statements ∧
      w'.db = (Outcome.of cfg.faults w.statements).apply lang text m w.db ∧
      ∀ b, x = .ok b → b = a := by
  have hupsert := run_statement cfg t (w := w)
    (o := .upsertMessageForTranslation m) rfl
  cases hfault : cfg.faults w.statements with
  | some e =>
    rw [hfault] at hupsert
    have hof : Outcome.of cfg.faults w.statements = .refused := by simp [Outcome.of, hfault]
    rw [hof]
    refine ⟨_, _, Prog.run_bind_error _ _ hupsert, rfl, rfl, rfl, ?_⟩
    rintro b ⟨⟩
  | none =>
    rw [hfault] at hupsert
    have hset := run_statement cfg t
      (w := { w with statements := w.statements + 1 }.onDb (.upsertMessageForTranslation m))
      (o := .setMessageTranslation m.dialogId m.id lang text) rfl
    dsimp only [World.onDb] at hset
    cases hfault' : cfg.faults (w.statements + 1) with
    | some e =>
      rw [hfault'] at hset
      have hof : Outcome.of cfg.faults w.statements = .upserted := by
        simp [Outcome.of, hfault, hfault']
      rw [hof]
      refine ⟨_, _, (Prog.run_bind_ok _ _ hupsert).trans (Prog.run_bind_error _ _ hset), rfl, rfl,
        rfl, ?_⟩
      rintro b ⟨⟩
    | none =>
      rw [hfault'] at hset
      have hof : Outcome.of cfg.faults w.statements = .written := by
        simp [Outcome.of, hfault, hfault']
      rw [hof]
      refine ⟨_, _, (Prog.run_bind_ok _ _ hupsert).trans (Prog.run_bind_ok _ _ hset), rfl, rfl,
        rfl, ?_⟩
      rintro b ⟨⟩
      rfl

/-- The pending messages are cached one after the other; none has a text. -/
theorem run_cacheTranslations (lang : String) (ms : List Message) :
    ∀ (updates : OrderedDict ℤ (Option String)) (w : World), ∃ byId w',
      (cacheTranslations lang .empty ms updates).run (system cfg) t w = some (.ok byId, w') ∧
      w'.db = (outcomes cfg.faults w.statements ms).foldl (applyOutcome lang none) w.db := by
  induction ms with
  | nil => exact fun updates w ↦ ⟨updates, w, rfl, rfl⟩
  | cons m ms ih =>
    intro updates w
    obtain ⟨x, w₁, hrun, -, hstatements, hdb, -⟩ :=
      run_putDecision cfg t lang none m true w
    have hcache : ∃ cached, (cacheTranslation lang none m).run (system cfg) t w =
        some (.ok cached, w₁) := by
      cases x with
      | ok cached => exact ⟨cached, Prog.run_rescue_ok _ _ hrun⟩
      | error e => exact ⟨false, Prog.run_rescue_error _ _ hrun⟩
    obtain ⟨cached, hcache⟩ := hcache
    obtain ⟨byId, w', hrest, hdb'⟩ := ih (if cached then updates.set m.id none else updates) w₁
    refine ⟨byId, w', (Prog.run_bind_ok _ _ hcache).trans hrest, ?_⟩
    rw [hdb', hstatements, hdb, outcomes, List.foldl_cons, applyOutcome]

/-- What happens to the cache while one message is prepared. -/
theorem run_prepareMessage (lang : String) (m : Message) (w : World) :
    ∃ translated needsLlm w',
      (prepareMessage cfg.toEnv lang m).run (system cfg) t w =
        some (.ok (translated, needsLlm), w') ∧
      ((needsLlm = true ∧ w'.db = w.db ∧ needsTranslation cfg.toEnv m.text = true ∧
          decision lang m w.db = none) ∨
        (needsLlm = false ∧ w'.db = w.db) ∨
        (needsLlm = false ∧ needsTranslation cfg.toEnv m.text = false ∧
          ∃ o : Outcome, w'.db = o.apply lang none m w.db)) := by
  have hget := run_statement cfg t (w := w)
    (o := .getMessageTranslation m.dialogId m.id lang m.text) rfl
  cases hfault : cfg.faults w.statements with
  | some e =>
    rw [hfault] at hget
    exact ⟨m, false, _, Prog.run_rescue_error _ _ (Prog.run_bind_error _ _ hget),
      .inr (.inl ⟨rfl, rfl⟩)⟩
  | none =>
    rw [hfault] at hget
    dsimp only at hget
    rw [← decision] at hget
    cases hcached : decision lang m w.db with
    | some text =>
      rw [hcached] at hget
      exact ⟨_, _, _, Prog.run_rescue_ok _ _ (Prog.run_bind_ok _ _ hget),
        .inr (.inl ⟨rfl, rfl⟩)⟩
    | none =>
      rw [hcached] at hget
      cases hneeds : needsTranslation cfg.toEnv m.text with
      | true =>
        refine ⟨m, true, { w with statements := w.statements + 1 },
          Prog.run_rescue_ok _ _ ((Prog.run_bind_ok _ _ hget).trans ?_),
          .inl ⟨rfl, rfl, rfl, rfl⟩⟩
        dsimp only
        rw [hneeds]
        rfl
      | false =>
        obtain ⟨x, w', hrun, -, -, hdb, hx⟩ := run_putDecision cfg t lang none m
          ({ m with translatedText := none }, false) { w with statements := w.statements + 1 }
        cases x with
        | ok r =>
          obtain rfl := hx r rfl
          refine ⟨{ m with translatedText := none }, false, w',
            Prog.run_rescue_ok _ _ ((Prog.run_bind_ok _ _ hget).trans ?_),
            .inr (.inr ⟨rfl, rfl, _, hdb⟩)⟩
          dsimp only
          rw [hneeds]
          exact hrun
        | error e =>
          refine ⟨m, false, w',
            Prog.run_rescue_error (e := e) _ _ ((Prog.run_bind_ok _ _ hget).trans ?_),
            .inr (.inr ⟨rfl, rfl, _, hdb⟩)⟩
          dsimp only
          rw [hneeds]
          exact hrun

/-- The cache knows nothing of the messages that are pending, nor of what needs a translation and
was not known before. -/
theorem run_prepareMessages (lang : String) (messages : List Message) :
    ∀ w : World, ∃ result pending w',
      (prepareMessages cfg.toEnv lang messages).run (system cfg) t w =
        some (.ok (result, pending), w') ∧
      (∀ x : Message, needsTranslation cfg.toEnv x.text = true → decision lang x w.db = none →
        decision lang x w'.db = none) ∧
      ∀ p ∈ pending, needsTranslation cfg.toEnv p.1.text = true ∧
        decision lang p.1 w'.db = none := by
  induction messages with
  | nil =>
    intro w
    refine ⟨[], [], w, rfl, fun _ _ hx ↦ hx, ?_⟩
    intro p hp
    cases hp
  | cons m messages ih =>
    intro w
    by_cases hout : m.out = true
    · obtain ⟨result, pending, w', hrun, hmiss, hpending⟩ := ih w
      refine ⟨m :: result, pending, w', ?_, hmiss, hpending⟩
      rw [prepareMessages, if_pos hout]
      exact Prog.run_bind_ok _ _ hrun
    · obtain ⟨translated, needsLlm, w₁, hfirst, hcases⟩ :=
        run_prepareMessage cfg t lang m w
      obtain ⟨result, pending, w', hrun, hmiss, hpending⟩ := ih w₁
      have hmiss₁ : ∀ x : Message, needsTranslation cfg.toEnv x.text = true →
          decision lang x w.db = none → decision lang x w₁.db = none := by
        intro x hneeds hx
        obtain ⟨-, hdb, -⟩ | ⟨-, hdb⟩ | ⟨-, hnot, o, hdb⟩ := hcases
        · rw [hdb]
          exact hx
        · rw [hdb]
          exact hx
        · have htext : x.text ≠ none := ne_none_of_needsTranslation hneeds
          have hne : m.text ≠ x.text := by
            intro heq
            rw [← heq, hnot] at hneeds
            cases hneeds
          rw [hdb]
          cases o with
          | refused => exact hx
          | upserted =>
            rw [Outcome.apply, decision_upsert htext, hx, ite_self]
          | written =>
            rw [Outcome.apply, decision_set htext, hx, if_neg hne, ite_self]
      have hmiss' : ∀ x : Message, needsTranslation cfg.toEnv x.text = true →
          decision lang x w.db = none → decision lang x w'.db = none :=
        fun x hneeds hx ↦ hmiss x hneeds (hmiss₁ x hneeds hx)
      have hnext : (prepareMessages cfg.toEnv lang (m :: messages)).run (system cfg) t w =
          (match m.text.filter fun text ↦ needsLlm && text ≠ "" with
            | some text => return (translated :: result, (m, text) :: pending)
            | none => return (translated :: result, pending) :
              TranslateProg (List Message × List (Message × String))).run (system cfg) t w' := by
        rw [prepareMessages, if_neg hout]
        exact (Prog.run_bind_ok _ _ hfirst).trans (Prog.run_bind_ok _ _ hrun)
      cases hsent : m.text.filter fun text ↦ needsLlm && text ≠ "" with
      | none =>
        rw [hsent] at hnext
        exact ⟨_, _, _, hnext, hmiss', hpending⟩
      | some text =>
        rw [hsent] at hnext
        refine ⟨_, _, _, hnext, hmiss', ?_⟩
        intro p hp
        obtain rfl | hp := List.mem_cons.mp hp
        · obtain ⟨-, hkeep⟩ := Option.filter_eq_some_iff.mp hsent
          have hllm : needsLlm = true := by
            simp only [Bool.and_eq_true] at hkeep
            exact hkeep.1
          obtain ⟨-, -, hneeds, hnone⟩ | ⟨hno, -⟩ | ⟨hno, -⟩ := hcases
          · exact ⟨hneeds, hmiss' m hneeds hnone⟩
          · rw [hno] at hllm
            cases hllm
          · rw [hno] at hllm
            cases hllm
        · exact hpending p hp

/-- The cap, as the next statement reads it. -/
def readCap (cfg : Setup) (w : World) : Except String ℕ :=
  match cfg.faults w.statements with
  | some e => .error e
  | none => maxMessagesOf cfg.toEnv
    ((w.kv .maxMessages).filter fun value ↦ !value matches .null)

/-- The messages a pass sends, and how far the caching of each comes. -/
def sent (cfg : Setup) (w : World) (pending : List (Message × String)) :
    List (Message × Outcome) :=
  match readCap cfg w with
  | .ok cap => outcomes cfg.faults (w.statements + 1) ((pending.rtake cap).map Prod.fst)
  | .error _ => []

/-- The cap is read. -/
theorem run_getMaxMessages (w : World) :
    ∃ w', (getMaxMessages cfg.toEnv).run (system cfg) t w = some (readCap cfg w, w') ∧
      w'.db = w.db ∧ w'.requests = w.requests ∧ w'.statements = w.statements + 1 := by
  have hget := run_statement cfg t (w := w) (o := .getValue .maxMessages) rfl
  rw [readCap]
  cases hfault : cfg.faults w.statements with
  | some e =>
    rw [hfault] at hget
    exact ⟨_, Prog.run_bind_error _ _ hget, rfl, rfl, rfl⟩
  | none =>
    rw [hfault] at hget
    have hrun := Prog.run_bind_ok (system cfg) t (p := perform (.getValue .maxMessages))
      (f := fun raw : Option Json ↦
        match maxMessagesOf cfg.toEnv raw with
        | .ok cap => (return cap : TranslateProg ℕ)
        | .error e => .raise e) hget
    refine ⟨World.read t .maxMessages (w.version .maxMessages)
      { w with statements := w.statements + 1 }, hrun.trans ?_, rfl, rfl, rfl⟩
    dsimp only
    cases maxMessagesOf cfg.toEnv
        ((w.kv .maxMessages).filter fun value ↦ !value matches .null) with
    | ok cap => rfl
    | error e => rfl

/-- The model has failed for the pending messages. -/
theorem run_translatePending (pending : List (Message × String)) (target : String)
    (skipLangs onlyLangs : List String) {w : World}
    (hanswer : cfg.answers w.requests = .ok .empty) :
    ∃ byId w', (translatePending pending target skipLangs onlyLangs).run (system cfg) t w =
        some (.ok byId, w') ∧
      w'.db = (outcomes cfg.faults w.statements (pending.map Prod.fst)).foldl
        (applyOutcome target none) w.db := by
  have hcall : (perform (.translate (pending.map fun p ↦ (p.1.id, p.2)) target skipLangs
      onlyLangs)).run (system cfg) t w = some (.ok .empty,
        ({ w with requests := w.requests + 1 }.read t .translateModel (cfg.modelVersion t))) := by
    refine Prog.run_perform (system cfg) t ?_
    rw [← hanswer]
    rfl
  obtain ⟨byId, w', hcache, hdb⟩ := run_cacheTranslations cfg t target (pending.map Prod.fst)
    .empty ({ w with requests := w.requests + 1 }.read t .translateModel (cfg.modelVersion t))
  refine ⟨byId, w', ?_, hdb⟩
  have hbody : (do
        let translated : OrderedDict ℤ (Option String) ←
          perform (.translate (pending.map fun p ↦ (p.1.id, p.2)) target skipLangs onlyLangs)
        return some translated : TranslateProg (Option (OrderedDict ℤ (Option String)))).run
      (system cfg) t w = some (.ok (some .empty),
        ({ w with requests := w.requests + 1 }.read t .translateModel (cfg.modelVersion t))) :=
    Prog.run_bind_ok _ _ hcall
  exact (Prog.run_bind_ok _ _ (Prog.run_rescue_ok _ _ hbody)).trans hcache

/-- The end of a pass whose model has failed. -/
theorem run_translateRest (target : String) (skipLangs onlyLangs : List String)
    (result : List Message) (pending : List (Message × String)) {w : World}
    (hanswer : cfg.answers w.requests = .ok .empty) :
    ∃ x w', (translateRest cfg.toEnv target skipLangs onlyLangs result pending).run
        (system cfg) t w = some (x, w') ∧
      w'.db = (sent cfg w pending).foldl (applyOutcome target none) w.db := by
  by_cases hpending : pending = []
  · refine ⟨.ok result, w, ?_, ?_⟩
    · rw [translateRest, if_pos hpending]
      rfl
    · rw [sent, hpending]
      cases readCap cfg w with
      | ok cap =>
        dsimp only
        rw [List.rtake_nil]
        rfl
      | error e => rfl
  · obtain ⟨w₁, hcap, hdb₁, hrequests, hstatements⟩ := run_getMaxMessages cfg t w
    rw [translateRest, if_neg hpending, sent]
    cases hread : readCap cfg w with
    | error e =>
      rw [hread] at hcap
      exact ⟨.error e, w₁, Prog.run_bind_error _ _ hcap, hdb₁⟩
    | ok cap =>
      rw [hread] at hcap
      rw [← hrequests] at hanswer
      obtain ⟨byId, w', hrun, hdb⟩ := run_translatePending cfg t (pending.rtake cap) target
        skipLangs onlyLangs hanswer
      refine ⟨.ok (withTranslations byId result), w',
        (Prog.run_bind_ok _ _ hcap).trans (Prog.run_bind_ok _ _ hrun), ?_⟩
      rw [hdb, hdb₁, hstatements]

end Runs

/-- On a storage that works everything is written. -/
theorem outcomes_of_works {faults : ℕ → Option String} (hworks : ∀ n, faults n = none)
    (ms : List Message) : ∀ n, outcomes faults n ms = ms.map fun m ↦ (m, .written) := by
  induction ms with
  | nil => exact fun n ↦ rfl
  | cons m ms ih =>
    intro n
    have hof : Outcome.of faults n = .written := by simp [Outcome.of, hworks]
    rw [outcomes, ih, hof, List.map_cons]

/-- On a storage that works the decision on the last message is kept. -/
theorem exists_kept {cfg : Setup} {w : World} {pending : List (Message × String)} {cap : ℕ}
    (hworks : ∀ n, cfg.faults n = none) (hcap : readCap cfg w = .ok cap) (hpending : pending ≠ []) :
    ∃ p ∈ pending, Kept (sent cfg w pending) p.1 := by
  obtain ⟨front, last, rfl⟩ := List.eq_nil_or_concat pending |>.resolve_left hpending
  have hone : 1 ≤ cap := by
    rw [readCap, hworks] at hcap
    exact one_le_maxMessagesOf hcap
  obtain ⟨k, rfl⟩ := Nat.exists_eq_add_of_le' hone
  refine ⟨last, by simp, ?_⟩
  rw [sent, hcap, List.concat_eq_append]
  dsimp only
  rw [outcomes_of_works hworks, List.rtake_concat_succ, List.map_append, List.map_append]
  exact kept_concat_iff.mpr (.inl ⟨rfl, ⟨rfl, rfl⟩, rfl⟩)

/-- A failing call finds no translation. -/
theorem translate_eq_empty {method : Method} {primary fallback : Invocation}
    (hfail : withFallbackMethod method primary fallback = none) :
    translate method primary fallback = .empty := by
  rw [translate, hfail]

/-- A pass whose model fails leaves what is known of the pending messages as it is if and only if
the storage keeps none of the decisions that it writes.  A storage that works keeps one as soon
as a message is pending. -/
theorem failure_unremembered {cfg : Setup} {t : ℕ} {messages result : List Message}
    {target : String} {skipLangs onlyLangs : List String} {pending : List (Message × String)}
    {method : Method} {primary fallback : Invocation} {x : Except String (List Message)}
    {w w₁ w₂ w' : World}
    (hpolicy : (translationPolicy cfg.toEnv).run (system cfg) t w =
      some (.ok (some (target, skipLangs, onlyLangs)), w₁))
    (hprepare : (prepareMessages cfg.toEnv target messages).run (system cfg) t w₁ =
      some (.ok (result, pending), w₂))
    (hanswer : cfg.answers w₂.requests = .ok (translate method primary fallback))
    (hfail : withFallbackMethod method primary fallback = none)
    (hrun : (translateHistory cfg.toEnv messages).run (system cfg) t w = some (x, w')) :
    ((∀ p ∈ pending, decision target p.1 w'.db = decision target p.1 w₂.db) ↔
      ∀ p ∈ pending, ¬ Kept (sent cfg w₂ pending) p.1) ∧
    ((∀ n, cfg.faults n = none) → ∀ cap, readCap cfg w₂ = .ok cap →
      ((∀ p ∈ pending, decision target p.1 w'.db = decision target p.1 w₂.db) ↔
        pending = [])) := by
  rw [translate_eq_empty hfail] at hanswer
  obtain ⟨result', pending', w₂', hprepare', -, hmiss⟩ :=
    run_prepareMessages cfg t target messages w₁
  rw [hprepare, Option.some_inj, Prod.mk.injEq, Except.ok.injEq, Prod.mk.injEq] at hprepare'
  obtain ⟨⟨rfl, rfl⟩, rfl⟩ := hprepare'
  obtain ⟨x', w'', hrest, hdb⟩ := run_translateRest cfg t target skipLangs onlyLangs result
    pending hanswer
  have hhistory : (translateHistory cfg.toEnv messages).run (system cfg) t w = some (x', w'') :=
    (Prog.run_bind_ok _ _ hpolicy).trans ((Prog.run_bind_ok _ _ hprepare).trans hrest)
  rw [hrun, Option.some_inj, Prod.mk.injEq] at hhistory
  obtain ⟨rfl, rfl⟩ := hhistory
  have hdecision : ∀ p ∈ pending, (decision target p.1 w'.db = decision target p.1 w₂.db ↔
      ¬ Kept (sent cfg w₂ pending) p.1) := by
    intro p hp
    obtain ⟨hneeds, hnone⟩ := hmiss p hp
    obtain ⟨hkept, hlost⟩ := decision_foldl none (ne_none_of_needsTranslation hneeds)
      hnone (sent cfg w₂ pending)
    rw [hdb, hnone]
    constructor
    · intro hunknown hkeeps
      rw [hkept hkeeps] at hunknown
      cases hunknown
    · exact hlost
  have hiff := forall₂_congr hdecision
  refine ⟨hiff, ?_⟩
  intro hworks cap hcap
  rw [hiff]
  constructor
  · intro hlost
    by_contra hpending
    obtain ⟨p, hp, hkeeps⟩ := exists_kept hworks hcap hpending
    exact hlost p hp hkeeps
  · rintro rfl p hp
    cases hp

/-- The model's time is always up, and one statement may find the storage locked; the user's
language comes from the environment, and no list of languages is stored. -/
def failingModel (locked : Option ℕ) : Setup where
  environ name := if name = "TG_USER_LANG" then some "en" else none
  isLetter := Char.isAlpha
  decimal _ := none
  dumps _ := "[]"
  loads _ := none
  faults n := if locked = some n then some "database is locked" else none
  answers _ := .ok (translate .jsonMode .raised .other)
  modelVersion _ := 0

/-- A message in French. -/
def bonjour : Message :=
  { id := 1, dialogId := 7, senderId := 7, out := false, date := "", text := some "bonjour" }

/-- A pass over this message. -/
def bonjourPass (locked : Option ℕ) (t : ℕ) (w : World) :
    Option (Except String (List Message) × World) :=
  (translateHistory (failingModel locked).toEnv [bonjour]).run (system (failingModel locked)) t w

/-- The storage is locked when the decision is to be written. -/
theorem failure_unremembered_of_locked :
    ∃ x w', bonjourPass (some 9) 0 (.init .empty fun _ ↦ none) = some (x, w') ∧
      w'.requests = 1 ∧ decision "en" bonjour w'.db = none := by
  have hexec : ((translationPolicy (failingModel (some 9)).toEnv).run
      (system (failingModel (some 9))) 0 (.init .empty fun _ ↦ none)).any (fun p ↦
        p.1 = .ok (some ("en", ["en"], [])) ∧
        ((prepareMessages (failingModel (some 9)).toEnv "en" [bonjour]).run
          (system (failingModel (some 9))) 0 p.2).any (fun q ↦
            q.1 = .ok ([bonjour], [(bonjour, "bonjour")]) ∧
            sent (failingModel (some 9)) q.2 [(bonjour, "bonjour")] = [(bonjour, .upserted)] ∧
            decision "en" bonjour q.2.db = none)) = true := by
    decide +kernel
  have hpass : (bonjourPass (some 9) 0 (.init .empty fun _ ↦ none)).any
      (fun p ↦ p.2.requests = 1) = true := by
    decide +kernel
  obtain ⟨⟨x, w'⟩, hrun, hrequests⟩ := (Option.any_eq_true _ _).mp hpass
  obtain ⟨⟨policy, w₁⟩, hpolicy, hexec⟩ := (Option.any_eq_true _ _).mp hexec
  obtain ⟨rfl, hexec⟩ := of_decide_eq_true hexec
  obtain ⟨⟨prepared, w₂⟩, hprepare, hexec⟩ := (Option.any_eq_true _ _).mp hexec
  obtain ⟨rfl, hsent, hnone⟩ := of_decide_eq_true hexec
  refine ⟨x, w', hrun, of_decide_eq_true hrequests, ?_⟩
  have hfail : withFallbackMethod .jsonMode .raised .other = none := rfl
  have hlost : ∀ p ∈ [(bonjour, "bonjour")],
      ¬ Kept (sent (failingModel (some 9)) w₂ [(bonjour, "bonjour")]) p.1 := by
    rintro p - ⟨before, m, after, houts, -⟩
    have hwritten : (m, Outcome.written) ∈ [(bonjour, Outcome.upserted)] := by
      rw [← hsent, houts]
      simp
    simp at hwritten
  have hsame := (failure_unremembered hpolicy hprepare rfl hfail hrun).1.mpr hlost
  exact (hsame (bonjour, "bonjour") (List.mem_singleton_self _)).trans hnone

/-- The model has failed, and is not asked a second time. -/
theorem failure_remembered :
    withFallbackMethod .jsonMode .raised .other = none ∧ decision "en" bonjour .empty = none ∧
    ∃ x w' x' w'', bonjourPass none 0 (.init .empty fun _ ↦ none) = some (x, w') ∧
      w'.requests = 1 ∧ decision "en" bonjour w'.db = some none ∧
      bonjourPass none 1 w' = some (x', w'') ∧ w''.requests = 1 := by
  have hexec : (bonjourPass none 0 (.init .empty fun _ ↦ none)).any (fun p ↦
      p.2.requests = 1 ∧ decision "en" bonjour p.2.db = some none ∧
      (bonjourPass none 1 p.2).any (fun q ↦ q.2.requests = 1)) = true := by
    decide +kernel
  obtain ⟨⟨x, w'⟩, hrun, hexec⟩ := (Option.any_eq_true _ _).mp hexec
  obtain ⟨hrequests, hdecision, hexec⟩ := of_decide_eq_true hexec
  obtain ⟨⟨x', w''⟩, hrun', hrequests'⟩ := (Option.any_eq_true _ _).mp hexec
  exact ⟨rfl, rfl, x, w', x', w'', hrun, hrequests, hdecision, hrun', of_decide_eq_true hrequests'⟩

end TgMessenger.Translate
