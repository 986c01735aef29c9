import Mathlib.Data.List.Basic
import Mathlib.Data.List.Nodup
import Mathlib.Data.Finset.Card
import Mathlib.Tactic.SplitIfs

/-!
# Schema migrations

`Storage.connect` (`core/storage.py`) creates the two tables it needs, reads which statements
have been applied, and applies the others in one transaction.  What a statement does to the
schema is SQLite's affair.
-/

universe u v

namespace TgMessenger.Storage

/-! ## The database -/

/-- The rows of `_tg_messenger_migrations`.  The id is the primary key. -/
structure Migrations (ι : Type v) where
  ids : List ι
  nodup : ids.Nodup

/-- A database file. -/
structure Db (σ : Type u) (ι : Type v) where
  /-- What the registered statements change. -/
  schema : σ
  /-- Whether the table `kv` exists. -/
  kv : Bool
  /-- The table `_tg_messenger_migrations`, if it exists. -/
  migrations : Option (Migrations ι)
  userVersion : ℕ

variable {σ : Type u} {ι : Type v}

/-- A new table. -/
def Migrations.empty : Migrations ι := ⟨[], List.nodup_nil⟩

namespace Db

/-- `_KV_MIGRATION`. -/
def createKv (db : Db σ ι) : Db σ ι := { db with kv := true }

/-- `_SCHEMA_MIGRATIONS`. -/
def createMigrations (db : Db σ ι) : Db σ ι :=
  { db with migrations := some (db.migrations.getD .empty) }

/-- `SELECT id FROM _tg_messenger_migrations`. -/
def ids (db : Db σ ι) : List ι := (db.migrations.getD .empty).ids

theorem ids_nodup (db : Db σ ι) : db.ids.Nodup := (db.migrations.getD .empty).nodup

/-- All is as it was, but for the two tables that a connect creates first. -/
def Same (db db' : Db σ ι) : Prop :=
  db' = db ∨ db' = db.createKv ∨ db' = db.createKv.createMigrations

theorem Same.spec {db db' : Db σ ι} (h : db.Same db') :
    db'.schema = db.schema ∧ db'.ids = db.ids ∧ db'.userVersion = db.userVersion := by
  rcases h with rfl | rfl | rfl <;> exact ⟨rfl, rfl, rfl⟩

end Db

variable [DecidableEq ι]

/-- `INSERT INTO _tg_messenger_migrations`, which fails when the key is there. -/
def Migrations.insert (table : Migrations ι) (id : ι) : Option (Migrations ι) :=
  if h : id ∈ table.ids then none
  else some ⟨table.ids ++ [id], List.nodup_append.mpr ⟨table.nodup, List.nodup_singleton id,
    fun _ ha _ hb heq ↦ h (List.mem_singleton.mp hb ▸ heq ▸ ha)⟩⟩

/-- A row is inserted. -/
def Db.insert (db : Db σ ι) (id : ι) : Option (Db σ ι) :=
  ((db.migrations.getD .empty).insert id).map fun table ↦ { db with migrations := some table }

/-! ## The code -/

/-- The calls of SQLite. -/
inductive Op where
  | openDb
  | createKv
  | createMigrations
  | selectIds
  | beginTransaction
  | statement (s : String)
  | insert (s : String)
  | setUserVersion
  | commit
deriving DecidableEq

/-- `Storage.connect`: whether it is connected already, whether it is cancelled while its worker
runs, the registered statements, and which calls fail for a reason of their own. -/
structure Connect where
  connected : Bool
  cancelled : Bool
  registered : List String
  fails : Op → Bool

/-- How a call ends. -/
inductive Ending where
  | returned
  | raised
  | cancelled
deriving DecidableEq

/-- How a connect ends: the statements it has executed, those it has committed, and the file. -/
structure Outcome (σ : Type u) (ι : Type v) where
  ending : Ending
  executed : List String
  applied : List String
  after : Db σ ι

section Connect

variable (exec : String → σ → Option σ) (migrationId : String → ι)

/-- The loop over `self._migrations`: the pending statements, and all that is seen. -/
def pending : List String → Finset ι → List String × Finset ι
  | [], seen => ([], seen)
  | s :: registered, seen =>
    if migrationId s ∈ seen then pending registered seen
    else
      let (rest, seen) := pending registered (insert (migrationId s) seen)
      (s :: rest, seen)

/-- The loop of the transaction: the file as the transaction has it, unless a call has failed,
and the statements that were executed. -/
def batch (fails : Op → Bool) : List String → Db σ ι → Option (Db σ ι) × List String
  | [], db => (some db, [])
  | s :: rest, db =>
    if fails (.statement s) then (none, [])
    else
      match exec s db.schema with
      | none => (none, [])
      | some schema =>
        if fails (.insert s) then (none, [s])
        else
          match { db with schema }.insert (migrationId s) with
          | none => (none, [s])
          | some db =>
            let (db, executed) := batch fails rest db
            (db, s :: executed)

/-- `_connect_sync` and `_migrate_sync`. -/
def connectSync (c : Connect) (db : Db σ ι) : Outcome σ ι :=
  if c.fails .openDb ∨ c.fails .createKv then ⟨.raised, [], [], db⟩
  else
    let db := db.createKv
    if c.fails .createMigrations then ⟨.raised, [], [], db⟩
    else
      let db := db.createMigrations
      if c.fails .selectIds then ⟨.raised, [], [], db⟩
      else
        let (statements, seen) := pending migrationId c.registered db.ids.toFinset
        if statements = [] then ⟨.returned, [], [], db⟩
        else if c.fails .beginTransaction then ⟨.raised, [], [], db⟩
        else
          match batch exec migrationId c.fails statements db with
          | (none, executed) => ⟨.raised, executed, [], db⟩
          | (some db', executed) =>
            if c.fails .setUserVersion ∨ c.fails .commit then ⟨.raised, executed, [], db⟩
            else ⟨.returned, executed, statements, { db' with userVersion := seen.card }⟩

/-- `connect`.  The worker goes on when the call is cancelled. -/
def connect (c : Connect) (db : Db σ ι) : Outcome σ ι :=
  if c.connected then ⟨.returned, [], [], db⟩
  else
    let o := connectSync exec migrationId c db
    if c.cancelled then { o with ending := .cancelled } else o

/-! ## The pending statements -/

variable {exec migrationId}

/-- A pending statement is registered, and has not been seen. -/
theorem of_mem_pending {registered : List String} {seen : Finset ι} {s : String}
    (h : s ∈ (pending migrationId registered seen).1) :
    s ∈ registered ∧ migrationId s ∉ seen := by
  induction registered generalizing seen with
  | nil => cases h
  | cons t registered ih =>
    rw [pending] at h
    split at h
    · obtain ⟨hmem, hseen⟩ := ih h
      exact ⟨List.mem_cons_of_mem _ hmem, hseen⟩
    · next ht =>
      rcases List.mem_cons.mp h with rfl | h
      · exact ⟨List.mem_cons_self, ht⟩
      · obtain ⟨hmem, hseen⟩ := ih h
        exact ⟨List.mem_cons_of_mem _ hmem, fun hs ↦ hseen (Finset.mem_insert_of_mem hs)⟩

/-- A registered statement has been seen, or one of its id is pending. -/
theorem mem_pending {registered : List String} {seen : Finset ι} {s : String}
    (h : s ∈ registered) (hseen : migrationId s ∉ seen) :
    migrationId s ∈ (pending migrationId registered seen).1.map migrationId := by
  induction registered generalizing seen with
  | nil => cases h
  | cons t registered ih =>
    rw [pending]
    split
    · next ht =>
      rcases List.mem_cons.mp h with rfl | h
      · exact absurd ht hseen
      · exact ih h hseen
    · dsimp only
      rw [List.map_cons]
      by_cases heq : migrationId s = migrationId t
      · rw [heq]
        exact List.mem_cons_self
      · rcases List.mem_cons.mp h with rfl | h
        · exact absurd rfl heq
        · refine List.mem_cons_of_mem _ (ih h ?_)
          rw [Finset.mem_insert, not_or]
          exact ⟨heq, hseen⟩

variable (migrationId) in
/-- What is seen in the end: what was seen, and the pending statements, each once. -/
theorem pending_seen (registered : List String) (seen : Finset ι) :
    ((pending migrationId registered seen).1.map migrationId).Nodup ∧
      (pending migrationId registered seen).2.card =
        seen.card + (pending migrationId registered seen).1.length := by
  induction registered generalizing seen with
  | nil => exact ⟨List.nodup_nil, rfl⟩
  | cons t registered ih =>
    rw [pending]
    split
    · exact ih seen
    · next ht =>
      obtain ⟨hnodup, hcard⟩ := ih (insert (migrationId t) seen)
      dsimp only
      refine ⟨?_, ?_⟩
      · rw [List.map_cons, List.nodup_cons]
        refine ⟨fun hmem ↦ ?_, hnodup⟩
        obtain ⟨s, hs, heq⟩ := List.mem_map.mp hmem
        exact (of_mem_pending hs).2 (heq ▸ Finset.mem_insert_self _ _)
      · rw [hcard, Finset.card_insert_of_notMem ht, List.length_cons]
        omega

/-- The pending statements come in the order in which they were registered first. -/
theorem pending_order (registered : List String) (seen : Finset ι) :
    (pending migrationId registered seen).1.Pairwise fun s t ↦
      registered.idxOf s < registered.idxOf t := by
  induction registered generalizing seen with
  | nil => exact List.Pairwise.nil
  | cons u registered ih =>
    have hshift {seen' : Finset ι} (hu : migrationId u ∈ seen') :
        (pending migrationId registered seen').1.Pairwise fun s t ↦
          (u :: registered).idxOf s < (u :: registered).idxOf t := by
      apply (ih seen').imp_of_mem
      intro s t hs ht hlt
      have hne {s : String} (hs : s ∈ (pending migrationId registered seen').1) : u ≠ s := by
        rintro rfl
        exact (of_mem_pending hs).2 hu
      rw [List.idxOf_cons_ne _ (hne hs), List.idxOf_cons_ne _ (hne ht)]
      exact Nat.succ_lt_succ hlt
    rw [pending]
    split
    · next hu => exact hshift hu
    · next hu =>
      refine List.Pairwise.cons ?_ (hshift (Finset.mem_insert_self _ _))
      intro s hs
      have hne : u ≠ s := by
        rintro rfl
        exact (of_mem_pending hs).2 (Finset.mem_insert_self _ _)
      rw [List.idxOf_cons_self, List.idxOf_cons_ne _ hne]
      exact Nat.succ_pos _

/-! ## The transaction -/

/-- A row is inserted where its id is not there. -/
theorem insert_eq_some {db db' : Db σ ι} {id : ι} (h : db.insert id = some db') :
    db'.ids = db.ids ++ [id] ∧ db'.schema = db.schema := by
  obtain ⟨table, htable, rfl⟩ := Option.map_eq_some_iff.mp h
  unfold Migrations.insert at htable
  split at htable
  · cases htable
  · cases htable
    exact ⟨rfl, rfl⟩

/-- The key is there where a row is not inserted. -/
theorem mem_ids_of_insert {db : Db σ ι} {id : ι} (h : db.insert id = none) : id ∈ db.ids := by
  rw [Db.insert, Option.map_eq_none_iff] at h
  unfold Migrations.insert at h
  split at h
  · next hmem => exact hmem
  · cases h

variable (exec migrationId) in
/-- The statements of a batch are executed in their order. -/
theorem executed_batch (fails : Op → Bool) (statements : List String) (db : Db σ ι) :
    (batch exec migrationId fails statements db).2 <+: statements := by
  induction statements generalizing db with
  | nil => exact List.prefix_refl []
  | cons s statements ih =>
    rw [batch]
    split
    · exact List.nil_prefix
    · split
      · exact List.nil_prefix
      · split
        · exact List.prefix_append [s] statements
        · split
          · exact List.prefix_append [s] statements
          · exact (List.prefix_cons_inj s).mpr (ih _)

/-- A batch that ends has executed its statements and inserted their ids. -/
theorem batch_eq_some {fails : Op → Bool} {statements executed : List String} {db db' : Db σ ι}
    (h : batch exec migrationId fails statements db = (some db', executed)) :
    executed = statements ∧ db'.ids = db.ids ++ statements.map migrationId ∧
      statements.foldlM (fun schema s ↦ exec s schema) db.schema = some db'.schema := by
  induction statements generalizing db executed with
  | nil =>
    cases h
    exact ⟨rfl, (List.append_nil _).symm, rfl⟩
  | cons s statements ih =>
    rw [batch] at h
    split at h
    · cases h
    · split at h
      · cases h
      · next schema hschema =>
        split at h
        · cases h
        · split at h
          · cases h
          · next db'' hinsert =>
            obtain ⟨hids, hschema'⟩ := insert_eq_some hinsert
            cases hbatch : batch exec migrationId fails statements db'' with
            | mk result executed' =>
              rw [hbatch] at h
              cases h
              obtain ⟨rfl, hids', hfold⟩ := ih hbatch
              refine ⟨rfl, ?_, ?_⟩
              · rw [hids', hids, List.map_cons, List.append_assoc,
                  List.singleton_append]
                rfl
              · rw [List.foldlM_cons, hschema, ← hfold, hschema']
                rfl

/-! ## One connect -/

/-- The statements a connect finds pending. -/
def Connect.pending (migrationId : String → ι) (c : Connect) (db : Db σ ι) : List String :=
  (Storage.pending migrationId c.registered db.ids.toFinset).1

/-- A connect that applies nothing. -/
structure Outcome.Idle (migrationId : String → ι) (c : Connect) (db : Db σ ι)
    (o : Outcome σ ι) : Prop where
  applied : o.applied = []
  same : db.Same o.after
  executed : o.executed <+: c.pending migrationId db
  done : o.ending = .returned → c.connected = false → c.pending migrationId db = []

/-- A connect that applies all that is pending. -/
structure Outcome.Full (exec : String → σ → Option σ) (migrationId : String → ι) (c : Connect)
    (db : Db σ ι) (o : Outcome σ ι) : Prop where
  ending : o.ending ≠ .raised
  pending : c.pending migrationId db ≠ []
  applied : o.applied = c.pending migrationId db
  executed : o.executed = c.pending migrationId db
  ids : o.after.ids = db.ids ++ (c.pending migrationId db).map migrationId
  userVersion : o.after.userVersion = db.ids.length + (c.pending migrationId db).length
  schema : (c.pending migrationId db).foldlM (fun schema s ↦ exec s schema) db.schema =
    some o.after.schema

variable (exec migrationId) in
/-- The worker applies nothing, or all that is pending. -/
theorem connectSync_cases (c : Connect) (db : Db σ ι) :
    (connectSync exec migrationId c db).Idle migrationId c db ∨
      (connectSync exec migrationId c db).Full exec migrationId c db := by
  have hidle (db' : Db σ ι) (executed : List String) (hsame : db.Same db')
      (hexecuted : executed <+: c.pending migrationId db) :
      (⟨.raised, executed, [], db'⟩ : Outcome σ ι).Idle migrationId c db :=
    ⟨rfl, hsame, hexecuted, fun h ↦ by cases h⟩
  have hwas {db' : Option (Db σ ι)} {executed : List String}
      (hbatch : batch exec migrationId c.fails (c.pending migrationId db)
        db.createKv.createMigrations = (db', executed)) :
      executed <+: c.pending migrationId db := by
    have hexecuted := executed_batch exec migrationId c.fails (c.pending migrationId db)
      db.createKv.createMigrations
    rwa [hbatch] at hexecuted
  unfold connectSync
  split
  · exact .inl (hidle db [] (.inl rfl) List.nil_prefix)
  · dsimp only
    split
    · exact .inl (hidle _ [] (.inr (.inl rfl)) List.nil_prefix)
    · split
      · exact .inl (hidle _ [] (.inr (.inr rfl)) List.nil_prefix)
      · have hsame : db.Same db.createKv.createMigrations := .inr (.inr rfl)
        split
        · next hnone => exact .inl ⟨rfl, hsame, List.nil_prefix, fun _ _ ↦ hnone⟩
        · next hsome =>
          split
          · exact .inl (hidle _ [] hsame List.nil_prefix)
          · split
            · next hbatch => exact .inl (hidle _ _ hsame (hwas hbatch))
            · next hbatch =>
              split
              · exact .inl (hidle _ _ hsame (hwas hbatch))
              · obtain ⟨hall, hids, hschema⟩ := batch_eq_some hbatch
                obtain ⟨_, hcard⟩ := pending_seen migrationId c.registered db.ids.toFinset
                rw [List.toFinset_card_of_nodup db.ids_nodup] at hcard
                exact .inr ⟨(fun h ↦ by cases h), hsome, rfl, hall, hids, hcard, hschema⟩

variable (exec migrationId) in
/-- A connect applies nothing, or all that is pending. -/
theorem connect_cases (c : Connect) (db : Db σ ι) :
    (connect exec migrationId c db).Idle migrationId c db ∨
      (connect exec migrationId c db).Full exec migrationId c db := by
  unfold connect
  split
  · next hconnected =>
    refine .inl ⟨rfl, .inl rfl, List.nil_prefix, fun _ h ↦ ?_⟩
    rw [hconnected] at h
    cases h
  · dsimp only
    split
    · rcases connectSync_cases exec migrationId c db with h | h
      · exact .inl ⟨h.applied, h.same, h.executed, fun hending ↦ by cases hending⟩
      · exact .inr ⟨(fun hending ↦ by cases hending), h.pending, h.applied, h.executed, h.ids,
          h.userVersion, h.schema⟩
    · exact connectSync_cases exec migrationId c db

/-! ## A history of connects -/

/-- A connect of a history: the statements applied before it, and how it ends. -/
structure Entry (σ : Type u) (ι : Type v) where
  past : List String
  before : Db σ ι
  call : Connect
  outcome : Outcome σ ι

variable (exec migrationId) in
/-- Connects on one file, one after the other. -/
def history (past : List String) (db : Db σ ι) : List Connect → List (Entry σ ι)
  | [] => []
  | c :: calls =>
    let o := connect exec migrationId c db
    ⟨past, db, c, o⟩ :: history (past ++ o.applied) o.after calls

/-- A file that no connect has seen. -/
def newDb (schema : σ) (kv : Bool) (userVersion : ℕ) : Db σ ι := ⟨schema, kv, none, userVersion⟩

/-- What is to hold of a connect. -/
structure Entry.Sound (exec : String → σ → Option σ) (e : Entry σ ι) : Prop where
  /-- No statement is executed that has been applied, none twice, and all in the order of their
  first registration. -/
  fresh : ∀ s ∈ e.outcome.executed, s ∈ e.call.registered ∧ s ∉ e.past
  order : e.outcome.executed.Pairwise fun s t ↦
    e.call.registered.idxOf s < e.call.registered.idxOf t
  /-- What is applied is what is executed, and that is all that is pending, however the call ends:
  a connect that applies anything applies all, and so does one that returns. -/
  applied : e.outcome.applied ≠ [] → e.outcome.applied = e.outcome.executed
  pending : e.outcome.applied ≠ [] ∨ e.outcome.ending = .returned ∧ e.call.connected = false →
    ∀ s, s ∈ e.outcome.applied ↔ s ∈ e.call.registered ∧ s ∉ e.past
  schema : e.outcome.applied.foldlM (fun schema s ↦ exec s schema) e.before.schema =
    some e.outcome.after.schema
  /-- A connect that raises applies nothing, and one that applies nothing leaves all as it was, but
  for the two tables it creates first. -/
  raised : e.outcome.ending = .raised → e.outcome.applied = []
  same : e.outcome.applied = [] → e.before.Same e.outcome.after
  version : e.outcome.applied ≠ [] → e.outcome.after.userVersion = e.outcome.after.ids.length

/-- The pending statements are those that no connect has applied. -/
theorem mem_pending_iff (hid : Function.Injective migrationId) {past : List String}
    {db : Db σ ι} (hpast : db.ids = past.map migrationId) (c : Connect) (s : String) :
    s ∈ c.pending migrationId db ↔ s ∈ c.registered ∧ s ∉ past := by
  have hseen : migrationId s ∈ db.ids.toFinset ↔ s ∈ past := by
    rw [List.mem_toFinset, hpast, List.mem_map_of_injective hid]
  constructor
  · intro h
    obtain ⟨hmem, hnot⟩ := of_mem_pending h
    exact ⟨hmem, mt hseen.mpr hnot⟩
  · rintro ⟨hmem, hnot⟩
    have hids := mem_pending hmem (mt hseen.mp hnot)
    rwa [List.mem_map_of_injective hid] at hids

variable (exec) in
theorem Entry.sound (hid : Function.Injective migrationId) {past : List String} {db : Db σ ι}
    (hpast : db.ids = past.map migrationId) (c : Connect) :
    (⟨past, db, c, connect exec migrationId c db⟩ : Entry σ ι).Sound exec ∧
      (connect exec migrationId c db).after.ids =
        (past ++ (connect exec migrationId c db).applied).map migrationId := by
  have hmem := mem_pending_iff hid hpast c
  have horder : (c.pending migrationId db).Pairwise fun s t ↦
      c.registered.idxOf s < c.registered.idxOf t := pending_order ..
  rcases connect_cases exec migrationId c db with h | h
  · obtain ⟨hschema, hids, _⟩ := h.same.spec
    refine ⟨⟨fun s hs ↦ (hmem s).mp (h.executed.subset hs),
      horder.sublist h.executed.sublist, fun hne ↦ absurd h.applied hne, ?_, ?_,
      fun _ ↦ h.applied, fun _ ↦ h.same, fun hne ↦ absurd h.applied hne⟩, ?_⟩
    · rintro (hne | ⟨hreturned, hconnected⟩) s
      · exact absurd h.applied hne
      · dsimp only
        rw [h.applied, ← hmem, h.done hreturned hconnected]
    · dsimp only
      rw [h.applied, hschema]
      rfl
    · rw [hids, hpast, h.applied, List.append_nil]
  · refine ⟨⟨fun s hs ↦ (hmem s).mp (h.executed ▸ hs), h.executed ▸ horder,
      fun _ ↦ h.applied.trans h.executed.symm, fun _ s ↦ ?_, ?_,
      fun hraised ↦ absurd hraised h.ending, fun hnone ↦ ?_, fun _ ↦ ?_⟩, ?_⟩
    · rw [← hmem]
      dsimp only
      rw [h.applied]
    · dsimp only
      rw [h.applied]
      exact h.schema
    · exact absurd (h.applied.symm.trans hnone) h.pending
    · dsimp only
      rw [h.userVersion, h.ids, List.length_append, List.length_map]
    · rw [h.ids, hpast, h.applied, List.map_append]

/-- Every connect of a history is sound, and no statement takes effect twice. -/
theorem history_sound (hid : Function.Injective migrationId) (calls : List Connect)
    {past : List String} {db : Db σ ι} (hpast : db.ids = past.map migrationId) :
    (∀ e ∈ history exec migrationId past db calls, e.Sound exec) ∧
      (past ++ (history exec migrationId past db calls).flatMap (·.outcome.applied)).Nodup := by
  induction calls generalizing past db with
  | nil =>
    refine ⟨fun e he ↦ absurd he List.not_mem_nil, ?_⟩
    have hnodup := db.ids_nodup
    rw [hpast] at hnodup
    rw [history, List.flatMap_nil, List.append_nil]
    exact hnodup.of_map _
  | cons c calls ih =>
    obtain ⟨hsound, hids⟩ := Entry.sound exec hid hpast c
    obtain ⟨hrest, hnodup⟩ := ih hids
    constructor
    · intro e he
      rcases List.mem_cons.mp he with rfl | he
      · exact hsound
      · exact hrest e he
    · rw [history, List.flatMap_cons, ← List.append_assoc]
      exact hnodup

variable (exec) in
/-- Over a whole history of connects on one file, no statement takes effect twice, and every
connect is sound. -/
theorem migrations_applied_once (hid : Function.Injective migrationId) (schema : σ) (kv : Bool)
    (userVersion : ℕ) (calls : List Connect) :
    ((history exec migrationId [] (newDb schema kv userVersion) calls).flatMap
        (·.outcome.applied)).Nodup ∧
      ∀ e ∈ history exec migrationId [] (newDb schema kv userVersion) calls, e.Sound exec := by
  obtain ⟨hsound, hnodup⟩ := history_sound hid calls
    (show (newDb schema kv userVersion : Db σ ι).ids = [].map migrationId from rfl)
  exact ⟨hnodup, hsound⟩

end Connect

/-- Tables as names: a table cannot be created twice, and an empty name is no SQL. -/
def createTable (s : String) (tables : List String) : Option (List String) :=
  if s ∈ tables ∨ s = "" then none else some (tables ++ [s])

/-- A batch fails at its second statement, and is tried again with another one. -/
def retry : List Connect :=
  [⟨false, false, ["a", ""], fun _ ↦ false⟩, ⟨false, false, ["a", "b"], fun _ ↦ false⟩]

theorem migrations_applied_once_of_retry :
    ((history createTable id [] (newDb [] false 0) retry).flatMap (·.outcome.applied)).Nodup ∧
      ∀ e ∈ history createTable id [] (newDb [] false 0) retry, e.Sound createTable :=
  migrations_applied_once createTable Function.injective_id [] false 0 retry

/-- The first statement is executed twice, and the connect that fails leaves two tables. -/
theorem failed_batch_executed_again :
    (history createTable id [] (newDb [] false 0) retry).map
        (fun e ↦ (e.outcome.ending, e.outcome.executed)) =
          [(.raised, ["a"]), (.returned, ["a", "b"])] ∧
      (history createTable id [] (newDb [] false 0) retry).map
        (fun e ↦ (e.before.kv, e.before.migrations.isSome)) = [(false, false), (true, true)] := by
  decide +kernel

end TgMessenger.Storage
