import TgMessenger.Storage.Migrations
import TgMessenger.Data.Machine
import Mathlib.Data.List.Count

/-!
# Connects of several processes

The statements of connects on one file interleave.  SQLite lets one transaction write at a time,
and a statement that would write waits for its end.  A connect reads which statements have been
applied before it begins its transaction, and the transaction takes its lock with its first
statement.

`PRAGMA journal_mode=WAL` does not wait: on a file in another mode it has read the header, under a
shared lock, before it asks for the reserved lock, and of two connects that have done so one is
refused, since neither could ever have the file to itself.
-/

universe u v

namespace TgMessenger.Storage

variable {σ : Type u} {ι : Type v}

/-- Where a connect is: the call it makes next, with what it has read. -/
inductive Phase (σ : Type u) (ι : Type v) where
  | opens
  /-- It has read that the file is not in WAL mode, under a shared lock. -/
  | converts
  /-- It holds the reserved lock too. -/
  | reserves
  /-- It lets no other connect read the file, and waits for those that do. -/
  | pends
  | createsKv
  | createsMigrations
  | selects
  | begins (applied : Finset ι)
  /-- The transaction has begun, and has no lock yet. -/
  | waits (applied : Finset ι)
  /-- The statements that are left, and the file as the transaction has it. -/
  | executes (applied : Finset ι) (rest : List String) (txn : Db σ ι)
  | inserts (applied : Finset ι) (s : String) (rest : List String) (txn : Db σ ι)
  | commits (applied : Finset ι) (txn : Db σ ι)
  | returned
  | raised

/-- A connect whose transaction holds the lock. -/
def Phase.writes : Phase σ ι → Bool
  | .executes .. | .inserts .. | .commits .. => true
  | _ => false

/-- A connect that has opened the file. -/
def Phase.isOpen : Phase σ ι → Bool
  | .opens | .converts | .reserves | .pends => false
  | _ => true

/-- The connect that is to have the file to itself. -/
def Phase.isPending : Phase σ ι → Bool
  | .pends => true
  | _ => false

/-- The journal mode of a file, and the locks of the connects that change it. -/
structure Journal where
  /-- The file is in WAL mode. -/
  wal : Bool
  /-- The processes with a shared lock. -/
  shared : List ℕ
  /-- The process with the reserved lock. -/
  reserved : Option ℕ

/-- A file, and the connects of the processes that open it. -/
structure Processes (σ : Type u) (ι : Type v) where
  db : Db σ ι
  journal : Journal
  /-- The process whose transaction holds the lock. -/
  writer : Option ℕ
  phase : ℕ → Phase σ ι
  /-- The statements of the transactions that were committed. -/
  applied : List String

namespace Processes

/-- Every connect is to come, on a file in WAL mode or not. -/
def init (wal : Bool) (db : Db σ ι) : Processes σ ι :=
  ⟨db, ⟨wal, [], none⟩, none, fun _ ↦ .opens, []⟩

/-- A connect goes on. -/
def goTo (w : Processes σ ι) (p : ℕ) (phase : Phase σ ι) : Processes σ ι :=
  { w with phase := fun q ↦ if q = p then phase else w.phase q }

/-- A connect has the file to itself, and changes its mode. -/
def convert (w : Processes σ ι) (p : ℕ) : Processes σ ι :=
  { w.goTo p .createsKv with journal := ⟨true, [], none⟩ }

/-- `conn.rollback()`. -/
def rollback (w : Processes σ ι) (p : ℕ) : Processes σ ι :=
  { w.goTo p .raised with writer := none }

@[simp] theorem goTo_phase_self (w : Processes σ ι) (p : ℕ) (phase : Phase σ ι) :
    (w.goTo p phase).phase p = phase := if_pos rfl

theorem goTo_phase_of_ne (w : Processes σ ι) {p q : ℕ} (h : q ≠ p) (phase : Phase σ ι) :
    (w.goTo p phase).phase q = w.phase q := if_neg h

variable [DecidableEq ι] (exec : String → σ → Option σ) (migrationId : String → ι)
  (registered : List String)

/-- The next call of a process; `none` while it waits for a lock, and when it has ended. -/
def step : Machine (Processes σ ι) ℕ := fun w p ↦
  match w.phase p with
  | .opens =>
    if w.journal.wal then some (w.goTo p .createsKv)
    else if w.journal.reserved.any fun q ↦ (w.phase q).isPending then none
    else some { w.goTo p .converts with
      journal := { w.journal with shared := p :: w.journal.shared } }
  | .converts =>
    -- `database is locked`, at once: a connect that reads may not wait to write
    if w.journal.reserved.isSome then
      some { w.goTo p .raised with
        journal := { w.journal with shared := w.journal.shared.erase p } }
    else some { w.goTo p .reserves with journal := { w.journal with reserved := some p } }
  | .reserves => if w.journal.shared = [p] then some (w.convert p) else some (w.goTo p .pends)
  | .pends => if w.journal.shared = [p] then some (w.convert p) else none
  | .createsKv =>
    if w.db.kv then some (w.goTo p .createsMigrations)
    else if w.writer = none then some { w.goTo p .createsMigrations with db := w.db.createKv }
    else none
  | .createsMigrations =>
    if w.db.migrations.isSome then some (w.goTo p .selects)
    else if w.writer = none then some { w.goTo p .selects with db := w.db.createMigrations }
    else none
  | .selects =>
    let applied := w.db.ids.toFinset
    if (pending migrationId registered applied).1 = [] then some (w.goTo p .returned)
    else some (w.goTo p (.begins applied))
  | .begins applied => some (w.goTo p (.waits applied))
  | .waits applied =>
    if w.writer = none then
      some { w.goTo p (.executes applied (pending migrationId registered applied).1 w.db) with
        writer := some p }
    else none
  | .executes applied [] txn =>
    let userVersion := (pending migrationId registered applied).2.card
    some (w.goTo p (.commits applied { txn with userVersion }))
  | .executes applied (s :: rest) txn =>
    match exec s txn.schema with
    | none => some (w.rollback p)
    | some schema => some (w.goTo p (.inserts applied s rest { txn with schema }))
  | .inserts applied s rest txn =>
    match txn.insert (migrationId s) with
    | none => some (w.rollback p)
    | some txn => some (w.goTo p (.executes applied rest txn))
  | .commits applied txn =>
    some { w.goTo p .returned with
      db := txn, writer := none
      applied := w.applied ++ (pending migrationId registered applied).1 }
  | .returned | .raised => none

/-- A connect opens a file that is not in WAL mode while no other one changes its mode, and a
transaction takes the lock when nothing has been committed since its connect has read which
statements are applied. -/
def Current (w : Processes σ ι) (p : ℕ) : Prop :=
  match w.phase p with
  | .opens => w.journal.wal = true ∨ w.journal.shared = []
  | .waits applied => w.db.ids.toFinset = applied
  | _ => True

instance (w : Processes σ ι) (p : ℕ) : Decidable (w.Current p) :=
  match h : w.phase p with
  | .opens => decidable_of_iff (w.journal.wal = true ∨ w.journal.shared = []) (by rw [Current, h])
  | .waits applied => decidable_of_iff (w.db.ids.toFinset = applied) (by rw [Current, h])
  | .converts | .reserves | .pends | .createsKv | .createsMigrations | .selects | .begins _
  | .executes .. | .inserts .. | .commits .. | .returned | .raised =>
    .isTrue (by rw [Current, h]; trivial)

/-! ## One connect changes the mode of the file -/

/-- Where a connect may be: it is the only one that changes the mode of the file. -/
def Solitary (journal : Journal) (p : ℕ) : Phase σ ι → Prop
  | .converts => journal.shared = [p] ∧ journal.reserved = none
  | .reserves => journal.shared = [p] ∧ journal.reserved = some p
  | .pends => False
  | _ => p ∉ journal.shared ∧ journal.reserved ≠ some p

/-- Every connect is the only one that changes the mode of the file, if it does. -/
def Alone (w : Processes σ ι) : Prop := ∀ p, Solitary w.journal p (w.phase p)

/-! ## Every connect applies the same statements -/

variable {exec migrationId registered} {db₀ : Db σ ι}

variable (migrationId registered db₀) in
/-- The statements that are pending at first. -/
def work : List String := (pending migrationId registered db₀.ids.toFinset).1

variable (exec migrationId registered db₀) in
/-- Where a connect may be: its transaction is the only one, and it finds nothing applied of what
it applies. -/
def Located (writer : Option ℕ) (applied : List String) (p : ℕ) : Phase σ ι → Prop
  | .opens | .converts | .reserves | .pends | .createsKv | .createsMigrations | .selects => True
  | .begins seen | .waits seen => seen = db₀.ids.toFinset ∧ work migrationId registered db₀ ≠ []
  | .executes seen rest txn =>
    writer = some p ∧ applied = [] ∧ seen = db₀.ids.toFinset ∧
      (∃ before, work migrationId registered db₀ = before ++ rest ∧
        txn.ids = db₀.ids ++ before.map migrationId) ∧
      (rest.foldlM (fun schema s ↦ exec s schema) txn.schema).isSome
  | .inserts seen s rest txn =>
    writer = some p ∧ applied = [] ∧ seen = db₀.ids.toFinset ∧
      (∃ before, work migrationId registered db₀ = before ++ s :: rest ∧
        txn.ids = db₀.ids ++ before.map migrationId) ∧
      (rest.foldlM (fun schema s ↦ exec s schema) txn.schema).isSome
  | .commits seen txn =>
    writer = some p ∧ applied = [] ∧ seen = db₀.ids.toFinset ∧
      txn.ids = db₀.ids ++ (work migrationId registered db₀).map migrationId
  | .returned => applied = work migrationId registered db₀
  | .raised => False

variable (migrationId registered db₀) in
/-- Nothing is applied, or all of it. -/
def AllOrNone (db : Db σ ι) (applied : List String) : Prop :=
  (applied = [] ∧ db.ids = db₀.ids ∧ db.schema = db₀.schema) ∨
    (applied = work migrationId registered db₀ ∧
      db.ids = db₀.ids ++ (work migrationId registered db₀).map migrationId)

variable (exec migrationId registered db₀) in
/-- The invariant of the runs whose transactions are current. -/
structure Orderly (w : Processes σ ι) : Prop where
  file : AllOrNone migrationId registered db₀ w.db w.applied
  located : ∀ p, Located exec migrationId registered db₀ w.writer w.applied p (w.phase p)

/-- Only a transaction depends on who holds the lock. -/
theorem Located.other {writer writer' : Option ℕ} {applied : List String} {q : ℕ}
    {phase : Phase σ ι}
    (h : Located exec migrationId registered db₀ writer applied q phase) (hne : writer ≠ some q) :
    Located exec migrationId registered db₀ writer' applied q phase := by
  cases phase with
  | executes seen rest txn => exact absurd h.1 hne
  | inserts seen s rest txn => exact absurd h.1 hne
  | commits seen txn => exact absurd h.1 hne
  | _ => exact h

variable (migrationId registered db₀) in
/-- The ids of the work are new. -/
theorem work_new : (db₀.ids ++ (work migrationId registered db₀).map migrationId).Nodup := by
  rw [List.nodup_append']
  refine ⟨db₀.ids_nodup, (pending_seen ..).1, ?_⟩
  intro id hid hwork
  obtain ⟨s, hs, rfl⟩ := List.mem_map.mp hwork
  exact (of_mem_pending hs).2 (List.mem_toFinset.mpr hid)

/-- After the work every registered statement is applied. -/
theorem mem_ids_of_work {s : String} (hs : s ∈ registered) :
    migrationId s ∈ db₀.ids ++ (work migrationId registered db₀).map migrationId := by
  rw [List.mem_append]
  by_cases hid : migrationId s ∈ db₀.ids
  · exact .inl hid
  · exact .inr (mem_pending hs (mt List.mem_toFinset.mp hid))

/-- What a connect finds pending: the work, until it is done. -/
theorem AllOrNone.pending {db : Db σ ι} {applied : List String}
    (h : AllOrNone migrationId registered db₀ db applied) :
    ((pending migrationId registered db.ids.toFinset).1 = [] →
        applied = work migrationId registered db₀) ∧
      ((pending migrationId registered db.ids.toFinset).1 ≠ [] →
        db.ids.toFinset = db₀.ids.toFinset ∧ work migrationId registered db₀ ≠ []) := by
  rcases h with ⟨rfl, hids, _⟩ | ⟨happlied, hids⟩
  · rw [hids]
    exact ⟨fun hnil ↦ hnil.symm, fun hne ↦ ⟨rfl, hne⟩⟩
  · refine ⟨fun _ ↦ happlied, fun hne ↦ absurd ?_ hne⟩
    rw [List.eq_nil_iff_forall_not_mem]
    intro s hs
    obtain ⟨hmem, hseen⟩ := of_mem_pending hs
    rw [hids, List.mem_toFinset] at hseen
    exact hseen (mem_ids_of_work hmem)

/-- While there is work and the file is as it was read, the work is to be done. -/
theorem AllOrNone.of_current {db : Db σ ι} {applied : List String}
    (h : AllOrNone migrationId registered db₀ db applied)
    (hids : db.ids.toFinset = db₀.ids.toFinset) (hne : work migrationId registered db₀ ≠ []) :
    applied = [] ∧ db.ids = db₀.ids ∧ db.schema = db₀.schema := by
  rcases h with h | ⟨_, hids'⟩
  · exact h
  · obtain ⟨s, rest, hwork⟩ := List.exists_cons_of_ne_nil hne
    have hs : s ∈ work migrationId registered db₀ := hwork ▸ List.mem_cons_self
    have hmem : migrationId s ∈ db.ids.toFinset := by
      rw [hids', List.mem_toFinset]
      exact List.mem_append_right _ (List.mem_map_of_mem hs)
    rw [hids] at hmem
    exact absurd hmem (of_mem_pending hs).2

theorem Orderly.init (wal : Bool) :
    Orderly exec migrationId registered db₀ (init wal db₀) where
  file := .inl ⟨rfl, rfl, rfl⟩
  located _ := trivial

/-- A connect goes on, and the file keeps its ids and its schema. -/
theorem Orderly.goTo {w : Processes σ ι} (h : Orderly exec migrationId registered db₀ w) {p : ℕ}
    {phase : Phase σ ι} {db : Db σ ι} {journal : Journal} (hids : db.ids = w.db.ids)
    (hschema : db.schema = w.db.schema)
    (hphase : Located exec migrationId registered db₀ w.writer w.applied p phase) :
    Orderly exec migrationId registered db₀ { w.goTo p phase with db, journal } where
  file := by
    rcases h.file with ⟨happlied, hids', hschema'⟩ | ⟨happlied, hids'⟩
    · exact .inl ⟨happlied, hids.trans hids', hschema.trans hschema'⟩
    · exact .inr ⟨happlied, hids.trans hids'⟩
  located q := by
    by_cases hq : q = p
    · rw [hq]
      dsimp only
      rw [goTo_phase_self]
      exact hphase
    · dsimp only
      rw [goTo_phase_of_ne w hq]
      exact h.located q

/-- A transaction takes the lock. -/
theorem Orderly.takes {w : Processes σ ι} (h : Orderly exec migrationId registered db₀ w) {p : ℕ}
    {phase : Phase σ ι} (hfree : w.writer = none)
    (hphase : Located exec migrationId registered db₀ (some p) w.applied p phase) :
    Orderly exec migrationId registered db₀ { w.goTo p phase with writer := some p } where
  file := h.file
  located q := by
    by_cases hq : q = p
    · rw [hq]
      dsimp only
      rw [goTo_phase_self]
      exact hphase
    · dsimp only
      rw [goTo_phase_of_ne w hq]
      refine (h.located q).other ?_
      rw [hfree]
      exact Option.some_ne_none q |>.symm

/-- A transaction commits the work. -/
theorem Orderly.commits {w : Processes σ ι} (h : Orderly exec migrationId registered db₀ w)
    {p : ℕ} {txn : Db σ ι} (hwriter : w.writer = some p) (happlied : w.applied = [])
    (hids : txn.ids = db₀.ids ++ (work migrationId registered db₀).map migrationId) :
    Orderly exec migrationId registered db₀ { w.goTo p .returned with
      db := txn, writer := none
      applied := w.applied ++ work migrationId registered db₀ } where
  file := .inr ⟨by rw [happlied, List.nil_append], hids⟩
  located q := by
    by_cases hq : q = p
    · rw [hq]
      dsimp only
      rw [goTo_phase_self, happlied]
      rfl
    · dsimp only
      rw [goTo_phase_of_ne w hq]
      have hne : w.writer ≠ some q := by
        rw [hwriter]
        exact fun heq ↦ hq (Option.some.inj heq).symm
      have hother : Located exec migrationId registered db₀ none w.applied q (w.phase q) :=
        (h.located q).other hne
      revert hother
      cases w.phase q with
      | returned =>
        intro _
        rw [happlied]
        rfl
      | executes seen rest txn => exact fun hother ↦ by cases hother.1
      | inserts seen s rest txn => exact fun hother ↦ by cases hother.1
      | commits seen txn => exact fun hother ↦ by cases hother.1
      | _ => exact id

/-- A connect opens the file: no other one refuses it. -/
theorem Orderly.opening {w w' : Processes σ ι} {p : ℕ}
    (h : Orderly exec migrationId registered db₀ w) (halone : w.Alone)
    (hopening : (w.phase p).isOpen = false)
    (hstep : w.step exec migrationId registered p = some w') :
    Orderly exec migrationId registered db₀ w' := by
  unfold Processes.step at hstep
  cases hphase : w.phase p with
  | opens =>
    rw [hphase] at hstep
    dsimp only at hstep
    split_ifs at hstep
    · cases hstep
      exact h.goTo rfl rfl trivial
    · cases hstep
      exact h.goTo rfl rfl trivial
  | converts =>
    have hfree := halone p
    rw [hphase] at hstep hfree
    dsimp only at hstep
    rw [hfree.2] at hstep
    cases hstep
    exact h.goTo rfl rfl trivial
  | reserves =>
    rw [hphase] at hstep
    dsimp only at hstep
    split_ifs at hstep
    · cases hstep
      exact h.goTo rfl rfl trivial
    · cases hstep
      exact h.goTo rfl rfl trivial
  | pends =>
    rw [hphase] at hstep
    dsimp only at hstep
    split_ifs at hstep
    cases hstep
    exact h.goTo rfl rfl trivial
  | _ =>
    rw [hphase] at hopening
    cases hopening

/-- The transaction of a connect goes on: no statement fails, and no id is there. -/
theorem Orderly.writing {w w' : Processes σ ι} {p : ℕ}
    (h : Orderly exec migrationId registered db₀ w) (hwrites : (w.phase p).writes = true)
    (hstep : w.step exec migrationId registered p = some w') :
    Orderly exec migrationId registered db₀ w' := by
  have hp := h.located p
  unfold Processes.step at hstep
  cases hphase : w.phase p with
  | executes seen rest txn =>
    rw [hphase] at hp hstep
    obtain ⟨hwriter, happlied, hseen, ⟨before, hwork, hids⟩, hrest⟩ := hp
    cases rest with
    | nil =>
      cases hstep
      rw [List.append_nil] at hwork
      exact h.goTo rfl rfl ⟨hwriter, happlied, hseen, hwork ▸ hids⟩
    | cons s rest =>
      dsimp only at hstep
      rw [List.foldlM_cons] at hrest
      split at hstep
      · next hnone =>
        rw [hnone] at hrest
        cases hrest
      · next schema hsome =>
        rw [hsome] at hrest
        cases hstep
        exact h.goTo rfl rfl ⟨hwriter, happlied, hseen, ⟨before, hwork, hids⟩, hrest⟩
  | inserts seen s rest txn =>
    rw [hphase] at hp hstep
    obtain ⟨hwriter, happlied, hseen, ⟨before, hwork, hids⟩, hrest⟩ := hp
    dsimp only at hstep
    split at hstep
    · next hnone =>
      have hmem := mem_ids_of_insert hnone
      have hnew := work_new migrationId registered db₀
      rw [hwork, List.map_append, List.map_cons, ← List.append_assoc, ← hids] at hnew
      exact absurd rfl ((List.nodup_append.mp hnew).2.2 _ hmem _ List.mem_cons_self)
    · next txn' hsome =>
      obtain ⟨hids', hschema⟩ := insert_eq_some hsome
      cases hstep
      refine h.goTo rfl rfl ⟨hwriter, happlied, hseen, ⟨before ++ [s], ?_, ?_⟩, hschema ▸ hrest⟩
      · rw [hwork, List.append_assoc, List.singleton_append]
      · rw [hids', hids, List.map_append, List.append_assoc]
        rfl
  | commits seen txn =>
    rw [hphase] at hp hstep
    obtain ⟨hwriter, happlied, rfl, hids⟩ := hp
    cases hstep
    exact h.commits hwriter happlied hids
  | _ =>
    rw [hphase] at hwrites
    cases hwrites

theorem Orderly.step (hvalid : ((work migrationId registered db₀).foldlM
      (fun schema s ↦ exec s schema) db₀.schema).isSome) {w w' : Processes σ ι} {p : ℕ}
    (h : Orderly exec migrationId registered db₀ w) (halone : w.Alone) (hcurrent : w.Current p)
    (hstep : w.step exec migrationId registered p = some w') :
    Orderly exec migrationId registered db₀ w' := by
  cases hphase : w.phase p with
  | opens | converts | reserves | pends =>
    exact h.opening halone (by rw [hphase]; rfl) hstep
  | executes | inserts | commits => exact h.writing (by rw [hphase]; rfl) hstep
  | createsKv | createsMigrations =>
    unfold Processes.step at hstep
    rw [hphase] at hstep
    dsimp only at hstep
    split_ifs at hstep
    · cases hstep
      exact h.goTo rfl rfl trivial
    · cases hstep
      exact h.goTo rfl rfl trivial
  | selects =>
    obtain ⟨hdone, htodo⟩ := h.file.pending
    unfold Processes.step at hstep
    rw [hphase] at hstep
    dsimp only at hstep
    split_ifs at hstep with hnil
    · cases hstep
      exact h.goTo rfl rfl (hdone hnil)
    · cases hstep
      exact h.goTo rfl rfl (htodo hnil)
  | begins seen =>
    have hp := h.located p
    unfold Processes.step at hstep
    rw [hphase] at hstep hp
    cases hstep
    exact h.goTo rfl rfl hp
  | waits seen =>
    have hp := h.located p
    unfold Current at hcurrent
    unfold Processes.step at hstep
    rw [hphase] at hstep hp hcurrent
    obtain ⟨rfl, hne⟩ := hp
    dsimp only at hstep
    split_ifs at hstep with hfree
    cases hstep
    obtain ⟨happlied, hids, hschema⟩ := h.file.of_current hcurrent hne
    exact h.takes hfree ⟨rfl, happlied, rfl, ⟨[], rfl, hids.trans (List.append_nil _).symm⟩,
      hschema ▸ hvalid⟩
  | returned | raised =>
    unfold Processes.step at hstep
    rw [hphase] at hstep
    cases hstep

/-! ## No connect goes on for ever -/

variable (migrationId) in
theorem length_pending_le (registered : List String) (seen : Finset ι) :
    (pending migrationId registered seen).1.length ≤ registered.length := by
  induction registered generalizing seen with
  | nil => exact le_refl _
  | cons s registered ih =>
    rw [pending]
    split
    · exact (ih seen).trans (Nat.le_succ _)
    · exact Nat.succ_le_succ (ih _)

/-- A bound on the calls a connect still makes. -/
def rank (n : ℕ) : Phase σ ι → ℕ
  | .opens => 2 * n + 11
  | .converts => 2 * n + 10
  | .reserves => 2 * n + 9
  | .pends => 2 * n + 8
  | .createsKv => 2 * n + 7
  | .createsMigrations => 2 * n + 6
  | .selects => 2 * n + 5
  | .begins _ => 2 * n + 4
  | .waits _ => 2 * n + 3
  | .executes _ rest _ => 2 * rest.length + 2
  | .inserts _ _ rest _ => 2 * rest.length + 3
  | .commits .. => 1
  | .returned | .raised => 0

/-- A call of a connect: it comes nearer to its end; it keeps the lock, takes it when it is free,
or lets it go; and once the file is open the mode is left alone. -/
structure Moves (n : ℕ) (w w' : Processes σ ι) (p : ℕ) (before after : Phase σ ι) : Prop where
  rank : rank n after < rank n before
  phase : w'.phase = (w.goTo p after).phase
  writer : (w'.writer = w.writer ∧ (before.writes → after.writes)) ∨
    (w'.writer = some p ∧ after.writes) ∨ w'.writer = none
  journal : before.isOpen → w'.journal = w.journal ∧ after.isOpen

/-- The connect opens the file. -/
theorem moves_of_opening {w w' : Processes σ ι} {p : ℕ} {before : Phase σ ι}
    (hphase : w.phase p = before) (hopening : before.isOpen = false)
    (hstep : w.step exec migrationId registered p = some w') :
    ∃ after, Moves registered.length w w' p before after := by
  unfold Processes.step at hstep
  cases before with
  | opens =>
    rw [hphase] at hstep
    dsimp only at hstep
    split_ifs at hstep
    · cases hstep
      exact ⟨.createsKv, by simp only [rank]; omega, rfl, .inl ⟨rfl, id⟩, nofun⟩
    · cases hstep
      exact ⟨.converts, Nat.lt_succ_self _, rfl, .inl ⟨rfl, id⟩, nofun⟩
  | converts =>
    rw [hphase] at hstep
    dsimp only at hstep
    split_ifs at hstep
    · cases hstep
      exact ⟨.raised, Nat.succ_pos _, rfl, .inl ⟨rfl, nofun⟩, nofun⟩
    · cases hstep
      exact ⟨.reserves, Nat.lt_succ_self _, rfl, .inl ⟨rfl, id⟩, nofun⟩
  | reserves =>
    rw [hphase] at hstep
    dsimp only at hstep
    split_ifs at hstep
    · cases hstep
      exact ⟨.createsKv, by simp only [rank]; omega, rfl, .inl ⟨rfl, id⟩, nofun⟩
    · cases hstep
      exact ⟨.pends, Nat.lt_succ_self _, rfl, .inl ⟨rfl, id⟩, nofun⟩
  | pends =>
    rw [hphase] at hstep
    dsimp only at hstep
    split_ifs at hstep
    cases hstep
    exact ⟨.createsKv, Nat.lt_succ_self _, rfl, .inl ⟨rfl, id⟩, nofun⟩
  | _ => cases hopening

/-- Its transaction has the lock. -/
theorem moves_of_writing {w w' : Processes σ ι} {p : ℕ} {before : Phase σ ι}
    (hphase : w.phase p = before) (hwrites : before.writes = true)
    (hstep : w.step exec migrationId registered p = some w') :
    ∃ after, Moves registered.length w w' p before after := by
  unfold Processes.step at hstep
  cases before with
  | executes seen rest txn =>
    rw [hphase] at hstep
    cases rest with
    | nil =>
      cases hstep
      exact ⟨.commits _ _, Nat.lt_succ_self _, rfl, .inl ⟨rfl, id⟩, fun _ ↦ ⟨rfl, rfl⟩⟩
    | cons s rest =>
      dsimp only at hstep
      split at hstep
      · cases hstep
        exact ⟨.raised, Nat.succ_pos _, rfl, .inr (.inr rfl), fun _ ↦ ⟨rfl, rfl⟩⟩
      · cases hstep
        exact ⟨.inserts seen s rest _, Nat.lt_succ_self _, rfl, .inl ⟨rfl, id⟩,
          fun _ ↦ ⟨rfl, rfl⟩⟩
  | inserts seen s rest txn =>
    rw [hphase] at hstep
    dsimp only at hstep
    split at hstep
    · cases hstep
      exact ⟨.raised, Nat.succ_pos _, rfl, .inr (.inr rfl), fun _ ↦ ⟨rfl, rfl⟩⟩
    · cases hstep
      exact ⟨.executes seen rest _, Nat.lt_succ_self _, rfl, .inl ⟨rfl, id⟩, fun _ ↦ ⟨rfl, rfl⟩⟩
  | commits seen txn =>
    rw [hphase] at hstep
    cases hstep
    exact ⟨.returned, Nat.succ_pos _, rfl, .inr (.inr rfl), fun _ ↦ ⟨rfl, rfl⟩⟩
  | _ => cases hwrites

theorem exists_moves {w w' : Processes σ ι} {p : ℕ}
    (hstep : w.step exec migrationId registered p = some w') :
    ∃ after, Moves registered.length w w' p (w.phase p) after := by
  cases hphase : w.phase p with
  | opens | converts | reserves | pends => exact moves_of_opening hphase rfl hstep
  | executes | inserts | commits => exact moves_of_writing hphase rfl hstep
  | createsKv =>
    unfold Processes.step at hstep
    rw [hphase] at hstep
    dsimp only at hstep
    split_ifs at hstep <;> cases hstep <;>
      exact ⟨.createsMigrations, Nat.lt_succ_self _, rfl, .inl ⟨rfl, id⟩, fun _ ↦ ⟨rfl, rfl⟩⟩
  | createsMigrations =>
    unfold Processes.step at hstep
    rw [hphase] at hstep
    dsimp only at hstep
    split_ifs at hstep <;> cases hstep <;>
      exact ⟨.selects, Nat.lt_succ_self _, rfl, .inl ⟨rfl, id⟩, fun _ ↦ ⟨rfl, rfl⟩⟩
  | selects =>
    unfold Processes.step at hstep
    rw [hphase] at hstep
    dsimp only at hstep
    split_ifs at hstep
    · cases hstep
      exact ⟨.returned, Nat.succ_pos _, rfl, .inl ⟨rfl, id⟩, fun _ ↦ ⟨rfl, rfl⟩⟩
    · cases hstep
      exact ⟨.begins _, Nat.lt_succ_self _, rfl, .inl ⟨rfl, id⟩, fun _ ↦ ⟨rfl, rfl⟩⟩
  | begins seen =>
    unfold Processes.step at hstep
    rw [hphase] at hstep
    cases hstep
    exact ⟨.waits seen, Nat.lt_succ_self _, rfl, .inl ⟨rfl, id⟩, fun _ ↦ ⟨rfl, rfl⟩⟩
  | waits seen =>
    unfold Processes.step at hstep
    rw [hphase] at hstep
    dsimp only at hstep
    split_ifs at hstep
    cases hstep
    have hlength := length_pending_le migrationId registered seen
    refine ⟨.executes seen _ w.db, ?_, rfl, .inr (.inl ⟨rfl, rfl⟩), fun _ ↦ ⟨rfl, rfl⟩⟩
    dsimp only [rank]
    omega
  | returned | raised =>
    unfold Processes.step at hstep
    rw [hphase] at hstep
    cases hstep

/-- A connect comes nearer to its end with every call, and the others stay where they are. -/
theorem nearer {w w' : Processes σ ι} {p : ℕ}
    (hstep : w.step exec migrationId registered p = some w') :
    rank registered.length (w'.phase p) < rank registered.length (w.phase p) ∧
      ∀ q, q ≠ p → w'.phase q = w.phase q := by
  obtain ⟨after, hrank, hphase, -, -⟩ := exists_moves hstep
  rw [hphase, goTo_phase_self]
  exact ⟨hrank, fun q hq ↦ goTo_phase_of_ne w hq after⟩

/-- The lock is held by a transaction. -/
def Held (w : Processes σ ι) : Prop := ∀ p, w.writer = some p → (w.phase p).writes

theorem Held.step {w w' : Processes σ ι} {p : ℕ} (h : w.Held)
    (hstep : w.step exec migrationId registered p = some w') : w'.Held := by
  obtain ⟨phase, _, hphase, hwriter, _⟩ := exists_moves hstep
  intro q hq
  rw [hphase]
  by_cases hqp : q = p
  · subst hqp
    rw [goTo_phase_self]
    rcases hwriter with ⟨hkeeps, hwrites⟩ | ⟨_, hwrites⟩ | hfree
    · exact hwrites (h q (hkeeps ▸ hq))
    · exact hwrites
    · rw [hfree] at hq
      cases hq
  · rw [goTo_phase_of_ne w hqp]
    rcases hwriter with ⟨hkeeps, _⟩ | ⟨htakes, _⟩ | hfree
    · exact h q (hkeeps ▸ hq)
    · rw [htakes] at hq
      exact absurd (Option.some.inj hq).symm hqp
    · rw [hfree] at hq
      cases hq

omit [DecidableEq ι] in
/-- A connect that does not change the mode does not notice that another one does. -/
theorem Solitary.other {journal journal' : Journal} {q : ℕ} {phase : Phase σ ι}
    (h : Solitary journal q phase) (hshared : journal.shared ≠ [q])
    (hfree : q ∉ journal'.shared ∧ journal'.reserved ≠ some q) : Solitary journal' q phase := by
  cases phase with
  | converts => exact absurd h.1 hshared
  | reserves => exact absurd h.1 hshared
  | pends => exact h
  | _ => exact hfree

omit [DecidableEq ι] in
theorem solitary_of_isOpen {journal : Journal} {p : ℕ} {phase : Phase σ ι} (h : phase.isOpen) :
    Solitary journal p phase ↔ p ∉ journal.shared ∧ journal.reserved ≠ some p := by
  cases phase with
  | opens | converts | reserves | pends => cases h
  | _ => exact Iff.rfl

omit [DecidableEq ι] in
theorem Alone.init (wal : Bool) (db : Db σ ι) : (init wal db).Alone :=
  fun _ ↦ ⟨List.not_mem_nil, nofun⟩

omit [DecidableEq ι] in
/-- A connect with the reserved lock has the shared lock too. -/
theorem Alone.reserved_eq_none {w : Processes σ ι} (h : w.Alone) (hshared : w.journal.shared = []) :
    w.journal.reserved = none := by
  cases hreserved : w.journal.reserved with
  | none => rfl
  | some q =>
    have hq := h q
    cases hphase : w.phase q with
    | converts | reserves =>
      rw [hphase] at hq
      cases hshared.symm.trans hq.1
    | pends =>
      rw [hphase] at hq
      exact hq.elim
    | _ =>
      rw [hphase] at hq
      exact absurd hreserved hq.2

omit [DecidableEq ι] in
/-- The connect that moves, and the others beside it. -/
theorem Alone.goTo {w : Processes σ ι} (h : w.Alone) {p : ℕ} {phase : Phase σ ι}
    {journal : Journal} (hp : Solitary journal p phase)
    (hothers : ∀ q, q ≠ p → Solitary w.journal q (w.phase q) → Solitary journal q (w.phase q)) :
    ({ w.goTo p phase with journal } : Processes σ ι).Alone := by
  intro q
  by_cases hq : q = p
  · rw [hq]
    dsimp only
    rw [goTo_phase_self]
    exact hp
  · dsimp only
    rw [goTo_phase_of_ne w hq]
    exact hothers q hq (h q)

theorem Alone.step {w w' : Processes σ ι} {p : ℕ} (h : w.Alone) (hcurrent : w.Current p)
    (hstep : w.step exec migrationId registered p = some w') : w'.Alone := by
  have hp := h p
  obtain ⟨phase, -, hphase', -, hopen⟩ := exists_moves hstep
  unfold Current at hcurrent
  unfold Processes.step at hstep
  cases hphase : w.phase p with
  | opens =>
    rw [hphase] at hstep hcurrent hp
    dsimp only at hstep hcurrent
    split_ifs at hstep with hwal
    · cases hstep
      exact h.goTo hp fun _ _ hq ↦ hq
    · cases hstep
      have hshared := hcurrent.resolve_left hwal
      have hreserved := h.reserved_eq_none hshared
      refine h.goTo ⟨congrArg (p :: ·) hshared, hreserved⟩ fun q hq hsolitary ↦ ?_
      refine hsolitary.other (by rw [hshared]; exact nofun) ⟨?_, ?_⟩
      · rw [hshared]
        exact fun hmem ↦ hq (List.mem_singleton.mp hmem)
      · rw [hreserved]
        exact nofun
  | converts =>
    rw [hphase] at hstep hp
    dsimp only at hstep
    rw [hp.2] at hstep
    cases hstep
    refine h.goTo ⟨hp.1, rfl⟩ fun q hq hsolitary ↦ ?_
    refine hsolitary.other ?_ ⟨?_, fun heq ↦ hq (Option.some.inj heq).symm⟩
    · rw [hp.1]
      exact fun heq ↦ hq (List.cons.inj heq).1.symm
    · rw [hp.1]
      exact fun hmem ↦ hq (List.mem_singleton.mp hmem)
  | reserves =>
    rw [hphase] at hstep hp
    dsimp only at hstep
    rw [if_pos hp.1] at hstep
    cases hstep
    refine h.goTo ⟨List.not_mem_nil, nofun⟩ fun q hq hsolitary ↦ ?_
    refine hsolitary.other ?_ ⟨List.not_mem_nil, nofun⟩
    rw [hp.1]
    exact fun heq ↦ hq (List.cons.inj heq).1.symm
  | pends =>
    rw [hphase] at hp
    exact hp.elim
  | _ =>
    have hisOpen : (w.phase p).isOpen := by rw [hphase]; rfl
    obtain ⟨hjournal, hisOpen'⟩ := hopen hisOpen
    intro q
    rw [hjournal, hphase']
    by_cases hq : q = p
    · rw [hq, goTo_phase_self]
      exact (solitary_of_isOpen hisOpen').mpr ((solitary_of_isOpen hisOpen).mp hp)
    · rw [goTo_phase_of_ne w hq]
      exact h q

/-- The connect whose transaction holds the lock can go on. -/
theorem Held.writer_goes_on {w : Processes σ ι} (h : w.Held) {q : ℕ} (hq : w.writer = some q) :
    (w.step exec migrationId registered q).isSome := by
  have hwrites := h q hq
  unfold Processes.step
  cases hphase : w.phase q with
  | executes seen rest txn =>
    cases rest with
    | nil => rfl
    | cons s rest =>
      dsimp only
      split <;> rfl
  | inserts seen s rest txn =>
    dsimp only
    split <;> rfl
  | commits seen txn => rfl
  | _ =>
    rw [hphase] at hwrites
    cases hwrites

omit [DecidableEq ι] in
/-- Nobody who changes the mode of the file waits for another. -/
theorem Alone.not_pending {w : Processes σ ι} (h : w.Alone) :
    (w.journal.reserved.any fun q ↦ (w.phase q).isPending) = false := by
  cases w.journal.reserved with
  | none => rfl
  | some q =>
    have hq := h q
    rw [Option.any_some]
    cases hphase : w.phase q with
    | pends =>
      rw [hphase] at hq
      exact hq.elim
    | _ => rfl

/-- A connect that has not ended can go on, or waits for one that can. -/
theorem goes_on {w : Processes σ ι} (hheld : w.Held) (halone : w.Alone) (p : ℕ) :
    w.phase p = .returned ∨ w.phase p = .raised ∨
      (w.step exec migrationId registered p).isSome ∨
      ∃ q, w.writer = some q ∧ (w.step exec migrationId registered q).isSome := by
  cases hfree : w.writer with
  | some q => exact .inr (.inr (.inr ⟨q, rfl, hheld.writer_goes_on hfree⟩))
  | none =>
    unfold Processes.step
    cases hphase : w.phase p with
    | returned => exact .inl rfl
    | raised => exact .inr (.inl rfl)
    | opens =>
      refine .inr (.inr (.inl ?_))
      dsimp only
      rw [halone.not_pending]
      split <;> rfl
    | pends =>
      have hp := halone p
      rw [hphase] at hp
      exact hp.elim
    | converts | reserves | createsKv | createsMigrations | selects =>
      refine .inr (.inr (.inl ?_))
      dsimp only
      split <;> rfl
    | waits seen =>
      refine .inr (.inr (.inl ?_))
      dsimp only
      rw [if_pos hfree]
      rfl
    | executes seen rest txn =>
      refine .inr (.inr (.inl ?_))
      cases rest with
      | nil => rfl
      | cons s rest =>
        dsimp only
        split <;> rfl
    | inserts seen s rest txn =>
      refine .inr (.inr (.inl ?_))
      dsimp only
      split <;> rfl
    | _ => exact .inr (.inr (.inl rfl))

variable (exec migrationId registered) in
/-- However the connects of any processes interleave, as long as no two of them change the mode of
the file at once and no transaction takes the lock on a file that has changed since its connect has
read it: no connect raises, each that has not returned can go on or waits for one that can, and
comes nearer to its end with every call of its own and loses nothing by those of others; no
statement is applied twice, and when a connect has returned every statement is applied. -/
theorem connects_apply_once (hvalid : ((work migrationId registered db₀).foldlM
      (fun schema s ↦ exec s schema) db₀.schema).isSome) {wal : Bool} {w : Processes σ ι}
    (h : (step exec migrationId registered).Runs Current (init wal db₀) w) :
    (∀ p, w.phase p ≠ .raised ∧ (w.phase p = .returned ∨
        (w.step exec migrationId registered p).isSome ∨
        ∃ q, w.writer = some q ∧ (w.step exec migrationId registered q).isSome)) ∧
      (∀ p w', w.step exec migrationId registered p = some w' →
        rank registered.length (w'.phase p) < rank registered.length (w.phase p) ∧
          ∀ q, q ≠ p → w'.phase q = w.phase q) ∧
      (db₀.ids ++ w.applied.map migrationId).Nodup ∧
      ∀ p, w.phase p = .returned → ∀ s ∈ registered, migrationId s ∈ w.db.ids ∧
        (migrationId s ∉ db₀.ids → (w.applied.map migrationId).count (migrationId s) = 1) := by
  obtain ⟨horderly, halone, hheld⟩ : Orderly exec migrationId registered db₀ w ∧ w.Alone ∧ w.Held :=
    h.preserves (I := fun w ↦ Orderly exec migrationId registered db₀ w ∧ w.Alone ∧ w.Held)
      (fun w w' p ⟨horderly, halone, hheld⟩ hcurrent hstep ↦
        ⟨horderly.step hvalid halone hcurrent hstep, halone.step hcurrent hstep, hheld.step hstep⟩)
      ⟨.init wal, .init wal db₀, fun p hp ↦ nomatch hp⟩
  have hnodup : (db₀.ids ++ w.applied.map migrationId).Nodup := by
    rcases horderly.file with ⟨happlied, _⟩ | ⟨happlied, _⟩
    · rw [happlied, List.map_nil, List.append_nil]
      exact db₀.ids_nodup
    · rw [happlied]
      exact work_new ..
  refine ⟨fun p ↦ ?_, fun p w' ↦ nearer, hnodup, fun p hreturned s hs ↦ ?_⟩
  · have hraised : w.phase p ≠ .raised := by
      intro hraised
      have hp := horderly.located p
      rw [hraised] at hp
      exact hp
    exact ⟨hraised, (goes_on hheld halone p).imp_right fun h ↦ h.resolve_left hraised⟩
  · have happlied := horderly.located p
    rw [hreturned] at happlied
    have hids : w.db.ids = db₀.ids ++ w.applied.map migrationId := by
      rcases horderly.file with ⟨hnone, hids, _⟩ | ⟨hall, hids⟩
      · rw [hids, hnone, List.map_nil, List.append_nil]
      · rw [hids, hall]
    have hmem : migrationId s ∈ db₀.ids ++ w.applied.map migrationId := by
      rw [show w.applied = work migrationId registered db₀ from happlied]
      exact mem_ids_of_work hs
    refine ⟨hids ▸ hmem, fun hnew ↦ ?_⟩
    have happlied := (List.mem_append.mp hmem).resolve_left hnew
    exact List.count_eq_one_of_mem (List.nodup_append.mp hnodup).2.1 happlied

/-! ## The two processes of a new profile -/

/-- The second connect opens the file when the first has changed its mode, and reads what is
applied after the first has committed. -/
theorem connects_apply_once_in_turn : ∃ w,
    (step createTable id ["a"]).Runs Current (init false (newDb [] false 0)) w ∧
      (w.phase 0 matches .returned) = true ∧ (w.phase 1 matches .returned) = true ∧
      w.applied = ["a"] ∧ (∀ p, w.phase p ≠ .raised) ∧ w.applied.Nodup := by
  have hexec : ((Machine.guarded (step createTable id ["a"]) Current).exec
      (init false (newDb [] false 0))
        [0, 0, 0, 0, 0, 1, 1, 1, 0, 0, 0, 0, 0, 0, 0, 1]).any
      (fun w ↦ (w.phase 0 matches .returned) ∧ (w.phase 1 matches .returned) ∧
        w.applied = ["a"]) = true := by
    decide +kernel
  obtain ⟨w, hrun, hfirst, hsecond, happlied⟩ := Machine.exists_run_of_exec hexec
  obtain ⟨hraised, _, hnodup, _⟩ := connects_apply_once createTable id ["a"] rfl hrun
  refine ⟨w, hrun, hfirst, hsecond, happlied, fun p ↦ (hraised p).1, ?_⟩
  rw [← List.map_id w.applied]
  exact (List.nodup_append.mp hnodup).2.1

/-- On a new file the second connect is refused when both have read that it is not in WAL mode;
and its transaction fails when both have read that nothing is applied before either has begun. -/
theorem second_connect_raises :
    (∃ w, (step createTable id ["a"]).Runs Machine.anyEvent (init false (newDb [] false 0)) w ∧
      (w.phase 0 matches .returned) = true ∧ (w.phase 1 matches .raised) = true) ∧
    ∃ w, (step createTable id ["a"]).Runs Machine.anyEvent (init true (newDb [] false 0)) w ∧
      (w.phase 0 matches .returned) = true ∧ (w.phase 1 matches .raised) = true := by
  have hmode : ((Machine.guarded (step createTable id ["a"]) fun _ _ ↦ True).exec
      (init false (newDb [] false 0)) [0, 1, 0, 1, 0, 0, 0, 0, 0, 0, 0, 0, 0, 0]).any
      (fun w ↦ (w.phase 0 matches .returned) ∧ (w.phase 1 matches .raised)) = true := by
    decide +kernel
  have hbatch : ((Machine.guarded (step createTable id ["a"]) fun _ _ ↦ True).exec
      (init true (newDb [] false 0)) [0, 0, 0, 0, 1, 1, 1, 1, 0, 0, 0, 0, 0, 0, 1, 1, 1]).any
      (fun w ↦ (w.phase 0 matches .returned) ∧ (w.phase 1 matches .raised)) = true := by
    decide +kernel
  obtain ⟨w, hrun, hP⟩ := Machine.exists_run_of_exec hmode
  obtain ⟨w', hrun', hP'⟩ := Machine.exists_run_of_exec hbatch
  exact ⟨⟨w, hrun, hP⟩, w', hrun', hP'⟩

end Processes

end TgMessenger.Storage
