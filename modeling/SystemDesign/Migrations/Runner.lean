/-
  The migration script.

  The table `migrations` has the names of the migrations that were executed.  `runMigrations` executes
  those that are pending, in the order of their timestamps and in one transaction, and
  `undoLastMigration` reverts the last one.  The script `run` exits with 0 where the migrations are in
  effect.

  `run_deploys`: whatever was run, reverted and written before, and however that ended, the script brings
  the database to the last version and keeps what it holds.
-/
import SystemDesign.Migrations.Run

namespace SystemDesign.Migrations

open Lib Sql

/-! ## The script -/

/-- The database with its table `migrations`. -/
structure Deployed where
  executed : List String
  db : Database

/-- No migration was executed. -/
def fresh : Deployed := ⟨[], start.db⟩

/-- The migrations that were not executed. -/
def pendingMigrations (executed : List String) : List Migration :=
  migrations.filter fun m => !executed.contains m.name

/-- Execute one migration, which then is in the table. -/
def executeMigration (gen : String → Generated) (d : Deployed) (m : Migration) : Option Deployed :=
  (migrate (gen m.name) d.db m.up).map fun db => ⟨d.executed ++ [m.name], db⟩

/-- `dataSource.runMigrations()`: what the transaction leaves, and the names of what it executed. -/
def runMigrations (gen : String → Generated) (d : Deployed) : Option (Deployed × List String) :=
  (exec (executeMigration gen) d (pendingMigrations d.executed)).map fun d' =>
    (d', (pendingMigrations d.executed).map (·.name))

/-- `dataSource.undoLastMigration()` -/
def undoLastMigration (g : Generated) (d : Deployed) : Option Deployed :=
  match d.executed.getLast? with
  | none => some d
  | some name => (migrations.find? (·.name == name)).bind fun m =>
    (migrate g d.db m.down).map fun db => ⟨d.executed.dropLast, db⟩

/-- How the process ends. -/
structure Exit where
  code : ℕ
  log : List String
deriving DecidableEq

/-- What the script prints of the migrations that it applied. -/
def report (applied : List String) : List String :=
  if applied.length = 0 then ["No pending migrations."]
  else s!"Applied {applied.length} migration(s):" :: applied.map fun name => s!"  - {name}"

/-- `run`, with how its transaction ends: the database after it, and its exit. -/
def run (gen : String → Generated) (o : Outcome) (d : Deployed) : Deployed × Exit :=
  match runMigrations gen d with
  | none => (d, ⟨1, ["Migration run failed:"]⟩)
  | some (d', applied) =>
    (if o.lands then d' else d, if o.isOk then ⟨0, report applied⟩ else ⟨1, ["Migration run failed:"]⟩)

/-- `migration:revert` -/
def revert (g : Generated) (o : Outcome) (d : Deployed) : Deployed :=
  match undoLastMigration g d with
  | none => d
  | some d' => if o.lands then d' else d

/-! ## Runs -/

inductive Deploy where
  | run (gen : String → Generated) (o : Outcome)
  | revert (g : Generated) (o : Outcome)
  /-- The rows are replaced. -/
  | write (rows : Rows String Value)

/-- **One step**; `none` where rows are not valid. -/
def deploy (d : Deployed) : Deploy → Option Deployed
  | .run gen o => some (run gen o d).1
  | .revert g o => some (revert g o d)
  | .write rows =>
    if Sql.Database.Valid ⟨d.db.schema, rows⟩ then some { d with db := ⟨d.db.schema, rows⟩ } else none

/-! ## The version of a database -/

def names : List String := migrations.map (·.name)

/-- The first `v` migrations were executed, and a run of migrations leaves the database. -/
structure Deployed.At (d : Deployed) (v : ℕ) : Prop where
  executed : d.executed = names.take v
  run : ∃ acts, exec step start acts = some ⟨v, d.db⟩

theorem Deployed.At.good {d : Deployed} {v : ℕ} (h : d.At v) : State.Good ⟨v, d.db⟩ := by
  obtain ⟨acts, hrun⟩ := h.run
  exact run_good hrun

theorem Deployed.At.le {d : Deployed} {v : ℕ} (h : d.At v) : v ≤ 4 := h.good.version

/-- A step of the migrations goes on with the run. -/
theorem Deployed.At.step {d : Deployed} {v v' : ℕ} (h : d.At v) {a : Act} {db : Database}
    (hs : Migrations.step ⟨v, d.db⟩ a = some ⟨v', db⟩) : Deployed.At ⟨names.take v', db⟩ v' := by
  obtain ⟨acts, hrun⟩ := h.run
  exact ⟨rfl, acts ++ [a], exec_snoc_iff.2 ⟨_, hrun, hs⟩⟩

theorem fresh_at : fresh.At 0 := ⟨rfl, [], rfl⟩

/-- What is pending are the migrations after the version. -/
theorem pending_take : ∀ v ≤ 4, (pendingMigrations (names.take v)).map (·.name) = names.drop v ∧
    pendingMigrations (names.take v) = migrations.drop v := by
  intro v hv
  have hcases : v = 0 ∨ v = 1 ∨ v = 2 ∨ v = 3 ∨ v = 4 := by omega
  rcases hcases with rfl | rfl | rfl | rfl | rfl <;> exact ⟨rfl, rfl⟩

theorem take_names {v : ℕ} (hlt : v < migrations.length) :
    names.take v ++ [migrations[v].name] = names.take (v + 1) := by
  rw [names, ← List.map_take, ← List.map_take, ← List.take_append_getElem hlt, List.map_append]
  rfl

/-! ## Executing what is pending -/

section
variable {d : Deployed} {v : ℕ}

/-- The lasting columns are the same. -/
def Lasts (db db' : Database) : Prop := ∀ x ∈ lasting, db'.select x.1 x.2 = db.select x.1 x.2

theorem execute_at (h : d.At v) (hlt : v < migrations.length) (gen : String → Generated) :
    ∃ d', executeMigration gen d migrations[v] = some d' ∧ d'.At (v + 1) ∧ Lasts d.db d'.db := by
  obtain ⟨s', hs⟩ := up_total h.good hlt (gen migrations[v].name)
  have hkeeps : Lasts d.db s'.db := step_keeps hs trivial
  have hs' := hs
  cases step_iff.1 hs with
  | @up g m db hm hdb =>
    obtain rfl : migrations[v] = m := Option.some.inj ((List.getElem?_eq_getElem hlt).symm.trans hm)
    refine ⟨⟨names.take (v + 1), db⟩, ?_, h.step hs', hkeeps⟩
    rw [executeMigration, hdb, Option.map_some, h.executed, take_names hlt]

/-- **What is pending is executed to its end**, by induction on how much that is. -/
theorem executeAll_at (gen : String → Generated) : ∀ (n : ℕ) {d : Deployed} {v : ℕ},
    v + n = migrations.length → d.At v → ∃ d', exec (executeMigration gen) d (migrations.drop v) = some d' ∧
      d'.At migrations.length ∧ Lasts d.db d'.db := by
  intro n
  induction n with
  | zero =>
    rintro d v rfl h
    exact ⟨d, by rw [List.drop_length, exec_nil], h, fun x _ => rfl⟩
  | succ n ih =>
    intro d v hn h
    have hlt : v < migrations.length := by omega
    obtain ⟨d₁, h1, hat, hk⟩ := execute_at h hlt gen
    obtain ⟨d', h2, hat', hk'⟩ := ih (by omega) hat
    refine ⟨d', ?_, hat', fun x hx => (hk' x hx).trans (hk x hx)⟩
    rw [List.drop_eq_getElem_cons hlt, exec_cons, h1, Option.bind_some, h2]

/-- The transaction does not fail by itself. -/
theorem runMigrations_at (h : d.At v) (gen : String → Generated) :
    ∃ d', runMigrations gen d = some (d', names.drop v) ∧ d'.At 4 ∧ Lasts d.db d'.db := by
  obtain ⟨hnames, hpending⟩ := pending_take v h.le
  obtain ⟨d', he, hat, hk⟩ := executeAll_at gen (4 - v) (Nat.add_sub_of_le h.le) h
  refine ⟨d', ?_, hat, hk⟩
  rw [runMigrations, h.executed, hnames, hpending, he, Option.map_some]

theorem undo_at (h : d.At v) (g : Generated) : ∃ d', undoLastMigration g d = some d' ∧ d'.At (v - 1) := by
  have hlast : ∀ v < 4, (names.take (v + 1)).getLast? = (migrations[v]?).map (·.name) ∧
      (names.take (v + 1)).dropLast = names.take v := by decide
  have hfind : ∀ v, (hv : v < migrations.length) →
      (migrations.find? fun m => m.name == migrations[v].name) = some migrations[v] := by
    intro v hv
    have hcases : v = 0 ∨ v = 1 ∨ v = 2 ∨ v = 3 := by
      change v < 4 at hv
      omega
    rcases hcases with rfl | rfl | rfl | rfl <;> rfl
  cases v with
  | zero => exact ⟨d, by rw [undoLastMigration, h.executed]; rfl, h⟩
  | succ v =>
    have hlt : v < 4 := h.le
    obtain ⟨s', hs⟩ := down_total h.good (Nat.succ_pos v) g
    have hs' := hs
    cases step_iff.1 hs with
    | @down g v' m db hv hm hdb =>
      obtain rfl : v = v' := Nat.succ.inj hv
      have hget : migrations[v]? = some migrations[v] := List.getElem?_eq_getElem hlt
      obtain rfl : migrations[v] = m := Option.some.inj (hget.symm.trans hm)
      refine ⟨⟨names.take v, db⟩, ?_, h.step hs'⟩
      obtain ⟨h1, h2⟩ := hlast v hlt
      simp only [undoLastMigration, h.executed, h1, h2, hget, Option.map_some, hfind v hlt,
        Option.bind_some, hdb]

/-- **Every step leaves a version.** -/
theorem deploy_at {a : Deploy} {d' : Deployed} (h : d.At v) (ha : deploy d a = some d') : ∃ v', d'.At v' := by
  cases a with
  | run gen o =>
    obtain ⟨d₁, hrun, hat, -⟩ := runMigrations_at h gen
    simp only [deploy, run, hrun, Option.some.injEq] at ha
    subst ha
    split_ifs
    · exact ⟨4, hat⟩
    · exact ⟨v, h⟩
  | revert g o =>
    obtain ⟨d₁, hundo, hat⟩ := undo_at h g
    simp only [deploy, revert, hundo, Option.some.injEq] at ha
    subst ha
    split_ifs
    · exact ⟨v - 1, hat⟩
    · exact ⟨v, h⟩
  | write rows =>
    simp only [deploy] at ha
    split_ifs at ha with hv
    cases ha
    have hs : Migrations.step ⟨v, d.db⟩ (.write rows) = some ⟨v, ⟨d.db.schema, rows⟩⟩ := if_pos hv
    have hat := h.step hs
    rw [← h.executed] at hat
    exact ⟨v, hat⟩

theorem deployed_at {as : List Deploy} (h : exec deploy fresh as = some d) : ∃ v, d.At v :=
  exec_inv (I := fun d : Deployed => ∃ v, d.At v) (fun _ _ _ ⟨_, hat⟩ ha => deploy_at hat ha) ⟨0, fresh_at⟩ h

end

/-- **The script deploys the last version.**  Whatever was run, reverted and written before, and however
    that ended: the script leaves the database as it is, or brings it to the last version by executing
    what is missing in order; it exits with 0 only then; the lasting columns stay; and running it again
    does nothing. -/
theorem run_deploys {as : List Deploy} {d : Deployed} (h : exec deploy fresh as = some d)
    (gen : String → Generated) : ∃ v d', d.executed = names.take v ∧ d'.executed = names ∧
      (∃ acts, exec step start acts = some ⟨4, d'.db⟩) ∧ (d'.db.schema = schemaAt 4 ∧ d'.db.Valid) ∧
      (∀ x ∈ lasting, d'.db.select x.1 x.2 = d.db.select x.1 x.2) ∧
      (∀ o, run gen o d = (if o.lands then d' else d,
        if o.isOk then ⟨0, report (names.drop v)⟩ else ⟨1, ["Migration run failed:"]⟩)) ∧
      ∀ gen' o, run gen' o d' = (d',
        if o.isOk then ⟨0, ["No pending migrations."]⟩ else ⟨1, ["Migration run failed:"]⟩) := by
  obtain ⟨v, hat⟩ := deployed_at h
  obtain ⟨d', hrun, hat', hk⟩ := runMigrations_at hat gen
  refine ⟨v, d', hat.executed, hat'.executed, hat'.run, ⟨hat'.good.schema, hat'.good.valid⟩, hk, ?_, ?_⟩
  · intro o
    rw [run, hrun]
  · intro gen' o
    have hnone : runMigrations gen' d' = some (d', []) := by
      rw [runMigrations, hat'.executed]
      rfl
    rw [run, hnone]
    simp only [ite_self]
    rfl

/-- All migrations, two reverted with one reply lost, and a script that died. -/
def sampleDeploys : List Deploy :=
  [.run (fun _ => sampleGenerated) .ok, .revert sampleGenerated .ok, .revert sampleGenerated .lost,
    .run (fun _ => sampleGenerated) .fail]

theorem run_deploys_reverted : ∃ d d', exec deploy fresh sampleDeploys = some d ∧ d.executed = names.take 2 ∧
    run (fun _ => sampleGenerated) .ok d = (d', ⟨0, ["Applied 2 migration(s):",
      "  - CreateTenantsAndScopeUsers1784200000000", "  - CreateRoles1784300000000"]⟩) ∧
    d'.db.schema = schemaAt 4 := by
  obtain ⟨d, hd, hv⟩ : ∃ d, exec deploy fresh sampleDeploys = some d ∧ d.executed = names.take 2 :=
    ⟨_, rfl, rfl⟩
  obtain ⟨v, d', hv', -, -, hs, -, hrun, -⟩ := run_deploys hd fun _ => sampleGenerated
  have hreport : ∀ v, names.take 2 = names.take v → report (names.drop v) = ["Applied 2 migration(s):",
      "  - CreateTenantsAndScopeUsers1784200000000", "  - CreateRoles1784300000000"] := by
    intro v hv
    have hlen := congrArg List.length hv
    simp only [List.length_take] at hlen
    obtain rfl : v = 2 := by
      change min 2 4 = min v 4 at hlen
      omega
    rfl
  refine ⟨d, d', hd, hv, ?_, hs.1⟩
  rw [hrun .ok, hreport v (hv.symm.trans hv')]
  rfl

end SystemDesign.Migrations
