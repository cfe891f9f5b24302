/-
  Bringing the services up.

  `dependsOn` is the `depends_on` of each service.  The container `migrate` runs the migrations on the
  primary and ends with their exit code; the other services start, fail and are started again in any order
  that their conditions allow.

  `boots_migrated`: whatever the database was before, an instance of the app, the client or nginx is
  started only when the last version is in place, and it stays in place.
-/
import SystemDesign.Lib.Startup
import SystemDesign.Migrations.Runner

namespace SystemDesign.Migrations

open Lib Sql
open Lib.Startup (Condition Status Event Requires Met)

/-! ## The services -/

inductive Service where
  | postgresPrimary
  | postgresReplica
  | pgbouncerPrimary
  | pgbouncerReplica
  | rabbitmq
  | migrate
  | app1
  | app2
  | client
  | nginx
  | prometheus
  | grafana
deriving DecidableEq

def dependsOn : Service → List (Service × Condition)
  | .postgresReplica | .pgbouncerPrimary | .migrate => [(.postgresPrimary, .healthy)]
  | .pgbouncerReplica => [(.postgresReplica, .started)]
  | .app1 | .app2 => [(.migrate, .completed), (.pgbouncerPrimary, .started), (.pgbouncerReplica, .started),
      (.rabbitmq, .healthy)]
  | .client => [(.app1, .started), (.app2, .started)]
  | .nginx => [(.app1, .started), (.app2, .started), (.client, .started)]
  | .grafana => [(.prometheus, .started)]
  | .postgresPrimary | .rabbitmq | .prometheus => []

structure Stack where
  services : Service → Status
  deployed : Deployed

inductive Stack.Action where
  /-- An event of the services, other than the exit of `migrate`. -/
  | services (e : Event Service)
  /-- The container `migrate` ends; its process runs the migrations as the script does. -/
  | migrated (gen : String → Generated) (o : Outcome)
  | write (rows : Rows String Value)

/-- **One step**; `none` where the action is not possible. -/
def Stack.step (s : Stack) : Stack.Action → Option Stack
  | .services (.exit .migrate _) => none
  | .services e => (Startup.step dependsOn s.services e).map fun x => { s with services := x }
  | .migrated gen o =>
    (Startup.step dependsOn s.services (.exit .migrate (run gen o s.deployed).2.code)).map fun x =>
      ⟨x, (run gen o s.deployed).1⟩
  | .write rows => (deploy s.deployed (.write rows)).map fun d => { s with deployed := d }

/-- No service was started. -/
def Stack.init (d : Deployed) : Stack := ⟨fun _ => .created, d⟩

/-- The steps, one constructor for each kind. -/
inductive Stack.Step (s : Stack) : Stack.Action → Stack → Prop
  | services {e x} (hm : ∀ code, e ≠ .exit .migrate code)
    (h : Startup.step dependsOn s.services e = some x) : Stack.Step s (.services e) { s with services := x }
  | migrated {gen o x}
    (h : Startup.step dependsOn s.services (.exit .migrate (run gen o s.deployed).2.code) = some x) :
    Stack.Step s (.migrated gen o) ⟨x, (run gen o s.deployed).1⟩
  | write {rows d} (h : deploy s.deployed (.write rows) = some d) :
    Stack.Step s (.write rows) { s with deployed := d }

variable {s s' : Stack}

theorem Stack.step_cases {a : Stack.Action} (h : s.step a = some s') : Stack.Step s a s' := by
  cases a with
  | services e =>
    cases e with
    | start | probe =>
      obtain ⟨x, hx, rfl⟩ := Option.map_eq_some_iff.1 h
      exact .services (fun code he => by cases he) hx
    | exit i code =>
      cases i with
      | migrate => cases h
      | _ =>
        obtain ⟨x, hx, rfl⟩ := Option.map_eq_some_iff.1 h
        exact .services (fun code he => by cases he) hx
  | migrated gen o =>
    obtain ⟨x, hx, rfl⟩ := Option.map_eq_some_iff.1 h
    exact .migrated hx
  | write rows =>
    obtain ⟨d, hd, rfl⟩ := Option.map_eq_some_iff.1 h
    exact .write hd

/-! ## What a step leaves -/

/-- The database is of some version, and of the last one once `migrate` has completed. -/
structure Stack.Good (s : Stack) : Prop where
  version : ∃ v, s.deployed.At v
  completed : s.services .migrate = .exited 0 → s.deployed.executed = names

/-- A process that exits with 0 leaves the last version. -/
theorem run_completed {d : Deployed} {v : ℕ} (h : d.At v) {gen : String → Generated} {o : Outcome}
    (hcode : (run gen o d).2.code = 0) : (run gen o d).1.executed = names := by
  obtain ⟨d', hrun, hat, -⟩ := runMigrations_at h gen
  simp only [run, hrun] at hcode ⊢
  cases o with
  | ok => exact hat.executed
  | fail | lost => cases hcode

/-- The last version stays. -/
theorem run_last {d : Deployed} (h : d.executed = names) (gen : String → Generated) (o : Outcome) :
    (run gen o d).1 = d := by
  have hnone : runMigrations gen d = some (d, []) := by
    rw [runMigrations, h]
    rfl
  rw [run, hnone]
  exact ite_self d

theorem Stack.step_last {a : Stack.Action} (h : s.deployed.executed = names) (hs : s.step a = some s') :
    s'.deployed.executed = names := by
  cases Stack.step_cases hs with
  | services => exact h
  | @migrated gen o => rw [run_last h gen o, h]
  | @write rows d hd =>
    simp only [deploy] at hd
    split_ifs at hd
    cases hd
    exact h

theorem Stack.step_good {a : Stack.Action} (h : s.Good) (hs : s.step a = some s') : s'.Good := by
  obtain ⟨v, hat⟩ := h.version
  cases Stack.step_cases hs with
  | services hm hx =>
    refine ⟨⟨v, hat⟩, fun hy => ?_⟩
    rcases Startup.step_exited hx hy with hy | he
    · exact h.completed hy
    · exact absurd he (hm 0)
  | @migrated gen o x hx =>
    refine ⟨deploy_at (a := .run gen o) hat rfl, fun hy => run_completed hat ?_⟩
    exact Status.exited.inj ((Startup.step_exit hx).symm.trans hy)
  | @write rows d hd =>
    refine ⟨deploy_at hat hd, fun hy => ?_⟩
    exact Stack.step_last (a := .write rows) (h.completed hy) hs

/-! ## What has come about before a service starts -/

theorem Stack.step_services (s : Stack) (a : Stack.Action) (s' : Stack) (h : s.step a = some s') :
    s'.services = s.services ∨ ∃ e, Startup.step dependsOn s.services e = some s'.services := by
  cases Stack.step_cases h with
  | services hm hx => exact Or.inr ⟨_, hx⟩
  | migrated hx => exact Or.inr ⟨_, hx⟩
  | write => exact Or.inl rfl

/-- The services behind the instances of the app, and the instances. -/
def Service.serves : Service → Bool
  | .app1 | .app2 | .client | .nginx => true
  | _ => false

/-- What the first instance requires, each of them does. -/
theorem serves_app1 {i : Service} (hi : i.serves = true) {d : Service × Condition}
    (h : Requires dependsOn .app1 d) : Requires dependsOn i d := by
  cases i with
  | app1 => exact h
  | app2 =>
    cases h with
    | direct hd => exact .direct hd
    | through hj hr => exact .through hj hr
  | client | nginx => exact .through (List.mem_cons_self (l := _)) h
  | _ => cases hi

/-- They all wait for the migrations, the broker and the primary. -/
theorem serves_requires {i : Service} (hi : i.serves = true) :
    Requires dependsOn i (.migrate, .completed) ∧ Requires dependsOn i (.rabbitmq, .healthy) ∧
      Requires dependsOn i (.postgresPrimary, .healthy) := by
  have hmigrate : (.migrate, .completed) ∈ dependsOn .app1 := List.mem_cons_self
  have hrabbit : (.rabbitmq, .healthy) ∈ dependsOn .app1 := by simp [dependsOn]
  have hprimary : (.postgresPrimary, .healthy) ∈ dependsOn .migrate := List.mem_cons_self
  exact ⟨serves_app1 hi (.direct hmigrate), serves_app1 hi (.direct hrabbit),
    serves_app1 hi (.through hmigrate (.direct hprimary))⟩

/-- **Nothing serves an old schema.**  Take any database that runs, reverts and writes leave, and any run
    of the services over it: once an instance of the app, the client or nginx was started, the database is
    of the last version, and the broker and the primary had been healthy. -/
theorem boots_migrated {ds : List Deploy} {d : Deployed} (hd : exec deploy fresh ds = some d)
    {as : List Stack.Action} {s : Stack} (h : exec Stack.step (Stack.init d) as = some s) {i : Service}
    (hi : i.serves = true) (hs : (s.services i).meets .started = true) :
    s.deployed.executed = names ∧ (s.deployed.db.schema = schemaAt 4 ∧ s.deployed.db.Valid) ∧
      Met Stack.services Stack.step (Stack.init d) s (.rabbitmq, .healthy) ∧
      Met Stack.services Stack.step (Stack.init d) s (.postgresPrimary, .healthy) := by
  have hgood : ∀ {bs s₁}, exec Stack.step (Stack.init d) bs = some s₁ → s₁.Good := by
    intro bs s₁ h₁
    refine exec_inv (I := Stack.Good) (fun _ _ _ => Stack.step_good) ⟨deployed_at hd, ?_⟩ h₁
    intro hc
    cases hc
  obtain ⟨hmigrate, hrabbit, hprimary⟩ := serves_requires hi
  have hmet : ∀ {x}, Requires dependsOn i x → Met Stack.services Stack.step (Stack.init d) s x :=
    Startup.met_before Stack.step_services (fun _ => rfl) h hs
  obtain ⟨as₁, as₂, s₁, h1, h2, hm⟩ := hmet hmigrate
  have hcompleted : s₁.services .migrate = .exited 0 := by
    cases hst : s₁.services .migrate with
    | created | running => simp [hst, Status.meets] at hm
    | exited code =>
      cases code with
      | zero => rfl
      | succ n => simp [hst, Status.meets] at hm
  have hlast : s.deployed.executed = names := by
    refine exec_inv (I := fun s => s.deployed.executed = names) ?_ ((hgood h1).completed hcompleted) h2
    exact fun _ _ _ hx ha => Stack.step_last hx ha
  obtain ⟨v, hat⟩ := (hgood h).version
  have hv : v = 4 := by
    have hlen := congrArg List.length (hat.executed.symm.trans hlast)
    have hle := hat.le
    simp only [List.length_take] at hlen
    change min v 4 = 4 at hlen
    omega
  subst hv
  exact ⟨hlast, ⟨hat.good.schema, hat.good.valid⟩, hmet hrabbit, hmet hprimary⟩

/-! ## The services of a fresh checkout -/

/-- The first `migrate` fails and is started again; then the first instance starts. -/
def sampleStack : List Stack.Action :=
  [.services (.start .postgresPrimary), .services (.start .rabbitmq),
    .services (.probe .postgresPrimary true), .services (.probe .rabbitmq true),
    .services (.start .postgresReplica), .services (.start .pgbouncerPrimary),
    .services (.start .pgbouncerReplica), .services (.start .migrate),
    .migrated (fun _ => sampleGenerated) .fail, .services (.start .migrate),
    .migrated (fun _ => sampleGenerated) .ok, .services (.start .app1)]

theorem boots_migrated_app1 : ∃ s, exec Stack.step (Stack.init fresh) sampleStack = some s ∧
    s.deployed.executed = names ∧ s.deployed.db.schema = schemaAt 4 := by
  have hrun : (exec Stack.step (Stack.init fresh) sampleStack).map (fun s => s.services .app1) =
      some (.running false) := by decide +kernel
  obtain ⟨s, h, hs⟩ := Option.map_eq_some_iff.1 hrun
  have hstarted : (s.services .app1).meets .started = true := by
    rw [hs]
    rfl
  have hfresh : exec deploy fresh [] = some fresh := rfl
  obtain ⟨hnames, hschema, -⟩ := boots_migrated hfresh h rfl hstarted
  exact ⟨s, h, hnames, hschema.1⟩

end SystemDesign.Migrations
