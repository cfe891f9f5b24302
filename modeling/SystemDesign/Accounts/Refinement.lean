/-
  The services on Postgres refine the services on the tables.

  `SqlStep` is a step of the system of services, seed runs and guarded requests on a database: an
  operation executes its statement there.  A service never reads by an id that is missing
  (`Job.keyed`), which TypeORM would take for no condition at all.

  `refines`: from the database that the migrations leave, the runs of this system are those of the
  system on the tables, with the same calls, answers and clock; the database holds the tables
  throughout.
-/
import SystemDesign.Accounts.Guard
import SystemDesign.Accounts.Ledger
import SystemDesign.Accounts.Statements

namespace SystemDesign.Accounts

open Lib Sql Migrations

/-! ## The system -/

structure SqlState where
  db : SqlDatabase
  calls : List Call
  now : ℕ

/-- A request has a token issued by login that is still valid. -/
def SqlState.admits (s : SqlState) : Job → Bool
  | .request tok _ _ => s.now < tok.exp && s.calls.any fun call => call.result == some (.token tok)
  | _ => true

/-- **One atomic step**: an operation executes its statement. -/
inductive SqlStep (bcrypt : Bcrypt) (s : SqlState) : Action → SqlState → Prop
  | start {job} (ha : s.admits job = true) :
    SqlStep bcrypt s (.start job) { s with calls := s.calls ++ [⟨job, job.code⟩] }
  | step {i c call o k a db'} (hi : s.calls[i]? = some call) (hp : call.prog = .await o k)
    (hc : c.now = s.now) (ho : o.Executes bcrypt c s.db a db') :
    SqlStep bcrypt s (.step i c) { s with db := db', calls := s.calls.set i { call with prog := k a } }
  | tick {seconds} : SqlStep bcrypt s (.tick seconds) { s with now := s.now + seconds }

abbrev SqlRun (bcrypt : Bcrypt) := Lib.Runs (SqlStep bcrypt)

/-! ## Every read is by a key -/

theorem keyed_perform {o : AOp} (h : o.Keyed) : (perform o).Only AOp.Keyed := Async.Only.call h

theorem keyed_checkRole (requestUser : RequestUser) (required : JsString) (user : Option User) :
    (checkRole requestUser required user).Only AOp.Keyed := by
  unfold checkRole
  split
  · trivial
  · next roleId _ =>
    split_ifs
    · trivial
    · refine Async.Only.bind (keyed_perform rfl) fun role => ?_
      unfold checkPermission
      split
      · trivial
      · split_ifs <;> trivial

theorem keyed_guarded (tok : Token) (handler cls : Option JsString) :
    (guarded tok handler cls).Only AOp.Keyed := by
  unfold guarded
  split
  · trivial
  · next requestUser _ =>
    cases hp : getAllAndOverride handler cls with
    | none => simp only [canActivate, hp]; trivial
    | some required =>
      by_cases hne : required = []
      · simp only [canActivate, hp, hne, List.isEmpty_nil, if_true]
        trivial
      · rw [canActivate_eq hp hne, guardCode]
        split_ifs with ht
        · trivial
        · refine Async.Only.bind (keyed_perform ?_) fun user => keyed_checkRole requestUser required user
          exact not_nullish_of_truthy (by simpa using ht)

theorem keyed_ensureTenant (name : JsString) : (Seed.ensureTenant name).Only AOp.Keyed := by
  refine Async.Only.bind (keyed_perform trivial) fun tenant => ?_
  cases tenant with
  | some tenant => trivial
  | none => exact Async.Only.bind (keyed_perform trivial) fun _ => trivial

theorem keyed_ensureRole (tenantId name : JsString) (permissions : List JsString) :
    (Seed.ensureRole tenantId name permissions).Only AOp.Keyed := by
  refine Async.Only.bind (keyed_perform trivial) fun role => ?_
  cases role with
  | none => exact Async.Only.bind (keyed_perform trivial) fun _ => trivial
  | some role =>
    dsimp only
    split_ifs
    · trivial
    · refine Async.Only.bind (keyed_perform trivial) fun loaded => ?_
      cases loaded with
      | none => exact Async.Only.bind (keyed_perform trivial) fun _ => trivial
      | some old =>
        dsimp only
        split_ifs
        · trivial
        · exact Async.Only.bind (keyed_perform trivial) fun _ => trivial

theorem keyed_ensureUser (tenantId username password roleId : JsString) :
    (Seed.ensureUser tenantId username password roleId).Only AOp.Keyed := by
  refine Async.Only.bind (keyed_perform trivial) fun existing => ?_
  cases existing with
  | some existing =>
    dsimp only
    split_ifs
    · exact keyed_perform trivial
    · trivial
  | none =>
    refine Async.Only.bind (keyed_perform trivial) fun passwordHash => ?_
    exact Async.Only.bind (keyed_perform trivial) fun _ => trivial

theorem keyed_required (a b : Option JsString) (message : JsString) :
    (Seed.required a b message).Only AOp.Keyed := by
  unfold Seed.required
  split
  · split_ifs <;> trivial
  · trivial

theorem keyed_seed (env : Env) : (Seed.seed env).Only AOp.Keyed := by
  refine Async.Only.bind (keyed_required _ _ _) fun admin => ?_
  refine Async.Only.bind (keyed_required _ _ _) fun approver => ?_
  refine Async.Only.bind (keyed_ensureTenant _) fun tenant => ?_
  refine Async.Only.bind (keyed_ensureRole _ _ _) fun adminRole => ?_
  refine Async.Only.bind (keyed_ensureRole _ _ _) fun approverRole => ?_
  refine Async.Only.bind (keyed_ensureUser _ _ _ _) fun _ => ?_
  exact keyed_ensureUser _ _ _ _

/-- **No service reads by a missing id.** -/
theorem Job.keyed (job : Job) : job.code.Only AOp.Keyed := by
  cases job with
  | createUser tenantId username password =>
    refine Async.Only.bind ?_ fun _ => trivial
    refine Async.Only.bind (keyed_perform trivial) fun passwordHash => ?_
    exact Async.Only.bind (keyed_perform trivial) fun _ => trivial
  | createRole tenantId name permissions =>
    refine Async.Only.bind ?_ fun _ => trivial
    exact Async.Only.bind (keyed_perform trivial) fun _ => trivial
  | seed env => exact Async.Only.bind (keyed_seed env) fun _ => trivial
  | login username password =>
    exact Async.Only.bind (login_only trivial (fun _ => trivial) fun _ _ _ => trivial) fun _ => trivial
  | request tok handler cls => exact Async.Only.bind (keyed_guarded tok handler cls) fun _ => trivial

/-! ## Refinement -/

/-- The database stores the tables, and the calls and the clock are the same. -/
structure Agrees (s : SqlState) (s' : State) : Prop where
  stores : Stores s.db s'.tables
  calls : s.calls = s'.calls
  now : s.now = s'.now

section
variable {bcrypt : Bcrypt} {s : SqlState} {s' : State}

/-- Every call is still to read by keys only. -/
def SqlState.Keyed (s : SqlState) : Prop := ∀ call ∈ s.calls, call.prog.Only AOp.Keyed

theorem Agrees.admits (h : Agrees s s') (job : Job) : s.admits job = s'.admits job := by
  cases job <;> simp only [SqlState.admits, State.admits, h.calls, h.now]

theorem keyed_start (hk : s.Keyed) (job : Job) : ∀ call ∈ s.calls ++ [⟨job, job.code⟩],
    call.prog.Only AOp.Keyed := by
  intro call hc
  rcases List.mem_append.1 hc with hc | hc
  · exact hk call hc
  · rw [List.mem_singleton.1 hc]
    exact job.keyed

/-- What a call awaits is keyed, and so is what any answer leaves of it. -/
theorem keyed_await (hk : s.Keyed) {i : ℕ} {call : Call} {o : AOp} {k : Except Thrown o.Ans → Service Result}
    (hi : s.calls[i]? = some call) (hp : call.prog = .await o k) :
    o.Keyed ∧ ∀ a, ∀ call' ∈ s.calls.set i { call with prog := k a }, call'.prog.Only AOp.Keyed := by
  have h := hk call (List.mem_of_getElem? hi)
  rw [hp] at h
  refine ⟨h.1, fun a call' hc => ?_⟩
  rcases List.mem_or_eq_of_mem_set hc with hc | rfl
  · exact hk call' hc
  · exact h.2 a

/-- **A step on the database is one on the tables.** -/
theorem step_simulated {s₁ : SqlState} {act : Action} (h : Agrees s s' ∧ s.Keyed)
    (hs : SqlStep bcrypt s act s₁) :
    ∃ s₁', step bcrypt s' act = some s₁' ∧ Agrees s₁ s₁' ∧ s₁.Keyed := by
  obtain ⟨⟨hst, hcalls, hnow⟩, hk⟩ := h
  cases hs with
  | @start job ha =>
    have ha' : s'.admits job = true := (Agrees.admits ⟨hst, hcalls, hnow⟩ job).symm.trans ha
    exact ⟨_, if_pos ha', ⟨hst, congrArg (· ++ [⟨job, job.code⟩]) hcalls, hnow⟩, keyed_start hk job⟩
  | @step i c call o k a db' hi hp hc ho =>
    obtain ⟨hko, hka⟩ := keyed_await hk hi hp
    obtain ⟨rfl, hst'⟩ := executes_stores hst hko ho
    refine ⟨{ s' with
        tables := (o.answer bcrypt c s'.tables).2
        calls := s'.calls.set i { call with prog := k (o.answer bcrypt c s'.tables).1 } }, ?_, ?_, hka _⟩
    · rw [hcalls] at hi
      simp only [step, hi, Option.bind_some]
      rw [hp]
      exact if_pos (hc.trans hnow)
    · exact ⟨hst', by rw [hcalls], hnow⟩
  | @tick seconds => exact ⟨_, rfl, ⟨hst, hcalls, congrArg (· + seconds) hnow⟩, hk⟩

/-- **A step on the tables is one on the database.** -/
theorem step_realized {s₁' : State} {act : Action} (h : Agrees s s' ∧ s.Keyed)
    (hs : step bcrypt s' act = some s₁') : ∃ s₁, SqlStep bcrypt s act s₁ ∧ Agrees s₁ s₁' ∧ s₁.Keyed := by
  obtain ⟨⟨hst, hcalls, hnow⟩, hk⟩ := h
  cases step_cases hs with
  | @start job ha =>
    have ha' : s.admits job = true := (Agrees.admits ⟨hst, hcalls, hnow⟩ job).trans ha
    exact ⟨_, .start ha', ⟨hst, congrArg (· ++ [⟨job, job.code⟩]) hcalls, hnow⟩, keyed_start hk job⟩
  | @step i c call o k a t hi hp hc ho =>
    rw [← hcalls] at hi
    obtain ⟨hko, hka⟩ := keyed_await hk hi hp
    obtain ⟨db', he⟩ := executes_exists bcrypt c hst hko
    obtain ⟨-, hst'⟩ := executes_stores hst hko he
    rw [ho] at he hst'
    exact ⟨_, .step hi hp (hc.trans hnow.symm) he, ⟨hst', by rw [hcalls], hnow⟩, hka a⟩
  | @tick seconds => exact ⟨_, .tick, ⟨hst, hcalls, congrArg (· + seconds) hnow⟩, hk⟩

/-- The migrations leave a database that stores some tables. -/
theorem stores_of_run {acts : List Act} {m : Migrations.State} (hm : exec Migrations.step start acts = some m)
    (hv : m.version = 4) : ∃ t, Stores m.db t := by
  obtain ⟨version, schema, rows⟩ := m
  obtain ⟨-, hschema, hvalid⟩ := run_good hm
  cases hv
  cases hschema
  obtain ⟨r, hr⟩ := exists_represents hvalid
  exact ⟨⟨r, ((valid_iff hr).1 hvalid).2⟩, rfl, hvalid, hr⟩

end

/-- **Postgres under the services refines the tables.**  Take any database of the last version that a run
    of the migrations leaves.  It stores some tables; and for all tables that it stores, the runs of the
    services on the database are those on the tables: each has a run of the other kind with the same
    actions, which ends with the same calls and clock, and in which the database stores the tables. -/
theorem refines {acts : List Act} {m : Migrations.State} (hm : exec Migrations.step start acts = some m)
    (hv : m.version = 4) :
    (∃ t, Stores m.db t) ∧ ∀ (bcrypt : Bcrypt) (t : Tables), Stores m.db t → ∀ as : List Action,
      (∀ s, SqlRun bcrypt ⟨m.db, [], 0⟩ as s → ∃ s', run bcrypt ⟨t, [], 0⟩ as = some s' ∧ Agrees s s') ∧
      ∀ s', run bcrypt ⟨t, [], 0⟩ as = some s' → ∃ s, SqlRun bcrypt ⟨m.db, [], 0⟩ as s ∧ Agrees s s' := by
  refine ⟨stores_of_run hm hv, fun bcrypt t ht as => ?_⟩
  have h0 : Agrees ⟨m.db, [], 0⟩ ⟨t, [], 0⟩ ∧ SqlState.Keyed ⟨m.db, [], 0⟩ := ⟨⟨ht, rfl, rfl⟩, nofun⟩
  constructor
  · intro s hs
    obtain ⟨s', he, ha, -⟩ := Lib.Runs.simulated (step bcrypt) (fun s t => Agrees s t ∧ s.Keyed)
      (fun _ _ _ _ h => step_simulated h) hs h0
    exact ⟨s', he, ha⟩
  · intro s' he
    obtain ⟨s, hs, ha, -⟩ := Lib.Runs.of_exec (step bcrypt) (fun s t => Agrees s t ∧ s.Keyed)
      (fun _ _ _ _ h => step_realized h) h0 he
    exact ⟨s, hs, ha⟩

/-! ## A new database -/

/-- All migrations on an empty database leave the tenant `default`. -/
theorem stores_migrated {g₁ g₂ g₃ g₄ : Generated} {m : Migrations.State}
    (hm : exec Migrations.step start [.up g₁, .up g₂, .up g₃, .up g₄] = some m) :
    m.version = 4 ∧ Stores m.db (migrated g₃.uuid) := by
  obtain ⟨m', hm', hv, ht, hu, hr⟩ : ∃ m, exec Migrations.step start [.up g₁, .up g₂, .up g₃, .up g₄] = some m ∧
      m.version = 4 ∧ m.db.rows "tenants" = [defaultTenant g₃] ∧ m.db.rows "users" = [] ∧
        m.db.rows "roles" = [] := ⟨_, rfl, rfl, rfl, rfl, rfl⟩
  obtain rfl : m = m' := Option.some.inj (hm.symm.trans hm')
  obtain ⟨-, hschema, hvalid⟩ := run_good hm
  refine ⟨hv, hschema.trans (congrArg schemaAt hv), hvalid, ?_, ?_, ?_⟩
  · rw [ht]
    refine ⟨[⟨g₃.uuid, ⟨js "default", by decide, by decide⟩⟩], List.Perm.refl _, .cons ?_ .nil⟩
    simp only [tenantColumns, List.forall_mem_cons]
    exact ⟨rfl, rfl, List.forall_mem_nil _⟩
  · rw [hu]
    exact shows_nil
  · rw [hr]
    exact shows_nil

/-- The seed script may be started on the new database. -/
theorem refines_seed : ∃ m s, exec Migrations.step start [.up sampleGenerated, .up sampleGenerated,
      .up sampleGenerated, .up sampleGenerated] = some m ∧ m.version = 4 ∧
    SqlRun sampleBcrypt ⟨m.db, [], 0⟩
      [.start (.seed (sampleEnv none)), .step 0 (sampleChoice 3), .step 0 (sampleChoice 4),
        .step 0 (sampleChoice 5)] s ∧
    ∃ t : Tables, Stores s.db t ∧ t.roles.length = 1 := by
  obtain ⟨m, hm⟩ : ∃ m, exec Migrations.step start [.up sampleGenerated, .up sampleGenerated,
    .up sampleGenerated, .up sampleGenerated] = some m := ⟨_, rfl⟩
  obtain ⟨hv, hst⟩ := stores_migrated hm
  obtain ⟨s', he, hl⟩ : ∃ s', run sampleBcrypt (init sampleGenerated.uuid) [.start (.seed (sampleEnv none)),
    .step 0 (sampleChoice 3), .step 0 (sampleChoice 4), .step 0 (sampleChoice 5)] = some s' ∧
      s'.tables.roles.length = 1 := ⟨_, rfl, rfl⟩
  obtain ⟨s, hs, ha⟩ := ((refines hm hv).2 sampleBcrypt _ hst _).2 s' he
  exact ⟨m, s, hm, hv, hs, s'.tables, ha.stores, hl⟩

end SystemDesign.Accounts
