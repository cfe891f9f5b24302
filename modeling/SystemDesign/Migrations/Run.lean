/-
  Runs of the migrations.

  A database goes up and down through the versions, with any rows that a version admits written in
  between.  No step fails, a version always has the same schema, and only the migrations that drop the
  tables of the first two lose what those hold (`migrations_sound`).
-/
import SystemDesign.Migrations.Migration

namespace SystemDesign.Migrations

open Lib Sql

/-- A database and how many migrations it has had. -/
structure State where
  version : ℕ
  db : Database

def start : State := ⟨0, ⟨[], fun _ => []⟩⟩

inductive Act where
  | up (g : Generated)
  | down (g : Generated)
  /-- The rows are replaced. -/
  | write (rows : Rows String Value)

/-- The statements of a migration, in one transaction. -/
def migrate (g : Generated) (db : Database) (sts : List Statement) : Option Database :=
  exec (Sql.Database.execute (Default.eval g)) db sts

/-- **One step**; `none` where it fails. -/
def step (s : State) : Act → Option State
  | .up g => migrations[s.version]?.bind fun m =>
    (migrate g s.db m.up).map fun db => ⟨s.version + 1, db⟩
  | .down g =>
    if s.version = 0 then none
    else migrations[s.version - 1]?.bind fun m => (migrate g s.db m.down).map fun db => ⟨s.version - 1, db⟩
  | .write rows =>
    if Sql.Database.Valid ⟨s.db.schema, rows⟩ then some { s with db := ⟨s.db.schema, rows⟩ } else none

/-- The steps, one constructor for each kind. -/
inductive Step (s : State) : Act → State → Prop
  | up {g m db} (hm : migrations[s.version]? = some m) (h : migrate g s.db m.up = some db) :
    Step s (.up g) ⟨s.version + 1, db⟩
  | down {g v m db} (hv : s.version = v + 1) (hm : migrations[v]? = some m)
    (h : migrate g s.db m.down = some db) : Step s (.down g) ⟨v, db⟩
  | write {rows} (h : Sql.Database.Valid ⟨s.db.schema, rows⟩) :
    Step s (.write rows) { s with db := ⟨s.db.schema, rows⟩ }

theorem step_iff {s s' : State} {a : Act} : step s a = some s' ↔ Step s a s' := by
  constructor
  · intro h
    cases a with
    | up g =>
      obtain ⟨m, hm, h⟩ := Option.bind_eq_some_iff.1 h
      obtain ⟨db, hdb, rfl⟩ := Option.map_eq_some_iff.1 h
      exact .up hm hdb
    | down g =>
      simp only [step] at h
      split_ifs at h with h0
      obtain ⟨v, hv⟩ := Nat.exists_eq_succ_of_ne_zero h0
      rw [hv] at h
      obtain ⟨m, hm, h⟩ := Option.bind_eq_some_iff.1 h
      obtain ⟨db, hdb, rfl⟩ := Option.map_eq_some_iff.1 h
      exact .down hv hm hdb
    | write rows =>
      simp only [step] at h
      split_ifs at h with hv
      cases h
      exact .write hv
  · intro h
    cases h with
    | up hm h => simp only [step, hm, Option.bind_some, h, Option.map_some]
    | down hv hm h =>
      simp only [step, hv, Nat.succ_ne_zero, if_false, Nat.add_sub_cancel, hm, Option.bind_some, h,
        Option.map_some]
    | write h => simp only [step, if_pos h]

/-! ## The schemas -/

theorem up_schema : ∀ v < 4, exec Sql.Schema.check (schemaAt v) (migrations[v]?.elim [] (·.up)) =
    some (schemaAt (v + 1)) := by decide

theorem down_schema : ∀ v < 4, exec Sql.Schema.check (schemaAt (v + 1)) (migrations[v]?.elim [] (·.down)) =
    some (schemaAt v) := by decide

theorem migrations_lt {v : ℕ} {m : Migration} (hm : migrations[v]? = some m) : v < 4 :=
  (List.getElem?_eq_some_iff.1 hm).1

/-- The database is valid and has the schema of its version. -/
structure State.Good (s : State) : Prop where
  version : s.version ≤ migrations.length
  schema : s.db.schema = schemaAt s.version
  valid : s.db.Valid

theorem step_good {s s' : State} {a : Act} (hs : s.Good) (h : step s a = some s') : s'.Good := by
  cases step_iff.1 h with
  | @up g m db hm hdb =>
    refine ⟨migrations_lt hm, ?_, exec_valid hs.valid hdb⟩
    have hup := up_schema s.version (migrations_lt hm)
    rw [hm, Option.elim_some, ← hs.schema, exec_check hdb] at hup
    exact Option.some.inj hup
  | @down g v m db hv hm hdb =>
    refine ⟨(migrations_lt hm).le, ?_, exec_valid hs.valid hdb⟩
    have hdown := down_schema v (migrations_lt hm)
    rw [hm, Option.elim_some, ← hv, ← hs.schema, exec_check hdb] at hdown
    exact Option.some.inj hdown
  | write hv => exact ⟨hs.version, hs.schema, hv⟩

theorem start_good : start.Good := ⟨Nat.zero_le _, rfl, by decide, nofun⟩

theorem run_good {as : List Act} {s : State} (h : exec step start as = some s) : s.Good :=
  exec_inv (I := State.Good) (fun _ _ _ => step_good) start_good h

/-! ## No step fails -/

section
variable {g : Generated} {db : Database}

theorem migrate_cons {db₁ : Database} {st : Statement} {sts : List Statement}
    (h : db.execute (Default.eval g) st = some db₁) (h' : ∃ db', migrate g db₁ sts = some db') :
    ∃ db', migrate g db (st :: sts) = some db' := by
  obtain ⟨db', h'⟩ := h'
  exact ⟨db', by rw [migrate, exec_cons, h, Option.bind_some]; exact h'⟩

theorem migrate_nil : ∃ db', migrate g db [] = some db' := ⟨db, rfl⟩

/-- The row of the default tenant. -/
def defaultTenant (g : Generated) : Row String Value :=
  tenantsTable.newRow (Default.eval g) [("name", defaultName)]

/-- The schema while the users get their tenant. -/
def scoping (nullable : Bool) : Schema :=
  [tasksTable, processedEventsTable,
    { usersTable with columns := usersTable.columns ++ [tenantIdColumn nullable] }, tenantsTable]

theorem insertTenant {s : Schema} {rows : Rows String Value} (hv : Sql.Database.Valid ⟨s, rows⟩)
    (ht : s.find? (·.name = "tenants") = some tenantsTable) (hrows : rows "tenants" = [])
    (hc : s.check (.insert (D := Default) "tenants" [("name", defaultName)]) = some s) :
    Sql.Database.execute (Default.eval g) ⟨s, rows⟩ (.insert "tenants" [("name", defaultName)]) =
      some ⟨s, Function.update rows "tenants" [defaultTenant g]⟩ := by
  have h : Sql.Database.execute (Default.eval g) ⟨s, rows⟩ (.insert "tenants" [("name", defaultName)]) =
      some ⟨s, Function.update rows "tenants" (rows "tenants" ++ [defaultTenant g])⟩ := by
    refine execute_insert ht rfl ?_ ?_ nofun hv hc
    · simp only [tenantsTable, newTable, tenantsColumns, List.map_cons, List.map_nil, List.forall_mem_cons]
      exact ⟨rfl, rfl, rfl, nofun⟩
    · intro u _ vs hvs
      change vs ∈ (rows "tenants").map u.columns.map at hvs
      rw [hrows] at hvs
      cases hvs
  rwa [hrows] at h

/-- Every user gets the default tenant before the column must not be null. -/
theorem createTenants_up {rows : Rows String Value} (hv : Sql.Database.Valid ⟨schemaAt 2, rows⟩) :
    ∃ db', migrate g ⟨schemaAt 2, rows⟩ createTenantsAndScopeUsers.up = some db' := by
  let rows₁ := Function.update rows "tenants" []
  have h1 : Sql.Database.execute (Default.eval g) ⟨schemaAt 2, rows⟩ (createTable "tenants" tenantsColumns) =
      some ⟨schemaAt 2 ++ [tenantsTable], rows₁⟩ := execute_createTable hv rfl
  let rows₂ := Function.update rows₁ "tenants" [defaultTenant g]
  have h2 : Sql.Database.execute (Default.eval g) ⟨schemaAt 2 ++ [tenantsTable], rows₁⟩
      (.insert "tenants" [("name", defaultName)]) = some ⟨schemaAt 2 ++ [tenantsTable], rows₂⟩ :=
    insertTenant (execute_valid h1) rfl rfl rfl
  let rows₃ := setColumn rows₂ "users" "tenantId" none
  have h3 : Sql.Database.execute (Default.eval g) ⟨schemaAt 2 ++ [tenantsTable], rows₂⟩
      (addColumn "users" { name := "tenantId", type := .uuid, isNullable := true }) =
      some ⟨scoping true, rows₃⟩ := execute_addColumn rfl rfl (execute_valid h2) rfl
  let rows₄ := setColumn rows₃ "users" "tenantId" (some (.uuid g.uuid))
  have h4 : Sql.Database.execute (Default.eval g) ⟨scoping true, rows₃⟩
      (.update "users" "tenantId" ⟨"id", "tenants", "name", defaultName⟩) = some ⟨scoping true, rows₄⟩ := by
    refine execute_update rfl (by decide : (scoping true).Free "users" "tenantId") ?_ (execute_valid h3) rfl
    intro t ht hn d hd hdc
    have htype : ∀ t ∈ scoping true, t.name = "users" → ∀ d ∈ t.columns, d.name = "tenantId" →
        d.type = .uuid := by decide
    change Typed.hasType d.type (Value.uuid g.uuid) = true
    rw [htype t ht hn d hd hdc]
    rfl
  have h5 : Sql.Database.execute (Default.eval g) ⟨scoping true, rows₄⟩
      (changeColumn "users" { name := "tenantId", type := .uuid }) = some ⟨scoping false, rows₄⟩ := by
    refine execute_alterColumn (fun vs hvs v hvm => ?_) (execute_valid h4) rfl
    rw [eq_of_mem_setColumn hvs, List.mem_singleton] at hvm
    rw [hvm]
    rfl
  have h6 : Sql.Database.execute (Default.eval g) ⟨scoping false, rows₄⟩
      (createForeignKey "users" usersTenantId) = some ⟨schemaAt 3, rows₄⟩ := by
    refine execute_addForeignKey (fun vs hvs => Or.inr ?_) (execute_valid h5) rfl
    rw [eq_of_mem_setColumn hvs]
    exact List.mem_singleton.2 rfl
  exact migrate_cons h1 (migrate_cons h2 (migrate_cons h3 (migrate_cons h4 (migrate_cons h5
    (migrate_cons h6 migrate_nil)))))

/-- The table of the roles is empty and nobody has a role. -/
theorem createRoles_up {rows : Rows String Value} (hv : Sql.Database.Valid ⟨schemaAt 3, rows⟩) :
    ∃ db', migrate g ⟨schemaAt 3, rows⟩ createRoles.up = some db' := by
  let rows₁ := Function.update rows "roles" []
  have h1 : Sql.Database.execute (Default.eval g) ⟨schemaAt 3, rows⟩ (createTable "roles" rolesColumns) =
      some ⟨schemaAt 3 ++ [newTable "roles" rolesColumns], rows₁⟩ := execute_createTable hv rfl
  have hempty : ∀ cs, select rows₁ "roles" cs = [] := fun cs => select_update_self
  have h2 : Sql.Database.execute (Default.eval g) ⟨schemaAt 3 ++ [newTable "roles" rolesColumns], rows₁⟩
      (createForeignKey "roles" rolesTenantId) =
      some ⟨schemaAt 3 ++ [{ newTable "roles" rolesColumns with foreignKeys := [rolesTenantId.foreignKey] }],
        rows₁⟩ := by
    refine execute_addForeignKey (fun vs hvs => ?_) (execute_valid h1) rfl
    rw [hempty] at hvs
    cases hvs
  have h3 : Sql.Database.execute (Default.eval g)
      ⟨schemaAt 3 ++ [{ newTable "roles" rolesColumns with foreignKeys := [rolesTenantId.foreignKey] }], rows₁⟩
      (createUniqueConstraint "roles" rolesTenantIdName) = some ⟨schemaAt 3 ++ [rolesTable], rows₁⟩ := by
    refine execute_addUnique ?_ (execute_valid h2) rfl
    rw [hempty]
    exact List.Pairwise.nil
  let unreferenced : Schema := [tasksTable, processedEventsTable,
    { scopedUsersTable with columns := scopedUsersTable.columns ++ [roleIdColumn] }, tenantsTable, rolesTable]
  let rows₄ := setColumn rows₁ "users" "roleId" none
  have h4 : Sql.Database.execute (Default.eval g) ⟨schemaAt 3 ++ [rolesTable], rows₁⟩
      (addColumn "users" { name := "roleId", type := .uuid, isNullable := true }) =
        some ⟨unreferenced, rows₄⟩ :=
    execute_addColumn rfl rfl (execute_valid h3) rfl
  have h5 : Sql.Database.execute (Default.eval g) ⟨unreferenced, rows₄⟩ (createForeignKey "users" usersRoleId) =
      some ⟨schemaAt 4, rows₄⟩ := by
    refine execute_addForeignKey (fun vs hvs => Or.inl ?_) (execute_valid h4) rfl
    rw [eq_of_mem_setColumn hvs]
    exact List.mem_singleton.2 rfl
  exact migrate_cons h1 (migrate_cons h2 (migrate_cons h3 (migrate_cons h4 (migrate_cons h5 migrate_nil))))

end

theorem up_safe : ∀ v < 2, ∀ st ∈ migrations[v]?.elim [] (·.up), st.Safe = true := by decide

theorem down_safe : ∀ v < 4, ∀ st ∈ migrations[v]?.elim [] (·.down), st.Safe = true := by decide

theorem up_total {s : State} (hs : s.Good) (hlt : s.version < migrations.length) (g : Generated) :
    ∃ s', step s (.up g) = some s' := by
  obtain ⟨version, schema, rows⟩ := s
  obtain ⟨-, hschema, hv⟩ := hs
  change schema = schemaAt version at hschema
  subst hschema
  change version < 4 at hlt
  have hup : ∃ db', migrate g ⟨schemaAt version, rows⟩ (migrations[version]?.elim [] (·.up)) = some db' := by
    by_cases h2 : version < 2
    · exact exec_safe (up_safe version h2) hv (up_schema version hlt)
    · obtain rfl | rfl : version = 2 ∨ version = 3 := by omega
      · exact createTenants_up hv
      · exact createRoles_up hv
  obtain ⟨db', h⟩ := hup
  have hm : migrations[version]? = some migrations[version] := List.getElem?_eq_getElem hlt
  rw [hm, Option.elim_some] at h
  exact ⟨_, step_iff.2 (.up hm h)⟩

theorem down_total {s : State} (hs : s.Good) (hpos : 0 < s.version) (g : Generated) :
    ∃ s', step s (.down g) = some s' := by
  obtain ⟨version, db⟩ := s
  obtain ⟨hle, hschema, hv⟩ := hs
  obtain ⟨v, rfl⟩ := Nat.exists_eq_succ_of_ne_zero hpos.ne'
  change v < 4 at hle
  have hc := down_schema v hle
  rw [← hschema] at hc
  obtain ⟨db', h⟩ : ∃ db', migrate g db (migrations[v]?.elim [] (·.down)) = some db' :=
    exec_safe (down_safe v hle) hv hc
  have hm : migrations[v]? = some migrations[v] := List.getElem?_eq_getElem hle
  rw [hm, Option.elim_some] at h
  exact ⟨_, step_iff.2 (.down rfl hm h)⟩

/-! ## What stays -/

/-- The rows of the first two tables and what the first version of `users` holds. -/
def lasting : List (String × List String) :=
  [("tasks", ["id", "title", "completed", "createdAt"]),
    ("processed_events", ["eventId", "eventType", "processedAt"]),
    ("users", ["id", "username", "passwordHash", "createdAt"])]

theorem up_keeps : ∀ v < 4, ∀ x ∈ lasting, ∀ st ∈ migrations[v]?.elim [] (·.up), st.Keeps x.1 x.2 := by decide

/-- All but the first two. -/
theorem down_keeps : ∀ v < 4, 2 ≤ v → ∀ x ∈ lasting, ∀ st ∈ migrations[v]?.elim [] (·.down),
    st.Keeps x.1 x.2 := by decide

/-- The steps of all migrations but `CreateUsers.down` and `InitSchema.down`. -/
def Act.Lossless (version : ℕ) : Act → Prop
  | .up _ => True
  | .down _ => version ≠ 2 ∧ version ≠ 1
  | .write _ => False

theorem step_keeps {s s' : State} {a : Act} (h : step s a = some s') (ha : a.Lossless s.version) :
    ∀ x ∈ lasting, s'.db.select x.1 x.2 = s.db.select x.1 x.2 := by
  intro x hx
  cases step_iff.1 h with
  | @up g m db hm hdb =>
    have hk := up_keeps s.version (migrations_lt hm) x hx
    rw [hm, Option.elim_some] at hk
    exact exec_keeps hk hdb
  | @down g v m db hv hm hdb =>
    obtain ⟨h2, h1⟩ := ha
    have hk := down_keeps v (migrations_lt hm) (by omega) x hx
    rw [hm, Option.elim_some] at hk
    exact exec_keeps hk hdb
  | write => exact ha.elim

/-! ## What the users refer to -/

theorem scoped_users : ∀ v, 3 ≤ v → v ≤ 4 → ∃ t ∈ schemaAt v, t.name = "users" ∧
    tenantIdColumn false ∈ t.columns ∧ usersTenantId.foreignKey ∈ t.foreignKeys := by
  intro v h3 h4
  obtain rfl | rfl : v = 3 ∨ v = 4 := by omega
  · decide
  · decide

theorem users_tenants {s : State} (hs : s.Good) (hv : 3 ≤ s.version) :
    ∀ user ∈ s.db.rows "users", ∃ tenant ∈ s.db.rows "tenants", ∃ id, user "tenantId" = some id ∧
      tenant "id" = some id := by
  intro user hu
  obtain ⟨t, ht, hn, hc, hf⟩ := scoped_users s.version hv hs.version
  rw [← hs.schema] at ht
  rw [← hn] at hu
  obtain ⟨id, hid⟩ := (hs.valid.admits t ht).not_null hc rfl hu
  rcases (hs.valid.admits t ht).refers hf hu with hnull | ⟨tenant, hten, he⟩
  · exact absurd ((List.mem_singleton.1 hnull).trans hid) (by simp)
  · exact ⟨tenant, hten, id, hid, (List.cons.inj he).1.trans hid⟩

theorem users_roles {s : State} (hs : s.Good) (hv : s.version = 4) :
    ∀ user ∈ s.db.rows "users", user "roleId" = none ∨
        ∃ role ∈ s.db.rows "roles", role "id" = user "roleId" := by
  intro user hu
  have ht : roledUsersTable ∈ s.db.schema := by
    rw [hs.schema, hv]
    decide
  have hrefers := (hs.valid.admits _ ht).refers (List.mem_cons_of_mem _ List.mem_cons_self) hu
  rcases hrefers with hnull | ⟨role, hr, he⟩
  · exact Or.inl (List.mem_singleton.1 hnull).symm
  · exact Or.inr ⟨role, hr, (List.cons.inj he).1⟩

/-- **The migrations.**  After every run, up and down through the versions with any rows written in
    between: no step fails; the schema is that of the version; the migrations but two keep the lasting
    columns; and users refer to tenants and roles that exist. -/
theorem migrations_sound {as : List Act} {s : State} (h : exec step start as = some s) :
    ((∀ g, s.version < migrations.length → ∃ s', step s (.up g) = some s') ∧
      ∀ g, 0 < s.version → ∃ s', step s (.down g) = some s') ∧
    s.db.schema = schemaAt s.version ∧
    (∀ a s', step s a = some s' → a.Lossless s.version →
      ∀ x ∈ lasting, s'.db.select x.1 x.2 = s.db.select x.1 x.2) ∧
    (3 ≤ s.version → ∀ user ∈ s.db.rows "users", ∃ tenant ∈ s.db.rows "tenants",
      ∃ id, user "tenantId" = some id ∧ tenant "id" = some id) ∧
    (s.version = 4 → ∀ user ∈ s.db.rows "users",
      user "roleId" = none ∨ ∃ role ∈ s.db.rows "roles", role "id" = user "roleId") := by
  have hs := run_good h
  refine ⟨⟨fun g hlt => up_total hs hlt g, fun g hpos => down_total hs hpos g⟩, hs.schema, ?_, ?_, ?_⟩
  · intro a s' hstep ha
    exact step_keeps hstep ha
  · intro hv
    exact users_tenants hs hv
  · intro hv
    exact users_roles hs hv

/-- A user who was there before the tenants. -/
def sampleUser : Row String Value := fun c =>
  if c = "id" then some (.uuid (Uuid.ofNat 1))
  else if c = "username" ∨ c = "passwordHash" then some defaultName
  else if c = "createdAt" then some (.timestamp 0)
  else none

def sampleGenerated : Generated := ⟨Uuid.ofNat 2, 0⟩

def sampleRun : List Act :=
  [.up sampleGenerated, .up sampleGenerated,
    .write fun n => if n = "users" then [sampleUser] else [], .up sampleGenerated]

theorem migrations_sound_scoped : ∃ s, exec step start sampleRun = some s ∧ s.version = 3 ∧
    s.db.schema = schemaAt 3 ∧ (s.db.rows "users").length = 1 ∧
    (∃ s', step s (.up sampleGenerated) = some s') ∧
    ∀ user ∈ s.db.rows "users", ∃ tenant ∈ s.db.rows "tenants",
      ∃ id, user "tenantId" = some id ∧ tenant "id" = some id := by
  refine ⟨_, rfl, rfl, rfl, rfl, ?_, ?_⟩
  · exact (migrations_sound (rfl : exec step start sampleRun = some _)).1.1 _ (show 3 < 4 by decide)
  · exact (migrations_sound (rfl : exec step start sampleRun = some _)).2.2.2.1 (show 3 ≤ 3 by decide)

end SystemDesign.Migrations
