/-
  The operations of the services as SQL on the migrated database.

  `AOp.write` is the INSERT or UPDATE of an operation that writes, `AOp.Executes` what an operation may
  answer and leave of a database: a read gives some row that meets its condition.  A database `Stores`
  tables where it has the schema of all migrations and represents them.

  `executes_stores`: on such a database an operation answers and leaves what it does of the tables.
-/
import SystemDesign.Accounts.Schema
import SystemDesign.Accounts.Services
import SystemDesign.Migrations.Run

namespace SystemDesign.Accounts

open Lib Sql Migrations

abbrev SqlDatabase := Migrations.Database

abbrev SqlWrite := Sql.Write String Value

/-! ## Statements -/

/-- What the default expressions of a statement produce. -/
def Choice.generated (c : Choice) : Generated := ⟨c.id, c.now⟩

/-- The values of an INSERT into `users`; a role that is not given is left to its default. -/
def userValues (username passwordHash : Text) (tenantId : Uuid) (roleId : Option Uuid) :
    List (String × Value) :=
  [("username", .string username), ("passwordHash", .string passwordHash), ("tenantId", .uuid tenantId)] ++
    (roleId.map fun r => ("roleId", Value.uuid r)).toList

/-- The values of an INSERT into `roles`; an id that is not given is left to its default. -/
def roleValues (id : Option Uuid) (tenantId : Uuid) (name permissions : Text) : List (String × Value) :=
  (id.map fun i => ("id", Value.uuid i)).toList ++
    [("tenantId", .uuid tenantId), ("name", .string name), ("permissions", .string permissions)]

/-- The assignments of an UPDATE of `roles`. -/
def RoleChange.values (c : RoleChange) : List (String × Value) :=
  (c.tenantId.map fun u => ("tenantId", Value.uuid u)).toList ++
    (c.name.map fun n => ("name", Value.string n)).toList ++
      (c.permissions.map fun p => ("permissions", Value.string p)).toList

/-- The statement of an operation that writes; `none` where a parameter is rejected. -/
def AOp.write : AOp → Option SqlWrite
  | .insertTenant name => (Text.ofJs name).map fun n => .insert "tenants" [("name", .string n)]
  | .insertRole id tenantId name permissions =>
    (uuidOrNull id).bind fun i => (Uuid.ofText tenantId).bind fun u => (Text.ofJs name).bind fun n =>
      (Text.ofJs (joinBy comma permissions)).map fun p => .insert "roles" (roleValues i u n p)
  | .insertUser username passwordHash tenantId roleId =>
    (Text.ofJs username).bind fun n => (Text.ofJs passwordHash).bind fun h =>
      (Uuid.ofText tenantId).bind fun u => (uuidOrNull roleId).map fun r =>
        .insert "users" (userValues n h u r)
  | .assignRole id roleId => (Uuid.ofText id).bind fun u => (Uuid.ofText roleId).map fun r =>
    .update "users" [("roleId", .uuid r)] "id" (.uuid u)
  | .updateRole db given => (Uuid.ofText given.id).bind fun u => (db.changes given).map fun ch =>
    .update "roles" ch.values "id" (.uuid u)
  | _ => none

/-- What an operation that writes does to the tables. -/
def AOp.effect (c : Choice) (t : Tables) : AOp → Option Tables
  | .insertTenant name => t.insertTenant c.id name
  | .insertRole id tenantId name permissions =>
    (insertId c id).bind fun u => t.insertRole u tenantId name permissions
  | .insertUser username passwordHash tenantId roleId =>
    t.insertUser c.id username passwordHash tenantId roleId
  | .assignRole id roleId => t.assignRole id roleId
  | .updateRole db given => t.updateRole db given
  | _ => none

/-- The database has the schema of all migrations and holds these tables. -/
structure Stores (db : SqlDatabase) (t : Tables) : Prop where
  schema : db.schema = schemaAt 4
  valid : db.Valid
  represents : Represents db.rows t.toRows

/-! ## Writes -/

section
variable {R : SqlRows} {r : Rows} {db : SqlDatabase} {t : Tables} {c : Choice} {ev : Default → Value}

theorem Rest.update (h : Rest R) {n : String} {rows : List (Sql.Row String Value)}
    (hn : n ∉ ["tasks", "processed_events"])
    (hc : ∀ row ∈ rows, ∃ t, row "createdAt" = some (.timestamp t)) : Rest (Function.update R n rows) := by
  simp only [List.mem_cons, List.not_mem_nil, or_false, not_or] at hn
  refine ⟨admits_of_rows h.tasks rfl (Function.update_of_ne (Ne.symm hn.1) _ _),
    admits_of_rows h.processedEvents rfl (Function.update_of_ne (Ne.symm hn.2) _ _), fun m hm row hr => ?_⟩
  by_cases he : m = n
  · subst he
    rw [Function.update_self] at hr
    exact hc row hr
  · rw [Function.update_of_ne he] at hr
    exact h.createdAt m hm row hr

/-- Parameters are read one after the other. -/
theorem rel_bind {α β γ : Type} {S : α → β → Prop} (x : Option γ) {f : γ → Option α} {g : γ → Option β}
    (h : ∀ y, Option.Rel S (f y) (g y)) : Option.Rel S (x.bind f) (x.bind g) := by
  cases x with
  | none => exact .none
  | some y => exact h y

theorem rel_map {α β γ : Type} {S : α → β → Prop} (x : Option γ) {f : γ → α} {g : γ → β}
    (h : ∀ y, S (f y) (g y)) : Option.Rel S (x.map f) (x.map g) := by
  cases x with
  | none => exact .none
  | some y => exact .some (h y)

/-- **A write whose rows represent the rows of the services** is rejected by the constraints of the schema
    where these are, and leaves a database that holds them otherwise. -/
theorem write_commit {w : SqlWrite} {R' : SqlRows} {r' : Rows} (hs : db.schema = schemaAt 4)
    (hw : db.write ev w = if Sql.Database.Valid ⟨db.schema, R'⟩ then some ⟨db.schema, R'⟩ else none)
    (hrep : Represents R' r') (hrest : Rest R') : Option.Rel Stores (db.write ev w) r'.commit := by
  rw [hw, hs, Rows.commit]
  have hiff := (valid_iff hrep).trans (and_iff_right hrest)
  by_cases hv : r'.Valid
  · rw [if_pos (hiff.2 hv), dif_pos hv]
    exact .some ⟨rfl, hiff.2 hv, hrep⟩
  · rw [if_neg fun h => hv (hiff.1 h), dif_neg hv]
    exact .none

theorem Stores.rest (h : Stores db t) : Rest db.rows := by
  obtain ⟨schema, rows⟩ := db
  obtain ⟨rfl, hv, hr⟩ := h
  exact ((valid_iff hr).1 hv).1

theorem Stores.wf (h : Stores db t) : db.schema.Wf := h.valid.wf

theorem Stores.createdAt (h : Stores db t) {n : String} (hn : n ∈ ["tenants", "users", "roles"]) :
    ∀ row ∈ db.rows n, ∃ t, row "createdAt" = some (.timestamp t) := h.rest.createdAt n hn

/-- `INSERT INTO tenants`. -/
theorem insertTenant_write (h : Stores db t) (g : Generated) (n : Text) :
    Option.Rel Stores (db.write (Default.eval g) (.insert "tenants" [("name", .string n)]))
      (Rows.commit { t.toRows with tenants := ⟨g.uuid, n⟩ :: t.tenants }) := by
  have ht : db.schema.find? (·.name = "tenants") = some tenantsTable := by rw [h.schema]; rfl
  have hc : ["name"] ⊆ tenantsTable.columnNames := by decide
  refine write_commit h.schema (write_insert h.wf ht hc) ?_ ?_
  · refine ⟨?_, h.represents.users, h.represents.roles⟩
    refine h.represents.tenants.insert ?_
    simp only [tenantColumns, List.forall_mem_cons]
    exact ⟨rfl, rfl, List.forall_mem_nil _⟩
  · refine h.rest.update (by decide) fun row hr => ?_
    rcases List.mem_append.1 hr with hr | hr
    · exact h.createdAt (by decide) row hr
    · rw [List.mem_singleton.1 hr]
      exact ⟨g.now, rfl⟩

/-- `INSERT INTO users`. -/
theorem insertUser_write (h : Stores db t) (g : Generated) (n p : Text) (u : Uuid) (o : Option Uuid) :
    Option.Rel Stores (db.write (Default.eval g) (.insert "users" (userValues n p u o)))
      (Rows.commit { t.toRows with users := ⟨g.uuid, n, p, u, o⟩ :: t.users }) := by
  have ht : db.schema.find? (·.name = "users") = some roledUsersTable := by rw [h.schema]; rfl
  have hc : (userValues n p u o).map (·.1) ⊆ roledUsersTable.columnNames := by
    have hall : ["username", "passwordHash", "tenantId", "roleId"] ⊆ roledUsersTable.columnNames := by decide
    cases o with
    | none => exact fun x hx => hall (List.mem_append_left ["roleId"] hx)
    | some r => exact hall
  refine write_commit h.schema (write_insert h.wf ht hc) ?_ ?_
  · refine ⟨h.represents.tenants, ?_, h.represents.roles⟩
    refine h.represents.users.insert ?_
    simp only [userColumns, List.forall_mem_cons]
    cases o with
    | none => exact ⟨rfl, rfl, rfl, rfl, rfl, List.forall_mem_nil _⟩
    | some r => exact ⟨rfl, rfl, rfl, rfl, rfl, List.forall_mem_nil _⟩
  · refine h.rest.update (by decide) fun row hr => ?_
    rcases List.mem_append.1 hr with hr | hr
    · exact h.createdAt (by decide) row hr
    · rw [List.mem_singleton.1 hr]
      cases o with
      | none => exact ⟨g.now, rfl⟩
      | some r => exact ⟨g.now, rfl⟩

/-- `INSERT INTO roles`, with an id or without. -/
theorem insertRole_write (h : Stores db t) (g : Generated) (i : Option Uuid) (u : Uuid) (n p : Text) :
    Option.Rel Stores (db.write (Default.eval g) (.insert "roles" (roleValues i u n p)))
      (Rows.commit { t.toRows with roles := ⟨i.getD g.uuid, u, n, p⟩ :: t.roles }) := by
  have ht : db.schema.find? (·.name = "roles") = some rolesTable := by rw [h.schema]; rfl
  have hc : (roleValues i u n p).map (·.1) ⊆ rolesTable.columnNames := by
    have hall : ["id", "tenantId", "name", "permissions"] ⊆ rolesTable.columnNames := by decide
    cases i with
    | none => exact fun x hx => hall (List.mem_cons_of_mem _ hx)
    | some i => exact hall
  refine write_commit h.schema (write_insert h.wf ht hc) ?_ ?_
  · refine ⟨h.represents.tenants, h.represents.users, ?_⟩
    refine h.represents.roles.insert ?_
    simp only [roleColumns, List.forall_mem_cons]
    cases i with
    | none => exact ⟨rfl, rfl, rfl, rfl, List.forall_mem_nil _⟩
    | some i => exact ⟨rfl, rfl, rfl, rfl, List.forall_mem_nil _⟩
  · refine h.rest.update (by decide) fun row hr => ?_
    rcases List.mem_append.1 hr with hr | hr
    · exact h.createdAt (by decide) row hr
    · rw [List.mem_singleton.1 hr]
      cases i with
      | none => exact ⟨g.now, rfl⟩
      | some i => exact ⟨g.now, rfl⟩

/-- An UPDATE leaves `createdAt` as it is, unless it sets it. -/
theorem createdAt_update {rows : List (Sql.Row String Value)} {values : List (String × Value)} {key : String}
    {v : Value} (hno : values.lookup "createdAt" = none)
    (h : ∀ row ∈ rows, ∃ t, row "createdAt" = some (.timestamp t)) :
    ∀ row ∈ rows.map (fun row => if row key = some v then row.set values else row),
      ∃ t, row "createdAt" = some (.timestamp t) := by
  intro row hr
  obtain ⟨row₀, hr₀, rfl⟩ := List.mem_map.1 hr
  obtain ⟨t, ht⟩ := h row₀ hr₀
  refine ⟨t, ?_⟩
  split_ifs
  · rw [Sql.Row.set, hno, Option.none_or, ht]
  · exact ht

/-- `UPDATE users SET "roleId"`. -/
theorem assignRole_write (h : Stores db t) (g : Generated) (u o : Uuid) :
    Option.Rel Stores (db.write (Default.eval g) (.update "users" [("roleId", .uuid o)] "id" (.uuid u)))
      (Rows.commit { t.toRows with
        users := t.users.map fun x => if x.id = u then { x with roleId := some o } else x }) := by
  have ht : roledUsersTable ∈ db.schema := by rw [h.schema]; simp [schemaAt]
  have hc : ["roleId"] ⊆ roledUsersTable.columnNames := by decide
  refine write_commit h.schema (write_update h.wf ht rfl hc (by decide)) ?_ ?_
  · refine ⟨h.represents.tenants, ?_, h.represents.roles⟩
    refine h.represents.users.update fun row x hx => ?_
    simp only [userColumns, List.forall_mem_cons] at hx ⊢
    obtain ⟨hid, hn, hp, hten, hrole, -⟩ := hx
    have hcond : row "id" = some (.uuid u) ↔ x.id = u := by
      rw [hid]
      simp [UserRow.value]
    by_cases he : x.id = u
    · rw [if_pos (hcond.2 he), if_pos he]
      exact ⟨hid, hn, hp, hten, rfl, List.forall_mem_nil _⟩
    · rw [if_neg fun hr => he (hcond.1 hr), if_neg he]
      exact ⟨hid, hn, hp, hten, hrole, List.forall_mem_nil _⟩
  · exact h.rest.update (by decide) (createdAt_update rfl (h.createdAt (by decide)))

/-- `UPDATE roles`, of the columns that change. -/
theorem updateRole_write (h : Stores db t) (g : Generated) (u : Uuid) (ch : RoleChange) :
    Option.Rel Stores (db.write (Default.eval g) (.update "roles" ch.values "id" (.uuid u)))
      (Rows.commit { t.toRows with roles := t.roles.map fun r => if r.id = u then r.set ch else r }) := by
  have ht : rolesTable ∈ db.schema := by rw [h.schema]; simp [schemaAt]
  obtain ⟨tenantId, name, permissions⟩ := ch
  have hall : ["tenantId", "name", "permissions"] ⊆ rolesTable.columnNames := by decide
  have hc : (RoleChange.values ⟨tenantId, name, permissions⟩).map (·.1) ⊆ rolesTable.columnNames := by
    refine List.Subset.trans ?_ hall
    cases tenantId <;> cases name <;> cases permissions <;> simp [RoleChange.values]
  refine write_commit h.schema (write_update h.wf ht rfl hc (by decide)) ?_ ?_
  · refine ⟨h.represents.tenants, h.represents.users, ?_⟩
    refine h.represents.roles.update fun row x hx => ?_
    simp only [roleColumns, List.forall_mem_cons] at hx ⊢
    obtain ⟨hid, hten, hn, hp, -⟩ := hx
    have hcond : row "id" = some (.uuid u) ↔ x.id = u := by
      rw [hid]
      simp [RoleRow.value]
    by_cases he : x.id = u
    · rw [if_pos (hcond.2 he), if_pos he]
      refine ⟨?_, ?_, ?_, ?_, List.forall_mem_nil _⟩
      · cases tenantId <;> cases name <;> cases permissions <;> exact hid
      · cases tenantId <;> cases name <;> cases permissions <;> first | rfl | exact hten
      · cases tenantId <;> cases name <;> cases permissions <;> first | rfl | exact hn
      · cases tenantId <;> cases name <;> cases permissions <;> first | rfl | exact hp
    · rw [if_neg fun hr => he (hcond.1 hr), if_neg he]
      exact ⟨hid, hten, hn, hp, List.forall_mem_nil _⟩
  · refine h.rest.update (by decide) (createdAt_update ?_ (h.createdAt (by decide)))
    cases tenantId <;> cases name <;> cases permissions <;> rfl

/-- The id of an INSERT into `roles`, if it is not given, is the generated one. -/
theorem insertId_eq (c : Choice) (id : Option JsString) :
    insertId c id = (uuidOrNull id).map (·.getD c.id) := by
  cases id with
  | none => rfl
  | some s => cases hs : Uuid.ofText s <;> simp [insertId, uuidOrNull, hs]

/-- **The statement of an operation does to the database what the operation does to the tables.** -/
theorem write_effect (h : Stores db t) (o : AOp) (c : Choice) :
    Option.Rel Stores (o.write.bind (db.write (Default.eval c.generated))) (o.effect c t) := by
  cases o with
  | insertTenant name =>
    simp only [AOp.write, AOp.effect, Tables.insertTenant, Option.bind_map]
    exact rel_bind _ fun n => insertTenant_write h c.generated n
  | insertRole id tenantId name permissions =>
    simp only [AOp.write, AOp.effect, Tables.insertRole, insertId_eq, Option.bind_assoc, Option.bind_map]
    exact rel_bind _ fun i => rel_bind _ fun u => rel_bind _ fun n => rel_bind _ fun p =>
      insertRole_write h c.generated i u n p
  | insertUser username passwordHash tenantId roleId =>
    simp only [AOp.write, AOp.effect, Tables.insertUser, Option.bind_assoc, Option.bind_map]
    exact rel_bind _ fun n => rel_bind _ fun p => rel_bind _ fun u => rel_bind _ fun r =>
      insertUser_write h c.generated n p u r
  | assignRole id roleId =>
    simp only [AOp.write, AOp.effect, Tables.assignRole, Option.bind_assoc, Option.bind_map]
    exact rel_bind _ fun u => rel_bind _ fun r => assignRole_write h c.generated u r
  | updateRole old given =>
    simp only [AOp.write, AOp.effect, Tables.updateRole, Option.bind_assoc, Option.bind_map]
    exact rel_bind _ fun u => rel_bind _ fun ch => updateRole_write h c.generated u ch
  | findTenant | findRole | findRoleById | selectRole | findUser | findUserById | hash | compare | sign =>
    exact .none

/-! ## What an operation may do to a database -/

/-- The condition `{ id: v }`. -/
def Meets (w : UuidWhere) (v : Option Value) : Prop :=
  match w with
  | .any => True
  | .eq u => v = some (.uuid u)

/-- A read: rejected where the parameters are, and otherwise what the query may select. -/
def Reading {α β : Type} (c : Choice) (query : Option (Option α → Prop)) (load : α → β)
    (a : Except Thrown (Option β)) : Prop :=
  match query with
  | none => a = .error .failed
  | some selects => ∃ x, selects x ∧ a = if c.outcome.isOk then .ok (x.map load) else .error .failed

/-- A write: rejected by the database, or in effect unless it fails, with an answer unless that is lost. -/
def Writing {α : Type} (c : Choice) (answer : α) (db : SqlDatabase) (w : Option SqlWrite) (a : Except Thrown α)
    (db' : SqlDatabase) : Prop :=
  match w.bind (db.write (Default.eval c.generated)) with
  | none => a = .error .failed ∧ db' = db
  | some db₁ => a = (if c.outcome.isOk then .ok answer else .error .failed) ∧
      db' = if c.outcome.lands then db₁ else db

abbrev queryTenant (R : SqlRows) := Selects tenantColumns TenantRow.value (R "tenants")
abbrev queryUser (R : SqlRows) := Selects userColumns UserRow.value (R "users")
abbrev queryRole (R : SqlRows) := Selects roleColumns RoleRow.value (R "roles")

/-- What an operation may answer, and the database after it. -/
def AOp.Executes (bcrypt : Bcrypt) (c : Choice) (db : SqlDatabase) :
    (o : AOp) → Except Thrown o.Ans → SqlDatabase → Prop
  | .findTenant name, a, db' => db' = db ∧ Reading c ((Text.ofJs name).map fun n =>
      queryTenant db.rows fun row => row "name" = some (.string n)) TenantRow.load a
  | .findRole tenantId name, a, db' => db' = db ∧ Reading c ((Uuid.ofText tenantId).bind fun u =>
      (Text.ofJs name).map fun n => queryRole db.rows fun row =>
        row "tenantId" = some (.uuid u) ∧ row "name" = some (.string n)) RoleRow.load a
  | .findRoleById id, a, db' => db' = db ∧ Reading c ((whereUuid id).map fun w =>
      queryRole db.rows fun row => Meets w (row "id")) RoleRow.load a
  | .selectRole id, a, db' => db' = db ∧ Reading c ((whereUuid (some (.str id))).map fun w =>
      queryRole db.rows fun row => Meets w (row "id")) RoleRow.load a
  | .findUser username, a, db' => db' = db ∧ Reading c ((Text.ofJs username).map fun n =>
      queryUser db.rows fun row => row "username" = some (.string n)) UserRow.load a
  | .findUserById id, a, db' => db' = db ∧ Reading c ((whereUuid id).map fun w =>
      queryUser db.rows fun row => Meets w (row "id")) UserRow.load a
  | .insertTenant name, a, db' => Writing c c.id.toText db (AOp.insertTenant name).write a db'
  | .insertRole id tenantId name ps, a, db' =>
    Writing c (id.getD c.id.toText) db (AOp.insertRole id tenantId name ps).write a db'
  | .insertUser username passwordHash tenantId roleId, a, db' =>
    Writing c c.id.toText db (AOp.insertUser username passwordHash tenantId roleId).write a db'
  | .updateRole old given, a, db' => Writing c () db (AOp.updateRole old given).write a db'
  | .assignRole id roleId, a, db' => Writing c () db (AOp.assignRole id roleId).write a db'
  | .hash password rounds, a, db' => db' = db ∧ a = reading c (some (bcrypt.hash password rounds c.salt))
  | .compare password stored, a, db' => db' = db ∧ a = reading c (some (bcrypt.compare password stored))
  | .sign sub username tenantId, a, db' =>
    db' = db ∧ a = reading c (some ⟨sub, username, tenantId, c.now⟩)

/-- An operation that reads by a key gives it. -/
def AOp.Keyed : AOp → Prop
  | .findRoleById id | .findUserById id => isNullish id = false
  | _ => True

/-! ## Operations on a database that holds the tables -/

theorem reading_iff {α β : Type} {query : Option (Option α → Prop)} {found : Option (Option α)} {load : α → β}
    (h : Option.Rel (fun selects x => ∀ y, selects y ↔ y = x) query found) {a : Except Thrown (Option β)} :
    Reading c query load a ↔ a = reading c (found.map (·.map load)) := by
  cases h with
  | none => exact Iff.rfl
  | some hx =>
    constructor
    · rintro ⟨y, hy, ha⟩
      rw [ha, (hx y).1 hy]
      rfl
    · intro ha
      exact ⟨_, (hx _).2 rfl, ha⟩

theorem writing_stores {α : Type} {answer : α} {w : Option SqlWrite} {x : Option Tables} (h : Stores db t)
    (hr : Option.Rel Stores (w.bind (db.write (Default.eval c.generated))) x) {a : Except Thrown α}
    {db' : SqlDatabase} (hw : Writing c answer db w a db') :
    a = (writing c answer t x).1 ∧ Stores db' (writing c answer t x).2 := by
  unfold Writing at hw
  generalize w.bind (db.write (Default.eval c.generated)) = y at hr hw
  cases hr with
  | none =>
    obtain ⟨rfl, rfl⟩ := hw
    exact ⟨rfl, h⟩
  | some h₁ =>
    obtain ⟨rfl, rfl⟩ := hw
    refine ⟨rfl, ?_⟩
    cases hl : c.outcome.lands with
    | false => simpa [writing, hl] using h
    | true => simpa [writing, hl] using h₁

theorem writing_exists {α : Type} (answer : α) {w : Option SqlWrite} {x : Option Tables}
    (hr : Option.Rel Stores (w.bind (db.write (Default.eval c.generated))) x) :
    ∃ db', Writing c answer db w (writing c answer t x).1 db' := by
  unfold Writing
  generalize w.bind (db.write (Default.eval c.generated)) = y at hr
  cases hr with
  | none => exact ⟨db, rfl, rfl⟩
  | some _ => exact ⟨_, rfl, rfl⟩

theorem whereUuid_keyed {v : JsValue} (hv : isNullish v = false) :
    whereUuid v = none ∨ ∃ u, whereUuid v = some (.eq u) := by
  rw [whereUuid_of_not_nullish hv]
  cases uuidOf v with
  | none => exact Or.inl rfl
  | some u => exact Or.inr ⟨u, rfl⟩

/-- The columns of a record determine it. -/
theorem tenant_ext {x y : TenantRow} (h : ∀ n ∈ tenantColumns, x.value n = y.value n) : x = y := by
  simp only [tenantColumns, List.forall_mem_cons] at h
  obtain ⟨h1, h2, -⟩ := h
  cases x; cases y
  cases h1; cases h2
  rfl

theorem user_ext {x y : UserRow} (h : ∀ n ∈ userColumns, x.value n = y.value n) : x = y := by
  simp only [userColumns, List.forall_mem_cons] at h
  obtain ⟨h1, h2, h3, h4, h5, -⟩ := h
  have hrole : x.roleId = y.roleId := Option.map_injective (fun _ _ he => Value.uuid.inj he) h5
  cases x; cases y
  cases h1; cases h2; cases h3; cases h4; cases hrole
  rfl

theorem role_ext {x y : RoleRow} (h : ∀ n ∈ roleColumns, x.value n = y.value n) : x = y := by
  simp only [roleColumns, List.forall_mem_cons] at h
  obtain ⟨h1, h2, h3, h4, -⟩ := h
  cases x; cases y
  cases h1; cases h2; cases h3; cases h4
  rfl

theorem meets_iff {u v : Uuid} : Meets (.eq u) (some (.uuid v)) ↔ (UuidWhere.eq u).holds v = true := by
  have hm : Meets (.eq u) (some (.uuid v)) ↔ v = u := by simp [Meets]
  rw [hm, UuidWhere.holds, beq_iff_eq, eq_comm]

theorem Stores.queryTenant_iff (h : Stores db t) (n : Text) (y : Option TenantRow) :
    queryTenant db.rows (fun row => row "name" = some (.string n)) y ↔
      y = t.tenants.find? (·.name == n) := by
  refine h.represents.tenants.selects_iff (fun row x hx => ?_) (fun x y => tenant_ext)
    fun x hx y hy hp hq => ?_
  · rw [hx "name" (by decide)]
    simp [TenantRow.value]
  · exact List.inj_on_of_nodup_map t.valid.tenantNames hx hy ((beq_iff_eq.1 hp).trans (beq_iff_eq.1 hq).symm)

theorem Stores.queryUser_iff (h : Stores db t) (n : Text) (y : Option UserRow) :
    queryUser db.rows (fun row => row "username" = some (.string n)) y ↔
      y = t.users.find? (·.username == n) := by
  refine h.represents.users.selects_iff (fun row x hx => ?_) (fun x y => user_ext)
    fun x hx y hy hp hq => ?_
  · rw [hx "username" (by decide)]
    simp [UserRow.value]
  · exact List.inj_on_of_nodup_map t.valid.usernames hx hy ((beq_iff_eq.1 hp).trans (beq_iff_eq.1 hq).symm)

theorem Stores.queryUser_id_iff (h : Stores db t) (u : Uuid) (y : Option UserRow) :
    queryUser db.rows (fun row => Meets (.eq u) (row "id")) y ↔
      y = t.users.find? fun x => (UuidWhere.eq u).holds x.id := by
  refine h.represents.users.selects_iff (fun row x hx => ?_) (fun x y => user_ext)
    fun x hx y hy hp hq => ?_
  · rw [hx "id" (by decide)]
    exact meets_iff
  · exact Tables.user_eq hx hy ((beq_iff_eq.1 hp).symm.trans (beq_iff_eq.1 hq))

theorem Stores.queryRole_iff (h : Stores db t) (u : Uuid) (n : Text) (y : Option RoleRow) :
    queryRole db.rows (fun row => row "tenantId" = some (.uuid u) ∧ row "name" = some (.string n)) y ↔
      y = t.roles.find? fun r => r.tenantId == u && r.name == n := by
  refine h.represents.roles.selects_iff (fun row x hx => ?_) (fun x y => role_ext)
    fun x hx y hy hp hq => ?_
  · rw [hx "tenantId" (by decide), hx "name" (by decide)]
    simp [RoleRow.value]
  · obtain ⟨h1, h2⟩ := Bool.and_eq_true_iff.1 hp
    obtain ⟨h3, h4⟩ := Bool.and_eq_true_iff.1 hq
    refine List.inj_on_of_nodup_map t.valid.roleNames hx hy (Prod.ext ?_ ?_)
    · exact (beq_iff_eq.1 h1).trans (beq_iff_eq.1 h3).symm
    · exact (beq_iff_eq.1 h2).trans (beq_iff_eq.1 h4).symm

theorem Stores.queryRole_id_iff (h : Stores db t) (u : Uuid) (y : Option RoleRow) :
    queryRole db.rows (fun row => Meets (.eq u) (row "id")) y ↔
      y = t.roles.find? fun x => (UuidWhere.eq u).holds x.id := by
  refine h.represents.roles.selects_iff (fun row x hx => ?_) (fun x y => role_ext)
    fun x hx y hy hp hq => ?_
  · rw [hx "id" (by decide)]
    exact meets_iff
  · exact Tables.role_eq hx hy ((beq_iff_eq.1 hp).symm.trans (beq_iff_eq.1 hq))

/-- A read by the id. -/
theorem Stores.findUserById_iff (h : Stores db t) {id : JsValue} (hid : isNullish id = false)
    {a : Except Thrown (Option User)} :
    Reading c ((whereUuid id).map fun w => queryUser db.rows fun row => Meets w (row "id")) UserRow.load a ↔
      a = reading c (t.findUserById id) := by
  have hf : t.findUserById id =
      ((whereUuid id).map fun w => t.users.find? fun u => w.holds u.id).map (·.map UserRow.load) := by
    rw [Option.map_map]
    rfl
  rw [hf]
  refine reading_iff ?_
  rcases whereUuid_keyed hid with hw | ⟨u, hw⟩
  · rw [hw]
    exact .none
  · rw [hw]
    exact .some (h.queryUser_id_iff u)

theorem Stores.findRoleById_iff (h : Stores db t) {id : JsValue} (hid : isNullish id = false)
    {a : Except Thrown (Option Role)} :
    Reading c ((whereUuid id).map fun w => queryRole db.rows fun row => Meets w (row "id")) RoleRow.load a ↔
      a = reading c (t.findRoleById id) := by
  have hf : t.findRoleById id =
      ((whereUuid id).map fun w => t.roles.find? fun r => w.holds r.id).map (·.map RoleRow.load) := by
    rw [Option.map_map]
    rfl
  rw [hf]
  refine reading_iff ?_
  rcases whereUuid_keyed hid with hw | ⟨u, hw⟩
  · rw [hw]
    exact .none
  · rw [hw]
    exact .some (h.queryRole_id_iff u)

theorem Stores.findTenant_iff (h : Stores db t) {name : JsString} {a : Except Thrown (Option Tenant)} :
    Reading c ((Text.ofJs name).map fun n => queryTenant db.rows fun row => row "name" = some (.string n))
      TenantRow.load a ↔ a = reading c (t.findTenant name) := by
  have hf : t.findTenant name =
      ((Text.ofJs name).map fun n => t.tenants.find? (·.name == n)).map (·.map TenantRow.load) := by
    rw [Option.map_map]
    rfl
  rw [hf]
  exact reading_iff (rel_map _ h.queryTenant_iff)

theorem Stores.findUser_iff (h : Stores db t) {username : JsString} {a : Except Thrown (Option User)} :
    Reading c ((Text.ofJs username).map fun n => queryUser db.rows fun row =>
      row "username" = some (.string n)) UserRow.load a ↔ a = reading c (t.findUser username) := by
  have hf : t.findUser username =
      ((Text.ofJs username).map fun n => t.users.find? (·.username == n)).map (·.map UserRow.load) := by
    rw [Option.map_map]
    rfl
  rw [hf]
  exact reading_iff (rel_map _ h.queryUser_iff)

theorem Stores.findRole_iff (h : Stores db t) {tenantId name : JsString} {a : Except Thrown (Option Role)} :
    Reading c ((Uuid.ofText tenantId).bind fun u => (Text.ofJs name).map fun n =>
      queryRole db.rows fun row => row "tenantId" = some (.uuid u) ∧ row "name" = some (.string n))
      RoleRow.load a ↔ a = reading c (t.findRole tenantId name) := by
  have hf : t.findRole tenantId name = ((Uuid.ofText tenantId).bind fun u => (Text.ofJs name).map fun n =>
      t.roles.find? fun r => r.tenantId == u && r.name == n).map (·.map RoleRow.load) := by
    rw [Tables.findRole]
    cases Uuid.ofText tenantId with
    | none => rfl
    | some u => cases Text.ofJs name <;> rfl
  rw [hf]
  exact reading_iff (rel_bind _ fun u => rel_map _ (h.queryRole_iff u))

/-- **Where the database holds the tables, an operation answers and leaves what it does of these.** -/
theorem executes_stores {bcrypt : Bcrypt} (h : Stores db t) {o : AOp} (hk : o.Keyed) {a : Except Thrown o.Ans}
    {db' : SqlDatabase} (he : o.Executes bcrypt c db a db') :
    a = (o.answer bcrypt c t).1 ∧ Stores db' (o.answer bcrypt c t).2 := by
  cases o with
  | findTenant name => exact ⟨h.findTenant_iff.1 he.2, he.1 ▸ h⟩
  | findRole tenantId name => exact ⟨h.findRole_iff.1 he.2, he.1 ▸ h⟩
  | findRoleById id => exact ⟨(h.findRoleById_iff hk).1 he.2, he.1 ▸ h⟩
  | selectRole id => exact ⟨(h.findRoleById_iff rfl).1 he.2, he.1 ▸ h⟩
  | findUser username => exact ⟨h.findUser_iff.1 he.2, he.1 ▸ h⟩
  | findUserById id => exact ⟨(h.findUserById_iff hk).1 he.2, he.1 ▸ h⟩
  | insertTenant name => exact writing_stores h (write_effect h (.insertTenant name) c) he
  | insertRole id tenantId name permissions =>
    exact writing_stores h (write_effect h (.insertRole id tenantId name permissions) c) he
  | insertUser username passwordHash tenantId roleId =>
    exact writing_stores h (write_effect h (.insertUser username passwordHash tenantId roleId) c) he
  | updateRole old given => exact writing_stores h (write_effect h (.updateRole old given) c) he
  | assignRole id roleId => exact writing_stores h (write_effect h (.assignRole id roleId) c) he
  | hash | compare | sign => exact ⟨he.2, he.1 ▸ h⟩

/-- The database can do what the tables do. -/
theorem executes_exists (bcrypt : Bcrypt) (c : Choice) (h : Stores db t) {o : AOp} (hk : o.Keyed) :
    ∃ db', o.Executes bcrypt c db (o.answer bcrypt c t).1 db' := by
  cases o with
  | findTenant name => exact ⟨db, rfl, h.findTenant_iff.2 rfl⟩
  | findRole tenantId name => exact ⟨db, rfl, h.findRole_iff.2 rfl⟩
  | findRoleById id => exact ⟨db, rfl, (h.findRoleById_iff hk).2 rfl⟩
  | selectRole id => exact ⟨db, rfl, (h.findRoleById_iff rfl).2 rfl⟩
  | findUser username => exact ⟨db, rfl, h.findUser_iff.2 rfl⟩
  | findUserById id => exact ⟨db, rfl, (h.findUserById_iff hk).2 rfl⟩
  | insertTenant name => exact writing_exists _ (write_effect h (.insertTenant name) c)
  | insertRole id tenantId name permissions =>
    exact writing_exists _ (write_effect h (.insertRole id tenantId name permissions) c)
  | insertUser username passwordHash tenantId roleId =>
    exact writing_exists _ (write_effect h (.insertUser username passwordHash tenantId roleId) c)
  | updateRole old given => exact writing_exists _ (write_effect h (.updateRole old given) c)
  | assignRole id roleId => exact writing_exists _ (write_effect h (.assignRole id roleId) c)
  | hash | compare | sign => exact ⟨db, rfl, rfl⟩

end

end SystemDesign.Accounts
