/-
  The tables of the services in the migrated database.

  The services read `tenants`, `users` and `roles` as records (`Represents`), and rely on the
  constraints `Rows.Valid`.  These are the constraints of the schema that the migrations leave:
  `valid_iff_tables`: the databases that this schema admits are those that hold a value of `Tables`.
-/
import SystemDesign.Accounts.Tables
import SystemDesign.Lib.Records
import SystemDesign.Migrations.Migration

namespace SystemDesign.Accounts

open Lib Sql Migrations

/-! ## Records -/

abbrev SqlRows := Sql.Rows String Value

def TenantRow.value (x : TenantRow) : Sql.Row String Value
  | "id" => some (.uuid x.id)
  | "name" => some (.string x.name)
  | _ => none

def UserRow.value (u : UserRow) : Sql.Row String Value
  | "id" => some (.uuid u.id)
  | "username" => some (.string u.username)
  | "passwordHash" => some (.string u.passwordHash)
  | "tenantId" => some (.uuid u.tenantId)
  | "roleId" => u.roleId.map .uuid
  | _ => none

def RoleRow.value (r : RoleRow) : Sql.Row String Value
  | "id" => some (.uuid r.id)
  | "tenantId" => some (.uuid r.tenantId)
  | "name" => some (.string r.name)
  | "permissions" => some (.string r.permissions)
  | _ => none

def tenantColumns : List String := ["id", "name"]
def userColumns : List String := ["id", "username", "passwordHash", "tenantId", "roleId"]
def roleColumns : List String := ["id", "tenantId", "name", "permissions"]

/-- The three tables hold these records. -/
structure Represents (R : SqlRows) (r : Rows) : Prop where
  tenants : Shows tenantColumns TenantRow.value (R "tenants") r.tenants
  users : Shows userColumns UserRow.value (R "users") r.users
  roles : Shows roleColumns RoleRow.value (R "roles") r.roles

/-- What the services do not read is as the schema asks: the other tables, and `createdAt`. -/
structure Rest (R : SqlRows) : Prop where
  tasks : tasksTable.Admits R
  processedEvents : processedEventsTable.Admits R
  createdAt : ∀ n ∈ ["tenants", "users", "roles"], ∀ row ∈ R n, ∃ t, row "createdAt" = some (.timestamp t)

/-! ## The constraints -/

section
variable {R : SqlRows} {r : Rows}

theorem admits_createdAt {n : String} :
    (∀ vs ∈ select R n ["createdAt"], ∀ v ∈ vs,
      (createdAtColumn.column : Column String SqlType Default).Admits v) ↔
      ∀ row ∈ R n, ∃ t, row "createdAt" = some (.timestamp t) := by
  constructor
  · intro h row hr
    have ha := h [row "createdAt"] (List.mem_map.2 ⟨row, hr, rfl⟩) _ List.mem_cons_self
    cases hv : row "createdAt" with
    | none => rw [hv] at ha; cases ha
    | some v =>
      rw [hv] at ha
      cases v with
      | timestamp t => exact ⟨t, rfl⟩
      | uuid | string | boolean => cases ha
  · intro h vs hvs v hv
    obtain ⟨row, hr, rfl⟩ := List.mem_map.1 hvs
    obtain ⟨t, ht⟩ := h row hr
    rw [List.mem_singleton.1 hv, ht]
    rfl

/-- **`tenants`.** -/
theorem admits_tenants (h : Represents R r) : tenantsTable.Admits R ↔
    (∀ row ∈ R "tenants", ∃ t, row "createdAt" = some (.timestamp t)) ∧
      (r.tenants.map (·.id)).Nodup ∧ (r.tenants.map (·.name)).Nodup := by
  have hid : (select R "tenants" ["id"]).Pairwise (fun vs ws => none ∈ vs ∨ vs ≠ ws) ↔
      (r.tenants.map (·.id)).Nodup :=
    h.tenants.unique_iff (by decide) (fun x y => by simp [TenantRow.value]) fun x => by simp [TenantRow.value]
  have hname : (select R "tenants" ["name"]).Pairwise (fun vs ws => none ∈ vs ∨ vs ≠ ws) ↔
      (r.tenants.map (·.name)).Nodup :=
    h.tenants.unique_iff (by decide) (fun x y => by simp [TenantRow.value]) fun x => by simp [TenantRow.value]
  have hcolumns : tenantsTable.columns = [⟨"id", .uuid, false, some .uuidGenerateV4⟩,
      ⟨"name", .characterVarying, false, none⟩, createdAtColumn.column] := rfl
  have huniques : tenantsTable.uniques = [⟨none, ["id"], true⟩, ⟨none, ["name"], false⟩] := rfl
  rw [← admits_createdAt, ← hid, ← hname, admits_iff, hcolumns, huniques]
  simp only [List.forall_mem_cons]
  constructor
  · rintro ⟨⟨-, -, hc, -⟩, ⟨hi, hn, -⟩, -⟩
    exact ⟨hc, hi, hn⟩
  · rintro ⟨hc, hi, hn⟩
    refine ⟨⟨?_, ?_, hc, List.forall_mem_nil _⟩, ⟨hi, hn, List.forall_mem_nil _⟩, List.forall_mem_nil _⟩
    · exact (h.tenants.column_iff (by decide)).2 fun x _ => rfl
    · exact (h.tenants.column_iff (by decide)).2 fun x _ => rfl

/-- **`users`.** -/
theorem admits_users (h : Represents R r) : roledUsersTable.Admits R ↔
    (∀ row ∈ R "users", ∃ t, row "createdAt" = some (.timestamp t)) ∧
      ((r.users.map (·.id)).Nodup ∧ (r.users.map (·.username)).Nodup) ∧
        (∀ u ∈ r.users, u.tenantId ∈ r.tenants.map (·.id)) ∧
          ∀ u ∈ r.users, ∀ id ∈ u.roleId, id ∈ r.roles.map (·.id) := by
  have hid : (select R "users" ["id"]).Pairwise (fun vs ws => none ∈ vs ∨ vs ≠ ws) ↔
      (r.users.map (·.id)).Nodup :=
    h.users.unique_iff (by decide) (fun x y => by simp [UserRow.value]) fun x => by simp [UserRow.value]
  have hname : (select R "users" ["username"]).Pairwise (fun vs ws => none ∈ vs ∨ vs ≠ ws) ↔
      (r.users.map (·.username)).Nodup :=
    h.users.unique_iff (by decide) (fun x y => by simp [UserRow.value]) fun x => by simp [UserRow.value]
  have htenant : (∀ vs ∈ select R "users" ["tenantId"], none ∈ vs ∨ vs ∈ select R "tenants" ["id"]) ↔
      ∀ u ∈ r.users, u.tenantId ∈ r.tenants.map (·.id) := by
    refine (h.users.refers_iff (by decide) h.tenants (by decide)).trans (forall₂_congr fun u _ => ?_)
    simp [UserRow.value, TenantRow.value]
  have hrole : (∀ vs ∈ select R "users" ["roleId"], none ∈ vs ∨ vs ∈ select R "roles" ["id"]) ↔
      ∀ u ∈ r.users, ∀ id ∈ u.roleId, id ∈ r.roles.map (·.id) := by
    refine (h.users.refers_iff (by decide) h.roles (by decide)).trans (forall₂_congr fun u _ => ?_)
    cases hr : u.roleId with
    | none => simp [UserRow.value, hr]
    | some id => simp [UserRow.value, RoleRow.value, hr]
  have hcolumns : roledUsersTable.columns = [⟨"id", .uuid, false, some .uuidGenerateV4⟩,
      ⟨"username", .characterVarying, false, none⟩, ⟨"passwordHash", .characterVarying, false, none⟩,
      createdAtColumn.column, ⟨"tenantId", .uuid, false, none⟩, ⟨"roleId", .uuid, true, none⟩] := rfl
  have huniques : roledUsersTable.uniques = [⟨none, ["id"], true⟩, ⟨none, ["username"], false⟩] := rfl
  have hkeys : roledUsersTable.foreignKeys = [⟨some "FK_users_tenantId", ["tenantId"], "tenants", ["id"]⟩,
      ⟨some "FK_users_roleId", ["roleId"], "roles", ["id"]⟩] := rfl
  rw [← admits_createdAt, ← hid, ← hname, ← htenant, ← hrole, admits_iff, hcolumns, huniques, hkeys]
  simp only [List.forall_mem_cons]
  constructor
  · rintro ⟨⟨-, -, -, hc, -⟩, ⟨hi, hn, -⟩, ht, hro, -⟩
    exact ⟨hc, ⟨hi, hn⟩, ht, hro⟩
  · rintro ⟨hc, ⟨hi, hn⟩, ht, hro⟩
    refine ⟨⟨?_, ?_, ?_, hc, ?_, ?_, List.forall_mem_nil _⟩, ⟨hi, hn, List.forall_mem_nil _⟩, ht, hro,
      List.forall_mem_nil _⟩
    · exact (h.users.column_iff (by decide)).2 fun x _ => rfl
    · exact (h.users.column_iff (by decide)).2 fun x _ => rfl
    · exact (h.users.column_iff (by decide)).2 fun x _ => rfl
    · exact (h.users.column_iff (by decide)).2 fun x _ => rfl
    · refine (h.users.column_iff (by decide)).2 fun x _ => ?_
      cases hr : x.roleId <;> simp [UserRow.value, hr, Column.Admits, Typed.hasType]

/-- **`roles`.** -/
theorem admits_roles (h : Represents R r) : rolesTable.Admits R ↔
    (∀ row ∈ R "roles", ∃ t, row "createdAt" = some (.timestamp t)) ∧
      ((r.roles.map (·.id)).Nodup ∧ (r.roles.map fun x => (x.tenantId, x.name)).Nodup) ∧
        ∀ x ∈ r.roles, x.tenantId ∈ r.tenants.map (·.id) := by
  have hid : (select R "roles" ["id"]).Pairwise (fun vs ws => none ∈ vs ∨ vs ≠ ws) ↔
      (r.roles.map (·.id)).Nodup :=
    h.roles.unique_iff (by decide) (fun x y => by simp [RoleRow.value]) fun x => by simp [RoleRow.value]
  have hname : (select R "roles" ["tenantId", "name"]).Pairwise (fun vs ws => none ∈ vs ∨ vs ≠ ws) ↔
      (r.roles.map fun x => (x.tenantId, x.name)).Nodup :=
    h.roles.unique_iff (by decide) (fun x y => by simp [RoleRow.value]) fun x => by simp [RoleRow.value]
  have htenant : (∀ vs ∈ select R "roles" ["tenantId"], none ∈ vs ∨ vs ∈ select R "tenants" ["id"]) ↔
      ∀ x ∈ r.roles, x.tenantId ∈ r.tenants.map (·.id) := by
    refine (h.roles.refers_iff (by decide) h.tenants (by decide)).trans (forall₂_congr fun x _ => ?_)
    simp [RoleRow.value, TenantRow.value]
  have hcolumns : rolesTable.columns = [⟨"id", .uuid, false, some .uuidGenerateV4⟩,
      ⟨"tenantId", .uuid, false, none⟩, ⟨"name", .characterVarying, false, none⟩,
      ⟨"permissions", .text, false, none⟩, createdAtColumn.column] := rfl
  have huniques : rolesTable.uniques = [⟨none, ["id"], true⟩,
      ⟨some "UQ_roles_tenantId_name", ["tenantId", "name"], false⟩] := rfl
  have hkeys : rolesTable.foreignKeys = [⟨some "FK_roles_tenantId", ["tenantId"], "tenants", ["id"]⟩] := rfl
  rw [← admits_createdAt, ← hid, ← hname, ← htenant, admits_iff, hcolumns, huniques, hkeys]
  simp only [List.forall_mem_cons]
  constructor
  · rintro ⟨⟨-, -, -, -, hc, -⟩, ⟨hi, hn, -⟩, ht, -⟩
    exact ⟨hc, ⟨hi, hn⟩, ht⟩
  · rintro ⟨hc, ⟨hi, hn⟩, ht⟩
    refine ⟨⟨?_, ?_, ?_, ?_, hc, List.forall_mem_nil _⟩, ⟨hi, hn, List.forall_mem_nil _⟩, ht,
      List.forall_mem_nil _⟩
    · exact (h.roles.column_iff (by decide)).2 fun x _ => rfl
    · exact (h.roles.column_iff (by decide)).2 fun x _ => rfl
    · exact (h.roles.column_iff (by decide)).2 fun x _ => rfl
    · exact (h.roles.column_iff (by decide)).2 fun x _ => rfl

theorem schema_wf : (schemaAt 4).Wf := by decide

/-- **The constraints of the schema are those the services rely on.** -/
theorem valid_iff (h : Represents R r) : Sql.Database.Valid ⟨schemaAt 4, R⟩ ↔ Rest R ∧ r.Valid := by
  have hall : (∀ t ∈ schemaAt 4, t.Admits R) ↔ tasksTable.Admits R ∧ processedEventsTable.Admits R ∧
      roledUsersTable.Admits R ∧ tenantsTable.Admits R ∧ rolesTable.Admits R := by
    simp only [schemaAt, List.forall_mem_cons, List.not_mem_nil, false_implies, implies_true, and_true]
  constructor
  · rintro ⟨-, ha⟩
    obtain ⟨ht, hp, hu, hten, hr⟩ := hall.1 ha
    obtain ⟨hcu, ⟨hui, hun⟩, hut, hur⟩ := (admits_users h).1 hu
    obtain ⟨hct, hti, htn⟩ := (admits_tenants h).1 hten
    obtain ⟨hcr, ⟨hri, hrn⟩, hrt⟩ := (admits_roles h).1 hr
    refine ⟨⟨ht, hp, ?_⟩, hti, htn, hui, hun, hri, hrn, hut, hur, hrt⟩
    simp only [List.forall_mem_cons]
    exact ⟨hct, hcu, hcr, List.forall_mem_nil _⟩
  · rintro ⟨⟨ht, hp, hc⟩, hv⟩
    simp only [List.forall_mem_cons] at hc
    obtain ⟨hct, hcu, hcr, -⟩ := hc
    refine ⟨schema_wf, hall.2 ⟨ht, hp, ?_, ?_, ?_⟩⟩
    · exact (admits_users h).2 ⟨hcu, ⟨hv.userIds, hv.usernames⟩, hv.userTenants, hv.userRoles⟩
    · exact (admits_tenants h).2 ⟨hct, hv.tenantIds, hv.tenantNames⟩
    · exact (admits_roles h).2 ⟨hcr, ⟨hv.roleIds, hv.roleNames⟩, hv.roleTenants⟩

/-! ## Every row is a record -/

/-- A column admits the value of each row. -/
theorem admits_row {t : Table String SqlType Default} (h : t.Admits R) {c : Column String SqlType Default}
    (hc : c ∈ t.columns) {row : Sql.Row String Value} (hr : row ∈ R t.name) : c.Admits (row c.name) :=
  h.columns c hc _ (List.mem_map.2 ⟨row, hr, rfl⟩) _ List.mem_cons_self

theorem uuid_of_admits {n : String} {d : Option Default} {v : Option Value}
    (h : (⟨n, .uuid, false, d⟩ : Column String SqlType Default).Admits v) : ∃ u, v = some (.uuid u) := by
  rcases v with _ | v
  · cases h
  · cases v with
    | uuid u => exact ⟨u, rfl⟩
    | string | boolean | timestamp => cases h

theorem uuidOrNull_of_admits {n : String} {d : Option Default} {v : Option Value}
    (h : (⟨n, .uuid, true, d⟩ : Column String SqlType Default).Admits v) :
    ∃ o : Option Uuid, v = o.map .uuid := by
  rcases v with _ | v
  · exact ⟨none, rfl⟩
  · cases v with
    | uuid u => exact ⟨some u, rfl⟩
    | string | boolean | timestamp => cases h

theorem text_of_admits {n : String} {ty : SqlType} (hty : ty = .characterVarying ∨ ty = .text)
    {d : Option Default} {v : Option Value}
    (h : (⟨n, ty, false, d⟩ : Column String SqlType Default).Admits v) : ∃ s, v = some (.string s) := by
  rcases v with _ | v
  · cases h
  · rcases hty with rfl | rfl <;> cases v with
    | string s => exact ⟨s, rfl⟩
    | uuid | boolean | timestamp => cases h

theorem shows_tenants (h : tenantsTable.Admits R) :
    ∃ l, Shows tenantColumns TenantRow.value (R "tenants") l := by
  refine shows_of_forall fun row hr => ?_
  have get := fun c hc => admits_row h (c := c) hc hr
  obtain ⟨id, hid⟩ := uuid_of_admits (get ⟨"id", .uuid, false, some .uuidGenerateV4⟩ (by decide))
  obtain ⟨name, hname⟩ := text_of_admits (Or.inl rfl) (get ⟨"name", .characterVarying, false, none⟩ (by decide))
  refine ⟨⟨id, name⟩, ?_⟩
  simp only [tenantColumns, List.forall_mem_cons]
  exact ⟨hid, hname, List.forall_mem_nil _⟩

theorem shows_users (h : roledUsersTable.Admits R) :
    ∃ l, Shows userColumns UserRow.value (R "users") l := by
  refine shows_of_forall fun row hr => ?_
  have get := fun c hc => admits_row h (c := c) hc hr
  obtain ⟨id, hid⟩ := uuid_of_admits (get ⟨"id", .uuid, false, some .uuidGenerateV4⟩ (by decide))
  obtain ⟨username, hname⟩ :=
    text_of_admits (Or.inl rfl) (get ⟨"username", .characterVarying, false, none⟩ (by decide))
  obtain ⟨hash, hhash⟩ :=
    text_of_admits (Or.inl rfl) (get ⟨"passwordHash", .characterVarying, false, none⟩ (by decide))
  obtain ⟨tenantId, htenant⟩ := uuid_of_admits (get ⟨"tenantId", .uuid, false, none⟩ (by decide))
  obtain ⟨roleId, hrole⟩ := uuidOrNull_of_admits (get ⟨"roleId", .uuid, true, none⟩ (by decide))
  refine ⟨⟨id, username, hash, tenantId, roleId⟩, ?_⟩
  simp only [userColumns, List.forall_mem_cons]
  exact ⟨hid, hname, hhash, htenant, hrole, List.forall_mem_nil _⟩

theorem shows_roles (h : rolesTable.Admits R) :
    ∃ l, Shows roleColumns RoleRow.value (R "roles") l := by
  refine shows_of_forall fun row hr => ?_
  have get := fun c hc => admits_row h (c := c) hc hr
  obtain ⟨id, hid⟩ := uuid_of_admits (get ⟨"id", .uuid, false, some .uuidGenerateV4⟩ (by decide))
  obtain ⟨tenantId, htenant⟩ := uuid_of_admits (get ⟨"tenantId", .uuid, false, none⟩ (by decide))
  obtain ⟨name, hname⟩ := text_of_admits (Or.inl rfl) (get ⟨"name", .characterVarying, false, none⟩ (by decide))
  obtain ⟨permissions, hperm⟩ :=
    text_of_admits (Or.inr rfl) (get ⟨"permissions", .text, false, none⟩ (by decide))
  refine ⟨⟨id, tenantId, name, permissions⟩, ?_⟩
  simp only [roleColumns, List.forall_mem_cons]
  exact ⟨hid, htenant, hname, hperm, List.forall_mem_nil _⟩

theorem exists_represents (hv : Sql.Database.Valid ⟨schemaAt 4, R⟩) : ∃ r, Represents R r := by
  obtain ⟨tenants, htenants⟩ := shows_tenants (hv.admits _ (by simp [schemaAt]))
  obtain ⟨users, husers⟩ := shows_users (hv.admits _ (by simp [schemaAt]))
  obtain ⟨roles, hroles⟩ := shows_roles (hv.admits _ (by simp [schemaAt]))
  exact ⟨⟨tenants, users, roles⟩, htenants, husers, hroles⟩

/-- **The databases of the last version are the tables of the services.**  Any rows: the schema after all
    migrations admits them iff the three tables hold a value of `Tables`, and the rest, which the services
    do not read, is as the schema asks. -/
theorem valid_iff_tables (R : SqlRows) :
    Sql.Database.Valid ⟨schemaAt 4, R⟩ ↔ Rest R ∧ ∃ t : Tables, Represents R t.toRows := by
  constructor
  · intro hv
    obtain ⟨r, hr⟩ := exists_represents hv
    obtain ⟨hrest, hvalid⟩ := (valid_iff hr).1 hv
    exact ⟨hrest, ⟨r, hvalid⟩, hr⟩
  · rintro ⟨hrest, t, hr⟩
    exact (valid_iff hr).2 ⟨hrest, t.valid⟩

end

end SystemDesign.Accounts
