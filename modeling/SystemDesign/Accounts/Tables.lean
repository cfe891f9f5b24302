/-
  The tables `tenants`, `users` and `roles`.

  A row holds uuids and texts as the database has them; an entity holds the strings that the
  program sees.  `Rows.Valid` are the constraints of the migrations, and `Tables` rows that
  satisfy them: a statement that would violate a constraint is rejected (`Rows.commit`).
-/
import SystemDesign.Database
import SystemDesign.Lib.Separated

namespace SystemDesign.Accounts

open Lib

/-! ## Entities -/

structure Tenant where
  id : JsString
  name : JsString
deriving DecidableEq

structure User where
  id : JsString
  username : JsString
  passwordHash : JsString
  tenantId : JsString
  roleId : Option JsString
deriving DecidableEq

structure Role where
  id : JsString
  tenantId : JsString
  name : JsString
  permissions : List JsString
deriving DecidableEq

/-- The separator of a `simple-array` column. -/
def comma : UInt16 := 0x2C

/-! ## Rows -/

structure TenantRow where
  id : Uuid
  name : Text
deriving DecidableEq

structure UserRow where
  id : Uuid
  username : Text
  passwordHash : Text
  tenantId : Uuid
  roleId : Option Uuid
deriving DecidableEq

structure RoleRow where
  id : Uuid
  tenantId : Uuid
  name : Text
  permissions : Text
deriving DecidableEq

def TenantRow.load (r : TenantRow) : Tenant := ⟨r.id.toText, r.name.units⟩

def UserRow.load (r : UserRow) : User :=
  ⟨r.id.toText, r.username.units, r.passwordHash.units, r.tenantId.toText, r.roleId.map Uuid.toText⟩

def RoleRow.load (r : RoleRow) : Role :=
  ⟨r.id.toText, r.tenantId.toText, r.name.units, splitBy comma r.permissions.units⟩

structure Rows where
  tenants : List TenantRow
  users : List UserRow
  roles : List RoleRow
deriving DecidableEq

/-- The primary keys, the unique columns and the foreign keys. -/
structure Rows.Valid (r : Rows) : Prop where
  tenantIds : (r.tenants.map (·.id)).Nodup
  tenantNames : (r.tenants.map (·.name)).Nodup
  userIds : (r.users.map (·.id)).Nodup
  usernames : (r.users.map (·.username)).Nodup
  roleIds : (r.roles.map (·.id)).Nodup
  roleNames : (r.roles.map fun x => (x.tenantId, x.name)).Nodup
  userTenants : ∀ u ∈ r.users, u.tenantId ∈ r.tenants.map (·.id)
  userRoles : ∀ u ∈ r.users, ∀ id ∈ u.roleId, id ∈ r.roles.map (·.id)
  roleTenants : ∀ x ∈ r.roles, x.tenantId ∈ r.tenants.map (·.id)

instance (r : Rows) : Decidable r.Valid :=
  decidable_of_iff
    ((r.tenants.map (·.id)).Nodup ∧ (r.tenants.map (·.name)).Nodup ∧ (r.users.map (·.id)).Nodup ∧
      (r.users.map (·.username)).Nodup ∧ (r.roles.map (·.id)).Nodup ∧
      (r.roles.map fun x => (x.tenantId, x.name)).Nodup ∧
      (∀ u ∈ r.users, u.tenantId ∈ r.tenants.map (·.id)) ∧
      (∀ u ∈ r.users, ∀ id ∈ u.roleId, id ∈ r.roles.map (·.id)) ∧
      ∀ x ∈ r.roles, x.tenantId ∈ r.tenants.map (·.id))
    ⟨fun ⟨h1, h2, h3, h4, h5, h6, h7, h8, h9⟩ => ⟨h1, h2, h3, h4, h5, h6, h7, h8, h9⟩,
      fun ⟨h1, h2, h3, h4, h5, h6, h7, h8, h9⟩ => ⟨h1, h2, h3, h4, h5, h6, h7, h8, h9⟩⟩

structure Tables extends Rows where
  valid : toRows.Valid

/-- The rows a statement leaves; `none` where they violate a constraint. -/
def Rows.commit (r : Rows) : Option Tables := if h : r.Valid then some ⟨r, h⟩ else none

theorem Rows.toRows_commit {r : Rows} {t : Tables} (h : r.commit = some t) : t.toRows = r := by
  unfold Rows.commit at h
  split_ifs at h
  rw [← Option.some.inj h]

/-- The tables after the migrations: one tenant, `default`. -/
def migrated (id : Uuid) : Tables where
  tenants := [⟨id, ⟨js "default", by decide, by decide⟩⟩]
  users := []
  roles := []
  valid := by constructor <;> simp

/-! ## Keys -/

section
variable {t : Tables}

theorem Tables.user_eq {u v : UserRow} (hu : u ∈ t.users) (hv : v ∈ t.users) (h : u.id = v.id) : u = v :=
  List.inj_on_of_nodup_map t.valid.userIds hu hv h

theorem Tables.user_eq_of_named {username : JsString} {u v : UserRow} (hu : u ∈ t.users) (hv : v ∈ t.users)
    (h : Text.ofJs username = some u.username) (h' : Text.ofJs username = some v.username) : u = v :=
  List.inj_on_of_nodup_map t.valid.usernames hu hv (Option.some.inj (h.symm.trans h'))

theorem Tables.role_eq {r s : RoleRow} (hr : r ∈ t.roles) (hs : s ∈ t.roles) (h : r.id = s.id) : r = s :=
  List.inj_on_of_nodup_map t.valid.roleIds hr hs h

theorem Tables.tenant_eq_of_named {name : JsString} {x y : TenantRow} (hx : x ∈ t.tenants)
    (hy : y ∈ t.tenants) (h : Text.ofJs name = some x.name) (h' : Text.ofJs name = some y.name) : x = y :=
  List.inj_on_of_nodup_map t.valid.tenantNames hx hy (Option.some.inj (h.symm.trans h'))

end

/-! ## Reading

`none` where Postgres rejects the query. -/

variable (t : Tables)

/-- `findOne({ where: { name } })` -/
def Tables.findTenant (name : JsString) : Option (Option Tenant) :=
  (Text.ofJs name).map fun n => (t.tenants.find? (·.name == n)).map TenantRow.load

/-- `findOne({ where: { tenantId, name } })` -/
def Tables.findRole (tenantId name : JsString) : Option (Option Role) :=
  (Uuid.ofText tenantId).bind fun u => (Text.ofJs name).map fun n =>
    (t.roles.find? fun r => r.tenantId == u && r.name == n).map RoleRow.load

/-- `findOne({ where: { id } })` -/
def Tables.findRoleById (id : JsValue) : Option (Option Role) :=
  (whereUuid id).map fun w => (t.roles.find? fun r => w.holds r.id).map RoleRow.load

/-- `findOne({ where: { username } })` -/
def Tables.findUser (username : JsString) : Option (Option User) :=
  (Text.ofJs username).map fun n => (t.users.find? (·.username == n)).map UserRow.load

/-- `findOne({ where: { id } })` -/
def Tables.findUserById (id : JsValue) : Option (Option User) :=
  (whereUuid id).map fun w => (t.users.find? fun u => w.holds u.id).map UserRow.load

variable {t}

/-- What is loaded comes from a row that meets the condition. -/
theorem of_find {α β : Type} {l : List α} {p : α → Bool} {f : α → β} {x : β}
    (h : (l.find? p).map f = some x) : ∃ r ∈ l, p r = true ∧ x = f r := by
  obtain ⟨r, hr, rfl⟩ := Option.map_eq_some_iff.1 h
  exact ⟨r, List.mem_of_find?_eq_some hr, List.find?_some hr, rfl⟩

theorem Tables.findTenant_some {name : JsString} {x : Tenant} (h : t.findTenant name = some (some x)) :
    ∃ r ∈ t.tenants, x = r.load ∧ Text.ofJs name = some r.name := by
  obtain ⟨n, hn, h⟩ := Option.map_eq_some_iff.1 h
  obtain ⟨r, hr, hp, rfl⟩ := of_find h
  exact ⟨r, hr, rfl, by rw [hn, beq_iff_eq.1 hp]⟩

theorem Tables.findRole_some {tenantId name : JsString} {x : Role}
    (h : t.findRole tenantId name = some (some x)) :
    ∃ r ∈ t.roles, x = r.load ∧ Uuid.ofText tenantId = some r.tenantId ∧ Text.ofJs name = some r.name := by
  obtain ⟨u, hu, h⟩ := Option.bind_eq_some_iff.1 h
  obtain ⟨n, hn, h⟩ := Option.map_eq_some_iff.1 h
  obtain ⟨r, hr, hp, rfl⟩ := of_find h
  obtain ⟨h1, h2⟩ := Bool.and_eq_true_iff.1 hp
  exact ⟨r, hr, rfl, by rw [hu, beq_iff_eq.1 h1], by rw [hn, beq_iff_eq.1 h2]⟩

theorem Tables.findUser_some {username : JsString} {x : User} (h : t.findUser username = some (some x)) :
    ∃ r ∈ t.users, x = r.load ∧ Text.ofJs username = some r.username := by
  obtain ⟨n, hn, h⟩ := Option.map_eq_some_iff.1 h
  obtain ⟨r, hr, hp, rfl⟩ := of_find h
  exact ⟨r, hr, rfl, by rw [hn, beq_iff_eq.1 hp]⟩

/-- The one row that meets the condition is found. -/
theorem find_of_unique {α : Type} {l : List α} {p : α → Bool} {r : α} (hr : r ∈ l) (hp : p r = true)
    (hu : ∀ x ∈ l, p x = true → x = r) : l.find? p = some r := by
  cases hf : l.find? p with
  | none => exact absurd hp (List.find?_eq_none.1 hf r hr)
  | some x => rw [hu x (List.mem_of_find?_eq_some hf) (List.find?_some hf)]

/-- A row is found by its key. -/
theorem find_key {α : Type} {f : α → Uuid} {l : List α} (h : (l.map f).Nodup) {r : α} (hr : r ∈ l) :
    (l.find? fun x => (UuidWhere.eq (f r)).holds (f x)) = some r :=
  find_of_unique hr (by simp [UuidWhere.holds]) fun _ hx hp =>
    List.inj_on_of_nodup_map h hx hr (beq_iff_eq.1 hp).symm

theorem Tables.findUserById_of_mem {r : UserRow} {id : JsString} (hr : r ∈ t.users)
    (hid : Uuid.ofText id = some r.id) : t.findUserById (some (.str id)) = some (some r.load) := by
  rw [Tables.findUserById, whereUuid, hid, Option.map_some, Option.map_some,
    find_key t.valid.userIds hr]
  rfl

theorem Tables.findRoleById_of_mem {r : RoleRow} {id : JsString} (hr : r ∈ t.roles)
    (hid : Uuid.ofText id = some r.id) : t.findRoleById (some (.str id)) = some (some r.load) := by
  rw [Tables.findRoleById, whereUuid, hid, Option.map_some, Option.map_some,
    find_key t.valid.roleIds hr]
  rfl

theorem Tables.findTenant_of_mem {x : TenantRow} {name : JsString} (hx : x ∈ t.tenants)
    (hn : Text.ofJs name = some x.name) : t.findTenant name = some (some x.load) := by
  have hf : t.tenants.find? (·.name == x.name) = some x :=
    find_of_unique hx (beq_self_eq_true x.name) fun y hy hp =>
      List.inj_on_of_nodup_map t.valid.tenantNames hy hx (beq_iff_eq.1 hp)
  rw [Tables.findTenant, hn, Option.map_some, hf, Option.map_some]

theorem Tables.findUser_of_mem {u : UserRow} {username : JsString} (hu : u ∈ t.users)
    (hn : Text.ofJs username = some u.username) : t.findUser username = some (some u.load) := by
  have hf : t.users.find? (·.username == u.username) = some u :=
    find_of_unique hu (beq_self_eq_true u.username) fun v hv hp =>
      List.inj_on_of_nodup_map t.valid.usernames hv hu (beq_iff_eq.1 hp)
  rw [Tables.findUser, hn, Option.map_some, hf, Option.map_some]

/-- A role is found by its tenant and its name. -/
theorem Tables.findRole_of_mem {r : RoleRow} {tenantId name : JsString} (hr : r ∈ t.roles)
    (htid : Uuid.ofText tenantId = some r.tenantId) (hn : Text.ofJs name = some r.name) :
    t.findRole tenantId name = some (some r.load) := by
  have hf : (t.roles.find? fun x => x.tenantId == r.tenantId && x.name == r.name) = some r := by
    refine find_of_unique hr (by simp) fun x hx hp => ?_
    obtain ⟨h1, h2⟩ := Bool.and_eq_true_iff.1 hp
    have hkey : (x.tenantId, x.name) = (r.tenantId, r.name) := Prod.ext (beq_iff_eq.1 h1) (beq_iff_eq.1 h2)
    exact List.inj_on_of_nodup_map t.valid.roleNames hx hr hkey
  rw [Tables.findRole, htid, hn, Option.bind_some, Option.map_some, hf, Option.map_some]

theorem Tables.findTenant_none {name : JsString} {n : Text} (hn : Text.ofJs name = some n) :
    t.findTenant name = some none ↔ ∀ x ∈ t.tenants, x.name ≠ n := by
  simp [Tables.findTenant, hn, List.find?_eq_none]

theorem Tables.findUser_none {username : JsString} {n : Text} (hn : Text.ofJs username = some n) :
    t.findUser username = some none ↔ ∀ u ∈ t.users, u.username ≠ n := by
  simp [Tables.findUser, hn, List.find?_eq_none]

theorem Tables.findRole_none {tenantId name : JsString} {u : Uuid} {n : Text}
    (hu : Uuid.ofText tenantId = some u) (hn : Text.ofJs name = some n) :
    t.findRole tenantId name = some none ↔ ∀ r ∈ t.roles, r.tenantId = u → r.name ≠ n := by
  simp [Tables.findRole, hu, hn, List.find?_eq_none]

/-! ## Writing

An INSERT or UPDATE, and the tables after it; `none` where it is rejected.  How long a name an index takes
depends on how Postgres stores it, so a statement that is rejected for the size of an entry is one that
fails (`Btree.rejects`). -/

variable (t)

/-- A nullable uuid parameter. -/
def uuidOrNull : Option JsString → Option (Option Uuid)
  | none => some none
  | some s => (Uuid.ofText s).map some

def Tables.insertTenant (id : Uuid) (name : JsString) : Option Tables :=
  (Text.ofJs name).bind fun n => Rows.commit { t.toRows with tenants := ⟨id, n⟩ :: t.tenants }

def Tables.insertUser (id : Uuid) (username passwordHash tenantId : JsString)
    (roleId : Option JsString) : Option Tables :=
  (Text.ofJs username).bind fun n => (Text.ofJs passwordHash).bind fun h =>
    (Uuid.ofText tenantId).bind fun u => (uuidOrNull roleId).bind fun r =>
      Rows.commit { t.toRows with users := ⟨id, n, h, u, r⟩ :: t.users }

def Tables.insertRole (id : Uuid) (tenantId name : JsString) (permissions : List JsString) :
    Option Tables :=
  (Uuid.ofText tenantId).bind fun u => (Text.ofJs name).bind fun n =>
    (Text.ofJs (joinBy comma permissions)).bind fun p =>
      Rows.commit { t.toRows with roles := ⟨id, u, n, p⟩ :: t.roles }

/-- `UPDATE users SET "roleId" = roleId WHERE id = id` -/
def Tables.assignRole (id roleId : JsString) : Option Tables :=
  (Uuid.ofText id).bind fun u => (Uuid.ofText roleId).bind fun r =>
    Rows.commit { t.toRows with
      users := t.users.map fun x => if x.id = u then { x with roleId := some r } else x }

/-- The new values of the columns that an UPDATE sets. -/
structure RoleChange where
  tenantId : Option Uuid
  name : Option Text
  permissions : Option Text
deriving DecidableEq

/-- The new value of a column, if its text differs; `none` where it is rejected. -/
def change {α : Type} (read : JsString → Option α) (db given : JsString) : Option (Option α) :=
  if db = given then some none else (read given).map some

/-- The columns in which an entity differs from the one in the database. -/
def Role.changes (db given : Role) : Option RoleChange :=
  (change Uuid.ofText db.tenantId given.tenantId).bind fun u =>
    (change Text.ofJs db.name given.name).bind fun n =>
      (change Text.ofJs (joinBy comma db.permissions) (joinBy comma given.permissions)).map fun p =>
        ⟨u, n, p⟩

def RoleRow.set (c : RoleChange) (r : RoleRow) : RoleRow :=
  { r with
    tenantId := c.tenantId.getD r.tenantId
    name := c.name.getD r.name
    permissions := c.permissions.getD r.permissions }

/-- `UPDATE roles SET` what differs between `db` and `given` `WHERE id = given.id` -/
def Tables.updateRole (db given : Role) : Option Tables :=
  (Uuid.ofText given.id).bind fun u => (db.changes given).bind fun c =>
    Rows.commit { t.toRows with roles := t.roles.map fun r => if r.id = u then r.set c else r }

/-! ## What a statement does

It changes the rows of one table. -/

variable {t} {t' : Tables}

theorem insertTenant_rows {id : Uuid} {name : JsString} (h : t.insertTenant id name = some t') :
    ∃ n, Text.ofJs name = some n ∧ t'.tenants = ⟨id, n⟩ :: t.tenants ∧ t'.users = t.users ∧
      t'.roles = t.roles := by
  obtain ⟨n, hn, hw⟩ := Option.bind_eq_some_iff.1 h
  have hr := Rows.toRows_commit hw
  refine ⟨n, hn, ?_, ?_, ?_⟩ <;> rw [hr]

theorem insertUser_rows {id : Uuid} {username passwordHash tenantId : JsString} {roleId : Option JsString}
    (h : t.insertUser id username passwordHash tenantId roleId = some t') :
    ∃ n p u r, Text.ofJs username = some n ∧ Text.ofJs passwordHash = some p ∧
      Uuid.ofText tenantId = some u ∧ uuidOrNull roleId = some r ∧
      t'.users = ⟨id, n, p, u, r⟩ :: t.users ∧ t'.tenants = t.tenants ∧ t'.roles = t.roles := by
  obtain ⟨n, hn, hw⟩ := Option.bind_eq_some_iff.1 h
  obtain ⟨p, hp, hw⟩ := Option.bind_eq_some_iff.1 hw
  obtain ⟨u, hu, hw⟩ := Option.bind_eq_some_iff.1 hw
  obtain ⟨r, hr, hw⟩ := Option.bind_eq_some_iff.1 hw
  have hrows := Rows.toRows_commit hw
  refine ⟨n, p, u, r, hn, hp, hu, hr, ?_, ?_, ?_⟩ <;> rw [hrows]

theorem insertRole_rows {id : Uuid} {tenantId name : JsString} {ps : List JsString}
    (h : t.insertRole id tenantId name ps = some t') :
    ∃ u n p, Uuid.ofText tenantId = some u ∧ Text.ofJs name = some n ∧
      Text.ofJs (joinBy comma ps) = some p ∧ t'.roles = ⟨id, u, n, p⟩ :: t.roles ∧
      t'.tenants = t.tenants ∧ t'.users = t.users := by
  obtain ⟨u, hu, hw⟩ := Option.bind_eq_some_iff.1 h
  obtain ⟨n, hn, hw⟩ := Option.bind_eq_some_iff.1 hw
  obtain ⟨p, hp, hw⟩ := Option.bind_eq_some_iff.1 hw
  have hr := Rows.toRows_commit hw
  refine ⟨u, n, p, hu, hn, hp, ?_, ?_, ?_⟩ <;> rw [hr]

theorem assignRole_rows {id roleId : JsString} (h : t.assignRole id roleId = some t') :
    ∃ u r, Uuid.ofText id = some u ∧ Uuid.ofText roleId = some r ∧
      t'.users = t.users.map (fun x => if x.id = u then { x with roleId := some r } else x) ∧
      t'.tenants = t.tenants ∧ t'.roles = t.roles := by
  obtain ⟨u, hu, hw⟩ := Option.bind_eq_some_iff.1 h
  obtain ⟨r, hr, hw⟩ := Option.bind_eq_some_iff.1 hw
  have hrows := Rows.toRows_commit hw
  refine ⟨u, r, hu, hr, ?_, ?_, ?_⟩ <;> rw [hrows]

/-- The row of a user stays, with the one role or the other. -/
theorem mem_assign {us : List UserRow} {u : UserRow} (hu : u ∈ us) (id r : Uuid) :
    ∃ o, { u with roleId := o } ∈ us.map fun x => if x.id = id then { x with roleId := some r } else x := by
  by_cases hid : u.id = id
  · exact ⟨some r, List.mem_map.2 ⟨u, hu, if_pos hid⟩⟩
  · exact ⟨u.roleId, List.mem_map.2 ⟨u, hu, if_neg hid⟩⟩

theorem updateRole_rows {db given : Role} (h : t.updateRole db given = some t') :
    ∃ u c, Uuid.ofText given.id = some u ∧ db.changes given = some c ∧
      t'.roles = t.roles.map (fun r => if r.id = u then r.set c else r) ∧
      t'.tenants = t.tenants ∧ t'.users = t.users := by
  obtain ⟨u, hu, hw⟩ := Option.bind_eq_some_iff.1 h
  obtain ⟨c, hc, hw⟩ := Option.bind_eq_some_iff.1 hw
  have hr := Rows.toRows_commit hw
  refine ⟨u, c, hu, hc, ?_, ?_, ?_⟩ <;> rw [hr]

end SystemDesign.Accounts
