/-
  The migrations.

  A migration is a list of statements for each direction, written with the methods of the query runner.
  `schemaAt v` are the tables after the first `v` migrations.
-/
import SystemDesign.Database
import SystemDesign.Lib.Statement

namespace SystemDesign.Migrations

open Lib Sql

/-! ## Types and values -/

inductive SqlType where
  | uuid
  | characterVarying
  | text
  | boolean
  | timestamp
deriving DecidableEq

inductive Value where
  | uuid (u : Uuid)
  | string (s : Text)
  | boolean (b : Bool)
  | timestamp (t : ℕ)
deriving DecidableEq

instance : Typed SqlType Value where
  hasType
    | .uuid, .uuid _ | .characterVarying, .string _ | .text, .string _ | .boolean, .boolean _
    | .timestamp, .timestamp _ => true
    | _, _ => false

inductive Default where
  | uuidGenerateV4
  | now
  | value (v : Value)
deriving DecidableEq

/-- What the default expressions of one statement produce. -/
structure Generated where
  uuid : Uuid
  now : ℕ

def Default.eval (g : Generated) : Default → Value
  | uuidGenerateV4 => .uuid g.uuid
  | now => .timestamp g.now
  | value v => v

abbrev Statement := Sql.Statement String SqlType Default Value

abbrev Schema := Sql.Schema String SqlType Default

abbrev Database := Sql.Database String SqlType Default Value

/-! ## The query runner -/

structure TableColumn where
  name : String
  type : SqlType
  isPrimary : Bool := false
  isUnique : Bool := false
  isNullable : Bool := false
  default : Option Default := none

def TableColumn.column (c : TableColumn) : Column String SqlType Default :=
  ⟨c.name, c.type, c.isNullable, c.default⟩

/-- `new Table({ name, columns })`: the primary columns make one key and each unique column another. -/
def newTable (name : String) (columns : List TableColumn) : Table String SqlType Default where
  name := name
  columns := columns.map (·.column)
  uniques := ⟨none, (columns.filter (·.isPrimary)).map (·.name), true⟩ ::
    (columns.filter (·.isUnique)).map fun c => ⟨none, [c.name], false⟩
  foreignKeys := []

structure TableForeignKey where
  name : String
  columnNames : List String
  referencedTableName : String
  referencedColumnNames : List String

def TableForeignKey.foreignKey (fk : TableForeignKey) : ForeignKey String :=
  ⟨some fk.name, fk.columnNames, fk.referencedTableName, fk.referencedColumnNames⟩

structure TableUnique where
  name : String
  columnNames : List String

def TableUnique.unique (u : TableUnique) : Sql.Unique String := ⟨some u.name, u.columnNames, false⟩

def createTable (name : String) (columns : List TableColumn) : Statement := .createTable (newTable name columns)

def dropTable (name : String) : Statement := .dropTable name

def addColumn (table : String) (c : TableColumn) : Statement := .addColumn table c.column

/-- `changeColumn(table, c.name, c)` with the type of the old column: it alters the column in place. -/
def changeColumn (table : String) (c : TableColumn) : Statement := .alterColumn table c.column

def dropColumn (table column : String) : Statement := .dropColumn table column

def createForeignKey (table : String) (fk : TableForeignKey) : Statement := .addForeignKey table fk.foreignKey

def dropForeignKey (table name : String) : Statement := .dropForeignKey table name

def createUniqueConstraint (table : String) (u : TableUnique) : Statement := .addUnique table u.unique

def dropUniqueConstraint (table name : String) : Statement := .dropUnique table name

/-! ## The migrations -/

structure Migration where
  name : String
  up : List Statement
  down : List Statement

def idColumn : TableColumn :=
  { name := "id", type := .uuid, isPrimary := true, default := some .uuidGenerateV4 }

def createdAtColumn : TableColumn := { name := "createdAt", type := .timestamp, default := some .now }

def tasksTable : Table String SqlType Default where
  name := "tasks"
  columns := [⟨"id", .uuid, false, some .uuidGenerateV4⟩, ⟨"title", .characterVarying, false, none⟩,
    ⟨"completed", .boolean, false, some (.value (.boolean false))⟩, ⟨"createdAt", .timestamp, false, some .now⟩]
  uniques := [⟨some "PK_8d12ff38fcc62aaba2cab748772", ["id"], true⟩]
  foreignKeys := []

def processedEventsTable : Table String SqlType Default where
  name := "processed_events"
  columns := [⟨"eventId", .uuid, false, none⟩, ⟨"eventType", .characterVarying, false, none⟩,
    ⟨"processedAt", .timestamp, false, some .now⟩]
  uniques := [⟨some "PK_6df2a6135cc301de873d3b3948c", ["eventId"], true⟩]
  foreignKeys := []

def initSchema : Migration where
  name := "InitSchema1784083581965"
  up := [.createTable tasksTable, .createTable processedEventsTable]
  down := [.dropTable "processed_events", .dropTable "tasks"]

def usersColumns : List TableColumn :=
  [idColumn, { name := "username", type := .characterVarying, isUnique := true },
    { name := "passwordHash", type := .characterVarying }, createdAtColumn]

def createUsers : Migration where
  name := "CreateUsers1784100000000"
  up := [createTable "users" usersColumns]
  down := [dropTable "users"]

def tenantsColumns : List TableColumn :=
  [idColumn, { name := "name", type := .characterVarying, isUnique := true }, createdAtColumn]

theorem wellFormed_default : wellFormed (js "default") = true := by decide

theorem noNul_default : 0 ∉ js "default" := by decide

/-- `'default'` -/
def defaultName : Value := .string ⟨js "default", wellFormed_default, noNul_default⟩

def usersTenantId : TableForeignKey where
  name := "FK_users_tenantId"
  columnNames := ["tenantId"]
  referencedTableName := "tenants"
  referencedColumnNames := ["id"]

def createTenantsAndScopeUsers : Migration where
  name := "CreateTenantsAndScopeUsers1784200000000"
  up := [createTable "tenants" tenantsColumns,
    .insert "tenants" [("name", defaultName)],
    addColumn "users" { name := "tenantId", type := .uuid, isNullable := true },
    .update "users" "tenantId" ⟨"id", "tenants", "name", defaultName⟩,
    changeColumn "users" { name := "tenantId", type := .uuid },
    createForeignKey "users" usersTenantId]
  down := [dropForeignKey "users" "FK_users_tenantId", dropColumn "users" "tenantId", dropTable "tenants"]

def rolesColumns : List TableColumn :=
  [idColumn, { name := "tenantId", type := .uuid }, { name := "name", type := .characterVarying },
    { name := "permissions", type := .text }, createdAtColumn]

def rolesTenantId : TableForeignKey where
  name := "FK_roles_tenantId"
  columnNames := ["tenantId"]
  referencedTableName := "tenants"
  referencedColumnNames := ["id"]

def rolesTenantIdName : TableUnique where
  name := "UQ_roles_tenantId_name"
  columnNames := ["tenantId", "name"]

def usersRoleId : TableForeignKey where
  name := "FK_users_roleId"
  columnNames := ["roleId"]
  referencedTableName := "roles"
  referencedColumnNames := ["id"]

def createRoles : Migration where
  name := "CreateRoles1784300000000"
  up := [createTable "roles" rolesColumns,
    createForeignKey "roles" rolesTenantId,
    createUniqueConstraint "roles" rolesTenantIdName,
    addColumn "users" { name := "roleId", type := .uuid, isNullable := true },
    createForeignKey "users" usersRoleId]
  down := [dropForeignKey "users" "FK_users_roleId", dropColumn "users" "roleId",
    dropUniqueConstraint "roles" "UQ_roles_tenantId_name", dropForeignKey "roles" "FK_roles_tenantId",
    dropTable "roles"]

/-- In the order of their timestamps. -/
def migrations : List Migration := [initSchema, createUsers, createTenantsAndScopeUsers, createRoles]

/-! ## The versions -/

def usersTable : Table String SqlType Default := newTable "users" usersColumns

def tenantsTable : Table String SqlType Default := newTable "tenants" tenantsColumns

def tenantIdColumn (nullable : Bool) : Column String SqlType Default := ⟨"tenantId", .uuid, nullable, none⟩

def roleIdColumn : Column String SqlType Default := ⟨"roleId", .uuid, true, none⟩

/-- `users` of tenants. -/
def scopedUsersTable : Table String SqlType Default :=
  { usersTable with
    columns := usersTable.columns ++ [tenantIdColumn false]
    foreignKeys := [usersTenantId.foreignKey] }

/-- `users` of tenants with roles. -/
def roledUsersTable : Table String SqlType Default :=
  { scopedUsersTable with
    columns := scopedUsersTable.columns ++ [roleIdColumn]
    foreignKeys := [usersTenantId.foreignKey, usersRoleId.foreignKey] }

def rolesTable : Table String SqlType Default :=
  { newTable "roles" rolesColumns with
    uniques := (newTable "roles" rolesColumns).uniques ++ [rolesTenantIdName.unique]
    foreignKeys := [rolesTenantId.foreignKey] }

/-- The tables, columns and constraints after the first `v` migrations. -/
def schemaAt : ℕ → Schema
  | 0 => []
  | 1 => [tasksTable, processedEventsTable]
  | 2 => [tasksTable, processedEventsTable, usersTable]
  | 3 => [tasksTable, processedEventsTable, scopedUsersTable, tenantsTable]
  | _ => [tasksTable, processedEventsTable, roledUsersTable, tenantsTable, rolesTable]

end SystemDesign.Migrations
