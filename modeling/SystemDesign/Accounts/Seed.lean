/-
  The seed script.

  `seed` makes sure of a tenant, of its roles `admin` and `approver` and of a user for each, in
  steps that are not one transaction.  Whether a role has its permissions is decided on the JSON
  text of the sorted lists.
-/
import SystemDesign.Accounts.Services

namespace SystemDesign.Accounts

open Lib

/-- The environment variables of the script. -/
structure Env where
  ADMIN_USERNAME : Option JsString
  ADMIN_PASSWORD : Option JsString
  APPROVER_USERNAME : Option JsString
  APPROVER_PASSWORD : Option JsString
  ADMIN_TENANT_NAME : Option JsString
deriving DecidableEq

namespace Seed

def SALT_ROUNDS : ℕ := 10

def REQUESTER_PERMISSIONS : List JsString := [js "po.create", js "po.read"]

def APPROVER_PERMISSIONS : List JsString := [js "po.approve", js "po.read"]

/-- `process.env.ADMIN_TENANT_NAME ?? 'default'` -/
def tenantName (env : Env) : JsString := env.ADMIN_TENANT_NAME.getD (js "default")

/-! ## Comparing permissions -/

/-- `a <= b` of two strings, by code units. -/
def le : JsString → JsString → Bool
  | [], _ => true
  | _ :: _, [] => false
  | u :: s, v :: t => u < v || (u == v && le s t)

/-- `[...a].sort()` -/
def sort (a : List JsString) : List JsString := a.insertionSort fun s t => le s t = true

/-- `JSON.stringify([...a].sort()) === JSON.stringify([...b].sort())` -/
def sameSorted (a b : List JsString) : Bool :=
  Json.stringifyStrings (sort a) == Json.stringifyStrings (sort b)

/-- Lists with one sorted text are permutations of each other. -/
theorem perm_of_sameSorted {a b : List JsString} (h : sameSorted a b = true) : a.Perm b := by
  have hs : sort a = sort b := Json.stringifyStrings_injective (beq_iff_eq.1 h)
  have hb : (sort b).Perm b := List.perm_insertionSort _ b
  rw [← hs] at hb
  exact (List.perm_insertionSort _ a).symm.trans hb

/-! ## The script -/

/-- `roleRepo.save(given)` of a role with an id. -/
def save (given : Role) : Service Role := do
  let loaded ← perform (.selectRole given.id)
  match loaded with
  | none => do
    let _ ← perform (.insertRole (some given.id) given.tenantId given.name given.permissions)
    return given
  | some db =>
    -- no statement where no column differs
    if db.changes given = some ⟨none, none, none⟩ then return given
    else do
      perform (.updateRole db given)
      return given

def ensureRole (tenantId name : JsString) (permissions : List JsString) : Service Role := do
  let role ← perform (.findRole tenantId name)
  match role with
  | none => do
    let id ← perform (.insertRole none tenantId name permissions)
    return ⟨id, tenantId, name, permissions⟩
  | some role =>
    if sameSorted role.permissions permissions then return role
    else save { role with permissions := permissions }

def ensureUser (tenantId username password roleId : JsString) : Service Unit := do
  let existing ← perform (.findUser username)
  match existing with
  | some existing =>
    if falsy existing.roleId then perform (.assignRole existing.id roleId) else return ()
  | none => do
    let passwordHash ← perform (.hash password SALT_ROUNDS)
    let _ ← perform (.insertUser username passwordHash tenantId (some roleId))
    return ()

/-- The find-or-create of the tenant. -/
def ensureTenant (name : JsString) : Service Tenant := do
  let tenant ← perform (.findTenant name)
  match tenant with
  | some tenant => return tenant
  | none => do
    let id ← perform (.insertTenant name)
    return ⟨id, name⟩

/-- The script once the environment is checked. -/
def seedAccounts (name adminUsername adminPassword approverUsername approverPassword : JsString) :
    Service Unit := do
  let tenant ← ensureTenant name
  let adminRole ← ensureRole tenant.id (js "admin") REQUESTER_PERMISSIONS
  let approverRole ← ensureRole tenant.id (js "approver") APPROVER_PERMISSIONS
  ensureUser tenant.id adminUsername adminPassword adminRole.id
  ensureUser tenant.id approverUsername approverPassword approverRole.id

/-- Two variables that must be set. -/
def required (a b : Option JsString) (message : JsString) : Service (JsString × JsString) :=
  match a, b with
  | some a, some b => if a.isEmpty || b.isEmpty then .throw (.error message) else .ret (a, b)
  | _, _ => .throw (.error message)

def seed (env : Env) : Service Unit := do
  let admin ← required env.ADMIN_USERNAME env.ADMIN_PASSWORD
    (js "ADMIN_USERNAME and ADMIN_PASSWORD must be set to seed the requester user")
  let approver ← required env.APPROVER_USERNAME env.APPROVER_PASSWORD
    (js "APPROVER_USERNAME and APPROVER_PASSWORD must be set to seed the approver user")
  seedAccounts (tenantName env) admin.1 admin.2 approver.1 approver.2

end Seed

end SystemDesign.Accounts
