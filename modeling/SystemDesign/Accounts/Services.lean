/-
  The services over the tables `users` and `roles`, login and the permission guard.

  Each service method is a program awaiting the operations `AOp`; `AOp.answer` is what each of
  them does to the tables.  bcrypt is a parameter.
-/
import SystemDesign.Accounts.Tables
import SystemDesign.Accounts.Token
import SystemDesign.Lib.Async

namespace SystemDesign.Accounts

open Lib

/-- `!s` of an optional string. -/
def falsy (s : Option JsString) : Bool := s.all List.isEmpty

/-! ## Operations -/

/-- What the services and the seed script await. -/
inductive AOp where
  | findTenant (name : JsString)
  | insertTenant (name : JsString)
  | findRole (tenantId name : JsString)
  | findRoleById (id : JsValue)
  /-- The INSERT of `save`; the database makes the id where none is given. -/
  | insertRole (id : Option JsString) (tenantId name : JsString) (permissions : List JsString)
  /-- The SELECT of `save`, by the primary key. -/
  | selectRole (id : JsString)
  /-- The UPDATE of `save`, of the columns in which `given` differs from `db`. -/
  | updateRole (db given : Role)
  | findUser (username : JsString)
  | findUserById (id : JsValue)
  | insertUser (username passwordHash tenantId : JsString) (roleId : Option JsString)
  /-- `update({ id }, { roleId })` -/
  | assignRole (id roleId : JsString)
  | hash (password : JsString) (rounds : ℕ)
  | compare (password stored : JsString)
  | sign (sub username tenantId : JsString)

/-- The answer of an operation; that of an INSERT is the id. -/
abbrev AOp.Ans : AOp → Type
  | .findTenant _ => Option Tenant
  | .findRole _ _ | .findRoleById _ | .selectRole _ => Option Role
  | .findUser _ | .findUserById _ => Option User
  | .insertTenant _ | .insertRole _ _ _ _ | .insertUser _ _ _ _ => JsString
  | .updateRole _ _ | .assignRole _ _ => Unit
  | .hash _ _ => JsString
  | .compare _ _ => Bool
  | .sign _ _ _ => Token

abbrev Service (ρ : Type) := Async AOp AOp.Ans Thrown ρ

def perform (o : AOp) : Service o.Ans := Async.call o

/-- `bcryptjs`: `hash(password, rounds)` with a salt, and `compare(password, hash)`. -/
structure Bcrypt where
  hash (password : JsString) (rounds : ℕ) (salt : List UInt8) : JsString
  compare (password hash : JsString) : Bool

/-- Passwords with their salts and hashes, for runs on fixed inputs. -/
def sampleHashes : List (JsString × List UInt8 × JsString) :=
  [(js "pw1", [113, 215, 159, 130, 24, 163, 146, 89, 167, 162, 154, 171, 178, 219, 175, 195],
      js "$2b$10$abcdefghijklmnopqrstuuZ68w8EcKo4W58nnXuOvDmvaoYl7zozS"),
    (js "pw2", [8, 49, 5, 24, 114, 9, 40, 179, 13, 56, 244, 17, 73, 53, 21, 91],
      js "$2b$10$ABCDEFGHIJKLMNOPQRSTUu6d74Eu3erE29Tj.6Zl/WNuMUlq9P2M2")]

/-- bcrypt on these passwords, with ten rounds. -/
def sampleBcrypt : Bcrypt where
  hash password rounds salt :=
    ((sampleHashes.find? fun x => x.1 == password && x.2.1 == salt && rounds == 10).map (·.2.2)).getD []
  compare password stored := sampleHashes.any fun x => x.1 == password && x.2.2 == stored

/-- What is not determined by an operation: how it ends, the id the database makes, the salt and
    the time. -/
structure Choice where
  outcome : Outcome
  id : Uuid
  salt : List UInt8
  now : ℕ

/-- The answer to an operation without effect. -/
def reading {α : Type} (c : Choice) (x : Option α) : Except Thrown α :=
  match x with
  | some a => if c.outcome.isOk then .ok a else .error .failed
  | none => .error .failed

/-- The answer to a statement, and the tables after it. -/
def writing {α : Type} (c : Choice) (a : α) (t : Tables) (x : Option Tables) : Except Thrown α × Tables :=
  match x with
  | some t' => (if c.outcome.isOk then .ok a else .error .failed, if c.outcome.lands then t' else t)
  | none => (.error .failed, t)

/-- The id of an INSERT. -/
def insertId (c : Choice) : Option JsString → Option Uuid
  | none => some c.id
  | some id => Uuid.ofText id

/-- One operation: its answer, and the tables after it. -/
def AOp.answer (bcrypt : Bcrypt) : (o : AOp) → Choice → Tables → Except Thrown o.Ans × Tables
  | .findTenant name, c, t => (reading c (t.findTenant name), t)
  | .insertTenant name, c, t => writing c c.id.toText t (t.insertTenant c.id name)
  | .findRole tenantId name, c, t => (reading c (t.findRole tenantId name), t)
  | .findRoleById id, c, t => (reading c (t.findRoleById id), t)
  | .insertRole id tenantId name permissions, c, t =>
    writing c (id.getD c.id.toText) t
      ((insertId c id).bind fun u => t.insertRole u tenantId name permissions)
  | .selectRole id, c, t => (reading c (t.findRoleById (some (.str id))), t)
  | .updateRole db given, c, t => writing c () t (t.updateRole db given)
  | .findUser username, c, t => (reading c (t.findUser username), t)
  | .findUserById id, c, t => (reading c (t.findUserById id), t)
  | .insertUser username passwordHash tenantId roleId, c, t =>
    writing c c.id.toText t (t.insertUser c.id username passwordHash tenantId roleId)
  | .assignRole id roleId, c, t => writing c () t (t.assignRole id roleId)
  | .hash password rounds, c, t => (reading c (some (bcrypt.hash password rounds c.salt)), t)
  | .compare password stored, c, t => (reading c (some (bcrypt.compare password stored)), t)
  | .sign sub username tenantId, c, t => (reading c (some ⟨sub, username, tenantId, c.now⟩), t)

/-- The operation as a step of a program. -/
def AOp.step (bcrypt : Bcrypt) (o : AOp) (c : Choice) (t : Tables) :
    Option (Except Thrown o.Ans × Tables) := some (o.answer bcrypt c t)

theorem reading_ok {α : Type} {c : Choice} {x : Option α} {a : α} (h : reading c x = .ok a) : x = some a := by
  unfold reading at h
  split at h
  · split_ifs at h
    exact congrArg some (Except.ok.inj h)
  · cases h

/-- A statement leaves the tables, or takes effect. -/
theorem writing_cases {α : Type} {c : Choice} {a : α} {t t' : Tables} {x : Option Tables}
    {y : Except Thrown α} (h : writing c a t x = (y, t')) : t' = t ∨ x = some t' := by
  unfold writing at h
  split at h
  · cases hl : c.outcome.lands <;> rw [hl] at h <;> cases h
    · exact Or.inl rfl
    · exact Or.inr rfl
  · cases h; exact Or.inl rfl

/-- A statement that succeeds takes effect. -/
theorem writing_ok {α : Type} {c : Choice} {a b : α} {t t' : Tables} {x : Option Tables}
    (h : writing c a t x = (.ok b, t')) : b = a ∧ x = some t' := by
  unfold writing at h
  split at h
  · cases hc : c.outcome <;> rw [hc] at h <;> cases h
    exact ⟨rfl, rfl⟩
  · cases h

/-! ## UsersService -/

def SALT_ROUNDS : ℕ := 10

/-- The hash compared where the user does not exist. -/
def DUMMY_HASH : JsString := js "$2b$10$BCW6AdDYjzrLtC.a9xiTy.tq0M99F5cm8KK.BWzKFR5OBm780hQNO"

namespace UsersService

def create (tenantId username password : JsString) : Service User := do
  let passwordHash ← perform (.hash password SALT_ROUNDS)
  let id ← perform (.insertUser username passwordHash tenantId none)
  return ⟨id, username, passwordHash, tenantId, none⟩

def findByUsername (username : JsString) : Service (Option User) := perform (.findUser username)

def findById (id : JsValue) : Service (Option User) := perform (.findUserById id)

def validatePassword (user : Option User) (password : JsString) : Service Bool :=
  match user with
  | none => do
    let _ ← perform (.compare password DUMMY_HASH)
    return false
  | some user => perform (.compare password user.passwordHash)

end UsersService

/-! ## RolesService -/

namespace RolesService

def create (tenantId name : JsString) (permissions : List JsString) : Service Role := do
  let id ← perform (.insertRole none tenantId name permissions)
  return ⟨id, tenantId, name, permissions⟩

def findById (id : JsValue) : Service (Option Role) := perform (.findRoleById id)

def hasPermission (role : Role) (permission : JsString) : Bool := role.permissions.contains permission

end RolesService

/-! ## AuthService and RbacGuard -/

/-- `AuthService.login` -/
def login (username password : JsString) : Service Token := do
  let user ← UsersService.findByUsername username
  let passwordMatches ← UsersService.validatePassword user password
  match user with
  | none => .throw (.unauthorized (js "Invalid credentials"))
  | some user =>
    if passwordMatches then perform (.sign user.id user.username user.tenantId)
    else .throw (.unauthorized (js "Invalid credentials"))

/-- `reflector.getAllAndOverride(PERMISSION_KEY, [handler, class])`: the first that is declared. -/
def getAllAndOverride (handler cls : Option JsString) : Option JsString :=
  match handler with
  | some p => some p
  | none => cls

/-- The guard once the role is read. -/
def checkPermission (requestUser : RequestUser) (required : JsString) (role : Option Role) : Service Bool :=
  match role with
  | none => .throw (.forbidden (js "Role not valid for this tenant"))
  | some role =>
    if differs role.tenantId requestUser.tenantId then
      .throw (.forbidden (js "Role not valid for this tenant"))
    else if RolesService.hasPermission role required then .ret true
    else .throw (.forbidden (js "Missing permission: " ++ required))

/-- The guard once the user is read. -/
def checkRole (requestUser : RequestUser) (required : JsString) (user : Option User) : Service Bool :=
  match user.bind (·.roleId) with
  | none => .throw (.forbidden (js "No role assigned"))
  | some roleId =>
    if roleId.isEmpty then .throw (.forbidden (js "No role assigned"))
    else do
      let role ← RolesService.findById (some (.str roleId))
      checkPermission requestUser required role

/-- `RbacGuard.canActivate`, with what is declared on the handler and on the class, and the user
    of the request. -/
def canActivate (handler cls : Option JsString) (requestUser : Option RequestUser) : Service Bool :=
  match getAllAndOverride handler cls with
  | none => return true
  | some required =>
    if required.isEmpty then return true
    else match requestUser with
      | none => .throw (.forbidden (js "Not authenticated"))
      | some requestUser =>
        if !Json.truthy requestUser.userId then .throw (.forbidden (js "Not authenticated"))
        else do
          let user ← UsersService.findById requestUser.userId
          checkRole requestUser required user

end SystemDesign.Accounts
