/-
  Services, seed runs and guarded requests over one database.

  A state has the tables, the calls begun so far and a clock.  Each operation of a call is one
  step, and calls are interleaved in any way; a call that dies takes no more steps.  A request
  carries a token that some login returned and that has not expired.
-/
import SystemDesign.Accounts.Seed
import SystemDesign.Lib.Run

namespace SystemDesign.Accounts

open Lib

/-- What is called. -/
inductive Job where
  | createUser (tenantId username password : JsString)
  | createRole (tenantId name : JsString) (permissions : List JsString)
  | seed (env : Env)
  | login (username password : JsString)
  /-- A request to a guarded route: its token, and the permissions declared on handler and class. -/
  | request (tok : Token) (handler cls : Option JsString)
deriving DecidableEq

inductive Result where
  | user (u : User)
  | role (r : Role)
  | seeded
  | token (tok : Token)
  | allowed (b : Bool)
deriving DecidableEq

/-- `JwtStrategy.validate`, then `RbacGuard.canActivate`. -/
def guarded (tok : Token) (handler cls : Option JsString) : Service Bool :=
  match validate tok.payload with
  | .error e => .throw e
  | .ok requestUser => canActivate handler cls (some requestUser)

def Job.code : Job → Service Result
  | createUser tenantId username password => do
    return .user (← UsersService.create tenantId username password)
  | createRole tenantId name permissions => do
    return .role (← RolesService.create tenantId name permissions)
  | seed env => do
    Seed.seed env
    return .seeded
  | login username password => do
    return .token (← Accounts.login username password)
  | request tok handler cls => do
    return .allowed (← guarded tok handler cls)

structure Call where
  job : Job
  prog : Service Result

/-- What the call returned. -/
def Call.result (call : Call) : Option Result :=
  match call.prog with
  | .ret r => some r
  | _ => none

theorem Call.prog_of_result {call : Call} {r : Result} (h : call.result = some r) : call.prog = .ret r := by
  unfold Call.result at h
  split at h
  · next x hp => rw [hp, Option.some.inj h]
  · cases h

structure State where
  tables : Tables
  calls : List Call
  now : ℕ

/-- The migrated database; `id` is that of the tenant `default`. -/
def init (id : Uuid) : State := ⟨migrated id, [], 0⟩

inductive Action where
  | start (job : Job)
  /-- The operation that the call awaits is done. -/
  | step (call : ℕ) (c : Choice)
  | tick (seconds : ℕ)

variable (bcrypt : Bcrypt) (s : State)

/-- A request has a token issued by login that is still valid. -/
def State.admits : Job → Bool
  | .request tok _ _ => s.now < tok.exp && s.calls.any fun call => call.result == some (.token tok)
  | _ => true

/-- **One atomic step**; `none` where the action is not possible. -/
def step : Action → Option State
  | .start job => if s.admits job then some { s with calls := s.calls ++ [⟨job, job.code⟩] } else none
  | .step i c => s.calls[i]?.bind fun call =>
    match call.prog with
    | .await o k =>
      if c.now = s.now then
        some { s with
          tables := (o.answer bcrypt c s.tables).2
          calls := s.calls.set i { call with prog := k (o.answer bcrypt c s.tables).1 } }
      else none
    | _ => none
  | .tick seconds => some { s with now := s.now + seconds }

abbrev run : State → List Action → Option State := exec (step bcrypt)

/-- The steps, one constructor for each kind. -/
inductive Step : Action → State → Prop
  | start {job} (ha : s.admits job = true) :
    Step (.start job) { s with calls := s.calls ++ [⟨job, job.code⟩] }
  | step {i c call o k a t} (hi : s.calls[i]? = some call) (hp : call.prog = .await o k)
    (hc : c.now = s.now) (ho : o.answer bcrypt c s.tables = (a, t)) :
    Step (.step i c) { s with tables := t, calls := s.calls.set i { call with prog := k a } }
  | tick {seconds} : Step (.tick seconds) { s with now := s.now + seconds }

variable {bcrypt} {s}

theorem step_cases {a : Action} {s' : State} (h : step bcrypt s a = some s') : Step bcrypt s a s' := by
  cases a with
  | start job =>
    simp only [step] at h
    split_ifs at h with ha
    cases h; exact .start ha
  | step i c =>
    obtain ⟨call, hi, h⟩ := Option.bind_eq_some_iff.1 h
    split at h
    · next o k hp =>
      split_ifs at h with hc
      cases h; exact .step hi hp hc rfl
    · cases h
  | tick seconds => cases h; exact .tick

/-! ## Runs on fixed inputs -/

/-- The first salt of the sample passwords, and the id `n`. -/
def sampleChoice (n : ℕ) : Choice :=
  ⟨.ok, Uuid.ofNat n, [113, 215, 159, 130, 24, 163, 146, 89, 167, 162, 154, 171, 178, 219, 175, 195], 0⟩

/-- The accounts `alice` and `bob`, in a tenant. -/
def sampleEnv (tenant : Option JsString) : Env :=
  ⟨some (js "alice"), some (js "pw1"), some (js "bob"), some (js "pw1"), tenant⟩

end SystemDesign.Accounts
