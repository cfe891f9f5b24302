/-
  The tenant context and the event loop that carries it.

  `AsyncLocalStorage` gives each continuation the store that was active when it was created; so a
  task of the loop has a store, code is a function of the store it runs under, and what it
  creates has that store.  A request is authenticated, passed through `intercept` and handled, in
  tasks of its own.  Its handler is any `Code`, and tasks of all requests run in any order.
-/
import SystemDesign.Accounts.Token
import SystemDesign.Lib.Run

namespace SystemDesign.Tenancy

open Lib Accounts

structure TenantStore where
  tenantId : JsValue

/-! ## TenantContext, interceptor and subscriber -/

namespace TenantContext

/-- `als.run({ tenantId }, fn)` -/
def run {α : Type} (tenantId : JsValue) (fn : Option TenantStore → α) : α := fn (some ⟨tenantId⟩)

def getTenantId : Option TenantStore → Except Thrown JsValue
  | none => .error (.error (js "TenantContext.getTenantId() called outside of a bound request context"))
  | some store => .ok store.tenantId

/-- `als.getStore()?.tenantId` -/
def tryGetTenantId (store : Option TenantStore) : JsValue := store.bind (·.tenantId)

end TenantContext

/-- `TenantContextInterceptor.intercept`, with `req.user` and `next.handle()`. -/
def intercept {α : Type} (user : Option RequestUser) (handle : Option TenantStore → α)
    (store : Option TenantStore) : α :=
  match user with
  | none => handle store
  | some user =>
    if !Json.truthy user.tenantId then handle store else TenantContext.run user.tenantId handle

/-- The `tenantId` of an entity, where it is an object with a string one. -/
def stringTenant : JsValue → Option JsString
  | some (.obj ms) =>
    match (Json.obj ms).get (js "tenantId") with
    | .ok (some (.str tenantId)) => some tenantId
    | _ => none
  | _ => none

/-- `TenantScopedSubscriber.afterLoad` -/
def afterLoad (store : Option TenantStore) (entity : JsValue) : Except Thrown Unit :=
  match stringTenant entity with
  | none => .ok ()
  | some tenantId =>
    if Json.truthy (TenantContext.tryGetTenantId store) &&
        differs tenantId (TenantContext.tryGetTenantId store) then
      .error (.forbidden (js "Cross-tenant access blocked"))
    else .ok ()

/-! ## Data sources -/

inductive Connection where
  | default
  | replica

/-- What is called for each entity a data source loads. -/
inductive Subscriber where
  | tenantScoped

def Subscriber.afterLoad : Subscriber → Option TenantStore → JsValue → Except Thrown Unit
  | tenantScoped => Tenancy.afterLoad

structure DataSources where
  default : List Subscriber
  replica : List Subscriber

/-- The constructor of the subscriber. -/
def DataSources.addTenantScoped (ds : DataSources) : DataSources :=
  ⟨ds.default ++ [.tenantScoped], ds.replica ++ [.tenantScoped]⟩

/-- The data sources once the module is constructed. -/
def dataSources : DataSources := DataSources.addTenantScoped ⟨[], []⟩

def DataSources.subscribers (ds : DataSources) : Connection → List Subscriber
  | .default => ds.default
  | .replica => ds.replica

/-- Calls every subscriber for every entity. -/
def broadcastLoad (c : Connection) (store : Option TenantStore) (entities : List JsValue) :
    Except Thrown Unit :=
  entities.forM fun entity => (dataSources.subscribers c).forM fun sub => sub.afterLoad store entity

/-- The entities a query loads on a connection, for the code that awaits them. -/
def load (c : Connection) (store : Option TenantStore) (entities : List JsValue) :
    Except Thrown (List JsValue) := do
  broadcastLoad c store entities
  return entities

/-! ## Code of a handler -/

/-- What a continuation does when it runs. -/
inductive Code where
  | done
  /-- Creates another continuation, and goes on. -/
  | fork (cont rest : Code)
  /-- Reads the tenant, and goes on. -/
  | tenant (k : Except Thrown JsValue → Code)
  /-- Awaits a load. -/
  | load (c : Connection) (k : Except Thrown (List JsValue) → Code)

/-- A continuation that waits for its turn. -/
inductive Pending where
  | authenticate
  | intercept (user : Option RequestUser)
  | code (code : Code)
  | loading (c : Connection) (k : Except Thrown (List JsValue) → Code)

structure Task where
  request : ℕ
  store : Option TenantStore
  pending : Pending

/-- What a turn does: the continuations it creates, and the tenants it reads. -/
structure Turn where
  tasks : List Task
  tenants : List (Except Thrown JsValue)

/-- Run code for a request under a store. -/
def Code.turn (request : ℕ) (store : Option TenantStore) : Code → Turn
  | done => ⟨[], []⟩
  | fork cont rest =>
    let r := rest.turn request store
    ⟨⟨request, store, .code cont⟩ :: r.tasks, r.tenants⟩
  | tenant k =>
    let x := TenantContext.getTenantId store
    let r := (k x).turn request store
    ⟨r.tasks, x :: r.tenants⟩
  | load c k => ⟨[⟨request, store, .loading c k⟩], []⟩

/-! ## The event loop -/

/-- A request: the payload of its token, if its route is behind `JwtAuthGuard`, and its handler. -/
structure Request where
  payload : Option Json
  handler : Option RequestUser → Code

structure Load where
  request : ℕ
  result : Except Thrown (List JsValue)

/-- The requests so far, the continuations waiting, and what was loaded and read. -/
structure State where
  requests : List Request
  tasks : List Task
  loads : List Load
  tenants : List (ℕ × Except Thrown JsValue)

def init : State := ⟨[], [], [], []⟩

inductive Action where
  | arrive (r : Request)
  | turn (task : ℕ)
  /-- The query of a load is answered, or fails. -/
  | answer (task : ℕ) (entities : Option (List JsValue))

/-- The first task of a request. -/
def Request.start (r : Request) : Pending :=
  match r.payload with
  | none => .intercept none
  | some _ => .authenticate

/-- What a task that is not loading does in its turn. -/
def Task.turn (r : Request) (t : Task) : Turn :=
  match t.pending with
  | .authenticate =>
    match (r.payload.map validate) with
    | some (.ok user) => ⟨[{ t with pending := .intercept (some user) }], []⟩
    | _ => ⟨[], []⟩
  | .intercept user => intercept user (fun store => (r.handler user).turn t.request store) t.store
  | .code code => code.turn t.request t.store
  | .loading _ _ => ⟨[t], []⟩

variable (s : State)

/-- The task number `i` has had a turn. -/
def State.after (i : ℕ) (t : Task) (x : Turn) : State :=
  { s with
    tasks := s.tasks.eraseIdx i ++ x.tasks
    tenants := s.tenants ++ x.tenants.map (t.request, ·) }

/-- **One turn of the loop**; `none` where the action is not possible. -/
def step : Action → Option State
  | .arrive r => some { s with
      requests := s.requests ++ [r]
      tasks := s.tasks ++ [⟨s.requests.length, none, r.start⟩] }
  | .turn i => s.tasks[i]?.bind fun t => s.requests[t.request]?.bind fun r =>
    match t.pending with
    | .loading _ _ => none
    | _ => some (s.after i t (t.turn r))
  | .answer i none => s.tasks[i]?.bind fun t =>
    match t.pending with
    | .loading _ k => some (s.after i t ((k (.error .failed)).turn t.request t.store))
    | _ => none
  | .answer i (some entities) => s.tasks[i]?.bind fun t =>
    match t.pending with
    | .loading c k =>
      let x := load c t.store entities
      some { s.after i t ((k x).turn t.request t.store) with loads := s.loads ++ [⟨t.request, x⟩] }
    | _ => none

abbrev run : State → List Action → Option State := exec step

/-- The steps, one constructor for each kind. -/
inductive Step (s : State) : Action → State → Prop
  | arrive {r} : Step s (.arrive r) { s with
      requests := s.requests ++ [r]
      tasks := s.tasks ++ [⟨s.requests.length, none, r.start⟩] }
  | turn {i t r} (ht : s.tasks[i]? = some t) (hr : s.requests[t.request]? = some r)
    (hp : ∀ c k, t.pending ≠ .loading c k) : Step s (.turn i) (s.after i t (t.turn r))
  | fail {i t c k} (ht : s.tasks[i]? = some t) (hp : t.pending = .loading c k) :
    Step s (.answer i none) (s.after i t ((k (.error .failed)).turn t.request t.store))
  | answer {i t c k entities} (ht : s.tasks[i]? = some t) (hp : t.pending = .loading c k) :
    Step s (.answer i (some entities))
      { s.after i t ((k (load c t.store entities)).turn t.request t.store) with
        loads := s.loads ++ [⟨t.request, load c t.store entities⟩] }

variable {s}

theorem step_cases {a : Action} {s' : State} (h : step s a = some s') : Step s a s' := by
  cases a with
  | arrive r => cases h; exact .arrive
  | turn i =>
    obtain ⟨t, ht, h⟩ := Option.bind_eq_some_iff.1 h
    obtain ⟨r, hr, h⟩ := Option.bind_eq_some_iff.1 h
    split at h
    · cases h
    · next hp => cases h; exact .turn ht hr hp
  | answer i entities =>
    cases entities with
    | none =>
      obtain ⟨t, ht, h⟩ := Option.bind_eq_some_iff.1 h
      split at h
      · next c k hp => cases h; exact .fail ht hp
      · cases h
    | some entities =>
      obtain ⟨t, ht, h⟩ := Option.bind_eq_some_iff.1 h
      split at h
      · next c k hp => cases h; exact .answer ht hp
      · cases h

end SystemDesign.Tenancy
