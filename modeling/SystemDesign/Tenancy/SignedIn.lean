/-
  Users who signed in, and what their requests load.

  The accounts and the event loop run side by side: a request to a guarded route carries a token that
  some login returned and that has not expired.  Its handler then runs under the tenant of that user.

  `own_tenant`: whatever other requests, services and seed runs do meanwhile, the handler reads that
  tenant, and loads nothing of another one: no user, no role and no other entity with a `tenantId`.
-/
import SystemDesign.Accounts.SignIn
import SystemDesign.Tenancy.Isolation

namespace SystemDesign.Tenancy

open Lib Accounts

/-! ## Entities -/

/-- A `Date`: an object without members of its own. -/
def date : Json := .obj []

/-- A user as the database loads it. -/
def userEntity (u : User) : JsValue :=
  some (.obj [(js "id", .str u.id), (js "username", .str u.username), (js "passwordHash", .str u.passwordHash),
    (js "tenantId", .str u.tenantId), (js "roleId", u.roleId.elim .null .str), (js "createdAt", date)])

def roleEntity (r : Role) : JsValue :=
  some (.obj [(js "id", .str r.id), (js "tenantId", .str r.tenantId), (js "name", .str r.name),
    (js "permissions", .arr (r.permissions.map .str)), (js "createdAt", date)])

/-- The other columns have names of their own. -/
theorem tenantId_ne : ∀ key ∈ [js "name", js "permissions", js "roleId", js "createdAt"],
    (key == js "tenantId") = false := by decide

theorem stringTenant_user (u : User) : stringTenant (userEntity u) = some u.tenantId := by
  simp [stringTenant, userEntity, Json.get, tenantId_ne]

theorem stringTenant_role (r : Role) : stringTenant (roleEntity r) = some r.tenantId := by
  simp [stringTenant, roleEntity, Json.get, tenantId_ne]

/-! ## The system -/

structure Api where
  accounts : Accounts.State
  loop : State

/-- The migrated database, and no requests. -/
def Api.init (id : Uuid) : Api := ⟨Accounts.init id, Tenancy.init⟩

inductive Api.Action where
  | accounts (a : Accounts.Action)
  /-- A request to a route behind `JwtAuthGuard`. -/
  | request (tok : Token) (handler : Option RequestUser → Code)
  /-- Another turn of the loop, or a request to an open route. -/
  | loop (a : Tenancy.Action)

/-- The action is no request with a token. -/
def unguarded : Tenancy.Action → Bool
  | .arrive r => r.payload.isNone
  | _ => true

variable (bcrypt : Bcrypt) (s : Api)

/-- **One step**; `none` where the action is not possible, or the guard rejects the request. -/
def Api.step : Api.Action → Option Api
  | .accounts a => (Accounts.step bcrypt s.accounts a).map fun accounts => { s with accounts := accounts }
  | .request tok handler =>
    if s.accounts.admits (.request tok none none) then
      (Tenancy.step s.loop (.arrive ⟨some tok.payload, handler⟩)).map fun loop => { s with loop := loop }
    else none
  | .loop a =>
    if unguarded a then (Tenancy.step s.loop a).map fun loop => { s with loop := loop } else none

abbrev Api.run : Api → List Api.Action → Option Api := exec (Api.step bcrypt)

/-- The steps, one constructor for each kind. -/
inductive Api.Step (s : Api) : Api.Action → Api → Prop
  | accounts {a accounts} (h : Accounts.step bcrypt s.accounts a = some accounts) :
    Api.Step s (.accounts a) { s with accounts := accounts }
  | request {tok handler loop} (ha : s.accounts.admits (.request tok none none) = true)
    (h : Tenancy.step s.loop (.arrive ⟨some tok.payload, handler⟩) = some loop) :
    Api.Step s (.request tok handler) { s with loop := loop }
  | loop {a loop} (ha : unguarded a = true) (h : Tenancy.step s.loop a = some loop) :
    Api.Step s (.loop a) { s with loop := loop }

variable {bcrypt} {s}

theorem Api.step_cases {a : Api.Action} {s' : Api} (h : s.step bcrypt a = some s') :
    Api.Step bcrypt s a s' := by
  cases a with
  | accounts a =>
    obtain ⟨accounts, ha, rfl⟩ := Option.map_eq_some_iff.1 h
    exact .accounts ha
  | request tok handler =>
    simp only [Api.step] at h
    split_ifs at h with ha
    obtain ⟨loop, hl, rfl⟩ := Option.map_eq_some_iff.1 h
    exact .request ha hl
  | loop a =>
    simp only [Api.step] at h
    split_ifs at h with ha
    obtain ⟨loop, hl, rfl⟩ := Option.map_eq_some_iff.1 h
    exact .loop ha hl

/-! ## The invariant -/

/-- Each request with a token came from a user who had signed in. -/
structure Api.Inv (bcrypt : Bcrypt) (s : Api) : Prop where
  signed : AllSigned bcrypt s.accounts
  loop : Tenancy.Inv s.loop
  requests : ∀ r ∈ s.loop.requests, ∀ payload, r.payload = some payload →
    ∃ tok, payload = tok.payload ∧ Signed bcrypt s.accounts tok

theorem Api.inv_init (id : Uuid) : (Api.init id).Inv bcrypt where
  signed call hc := by cases hc
  loop := Tenancy.inv_init
  requests r hr := by cases hr

/-- The requests that an action of the loop adds. -/
def arrivals : Tenancy.Action → List Request
  | .arrive r => [r]
  | _ => []

theorem step_requests {loop loop' : State} {a : Tenancy.Action} (h : Tenancy.step loop a = some loop') :
    loop'.requests = loop.requests ++ arrivals a := by
  cases Tenancy.step_cases h with
  | arrive => rfl
  | turn | fail | answer => exact (List.append_nil _).symm

theorem Api.step_inv {a : Api.Action} {s' : Api} (h : s.Inv bcrypt) (hs : s.step bcrypt a = some s') :
    s'.Inv bcrypt := by
  cases Api.step_cases hs with
  | @accounts a accounts ha =>
    refine ⟨(step_signed h.signed ha).1, h.loop, fun r hr payload hp => ?_⟩
    obtain ⟨tok, he, hsigned⟩ := h.requests r hr payload hp
    exact ⟨tok, he, hsigned.step h.signed ha⟩
  | @request tok handler loop ha hl =>
    refine ⟨h.signed, Tenancy.step_inv h.loop hl, fun r hr payload hp => ?_⟩
    rw [step_requests hl] at hr
    rcases List.mem_append.1 hr with hr | hr
    · exact h.requests r hr payload hp
    · rw [List.mem_singleton.1 hr] at hp
      exact ⟨tok, (Option.some.inj hp).symm, (h.signed.admitted ha).2⟩
  | @loop a loop ha hl =>
    refine ⟨h.signed, Tenancy.step_inv h.loop hl, fun r hr payload hp => ?_⟩
    rw [step_requests hl] at hr
    rcases List.mem_append.1 hr with hr | hr
    · exact h.requests r hr payload hp
    · cases a with
      | arrive r' =>
        rw [List.mem_singleton.1 hr] at hp
        rw [unguarded, hp] at ha
        cases ha
      | turn | answer => cases hr

theorem Api.run_inv {id : Uuid} {as : List Api.Action} (h : (Api.init id).run bcrypt as = some s) :
    s.Inv bcrypt :=
  exec_inv (I := Api.Inv bcrypt) (fun _ _ _ hi ha => Api.step_inv hi ha) (Api.inv_init id) h

/-! ## The tenant of a request -/

/-- The handler of the request `i` is confined to the tenant of the user `u`. -/
structure OwnTenant (loop : State) (i : ℕ) (u : UserRow) : Prop where
  read : ∀ x ∈ loop.tenants, x.1 = i → x.2 = .ok (some (.str u.tenantId.toText))
  error : ∀ l ∈ loop.loads, l.request = i → ∀ e, l.result = .error e →
    e = .forbidden (js "Cross-tenant access blocked")
  /-- Whatever entities a load yields, their tenant is that of the user, if they have one. -/
  loaded : ∀ l ∈ loop.loads, l.request = i → ∀ entities, l.result = .ok entities → ∀ e ∈ entities,
    ∀ tenantId, stringTenant e = some tenantId → tenantId = u.tenantId.toText

section
variable {loop : State} {i : ℕ} {u : UserRow} {l : Load} {entities : List JsValue}

/-- So the users that are loaded are users of the tenant. -/
theorem OwnTenant.users (h : OwnTenant loop i u) (hl : l ∈ loop.loads) (hi : l.request = i)
    (hr : l.result = .ok entities) {x : UserRow} (hx : userEntity x.load ∈ entities) :
    x.tenantId = u.tenantId :=
  Uuid.toText_injective (h.loaded l hl hi entities hr _ hx _ (stringTenant_user x.load))

theorem OwnTenant.roles (h : OwnTenant loop i u) (hl : l ∈ loop.loads) (hi : l.request = i)
    (hr : l.result = .ok entities) {x : RoleRow} (hx : roleEntity x.load ∈ entities) :
    x.tenantId = u.tenantId :=
  Uuid.toText_injective (h.loaded l hl hi entities hr _ hx _ (stringTenant_role x.load))

end

/-- The store of a request with a token is the tenant of the token. -/
theorem bound_token {r : Request} {store : Option TenantStore} {tok : Token} (hp : r.payload = some tok.payload)
    (htenant : tok.tenantId ≠ []) (h : Bound r store) : store = some ⟨some (.str tok.tenantId)⟩ := by
  rw [Bound, hp] at h
  obtain ⟨user, hv, rfl⟩ := h
  rw [validate_payload htenant] at hv
  cases hv
  rfl

theorem ownTenant_of_token {loop : State} (h : Tenancy.Inv loop) {i : ℕ} {r : Request} {tok : Token}
    {u : UserRow} (hi : loop.requests[i]? = some r) (hp : r.payload = some tok.payload)
    (htok : tok.tenantId = u.tenantId.toText) : OwnTenant loop i u := by
  have htenant : tok.tenantId ≠ [] := htok ▸ Uuid.toText_ne_nil u.tenantId
  have truthy : Json.truthy (some (.str u.tenantId.toText)) = true := by
    simp [Json.truthy, Uuid.toText_ne_nil]
  have bound : ∀ {j : ℕ} {r' : Request} {store : Option TenantStore}, loop.requests[j]? = some r' →
      Bound r' store → j = i → store = some ⟨some (.str u.tenantId.toText)⟩ := by
    rintro j r' store hj hb rfl
    obtain rfl : r = r' := Option.some.inj (hi.symm.trans hj)
    rw [bound_token hp htenant hb, htok]
  have isolated : ∀ l ∈ loop.loads, l.request = i → Isolated (some (.str u.tenantId.toText)) l.result := by
    intro l hl he
    obtain ⟨r', store, c, entities, hr', hb, hres⟩ := h.loads l hl
    rw [hres, bound hr' hb he]
    exact load_isolated truthy c entities
  refine ⟨fun x hx he => ?_, fun l hl he e hres => ?_, fun l hl he entities hres e hmem tenantId hs => ?_⟩
  · obtain ⟨r', store, hr', hb, hv⟩ := h.tenants x hx
    rw [hv, bound hr' hb he]
    rfl
  · have hiso := isolated l hl he
    rw [hres] at hiso
    exact hiso
  · have hiso := isolated l hl he
    rw [hres] at hiso
    have hclaim : some (Json.str u.tenantId.toText) = some (.str tenantId) := hiso e hmem tenantId hs
    exact (Json.str.inj (Option.some.inj hclaim)).symm

/-- **A user who signed in loads what belongs to the user's tenant.**  After every run, a request with a
    token is that of a user of the name whose password some login was given; its handler reads the tenant
    of this user, and loads no entity of another tenant. -/
theorem own_tenant (bcrypt : Bcrypt) (id : Uuid) {as : List Api.Action} {s : Api}
    (h : (Api.init id).run bcrypt as = some s) {i : ℕ} {r : Request} {payload : Json}
    (hi : s.loop.requests[i]? = some r) (hp : r.payload = some payload) :
    ∃ call ∈ s.accounts.calls, ∃ username password tok, call.job = .login username password ∧
      call.result = some (.token tok) ∧ payload = tok.payload ∧
      ∃ u ∈ s.accounts.tables.users, Text.ofJs username = some u.username ∧
        bcrypt.compare password u.load.passwordHash = true ∧ OwnTenant s.loop i u := by
  have hinv := Api.run_inv h
  obtain ⟨tok, rfl, call, hc, username, password, hj, hr, -, u, hu, hn, hcmp, htok⟩ :=
    hinv.requests r (List.mem_of_getElem? hi) payload hp
  refine ⟨call, hc, username, password, tok, hj, hr, rfl, u, hu, hn, hcmp, ?_⟩
  refine ownTenant_of_token hinv.loop hi hp ?_
  rw [htok]
  rfl

/-! ## A request of `alice` -/

def aliceToken : Token := ⟨(Uuid.ofNat 2).toText, js "alice", (Uuid.ofNat 1).toText, 0⟩

/-- Its handler loads twice and reads the tenant. -/
def loading (_ : Option RequestUser) : Code :=
  .load .replica fun _ => .load .default fun _ => .tenant fun _ => .done

/-- The row of `alice`, as a service loads it. -/
def aliceUser : User :=
  ⟨(Uuid.ofNat 2).toText, js "alice", js "$2b$10$abcdefghijklmnopqrstuuZ68w8EcKo4W58nnXuOvDmvaoYl7zozS",
    (Uuid.ofNat 1).toText, none⟩

/-- `alice` is created and logs in, and her request loads herself and then a user of another tenant. -/
def loadRun : List Api.Action :=
  [.accounts (.start (.createUser (Uuid.ofNat 1).toText (js "alice") (js "pw1"))),
    .accounts (.step 0 (sampleChoice 2)), .accounts (.step 0 (sampleChoice 2)),
    .accounts (.start (.login (js "alice") (js "pw1"))), .accounts (.step 1 (sampleChoice 3)),
    .accounts (.step 1 (sampleChoice 3)), .accounts (.step 1 (sampleChoice 3)),
    .request aliceToken loading, .loop (.turn 0), .loop (.turn 0),
    .loop (.answer 0 (some [userEntity aliceUser])),
    .loop (.answer 0 (some [userEntity { aliceUser with tenantId := (Uuid.ofNat 7).toText }]))]

/-- The first load yields `alice`, the second is refused. -/
theorem own_tenant_alice : ∃ s, (Api.init (Uuid.ofNat 1)).run sampleBcrypt loadRun = some s ∧
    s.loop.loads = [⟨0, .ok [userEntity aliceUser]⟩,
      ⟨0, .error (.forbidden (js "Cross-tenant access blocked"))⟩] ∧
    ∃ u ∈ s.accounts.tables.users, u.load = aliceUser ∧ OwnTenant s.loop 0 u := by
  have hrun : ((Api.init (Uuid.ofNat 1)).run sampleBcrypt loadRun).map
      (fun s => s.accounts.tables.users.map UserRow.load) = some [aliceUser] := by decide +kernel
  have hloop : ((Api.init (Uuid.ofNat 1)).run sampleBcrypt loadRun).map
      (fun s => (s.loop.requests, s.loop.loads)) = some ([⟨some aliceToken.payload, loading⟩],
        [⟨0, .ok [userEntity aliceUser]⟩, ⟨0, .error (.forbidden (js "Cross-tenant access blocked"))⟩]) := rfl
  obtain ⟨s, h, husers⟩ := Option.map_eq_some_iff.1 hrun
  rw [h, Option.map_some, Option.some.injEq] at hloop
  obtain ⟨hreq, hloads⟩ := Prod.mk.inj hloop
  have hi : s.loop.requests[0]? = some ⟨some aliceToken.payload, loading⟩ := by
    rw [hreq]
    rfl
  obtain ⟨-, -, -, -, -, -, -, -, u, hu, -, -, hown⟩ := own_tenant sampleBcrypt (Uuid.ofNat 1) h hi rfl
  have hload : u.load ∈ s.accounts.tables.users.map UserRow.load := List.mem_map_of_mem hu
  rw [husers] at hload
  exact ⟨s, h, hloads, u, hu, List.mem_singleton.1 hload, hown⟩

end SystemDesign.Tenancy
