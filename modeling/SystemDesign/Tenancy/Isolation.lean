/-
  Tenant isolation of loads.

  A continuation of a handler runs under the store its request was bound to (`Bound`): none for an
  open route, and for an authenticated one the tenant claim that `validate` let pass.  Under that
  store a load yields no entity of another tenant (`load_isolated`), whichever requests run in
  between.
-/
import SystemDesign.Tenancy.Context

namespace SystemDesign.Tenancy

open Lib Accounts

/-! ## Loads -/

/-- A load throws, or yields no entity of another tenant than the claim. -/
def Isolated (claim : JsValue) : Except Thrown (List JsValue) → Prop
  | .error e => e = .forbidden (js "Cross-tenant access blocked")
  | .ok entities => ∀ e ∈ entities, ∀ tenantId, stringTenant e = some tenantId →
      claim = some (.str tenantId)

theorem eq_of_not_differs {s : JsString} {v : JsValue} (h : differs s v = false) : v = some (.str s) := by
  unfold differs at h
  split at h
  · next s' => rw [bne_eq_false_iff_eq.1 h]
  · cases h

/-- An entity passes under a bound store only with the tenant of the store, if with any. -/
theorem afterLoad_bound {claim : JsValue} (ht : Json.truthy claim = true) (entity : JsValue) :
    afterLoad (some ⟨claim⟩) entity = .error (.forbidden (js "Cross-tenant access blocked")) ∨
      (afterLoad (some ⟨claim⟩) entity = .ok () ∧
        ∀ tenantId, stringTenant entity = some tenantId → claim = some (.str tenantId)) := by
  have hcur : TenantContext.tryGetTenantId (some ⟨claim⟩) = claim := rfl
  unfold afterLoad
  cases he : stringTenant entity with
  | none => exact Or.inr ⟨rfl, nofun⟩
  | some tenantId =>
    simp only [hcur, ht, Bool.true_and]
    split_ifs with hd
    · exact Or.inl rfl
    · refine Or.inr ⟨rfl, fun x hx => ?_⟩
      rw [← Option.some.inj hx]
      exact eq_of_not_differs (by simpa using hd)

/-- Each data source calls the subscriber for an entity. -/
theorem broadcastLoad_cons (c : Connection) (store : Option TenantStore) (e : JsValue) (es : List JsValue) :
    broadcastLoad c store (e :: es) = (afterLoad store e >>= fun _ => broadcastLoad c store es) := by
  have hs : dataSources.subscribers c = [.tenantScoped] := by cases c <;> rfl
  simp only [broadcastLoad, hs, List.forM_eq_forM, List.forM_cons, List.forM_nil, bind_pure_unit]
  rfl

theorem broadcastLoad_bound {claim : JsValue} (ht : Json.truthy claim = true) (c : Connection)
    (entities : List JsValue) :
    broadcastLoad c (some ⟨claim⟩) entities = .error (.forbidden (js "Cross-tenant access blocked")) ∨
      (broadcastLoad c (some ⟨claim⟩) entities = .ok () ∧
        ∀ e ∈ entities, ∀ tenantId, stringTenant e = some tenantId → claim = some (.str tenantId)) := by
  induction entities with
  | nil => exact Or.inr ⟨rfl, fun _ h => absurd h List.not_mem_nil⟩
  | cons e es ih =>
    rw [broadcastLoad_cons]
    rcases afterLoad_bound ht e with h | ⟨h, he⟩
    · exact Or.inl (by rw [h]; rfl)
    · rw [h]
      rcases ih with h' | ⟨h', hes⟩
      · exact Or.inl h'
      · exact Or.inr ⟨h', List.forall_mem_cons.2 ⟨he, hes⟩⟩

/-- **Loads under a bound store are isolated**, on either connection. -/
theorem load_isolated {claim : JsValue} (ht : Json.truthy claim = true) (c : Connection)
    (entities : List JsValue) : Isolated claim (load c (some ⟨claim⟩) entities) := by
  unfold load
  rcases broadcastLoad_bound ht c entities with h | ⟨h, hall⟩
  · rw [h]; exact rfl
  · rw [h]; exact hall

/-! ## Stores -/

/-- The store that the handler of a request runs under. -/
def Bound (r : Request) (store : Option TenantStore) : Prop :=
  match r.payload with
  | none => store = none
  | some payload => ∃ user, validate payload = .ok user ∧ store = some ⟨user.tenantId⟩

/-- The user that a request is intercepted with. -/
def Authenticated (r : Request) (user : Option RequestUser) : Prop :=
  match r.payload with
  | none => user = none
  | some payload => ∃ u, validate payload = .ok u ∧ user = some u

/-- The store of a task is that of its place in the request. -/
def Task.Sound (t : Task) (r : Request) : Prop :=
  match t.pending with
  | .authenticate => t.store = none
  | .intercept user => t.store = none ∧ Authenticated r user
  | .code _ | .loading _ _ => Bound r t.store

/-- A task of the handler. -/
def Task.inHandler (t : Task) : Prop := (∃ code, t.pending = .code code) ∨ ∃ c k, t.pending = .loading c k

/-- What a turn makes for the request number `i` is sound. -/
structure Turn.Sound (x : Turn) (i : ℕ) (r : Request) : Prop where
  tasks : ∀ t ∈ x.tasks, t.request = i ∧ t.Sound r
  tenants : ∀ v ∈ x.tenants, ∃ store, Bound r store ∧ v = TenantContext.getTenantId store

/-- **What code creates has its store.** -/
theorem turn_sound {r : Request} {store : Option TenantStore} (h : Bound r store) (i : ℕ) (code : Code) :
    (code.turn i store).Sound i r := by
  induction code with
  | done => exact ⟨fun _ h => absurd h List.not_mem_nil, fun _ h => absurd h List.not_mem_nil⟩
  | fork cont rest _ ih =>
    refine ⟨fun t ht => ?_, ih.tenants⟩
    rcases List.mem_cons.1 ht with rfl | ht
    · exact ⟨rfl, h⟩
    · exact ih.tasks t ht
  | tenant k ih =>
    refine ⟨(ih _).tasks, fun v hv => ?_⟩
    rcases List.mem_cons.1 hv with rfl | hv
    · exact ⟨store, h, rfl⟩
    · exact (ih _).tenants v hv
  | load c k _ =>
    refine ⟨fun t ht => ?_, fun _ h => absurd h List.not_mem_nil⟩
    obtain rfl := List.mem_singleton.1 ht
    exact ⟨rfl, h⟩

/-- **The interceptor binds an authenticated request**, and no other: what `validate` lets pass,
    the interceptor finds truthy. -/
theorem intercept_sound {r : Request} {user : Option RequestUser} (h : Authenticated r user) (i : ℕ) :
    (intercept user (fun store => (r.handler user).turn i store) none).Sound i r := by
  unfold Authenticated at h
  cases hp : r.payload with
  | none =>
    rw [hp] at h
    subst h
    have hb : Bound r none := by rw [Bound, hp]
    exact turn_sound hb i _
  | some payload =>
    rw [hp] at h
    obtain ⟨u, hu, rfl⟩ := h
    have hb : Bound r (some ⟨u.tenantId⟩) := by rw [Bound, hp]; exact ⟨u, hu, rfl⟩
    have ht := (validate_ok hu).2
    simp only [intercept, ht, Bool.not_true, Bool.false_eq_true, ↓reduceIte, TenantContext.run]
    exact turn_sound hb i _

theorem Task.turn_sound {t : Task} {r : Request} (h : t.Sound r) (hp : ∀ c k, t.pending ≠ .loading c k) :
    (t.turn r).Sound t.request r := by
  unfold Task.turn
  unfold Task.Sound at h
  cases hpend : t.pending with
  | authenticate =>
    rw [hpend] at h
    dsimp only
    split
    · next user hv =>
      obtain ⟨payload, hpay, hv⟩ := Option.map_eq_some_iff.1 hv
      refine ⟨fun x hx => ?_, fun _ h => absurd h List.not_mem_nil⟩
      obtain rfl := List.mem_singleton.1 hx
      refine ⟨rfl, h, ?_⟩
      rw [Authenticated, hpay]
      exact ⟨user, hv, rfl⟩
    · exact ⟨fun _ h => absurd h List.not_mem_nil, fun _ h => absurd h List.not_mem_nil⟩
  | intercept user =>
    rw [hpend] at h
    obtain ⟨hs, ha⟩ := h
    dsimp only
    rw [hs]
    exact intercept_sound ha t.request
  | code code =>
    rw [hpend] at h
    exact Tenancy.turn_sound h t.request code
  | loading c k => exact absurd hpend (hp c k)

/-! ## Runs -/

structure Inv (s : State) : Prop where
  tasks : ∀ t ∈ s.tasks, ∃ r, s.requests[t.request]? = some r ∧ t.Sound r
  loads : ∀ l ∈ s.loads, ∃ r store c entities, s.requests[l.request]? = some r ∧ Bound r store ∧
    l.result = load c store entities
  tenants : ∀ x ∈ s.tenants, ∃ r store, s.requests[x.1]? = some r ∧ Bound r store ∧
    x.2 = TenantContext.getTenantId store

theorem inv_init : Inv init :=
  ⟨fun _ h => absurd h List.not_mem_nil, fun _ h => absurd h List.not_mem_nil,
    fun _ h => absurd h List.not_mem_nil⟩

theorem Inv.after {s : State} {i : ℕ} {t : Task} {r : Request} {x : Turn} (h : Inv s)
    (hr : s.requests[t.request]? = some r) (hx : x.Sound t.request r) : Inv (s.after i t x) where
  tasks t' ht' := by
    rcases List.mem_append.1 ht' with ht' | ht'
    · exact h.tasks t' (List.mem_of_mem_eraseIdx ht')
    · obtain ⟨he, hs⟩ := hx.tasks t' ht'
      exact ⟨r, he ▸ hr, hs⟩
  loads := h.loads
  tenants v hv := by
    rcases List.mem_append.1 hv with hv | hv
    · exact h.tenants v hv
    · obtain ⟨y, hy, rfl⟩ := List.mem_map.1 hv
      obtain ⟨store, hb, he⟩ := hx.tenants y hy
      exact ⟨r, store, hr, hb, he⟩

/-- **The step lemma.** -/
theorem step_inv {s s' : State} {a : Action} (h : Inv s) (ha : step s a = some s') : Inv s' := by
  cases step_cases ha with
  | @arrive r =>
    refine ⟨fun t ht => ?_, fun l hl => ?_, fun x hx => ?_⟩
    · rcases List.mem_append.1 ht with ht | ht
      · obtain ⟨r', hr', hs⟩ := h.tasks t ht
        exact ⟨r', getElem?_snoc hr', hs⟩
      · obtain rfl := List.mem_singleton.1 ht
        refine ⟨r, by simp, ?_⟩
        cases hp : r.payload with
        | none => simp [Task.Sound, Request.start, Authenticated, hp]
        | some payload => simp [Task.Sound, Request.start, hp]
    · obtain ⟨r', store, c, entities, hr', hl'⟩ := h.loads l hl
      exact ⟨r', store, c, entities, getElem?_snoc hr', hl'⟩
    · obtain ⟨r', store, hr', hx'⟩ := h.tenants x hx
      exact ⟨r', store, getElem?_snoc hr', hx'⟩
  | @turn i t r ht hr hp =>
    obtain ⟨r', hr', hs⟩ := h.tasks t (List.mem_of_getElem? ht)
    obtain rfl : r = r' := Option.some.inj (hr.symm.trans hr')
    exact h.after hr (Task.turn_sound hs hp)
  | @fail i t c k ht hp =>
    obtain ⟨r, hr, hs⟩ := h.tasks t (List.mem_of_getElem? ht)
    rw [Task.Sound, hp] at hs
    exact h.after hr (turn_sound hs t.request _)
  | @answer i t c k entities ht hp =>
    obtain ⟨r, hr, hs⟩ := h.tasks t (List.mem_of_getElem? ht)
    rw [Task.Sound, hp] at hs
    have hi := h.after (i := i) hr (turn_sound hs t.request (k (load c t.store entities)))
    refine ⟨hi.tasks, fun l hl => ?_, hi.tenants⟩
    rcases List.mem_append.1 hl with hl | hl
    · exact h.loads l hl
    · obtain rfl := List.mem_singleton.1 hl
      exact ⟨r, t.store, c, entities, hr, hs, rfl⟩

/-- The request is rejected by `validate`, and its handler does nothing. -/
def Rejected (s : State) (i : ℕ) (payload : Json) : Prop :=
  (∃ e, validate payload = .error e) ∧ (∀ l ∈ s.loads, l.request ≠ i) ∧
    ∀ t ∈ s.tasks, t.inHandler → t.request ≠ i

/-- Every continuation of the handler is bound to the claim, the handler reads no other tenant, and
    its loads are isolated. -/
structure Confined (s : State) (i : ℕ) (claim : JsValue) : Prop where
  bound : ∀ t ∈ s.tasks, t.inHandler → t.request = i → t.store = some ⟨claim⟩
  tenants : ∀ x ∈ s.tenants, x.1 = i → x.2 = .ok claim
  loads : ∀ l ∈ s.loads, l.request = i → Isolated claim l.result

/-- **Tenant isolation of loads.**  A request with a token is rejected, or confined to the tenant
    claim of its token. -/
theorem tenant_isolation {as : List Action} {s : State} (h : run init as = some s) {i : ℕ} {r : Request}
    {payload : Json} (hi : s.requests[i]? = some r) (hp : r.payload = some payload) :
    Rejected s i payload ∨ ∃ claim, payload.get (js "tenantId") = .ok claim ∧
      Json.truthy claim = true ∧ Confined s i claim := by
  have hinv : Inv s := exec_inv (fun _ _ _ => step_inv) inv_init h
  have bound : ∀ {j : ℕ} {r' : Request} {store : Option TenantStore}, s.requests[j]? = some r' →
      Bound r' store → j = i → ∃ user, validate payload = .ok user ∧ store = some ⟨user.tenantId⟩ := by
    rintro j r' store hj hb rfl
    obtain rfl : r = r' := Option.some.inj (hi.symm.trans hj)
    rwa [Bound, hp] at hb
  have handler : ∀ t ∈ s.tasks, t.inHandler → t.request = i →
      ∃ user, validate payload = .ok user ∧ t.store = some ⟨user.tenantId⟩ := by
    intro t ht hin hti
    obtain ⟨r', hr', hs⟩ := hinv.tasks t ht
    refine bound hr' ?_ hti
    rcases hin with ⟨code, hc⟩ | ⟨c, k, hc⟩ <;> rw [Task.Sound, hc] at hs <;> exact hs
  cases hv : validate payload with
  | error e =>
    -- no handler runs, for its store would come from a user that `validate` let pass
    refine Or.inl ⟨⟨e, hv⟩, fun l hl he => ?_, fun t ht hin he => ?_⟩
    · obtain ⟨r', store, c, entities, hr', hb, -⟩ := hinv.loads l hl
      obtain ⟨user, hu, -⟩ := bound hr' hb he
      rw [hv] at hu
      cases hu
    · obtain ⟨user, hu, -⟩ := handler t ht hin he
      rw [hv] at hu
      cases hu
  | ok user =>
    obtain ⟨hclaim, ht⟩ := validate_ok hv
    have same : ∀ {u : RequestUser}, validate payload = .ok u → user = u := fun hu =>
      Except.ok.inj (hv.symm.trans hu)
    refine Or.inr ⟨user.tenantId, hclaim, ht, fun t ht hin he => ?_, fun x hx he => ?_, fun l hl he => ?_⟩
    · obtain ⟨u, hu, hs⟩ := handler t ht hin he
      rw [hs, same hu]
    · obtain ⟨r', store, hr', hb, hxv⟩ := hinv.tenants x hx
      obtain ⟨u, hu, rfl⟩ := bound hr' hb he
      rw [hxv, same hu]
      rfl
    · obtain ⟨r', store, c, entities, hr', hb, hres⟩ := hinv.loads l hl
      obtain ⟨u, hu, rfl⟩ := bound hr' hb he
      rw [hres, ← same hu]
      exact load_isolated ht c entities

/-- The payload of a token of the tenant. -/
def samplePayload (tenant : JsString) : Json :=
  .obj [(js "sub", .str (js "u")), (js "username", .str (js "n")), (js "tenantId", .str tenant)]

/-- Its handler loads on one connection without awaiting it, and on the other. -/
def sampleRequest (tenant : JsString) : Request where
  payload := some (samplePayload tenant)
  handler _ := .fork (.load .replica fun _ => .done) (.load .default fun _ => .tenant fun _ => .done)

/-- Two requests interleave, and both load an entity of the tenant of the first one. -/
def sampleRun : List Action :=
  [.arrive (sampleRequest (js "a")), .arrive (sampleRequest (js "b")), .turn 0, .turn 0, .turn 0,
    .turn 0, .answer 1 (some [some (.obj [(js "tenantId", .str (js "a"))])]), .turn 0,
    .answer 1 (some [some (.obj [(js "tenantId", .str (js "a"))])]), .turn 0]

theorem tenant_isolation_interleaved :
    ∃ s, run init sampleRun = some s ∧
      (Rejected s 1 (samplePayload (js "b")) ∨
        ∃ claim, (samplePayload (js "b")).get (js "tenantId") = .ok claim ∧
          Json.truthy claim = true ∧ Confined s 1 claim) := by
  have hrun : (run init sampleRun).map (fun s => s.requests) =
      some [sampleRequest (js "a"), sampleRequest (js "b")] := rfl
  obtain ⟨s, h, hr⟩ := Option.map_eq_some_iff.1 hrun
  have hi : s.requests[1]? = some (sampleRequest (js "b")) := by rw [hr]; rfl
  exact ⟨s, h, tenant_isolation h hi rfl⟩

end SystemDesign.Tenancy
