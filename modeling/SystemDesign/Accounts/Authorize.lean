/-
  What an allowed request says of the tables.

  The guard reads the user, and in a later step the role of the user it read.  `Authorized` holds
  at the first read: the role the user had then was settled, so that the permissions the guard
  sees in the second read are those it had at the first.  `Guarding` lists where a request can
  stand and what it has seen.
-/
import SystemDesign.Accounts.Secure

namespace SystemDesign.Accounts

open Lib

/-- The user of the token has a role of the token's tenant, which is also the user's, and the role
    as it is loaded has the permission. -/
def Authorized (t : Tables) (tok : Token) (p : JsString) : Prop :=
  ∃ u ∈ t.users, u.id.toText = tok.sub ∧ ∃ r ∈ t.roles, u.roleId = some r.id ∧
    r.tenantId.toText = tok.tenantId ∧ r.tenantId = u.tenantId ∧ p ∈ r.load.permissions

/-! ## The code of a request -/

/-- Going on with an answer. -/
def answered {α : Type} (f : α → Service Result) : Except Thrown α → Service Result
  | .ok x => f x
  | .error e => .throw e

/-- The user that `validate` makes of the token. -/
def principal (tok : Token) : RequestUser :=
  ⟨some (.str tok.sub), some (.str tok.username), some (.str tok.tenantId)⟩

/-- What is left of a request once the user is read. -/
def afterUser (tok : Token) (p : JsString) (user : Option User) : Service Result :=
  checkRole (principal tok) p user >>= fun b => .ret (.allowed b)

/-- What is left of a request once the role is read. -/
def afterRole (tok : Token) (p : JsString) (role : Option Role) : Service Result :=
  checkPermission (principal tok) p role >>= fun b => .ret (.allowed b)

theorem request_code {tok : Token} {handler cls : Option JsString} {p : JsString} (hsub : tok.sub ≠ [])
    (hten : tok.tenantId ≠ []) (hp : getAllAndOverride handler cls = some p) (hne : p ≠ []) :
    (Job.request tok handler cls).code =
      .await (.findUserById (some (.str tok.sub))) (answered (afterUser tok p)) := by
  have ht : Json.truthy (principal tok).userId = true := by simpa [principal, Json.truthy] using hsub
  have hc : canActivate handler cls (some (principal tok)) =
      (UsersService.findById (some (.str tok.sub)) >>= checkRole (principal tok) p) := by
    simp only [canActivate, hp, List.isEmpty_iff, hne, ht, ↓reduceIte, Bool.not_true, Bool.false_eq_true]
    rfl
  have hg : guarded tok handler cls = canActivate handler cls (some (principal tok)) := by
    rw [guarded, validate_payload hten]
    rfl
  rw [Job.code, hg, hc]
  exact congrArg (Async.await (AOp.findUserById _)) (funext fun a => by cases a <;> rfl)

theorem afterUser_none {tok : Token} {p : JsString} {u : UserRow} (h : u.roleId = none) :
    ∃ e, afterUser tok p (some u.load) = .throw e :=
  ⟨.forbidden (js "No role assigned"), by simp [afterUser, checkRole, UserRow.load, h]⟩

theorem afterUser_some {tok : Token} {p : JsString} {u : UserRow} {id : Uuid} (h : u.roleId = some id) :
    afterUser tok p (some u.load) =
      .await (.findRoleById (some (.str id.toText))) (answered (afterRole tok p)) := by
  have hid : id.toText.isEmpty = false := by simp [Uuid.toText_ne_nil]
  simp only [afterUser, checkRole, UserRow.load, h, Option.bind_some, Option.map_some, hid,
    Bool.false_eq_true, ↓reduceIte]
  exact congrArg (Async.await (AOp.findRoleById _)) (funext fun a => by cases a <;> rfl)

/-- A request ends with a role read: it is allowed where the role has the tenant and the
    permission. -/
theorem afterRole_cases (tok : Token) (p : JsString) (r : RoleRow) :
    (∃ e, afterRole tok p (some r.load) = .throw e) ∨
      (afterRole tok p (some r.load) = .ret (.allowed true) ∧ r.tenantId.toText = tok.tenantId ∧
        p ∈ r.load.permissions) := by
  unfold afterRole checkPermission
  dsimp only
  split_ifs with hd hp
  · exact Or.inl ⟨_, rfl⟩
  · refine Or.inr ⟨rfl, ?_, List.contains_iff_mem.1 hp⟩
    simpa [differs, principal, RoleRow.load] using hd
  · exact Or.inl ⟨_, rfl⟩

/-! ## Where a request can stand -/

section
variable (bcrypt : Bcrypt) (id : Uuid)

/-- In the state before some step of the run, the call was in progress and `P` held. -/
def Instant (as : List Action) (i : ℕ) (P : State → Prop) : Prop :=
  ∃ as₁ as₂ s₁, as = as₁ ++ as₂ ∧ run bcrypt (init id) as₁ = some s₁ ∧
    (∃ call o k, s₁.calls[i]? = some call ∧ call.prog = .await o k) ∧ P s₁

/-- What a request has seen of the user: its role, which was settled, and no more than evolution
    since then. -/
def Saw (tok : Token) (u : UserRow) (r : RoleRow) (s s₁ : State) : Prop :=
  u ∈ s₁.tables.users ∧ u.id.toText = tok.sub ∧ u.tenantId.toText = tok.tenantId ∧
    r ∈ s₁.tables.roles ∧ u.roleId = some r.id ∧ Settled r ∧ Evolves false s₁.tables s.tables

/-- Where a request that needs the permission `p` stands after the run `as`. -/
inductive Guarding (as : List Action) (s : State) (i : ℕ) (tok : Token) (p : JsString) :
    Service Result → Prop
  | reading :
    Guarding as s i tok p (.await (.findUserById (some (.str tok.sub))) (answered (afterUser tok p)))
  | checking {u r} (h : Instant bcrypt id as i (Saw tok u r s)) :
    Guarding as s i tok p
      (.await (.findRoleById (some (.str r.id.toText))) (answered (afterRole tok p)))
  | allowed (h : Instant bcrypt id as i fun s₁ => Authorized s₁.tables tok p) :
    Guarding as s i tok p (.ret (.allowed true))
  | threw (e) : Guarding as s i tok p (.throw e)

end

variable {bcrypt : Bcrypt} {id : Uuid} {as : List Action} {s s' : State} {i : ℕ} {tok : Token}
  {p : JsString} {a : Action}

theorem Instant.snoc {P Q : State → Prop} (h : Instant bcrypt id as i P) (hq : ∀ s, P s → Q s) :
    Instant bcrypt id (as ++ [a]) i Q := by
  obtain ⟨as₁, as₂, s₁, rfl, h1, hcall, hP⟩ := h
  exact ⟨as₁, as₂ ++ [a], s₁, by simp, h1, hcall, hq s₁ hP⟩

/-- A request that does nothing stands where it stood. -/
theorem Guarding.snoc {prog : Service Result} (h : Guarding bcrypt id as s i tok p prog)
    (ht : Evolves false s.tables s'.tables) : Guarding bcrypt id (as ++ [a]) s' i tok p prog := by
  cases h with
  | reading => exact .reading
  | @checking u r h =>
    refine .checking (u := u) (h.snoc fun s₁ hs => ?_)
    obtain ⟨h1, h2, h3, h4, h5, h6, h7⟩ := hs
    exact ⟨h1, h2, h3, h4, h5, h6, h7.trans ht⟩
  | allowed h => exact .allowed (h.snoc fun _ hs => hs)
  | threw e => exact .threw e

/-- What the second read finds, it would have found at the first. -/
theorem authorized_of_saw {u : UserRow} {r : RoleRow} {q : Text} {s₁ : State} (h : Saw tok u r s s₁)
    (hs : Settled { r with permissions := q }) (hten : r.tenantId.toText = tok.tenantId)
    (hp : p ∈ { r with permissions := q }.load.permissions) : Authorized s₁.tables tok p := by
  obtain ⟨hu, hsub, hut, hr, hrole, hset, -⟩ := h
  refine ⟨u, hu, hsub, r, hr, hrole, hten, ?_, (hset.mem_iff hs rfl p).2 hp⟩
  exact Uuid.toText_injective (hten.trans hut.symm)

/-- **The step of a request.** -/
theorem guarding_step {o : AOp} {k : Except Thrown o.Ans → Service Result} {c : Choice}
    {x : Except Thrown o.Ans} {t : Tables} {call : Call} (hrun : run bcrypt (init id) as = some s)
    (hi : s.calls[i]? = some call) (hprog : call.prog = .await o k)
    (ho : o.answer bcrypt c s.tables = (x, t)) (hev : Evolves false s.tables s'.tables)
    (hissued : Issued tok s.tables) (hassigned : Assigned s.tables)
    (h : Guarding bcrypt id as s i tok p (.await o k)) :
    Guarding bcrypt id (as ++ [a]) s' i tok p (k x) := by
  cases h with
  | reading =>
    obtain ⟨u, hu, hsub, hten⟩ := hissued
    have hfind := Tables.findUserById_of_mem hu (hsub ▸ Uuid.ofText_toText u.id)
    obtain ⟨hx, -⟩ := Prod.mk.inj ho
    cases x with
    | error e => exact .threw e
    | ok user =>
      have hread := reading_ok hx
      rw [hfind] at hread
      obtain rfl := Option.some.inj hread
      cases hrole : u.roleId with
      | none =>
        obtain ⟨e, he⟩ : ∃ e, afterUser tok p (some u.load) = .throw e := afterUser_none hrole
        rw [answered, he]
        exact .threw e
      | some rid =>
        obtain ⟨r, hr, rfl, hset⟩ := hassigned u hu rid hrole
        rw [answered, afterUser_some hrole]
        exact .checking (u := u) ⟨as, [a], s, rfl, hrun, ⟨call, _, _, hi, hprog⟩, hu, hsub.symm, hten.symm,
          hr, hrole, hset, hev⟩
  | @checking u r h =>
    obtain ⟨as₁, as₂, s₁, rfl, h1, hcall, hsaw⟩ := h
    obtain ⟨q, hq, hset⟩ := hsaw.2.2.2.2.2.2.roles r hsaw.2.2.2.1
    have hfind := Tables.findRoleById_of_mem hq (Uuid.ofText_toText r.id)
    obtain ⟨hx, -⟩ := Prod.mk.inj ho
    cases x with
    | error e => exact .threw e
    | ok role =>
      have hread := reading_ok hx
      rw [hfind] at hread
      obtain rfl := Option.some.inj hread
      rw [answered]
      rcases afterRole_cases tok p { r with permissions := q } with ⟨e, he⟩ | ⟨he, hten, hp⟩
      · rw [he]; exact .threw e
      · rw [he]
        refine .allowed ⟨as₁, as₂ ++ [a], s₁, by simp, h1, hcall, ?_⟩
        exact authorized_of_saw hsaw (hset hsaw.2.2.2.2.2.1) hten hp

/-- What holds of the requests after a run: the token is that of a user, and a request that needs
    a permission stands somewhere. -/
def Requests (bcrypt : Bcrypt) (id : Uuid) (as : List Action) (s : State) : Prop :=
  ∀ (i : ℕ) (call : Call) (tok : Token) (handler cls : Option JsString), s.calls[i]? = some call →
    call.job = .request tok handler cls → Issued tok s.tables ∧
      ∀ p, getAllAndOverride handler cls = some p → p ≠ [] →
        Guarding bcrypt id as s i tok p call.prog

/-- An admitted request has a token that login returned for a user. -/
theorem issued_of_admits {handler cls : Option JsString} (h : AllSecure bcrypt false s)
    (ha : s.admits (.request tok handler cls) = true) : Issued tok s.tables := by
  obtain ⟨-, ha⟩ := Bool.and_eq_true_iff.1 ha
  obtain ⟨call, hc, hr⟩ := List.any_eq_true.1 ha
  have hsafe := h call hc
  rw [Call.prog_of_result (beq_iff_eq.1 hr)] at hsafe
  exact hsafe

theorem requests_run (h : run bcrypt (init id) as = some s) : Requests bcrypt id as s := by
  refine exec_hist (P := fun as s => Requests bcrypt id as s) (fun i call _ _ _ hi => ?_) ?_ as s h
  · cases hi
  intro as s a s' hrun ih ha
  obtain ⟨hsecure, hevolves⟩ : AllSecure bcrypt false s ∧ Evolves false (migrated id) s.tables :=
    run_secure hrun nofun
  obtain ⟨-, hev⟩ := step_secure hsecure nofun ha
  have hassigned : Assigned s.tables := hevolves.assigned fun _ hu => absurd hu List.not_mem_nil
  have old : ∀ {i : ℕ} {call : Call} {tok : Token} {handler cls : Option JsString},
      s.calls[i]? = some call → call.job = .request tok handler cls → Issued tok s'.tables ∧
        ∀ p, getAllAndOverride handler cls = some p → p ≠ [] →
          Guarding bcrypt id (as ++ [a]) s' i tok p call.prog := by
    intro i call tok handler cls hi hj
    obtain ⟨h1, h2⟩ := ih i call tok handler cls hi hj
    exact ⟨h1.evolves hev, fun p hp hne => (h2 p hp hne).snoc hev⟩
  intro i call tok handler cls hi hj
  cases step_cases ha with
  | @start job hadm =>
    rcases snoc_cases hi with ⟨-, rfl⟩ | hi
    · obtain rfl : job = .request tok handler cls := hj
      have hissued := issued_of_admits hsecure hadm
      refine ⟨hissued, fun p hp hne => ?_⟩
      obtain ⟨u, -, hsub, hten⟩ := hissued
      rw [request_code (hsub ▸ Uuid.toText_ne_nil _) (hten ▸ Uuid.toText_ne_nil _) hp hne]
      exact .reading
    · exact old hi hj
  | @step j c call' o k x t hj' hprog hc ho =>
    rcases set_cases hi with ⟨rfl, rfl⟩ | ⟨-, hi⟩
    · obtain ⟨h1, h2⟩ := ih i call' tok handler cls hj' hj
      refine ⟨h1.evolves hev, fun p hp hne => ?_⟩
      have hg := h2 p hp hne
      rw [hprog] at hg
      exact guarding_step hrun hj' hprog ho hev h1 hassigned hg
    · exact old hi hj
  | tick => exact old hi hj

/-- **End-to-end authorization soundness.**  Where a request that needs the permission `p` was
    allowed, the user of its token had a role with `p`, of the token's and its own tenant, in some
    state while the guard was in progress. -/
theorem allowed_authorized (bcrypt : Bcrypt) (id : Uuid) {as : List Action} {s : State}
    (h : run bcrypt (init id) as = some s) {i : ℕ} {call : Call} {tok : Token}
    {handler cls : Option JsString} {p : JsString} (hi : s.calls[i]? = some call)
    (hj : call.job = .request tok handler cls) (hp : getAllAndOverride handler cls = some p)
    (hne : p ≠ []) (hr : call.prog = .ret (.allowed true)) :
    Instant bcrypt id as i fun s₁ => Authorized s₁.tables tok p := by
  have hg := (requests_run h i call tok handler cls hi hj).2 p hp hne
  rw [hr] at hg
  cases hg with
  | allowed h => exact h

/-- A seed run creates `alice`, she logs in, and a request that needs `po.create` is allowed. -/
def allowedRun : List Action :=
  [.start (.seed (sampleEnv none)), .step 0 (sampleChoice 2), .step 0 (sampleChoice 2),
    .step 0 (sampleChoice 3), .step 0 (sampleChoice 3), .step 0 (sampleChoice 4),
    .step 0 (sampleChoice 4), .step 0 (sampleChoice 4), .step 0 (sampleChoice 5),
    .step 0 (sampleChoice 5), .step 0 (sampleChoice 5), .step 0 (sampleChoice 6),
    .start (.login (js "alice") (js "pw1")), .step 1 (sampleChoice 6), .step 1 (sampleChoice 6),
    .step 1 (sampleChoice 6),
    .start (.request ⟨(Uuid.ofNat 5).toText, js "alice", (Uuid.ofNat 1).toText, 0⟩
      (some (js "po.create")) none),
    .step 2 (sampleChoice 6), .step 2 (sampleChoice 6)]

theorem allowed_authorized_seeded :
    Instant sampleBcrypt (Uuid.ofNat 1) allowedRun 2 fun s =>
      Authorized s.tables ⟨(Uuid.ofNat 5).toText, js "alice", (Uuid.ofNat 1).toText, 0⟩
        (js "po.create") := by
  have hrun : (run sampleBcrypt (init (Uuid.ofNat 1)) allowedRun).map
      (fun s => (s.calls[2]?).map fun call => (call.job, call.result)) = some (some
        (.request ⟨(Uuid.ofNat 5).toText, js "alice", (Uuid.ofNat 1).toText, 0⟩ (some (js "po.create")) none,
          some (.allowed true))) := by decide +kernel
  obtain ⟨s, h, hs⟩ := Option.map_eq_some_iff.1 hrun
  obtain ⟨call, hi, hc⟩ := Option.map_eq_some_iff.1 hs
  obtain ⟨hj, hres⟩ := Prod.mk.inj hc
  exact allowed_authorized sampleBcrypt (Uuid.ofNat 1) h hi hj rfl (by decide) (Call.prog_of_result hres)

end SystemDesign.Accounts
