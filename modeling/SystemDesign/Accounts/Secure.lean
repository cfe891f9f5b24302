/-
  Every job evolves the tables.

  `Secure` is `Async.Safe` with `Evolves` as both rely and guarantee.  One lemma for each service
  and each part of the seed script; `job_secure` puts them together, and `secure_run` says of a
  run that the tables evolve and that each call is still secure.
-/
import SystemDesign.Accounts.Evolution

namespace SystemDesign.Accounts

open Lib

/-- A lookup of the seed script finds no user without a role, unless it is of the tenant the
    script names. -/
def Job.fits : Job → AOp → Tables → Bool
  | .seed env, .findUser username, t => t.users.all fun u =>
    Text.ofJs username != some u.username || u.roleId.isSome ||
      t.tenants.any fun x => x.id == u.tenantId && Text.ofJs (Seed.tenantName env) == some x.name
  | _, _, _ => true

/-- The operations of a job; where `strict`, those that fit. -/
def fitting (bcrypt : Bcrypt) (strict : Bool) (job : Job) (o : AOp) (c : Choice) (t : Tables) :
    Option (Except Thrown o.Ans × Tables) :=
  if strict = true → job.fits o t = true then some (o.answer bcrypt c t) else none

abbrev Secure (bcrypt : Bcrypt) (strict : Bool) (job : Job) {ρ : Type} (Q : ρ → Tables → Prop)
    (code : Service ρ) (t : Tables) : Prop :=
  Async.Safe (fitting bcrypt strict job) (Evolves strict) (fun _ => Evolves strict) Q code t

section
variable {bcrypt : Bcrypt} {strict : Bool} {job : Job} {t : Tables} {ρ : Type}

/-- Awaiting one operation. -/
theorem secure_perform {o : AOp} {Q : o.Ans → Tables → Prop}
    (h : ∀ t₁, Evolves strict t t₁ → (strict = true → job.fits o t₁ = true) →
      ∀ c a t₂, o.answer bcrypt c t₁ = (a, t₂) →
        Evolves strict t₁ t₂ ∧ ∀ x, a = .ok x → Q x t₂) :
    Secure bcrypt strict job Q (perform o) t := by
  refine Async.Safe.call fun t₁ ht c a t₂ ha => ?_
  unfold fitting at ha
  split_ifs at ha with hf
  exact h t₁ ht hf c a t₂ (Option.some.inj ha)

/-- Awaiting an operation without effect. -/
theorem secure_read {o : AOp} {v : Choice → Tables → Option o.Ans} {Q : o.Ans → Tables → Prop}
    (ho : ∀ c t, o.answer bcrypt c t = (reading c (v c t), t))
    (h : ∀ t₁, Evolves strict t t₁ → (strict = true → job.fits o t₁ = true) →
      ∀ c x, v c t₁ = some x → Q x t₁) :
    Secure bcrypt strict job Q (perform o) t := by
  refine secure_perform fun t₁ ht hf c a t₂ ha => ?_
  rw [ho] at ha
  cases ha
  exact ⟨.refl _, fun x hx => h t₁ ht hf c x (reading_ok hx)⟩

theorem secure_frame {F : Tables → Prop} {Q : ρ → Tables → Prop} {p : Service ρ}
    (hF : ∀ {t t'}, F t → Evolves strict t t' → F t') (h : Secure bcrypt strict job Q p t) (hf : F t) :
    Secure bcrypt strict job (fun r t => Q r t ∧ F t) p t :=
  Async.Safe.frame (fun _ _ hf ht => hF hf ht) (fun _ _ _ ht => ht) h hf

/-! ## Services -/

theorem create_user_secure (tenantId username password : JsString) :
    Secure bcrypt strict job (fun _ _ => True) (UsersService.create tenantId username password) t := by
  refine Async.Safe.bind (Q := fun _ _ => True) (fun passwordHash t₁ _ => ?_)
    (secure_read (fun _ _ => rfl) fun _ _ _ _ _ _ => trivial)
  refine Async.Safe.bind (Q := fun _ _ => True) (fun id t₂ _ => ?_)
    (secure_perform fun _ _ _ _ _ _ ha => ⟨insertUser_evolves ha nofun, fun _ _ => trivial⟩)
  trivial

theorem create_role_secure (tenantId name : JsString) (ps : List JsString) :
    Secure bcrypt strict job (fun _ _ => True) (RolesService.create tenantId name ps) t := by
  refine Async.Safe.bind (Q := fun _ _ => True) (fun id t₁ _ => ?_)
    (secure_perform fun _ _ _ _ _ _ ha => ⟨insertRole_evolves ha, fun _ _ => trivial⟩)
  trivial

/-- The token names a user and its tenant. -/
def Issued (tok : Token) (t : Tables) : Prop :=
  ∃ u ∈ t.users, tok.sub = u.id.toText ∧ tok.tenantId = u.tenantId.toText

theorem Issued.evolves {tok : Token} {t' : Tables} (h : Issued tok t) (ht : Evolves strict t t') :
    Issued tok t' := by
  obtain ⟨u, hu, h1, h2⟩ := h
  obtain ⟨id, hid⟩ := ht.users u hu
  exact ⟨_, hid, h1, h2⟩

/-- **A token that login returns is that of a user.** -/
theorem login_secure (username password : JsString) :
    Secure bcrypt strict job Issued (login username password) t := by
  have found : Secure bcrypt strict job (fun x t => ∀ user, x = some user → ∃ u ∈ t.users, user = u.load)
      (UsersService.findByUsername username) t := by
    refine secure_read (fun _ _ => rfl) fun t₁ _ _ _ x hx user he => ?_
    subst he
    obtain ⟨u, hu, hl, -⟩ := Tables.findUser_some hx
    exact ⟨u, hu, hl⟩
  refine Async.Safe.bind (fun user t₁ hu => ?_) found
  cases user with
  | none =>
    refine Async.Safe.bind (Q := fun _ _ => True) (fun matched t₂ _ => ?_) ?_
    · trivial
    · refine Async.Safe.bind (Q := fun _ _ => True) (fun _ _ _ => ?_)
        (secure_read (fun _ _ => rfl) fun _ _ _ _ _ _ => trivial)
      trivial
  | some user =>
    obtain ⟨u, hmem, rfl⟩ := hu user rfl
    have compared : Secure bcrypt strict job (fun _ t => ∃ id, { u with roleId := id } ∈ t.users)
        (UsersService.validatePassword (some u.load) password) t₁ :=
      secure_read (fun _ _ => rfl) fun t₂ h _ _ _ _ => h.users u hmem
    refine Async.Safe.bind (fun matched t₂ hu₂ => ?_) compared
    obtain ⟨id, hid⟩ := hu₂
    dsimp only
    split_ifs
    · refine secure_read (fun _ _ => rfl) fun t₃ h _ c x hx => ?_
      obtain ⟨id', hid'⟩ := h.users _ hid
      obtain rfl := Option.some.inj hx
      exact ⟨_, hid', rfl, rfl⟩
    · trivial

/-- A guarded request reads only. -/
theorem guarded_secure (tok : Token) (handler cls : Option JsString) :
    Secure bcrypt strict job (fun _ _ => True) (guarded tok handler cls) t := by
  unfold guarded
  split
  · trivial
  unfold canActivate
  split
  · trivial
  split_ifs
  · trivial
  split
  · trivial
  split_ifs
  · trivial
  refine Async.Safe.bind (Q := fun _ _ => True) (fun user t₁ _ => ?_)
    (secure_read (fun _ _ => rfl) fun _ _ _ _ _ _ => trivial)
  unfold checkRole
  split
  · trivial
  split_ifs
  · trivial
  refine Async.Safe.bind (Q := fun _ _ => True) (fun role t₂ _ => ?_)
    (secure_read (fun _ _ => rfl) fun _ _ _ _ _ _ => trivial)
  unfold checkPermission
  split
  · trivial
  split_ifs <;> trivial

/-! ## The seed script -/

/-- There is a tenant of the name with the id. -/
def HasTenant (name id : JsString) (t : Tables) : Prop :=
  ∃ x ∈ t.tenants, Text.ofJs name = some x.name ∧ Uuid.ofText id = some x.id

/-- There is a settled role of the tenant with the id. -/
def HasRole (roleId tenantId : JsString) (t : Tables) : Prop :=
  ∃ r ∈ t.roles, Uuid.ofText roleId = some r.id ∧ Settled r ∧ Uuid.ofText tenantId = some r.tenantId

theorem HasTenant.evolves {name id : JsString} {t' : Tables} (h : HasTenant name id t)
    (ht : Evolves strict t t') : HasTenant name id t' := by
  obtain ⟨x, hx, h⟩ := h
  exact ⟨x, ht.tenants x hx, h⟩

theorem HasRole.evolves {roleId tenantId : JsString} {t' : Tables} (h : HasRole roleId tenantId t)
    (ht : Evolves strict t t') : HasRole roleId tenantId t' := by
  obtain ⟨r, hr, hid, hs, htid⟩ := h
  obtain ⟨p, hp, hs'⟩ := ht.roles r hr
  exact ⟨_, hp, hid, hs' hs, htid⟩

theorem ensureTenant_secure (name : JsString) :
    Secure bcrypt strict job (fun tenant t => HasTenant name tenant.id t) (Seed.ensureTenant name) t := by
  have found : Secure bcrypt strict job
      (fun x t => ∀ tenant, x = some tenant → HasTenant name tenant.id t)
      (perform (.findTenant name)) t := by
    refine secure_read (fun _ _ => rfl) fun t₁ _ _ _ x hx tenant he => ?_
    subst he
    obtain ⟨r, hr, rfl, hn⟩ := Tables.findTenant_some hx
    exact ⟨r, hr, hn, Uuid.ofText_toText _⟩
  refine Async.Safe.bind (fun x t₁ hx => ?_) found
  cases x with
  | some tenant => exact hx tenant rfl
  | none =>
    refine Async.Safe.bind (Q := HasTenant name) (fun id t₂ h => ?_)
      (secure_perform fun t₂ _ _ c a t₃ ha => ⟨insertTenant_evolves ha, ?_⟩)
    · exact h
    · rintro id rfl
      obtain ⟨rfl, hw⟩ := writing_ok ha
      obtain ⟨n, hn, hten, -, -⟩ := insertTenant_rows hw
      exact ⟨⟨c.id, n⟩, hten ▸ List.mem_cons_self, hn, Uuid.ofText_toText _⟩

/-- Saving the script's permissions for a role of the script settles it. -/
theorem save_secure {r : RoleRow} {tenantId : JsString} {y : JsString × List JsString} (hy : y ∈ seedRoles)
    (hn : Text.ofJs y.1 = some r.name) (htid : Uuid.ofText tenantId = some r.tenantId) (hr : r ∈ t.roles) :
    Secure bcrypt strict job (fun role t => HasRole role.id tenantId t)
      (Seed.save { r.load with permissions := y.2 }) t := by
  have hid : Uuid.ofText r.load.id = some r.id := Uuid.ofText_toText _
  have selected : Secure bcrypt strict job
      (fun x t => ∃ p, { r with permissions := p } ∈ t.roles ∧ x = some { r with permissions := p }.load)
      (perform (.selectRole r.load.id)) t := by
    refine secure_read (fun _ _ => rfl) fun t₁ ht _ _ x hx => ?_
    obtain ⟨p, hp, -⟩ := ht.roles r hr
    refine ⟨p, hp, ?_⟩
    rw [Tables.findRoleById_of_mem hp hid] at hx
    exact (Option.some.inj hx).symm
  refine Async.Safe.bind (fun x t₁ hx => ?_) selected
  obtain ⟨p, hp, rfl⟩ := hx
  dsimp only
  split_ifs with hch
  · have hw := (changes_permissions (r := { r with permissions := p }) hch).2.2
    exact ⟨_, hp, hid, settled_of_holds hy hn (Or.inl hw), htid⟩
  · refine Async.Safe.bind (Q := fun _ t => HasRole r.load.id tenantId t) (fun _ t₂ h => ?_)
      (secure_perform fun t₂ ht _ c a t₃ ha => ?_)
    · exact h
    · obtain ⟨p₂, hp₂, -⟩ := ht.roles _ hp
      refine ⟨updateRole_evolves (r := { r with permissions := p₂ }) hy hn hp₂ hch ha, fun x hx => ?_⟩
      subst hx
      obtain ⟨u, ch, hu, hch', hroles, -, -⟩ := updateRole_rows (writing_ok ha).2
      obtain rfl : r.id = u := Option.some.inj (hid.symm.trans hu)
      obtain ⟨w, rfl, hw⟩ := changes_load (r := { r with permissions := p }) hch' fun he => hch (he ▸ hch')
      refine ⟨{ r with permissions := w }, ?_, hid, settled_of_holds hy hn (Or.inl hw), htid⟩
      rw [hroles]
      exact List.mem_map.2 ⟨_, hp₂, if_pos rfl⟩

/-- **`ensureRole` leaves a settled role of the tenant.** -/
theorem ensureRole_secure {tenantId : JsString} {y : JsString × List JsString} (hy : y ∈ seedRoles) :
    Secure bcrypt strict job (fun role t => HasRole role.id tenantId t)
      (Seed.ensureRole tenantId y.1 y.2) t := by
  have found : Secure bcrypt strict job
      (fun x t => ∀ role, x = some role → ∃ r ∈ t.roles, role = r.load ∧
        Uuid.ofText tenantId = some r.tenantId ∧ Text.ofJs y.1 = some r.name)
      (perform (.findRole tenantId y.1)) t := by
    refine secure_read (fun _ _ => rfl) fun t₁ _ _ _ x hx role he => ?_
    subst he
    exact Tables.findRole_some hx
  refine Async.Safe.bind (fun x t₁ hx => ?_) found
  cases x with
  | none =>
    refine Async.Safe.bind (Q := fun id t => HasRole id tenantId t) (fun id t₂ h => ?_)
      (secure_perform fun t₂ _ _ c a t₃ ha => ⟨insertRole_evolves ha, ?_⟩)
    · exact h
    · rintro id rfl
      obtain ⟨r, hr, hid, htid, hn, hp⟩ := insertRole_ok ha
      exact ⟨r, hr ▸ List.mem_cons_self, hid, settled_of_holds hy hn (Or.inl hp), htid⟩
  | some role =>
    obtain ⟨r, hr, rfl, htid, hn⟩ := hx role rfl
    dsimp only
    split_ifs with hs
    · exact ⟨r, hr, Uuid.ofText_toText _,
        settled_of_holds hy hn (Or.inr (Seed.perm_of_sameSorted hs)), htid⟩
    · exact save_secure hy hn htid hr

theorem roleId_of_falsy {u : UserRow} (h : falsy u.load.roleId = true) : u.roleId = none := by
  cases hu : u.roleId with
  | none => rfl
  | some id =>
    simp only [falsy, UserRow.load, hu, Option.map_some, Option.all_some, List.isEmpty_iff] at h
    exact absurd h (Uuid.toText_ne_nil id)

/-- A user the script finds and may give a role is of the tenant the script names. -/
theorem tenant_of_fits {env : Env} {username : JsString} {u : UserRow}
    (h : (Job.seed env).fits (.findUser username) t = true) (hu : u ∈ t.users)
    (hn : Text.ofJs username = some u.username) (hr : u.roleId = none) :
    ∃ x ∈ t.tenants, x.id = u.tenantId ∧ Text.ofJs (Seed.tenantName env) = some x.name := by
  have h := List.all_eq_true.1 h u hu
  simp only [hn, hr, bne_self_eq_false, Option.isSome_none, Bool.or_self, Bool.false_or,
    List.any_eq_true, Bool.and_eq_true, beq_iff_eq] at h
  exact h

/-- **`ensureUser` with a settled role of the tenant.** -/
theorem ensureUser_secure {env : Env} {tenantId username password roleId : JsString}
    (hten : HasTenant (Seed.tenantName env) tenantId t) (hrole : HasRole roleId tenantId t) :
    Secure bcrypt strict (.seed env) (fun _ _ => True)
      (Seed.ensureUser tenantId username password roleId) t := by
  have found : Secure bcrypt strict (.seed env)
      (fun x t₁ => Evolves strict t t₁ ∧ ∀ user, x = some user → ∃ u ∈ t₁.users, user = u.load ∧
        (strict = true → u.roleId = none → ∃ x ∈ t₁.tenants, x.id = u.tenantId ∧
          Text.ofJs (Seed.tenantName env) = some x.name))
      (perform (.findUser username)) t := by
    refine secure_read (fun _ _ => rfl) fun t₁ ht hf _ x hx => ⟨ht, fun user he => ?_⟩
    subst he
    obtain ⟨u, hu, hl, hn⟩ := Tables.findUser_some hx
    exact ⟨u, hu, hl, fun hst hr => tenant_of_fits (hf hst) hu hn hr⟩
  refine Async.Safe.bind (fun x t₁ hx => ?_) found
  obtain ⟨ht₁, hx⟩ := hx
  cases x with
  | none =>
    refine Async.Safe.bind (Q := fun _ t => HasRole roleId tenantId t) (fun passwordHash t₂ hrole₂ => ?_)
      (secure_read (fun _ _ => rfl) fun t₂ ht₂ _ _ _ _ => (hrole.evolves ht₁).evolves ht₂)
    refine Async.Safe.bind (Q := fun _ _ => True) (fun id t₃ _ => ?_)
      (secure_perform fun t₃ ht₃ _ c a t₄ ha => ⟨insertUser_evolves ha ?_, fun _ _ => trivial⟩)
    · trivial
    · intro id hid
      obtain rfl : roleId = id := Option.some.inj hid
      exact hrole₂.evolves ht₃
  | some user =>
    obtain ⟨u, hu, rfl, hfit⟩ := hx user rfl
    dsimp only
    split_ifs with hf
    · refine secure_perform fun t₂ ht₂ _ c a t₃ ha => ⟨?_, fun _ _ => trivial⟩
      obtain ⟨r, hr, hrid, hs, hrt⟩ := (hrole.evolves ht₁).evolves ht₂
      refine assignRole_evolves ha hr hrid hs fun hst u' hu' hid' => ?_
      obtain ⟨id, hid⟩ := ht₂.users u hu
      have huid : u.id = u'.id := Uuid.eq_of_ofText_toText hid'
      have hu'u : u' = { u with roleId := id } :=
        Tables.user_eq hu' hid huid.symm
      -- the tenant of the name is one, so the user's is the role's
      obtain ⟨x, hxm, hxid, hxn⟩ := hfit hst (roleId_of_falsy hf)
      obtain ⟨x', hxm', hxn', hxid'⟩ := hten.evolves ht₁
      obtain rfl : x = x' := Tables.tenant_eq_of_named hxm hxm' hxn hxn'
      rw [hu'u, ← hxid]
      exact Option.some.inj (hrt.symm.trans hxid')
    · trivial

theorem admin_mem : (js "admin", Seed.REQUESTER_PERMISSIONS) ∈ seedRoles := List.mem_cons_self

theorem approver_mem : (js "approver", Seed.APPROVER_PERMISSIONS) ∈ seedRoles :=
  List.mem_cons_of_mem _ List.mem_cons_self

theorem seed_secure (env : Env) :
    Secure bcrypt strict (.seed env) (fun _ _ => True) (Seed.seed env) t := by
  have checked : ∀ {a b : Option JsString} {m : JsString} {t : Tables},
      Secure bcrypt strict (.seed env) (fun _ _ => True) (Seed.required a b m) t := by
    intro a b m t
    unfold Seed.required
    split
    · split_ifs <;> trivial
    · trivial
  refine Async.Safe.bind (fun admin t _ => ?_) checked
  refine Async.Safe.bind (fun approver t _ => ?_) checked
  refine Async.Safe.bind (fun tenant t₁ hten => ?_) (ensureTenant_secure _)
  refine Async.Safe.bind (fun adminRole t₂ h₂ => ?_)
    (secure_frame (fun h ht => h.evolves ht) (ensureRole_secure admin_mem) hten)
  refine Async.Safe.bind (fun approverRole t₃ h₃ => ?_)
    (secure_frame (F := fun t => HasRole adminRole.id tenant.id t ∧ HasTenant (Seed.tenantName env) tenant.id t)
      (fun h ht => ⟨h.1.evolves ht, h.2.evolves ht⟩) (ensureRole_secure approver_mem) h₂)
  refine Async.Safe.bind (fun _ t₄ h₄ => ?_)
    (secure_frame
      (F := fun t => HasRole approverRole.id tenant.id t ∧ HasTenant (Seed.tenantName env) tenant.id t)
      (fun h ht => ⟨h.1.evolves ht, h.2.evolves ht⟩) (ensureUser_secure h₃.2.2 h₃.2.1) ⟨h₃.1, h₃.2.2⟩)
  exact ensureUser_secure h₄.2.2 h₄.2.1

/-! ## Jobs -/

/-- What a result says of the tables: a token is that of a user. -/
def Result.Sound : Result → Tables → Prop
  | .token tok, t => Issued tok t
  | _, _ => True

theorem Result.Sound.evolves {r : Result} {t' : Tables} (h : r.Sound t) (ht : Evolves strict t t') :
    r.Sound t' := by
  cases r with
  | token tok => exact Issued.evolves h ht
  | user | role | seeded | allowed => trivial

/-- **Every job evolves the tables.** -/
theorem job_secure (job : Job) : Secure bcrypt strict job Result.Sound job.code t := by
  cases job with
  | createUser tenantId username password =>
    refine Async.Safe.bind (fun x t _ => ?_) (create_user_secure tenantId username password)
    trivial
  | createRole tenantId name ps =>
    refine Async.Safe.bind (fun x t _ => ?_) (create_role_secure tenantId name ps)
    trivial
  | seed env =>
    refine Async.Safe.bind (fun x t _ => ?_) (seed_secure env)
    trivial
  | login username password =>
    refine Async.Safe.bind (fun tok t h => ?_) (login_secure username password)
    exact h
  | request tok handler cls =>
    refine Async.Safe.bind (fun x t _ => ?_) (guarded_secure tok handler cls)
    trivial

end

/-! ## Runs -/

variable {bcrypt : Bcrypt} {strict : Bool}

/-- Each call is secure from here on. -/
def AllSecure (bcrypt : Bcrypt) (strict : Bool) (s : State) : Prop :=
  ∀ call ∈ s.calls, Secure bcrypt strict call.job Result.Sound call.prog s.tables

/-- The operation done fits its job. -/
def fits (s : State) : Action → Bool
  | .step i _ => s.calls[i]?.all fun call =>
    match call.prog with
    | .await o _ => call.job.fits o s.tables
    | _ => true
  | _ => true

/-- **The step lemma.** -/
theorem step_secure {s s' : State} {a : Action} (h : AllSecure bcrypt strict s)
    (hf : strict = true → fits s a = true) (ha : step bcrypt s a = some s') :
    AllSecure bcrypt strict s' ∧ Evolves strict s.tables s'.tables := by
  cases step_cases ha with
  | @start job hadm =>
    refine ⟨fun call hc => ?_, .refl _⟩
    rcases List.mem_append.1 hc with hc | hc
    · exact h call hc
    · rw [List.mem_singleton.1 hc]
      exact job_secure job
  | @step i c call o k a t hi hp hc ho =>
    have hsafe := h call (List.mem_of_getElem? hi)
    rw [hp] at hsafe
    have hfit : fitting bcrypt strict call.job o c s.tables = some (a, t) := by
      have hf' : strict = true → call.job.fits o s.tables = true := fun hst => by
        simpa [fits, hi, hp] using hf hst
      rw [fitting, if_pos hf', ho]
    obtain ⟨hev, hrest⟩ := hsafe.step (.refl _) hfit
    refine ⟨fun call' hc' => ?_, hev⟩
    rcases List.mem_or_eq_of_mem_set hc' with hc' | rfl
    · exact (h call' hc').rely (fun _ _ _ => .trans) (fun _ _ _ hq => hq.evolves) hev
    · exact hrest
  | tick => exact ⟨h, .refl _⟩

/-- **The run lemma**: along runs whose operations fit, where that counts. -/
theorem run_secure {s : State} {as : List Action} {id : Uuid} (h : run bcrypt (init id) as = some s)
    (hc : strict = true → Along (step bcrypt) (fun s a => fits s a = true) (init id) as) :
    AllSecure bcrypt strict s ∧ Evolves strict (migrated id) s.tables := by
  have hc' : Along (step bcrypt) (fun s a => strict = true → fits s a = true) (init id) as := by
    cases strict with
    | false => exact along_iff.2 fun _ _ _ _ _ _ => nofun
    | true => exact along_iff.2 fun as₁ a as₂ s₁ he h1 _ => along_iff.1 (hc rfl) as₁ a as₂ s₁ he h1
  refine exec_inv_along (I := fun s => AllSecure bcrypt strict s ∧ Evolves strict (migrated id) s.tables)
    (fun s a s' hi hca ha => ?_) ⟨fun _ hc => absurd hc List.not_mem_nil, .refl _⟩ hc' h
  obtain ⟨hg, hev⟩ := step_secure hi.1 hca ha
  exact ⟨hg, hi.2.trans hev⟩

end SystemDesign.Accounts
