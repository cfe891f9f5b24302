/-
  One run of the seed script.

  Whatever other runs do to the tables, a run does the stages of `seedStages` in order, or fails;
  alone it does not fail (`seed_ensures`).  The stages one after the other are what one undisturbed
  run does (`seed_runs`).
-/
import SystemDesign.Accounts.Ensure
import SystemDesign.Accounts.System

namespace SystemDesign.Accounts

open Lib

/-! ## The environment -/

namespace Env

variable (env : Env)

/-- The variables that must be set. -/
def mandatory : List (Option JsString) :=
  [env.ADMIN_USERNAME, env.ADMIN_PASSWORD, env.APPROVER_USERNAME, env.APPROVER_PASSWORD]

/-- The script accepts the environment.  No variable of a process contains U+0000. -/
structure Accepted : Prop where
  given : ∀ v ∈ env.mandatory, falsy v = false
  noNul : ∀ v ∈ env.ADMIN_TENANT_NAME :: env.mandatory, ∀ s ∈ v, 0 ∉ s

def wanted : Wanted :=
  ⟨Seed.tenantName env, env.ADMIN_USERNAME.getD [], env.ADMIN_PASSWORD.getD [],
    env.APPROVER_USERNAME.getD [], env.APPROVER_PASSWORD.getD []⟩

end Env

theorem getD_some {v : Option JsString} (h : falsy v = false) : v = some (v.getD []) ∧ v.getD [] ≠ [] := by
  cases v with
  | none => cases h
  | some s => exact ⟨rfl, by simpa [falsy] using h⟩

theorem seed_eq {env : Env} (h : env.Accepted) :
    Seed.seed env = Seed.seedAccounts env.wanted.tenant env.wanted.adminUsername env.wanted.adminPassword
      env.wanted.approverUsername env.wanted.approverPassword := by
  obtain ⟨h1, hn1⟩ := getD_some (h.given env.ADMIN_USERNAME (by simp [Env.mandatory]))
  obtain ⟨h2, hn2⟩ := getD_some (h.given env.ADMIN_PASSWORD (by simp [Env.mandatory]))
  obtain ⟨h3, hn3⟩ := getD_some (h.given env.APPROVER_USERNAME (by simp [Env.mandatory]))
  obtain ⟨h4, hn4⟩ := getD_some (h.given env.APPROVER_PASSWORD (by simp [Env.mandatory]))
  have hreq : ∀ {a b : Option JsString} {m : JsString}, a = some (a.getD []) → b = some (b.getD []) →
      a.getD [] ≠ [] → b.getD [] ≠ [] → Seed.required a b m = .ret (a.getD [], b.getD []) := by
    intro a b m ha hb hna hnb
    rw [ha, hb]
    simp [Seed.required, hna, hnb]
  rw [Seed.seed, hreq h1 h2 hn1 hn2, hreq h3 h4 hn3 hn4]
  rfl

theorem text_of_tenant {env : Env} (h : env.Accepted) : ∃ n, Text.ofJs env.wanted.tenant = some n := by
  refine Text.ofJs_some ?_
  cases hv : env.ADMIN_TENANT_NAME with
  | none => simp only [Env.wanted, Seed.tenantName, hv]; decide
  | some s =>
    simp only [Env.wanted, Seed.tenantName, hv, Option.getD_some]
    exact h.noNul _ List.mem_cons_self s hv

theorem text_of_mandatory {env : Env} (h : env.Accepted) {v : Option JsString} (hv : v ∈ env.mandatory) :
    ∃ n, Text.ofJs (v.getD []) = some n :=
  Text.ofJs_some (h.noNul v (List.mem_cons_of_mem _ hv) _ (getD_some (h.given v hv)).1)

/-! ## One run among others -/

section
variable {bcrypt : Bcrypt} {w : Wanted} {t t' : Tables}

/-- The hashes are texts. -/
def Bcrypt.Storable (bcrypt : Bcrypt) : Prop :=
  ∀ password rounds salt, (Text.ofJs (bcrypt.hash password rounds salt)).isSome = true

abbrev SeedEnsures (bcrypt : Bcrypt) (w : Wanted) {ρ : Type} (Q : ρ → Tables → Prop) (p : Service ρ)
    (t : Tables) : Prop :=
  Async.Ensures (AOp.step bcrypt) Good (seedStages bcrypt w).Later Q p t

theorem seed_frame {ρ : Type} {Q : ρ → Tables → Prop} {F : Tables → Prop} {p : Service ρ}
    (hF : ∀ {t t'}, F t → Preserves t t' → F t') (h : SeedEnsures bcrypt w Q p t) (hf : F t) :
    SeedEnsures bcrypt w (fun r t => Q r t ∧ F t) p t :=
  h.frame (fun _ _ hf ht => hF hf (preserves_of_later ht)) (fun _ => .refl _) hf

/-- **A seed run does all stages, or fails.** -/
theorem seed_ensures {env : Env} (he : env.Accepted) (hb : bcrypt.Storable) (t : Tables) :
    SeedEnsures bcrypt env.wanted (fun _ => (seedStages bcrypt env.wanted).Past 5) (Seed.seed env) t := by
  obtain ⟨n, hn⟩ := text_of_tenant he
  obtain ⟨n₁, hn₁⟩ := text_of_mandatory he (v := env.ADMIN_USERNAME) (by simp [Env.mandatory])
  obtain ⟨n₂, hn₂⟩ := text_of_mandatory he (v := env.APPROVER_USERNAME) (by simp [Env.mandatory])
  rw [seed_eq he]
  refine Async.Ensures.bind (fun tenant t₁ h₁ => ?_) ⟨ensureTenant_leads, ensureTenant_alone hn⟩
  refine Async.Ensures.bind (fun admin t₂ h₂ => ?_)
    (seed_frame (fun h ht => h.preserved ht) ⟨ensureRole_leads adminRole_at h₁.1 h₁.2,
      ensureRole_alone adminRole_at h₁.1 h₁.2⟩ h₁.2)
  obtain ⟨⟨hp₂, ha⟩, hten₂⟩ := h₂
  refine Async.Ensures.bind (fun approver t₃ h₃ => ?_)
    (seed_frame (F := fun t => TenantId env.wanted.tenant tenant.id t ∧
        RoleId env.wanted.tenant adminRole admin.id t)
      (fun h ht => ⟨h.1.preserved ht, h.2.preserved adminRole_mem ht⟩)
      ⟨ensureRole_leads approverRole_at hp₂ hten₂, ensureRole_alone approverRole_at hp₂ hten₂⟩ ⟨hten₂, ha⟩)
  obtain ⟨⟨hp₃, hap⟩, hten₃, ha₃⟩ := h₃
  refine Async.Ensures.bind (fun _ t₄ h₄ => ?_)
    (seed_frame (F := fun t => TenantId env.wanted.tenant tenant.id t ∧
        RoleId env.wanted.tenant approverRole approver.id t)
      (fun h ht => ⟨h.1.preserved ht, h.2.preserved approverRole_mem ht⟩)
      ⟨ensureUser_leads adminUser_at hp₃ hten₃ ha₃,
        ensureUser_alone adminUser_at hn₁ (hb _ _) hp₃ hten₃ ha₃⟩ ⟨hten₃, hap⟩)
  exact ⟨ensureUser_leads approverUser_at h₄.1 h₄.2.1 h₄.2.2,
    ensureUser_alone approverUser_at hn₂ (hb _ _) h₄.1 h₄.2.1 h₄.2.2⟩

end

/-! ## One run alone -/

/-- The program, run alone with some choices, returns. -/
def Runs (bcrypt : Bcrypt) {ρ : Type} (p : Service ρ) (t : Tables) (r : ρ) (t' : Tables) : Prop :=
  ∃ cs, Async.run (AOp.step bcrypt) p cs t = some (.ok r, t')

section
variable {bcrypt : Bcrypt} {w : Wanted} {t t' t'' : Tables} {ρ ρ' : Type}

theorem Runs.ret (r : ρ) : Runs bcrypt (.ret r) t r t := ⟨[], rfl⟩

theorem Runs.bind {p : Service ρ} {f : ρ → Service ρ'} {r : ρ} {r' : ρ'} (h : Runs bcrypt p t r t')
    (h' : Runs bcrypt (f r) t' r' t'') : Runs bcrypt (p >>= f) t r' t'' := by
  obtain ⟨cs, h⟩ := h
  obtain ⟨cs', h'⟩ := h'
  exact Async.run_bind (AOp.step bcrypt) h h'

/-- A choice with which nothing fails. -/
def okChoice (id : Uuid) (salt : List UInt8) : Choice := ⟨.ok, id, salt, 0⟩

theorem runs_read (salt : List UInt8) {o : AOp} {v : Choice → Tables → Option o.Ans} {x : o.Ans}
    (ho : ∀ c t, o.answer bcrypt c t = (reading c (v c t), t))
    (hx : v (okChoice (Uuid.ofNat 0) salt) t = some x) : Runs bcrypt (perform o) t x t := by
  refine ⟨[okChoice (Uuid.ofNat 0) salt], ?_⟩
  simp only [perform, Async.call, Async.run, AOp.step, ho, hx]
  rfl

theorem runs_write (id : Uuid) {o : AOp} {x : Choice → o.Ans} {f : Choice → Tables → Option Tables}
    (ho : ∀ c t, o.answer bcrypt c t = writing c (x c) t (f c t))
    (hf : f (okChoice id []) t = some t') : Runs bcrypt (perform o) t (x (okChoice id [])) t' := by
  refine ⟨[okChoice id []], ?_⟩
  simp only [perform, Async.call, Async.run, AOp.step, ho, hf]
  rfl

/-- **The tenant's stage is what its part does.** -/
theorem TenantStage.runs (bcrypt : Bcrypt) {w : Wanted} (h : TenantStage t w.tenant t') :
    ∃ x, Runs bcrypt (Seed.ensureTenant w.tenant) t x t' ∧ TenantId w.tenant x.id t' := by
  cases h with
  | found h =>
    obtain ⟨r, hr, hn⟩ := h
    have hf := Tables.findTenant_of_mem hr hn
    have hread : Runs bcrypt (perform (.findTenant w.tenant)) t (some r.load) t :=
      runs_read [] (fun _ _ => rfl) hf
    have hE : TenantEnsured bcrypt w r.load t := tenantEnsured_of_found hf
    exact ⟨r.load, hread.bind (Runs.ret r.load), hE.2⟩
  | insert hno h =>
    obtain ⟨n, hn, -⟩ := insertTenant_rows h
    have hf : t.findTenant w.tenant = some none :=
      (Tables.findTenant_none hn).2 fun x hx he => hno ⟨x, hx, he ▸ hn⟩
    have hread : Runs bcrypt (perform (.findTenant w.tenant)) t none t :=
      runs_read [] (fun _ _ => rfl) hf
    have hwrite : Runs bcrypt (perform (.insertTenant w.tenant)) t _ t' := runs_write _ (fun _ _ => rfl) h
    have hE : TenantEnsured bcrypt w ⟨_, w.tenant⟩ t' := (tenantEnsured_of_insert h).2
    exact ⟨_, hread.bind (hwrite.bind (Runs.ret _)), hE.2⟩

/-- What `ensureRole` reads of a role there is. -/
theorem findRole_of_isRole {y : JsString × List JsString} {x : TenantRow} {r : RoleRow}
    (h : IsRole t w.tenant y x r) : t.findRole x.id.toText y.1 = some (some r.load) :=
  Tables.findRole_of_mem h.mem (h.owner ▸ Uuid.ofText_toText _) h.called

/-- **A role's stage is what its part does.** -/
theorem RoleStage.runs (bcrypt : Bcrypt) {y : JsString × List JsString} (hy : y ∈ seedRoles)
    {tenantId : JsString} (hten : TenantId w.tenant tenantId t) (h : RoleStage t w.tenant y t') :
    ∃ role, Runs bcrypt (Seed.ensureRole tenantId y.1 y.2) t role t' ∧ RoleId w.tenant y role.id t' := by
  obtain ⟨x, hx, hxn, rfl⟩ := hten
  have tenant_eq : ∀ {x' : TenantRow}, x' ∈ t.tenants → Text.ofJs w.tenant = some x'.name → x' = x :=
    fun hx' hxn' => Tables.tenant_eq_of_named hx' hx hxn' hxn
  have hread : ∀ {role : Option Role}, t.findRole x.id.toText y.1 = some role →
      Runs bcrypt (perform (.findRole x.id.toText y.1)) t role t := fun hf =>
    runs_read [] (fun _ _ => rfl) hf
  cases h with
  | found h =>
    obtain ⟨x', r, hr, hf⟩ := h
    obtain rfl := tenant_eq hr.tenant hr.named
    refine ⟨r.load, (hread (findRole_of_isRole hr)).bind ?_, x', r, hr, hf, rfl⟩
    dsimp only
    rw [if_pos (show Seed.sameSorted r.load.permissions y.2 = true from hf)]
    exact .ret _
  | @update x' r _ hr hn h =>
    obtain rfl := tenant_eq hr.tenant hr.named
    obtain ⟨p, hjoin, hro, ht, -⟩ :=
      updateRole_load (p := r.permissions) (fun he => hn (fits_of_changes hy he)) h
    have hid : Uuid.ofText r.load.id = some r.id := Uuid.ofText_toText _
    have hselect : Runs bcrypt (perform (.selectRole r.load.id)) t (some r.load) t :=
      runs_read [] (fun _ _ => rfl) (Tables.findRoleById_of_mem hr.mem hid)
    have hwrite : Runs bcrypt (perform (.updateRole r.load { r.load with permissions := y.2 })) t () t' :=
      runs_write (o := .updateRole r.load { r.load with permissions := y.2 }) r.id (x := fun _ => ())
        (fun _ _ => rfl) h
    refine ⟨{ r.load with permissions := y.2 }, (hread (findRole_of_isRole hr)).bind ?_, x',
      { r with permissions := p }, ⟨ht ▸ hr.tenant, hr.named, ?_, hr.owner, hr.called⟩,
      fits_of_join hy hjoin, rfl⟩
    · dsimp only
      rw [if_neg (show ¬ Seed.sameSorted r.load.permissions y.2 = true from hn)]
      refine hselect.bind ?_
      dsimp only
      rw [if_neg fun he => hn (fits_of_changes hy he)]
      exact hwrite.bind (.ret _)
    · rw [hro]
      exact List.mem_map.2 ⟨r, hr.mem, if_pos rfl⟩
  | @insert x' id _ hx' hxn' hno h =>
    obtain rfl := tenant_eq hx' hxn'
    obtain ⟨u, n, p, hu, hn, hw, hro, ht, -⟩ := insertRole_rows h
    obtain rfl : x'.id = u := Uuid.eq_of_ofText_toText hu
    have hf : t.findRole x'.id.toText y.1 = some none :=
      (Tables.findRole_none (Uuid.ofText_toText x'.id) hn).2 fun r hr hten he =>
        hno r ⟨hx', hxn', hr, hten, he ▸ hn⟩
    have hwrite : Runs bcrypt (perform (.insertRole none x'.id.toText y.1 y.2)) t _ t' :=
      runs_write id (fun _ _ => rfl) h
    refine ⟨_, (hread hf).bind (hwrite.bind (.ret _)), x', ⟨id, x'.id, n, p⟩,
      ⟨ht ▸ hx', hxn', hro ▸ List.mem_cons_self, rfl, hn⟩, fits_of_join hy hw, rfl⟩

theorem falsy_roleId {u : UserRow} : falsy u.load.roleId = true ↔ u.roleId = none :=
  ⟨roleId_of_falsy, fun h => by simp [falsy, UserRow.load, h]⟩

/-- **A user's stage is what its part does.** -/
theorem UserStage.runs {y : JsString × List JsString} {username password tenantId roleId : JsString}
    (hten : TenantId w.tenant tenantId t) (hrole : RoleId w.tenant y roleId t)
    (h : UserStage t bcrypt w.tenant y username password t') :
    Runs bcrypt (Seed.ensureUser tenantId username password roleId) t () t' := by
  obtain ⟨x, r, hr, hf, rfl, rfl⟩ := isRole_of_ids hten hrole
  have hread : ∀ {user : Option User}, t.findUser username = some user →
      Runs bcrypt (perform (.findUser username)) t user t := fun hf =>
    runs_read [] (fun _ _ => rfl) hf
  cases h with
  | found h =>
    obtain ⟨u, hu, hun, hne⟩ := h
    refine (hread (Tables.findUser_of_mem hu hun)).bind ?_
    dsimp only
    rw [if_neg fun h => hne (falsy_roleId.1 h)]
    exact .ret _
  | @assign u _ _ _ hu hun hn hr' h =>
    obtain ⟨rfl, rfl⟩ := hr.eq hr'
    refine (hread (Tables.findUser_of_mem hu hun)).bind ?_
    dsimp only
    rw [if_pos (falsy_roleId.2 hn)]
    exact runs_write (o := .assignRole u.id.toText r.id.toText) r.id (x := fun _ => ()) (fun _ _ => rfl) h
  | @insert _ _ id salt _ hno hr' h =>
    obtain ⟨rfl, rfl⟩ := hr.eq hr'
    obtain ⟨n, p, hn, -⟩ := insertUser_toText h
    have hf : t.findUser username = some none :=
      (Tables.findUser_none hn).2 fun u hu he => hno u hu (he ▸ hn)
    have hhash : Runs bcrypt (perform (.hash password Seed.SALT_ROUNDS)) t
        (bcrypt.hash password Seed.SALT_ROUNDS salt) t := runs_read salt (fun _ _ => rfl) rfl
    have hwrite : Runs bcrypt (perform (.insertUser username (bcrypt.hash password Seed.SALT_ROUNDS salt)
        x.id.toText (some r.id.toText))) t _ t' := runs_write id (fun _ _ => rfl) h
    exact (hread hf).bind (hhash.bind (hwrite.bind (.ret _)))

/-- **The stages one after the other are one undisturbed run.** -/
theorem seed_runs {env : Env} (he : env.Accepted)
    (h : (seedStages bcrypt env.wanted).Chain 5 t t') : Runs bcrypt (Seed.seed env) t () t' := by
  obtain ⟨t₄, ⟨t₃, ⟨t₂, ⟨t₁, ⟨_, rfl, h0⟩, h1⟩, h2⟩, h3⟩, h4⟩ := h
  have keeps : ∀ {j t t'}, (seedStages bcrypt env.wanted).stage j t t' → Preserves t t' := stage_preserves
  obtain ⟨tenant, hr0, hten₁⟩ := TenantStage.runs bcrypt h0
  obtain ⟨admin, hr1, ha₂⟩ := RoleStage.runs bcrypt adminRole_mem hten₁ h1
  have hten₂ := hten₁.preserved (keeps h1)
  obtain ⟨approver, hr2, hap₃⟩ := RoleStage.runs bcrypt approverRole_mem hten₂ h2
  have hten₃ := hten₂.preserved (keeps h2)
  have hr3 := UserStage.runs hten₃ (ha₂.preserved adminRole_mem (keeps h2)) h3
  have hr4 := UserStage.runs (hten₃.preserved (keeps h3)) (hap₃.preserved approverRole_mem (keeps h3)) h4
  rw [seed_eq he]
  exact hr0.bind (hr1.bind (hr2.bind (hr3.bind hr4)))

end

/-! ## Sample values -/

theorem sampleBcrypt_storable : sampleBcrypt.Storable := by
  intro password rounds salt
  have hall : ∀ x ∈ sampleHashes, (Text.ofJs x.2.2).isSome = true := by decide
  simp only [sampleBcrypt]
  cases hf : sampleHashes.find? fun x => x.1 == password && x.2.1 == salt && rounds == 10 with
  | none => decide
  | some x => exact hall x (List.mem_of_find?_eq_some hf)

theorem sampleEnv_accepted : (sampleEnv none).Accepted := ⟨by decide, by decide⟩

end SystemDesign.Accounts
