/-
  The two accounts of the seed script.

  The roles `admin` and `approver` exist so that nobody both creates and approves.  A seed run that
  returns has made sure of a user for each name, but it does not look at what an existing user has:
  the two accounts are as wanted iff they were `Prepared` for that (`duties_iff`).
-/
import SystemDesign.Accounts.Guard
import SystemDesign.Accounts.SeedRun

namespace SystemDesign.Accounts

open Lib

/-! ## What a login token allows -/

/-- The token that login signs for the user. -/
def UserRow.token (u : UserRow) (iat : ℕ) : Token := ⟨u.load.id, u.load.username, u.load.tenantId, iat⟩

/-- The user of a request with this token. -/
def UserRow.requestUser (u : UserRow) (iat : ℕ) : RequestUser :=
  ⟨some (.str (u.token iat).sub), some (.str (u.token iat).username), some (.str (u.token iat).tenantId)⟩

/-- With a login token of the user, the guard lets pass what needs one of these permissions, and
    nothing else that needs a permission. -/
def AllowsExactly (bcrypt : Bcrypt) (t : Tables) (u : UserRow) (ps : List JsString) : Prop :=
  ∀ cs iat handler cls p, getAllAndOverride handler cls = some p → p ≠ [] →
    (outcome bcrypt cs t (guarded (u.token iat) handler cls) = .ok true ↔ p ∈ ps)

/-- The role has these permissions, as it is loaded. -/
def RoleRow.Grants (r : RoleRow) (ps : List JsString) : Prop := ∀ p ≠ [], p ∈ r.load.permissions ↔ p ∈ ps

section
variable {bcrypt : Bcrypt} {cs : ℕ → Choice} {t : Tables} {u : UserRow}

/-- **The token of a login is that of the user of the name.** -/
theorem login_token {username password : JsString} (hu : u ∈ t.users)
    (hn : Text.ofJs username = some u.username) (hp : bcrypt.compare password u.load.passwordHash = true) :
    outcome bcrypt cs t (login username password) = .ok (u.token (cs 2).now) := by
  have hfind := Tables.findUser_of_mem hu hn
  rw [login, UsersService.findByUsername, outcome_perform (x := some u.load) (by rw [AOp.answer, hfind]; rfl)]
  simp only [UsersService.validatePassword]
  rw [outcome_perform (x := true) (by rw [AOp.answer, hp]; rfl)]
  rfl

theorem entitled_token (iat : ℕ) {p : JsString} (hu : u ∈ t.users) :
    Entitled t (some (u.requestUser iat)) p ↔
      ∃ r ∈ t.roles, u.roleId = some r.id ∧ r.tenantId = u.tenantId ∧ p ∈ r.load.permissions := by
  have hid : ∀ x : Uuid, uuidOf (some (.str x.toText)) = some x := Uuid.ofText_toText
  rw [entitled_some]
  constructor
  · rintro ⟨u', hu', he, r, hr, hrole, hten, hp⟩
    obtain rfl : u = u' := Tables.user_eq hu hu'
      (Option.some.inj ((hid u.id).symm.trans he))
    refine ⟨r, hr, hrole, ?_, hp⟩
    simp only [UserRow.requestUser, UserRow.token, UserRow.load, RoleRow.load, Option.some.injEq,
      Json.str.injEq] at hten
    exact (Uuid.toText_injective hten).symm
  · rintro ⟨r, hr, hrole, hten, hp⟩
    refine ⟨u, hu, hid u.id, r, hr, hrole, ?_, hp⟩
    simp [UserRow.requestUser, UserRow.token, UserRow.load, RoleRow.load, hten]

/-- The guard looks at the role of the user, as it is now. -/
theorem guarded_token {iat : ℕ} {handler cls : Option JsString} {p : JsString} (hu : u ∈ t.users)
    (hp : getAllAndOverride handler cls = some p) (hne : p ≠ []) :
    outcome bcrypt cs t (guarded (u.token iat) handler cls) = .ok true ↔
      ∃ r ∈ t.roles, u.roleId = some r.id ∧ r.tenantId = u.tenantId ∧ p ∈ r.load.permissions := by
  have hten : (u.token iat).tenantId ≠ [] := Uuid.toText_ne_nil u.tenantId
  have hcode : guarded (u.token iat) handler cls = guardCode p (some (u.requestUser iat)) := by
    rw [guarded, validate_payload hten]
    exact canActivate_eq hp hne _
  rw [hcode, ← entitled_token iat hu]
  have hdec : Decided _ (outcome bcrypt cs t _) ∨ _ := guardCode_decided p (some (u.requestUser iat))
  rcases hdec with ⟨hpass, hforbid⟩ | ⟨-, ⟨r, hr, -, hno⟩, -⟩
  · constructor
    · intro h
      by_contra hn
      obtain ⟨m, hm⟩ := hforbid hn
      rw [hm] at h
      cases h
    · exact hpass
  · obtain rfl := Option.some.inj hr
    have hid : uuidOf (some (.str u.id.toText)) = some u.id := Uuid.ofText_toText u.id
    exact absurd (hid.symm.trans hno) (by simp)

/-- The user has one role. -/
theorem permitted_iff {r : RoleRow} (hr : r ∈ t.roles) (hrole : u.roleId = some r.id)
    (hten : r.tenantId = u.tenantId) {p : JsString} :
    (∃ s ∈ t.roles, u.roleId = some s.id ∧ s.tenantId = u.tenantId ∧ p ∈ s.load.permissions) ↔
      p ∈ r.load.permissions := by
  constructor
  · rintro ⟨s, hs, hrole', -, hm⟩
    obtain rfl : r = s := Tables.role_eq hr hs (Option.some.inj (hrole.symm.trans hrole'))
    exact hm
  · intro hm
    exact ⟨r, hr, hrole, hten, hm⟩

/-- **Exactly these permissions**: the user has a role of its tenant that has them. -/
theorem allowsExactly_iff {ps : List JsString} (hu : u ∈ t.users) (hps : ∃ p ∈ ps, p ≠ []) :
    AllowsExactly bcrypt t u ps ↔
      ∃ r ∈ t.roles, u.roleId = some r.id ∧ r.tenantId = u.tenantId ∧ r.Grants ps := by
  constructor
  · intro h
    have key : ∀ p ≠ [], (∃ r ∈ t.roles, u.roleId = some r.id ∧ r.tenantId = u.tenantId ∧
        p ∈ r.load.permissions) ↔ p ∈ ps := by
      intro p hp
      have hg : outcome bcrypt (fun _ => sampleChoice 0) t (guarded (u.token 0) (some p) none) = .ok true ↔ _ :=
        guarded_token hu rfl hp
      rw [← hg]
      exact h _ _ _ _ p rfl hp
    obtain ⟨p, hp, hne⟩ := hps
    obtain ⟨r, hr, hrole, hten, -⟩ := (key p hne).2 hp
    refine ⟨r, hr, hrole, hten, fun q hq => ?_⟩
    rw [← key q hq, permitted_iff hr hrole hten]
  · rintro ⟨r, hr, hrole, hten, hg⟩ cs iat handler cls p hp hne
    rw [guarded_token hu hp hne, ← hg p hne, permitted_iff hr hrole hten]

end

/-! ## What the stages leave -/

/-- Each role is still there; only those of the script's names have other permissions. -/
def RolesKept (t t' : Tables) : Prop :=
  ∀ r ∈ t.roles, ∃ r' ∈ t'.roles, r'.id = r.id ∧ r'.tenantId = r.tenantId ∧ r'.name = r.name ∧
    (r' = r ∨ ∃ y ∈ seedRoles, Text.ofJs y.1 = some r.name)

/-- The user of the name after its stage: as it was, given the role, or made. -/
inductive Became (t : Tables) (x : TenantRow) (r : RoleRow) (username : JsString) : UserRow → Prop
  | kept {u} (hu : u ∈ t.users) (hn : Text.ofJs username = some u.username) (hr : u.roleId ≠ none) :
    Became t x r username u
  | assigned {u} (hu : u ∈ t.users) (hn : Text.ofJs username = some u.username) (hr : u.roleId = none) :
    Became t x r username { u with roleId := some r.id }
  | created {id n p} (hno : ∀ u ∈ t.users, Text.ofJs username ≠ some u.username) :
    Became t x r username ⟨id, n, p, x.id, some r.id⟩

section
variable {bcrypt : Bcrypt} {t t' t'' : Tables} {name username password : JsString}
  {y : JsString × List JsString} {x : TenantRow} {r : RoleRow}

/-- It matters only which users of the name there were. -/
theorem Became.congr {u : UserRow} (h : Became t x r username u)
    (hiff : ∀ v, Text.ofJs username = some v.username → (v ∈ t.users ↔ v ∈ t'.users)) :
    Became t' x r username u := by
  cases h with
  | kept hu hn hr => exact .kept ((hiff _ hn).1 hu) hn hr
  | assigned hu hn hr => exact .assigned ((hiff _ hn).1 hu) hn hr
  | created hno => exact .created fun v hv hn => hno v ((hiff v hn).2 hv) hn

theorem RolesKept.of_eq (h : t'.roles = t.roles) : RolesKept t t' := by
  intro r hr
  exact ⟨r, by rw [h]; exact hr, rfl, rfl, rfl, Or.inl rfl⟩

theorem RolesKept.trans (h : RolesKept t t') (h' : RolesKept t' t'') : RolesKept t t'' := by
  intro r hr
  obtain ⟨r₁, hr₁, hid, hten, hname, hc⟩ := h r hr
  obtain ⟨r₂, hr₂, hid', hten', hname', hc'⟩ := h' r₁ hr₁
  refine ⟨r₂, hr₂, hid'.trans hid, hten'.trans hten, hname'.trans hname, ?_⟩
  rcases hc' with rfl | ⟨z, hz, hzn⟩
  · exact hc
  · exact Or.inr ⟨z, hz, by rw [hzn, hname]⟩

theorem TenantStage.rows (h : TenantStage t name t') : t'.users = t.users ∧ t'.roles = t.roles := by
  cases h with
  | found => exact ⟨rfl, rfl⟩
  | insert _ h =>
    obtain ⟨_, -, -, hu, hr⟩ := insertTenant_rows h
    exact ⟨hu, hr⟩

theorem RoleStage.rows (hy : y ∈ seedRoles) (h : RoleStage t name y t') :
    t'.users = t.users ∧ t'.tenants = t.tenants ∧ RolesKept t t' := by
  cases h with
  | found => exact ⟨rfl, rfl, .of_eq rfl⟩
  | @update x r _ hr hn h =>
    obtain ⟨p, -, hro, ht, hu⟩ :=
      updateRole_load (p := r.permissions) (fun he => hn (fits_of_changes hy he)) h
    refine ⟨hu, ht, fun z hz => ?_⟩
    by_cases he : z.id = r.id
    · obtain rfl : z = r := Tables.role_eq hz hr.mem he
      refine ⟨{ z with permissions := p }, ?_, rfl, rfl, rfl, Or.inr ⟨y, hy, hr.called⟩⟩
      rw [hro]
      exact List.mem_map.2 ⟨z, hz, if_pos rfl⟩
    · refine ⟨z, ?_, rfl, rfl, rfl, Or.inl rfl⟩
      rw [hro]
      exact List.mem_map.2 ⟨z, hz, if_neg he⟩
  | insert _ _ _ h =>
    obtain ⟨_, _, _, -, -, -, hro, ht, hu⟩ := insertRole_rows h
    refine ⟨hu, ht, fun z hz => ⟨z, ?_, rfl, rfl, rfl, Or.inl rfl⟩⟩
    rw [hro]
    exact List.mem_cons_of_mem _ hz

/-- A user's stage makes sure of the user, and of nobody else. -/
theorem UserStage.rows (hr : IsRole t name y x r) (h : UserStage t bcrypt name y username password t') :
    t'.tenants = t.tenants ∧ t'.roles = t.roles ∧
      (∀ u, Text.ofJs username ≠ some u.username → (u ∈ t'.users ↔ u ∈ t.users)) ∧
      ∃ u ∈ t'.users, Text.ofJs username = some u.username ∧ Became t x r username u := by
  cases h with
  | found h =>
    obtain ⟨u, hu, hun, hne⟩ := h
    exact ⟨rfl, rfl, fun _ _ => Iff.rfl, u, hu, hun, .kept hu hun hne⟩
  | @assign u x' r' _ hu hun hn hr' h =>
    obtain ⟨rfl, rfl⟩ := hr.eq hr'
    obtain ⟨hus, ht, hro⟩ := assignRole_toText h
    refine ⟨ht, hro, fun v hv => ?_, { u with roleId := some r.id }, ?_, hun, .assigned hu hun hn⟩
    · rw [hus, List.mem_map]
      constructor
      · rintro ⟨z, hz, rfl⟩
        by_cases he : z.id = u.id
        · obtain rfl : z = u := Tables.user_eq hz hu he
          simp [hun] at hv
        · simpa [he] using hz
      · intro hm
        refine ⟨v, hm, if_neg fun he => ?_⟩
        obtain rfl : v = u := Tables.user_eq hm hu he
        exact hv hun
    · rw [hus]
      exact List.mem_map.2 ⟨u, hu, if_pos rfl⟩
  | @insert x' r' id salt _ hno hr' h =>
    obtain ⟨rfl, rfl⟩ := hr.eq hr'
    obtain ⟨n, p, hn, -, hus, ht, hro⟩ := insertUser_toText h
    refine ⟨ht, hro, fun v hv => ?_, ⟨id, n, p, x.id, some r.id⟩, ?_, hn, .created hno⟩
    · rw [hus, List.mem_cons]
      constructor
      · rintro (rfl | hm)
        · exact absurd hn hv
        · exact hm
      · intro hm
        exact Or.inr hm
    · rw [hus]
      exact List.mem_cons_self

end

/-! ## The two accounts -/

/-- The account of a name: a user of the wanted tenant, with exactly these permissions. -/
structure Account (bcrypt : Bcrypt) (t : Tables) (tenant username : JsString) (ps : List JsString)
    (u : UserRow) : Prop where
  mem : u ∈ t.users
  named : Text.ofJs username = some u.username
  tenant : ∃ x ∈ t.tenants, x.id = u.tenantId ∧ Text.ofJs tenant = some x.name
  allows : AllowsExactly bcrypt t u ps

/-- Some request with a login token of the user passes where the handler needs the permission. -/
def Passes (bcrypt : Bcrypt) (t : Tables) (u : UserRow) (p : JsString) : Prop :=
  ∃ cs iat, outcome bcrypt cs t (guarded (u.token iat) (some p) none) = .ok true

/-- Two users, one that may request and one that may approve; neither may both create and approve. -/
def Duties (bcrypt : Bcrypt) (w : Wanted) (t : Tables) : Prop :=
  ∃ u v, u ≠ v ∧ Account bcrypt t w.tenant w.adminUsername Seed.REQUESTER_PERMISSIONS u ∧
    Account bcrypt t w.tenant w.approverUsername Seed.APPROVER_PERMISSIONS v ∧
    ∀ a ∈ [u, v], ¬ (Passes bcrypt t a (js "po.create") ∧ Passes bcrypt t a (js "po.approve"))

/-- What is there of a user lets the script make it the account of `y`: it is a user of the tenant, and
    has no role, or the role `y` of the tenant, or one of another name that has the permissions. -/
def Suits (t : Tables) (tenant : JsString) (y : JsString × List JsString) (u : UserRow) : Prop :=
  (∃ x ∈ t.tenants, x.id = u.tenantId ∧ Text.ofJs tenant = some x.name) ∧
    ∀ r ∈ t.roles, u.roleId = some r.id → r.tenantId = u.tenantId ∧
      (Text.ofJs y.1 = some r.name ∨
        (∀ z ∈ seedRoles, Text.ofJs z.1 ≠ some r.name) ∧ r.Grants y.2)

/-- The names differ, and what is there of their users suits. -/
structure Prepared (w : Wanted) (t : Tables) : Prop where
  distinct : Text.ofJs w.adminUsername ≠ Text.ofJs w.approverUsername
  admin : ∀ u ∈ t.users, Text.ofJs w.adminUsername = some u.username → Suits t w.tenant adminRole u
  approver : ∀ u ∈ t.users, Text.ofJs w.approverUsername = some u.username → Suits t w.tenant approverRole u

section
variable {bcrypt : Bcrypt} {w : Wanted} {t t' : Tables} {username : JsString}
  {y z : JsString × List JsString} {x : TenantRow} {r : RoleRow} {u : UserRow}

theorem Fits.grants (h : Fits y r) : r.Grants y.2 := fun _ _ => (Seed.perm_of_sameSorted h).mem_iff

/-- The roles of the script have different permissions. -/
theorem grants_ne (hy : y ∈ seedRoles) (hz : z ∈ seedRoles) (h : r.Grants y.2) (h' : r.Grants z.2) :
    y = z := by
  have hdiff : ∀ y ∈ seedRoles, ∀ z ∈ seedRoles, (∀ p ∈ z.2, p ≠ [] ∧ p ∈ y.2) → y = z := by decide
  have hne : ∀ z ∈ seedRoles, ∀ p ∈ z.2, p ≠ [] := by decide
  refine hdiff y hy z hz fun p hp => ⟨hne z hz p hp, ?_⟩
  exact (h p (hne z hz p hp)).1 ((h' p (hne z hz p hp)).2 hp)

/-- The tenant of a user that was there is found by its name in the end iff it was in the beginning. -/
theorem tenant_iff (hu : u ∈ t.users) (ht : ∀ x ∈ t.tenants, x ∈ t'.tenants) :
    (∃ x ∈ t'.tenants, x.id = u.tenantId ∧ Text.ofJs w.tenant = some x.name) ↔
      ∃ x ∈ t.tenants, x.id = u.tenantId ∧ Text.ofJs w.tenant = some x.name := by
  constructor
  · rintro ⟨x, hx, hid, hn⟩
    obtain ⟨x', hx', hid'⟩ := List.mem_map.1 (t.valid.userTenants u hu)
    obtain rfl : x' = x := List.inj_on_of_nodup_map t'.valid.tenantIds (ht x' hx') hx (hid'.trans hid.symm)
    exact ⟨x', hx', hid, hn⟩
  · rintro ⟨x, hx, h⟩
    exact ⟨x, ht x hx, h⟩

/-- A role that was there has the permissions of `y` in the end iff it is named so or had them. -/
theorem grants_iff (hy : y ∈ seedRoles) (hdone : ∀ z ∈ seedRoles, ∃ r, IsRole t' w.tenant z x r ∧ Fits z r)
    {r' : RoleRow} (hr' : r' ∈ t'.roles) (hten : r'.tenantId = x.id) (hname : r'.name = r.name)
    (hc : r' = r ∨ ∃ z ∈ seedRoles, Text.ofJs z.1 = some r.name) :
    r'.Grants y.2 ↔ Text.ofJs y.1 = some r.name ∨
      (∀ z ∈ seedRoles, Text.ofJs z.1 ≠ some r.name) ∧ r.Grants y.2 := by
  have mended : ∀ z ∈ seedRoles, Text.ofJs z.1 = some r.name → r'.Grants z.2 := by
    intro z hz hn
    obtain ⟨rz, hrz, hf⟩ := hdone z hz
    have hr : IsRole t' w.tenant z x r' := ⟨hrz.tenant, hrz.named, hr', hten, by rw [hn, hname]⟩
    obtain ⟨-, rfl⟩ := hr.eq hrz
    exact hf.grants
  by_cases hn : ∃ z ∈ seedRoles, Text.ofJs z.1 = some r.name
  · obtain ⟨z, hz, hzn⟩ := hn
    constructor
    · intro hg
      obtain rfl := grants_ne hy hz hg (mended z hz hzn)
      exact Or.inl hzn
    · rintro (hyn | ⟨hno, -⟩)
      · exact mended y hy hyn
      · exact absurd hzn (hno z hz)
  · obtain rfl := hc.resolve_right hn
    constructor
    · intro hg
      exact Or.inr ⟨fun z hz hzn => hn ⟨z, hz, hzn⟩, hg⟩
    · rintro (hyn | ⟨-, hg⟩)
      · exact absurd ⟨y, hy, hyn⟩ hn
      · exact hg

/-- A user is the account iff it is of the tenant and its role has the permissions. -/
theorem account_iff_grants {tenant : JsString} {ps : List JsString} (hps : ∃ p ∈ ps, p ≠ []) (hu : u ∈ t.users)
    (hn : Text.ofJs username = some u.username) :
    Account bcrypt t tenant username ps u ↔
      (∃ x ∈ t.tenants, x.id = u.tenantId ∧ Text.ofJs tenant = some x.name) ∧
        ∃ r ∈ t.roles, u.roleId = some r.id ∧ r.tenantId = u.tenantId ∧ r.Grants ps := by
  have hallows : AllowsExactly bcrypt t u ps ↔ _ := allowsExactly_iff hu hps
  rw [← hallows]
  exact ⟨fun h => ⟨h.tenant, h.allows⟩, fun h => ⟨hu, hn, h.1, h.2⟩⟩

/-- **The user of a name is the wanted account iff what was there suits.** -/
theorem account_iff (hy : y ∈ seedRoles) (ht : ∀ x ∈ t.tenants, x ∈ t'.tenants) (hk : RolesKept t t')
    (hdone : ∀ z ∈ seedRoles, ∃ r, IsRole t' w.tenant z x r ∧ Fits z r) (hr : IsRole t' w.tenant y x r)
    (hf : Fits y r) (hu : u ∈ t'.users) (hn : Text.ofJs username = some u.username)
    (hb : Became t x r username u) :
    Account bcrypt t' w.tenant username y.2 u ↔
      ∀ v ∈ t.users, Text.ofJs username = some v.username → Suits t w.tenant y v := by
  have hps : ∃ p ∈ y.2, p ≠ [] := by
    have hall : ∀ z ∈ seedRoles, ∃ p ∈ z.2, p ≠ [] := by decide
    exact hall y hy
  have owner : ∀ {a : Uuid}, (∃ x' ∈ t'.tenants, x'.id = a ∧ Text.ofJs w.tenant = some x'.name) → x.id = a := by
    rintro a ⟨x', hx', rfl, hn'⟩
    rw [Tables.tenant_eq_of_named hr.tenant hx' hr.named hn']
  rw [account_iff_grants hps hu hn]
  cases hb with
  | created hno =>
    refine ⟨fun _ v hv hvn => absurd hvn (hno v hv), fun _ => ⟨⟨x, hr.tenant, rfl, hr.named⟩, ?_⟩⟩
    exact ⟨r, hr.mem, rfl, hr.owner, hf.grants⟩
  | @assigned v hv hvn hnone =>
    constructor
    · rintro ⟨hten, -⟩ v' hv' hvn'
      obtain rfl := Tables.user_eq_of_named hv hv' hvn hvn'
      refine ⟨(tenant_iff hv ht).1 hten, fun r' _ he => ?_⟩
      rw [hnone] at he
      cases he
    · intro h
      have hten := (tenant_iff hv ht).2 (h v hv hvn).1
      exact ⟨hten, r, hr.mem, rfl, hr.owner.trans (owner hten), hf.grants⟩
  | kept hv hvn hsome =>
    obtain ⟨id, hid⟩ := Option.ne_none_iff_exists'.1 hsome
    obtain ⟨r₀, hr₀, rfl⟩ := List.mem_map.1 (t.valid.userRoles u hv id hid)
    obtain ⟨r', hr', hid', hten', hname', hc⟩ := hk r₀ hr₀
    constructor
    · rintro ⟨hten, r'', hr'', he, howner, hg⟩ v' hv' hvn'
      obtain rfl := Tables.user_eq_of_named hv hv' hvn hvn'
      obtain rfl : r' = r'' := Tables.role_eq hr' hr''
        (hid'.trans (Option.some.inj (hid.symm.trans he)))
      refine ⟨(tenant_iff hv ht).1 hten, fun r₁ hr₁ he₁ => ?_⟩
      obtain rfl : r₀ = r₁ := Tables.role_eq hr₀ hr₁
        (Option.some.inj (hid.symm.trans he₁))
      refine ⟨hten'.symm.trans howner, ?_⟩
      exact (grants_iff hy hdone hr' (howner.trans (owner hten).symm) hname' hc).1 hg
    · intro h
      obtain ⟨hten, hrole⟩ := h u hv hvn
      obtain ⟨howner, hg⟩ := hrole r₀ hr₀ hid
      have hten := (tenant_iff hv ht).2 hten
      have howner' : r'.tenantId = u.tenantId := hten'.trans howner
      refine ⟨hten, r', hr', by rw [hid, hid'], howner', ?_⟩
      exact (grants_iff hy hdone hr' (howner'.trans (owner hten).symm) hname' hc).2 hg

/-- A permission of a request that passes is one of those. -/
theorem AllowsExactly.mem {ps : List JsString} {p : JsString} (h : AllowsExactly bcrypt t u ps)
    (hne : p ≠ []) (hp : Passes bcrypt t u p) : p ∈ ps := by
  obtain ⟨cs, iat, hp⟩ := hp
  exact (h cs iat (some p) none p rfl hne).1 hp

/-- Two accounts of different names separate the duties. -/
theorem duties_of_accounts {v : UserRow} (hne : Text.ofJs w.adminUsername ≠ Text.ofJs w.approverUsername)
    (hu : Account bcrypt t w.tenant w.adminUsername Seed.REQUESTER_PERMISSIONS u)
    (hv : Account bcrypt t w.tenant w.approverUsername Seed.APPROVER_PERMISSIONS v) : Duties bcrypt w t := by
  refine ⟨u, v, ?_, hu, hv, ?_⟩
  · rintro rfl
    exact hne (hu.named.trans hv.named.symm)
  · intro a ha
    rintro ⟨hcreate, happrove⟩
    simp only [List.mem_cons, List.not_mem_nil, or_false] at ha
    rcases ha with rfl | rfl
    · exact absurd (hu.allows.mem (by decide) happrove) (by decide)
    · exact absurd (hv.allows.mem (by decide) hcreate) (by decide)

/-- With one name there is one user. -/
theorem not_duties_of_same (h : Text.ofJs w.adminUsername = Text.ofJs w.approverUsername) :
    ¬ Duties bcrypt w t := by
  rintro ⟨u, v, hne, hu, hv, -⟩
  exact hne (Tables.user_eq_of_named hu.mem hv.mem hu.named (h ▸ hv.named))

/-- **The stages one after the other leave the two accounts iff the tables were prepared.** -/
theorem duties_of_chain (h : (seedStages bcrypt w).Chain 5 t t') : Duties bcrypt w t' ↔ Prepared w t := by
  obtain ⟨t₄, ⟨t₃, h', h3⟩, h4⟩ := h
  have hpast₃ : (seedStages bcrypt w).Past 3 t₃ := Stages.Chain.past h'
  obtain ⟨t₂, ⟨t₁, ⟨t₀, ht₀, h0⟩, h1⟩, h2⟩ := h'
  rw [show t₀ = t from ht₀] at h0
  have keeps : ∀ {j t t'}, (seedStages bcrypt w).stage j t t' → Preserves t t' := stage_preserves
  have ht : ∀ x ∈ t.tenants, x ∈ t'.tenants :=
    ((((keeps h0).trans (keeps h1)).trans (keeps h2)).trans ((keeps h3).trans (keeps h4))).tenants
  obtain ⟨hu₁, hr₁⟩ := TenantStage.rows h0
  obtain ⟨hu₂, -, hk₂⟩ := RoleStage.rows adminRole_mem h1
  obtain ⟨hu₃, -, hk₃⟩ := RoleStage.rows approverRole_mem h2
  obtain ⟨x, ra, hra, hfa⟩ : RoleDone t₃ w.tenant adminRole := hpast₃ 1 (by omega)
  obtain ⟨x', rp, hrp, hfp⟩ : RoleDone t₃ w.tenant approverRole := hpast₃ 2 (by omega)
  obtain rfl : x = x' := Tables.tenant_eq_of_named hra.tenant hrp.tenant hra.named hrp.named
  have hrp₄ := hrp.preserved approverRole_mem hfp (keeps h3)
  obtain ⟨-, hro₄, hothers₄, ua, hua, hna, hba⟩ := UserStage.rows hra h3
  obtain ⟨-, hro₅, hothers₅, up, hup, hnp, hbp⟩ := UserStage.rows hrp₄ h4
  have hk : RolesKept t t' :=
    ((RolesKept.of_eq hr₁).trans hk₂).trans (hk₃.trans ((RolesKept.of_eq hro₄).trans (.of_eq hro₅)))
  have hra' := hra.preserved adminRole_mem hfa ((keeps h3).trans (keeps h4))
  have hrp' := hrp₄.preserved approverRole_mem hfp (keeps h4)
  have hdone : ∀ z ∈ seedRoles, ∃ r, IsRole t' w.tenant z x r ∧ Fits z r := by
    intro z hz
    rcases List.mem_cons.1 hz with rfl | hz
    · exact ⟨ra, hra', hfa⟩
    · obtain rfl := List.mem_singleton.1 hz
      exact ⟨rp, hrp', hfp⟩
  have hu₃' : t₃.users = t.users := hu₃.trans (hu₂.trans hu₁)
  by_cases hne : Text.ofJs w.adminUsername = Text.ofJs w.approverUsername
  · exact ⟨fun hd => absurd hd (not_duties_of_same hne), fun hp => absurd hne hp.distinct⟩
  · -- the users of the second name are those that were there in the beginning
    have hothers : ∀ u, Text.ofJs w.approverUsername = some u.username → (u ∈ t₄.users ↔ u ∈ t.users) := by
      intro u hu
      rw [hothers₄ u fun he => hne (he.trans hu.symm), hu₃']
    have hba' : Became t x ra w.adminUsername ua := hba.congr fun u _ => by rw [hu₃']
    have hbp' : Became t x rp w.approverUsername up := hbp.congr hothers
    have hua' : ua ∈ t'.users := (hothers₅ ua fun he => hne (hna.trans he.symm)).2 hua
    have hadmin : Account bcrypt t' w.tenant w.adminUsername Seed.REQUESTER_PERMISSIONS ua ↔ _ :=
      account_iff adminRole_mem ht hk hdone hra' hfa hua' hna hba'
    have happrover : Account bcrypt t' w.tenant w.approverUsername Seed.APPROVER_PERMISSIONS up ↔ _ :=
      account_iff approverRole_mem ht hk hdone hrp' hfp hup hnp hbp'
    constructor
    · rintro ⟨u, v, -, hu, hv, -⟩
      obtain rfl := Tables.user_eq_of_named hu.mem hua' hu.named hna
      obtain rfl := Tables.user_eq_of_named hv.mem hup hv.named hnp
      exact ⟨hne, hadmin.1 hu, happrover.1 hv⟩
    · intro hp
      exact duties_of_accounts hne (hadmin.2 hp.admin) (happrover.2 hp.approver)

end

/-- **A seed run that returns leaves the two accounts iff the tables were prepared for them.** -/
theorem duties_iff (bcrypt : Bcrypt) (hb : bcrypt.Storable) (env : Env) (he : env.Accepted)
    {t t' : Tables} {cs : List Choice}
    (h : Async.run (AOp.step bcrypt) (Seed.seed env) cs t = some (.ok (), t')) :
    Duties bcrypt env.wanted t' ↔ Prepared env.wanted t := by
  obtain ⟨hl, hp⟩ := (seed_ensures he hb t).leads.run .refl (fun _ _ _ => .trans) h
  refine duties_of_chain (hl.chain hp fun j t hj => ?_)
  obtain ⟨k, rfl⟩ : ∃ k, j = k + 5 := ⟨j - 5, by omega⟩
  trivial

/-- A seed run on the migrated database. -/
theorem duties_iff_migrated :
    ∃ cs t', Async.run (AOp.step sampleBcrypt) (Seed.seed (sampleEnv none)) cs (migrated (Uuid.ofNat 1)) =
      some (.ok (), t') ∧ Duties sampleBcrypt (sampleEnv none).wanted t' := by
  have hrun : (Async.run (AOp.step sampleBcrypt) (Seed.seed (sampleEnv none))
      ((List.range 11).map fun n => sampleChoice (n + 2)) (migrated (Uuid.ofNat 1))).map (·.1.toOption) =
        some (some ()) := by decide +kernel
  obtain ⟨⟨x, t'⟩, h, hx⟩ := Option.map_eq_some_iff.1 hrun
  obtain rfl : x = .ok () := by
    cases x with
    | error e => cases hx
    | ok x => rfl
  refine ⟨_, t', h, (duties_iff sampleBcrypt sampleBcrypt_storable (sampleEnv none) sampleEnv_accepted h).2 ?_⟩
  exact ⟨by decide, fun u hu => absurd hu List.not_mem_nil, fun u hu => absurd hu List.not_mem_nil⟩

/-- One name for both accounts. -/
def sameEnv : Env := ⟨some (js "alice"), some (js "pw1"), some (js "alice"), some (js "pw1"), none⟩

/-- The run returns, and there is no second account. -/
theorem not_duties :
    ∃ cs t', Async.run (AOp.step sampleBcrypt) (Seed.seed sameEnv) cs (migrated (Uuid.ofNat 1)) =
      some (.ok (), t') ∧ ¬ Duties sampleBcrypt sameEnv.wanted t' := by
  have hrun : (Async.run (AOp.step sampleBcrypt) (Seed.seed sameEnv)
      ((List.range 9).map fun n => sampleChoice (n + 2)) (migrated (Uuid.ofNat 1))).map (·.1.toOption) =
        some (some ()) := by decide +kernel
  obtain ⟨⟨x, t'⟩, h, hx⟩ := Option.map_eq_some_iff.1 hrun
  obtain rfl : x = .ok () := by
    cases x with
    | error e => cases hx
    | ok x => rfl
  exact ⟨_, t', h, not_duties_of_same rfl⟩

end SystemDesign.Accounts
