/-
  The stages of the seed script.

  The script makes sure of a tenant, of two roles and of two users, in this order: `seedStages`.
  Each stage finds what it wants, or mends it, or makes it; then it is done and stays so, since no
  stage touches what is done (`Preserves`).
-/
import SystemDesign.Accounts.Evolution
import SystemDesign.Lib.Stages

namespace SystemDesign.Accounts

open Lib

/-- What the script makes sure of. -/
structure Wanted where
  tenant : JsString
  adminUsername : JsString
  adminPassword : JsString
  approverUsername : JsString
  approverPassword : JsString

def adminRole : JsString × List JsString := (js "admin", Seed.REQUESTER_PERMISSIONS)

def approverRole : JsString × List JsString := (js "approver", Seed.APPROVER_PERMISSIONS)

theorem adminRole_mem : adminRole ∈ seedRoles := List.mem_cons_self

theorem approverRole_mem : approverRole ∈ seedRoles := List.mem_cons_of_mem _ List.mem_cons_self

/-! ## What the statements of the script do -/

section
variable {t t' : Tables}

/-- The new permissions are written to the row of the id. -/
theorem updateRole_load {r : RoleRow} {p : Text} {ps : List JsString}
    (hch : { r with permissions := p }.load.changes { r.load with permissions := ps } ≠
      some ⟨none, none, none⟩)
    (h : t.updateRole { r with permissions := p }.load { r.load with permissions := ps } = some t') :
    ∃ w, Text.ofJs (joinBy comma ps) = some w ∧
      t'.roles = t.roles.map (fun x => if x.id = r.id then { x with permissions := w } else x) ∧
      t'.tenants = t.tenants ∧ t'.users = t.users := by
  obtain ⟨u, ch, hu, hch', hroles, hten, huse⟩ := updateRole_rows h
  obtain rfl : r.id = u := Uuid.eq_of_ofText_toText hu
  obtain ⟨w, rfl, hjoin⟩ := changes_load hch' fun he => hch (he ▸ hch')
  exact ⟨w, hjoin, hroles, hten, huse⟩

theorem assignRole_toText {id roleId : Uuid} (h : t.assignRole id.toText roleId.toText = some t') :
    t'.users = t.users.map (fun x => if x.id = id then { x with roleId := some roleId } else x) ∧
      t'.tenants = t.tenants ∧ t'.roles = t.roles := by
  obtain ⟨u, r, hu, hr, hrows⟩ := assignRole_rows h
  obtain rfl : id = u := Uuid.eq_of_ofText_toText hu
  obtain rfl : roleId = r := Uuid.eq_of_ofText_toText hr
  exact hrows

theorem insertUser_toText {id tenantId roleId : Uuid} {username passwordHash : JsString}
    (h : t.insertUser id username passwordHash tenantId.toText (some roleId.toText) = some t') :
    ∃ n p, Text.ofJs username = some n ∧ Text.ofJs passwordHash = some p ∧
      t'.users = ⟨id, n, p, tenantId, some roleId⟩ :: t.users ∧ t'.tenants = t.tenants ∧
      t'.roles = t.roles := by
  obtain ⟨n, p, u, r, hn, hp, hu, hr, hrows⟩ := insertUser_rows h
  obtain rfl : tenantId = u := Uuid.eq_of_ofText_toText hu
  obtain rfl : some roleId = r := by
    rw [uuidOrNull, Uuid.ofText_toText] at hr
    exact Option.some.inj hr
  exact ⟨n, p, hn, hp, hrows⟩

end

/-! ## The stages -/

section
variable (t : Tables)

/-- There is the tenant. -/
def TenantDone (name : JsString) : Prop := ∃ x ∈ t.tenants, Text.ofJs name = some x.name

/-- The role `y` of the tenant, whatever its permissions. -/
structure IsRole (name : JsString) (y : JsString × List JsString) (x : TenantRow) (r : RoleRow) : Prop where
  tenant : x ∈ t.tenants
  named : Text.ofJs name = some x.name
  mem : r ∈ t.roles
  owner : r.tenantId = x.id
  called : Text.ofJs y.1 = some r.name

/-- The script leaves the permissions of the row as they are. -/
def Fits (y : JsString × List JsString) (r : RoleRow) : Prop :=
  Seed.sameSorted r.load.permissions y.2 = true

def RoleDone (name : JsString) (y : JsString × List JsString) : Prop :=
  ∃ x r, IsRole t name y x r ∧ Fits y r

/-- There is the user, and it has some role. -/
def UserDone (username : JsString) : Prop :=
  ∃ u ∈ t.users, Text.ofJs username = some u.username ∧ u.roleId ≠ none

inductive TenantStage (name : JsString) : Tables → Prop
  | found (h : TenantDone t name) : TenantStage name t
  | insert {id t'} (hn : ¬ TenantDone t name) (h : t.insertTenant id name = some t') : TenantStage name t'

inductive RoleStage (name : JsString) (y : JsString × List JsString) : Tables → Prop
  | found (h : RoleDone t name y) : RoleStage name y t
  | update {x r t'} (hr : IsRole t name y x r) (hn : ¬ Fits y r)
    (h : t.updateRole r.load { r.load with permissions := y.2 } = some t') : RoleStage name y t'
  | insert {x id t'} (hx : x ∈ t.tenants) (hxn : Text.ofJs name = some x.name)
    (hn : ∀ r, ¬ IsRole t name y x r) (h : t.insertRole id x.id.toText y.1 y.2 = some t') :
    RoleStage name y t'

inductive UserStage (bcrypt : Bcrypt) (name : JsString) (y : JsString × List JsString)
    (username password : JsString) : Tables → Prop
  | found (h : UserDone t username) : UserStage bcrypt name y username password t
  | assign {u x r t'} (hu : u ∈ t.users) (hun : Text.ofJs username = some u.username)
    (hn : u.roleId = none) (hr : IsRole t name y x r)
    (h : t.assignRole u.id.toText r.id.toText = some t') : UserStage bcrypt name y username password t'
  | insert {x r id salt t'} (hn : ∀ u ∈ t.users, Text.ofJs username ≠ some u.username)
    (hr : IsRole t name y x r)
    (h : t.insertUser id username (bcrypt.hash password Seed.SALT_ROUNDS salt) x.id.toText
      (some r.id.toText) = some t') : UserStage bcrypt name y username password t'

end

def stage (bcrypt : Bcrypt) (w : Wanted) : ℕ → Tables → Tables → Prop
  | 0, t => TenantStage t w.tenant
  | 1, t => RoleStage t w.tenant adminRole
  | 2, t => RoleStage t w.tenant approverRole
  | 3, t => UserStage t bcrypt w.tenant adminRole w.adminUsername w.adminPassword
  | 4, t => UserStage t bcrypt w.tenant approverRole w.approverUsername w.approverPassword
  | _, t => fun t' => t' = t

def done (w : Wanted) : ℕ → Tables → Prop
  | 0, t => TenantDone t w.tenant
  | 1, t => RoleDone t w.tenant adminRole
  | 2, t => RoleDone t w.tenant approverRole
  | 3, t => UserDone t w.adminUsername
  | 4, t => UserDone t w.approverUsername
  | _, _ => True

/-! ## What stays -/

/-- Tenants, users that have a role, and roles with the script's permissions stay as they are. -/
structure Preserves (t t' : Tables) : Prop where
  tenants : ∀ x ∈ t.tenants, x ∈ t'.tenants
  users : ∀ u ∈ t.users, u.roleId ≠ none → u ∈ t'.users
  roles : ∀ r ∈ t.roles, (∀ y ∈ seedRoles, Text.ofJs y.1 = some r.name → Fits y r) → r ∈ t'.roles

section
variable {t t' t'' : Tables}

theorem Preserves.refl (t : Tables) : Preserves t t :=
  ⟨fun _ hx => hx, fun _ hu _ => hu, fun _ hr _ => hr⟩

theorem Preserves.trans (h : Preserves t t') (h' : Preserves t' t'') : Preserves t t'' where
  tenants x hx := h'.tenants x (h.tenants x hx)
  users u hu hn := h'.users u (h.users u hu hn) hn
  roles r hr hf := h'.roles r (h.roles r hr hf) hf

/-- A role of the script has one set of permissions to fit. -/
theorem Fits.all {y : JsString × List JsString} {r : RoleRow} (hy : y ∈ seedRoles)
    (hn : Text.ofJs y.1 = some r.name) (hf : Fits y r) :
    ∀ z ∈ seedRoles, Text.ofJs z.1 = some r.name → Fits z r := by
  intro z hz hzn
  have he : Text.ofJs y.1 = Text.ofJs z.1 := hn.trans hzn.symm
  obtain rfl : y = z := List.inj_on_of_nodup_map seedRoles_names hy hz he
  exact hf

/-- A row with the script's permissions fits. -/
theorem fits_of_join {y : JsString × List JsString} (hy : y ∈ seedRoles) {r : RoleRow}
    (h : Text.ofJs (joinBy comma y.2) = some r.permissions) : Fits y r := by
  rw [Fits, RoleRow.load, (storable_seedRoles y hy).load h]
  simp [Seed.sameSorted]

theorem IsRole.eq {name : JsString} {y : JsString × List JsString} {x x' : TenantRow} {r r' : RoleRow}
    (h : IsRole t name y x r) (h' : IsRole t name y x' r') : x = x' ∧ r = r' := by
  obtain rfl : x = x' := Tables.tenant_eq_of_named h.tenant h'.tenant h.named h'.named
  have hkey : (r.tenantId, r.name) = (r'.tenantId, r'.name) := by
    rw [h.owner, h'.owner, Option.some.inj (h.called.symm.trans h'.called)]
  exact ⟨rfl, List.inj_on_of_nodup_map t.valid.roleNames h.mem h'.mem hkey⟩

/-- A role that fits stays. -/
theorem IsRole.preserved {name : JsString} {y : JsString × List JsString} (hy : y ∈ seedRoles)
    {x : TenantRow} {r : RoleRow} (h : IsRole t name y x r) (hf : Fits y r) (hp : Preserves t t') :
    IsRole t' name y x r :=
  ⟨hp.tenants x h.tenant, h.named, hp.roles r h.mem (hf.all hy h.called), h.owner, h.called⟩

/-! ### Tenants -/

theorem TenantStage.preserves {name : JsString} (h : TenantStage t name t') : Preserves t t' := by
  cases h with
  | found => exact .refl t
  | insert _ h =>
    obtain ⟨n, -, ht, hu, hr⟩ := insertTenant_rows h
    refine ⟨fun x hx => ?_, fun u hmem _ => ?_, fun r hmem _ => ?_⟩
    · rw [ht]
      exact List.mem_cons_of_mem _ hx
    · rwa [hu]
    · rwa [hr]

theorem TenantStage.done {name : JsString} (h : TenantStage t name t') : TenantDone t' name := by
  cases h with
  | found h => exact h
  | insert _ h =>
    obtain ⟨n, hn, ht, -, -⟩ := insertTenant_rows h
    exact ⟨_, ht ▸ List.mem_cons_self, hn⟩

theorem TenantStage.idle {name : JsString} (h : TenantDone t name) :
    TenantStage t name t' ↔ t' = t := by
  constructor
  · intro hs
    cases hs with
    | found => rfl
    | insert hn => exact absurd h hn
  · rintro rfl
    exact .found h

/-! ### Roles -/

variable {name : JsString} {y : JsString × List JsString}

/-- A role of the script in which no column differs from what the script saves. -/
theorem fits_of_changes (hy : y ∈ seedRoles) {r : RoleRow} {p : Text}
    (h : { r with permissions := p }.load.changes { r.load with permissions := y.2 } =
      some ⟨none, none, none⟩) : Fits y { r with permissions := p } :=
  fits_of_join hy (changes_permissions (r := { r with permissions := p }) h).2.2

theorem RoleStage.preserves (hy : y ∈ seedRoles) (h : RoleStage t name y t') : Preserves t t' := by
  cases h with
  | found => exact .refl t
  | @update x r _ hr hn h =>
    obtain ⟨w, -, hro, ht, hu⟩ := updateRole_load (p := r.permissions) (fun he => hn (fits_of_changes hy he)) h
    refine ⟨fun x hx => ?_, fun u hmem _ => ?_, fun r' hmem hf => ?_⟩
    · rwa [ht]
    · rwa [hu]
    · rw [hro]
      refine List.mem_map.2 ⟨r', hmem, if_neg fun he => ?_⟩
      obtain rfl : r' = r := Tables.role_eq hmem hr.mem he
      exact hn (hf y hy hr.called)
  | insert _ _ _ h =>
    obtain ⟨_, _, _, -, -, -, hr, ht, hu⟩ := insertRole_rows h
    refine ⟨fun x hx => ?_, fun u hmem _ => ?_, fun r hmem _ => ?_⟩
    · rwa [ht]
    · rwa [hu]
    · rw [hr]
      exact List.mem_cons_of_mem _ hmem

theorem RoleStage.done (hy : y ∈ seedRoles) (h : RoleStage t name y t') : RoleDone t' name y := by
  cases h with
  | found h => exact h
  | @update x r _ hr hn h =>
    obtain ⟨w, hw, hro, ht, -⟩ := updateRole_load (p := r.permissions) (fun he => hn (fits_of_changes hy he)) h
    refine ⟨x, { r with permissions := w }, ⟨ht ▸ hr.tenant, hr.named, ?_, hr.owner, hr.called⟩,
      fits_of_join hy hw⟩
    rw [hro]
    exact List.mem_map.2 ⟨r, hr.mem, if_pos rfl⟩
  | @insert x id _ hx hxn _ h =>
    obtain ⟨u, n, w, hu, hn, hw, hr, ht, -⟩ := insertRole_rows h
    obtain rfl : x.id = u := Uuid.eq_of_ofText_toText hu
    exact ⟨x, ⟨id, x.id, n, w⟩, ⟨ht ▸ hx, hxn, hr ▸ List.mem_cons_self, rfl, hn⟩, fits_of_join hy hw⟩

theorem RoleStage.idle (h : RoleDone t name y) : RoleStage t name y t' ↔ t' = t := by
  obtain ⟨x, r, hr, hf⟩ := h
  constructor
  · intro hs
    cases hs with
    | found => rfl
    | update hr' hn =>
      obtain ⟨-, rfl⟩ := hr.eq hr'
      exact absurd hf hn
    | @insert x' _ _ hx' hxn' hn =>
      obtain rfl : x = x' := Tables.tenant_eq_of_named hr.tenant hx' hr.named hxn'
      exact absurd hr (hn r)
  · rintro rfl
    exact .found ⟨x, r, hr, hf⟩

/-! ### Users -/

variable {bcrypt : Bcrypt} {username password : JsString}

theorem UserStage.preserves (h : UserStage t bcrypt name y username password t') : Preserves t t' := by
  cases h with
  | found => exact .refl t
  | @assign u _ _ _ hu _ hn _ h =>
    obtain ⟨hus, ht, hr⟩ := assignRole_toText h
    refine ⟨fun x hx => ?_, fun u' hmem hne => ?_, fun r hmem _ => ?_⟩
    · rwa [ht]
    · rw [hus]
      refine List.mem_map.2 ⟨u', hmem, if_neg fun he => ?_⟩
      obtain rfl : u' = u := Tables.user_eq hmem hu he
      exact hne hn
    · rwa [hr]
  | insert _ _ h =>
    obtain ⟨_, _, -, -, hus, ht, hr⟩ := insertUser_toText h
    refine ⟨fun x hx => ?_, fun u hmem _ => ?_, fun r hmem _ => ?_⟩
    · rwa [ht]
    · rw [hus]
      exact List.mem_cons_of_mem _ hmem
    · rwa [hr]

theorem UserStage.done (h : UserStage t bcrypt name y username password t') : UserDone t' username := by
  cases h with
  | found h => exact h
  | @assign u _ r _ hu hun _ _ h =>
    obtain ⟨hus, -, -⟩ := assignRole_toText h
    refine ⟨{ u with roleId := some r.id }, ?_, hun, by simp⟩
    rw [hus]
    exact List.mem_map.2 ⟨u, hu, if_pos rfl⟩
  | insert _ _ h =>
    obtain ⟨n, _, hn, -, hus, -, -⟩ := insertUser_toText h
    exact ⟨_, hus ▸ List.mem_cons_self, hn, by simp⟩

theorem UserStage.idle (h : UserDone t username) :
    UserStage t bcrypt name y username password t' ↔ t' = t := by
  obtain ⟨u, hu, hun, hne⟩ := h
  constructor
  · intro hs
    cases hs with
    | found => rfl
    | assign hu' hun' hn =>
      obtain rfl := Tables.user_eq_of_named hu hu' hun hun'
      exact absurd hn hne
    | insert hn => exact absurd hun (hn u hu)
  · rintro rfl
    exact .found ⟨u, hu, hun, hne⟩

end

/-! ## The script as stages -/

section
variable {bcrypt : Bcrypt} {w : Wanted} {t t' : Tables} {i j : ℕ}

theorem stage_preserves (h : stage bcrypt w j t t') : Preserves t t' := by
  match j, h with
  | 0, h => exact TenantStage.preserves h
  | 1, h => exact RoleStage.preserves adminRole_mem h
  | 2, h => exact RoleStage.preserves approverRole_mem h
  | 3, h | 4, h => exact UserStage.preserves h
  | _ + 5, h => exact h ▸ .refl t

theorem stage_done (h : stage bcrypt w j t t') : done w j t' := by
  match j, h with
  | 0, h => exact TenantStage.done h
  | 1, h => exact RoleStage.done adminRole_mem h
  | 2, h => exact RoleStage.done approverRole_mem h
  | 3, h | 4, h => exact UserStage.done h
  | _ + 5, _ => trivial

theorem stage_idle (h : done w j t) : stage bcrypt w j t t' ↔ t' = t := by
  match j, h with
  | 0, h => exact TenantStage.idle h
  | 1, h | 2, h => exact RoleStage.idle h
  | 3, h | 4, h => exact UserStage.idle h
  | _ + 5, _ => exact Iff.rfl

/-- What is done stays done. -/
theorem Preserves.done (hp : Preserves t t') (h : done w i t) : done w i t' := by
  match i, h with
  | 0, ⟨x, hx, hn⟩ => exact ⟨x, hp.tenants x hx, hn⟩
  | 1, ⟨x, r, hr, hf⟩ => exact ⟨x, r, hr.preserved adminRole_mem hf hp, hf⟩
  | 2, ⟨x, r, hr, hf⟩ => exact ⟨x, r, hr.preserved approverRole_mem hf hp, hf⟩
  | 3, ⟨u, hu, hun, hne⟩ | 4, ⟨u, hu, hun, hne⟩ => exact ⟨u, hp.users u hu hne, hun, hne⟩
  | _ + 5, _ => trivial

end

/-- **The stages of a seed run.** -/
def seedStages (bcrypt : Bcrypt) (w : Wanted) : Stages Tables where
  stage := stage bcrypt w
  done := done w
  does := stage_done
  idle := stage_idle
  keeps hs h := (stage_preserves hs).done h

theorem preserves_of_later {bcrypt : Bcrypt} {w : Wanted} {t t' : Tables}
    (h : (seedStages bcrypt w).Later t t') : Preserves t t' :=
  h.inv (P := Preserves t) (fun hs hp => hp.trans (stage_preserves hs)) (.refl t)

end SystemDesign.Accounts
