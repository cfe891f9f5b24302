/-
  How the tables evolve under any interleaving.

  Rows are not deleted, and of an old row only the role of a user and the permissions of a role
  change.  A role that the seed script has made sure of stays `Settled`, and only settled roles
  are assigned (`Assigned`).  `Evolves` says so of two states of the tables; every operation of
  every job is within it (`job_secure`).

  Where `strict`, it says besides that users keep to the roles of their tenant (`Consistent`).
  This takes that the script finds no user of another tenant without a role (`Job.fits`).
-/
import SystemDesign.Accounts.Permissions
import SystemDesign.Accounts.System

namespace SystemDesign.Accounts

open Lib

/-- The roles of the seed script, with their permissions. -/
def seedRoles : List (JsString × List JsString) :=
  [(js "admin", Seed.REQUESTER_PERMISSIONS), (js "approver", Seed.APPROVER_PERMISSIONS)]

/-- The role is one of the seed script, and has its permissions. -/
def Settled (r : RoleRow) : Prop :=
  ∃ x ∈ seedRoles, Text.ofJs x.1 = some r.name ∧ ∀ p, p ∈ r.load.permissions ↔ p ∈ x.2

theorem storable_seedRoles : ∀ x ∈ seedRoles, Storable x.2 := by decide

theorem seedRoles_names : (seedRoles.map fun x => Text.ofJs x.1).Nodup := by decide

/-- Settled roles of one name have the same permissions. -/
theorem Settled.mem_iff {r r' : RoleRow} (h : Settled r) (h' : Settled r') (hn : r.name = r'.name)
    (p : JsString) : p ∈ r.load.permissions ↔ p ∈ r'.load.permissions := by
  obtain ⟨x, hx, hxn, hp⟩ := h
  obtain ⟨y, hy, hyn, hp'⟩ := h'
  have hxy : Text.ofJs x.1 = Text.ofJs y.1 := by rw [hxn, hyn, hn]
  obtain rfl : x = y := List.inj_on_of_nodup_map seedRoles_names hx hy hxy
  rw [hp, hp']

/-- A role that holds the permissions of the seed script is settled. -/
theorem settled_of_holds {x : JsString × List JsString} {r : RoleRow} (hx : x ∈ seedRoles)
    (hn : Text.ofJs x.1 = some r.name) (hh : Holds x.2 r.permissions) : Settled r :=
  ⟨x, hx, hn, (storable_seedRoles x hx).mem_load hh⟩

/-- The role of a user is a settled one. -/
def Assigned (t : Tables) : Prop := ∀ u ∈ t.users, ∀ id ∈ u.roleId, ∃ r ∈ t.roles, r.id = id ∧ Settled r

/-- **Tenant/role consistency**: the role of a user has the user's tenant. -/
def Consistent (t : Tables) : Prop :=
  ∀ u ∈ t.users, ∀ id ∈ u.roleId, ∃ r ∈ t.roles, r.id = id ∧ r.tenantId = u.tenantId

instance (t : Tables) : Decidable (Consistent t) :=
  inferInstanceAs (Decidable (∀ u ∈ t.users, ∀ id ∈ u.roleId, ∃ r ∈ t.roles, _))

/-! ## Evolution -/

structure Evolves (strict : Bool) (t t' : Tables) : Prop where
  tenants : ∀ x ∈ t.tenants, x ∈ t'.tenants
  users : ∀ u ∈ t.users, ∃ id, { u with roleId := id } ∈ t'.users
  roles : ∀ r ∈ t.roles, ∃ p, { r with permissions := p } ∈ t'.roles ∧
    (Settled r → Settled { r with permissions := p })
  assigned : Assigned t → Assigned t'
  consistent : strict = true → Consistent t → Consistent t'

variable {strict : Bool} {t t' t'' : Tables}

theorem Evolves.refl (t : Tables) : Evolves strict t t where
  tenants _ hx := hx
  users u hu := ⟨u.roleId, hu⟩
  roles r hr := ⟨r.permissions, hr, id⟩
  assigned := id
  consistent _ := id

theorem Evolves.trans (h : Evolves strict t t') (h' : Evolves strict t' t'') : Evolves strict t t'' where
  tenants x hx := h'.tenants x (h.tenants x hx)
  users u hu := by
    obtain ⟨id, hid⟩ := h.users u hu
    obtain ⟨id', hid'⟩ := h'.users _ hid
    exact ⟨id', hid'⟩
  roles r hr := by
    obtain ⟨p, hp, hs⟩ := h.roles r hr
    obtain ⟨p', hp', hs'⟩ := h'.roles _ hp
    exact ⟨p', hp', fun hr => hs' (hs hr)⟩
  assigned ha := h'.assigned (h.assigned ha)
  consistent hst hc := h'.consistent hst (h.consistent hst hc)

/-- A statement on the users: old ones stay, and a role newly given is settled, and of the user's
    tenant where that counts. -/
theorem Evolves.of_users (htenants : t'.tenants = t.tenants) (hroles : t'.roles = t.roles)
    (hold : ∀ u ∈ t.users, ∃ id, { u with roleId := id } ∈ t'.users)
    (hnew : ∀ u ∈ t'.users, u ∈ t.users ∨ ∀ id ∈ u.roleId, ∃ r ∈ t.roles, r.id = id ∧ Settled r ∧
      (strict = true → r.tenantId = u.tenantId)) : Evolves strict t t' where
  tenants x hx := htenants ▸ hx
  users := hold
  roles r hr := ⟨r.permissions, hroles ▸ hr, id⟩
  assigned ha u hu id hid := by
    rw [hroles]
    rcases hnew u hu with h | h
    · exact ha u h id hid
    · obtain ⟨r, hr, he, hs, -⟩ := h id hid
      exact ⟨r, hr, he, hs⟩
  consistent hst hc u hu id hid := by
    rw [hroles]
    rcases hnew u hu with h | h
    · exact hc u h id hid
    · obtain ⟨r, hr, he, -, ht⟩ := h id hid
      exact ⟨r, hr, he, ht hst⟩

/-- A statement on the roles: of old ones only the permissions change, and settled ones stay so. -/
theorem Evolves.of_roles (htenants : t'.tenants = t.tenants) (husers : t'.users = t.users)
    (hold : ∀ r ∈ t.roles, ∃ p, { r with permissions := p } ∈ t'.roles ∧
      (Settled r → Settled { r with permissions := p })) : Evolves strict t t' where
  tenants x hx := htenants ▸ hx
  users u hu := ⟨u.roleId, husers ▸ hu⟩
  roles := hold
  assigned ha u hu id hid := by
    obtain ⟨r, hr, he, hs⟩ := ha u (husers ▸ hu) id hid
    obtain ⟨p, hp, hp'⟩ := hold r hr
    exact ⟨_, hp, he, hp' hs⟩
  consistent hst hc u hu id hid := by
    obtain ⟨r, hr, he, ht⟩ := hc u (husers ▸ hu) id hid
    obtain ⟨p, hp, -⟩ := hold r hr
    exact ⟨_, hp, he, ht⟩

/-! ## What an operation does -/

variable {bcrypt : Bcrypt} {c : Choice}

theorem insertTenant_evolves {name : JsString} {x : Except Thrown JsString}
    (h : (AOp.insertTenant name).answer bcrypt c t = (x, t')) : Evolves strict t t' := by
  rcases writing_cases h with rfl | hw
  · exact .refl _
  · obtain ⟨n, -, hten, huse, hrol⟩ := insertTenant_rows hw
    refine ⟨fun x hx => ?_, fun u hu => ⟨u.roleId, ?_⟩, fun r hr => ⟨r.permissions, ?_, id⟩, ?_, ?_⟩
    · rw [hten]; exact List.mem_cons_of_mem _ hx
    · rw [huse]; exact hu
    · rw [hrol]; exact hr
    · rw [Assigned, Assigned, huse, hrol]; exact id
    · rw [Consistent, Consistent, huse, hrol]; exact fun _ => id

theorem insertRole_evolves {id : Option JsString} {tenantId name : JsString} {ps : List JsString}
    {x : Except Thrown JsString}
    (h : (AOp.insertRole id tenantId name ps).answer bcrypt c t = (x, t')) : Evolves strict t t' := by
  rcases writing_cases h with rfl | hw
  · exact .refl _
  · obtain ⟨i, -, hw⟩ := Option.bind_eq_some_iff.1 hw
    obtain ⟨_, _, _, -, -, -, hrol, hten, huse⟩ := insertRole_rows hw
    refine .of_roles hten huse fun r hmem => ⟨r.permissions, ?_, fun hs => hs⟩
    rw [hrol]
    exact List.mem_cons_of_mem _ hmem

/-- A user may be inserted with a settled role of its tenant. -/
theorem insertUser_evolves {username passwordHash tenantId : JsString} {roleId : Option JsString}
    {x : Except Thrown JsString}
    (h : (AOp.insertUser username passwordHash tenantId roleId).answer bcrypt c t = (x, t'))
    (hrole : ∀ id ∈ roleId, ∃ r ∈ t.roles, Uuid.ofText id = some r.id ∧ Settled r ∧
      Uuid.ofText tenantId = some r.tenantId) : Evolves strict t t' := by
  rcases writing_cases h with rfl | hw
  · exact .refl _
  · obtain ⟨n, p, tid, rid, -, -, htid, hrid, huse, hten, hrol⟩ := insertUser_rows hw
    refine .of_users hten hrol (fun u hu => ⟨u.roleId, ?_⟩) ?_
    · rw [huse]; exact List.mem_cons_of_mem _ hu
    · intro u hu
      rw [huse] at hu
      rcases List.mem_cons.1 hu with rfl | hu
      · refine Or.inr fun id hid => ?_
        cases roleId with
        | none => cases hrid; cases hid
        | some s =>
          obtain ⟨r, hr, hrs, hset, hten⟩ := hrole s rfl
          obtain ⟨id', hid', rfl⟩ := Option.map_eq_some_iff.1 hrid
          obtain rfl : id' = id := Option.some.inj hid
          obtain rfl : r.id = id' := Option.some.inj (hrs.symm.trans hid')
          exact ⟨r, hr, rfl, hset, fun _ => Option.some.inj (hten.symm.trans htid)⟩
      · exact Or.inl hu

/-- A settled role may be given to a user, of its tenant where that counts. -/
theorem assignRole_evolves {id roleId : JsString} {x : Except Thrown Unit}
    (h : (AOp.assignRole id roleId).answer bcrypt c t = (x, t')) {r : RoleRow} (hr : r ∈ t.roles)
    (hid : Uuid.ofText roleId = some r.id) (hs : Settled r)
    (ht : strict = true → ∀ u ∈ t.users, Uuid.ofText id = some u.id → r.tenantId = u.tenantId) :
    Evolves strict t t' := by
  rcases writing_cases h with rfl | hw
  · exact .refl _
  · obtain ⟨uid, rid, huid, hrid, huse, hten, hrol⟩ := assignRole_rows hw
    obtain rfl : r.id = rid := Option.some.inj (hid.symm.trans hrid)
    refine .of_users hten hrol (fun u hu => ?_) ?_
    · rw [huse]
      exact mem_assign hu uid r.id
    · intro u' hu'
      rw [huse] at hu'
      obtain ⟨u, hu, rfl⟩ := List.mem_map.1 hu'
      split_ifs with he
      · refine Or.inr fun id' hid' => ⟨r, hr, Option.some.inj hid', hs, fun hst => ?_⟩
        exact ht hst u hu (he ▸ huid)
      · exact Or.inl hu

/-- The permissions of a role of the seed script may be set to the script's. -/
theorem updateRole_evolves {r : RoleRow} {y : JsString × List JsString} {x : Except Thrown Unit}
    {p : Text} (hy : y ∈ seedRoles) (hn : Text.ofJs y.1 = some r.name) (hr : r ∈ t.roles)
    (hch : { r with permissions := p }.load.changes { r.load with permissions := y.2 } ≠
      some ⟨none, none, none⟩)
    (h : (AOp.updateRole { r with permissions := p }.load { r.load with permissions := y.2 }).answer
      bcrypt c t = (x, t')) : Evolves strict t t' := by
  rcases writing_cases h with rfl | hw
  · exact .refl _
  · obtain ⟨u, ch, hu, hch', hrol, hten, huse⟩ := updateRole_rows hw
    obtain rfl : r.id = u := Uuid.eq_of_ofText_toText hu
    obtain ⟨w, rfl, hjoin⟩ := changes_load hch' (fun he => hch (he ▸ hch'))
    refine .of_roles hten huse fun r' hr' => ?_
    by_cases he : r'.id = r.id
    · obtain rfl : r' = r := Tables.role_eq hr' hr he
      refine ⟨w, ?_, fun _ => settled_of_holds hy hn (Or.inl hjoin)⟩
      rw [hrol]
      exact List.mem_map.2 ⟨r', hr', if_pos rfl⟩
    · refine ⟨r'.permissions, ?_, fun hs => hs⟩
      rw [hrol]
      exact List.mem_map.2 ⟨r', hr', if_neg he⟩

end SystemDesign.Accounts
