/-
  What the parts of the seed script ensure.

  Each part is within `Later`, whatever other runs of the script do to the tables meanwhile: it does
  its stage, or finds it done, or fails.  With good choices, a part that is alone does not fail, and
  one that has done its stage returns (`Async.Ensures`).
-/
import SystemDesign.Accounts.Secure
import SystemDesign.Accounts.Stages
import SystemDesign.Lib.Race

namespace SystemDesign.Accounts

open Lib

/-- The operation succeeds, and an id that it makes is new. -/
structure Good (c : Choice) (t : Tables) : Prop where
  ok : c.outcome = .ok
  tenant : c.id ∉ t.tenants.map (·.id)
  user : c.id ∉ t.users.map (·.id)
  role : c.id ∉ t.roles.map (·.id)

instance (c : Choice) (t : Tables) : Decidable (Good c t) :=
  decidable_of_iff (c.outcome = .ok ∧ c.id ∉ t.tenants.map (·.id) ∧ c.id ∉ t.users.map (·.id) ∧
      c.id ∉ t.roles.map (·.id))
    ⟨fun ⟨h1, h2, h3, h4⟩ => ⟨h1, h2, h3, h4⟩, fun ⟨h1, h2, h3, h4⟩ => ⟨h1, h2, h3, h4⟩⟩

/-! ## Statements that are not rejected -/

section
variable {t : Tables}

theorem commit_some {r : Rows} (h : r.Valid) : ∃ t, r.commit = some t := ⟨⟨r, h⟩, dif_pos h⟩

theorem insertTenant_some {c : Choice} {name : JsString} (hc : Good c t) {n : Text}
    (hn : Text.ofJs name = some n) (hno : ¬ TenantDone t name) :
    ∃ t', t.insertTenant c.id name = some t' := by
  have hv := t.valid
  rw [Tables.insertTenant, hn, Option.bind_some]
  refine commit_some ⟨List.nodup_cons.2 ⟨hc.tenant, hv.tenantIds⟩, List.nodup_cons.2 ⟨?_, hv.tenantNames⟩,
    hv.userIds, hv.usernames, hv.roleIds, hv.roleNames, fun u hu => ?_, hv.userRoles, fun r hr => ?_⟩
  · intro hm
    obtain ⟨x, hx, rfl⟩ := List.mem_map.1 hm
    exact hno ⟨x, hx, hn⟩
  · exact List.mem_cons_of_mem _ (hv.userTenants u hu)
  · exact List.mem_cons_of_mem _ (hv.roleTenants r hr)

theorem insertRole_some {c : Choice} {name : JsString} {y : JsString × List JsString} (hc : Good c t)
    (hy : y ∈ seedRoles) {x : TenantRow} (hx : x ∈ t.tenants) (hxn : Text.ofJs name = some x.name)
    (hno : ∀ r, ¬ IsRole t name y x r) : ∃ t', t.insertRole c.id x.id.toText y.1 y.2 = some t' := by
  have hv := t.valid
  have hsome : ∀ z ∈ seedRoles, (Text.ofJs z.1).isSome ∧ (Text.ofJs (joinBy comma z.2)).isSome := by decide
  obtain ⟨n, hn⟩ := Option.isSome_iff_exists.1 (hsome y hy).1
  obtain ⟨p, hp⟩ := Option.isSome_iff_exists.1 (hsome y hy).2
  simp only [Tables.insertRole, Uuid.ofText_toText, hn, hp, Option.bind_some]
  refine commit_some ⟨hv.tenantIds, hv.tenantNames, hv.userIds, hv.usernames,
    List.nodup_cons.2 ⟨hc.role, hv.roleIds⟩, List.nodup_cons.2 ⟨?_, hv.roleNames⟩, hv.userTenants,
    fun u hu id hid => ?_, fun r hr => ?_⟩
  · intro hm
    obtain ⟨r, hr, he⟩ := List.mem_map.1 hm
    obtain ⟨he1, he2⟩ := Prod.mk.inj he
    exact hno r ⟨hx, hxn, hr, he1, hn.trans (congrArg some he2.symm)⟩
  · exact List.mem_cons_of_mem _ (hv.userRoles u hu id hid)
  · rcases List.mem_cons.1 hr with rfl | hr
    · exact List.mem_map_of_mem hx
    · exact hv.roleTenants r hr

/-- Changing the permissions of roles violates nothing. -/
theorem valid_roles {f : RoleRow → RoleRow}
    (hf : ∀ r, (f r).id = r.id ∧ (f r).tenantId = r.tenantId ∧ (f r).name = r.name) :
    Rows.Valid { t.toRows with roles := t.roles.map f } := by
  have hv := t.valid
  have hids : (t.roles.map f).map (·.id) = t.roles.map (·.id) := by
    rw [List.map_map]
    exact List.map_congr_left fun r _ => (hf r).1
  have hnames : (t.roles.map f).map (fun x => (x.tenantId, x.name)) =
      t.roles.map fun x => (x.tenantId, x.name) := by
    rw [List.map_map]
    exact List.map_congr_left fun r _ => Prod.ext (hf r).2.1 (hf r).2.2
  refine ⟨hv.tenantIds, hv.tenantNames, hv.userIds, hv.usernames, hids ▸ hv.roleIds, hnames ▸ hv.roleNames,
    hv.userTenants, fun u hu id hid => hids ▸ hv.userRoles u hu id hid, fun r hr => ?_⟩
  obtain ⟨r', hr', rfl⟩ := List.mem_map.1 hr
  rw [(hf r').2.1]
  exact hv.roleTenants r' hr'

theorem updateRole_some {y : JsString × List JsString} (hy : y ∈ seedRoles) (r : RoleRow) (p : Text) :
    ∃ t', t.updateRole { r with permissions := p }.load { r.load with permissions := y.2 } = some t' := by
  have hsome : ∀ z ∈ seedRoles, (Text.ofJs (joinBy comma z.2)).isSome := by decide
  obtain ⟨w, hw⟩ := Option.isSome_iff_exists.1 (hsome y hy)
  have hch : ∃ ch, { r with permissions := p }.load.changes { r.load with permissions := y.2 } = some ch ∧
      ch.tenantId = none ∧ ch.name = none := by
    obtain ⟨o, ho⟩ : ∃ o, change Text.ofJs (joinBy comma { r with permissions := p }.load.permissions)
        (joinBy comma y.2) = some o := by
      unfold change
      split_ifs
      · exact ⟨none, rfl⟩
      · exact ⟨some w, by rw [hw]; rfl⟩
    refine ⟨⟨none, none, o⟩, ?_, rfl, rfl⟩
    rw [Role.changes, ho]
    simp [change, RoleRow.load]
  obtain ⟨ch, hch, hct, hcn⟩ := hch
  have hid : Uuid.ofText { r.load with permissions := y.2 }.id = some r.id := Uuid.ofText_toText _
  rw [Tables.updateRole, hid, hch, Option.bind_some, Option.bind_some]
  refine commit_some (valid_roles fun x => ?_)
  split_ifs <;> simp [RoleRow.set, hct, hcn]

theorem assignRole_some {r : RoleRow} (hr : r ∈ t.roles) (id : Uuid) :
    ∃ t', t.assignRole id.toText r.id.toText = some t' := by
  have hv := t.valid
  simp only [Tables.assignRole, Uuid.ofText_toText, Option.bind_some]
  have hmap : ∀ {α : Type} (g : UserRow → α) (_ : ∀ u o, g { u with roleId := o } = g u),
      (t.users.map fun x => if x.id = id then { x with roleId := some r.id } else x).map g = t.users.map g := by
    intro α g hg
    rw [List.map_map]
    refine List.map_congr_left fun u _ => ?_
    simp only [Function.comp]
    split_ifs
    · exact hg u _
    · rfl
  refine commit_some ⟨hv.tenantIds, hv.tenantNames, ?_, ?_, hv.roleIds, hv.roleNames, fun u hu => ?_,
    fun u hu rid hrid => ?_, hv.roleTenants⟩
  · exact (hmap (·.id) fun _ _ => rfl) ▸ hv.userIds
  · exact (hmap (·.username) fun _ _ => rfl) ▸ hv.usernames
  · obtain ⟨u', hu', rfl⟩ := List.mem_map.1 hu
    split_ifs <;> exact hv.userTenants u' hu'
  · obtain ⟨u', hu', rfl⟩ := List.mem_map.1 hu
    split_ifs at hrid with he
    · obtain rfl := Option.some.inj hrid
      exact List.mem_map_of_mem hr
    · exact hv.userRoles u' hu' rid hrid

theorem insertUser_some {c : Choice} {username passwordHash : JsString} (hc : Good c t) {n p : Text}
    (hn : Text.ofJs username = some n) (hp : Text.ofJs passwordHash = some p)
    (hno : ∀ u ∈ t.users, Text.ofJs username ≠ some u.username) {x : TenantRow} (hx : x ∈ t.tenants)
    {r : RoleRow} (hr : r ∈ t.roles) :
    ∃ t', t.insertUser c.id username passwordHash x.id.toText (some r.id.toText) = some t' := by
  have hv := t.valid
  simp only [Tables.insertUser, hn, hp, Uuid.ofText_toText, uuidOrNull, Option.bind_some, Option.map_some]
  refine commit_some ⟨hv.tenantIds, hv.tenantNames, List.nodup_cons.2 ⟨hc.user, hv.userIds⟩,
    List.nodup_cons.2 ⟨?_, hv.usernames⟩, hv.roleIds, hv.roleNames, fun u hu => ?_, fun u hu id hid => ?_,
    hv.roleTenants⟩
  · intro hm
    obtain ⟨u, hu, rfl⟩ := List.mem_map.1 hm
    exact hno u hu hn
  · rcases List.mem_cons.1 hu with rfl | hu
    · exact List.mem_map_of_mem hx
    · exact hv.userTenants u hu
  · rcases List.mem_cons.1 hu with rfl | hu
    · obtain rfl := Option.some.inj hid
      exact List.mem_map_of_mem hr
    · exact hv.userRoles u hu id hid

end

/-! ## What is known between the parts -/

/-- The id is that of the tenant of the name. -/
def TenantId (name id : JsString) (t : Tables) : Prop :=
  ∃ x ∈ t.tenants, Text.ofJs name = some x.name ∧ id = x.id.toText

/-- The id is that of the role `y` of the tenant, which has the script's permissions. -/
def RoleId (name : JsString) (y : JsString × List JsString) (id : JsString) (t : Tables) : Prop :=
  ∃ x r, IsRole t name y x r ∧ Fits y r ∧ id = r.id.toText

section
variable (bcrypt : Bcrypt) (w : Wanted)

abbrev SeedLeads {ρ : Type} (A Q : ρ → Tables → Prop) (p : Service ρ) (t : Tables) : Prop :=
  Async.Leads (AOp.step bcrypt) Good (seedStages bcrypt w).Later A Q p t

abbrev SeedAlone {ρ : Type} (A : ρ → Tables → Prop) (p : Service ρ) (t : Tables) : Prop :=
  Async.Alone (AOp.step bcrypt) Good A p t

end

variable {bcrypt : Bcrypt} {w : Wanted} {t t' : Tables}

theorem TenantId.preserved {name id : JsString} (h : TenantId name id t) (hp : Preserves t t') :
    TenantId name id t' := by
  obtain ⟨x, hx, h⟩ := h
  exact ⟨x, hp.tenants x hx, h⟩

theorem RoleId.preserved {name id : JsString} {y : JsString × List JsString} (hy : y ∈ seedRoles)
    (h : RoleId name y id t) (hp : Preserves t t') : RoleId name y id t' := by
  obtain ⟨x, r, hr, hf, hid⟩ := h
  exact ⟨x, r, hr.preserved hy hf hp, hf, hid⟩

/-! ## Single operations -/

section
variable {o : AOp} {A Q : o.Ans → Tables → Prop}

theorem leads_read {v : Choice → Tables → Option o.Ans}
    (ho : ∀ c t, o.answer bcrypt c t = (reading c (v c t), t))
    (h : ∀ t₁, (seedStages bcrypt w).Later t t₁ → ∀ c x, v c t₁ = some x → Q x t₁) :
    SeedLeads bcrypt w A Q (perform o) t := by
  refine Async.Leads.call fun t₁ ht c a t₂ ha => ?_
  rw [AOp.step, ho] at ha
  cases ha
  exact ⟨.refl _, fun _ hne => absurd rfl hne, fun x hx => h t₁ ht c x (reading_ok hx)⟩

theorem leads_write {x : Choice → o.Ans} {f : Choice → Tables → Option Tables}
    (ho : ∀ c t, o.answer bcrypt c t = writing c (x c) t (f c t))
    (h : ∀ t₁, (seedStages bcrypt w).Later t t₁ → ∀ c t₂, f c t₁ = some t₂ →
      (seedStages bcrypt w).Later t₁ t₂ ∧ Q (x c) t₂) :
    SeedLeads bcrypt w Q Q (perform o) t := by
  refine Async.Leads.call fun t₁ ht c a t₂ ha => ?_
  have ha := Option.some.inj ha
  rw [ho] at ha
  refine ⟨?_, fun hc hne => ?_, ?_⟩
  · rcases writing_cases ha with rfl | hw
    · exact .refl _
    · exact (h t₁ ht c t₂ hw).1
  · have hw := (writing_cases ha).resolve_left hne
    simp only [writing, hw, hc.ok, Outcome.isOk, if_true] at ha
    obtain ⟨rfl, -⟩ := Prod.mk.inj ha
    exact ⟨x c, rfl, (h t₁ ht c t₂ hw).2⟩
  · rintro y rfl
    obtain ⟨rfl, hw⟩ := writing_ok ha
    exact (h t₁ ht c t₂ hw).2

theorem alone_read {v : Choice → Tables → Option o.Ans}
    (ho : ∀ c t, o.answer bcrypt c t = (reading c (v c t), t))
    (h : ∀ c, ∃ x, v c t = some x ∧ A x t) : SeedAlone bcrypt A (perform o) t := by
  refine Async.Alone.call fun c a t₂ hc ha => ?_
  obtain ⟨x, hx, hA⟩ := h c
  rw [AOp.step, ho, hx] at ha
  simp only [reading, hc.ok, Outcome.isOk, if_true] at ha
  cases ha
  exact ⟨x, rfl, hA⟩

theorem alone_write {x : Choice → o.Ans} {f : Choice → Tables → Option Tables}
    (ho : ∀ c t, o.answer bcrypt c t = writing c (x c) t (f c t))
    (h : ∀ c, Good c t → ∃ t', f c t = some t' ∧ A (x c) t') : SeedAlone bcrypt A (perform o) t := by
  refine Async.Alone.call fun c a t₂ hc ha => ?_
  obtain ⟨t₃, hf, hA⟩ := h c hc
  have ha := Option.some.inj ha
  rw [ho, hf] at ha
  simp only [writing, hc.ok, Outcome.isOk, Outcome.lands, if_true] at ha
  cases ha
  exact ⟨x c, rfl, hA⟩

end

/-! ## The tenant -/

theorem not_done_of_findTenant {name : JsString} (h : t.findTenant name = some none) : ¬ TenantDone t name := by
  rintro ⟨x, hx, hn⟩
  exact (Tables.findTenant_none hn).1 h x hx rfl

theorem not_done_of_insertTenant {id : Uuid} {name : JsString} (h : t.insertTenant id name = some t') :
    ¬ TenantDone t name := by
  rintro ⟨x, hx, hn⟩
  obtain ⟨n, hn', ht, -, -⟩ := insertTenant_rows h
  obtain rfl : n = x.name := Option.some.inj (hn'.symm.trans hn)
  have hnd := t'.valid.tenantNames
  rw [ht] at hnd
  exact (List.nodup_cons.1 hnd).1 (List.mem_map.2 ⟨x, hx, rfl⟩)

/-- What the tenant part ensures. -/
def TenantEnsured (bcrypt : Bcrypt) (w : Wanted) (x : Tenant) (t : Tables) : Prop :=
  (seedStages bcrypt w).Past 1 t ∧ TenantId w.tenant x.id t

theorem tenantEnsured_of_found {x : Tenant} (h : t.findTenant w.tenant = some (some x)) :
    TenantEnsured bcrypt w x t := by
  obtain ⟨r, hr, rfl, hn⟩ := Tables.findTenant_some h
  refine ⟨?_, r, hr, hn, rfl⟩
  exact Stages.Past.succ (fun i hi => absurd hi (Nat.not_lt_zero i)) ⟨r, hr, hn⟩

theorem tenantEnsured_of_insert {id : Uuid} (h : t.insertTenant id w.tenant = some t') :
    (seedStages bcrypt w).Later t t' ∧ TenantEnsured bcrypt w ⟨id.toText, w.tenant⟩ t' := by
  have hs : (seedStages bcrypt w).stage 0 t t' := TenantStage.insert (not_done_of_insertTenant h) h
  have hp : (seedStages bcrypt w).Past 0 t := fun i hi => absurd hi (Nat.not_lt_zero i)
  obtain ⟨n, hn, ht, -, -⟩ := insertTenant_rows h
  exact ⟨.of_stage hp hs, hp.stage hs, _, ht ▸ List.mem_cons_self, hn, rfl⟩

theorem ensureTenant_leads : SeedLeads bcrypt w (TenantEnsured bcrypt w) (TenantEnsured bcrypt w)
    (Seed.ensureTenant w.tenant) t := by
  refine Async.Leads.bind (A := fun _ _ => False) (Q := fun x t => t.findTenant w.tenant = some x)
    (fun _ _ h => h.elim) (fun x t₁ hx => ?_) (leads_read (fun _ _ => rfl) fun _ _ _ _ hx => hx)
  cases x with
  | some x => exact tenantEnsured_of_found hx
  | none =>
    refine Async.Leads.bind (A := fun id t => TenantEnsured bcrypt w ⟨id, w.tenant⟩ t)
      (fun id t₂ h => ?_) (fun id t₂ h => ?_) (leads_write (fun _ _ => rfl) fun t₂ _ c t₃ h => ?_)
    · exact h
    · exact h
    · exact tenantEnsured_of_insert h

theorem ensureTenant_alone {n : Text} (hn : Text.ofJs w.tenant = some n) :
    SeedAlone bcrypt (TenantEnsured bcrypt w) (Seed.ensureTenant w.tenant) t := by
  refine Async.Alone.bind (A := fun x t₁ => t₁ = t ∧ t.findTenant w.tenant = some x)
    (fun x t₁ hx => ?_) (alone_read (fun _ _ => rfl) fun c => ⟨_, by rw [Tables.findTenant, hn]; rfl, rfl,
      by rw [Tables.findTenant, hn]; rfl⟩)
  obtain ⟨rfl, hx⟩ := hx
  cases x with
  | some x => exact tenantEnsured_of_found hx
  | none =>
    refine Async.Alone.bind (A := fun id t => TenantEnsured bcrypt w ⟨id, w.tenant⟩ t)
      (fun id t₂ h => ?_) (alone_write (fun _ _ => rfl) fun c hc => ?_)
    · exact h
    · obtain ⟨t₂, ht₂⟩ := insertTenant_some hc hn (not_done_of_findTenant hx)
      exact ⟨t₂, ht₂, (tenantEnsured_of_insert ht₂).2⟩

/-! ## The roles -/

theorem Tables.eq_of_rows (h1 : t'.tenants = t.tenants) (h2 : t'.users = t.users)
    (h3 : t'.roles = t.roles) : t' = t := by
  obtain ⟨⟨a, b, c⟩, hv⟩ := t
  obtain ⟨⟨a', b', c'⟩, hv'⟩ := t'
  dsimp only at h1 h2 h3
  subst h1 h2 h3
  rfl

/-- The role `y` is that of the stage `j`. -/
structure RoleAt (bcrypt : Bcrypt) (w : Wanted) (j : ℕ) (y : JsString × List JsString) : Prop where
  mem : y ∈ seedRoles
  stage : ∀ t, (seedStages bcrypt w).stage j t = RoleStage t w.tenant y
  done : (seedStages bcrypt w).done j = fun t => RoleDone t w.tenant y

theorem adminRole_at : RoleAt bcrypt w 1 adminRole := ⟨adminRole_mem, fun _ => rfl, rfl⟩

theorem approverRole_at : RoleAt bcrypt w 2 approverRole := ⟨approverRole_mem, fun _ => rfl, rfl⟩

/-- What a role part ensures. -/
def RoleEnsured (bcrypt : Bcrypt) (w : Wanted) (j : ℕ) (y : JsString × List JsString) (role : Role)
    (t : Tables) : Prop :=
  (seedStages bcrypt w).Past (j + 1) t ∧ RoleId w.tenant y role.id t

section
variable {j : ℕ} {y : JsString × List JsString} {x : TenantRow} {r : RoleRow}

theorem absent_of_findRole (h : t.findRole x.id.toText y.1 = some none) (r : RoleRow) :
    ¬ IsRole t w.tenant y x r := by
  intro hr
  exact (Tables.findRole_none (Uuid.ofText_toText x.id) hr.called).1 h r hr.mem hr.owner rfl

theorem absent_of_insertRole {id : Uuid} (h : t.insertRole id x.id.toText y.1 y.2 = some t') (r : RoleRow) :
    ¬ IsRole t w.tenant y x r := by
  intro hr
  obtain ⟨u, n, p, hu, hn, -, hro, -, -⟩ := insertRole_rows h
  obtain rfl : x.id = u := Uuid.eq_of_ofText_toText hu
  obtain rfl : n = r.name := Option.some.inj (hn.symm.trans hr.called)
  have hnd := t'.valid.roleNames
  rw [hro] at hnd
  exact (List.nodup_cons.1 hnd).1 (List.mem_map.2 ⟨r, hr.mem, by rw [hr.owner]⟩)

theorem RoleAt.ensured (hj : RoleAt bcrypt w j y) (hp : (seedStages bcrypt w).Past j t)
    (hr : IsRole t w.tenant y x r) (hf : Fits y r) : RoleEnsured bcrypt w j y r.load t :=
  ⟨hp.succ (by rw [hj.done]; exact ⟨x, r, hr, hf⟩), x, r, hr, hf, rfl⟩

theorem RoleAt.ensured_insert (hj : RoleAt bcrypt w j y) (hp : (seedStages bcrypt w).Past j t)
    (hx : x ∈ t.tenants) (hxn : Text.ofJs w.tenant = some x.name) {id : Uuid}
    (h : t.insertRole id x.id.toText y.1 y.2 = some t') :
    (seedStages bcrypt w).Later t t' ∧
      RoleEnsured bcrypt w j y ⟨id.toText, x.id.toText, y.1, y.2⟩ t' := by
  have hs : (seedStages bcrypt w).stage j t t' := by
    rw [hj.stage]
    exact .insert hx hxn (absent_of_insertRole h) h
  obtain ⟨u, n, p, hu, hn, hw, hro, ht, -⟩ := insertRole_rows h
  obtain rfl : x.id = u := Uuid.eq_of_ofText_toText hu
  exact ⟨.of_stage hp hs, hp.stage hs, x, ⟨id, x.id, n, p⟩,
    ⟨ht ▸ hx, hxn, hro ▸ List.mem_cons_self, rfl, hn⟩, fits_of_join hj.mem hw, rfl⟩

/-- A role with other permissions than the script's is as it was, or the script has mended it. -/
theorem RoleAt.stale (hj : RoleAt bcrypt w j y) (hp : (seedStages bcrypt w).Past j t)
    (hr : IsRole t w.tenant y x r) (hf : ¬ Fits y r) (hl : (seedStages bcrypt w).Later t t') :
    t' = t ∨ ∃ p, Text.ofJs (joinBy comma y.2) = some p ∧
      IsRole t' w.tenant y x { r with permissions := p } ∧ (seedStages bcrypt w).Past (j + 1) t' := by
  have hnd : ¬ (seedStages bcrypt w).done j t := by
    rw [hj.done]
    rintro ⟨x', r', hr', hf'⟩
    obtain ⟨-, rfl⟩ := hr.eq hr'
    exact hf hf'
  refine (Stages.later_cases hp hnd hl).imp_right ?_
  rintro ⟨t₁, hs, hl₁⟩
  have hp₁ := hl₁.past (hp.stage hs)
  rw [hj.stage] at hs
  cases hs with
  | found h => exact absurd (hj.done ▸ h) hnd
  | update hr' hn h =>
    obtain ⟨rfl, rfl⟩ := hr.eq hr'
    obtain ⟨p, hjoin, hro, ht, -⟩ :=
      updateRole_load (p := r.permissions) (fun he => hf (fits_of_changes hj.mem he)) h
    refine ⟨p, hjoin, IsRole.preserved hj.mem ?_ (fits_of_join hj.mem hjoin) (preserves_of_later hl₁), hp₁⟩
    refine ⟨ht ▸ hr.tenant, hr.named, ?_, hr.owner, hr.called⟩
    rw [hro]
    exact List.mem_map.2 ⟨r, hr.mem, if_pos rfl⟩
  | insert hx' hxn' hn _ =>
    obtain rfl := Tables.tenant_eq_of_named hr.tenant hx' hr.named hxn'
    exact absurd hr (hn r)

/-- A role that was mended is not changed by the same statement. -/
theorem RoleAt.ensured_update (hj : RoleAt bcrypt w j y) (hp : (seedStages bcrypt w).Past j t)
    (hr : IsRole t w.tenant y x r) (hf : ¬ Fits y r) (hl : (seedStages bcrypt w).Later t t') {t'' : Tables}
    (h : t'.updateRole r.load { r.load with permissions := y.2 } = some t'') :
    (seedStages bcrypt w).Later t' t'' ∧
      RoleEnsured bcrypt w j y { r.load with permissions := y.2 } t'' := by
  obtain ⟨p, hjoin, hro, ht, hu⟩ :=
    updateRole_load (p := r.permissions) (fun he => hf (fits_of_changes hj.mem he)) h
  rcases hj.stale hp hr hf hl with rfl | ⟨p', hjoin', hr', hp'⟩
  · have hs : (seedStages bcrypt w).stage j t' t'' := by
      rw [hj.stage]
      exact .update hr hf h
    refine ⟨.of_stage hp hs, hp.stage hs, x, { r with permissions := p },
      ⟨ht ▸ hr.tenant, hr.named, ?_, hr.owner, hr.called⟩, fits_of_join hj.mem hjoin, rfl⟩
    rw [hro]
    exact List.mem_map.2 ⟨r, hr.mem, if_pos rfl⟩
  · obtain rfl : p = p' := Option.some.inj (hjoin.symm.trans hjoin')
    have hsame : t'.roles.map (fun x => if x.id = r.id then { x with permissions := p } else x) = t'.roles := by
      refine (List.map_congr_left fun z hz => ?_).trans (List.map_id _)
      by_cases he : z.id = r.id
      · obtain rfl : z = { r with permissions := p } :=
          Tables.role_eq hz hr'.mem he
        simp
      · simp [he]
    obtain rfl : t'' = t' := Tables.eq_of_rows ht hu (hro.trans hsame)
    exact ⟨.refl _, hp', x, _, hr', fits_of_join hj.mem hjoin, rfl⟩

/-- Nothing differs from what the script saves once the role is mended. -/
theorem changes_of_join (hy : y ∈ seedRoles) {p : Text} (h : Text.ofJs (joinBy comma y.2) = some p) :
    { r with permissions := p }.load.changes { r.load with permissions := y.2 } =
      some ⟨none, none, none⟩ := by
  have hload : { r with permissions := p }.load = { r.load with permissions := y.2 } := by
    simp only [RoleRow.load, (storable_seedRoles y hy).load h]
  rw [hload]
  simp [Role.changes, change]

/-- Where the row stands that `save` loads: as the run found it, or mended. -/
def Loaded (bcrypt : Bcrypt) (w : Wanted) (j : ℕ) (y : JsString × List JsString) (x : TenantRow)
    (r : RoleRow) (t : Tables) (loaded : Option Role) (t' : Tables) : Prop :=
  (t' = t ∧ loaded = some r.load) ∨
    ∃ p, Text.ofJs (joinBy comma y.2) = some p ∧ IsRole t' w.tenant y x { r with permissions := p } ∧
      (seedStages bcrypt w).Past (j + 1) t' ∧ loaded = some { r with permissions := p }.load

theorem save_leads (hj : RoleAt bcrypt w j y) (hp : (seedStages bcrypt w).Past j t)
    (hr : IsRole t w.tenant y x r) (hf : ¬ Fits y r) :
    SeedLeads bcrypt w (RoleEnsured bcrypt w j y) (RoleEnsured bcrypt w j y)
      (Seed.save { r.load with permissions := y.2 }) t := by
  have hid : Uuid.ofText r.load.id = some r.id := Uuid.ofText_toText _
  refine Async.Leads.bind (A := fun _ _ => False) (Q := Loaded bcrypt w j y x r t) (fun _ _ h => h.elim)
    (fun loaded t₁ hl => ?_) (leads_read (fun _ _ => rfl) fun t₁ ht _ loaded hl => ?_)
  · rcases hl with ⟨rfl, rfl⟩ | ⟨p, hjoin, hr', hp', rfl⟩
    · dsimp only
      rw [if_neg fun he => hf (fits_of_changes hj.mem he)]
      refine Async.Leads.bind (A := fun _ => RoleEnsured bcrypt w j y { r.load with permissions := y.2 })
        (fun _ t₂ h => ?_) (fun _ t₂ h => ?_) (leads_write (fun _ _ => rfl) fun t₂ ht _ t₃ h => ?_)
      · exact h
      · exact h
      · exact hj.ensured_update hp hr hf ht h
    · dsimp only
      rw [if_pos (changes_of_join hj.mem hjoin)]
      exact ⟨hp', x, _, hr', fits_of_join hj.mem hjoin, rfl⟩
  · rcases hj.stale hp hr hf ht with rfl | ⟨p, hjoin, hr', hp'⟩
    · rw [Tables.findRoleById_of_mem hr.mem hid] at hl
      exact Or.inl ⟨rfl, (Option.some.inj hl).symm⟩
    · rw [Tables.findRoleById_of_mem hr'.mem hid] at hl
      exact Or.inr ⟨p, hjoin, hr', hp', (Option.some.inj hl).symm⟩

theorem save_alone (hj : RoleAt bcrypt w j y) (hp : (seedStages bcrypt w).Past j t)
    (hr : IsRole t w.tenant y x r) (hf : ¬ Fits y r) :
    SeedAlone bcrypt (RoleEnsured bcrypt w j y) (Seed.save { r.load with permissions := y.2 }) t := by
  have hid : Uuid.ofText r.load.id = some r.id := Uuid.ofText_toText _
  refine Async.Alone.bind (A := fun loaded t₁ => t₁ = t ∧ loaded = some r.load) (fun loaded t₁ hl => ?_)
    (alone_read (fun _ _ => rfl) fun c => ⟨_, Tables.findRoleById_of_mem hr.mem hid, rfl, rfl⟩)
  obtain ⟨rfl, rfl⟩ := hl
  dsimp only
  rw [if_neg fun he => hf (fits_of_changes hj.mem he)]
  refine Async.Alone.bind (A := fun _ => RoleEnsured bcrypt w j y { r.load with permissions := y.2 })
    (fun _ t₂ h => ?_) (alone_write (fun _ _ => rfl) fun c hc => ?_)
  · exact h
  · obtain ⟨t₂, ht₂⟩ := updateRole_some (t := t₁) hj.mem r r.permissions
    exact ⟨t₂, ht₂, (hj.ensured_update hp hr hf (.refl _) ht₂).2⟩

/-- What `ensureRole` reads. -/
theorem isRole_of_findRole (hx : x ∈ t.tenants) (hxn : Text.ofJs w.tenant = some x.name) {role : Role}
    (h : t.findRole x.id.toText y.1 = some (some role)) :
    ∃ r, IsRole t w.tenant y x r ∧ role = r.load := by
  obtain ⟨r, hr, rfl, hid, hn⟩ := Tables.findRole_some h
  rw [Uuid.ofText_toText, Option.some.injEq] at hid
  exact ⟨r, ⟨hx, hxn, hr, hid.symm, hn⟩, rfl⟩

/-- **A role part, among others.** -/
theorem ensureRole_leads (hj : RoleAt bcrypt w j y) {tenantId : JsString}
    (hp : (seedStages bcrypt w).Past j t) (hten : TenantId w.tenant tenantId t) :
    SeedLeads bcrypt w (RoleEnsured bcrypt w j y) (RoleEnsured bcrypt w j y)
      (Seed.ensureRole tenantId y.1 y.2) t := by
  have found : SeedLeads bcrypt w (fun _ _ => False) (fun role t₁ => t₁.findRole tenantId y.1 = some role ∧
      (seedStages bcrypt w).Past j t₁ ∧ TenantId w.tenant tenantId t₁) (perform (.findRole tenantId y.1)) t :=
    leads_read (fun _ _ => rfl) fun t₁ ht _ role h =>
      ⟨h, ht.past hp, hten.preserved (preserves_of_later ht)⟩
  refine Async.Leads.bind (fun _ _ h => h.elim) (fun role t₁ h => ?_) found
  obtain ⟨hfind, hp₁, x, hx, hxn, rfl⟩ := h
  cases role with
  | none =>
    refine Async.Leads.bind
      (A := fun id => RoleEnsured bcrypt w j y ⟨id, x.id.toText, y.1, y.2⟩)
      (fun id t₂ h => ?_) (fun id t₂ h => ?_) (leads_write (fun _ _ => rfl) fun t₂ ht c t₃ h => ?_)
    · exact h
    · exact h
    · have hx₂ := (preserves_of_later ht).tenants x hx
      exact hj.ensured_insert (ht.past hp₁) hx₂ hxn h
  | some role =>
    obtain ⟨r, hr, rfl⟩ := isRole_of_findRole hx hxn hfind
    dsimp only
    split_ifs with hf
    · exact hj.ensured hp₁ hr hf
    · exact save_leads hj hp₁ hr hf

/-- **A role part, alone.** -/
theorem ensureRole_alone (hj : RoleAt bcrypt w j y) {tenantId : JsString}
    (hp : (seedStages bcrypt w).Past j t) (hten : TenantId w.tenant tenantId t) :
    SeedAlone bcrypt (RoleEnsured bcrypt w j y) (Seed.ensureRole tenantId y.1 y.2) t := by
  obtain ⟨x, hx, hxn, rfl⟩ := hten
  have hsome : ∀ z ∈ seedRoles, (Text.ofJs z.1).isSome := by decide
  obtain ⟨n, hn⟩ := Option.isSome_iff_exists.1 (hsome y hj.mem)
  refine Async.Alone.bind (A := fun role t₁ => t₁ = t ∧ t.findRole x.id.toText y.1 = some role)
    (fun role t₁ h => ?_) (alone_read (fun _ _ => rfl) fun c => ?_)
  · obtain ⟨rfl, hfind⟩ := h
    cases role with
    | none =>
      refine Async.Alone.bind
        (A := fun id => RoleEnsured bcrypt w j y ⟨id, x.id.toText, y.1, y.2⟩)
        (fun id t₂ h => ?_) (alone_write (fun _ _ => rfl) fun c hc => ?_)
      · exact h
      · obtain ⟨t₂, ht₂⟩ := insertRole_some hc hj.mem hx hxn (absent_of_findRole hfind)
        exact ⟨t₂, ht₂, (hj.ensured_insert hp hx hxn ht₂).2⟩
    | some role =>
      obtain ⟨r, hr, rfl⟩ := isRole_of_findRole hx hxn hfind
      dsimp only
      split_ifs with hf
      · exact hj.ensured hp hr hf
      · exact save_alone hj hp hr hf
  · obtain ⟨role, hrole⟩ : ∃ role, t.findRole x.id.toText y.1 = some role := by
      rw [Tables.findRole, Uuid.ofText_toText, Option.bind_some, hn]
      exact ⟨_, rfl⟩
    exact ⟨role, hrole, rfl, hrole⟩

end

/-! ## The users -/

/-- The user is that of the stage `j`. -/
structure UserAt (bcrypt : Bcrypt) (w : Wanted) (j : ℕ) (y : JsString × List JsString)
    (username password : JsString) : Prop where
  mem : y ∈ seedRoles
  stage : ∀ t, (seedStages bcrypt w).stage j t = UserStage t bcrypt w.tenant y username password
  done : (seedStages bcrypt w).done j = fun t => UserDone t username

theorem adminUser_at : UserAt bcrypt w 3 adminRole w.adminUsername w.adminPassword :=
  ⟨adminRole_mem, fun _ => rfl, rfl⟩

theorem approverUser_at : UserAt bcrypt w 4 approverRole w.approverUsername w.approverPassword :=
  ⟨approverRole_mem, fun _ => rfl, rfl⟩

section
variable {j : ℕ} {y : JsString × List JsString} {username password : JsString} {x : TenantRow}
  {r : RoleRow} {u : UserRow}

theorem absent_of_findUser (h : t.findUser username = some none) :
    ∀ u ∈ t.users, Text.ofJs username ≠ some u.username := by
  intro u hu hun
  exact (Tables.findUser_none hun).1 h u hu rfl

theorem absent_of_insertUser {id tenantId roleId : Uuid} {passwordHash : JsString}
    (h : t.insertUser id username passwordHash tenantId.toText (some roleId.toText) = some t') :
    ∀ u ∈ t.users, Text.ofJs username ≠ some u.username := by
  intro u hu hun
  obtain ⟨n, p, hn, -, hus, -, -⟩ := insertUser_toText h
  obtain rfl : n = u.username := Option.some.inj (hn.symm.trans hun)
  have hnd := t'.valid.usernames
  rw [hus] at hnd
  exact (List.nodup_cons.1 hnd).1 (List.mem_map.2 ⟨u, hu, rfl⟩)

/-- A user without a role is as it was, or the script has given it this one. -/
theorem UserAt.stale (hj : UserAt bcrypt w j y username password) (hp : (seedStages bcrypt w).Past j t)
    (hr : IsRole t w.tenant y x r) (hu : u ∈ t.users) (hun : Text.ofJs username = some u.username)
    (hn : u.roleId = none) (hl : (seedStages bcrypt w).Later t t') :
    t' = t ∨ { u with roleId := some r.id } ∈ t'.users ∧ (seedStages bcrypt w).Past (j + 1) t' := by
  have hnd : ¬ (seedStages bcrypt w).done j t := by
    rw [hj.done]
    rintro ⟨u', hu', hun', hne⟩
    obtain rfl := Tables.user_eq_of_named hu hu' hun hun'
    exact hne hn
  refine (Stages.later_cases hp hnd hl).imp_right ?_
  rintro ⟨t₁, hs, hl₁⟩
  have hp₁ := hl₁.past (hp.stage hs)
  rw [hj.stage] at hs
  cases hs with
  | found h => exact absurd (hj.done ▸ h) hnd
  | assign hu' hun' _ hr' h =>
    obtain rfl := Tables.user_eq_of_named hu hu' hun hun'
    obtain ⟨rfl, rfl⟩ := hr.eq hr'
    obtain ⟨hus, -, -⟩ := assignRole_toText h
    refine ⟨(preserves_of_later hl₁).users _ ?_ (by simp), hp₁⟩
    rw [hus]
    exact List.mem_map.2 ⟨u, hu, if_pos rfl⟩
  | insert hno => exact absurd hun (hno u hu)

/-- A user that was given its role is not changed by the same statement. -/
theorem UserAt.ensured_assign (hj : UserAt bcrypt w j y username password)
    (hp : (seedStages bcrypt w).Past j t) (hr : IsRole t w.tenant y x r) (hu : u ∈ t.users)
    (hun : Text.ofJs username = some u.username) (hn : u.roleId = none)
    (hl : (seedStages bcrypt w).Later t t') {t'' : Tables}
    (h : t'.assignRole u.id.toText r.id.toText = some t'') :
    (seedStages bcrypt w).Later t' t'' ∧ (seedStages bcrypt w).Past (j + 1) t'' := by
  rcases hj.stale hp hr hu hun hn hl with rfl | ⟨hu', hp'⟩
  · have hs : (seedStages bcrypt w).stage j t' t'' := by
      rw [hj.stage]
      exact .assign hu hun hn hr h
    exact ⟨.of_stage hp hs, hp.stage hs⟩
  · obtain ⟨hus, ht, hro⟩ := assignRole_toText h
    have hsame : t'.users.map (fun x => if x.id = u.id then { x with roleId := some r.id } else x) =
        t'.users := by
      refine (List.map_congr_left fun z hz => ?_).trans (List.map_id _)
      by_cases he : z.id = u.id
      · obtain rfl : z = { u with roleId := some r.id } :=
          Tables.user_eq hz hu' he
        simp
      · simp [he]
    obtain rfl : t'' = t' := Tables.eq_of_rows ht (hus.trans hsame) hro
    exact ⟨.refl _, hp'⟩

theorem UserAt.ensured_insert (hj : UserAt bcrypt w j y username password)
    (hp : (seedStages bcrypt w).Past j t) (hr : IsRole t w.tenant y x r) {id : Uuid} {salt : List UInt8}
    (h : t.insertUser id username (bcrypt.hash password Seed.SALT_ROUNDS salt) x.id.toText
      (some r.id.toText) = some t') :
    (seedStages bcrypt w).Later t t' ∧ (seedStages bcrypt w).Past (j + 1) t' := by
  have hs : (seedStages bcrypt w).stage j t t' := by
    rw [hj.stage]
    exact .insert (absent_of_insertUser h) hr h
  exact ⟨.of_stage hp hs, hp.stage hs⟩

/-- Both ids are those of the rows. -/
theorem isRole_of_ids {tenantId roleId : JsString}
    (hten : TenantId w.tenant tenantId t) (hrole : RoleId w.tenant y roleId t) :
    ∃ x r, IsRole t w.tenant y x r ∧ Fits y r ∧ tenantId = x.id.toText ∧ roleId = r.id.toText := by
  obtain ⟨x, hx, hxn, rfl⟩ := hten
  obtain ⟨x', r, hr, hf, rfl⟩ := hrole
  obtain rfl : x = x' := Tables.tenant_eq_of_named hx hr.tenant hxn hr.named
  exact ⟨x, r, hr, hf, rfl, rfl⟩

/-- **A user part, among others.** -/
theorem ensureUser_leads (hj : UserAt bcrypt w j y username password) {tenantId roleId : JsString}
    (hp : (seedStages bcrypt w).Past j t) (hten : TenantId w.tenant tenantId t)
    (hrole : RoleId w.tenant y roleId t) :
    SeedLeads bcrypt w (fun _ => (seedStages bcrypt w).Past (j + 1))
      (fun _ => (seedStages bcrypt w).Past (j + 1)) (Seed.ensureUser tenantId username password roleId) t := by
  obtain ⟨x, r, hr, hf, rfl, rfl⟩ := isRole_of_ids hten hrole
  refine Async.Leads.bind (A := fun _ _ => False) (Q := fun user t₁ => t₁.findUser username = some user ∧
    (seedStages bcrypt w).Later t t₁) (fun _ _ h => h.elim) (fun user t₁ h => ?_)
    (leads_read (fun _ _ => rfl) fun t₁ ht _ user h => ⟨h, ht⟩)
  obtain ⟨hfind, ht₁⟩ := h
  have hp₁ := ht₁.past hp
  have hr₁ := hr.preserved hj.mem hf (preserves_of_later ht₁)
  cases user with
  | none =>
    refine Async.Leads.bind (A := fun _ _ => False) (Q := fun passwordHash t₂ =>
      (∃ salt, passwordHash = bcrypt.hash password Seed.SALT_ROUNDS salt) ∧ (seedStages bcrypt w).Later t₁ t₂)
      (fun _ _ h => h.elim) (fun passwordHash t₂ h => ?_)
      (leads_read (fun _ _ => rfl) fun t₂ ht c _ h => ⟨⟨c.salt, (Option.some.inj h).symm⟩, ht⟩)
    obtain ⟨⟨salt, rfl⟩, ht₂⟩ := h
    refine Async.Leads.bind (A := fun _ => (seedStages bcrypt w).Past (j + 1)) (fun _ t₃ h => ?_)
      (fun _ t₃ h => ?_) (leads_write (fun _ _ => rfl) fun t₃ ht c t₄ h => ?_)
    · exact h
    · exact h
    · have ht₃ := ht₂.trans ht
      exact hj.ensured_insert (ht₃.past hp₁) (hr₁.preserved hj.mem hf (preserves_of_later ht₃)) h
  | some user =>
    obtain ⟨u, hu, rfl, hun⟩ := Tables.findUser_some hfind
    dsimp only
    split_ifs with hno
    · exact leads_write (fun _ _ => rfl) fun t₂ ht _ t₃ h =>
        hj.ensured_assign hp₁ hr₁ hu hun (roleId_of_falsy hno) ht h
    · refine hp₁.succ ?_
      rw [hj.done]
      refine ⟨u, hu, hun, fun hn => hno ?_⟩
      simp [falsy, UserRow.load, hn]

/-- **A user part, alone.** -/
theorem ensureUser_alone (hj : UserAt bcrypt w j y username password) {n : Text}
    (hn : Text.ofJs username = some n)
    (hhash : ∀ salt, (Text.ofJs (bcrypt.hash password Seed.SALT_ROUNDS salt)).isSome = true)
    {tenantId roleId : JsString} (hp : (seedStages bcrypt w).Past j t)
    (hten : TenantId w.tenant tenantId t) (hrole : RoleId w.tenant y roleId t) :
    SeedAlone bcrypt (fun _ => (seedStages bcrypt w).Past (j + 1))
      (Seed.ensureUser tenantId username password roleId) t := by
  obtain ⟨x, r, hr, hf, rfl, rfl⟩ := isRole_of_ids hten hrole
  refine Async.Alone.bind (A := fun user t₁ => t₁ = t ∧ t.findUser username = some user)
    (fun user t₁ h => ?_) (alone_read (fun _ _ => rfl) fun c => ⟨_, by rw [Tables.findUser, hn]; rfl, rfl,
      by rw [Tables.findUser, hn]; rfl⟩)
  obtain ⟨rfl, hfind⟩ := h
  cases user with
  | none =>
    refine Async.Alone.bind (A := fun passwordHash t₂ => t₂ = t₁ ∧
      ∃ salt, passwordHash = bcrypt.hash password Seed.SALT_ROUNDS salt) (fun passwordHash t₂ h => ?_)
      (alone_read (fun _ _ => rfl) fun c => ⟨_, rfl, rfl, c.salt, rfl⟩)
    obtain ⟨rfl, salt, rfl⟩ := h
    obtain ⟨p, hhp⟩ := Option.isSome_iff_exists.1 (hhash salt)
    refine Async.Alone.bind (A := fun _ => (seedStages bcrypt w).Past (j + 1)) (fun _ t₃ h => ?_)
      (alone_write (fun _ _ => rfl) fun c hc => ?_)
    · exact h
    · obtain ⟨t₃, ht₃⟩ := insertUser_some hc hn hhp (absent_of_findUser hfind) hr.tenant hr.mem
      exact ⟨t₃, ht₃, (hj.ensured_insert hp hr ht₃).2⟩
  | some user =>
    obtain ⟨u, hu, rfl, hun⟩ := Tables.findUser_some hfind
    dsimp only
    split_ifs with hno
    · refine alone_write (fun _ _ => rfl) fun c _ => ?_
      obtain ⟨t₂, ht₂⟩ := assignRole_some hr.mem u.id
      exact ⟨t₂, ht₂, (hj.ensured_assign hp hr hu hun (roleId_of_falsy hno) (.refl _) ht₂).2⟩
    · refine hp.succ ?_
      rw [hj.done]
      refine ⟨u, hu, hun, fun hn => hno ?_⟩
      simp [falsy, UserRow.load, hn]

end

end SystemDesign.Accounts
