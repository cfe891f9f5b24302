/-
  What is stored of a role's permissions.

  The column holds the list joined by commas, and neither writer checks it: the list read back
  has the members that were given iff the list is `Storable`.
-/
import SystemDesign.Accounts.Seed

namespace SystemDesign.Accounts

open Lib

/-- No permission contains a comma or a lone surrogate, and the list is not `['']`. -/
def Storable (ps : List JsString) : Prop := Separable comma ps ∧ ∀ p ∈ ps, wellFormed p = true

instance (ps : List JsString) : Decidable (Storable ps) := inferInstanceAs (Decidable (_ ∧ _))

/-! ## The column -/

/-- What a column is read as is storable. -/
theorem storable_load (w : Text) : Storable (splitBy comma w.units) := by
  refine ⟨separable_splitBy _, fun p hp => ?_⟩
  have hw : wellFormed (joinBy comma (splitBy comma w.units)) = true := by
    rw [joinBy_splitBy]; exact w.wellFormed
  rw [joinBy, wellFormed_intercalate (by decide) (by decide)] at hw
  exact List.all_eq_true.1 hw p hp

/-- A storable list is read back from its column. -/
theorem Storable.load {ps : List JsString} {w : Text} (h : Storable ps)
    (hw : Text.ofJs (joinBy comma ps) = some w) : splitBy comma w.units = ps := by
  have hwf : wellFormed (joinBy comma ps) = true := by
    rw [joinBy, wellFormed_intercalate (by decide) (by decide)]
    exact List.all_eq_true.2 h.2
  rw [Text.units_ofJs hw, toWellFormed_of_wellFormed hwf, splitBy_joinBy h.1]

/-- The column holds the list, or one that is read as a permutation of it. -/
def Holds (ps : List JsString) (w : Text) : Prop :=
  Text.ofJs (joinBy comma ps) = some w ∨ (splitBy comma w.units).Perm ps

theorem Storable.mem_load {ps : List JsString} {w : Text} (h : Storable ps) (hw : Holds ps w)
    (p : JsString) : p ∈ splitBy comma w.units ↔ p ∈ ps := by
  rcases hw with hw | hw
  · rw [h.load hw]
  · exact hw.mem_iff

/-- **The column has the members of the list iff the list is storable.** -/
theorem mem_load_iff {ps : List JsString} {w : Text} (hw : Holds ps w) :
    (∀ p, p ∈ splitBy comma w.units ↔ p ∈ ps) ↔ Storable ps := by
  refine ⟨fun h => ?_, fun h => h.mem_load hw⟩
  obtain ⟨⟨hsep, hne⟩, hwf⟩ := storable_load w
  refine ⟨⟨fun p hp => hsep p ((h p).2 hp), ?_⟩, fun p hp => hwf p ((h p).2 hp)⟩
  rintro rfl
  rcases hw with hw | hw
  · -- `['']` is written as the empty text, which is read as no permission
    have hnil : splitBy comma w.units = [] := by rw [Text.units_ofJs hw]; rfl
    have := (h []).2 List.mem_cons_self
    rw [hnil] at this
    exact absurd this List.not_mem_nil
  · exact hne (List.perm_singleton.1 hw)

/-! ## The writers, run alone -/

variable (bcrypt : Bcrypt)

/-- The role reloaded by its id has exactly the permissions `ps`. -/
def Granted (ps : List JsString) (role : Role) (t : Tables) : Prop :=
  ∀ cs x t', Async.run (AOp.step bcrypt) (RolesService.findById (some (.str role.id))) cs t =
    some (.ok x, t') → ∃ r, x = some r ∧ ∀ p, RolesService.hasPermission r p = true ↔ p ∈ ps

/-- There is a row for the role, whose column holds the list. -/
def Kept (ps : List JsString) (role : Role) (t : Tables) : Prop :=
  ∃ r ∈ t.roles, Uuid.ofText role.id = some r.id ∧ Holds ps r.permissions

/-- The writer leaves the role with the list. -/
abbrev Keeps (ps : List JsString) (code : Service Role) (t : Tables) : Prop :=
  Async.Safe (AOp.step bcrypt) Eq (fun _ _ _ => True) (Kept ps) code t

variable {bcrypt}

/-- Awaiting one operation on the tables `t`. -/
theorem safe_perform {o : AOp} {Q : o.Ans → Tables → Prop} {t : Tables}
    (h : ∀ c x t', o.answer bcrypt c t = (.ok x, t') → Q x t') :
    Async.Safe (AOp.step bcrypt) Eq (fun _ _ _ => True) Q (perform o) t := by
  refine Async.Safe.call fun s hs c a s' ha => ⟨trivial, fun x hx => ?_⟩
  subst hs hx
  exact h c x s' (Option.some.inj ha)

theorem insertRole_ok {id : Option JsString} {tenantId name : JsString} {ps : List JsString} {c : Choice}
    {t t' : Tables} {x : JsString}
    (h : (AOp.insertRole id tenantId name ps).answer bcrypt c t = (.ok x, t')) :
    ∃ r, t'.roles = r :: t.roles ∧ Uuid.ofText x = some r.id ∧ Uuid.ofText tenantId = some r.tenantId ∧
      Text.ofJs name = some r.name ∧ Text.ofJs (joinBy comma ps) = some r.permissions := by
  obtain ⟨rfl, hw⟩ := writing_ok h
  obtain ⟨i, hi, hw⟩ := Option.bind_eq_some_iff.1 hw
  obtain ⟨u, n, p, hu, hn, hp, hroles, -, -⟩ := insertRole_rows hw
  refine ⟨⟨i, u, n, p⟩, hroles, ?_, hu, hn, hp⟩
  cases id with
  | none => cases hi; exact Uuid.ofText_toText _
  | some s => exact hi

/-- A role with new permissions differs from its row in this column at most. -/
theorem changes_permissions {r : RoleRow} {ps : List JsString} {ch : RoleChange}
    (h : r.load.changes { r.load with permissions := ps } = some ch) :
    ch.tenantId = none ∧ ch.name = none ∧ Text.ofJs (joinBy comma ps) = some (r.set ch).permissions := by
  obtain ⟨u, hu, h⟩ := Option.bind_eq_some_iff.1 h
  obtain ⟨n, hn, h⟩ := Option.bind_eq_some_iff.1 h
  obtain ⟨p, hp, rfl⟩ := Option.map_eq_some_iff.1 h
  have hu' : none = u := Option.some.inj ((if_pos rfl).symm.trans hu)
  have hn' : none = n := Option.some.inj ((if_pos rfl).symm.trans hn)
  refine ⟨hu'.symm, hn'.symm, ?_⟩
  unfold change at hp
  split_ifs at hp with he
  · cases hp
    -- the column is left as it is, and its text is the one that was given
    have he' : r.permissions.units = joinBy comma ps := (joinBy_splitBy _).symm.trans he
    rw [← he']
    exact Text.ofJs_units _
  · obtain ⟨w, hw, rfl⟩ := Option.map_eq_some_iff.1 hp
    exact hw

/-- Where the columns differ, the list is written. -/
theorem changes_load {r : RoleRow} {ps : List JsString} {ch : RoleChange}
    (h : r.load.changes { r.load with permissions := ps } = some ch) (hne : ch ≠ ⟨none, none, none⟩) :
    ∃ w, ch = ⟨none, none, some w⟩ ∧ Text.ofJs (joinBy comma ps) = some w := by
  obtain ⟨hu, hn, hp⟩ := changes_permissions h
  obtain ⟨u, n, p⟩ := ch
  cases hu
  cases hn
  cases p with
  | none => exact absurd rfl hne
  | some w => exact ⟨w, rfl, hp⟩

theorem create_keeps (tenantId name : JsString) (ps : List JsString) (t : Tables) :
    Keeps bcrypt ps (RolesService.create tenantId name ps) t := by
  refine Async.Safe.bind (Q := fun x t => ∃ r ∈ t.roles, Uuid.ofText x = some r.id ∧ Holds ps r.permissions)
    (fun x t h => ?_) (safe_perform fun c x t' h => ?_)
  · exact h
  · obtain ⟨r, hr, hid, -, -, hp⟩ := insertRole_ok h
    exact ⟨r, hr ▸ List.mem_cons_self, hid, Or.inl hp⟩

theorem save_keeps {r : RoleRow} {t : Tables} (hr : r ∈ t.roles) (ps : List JsString) :
    Keeps bcrypt ps (Seed.save { r.load with permissions := ps }) t := by
  have hid : Uuid.ofText r.load.id = some r.id := Uuid.ofText_toText _
  refine Async.Safe.bind (Q := fun loaded s => s = t ∧ loaded = some r.load) ?_ (safe_perform ?_)
  · rintro loaded s ⟨rfl, rfl⟩
    dsimp only
    split_ifs with hch
    · exact ⟨r, hr, hid, Or.inl (changes_permissions hch).2.2⟩
    · refine Async.Safe.bind (Q := fun _ t => Kept ps { r.load with permissions := ps } t)
        (fun _ t h => ?_) (safe_perform fun c x t' h => ?_)
      · exact h
      · obtain ⟨u, ch, hu, hch, hroles, -, -⟩ := updateRole_rows (writing_ok h).2
        obtain rfl : r.id = u := Option.some.inj (hid.symm.trans hu)
        refine ⟨r.set ch, ?_, hid, Or.inl (changes_permissions hch).2.2⟩
        rw [hroles]
        exact List.mem_map.2 ⟨r, hr, if_pos rfl⟩
  · intro c x t' h
    obtain ⟨h1, rfl⟩ := Prod.mk.inj h
    have := reading_ok h1
    rw [Tables.findRoleById_of_mem hr hid] at this
    exact ⟨rfl, (Option.some.inj this).symm⟩

theorem ensureRole_keeps (tenantId name : JsString) (ps : List JsString) (t : Tables) :
    Keeps bcrypt ps (Seed.ensureRole tenantId name ps) t := by
  refine Async.Safe.bind (Q := fun x s => s = t ∧ ∀ role, x = some role → ∃ r ∈ t.roles, role = r.load)
    ?_ (safe_perform ?_)
  · rintro x s ⟨rfl, hx⟩
    cases x with
    | none => exact create_keeps tenantId name ps s
    | some role =>
      obtain ⟨r, hr, rfl⟩ := hx role rfl
      dsimp only
      split_ifs with hs
      · exact ⟨r, hr, Uuid.ofText_toText _, Or.inr (Seed.perm_of_sameSorted hs)⟩
      · exact save_keeps hr ps
  · intro c x t' h
    obtain ⟨h1, rfl⟩ := Prod.mk.inj h
    refine ⟨rfl, fun role hrole => ?_⟩
    subst hrole
    obtain ⟨r, hr, he, -⟩ := Tables.findRole_some (reading_ok h1)
    exact ⟨r, hr, he⟩

/-- The role is reloaded with the list iff it is storable. -/
theorem granted_of_kept {ps : List JsString} {role : Role} {t : Tables} (h : Kept ps role t) :
    Granted bcrypt ps role t ↔ Storable ps := by
  obtain ⟨r, hr, hid, hw⟩ := h
  have hfind := Tables.findRoleById_of_mem hr hid
  have hmem : ∀ p, RolesService.hasPermission r.load p = true ↔ p ∈ splitBy comma r.permissions.units :=
    fun p => List.contains_iff_mem
  constructor
  · intro h
    obtain ⟨x, hx, hp⟩ := h [⟨.ok, r.id, [], 0⟩] (some r.load) t (by
      simp only [RolesService.findById, perform, Async.call, Async.run, AOp.step, AOp.answer, hfind]
      rfl)
    obtain rfl := Option.some.inj hx
    exact (mem_load_iff hw).1 fun p => (hmem p).symm.trans (hp p)
  · intro h cs x t' hrun
    have hs : Async.Safe (AOp.step bcrypt) Eq (fun _ _ _ => True) (fun x _ => x = some r.load)
        (RolesService.findById (some (.str role.id))) t := by
      refine safe_perform fun c x t' hx => ?_
      have := reading_ok (Prod.mk.inj hx).1
      rw [hfind] at this
      exact (Option.some.inj this).symm
    exact ⟨r.load, hs.run (fun _ => rfl) hrun, fun p => (hmem p).trans (h.mem_load hw p)⟩

/-- **Stored permissions are exactly the granted ones iff the list is storable**, for either
    writer on any tables. -/
theorem granted_iff (bcrypt : Bcrypt) (tenantId name : JsString) (ps : List JsString) {code : Service Role}
    (hcode : code ∈ [RolesService.create tenantId name ps, Seed.ensureRole tenantId name ps])
    {t t' : Tables} {cs : List Choice} {role : Role}
    (h : Async.run (AOp.step bcrypt) code cs t = some (.ok role, t')) :
    Granted bcrypt ps role t' ↔ Storable ps := by
  have hk : Keeps bcrypt ps code t := by
    simp only [List.mem_cons, List.not_mem_nil, or_false] at hcode
    rcases hcode with rfl | rfl
    · exact create_keeps tenantId name ps t
    · exact ensureRole_keeps tenantId name ps t
  exact granted_of_kept (hk.run (fun _ => rfl) h)

/-- `ensureRole` on the migrated tables, with the permissions of the seed script. -/
theorem granted_iff_seeded :
    ∃ role t, Async.run (AOp.step sampleBcrypt)
        (Seed.ensureRole (Uuid.ofNat 1).toText (js "admin") Seed.REQUESTER_PERMISSIONS)
        [⟨.ok, Uuid.ofNat 2, [], 0⟩, ⟨.ok, Uuid.ofNat 2, [], 0⟩] (migrated (Uuid.ofNat 1)) =
          some (.ok role, t) ∧
      (Granted sampleBcrypt Seed.REQUESTER_PERMISSIONS role t ↔ Storable Seed.REQUESTER_PERMISSIONS) := by
  have hrun : (Async.run (AOp.step sampleBcrypt)
      (Seed.ensureRole (Uuid.ofNat 1).toText (js "admin") Seed.REQUESTER_PERMISSIONS)
      [⟨.ok, Uuid.ofNat 2, [], 0⟩, ⟨.ok, Uuid.ofNat 2, [], 0⟩] (migrated (Uuid.ofNat 1))).map Prod.fst =
        some (.ok ⟨(Uuid.ofNat 2).toText, (Uuid.ofNat 1).toText, js "admin",
          Seed.REQUESTER_PERMISSIONS⟩) := by decide +kernel
  obtain ⟨⟨x, t⟩, h, rfl⟩ := Option.map_eq_some_iff.1 hrun
  exact ⟨_, t, h, granted_iff sampleBcrypt _ _ _ (List.mem_cons_of_mem _ List.mem_cons_self) h⟩

/-- `create` with the one permission `a,b`. -/
theorem not_granted :
    ∃ role t, Async.run (AOp.step sampleBcrypt)
        (RolesService.create (Uuid.ofNat 1).toText (js "r") [js "a,b"]) [⟨.ok, Uuid.ofNat 2, [], 0⟩]
        (migrated (Uuid.ofNat 1)) = some (.ok role, t) ∧
      ¬ Granted sampleBcrypt [js "a,b"] role t := by
  have hrun : (Async.run (AOp.step sampleBcrypt)
      (RolesService.create (Uuid.ofNat 1).toText (js "r") [js "a,b"]) [⟨.ok, Uuid.ofNat 2, [], 0⟩]
      (migrated (Uuid.ofNat 1))).map Prod.fst =
        some (.ok ⟨(Uuid.ofNat 2).toText, (Uuid.ofNat 1).toText, js "r", [js "a,b"]⟩) := by decide +kernel
  obtain ⟨⟨x, t⟩, h, rfl⟩ := Option.map_eq_some_iff.1 hrun
  have hk := Async.Safe.run (fun _ => rfl) (create_keeps (Uuid.ofNat 1).toText (js "r") [js "a,b"] _) h
  exact ⟨_, t, h, fun hg => absurd ((granted_of_kept hk).1 hg) (by decide)⟩

end SystemDesign.Accounts
