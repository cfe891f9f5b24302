/-
  What the guard decides.

  `RbacGuard.canActivate` on fixed tables, where no query fails: it lets a request pass iff no
  permission is declared or the user is entitled to it, and forbids it otherwise, except that an
  empty permission counts as none (`decides_iff`).
-/
import SystemDesign.Accounts.Services

namespace SystemDesign.Accounts

open Lib

/-- The user of the request has a role of the tenant of the request, and the role as it is loaded
    has the permission. -/
def Entitled (t : Tables) (user : Option RequestUser) (p : JsString) : Prop :=
  ∃ r ∈ user, ∃ u ∈ t.users, uuidOf r.userId = some u.id ∧ ∃ x ∈ t.roles, u.roleId = some x.id ∧
    r.tenantId = some (.str x.load.tenantId) ∧ p ∈ x.load.permissions

/-- Postgres rejects the lookup of the user: its id is not nullish, and no uuid. -/
def Unreadable (user : Option RequestUser) : Prop :=
  ∃ r ∈ user, Json.truthy r.userId = true ∧ uuidOf r.userId = none

/-- The request passes iff nothing is declared or its user is entitled.  Any other is forbidden,
    unless the database rejected it. -/
structure Decides (t : Tables) (handler cls : Option JsString) (user : Option RequestUser)
    (x : Except Thrown Bool) : Prop where
  passes : x = .ok true ↔ ∀ p ∈ getAllAndOverride handler cls, Entitled t user p
  forbids : x ≠ .ok true → (∃ m, x = .error (.forbidden m)) ∨ x = .error .failed ∧ Unreadable user

section
variable (bcrypt : Bcrypt) (cs : ℕ → Choice) (t : Tables)

/-- What the program returns or throws, where no operation fails by itself. -/
def outcome {ρ : Type} (p : Service ρ) : Except Thrown ρ :=
  (Async.runToEnd (AOp.answer bcrypt) p (fun i => { cs i with outcome := .ok }) t).2

variable {bcrypt} {cs} {t} {t' : Tables} {ρ : Type} {o : AOp} {f : o.Ans → Service ρ}

/-- An operation that succeeds, and what comes after it. -/
theorem runToEnd_ok {x : o.Ans} (h : o.answer bcrypt (cs 0) t = (.ok x, t')) :
    Async.runToEnd (AOp.answer bcrypt) (perform o >>= f) cs t =
      (o :: (Async.runToEnd (AOp.answer bcrypt) (f x) (fun i => cs (i + 1)) t').1,
        (Async.runToEnd (AOp.answer bcrypt) (f x) (fun i => cs (i + 1)) t').2) := by
  simp only [perform, Async.call, Async.await_bind, Async.runToEnd, h, Async.ret_bind]

/-- An operation that fails is the last one. -/
theorem runToEnd_error {e : Thrown} (h : o.answer bcrypt (cs 0) t = (.error e, t')) :
    Async.runToEnd (AOp.answer bcrypt) (perform o >>= f) cs t = ([o], .error e) := by
  simp only [perform, Async.call, Async.await_bind, Async.runToEnd, h, Async.throw_bind]

/-- A query that is not rejected. -/
theorem outcome_perform {x : o.Ans} (h : o.answer bcrypt { cs 0 with outcome := .ok } t = (.ok x, t)) :
    outcome bcrypt cs t (perform o >>= f) = outcome bcrypt (fun i => cs (i + 1)) t (f x) := by
  rw [outcome, runToEnd_ok h, outcome]

/-- A query that is rejected. -/
theorem outcome_rejected {e : Thrown} (h : o.answer bcrypt { cs 0 with outcome := .ok } t = (.error e, t)) :
    outcome bcrypt cs t (perform o >>= f) = .error e := by
  rw [outcome, runToEnd_error h]

/-! ## The stages of the guard -/

/-- What passes iff `granted`, and is forbidden otherwise. -/
def Decided (granted : Prop) (x : Except Thrown Bool) : Prop :=
  (granted → x = .ok true) ∧ (¬ granted → ∃ m, x = .error (.forbidden m))

theorem decided_forbidden {granted : Prop} (h : ¬ granted) (m : JsString) :
    Decided granted (outcome bcrypt cs t (.throw (.forbidden m))) :=
  ⟨fun hg => absurd hg h, fun _ => ⟨m, rfl⟩⟩

theorem differs_eq_false {s : JsString} {v : JsValue} : differs s v = false ↔ v = some (.str s) := by
  unfold differs
  split
  · rw [bne_eq_false_iff_eq, Option.some.injEq, Json.str.injEq, eq_comm]
  · next h => exact ⟨nofun, fun he => absurd he (h s)⟩

theorem checkPermission_decided (r : RequestUser) (p : JsString) (x : RoleRow) :
    Decided (r.tenantId = some (.str x.load.tenantId) ∧ p ∈ x.load.permissions)
      (outcome bcrypt cs t (checkPermission r p (some x.load))) := by
  simp only [checkPermission]
  split_ifs with hd hp
  · refine decided_forbidden (fun h => ?_) _
    rw [differs_eq_false.2 h.1] at hd
    cases hd
  · exact ⟨fun _ => rfl, fun h => absurd ⟨differs_eq_false.1 (by simpa using hd), List.contains_iff_mem.1 hp⟩ h⟩
  · exact decided_forbidden (fun h => hp (List.contains_iff_mem.2 h.2)) _

theorem checkRole_decided (r : RequestUser) (p : JsString) (u : UserRow) (hu : u ∈ t.users) :
    Decided (∃ x ∈ t.roles, u.roleId = some x.id ∧ r.tenantId = some (.str x.load.tenantId) ∧
      p ∈ x.load.permissions) (outcome bcrypt cs t (checkRole r p (some u.load))) := by
  cases hid : u.roleId with
  | none =>
    simp only [checkRole, UserRow.load, hid, Option.map_none, Option.bind_some]
    exact decided_forbidden (by simp) _
  | some id =>
    -- the foreign key: the user's role exists
    obtain ⟨x, hx, rfl⟩ := List.mem_map.1 (t.valid.userRoles u hu id hid)
    have hne : x.id.toText.isEmpty = false := by simp [Uuid.toText_ne_nil]
    have hfind := Tables.findRoleById_of_mem hx (Uuid.ofText_toText x.id)
    simp only [checkRole, UserRow.load, hid, Option.map_some, Option.bind_some, hne,
      Bool.false_eq_true, ↓reduceIte, RolesService.findById]
    rw [outcome_perform (x := some x.load) (by rw [AOp.answer, hfind]; rfl)]
    obtain ⟨hpass, hforbid⟩ : Decided _ (outcome bcrypt (fun i => cs (i + 1)) t _) :=
      checkPermission_decided r p x
    refine ⟨?_, fun hn => hforbid fun h => hn ⟨x, hx, rfl, h⟩⟩
    rintro ⟨y, hy, he, h⟩
    obtain rfl : x = y := Tables.role_eq hx hy (Option.some.inj he)
    exact hpass h

/-- The guard where a permission is needed. -/
def guardCode (p : JsString) : Option RequestUser → Service Bool
  | none => .throw (.forbidden (js "Not authenticated"))
  | some r =>
    if !Json.truthy r.userId then .throw (.forbidden (js "Not authenticated"))
    else UsersService.findById r.userId >>= checkRole r p

theorem canActivate_eq {handler cls : Option JsString} {p : JsString}
    (h : getAllAndOverride handler cls = some p) (hne : p ≠ []) (user : Option RequestUser) :
    canActivate handler cls user = guardCode p user := by
  have hp : p.isEmpty = false := by simpa using hne
  cases user with
  | none => simp [canActivate, h, hp, guardCode]
  | some r => simp only [canActivate, h, hp, guardCode, Bool.false_eq_true, ↓reduceIte]

theorem not_nullish_of_truthy {v : JsValue} (h : Json.truthy v = true) : isNullish v = false := by
  rcases v with _ | j
  · cases h
  · cases j <;> first | rfl | cases h

theorem truthy_of_uuid {v : JsValue} {u : Uuid} (h : uuidOf v = some u) : Json.truthy v = true := by
  unfold uuidOf at h
  split at h
  · next s =>
    have hne : s ≠ [] := by rintro rfl; cases h
    simpa [Json.truthy] using hne
  · cases h

theorem entitled_some {r : RequestUser} {p : JsString} :
    Entitled t (some r) p ↔ ∃ u ∈ t.users, uuidOf r.userId = some u.id ∧ ∃ x ∈ t.roles,
      u.roleId = some x.id ∧ r.tenantId = some (.str x.load.tenantId) ∧ p ∈ x.load.permissions := by
  simp [Entitled]

/-- A user id is looked up: the user's role decides. -/
theorem lookup_decided {r : RequestUser} {id : Uuid} (hid : uuidOf r.userId = some id) (p : JsString) :
    Decided (Entitled t (some r) p)
      (outcome bcrypt cs t (UsersService.findById r.userId >>= checkRole r p)) := by
  have hw : whereUuid r.userId = some (.eq id) := by
    rw [whereUuid_of_not_nullish (not_nullish_of_truthy (truthy_of_uuid hid)), hid]
    rfl
  have hread : ∀ c : Choice, (AOp.findUserById r.userId).answer bcrypt { c with outcome := .ok } t =
      (.ok ((t.users.find? fun u => (UuidWhere.eq id).holds u.id).map UserRow.load), t) := fun c => by
    rw [AOp.answer, Tables.findUserById, hw]
    rfl
  rw [UsersService.findById, outcome_perform (hread _)]
  cases hf : t.users.find? fun u => (UuidWhere.eq id).holds u.id with
  | none =>
    refine decided_forbidden (fun h => ?_) _
    obtain ⟨u, hu, hid', -⟩ := entitled_some.1 h
    rw [hid, Option.some.injEq] at hid'
    exact List.find?_eq_none.1 hf u hu (by simp [UuidWhere.holds, hid'])
  | some u =>
    have hu := List.mem_of_find?_eq_some hf
    obtain rfl : id = u.id := by simpa [UuidWhere.holds] using List.find?_some hf
    obtain ⟨hpass, hforbid⟩ : Decided _ (outcome bcrypt (fun i => cs (i + 1)) t _) :=
      checkRole_decided r p u hu
    refine ⟨fun h => hpass ?_, fun hn => hforbid fun h => hn (entitled_some.2 ⟨u, hu, hid, h⟩)⟩
    obtain ⟨u', hu', hid', h⟩ := entitled_some.1 h
    obtain rfl : u = u' := Tables.user_eq hu hu'
      (Option.some.inj (hid.symm.trans hid'))
    exact h

/-- **The guard, where a permission is needed**: it decides, or the user id cannot be looked up. -/
theorem guardCode_decided (p : JsString) (user : Option RequestUser) :
    Decided (Entitled t user p) (outcome bcrypt cs t (guardCode p user)) ∨
      outcome bcrypt cs t (guardCode p user) = .error .failed ∧ Unreadable user ∧ ¬ Entitled t user p := by
  cases user with
  | none => exact Or.inl (decided_forbidden (by simp [Entitled]) _)
  | some r =>
    cases hid : uuidOf r.userId with
    | some id =>
      simp only [guardCode, truthy_of_uuid hid, Bool.not_true, Bool.false_eq_true, ↓reduceIte]
      exact Or.inl (lookup_decided hid p)
    | none =>
      have hno : ¬ Entitled t (some r) p := by simp [entitled_some, hid]
      cases ht : Json.truthy r.userId with
      | false =>
        simp only [guardCode, ht, Bool.not_false, ↓reduceIte]
        exact Or.inl (decided_forbidden hno _)
      | true =>
        simp only [guardCode, ht, Bool.not_true, Bool.false_eq_true, ↓reduceIte, UsersService.findById]
        refine Or.inr ⟨outcome_rejected ?_, ⟨r, rfl, ht, hid⟩, hno⟩
        rw [AOp.answer, Tables.findUserById, whereUuid_of_not_nullish (not_nullish_of_truthy ht), hid]
        rfl

/-! ## The decision -/

/-- **The guard decides exactly**, unless the effective permission is empty and the user is not
    entitled to that. -/
theorem decides_iff (bcrypt : Bcrypt) (cs : ℕ → Choice) (t : Tables) (handler cls : Option JsString)
    (user : Option RequestUser) :
    Decides t handler cls user (outcome bcrypt cs t (canActivate handler cls user)) ↔
      (getAllAndOverride handler cls = some [] → Entitled t user []) := by
  cases hp : getAllAndOverride handler cls with
  | none =>
    have he : outcome bcrypt cs t (canActivate handler cls user) = .ok true := by
      rw [canActivate, hp]
      rfl
    rw [he]
    exact ⟨fun _ h => absurd h (by simp), fun _ => ⟨by simp [hp], fun h => absurd rfl h⟩⟩
  | some p =>
    by_cases hne : p = []
    · subst hne
      have he : outcome bcrypt cs t (canActivate handler cls user) = .ok true := by
        rw [canActivate, hp]
        rfl
      rw [he]
      refine ⟨fun h _ => h.passes.1 rfl [] hp, fun h => ⟨?_, fun h => absurd rfl h⟩⟩
      exact ⟨fun _ q hq => by obtain rfl := Option.some.inj (hp.symm.trans hq); exact h rfl, fun _ => rfl⟩
    · refine ⟨fun _ h => absurd (Option.some.inj h) hne, fun _ => ?_⟩
      rw [canActivate_eq hp hne]
      have hall : (∀ q ∈ getAllAndOverride handler cls, Entitled t user q) ↔ Entitled t user p := by
        simp [hp]
      have hdec : Decided _ (outcome bcrypt cs t _) ∨ _ := guardCode_decided p user
      rcases hdec with ⟨hpass, hforbid⟩ | ⟨hf, hr, hno⟩
      · by_cases hent : Entitled t user p
        · exact ⟨⟨fun _ => hall.2 hent, fun _ => hpass hent⟩, fun h => absurd (hpass hent) h⟩
        · obtain ⟨m, hm⟩ := hforbid hent
          exact ⟨⟨fun h => absurd (hm.symm.trans h) (by simp), fun h => absurd (hall.1 h) hent⟩,
            fun _ => Or.inl ⟨m, hm⟩⟩
      · exact ⟨⟨fun h => absurd (hf.symm.trans h) (by simp), fun h => absurd (hall.1 h) hno⟩,
          fun _ => Or.inr ⟨hf, hr⟩⟩

/-- With the empty permission on the handler, a request without a user passes, whatever the class
    declares. -/
theorem not_decides :
    ¬ Decides (migrated (Uuid.ofNat 1)) (some []) (some (js "po.approve")) none
      (outcome sampleBcrypt (fun _ => ⟨.ok, Uuid.ofNat 2, [], 0⟩) (migrated (Uuid.ofNat 1))
        (canActivate (some []) (some (js "po.approve")) none)) := by
  intro h
  obtain ⟨r, hr, -⟩ := h.passes.1 rfl [] rfl
  cases hr

end

end SystemDesign.Accounts
