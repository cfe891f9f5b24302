/-
  What a unique index takes.

  Postgres rejects an index entry over a third of a page, so a tenant or a user with too long a name cannot be
  inserted.  How a text is stored in an entry is a parameter: with a header, and compressed where that is done.

  `fitting_seed`: where the names of the environment fit, so does every entry that the script inserts.
-/
import SystemDesign.Accounts.SeedRun

namespace SystemDesign.Accounts

open Lib

/-! ## Entries -/

/-- The indexes of Postgres: the bytes that a text takes in an entry. -/
structure Btree where
  stored : Text → ℕ
  stored_le : ∀ s, stored s ≤ 4 + (toUtf8 s.units).length

/-- The sizes of entries are multiples of eight. -/
def maxAlign (n : ℕ) : ℕ := (n + 7) / 8 * 8

/-- An entry of so many uuids and a text is taken. -/
def Btree.takes (btree : Btree) (uuids : ℕ) (s : Text) : Bool :=
  maxAlign (8 + 16 * uuids + btree.stored s) ≤ 2704

/-- The uuids and the text that an INSERT puts into a unique index.  The UPDATEs of the script set no name that
    is not there already. -/
def AOp.entry : AOp → Option (ℕ × Text)
  | .insertTenant name => (Text.ofJs name).map fun s => (0, s)
  | .insertUser username _ _ _ => (Text.ofJs username).map fun s => (0, s)
  | .insertRole _ _ name _ => (Text.ofJs name).map fun s => (1, s)
  | _ => none

/-- An index rejects the statement. -/
def Btree.rejects (btree : Btree) (o : AOp) : Bool := o.entry.any fun x => !btree.takes x.1 x.2

/-- The names of the environment fit. -/
def Btree.Admits (btree : Btree) (env : Env) : Prop :=
  ∀ name ∈ [env.wanted.tenant, env.wanted.adminUsername, env.wanted.approverUsername],
    (Text.ofJs name).all (btree.takes 0) = true

instance (btree : Btree) (env : Env) : Decidable (btree.Admits env) :=
  inferInstanceAs (Decidable (∀ name ∈ [env.wanted.tenant, env.wanted.adminUsername,
    env.wanted.approverUsername], (Text.ofJs name).all (btree.takes 0) = true))

section
variable {btree : Btree}

/-- A text of 2692 bytes fits by itself, whatever it is. -/
theorem Btree.takes_of_le {uuids : ℕ} {s : Text} (h : 16 * uuids + (toUtf8 s.units).length ≤ 2692) :
    btree.takes uuids s = true := by
  have hs := btree.stored_le s
  refine decide_eq_true ?_
  unfold maxAlign
  omega

theorem rejects_of_entry {o : AOp} {uuids : ℕ} {name : JsString}
    (ho : o.entry = (Text.ofJs name).map fun s => (uuids, s))
    (h : (Text.ofJs name).all (btree.takes uuids) = true) : btree.rejects o = false := by
  rw [Btree.rejects, ho]
  cases hn : Text.ofJs name with
  | none => rfl
  | some s =>
    rw [hn, Option.all_some] at h
    simp [h]

theorem takes_role {y : JsString × List JsString} (hy : y ∈ seedRoles) :
    (Text.ofJs y.1).all (btree.takes 1) = true := by
  have hsize : ∀ z ∈ seedRoles, (Text.ofJs z.1).all fun s => decide ((toUtf8 s.units).length ≤ 2676) := by
    decide
  have hy := hsize y hy
  cases hn : Text.ofJs y.1 with
  | none => rfl
  | some s =>
    rw [hn, Option.all_some, decide_eq_true_eq] at hy
    exact Btree.takes_of_le (by omega)

/-! ## The script -/

/-- Every entry that the program inserts fits, whatever others do to the tables. -/
abbrev Fitting (btree : Btree) (bcrypt : Bcrypt) {ρ : Type} (Q : ρ → Prop) (p : Service ρ) (t : Tables) :
    Prop :=
  Async.Safe (AOp.step bcrypt) (fun _ _ => True) (fun o _ _ => btree.rejects o = false) (fun r _ => Q r) p t

variable {bcrypt : Bcrypt} {t : Tables}

theorem fitting_perform {o : AOp} {Q : o.Ans → Prop} (ho : btree.rejects o = false)
    (hQ : ∀ c t x, (o.answer bcrypt c t).1 = .ok x → Q x) : Fitting btree bcrypt Q (perform o) t := by
  refine Async.Safe.call fun t₁ _ c a t₂ ha => ⟨ho, ?_⟩
  rintro x rfl
  exact hQ c t₁ x (congrArg Prod.fst (Option.some.inj ha))

theorem fitting_any {o : AOp} (ho : btree.rejects o = false) :
    Fitting btree bcrypt (fun _ => True) (perform o) t :=
  fitting_perform ho fun _ _ _ _ => trivial

theorem fitting_ensureTenant {name : JsString} (h : (Text.ofJs name).all (btree.takes 0) = true) :
    Fitting btree bcrypt (fun _ => True) (Seed.ensureTenant name) t := by
  refine Async.Safe.bind (Q := fun _ _ => True) (fun tenant t₁ _ => ?_) (fitting_any rfl)
  cases tenant with
  | some tenant => trivial
  | none =>
    refine Async.Safe.bind (Q := fun _ _ => True) (fun _ _ _ => ?_) (fitting_any (rejects_of_entry rfl h))
    trivial

theorem fitting_save {given : Role} (h : (Text.ofJs given.name).all (btree.takes 1) = true) :
    Fitting btree bcrypt (fun _ => True) (Seed.save given) t := by
  refine Async.Safe.bind (Q := fun _ _ => True) (fun loaded t₁ _ => ?_) (fitting_any rfl)
  cases loaded with
  | none =>
    refine Async.Safe.bind (Q := fun _ _ => True) (fun _ _ _ => ?_) (fitting_any (rejects_of_entry rfl h))
    trivial
  | some db =>
    dsimp only
    split_ifs
    · trivial
    · refine Async.Safe.bind (Q := fun _ _ => True) (fun _ _ _ => ?_) (fitting_any rfl)
      trivial

/-- The role that is found has the name that was looked for, so the INSERT of `save` has it too. -/
theorem fitting_ensureRole {y : JsString × List JsString} (hy : y ∈ seedRoles) {tenantId : JsString} :
    Fitting btree bcrypt (fun _ => True) (Seed.ensureRole tenantId y.1 y.2) t := by
  have hname : (Text.ofJs y.1).all (btree.takes 1) = true := takes_role hy
  refine Async.Safe.bind (Q := fun x _ => ∀ role : Role, x = some role → Text.ofJs role.name = Text.ofJs y.1)
    (fun x t₁ hx => ?_) (fitting_perform rfl fun c t₁ x hx role hr => ?_)
  · cases x with
    | none =>
      refine Async.Safe.bind (Q := fun _ _ => True) (fun _ _ _ => ?_)
        (fitting_any (rejects_of_entry rfl hname))
      trivial
    | some role =>
      rw [← hx role rfl] at hname
      dsimp only
      split_ifs
      · trivial
      · exact fitting_save hname
  · subst hr
    obtain ⟨r, -, rfl, -, hn⟩ := Tables.findRole_some (reading_ok hx)
    rw [hn]
    exact Text.ofJs_units r.name

theorem fitting_ensureUser {username password tenantId roleId : JsString}
    (h : (Text.ofJs username).all (btree.takes 0) = true) :
    Fitting btree bcrypt (fun _ => True) (Seed.ensureUser tenantId username password roleId) t := by
  refine Async.Safe.bind (Q := fun _ _ => True) (fun existing t₁ _ => ?_) (fitting_any rfl)
  cases existing with
  | some existing =>
    dsimp only
    split_ifs
    · exact fitting_any rfl
    · trivial
  | none =>
    refine Async.Safe.bind (Q := fun _ _ => True) (fun passwordHash t₂ _ => ?_) (fitting_any rfl)
    refine Async.Safe.bind (Q := fun _ _ => True) (fun _ _ _ => ?_) (fitting_any (rejects_of_entry rfl h))
    trivial

/-- **Every entry of a seed run fits where the names do.** -/
theorem fitting_seed {env : Env} (he : env.Accepted) (hf : btree.Admits env) :
    Fitting btree bcrypt (fun _ => True) (Seed.seed env) t := by
  rw [seed_eq he]
  refine Async.Safe.bind (Q := fun _ _ => True) (fun tenant _ _ => ?_)
    (fitting_ensureTenant (hf _ (by simp)))
  refine Async.Safe.bind (Q := fun _ _ => True) (fun adminRole _ _ => ?_) (fitting_ensureRole adminRole_mem)
  refine Async.Safe.bind (Q := fun _ _ => True) (fun approverRole _ _ => ?_)
    (fitting_ensureRole approverRole_mem)
  refine Async.Safe.bind (Q := fun _ _ => True) (fun _ _ _ => ?_) (fitting_ensureUser (hf _ (by simp)))
  exact fitting_ensureUser (hf _ (by simp))

end

end SystemDesign.Accounts
