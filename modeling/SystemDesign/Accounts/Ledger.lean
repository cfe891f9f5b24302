/-
  Which call inserted a user, and with what password.

  A user is inserted by `UsersService.create` or by the seed script, and is never deleted; of its row
  only the role changes.  So each user of a state that a run reaches was inserted by exactly one step
  of the run, and its hash is one of the password that was given for it (`run_ledger`).
-/
import SystemDesign.Accounts.SeedRun

namespace SystemDesign.Accounts

open Lib

/-! ## Users in the tables -/

/-- There is a user of the name. -/
def Tables.Has (t : Tables) (n : Text) : Prop := ∃ u ∈ t.users, u.username = n

/-- The users stay; of their rows only the role may change. -/
def UsersKept (t t' : Tables) : Prop := ∀ u ∈ t.users, ∃ id, { u with roleId := id } ∈ t'.users

/-- Each user was there before, but for its role. -/
def NoneNew (t t' : Tables) : Prop := ∀ u ∈ t'.users, ∃ id, { u with roleId := id } ∈ t.users

section
variable {bcrypt : Bcrypt} {t t' t'' : Tables} {n : Text}

theorem UsersKept.refl (t : Tables) : UsersKept t t := fun u hu => ⟨u.roleId, hu⟩

theorem UsersKept.trans (h : UsersKept t t') (h' : UsersKept t' t'') : UsersKept t t'' := by
  intro u hu
  obtain ⟨id, hid⟩ := h u hu
  obtain ⟨id', hid'⟩ := h' _ hid
  exact ⟨id', hid'⟩

theorem Tables.Has.kept (h : t.Has n) (hk : UsersKept t t') : t'.Has n := by
  obtain ⟨u, hu, rfl⟩ := h
  obtain ⟨id, hid⟩ := hk u hu
  exact ⟨_, hid, rfl⟩

theorem kept_of_eq (h : t'.users = t.users) : UsersKept t t' ∧ NoneNew t t' :=
  ⟨fun u hu => ⟨u.roleId, h ▸ hu⟩, fun u hu => ⟨u.roleId, h ▸ hu⟩⟩

theorem assignRole_kept {id roleId : JsString} (h : t.assignRole id roleId = some t') :
    UsersKept t t' ∧ NoneNew t t' := by
  obtain ⟨x, r, -, -, hus, -, -⟩ := assignRole_rows h
  constructor
  · intro u hu
    rw [hus]
    exact mem_assign hu x r
  · intro u hu
    obtain ⟨v, hv, rfl⟩ := List.mem_map.1 (hus ▸ hu)
    by_cases hid : v.id = x
    · rw [if_pos hid]
      exact ⟨v.roleId, hv⟩
    · rw [if_neg hid]
      exact ⟨v.roleId, hv⟩

/-- An INSERT of a user. -/
def AOp.inserts : AOp → Bool
  | .insertUser _ _ _ _ => true
  | _ => false

/-- **Only the INSERT of a user makes one.** -/
theorem answer_kept {o : AOp} (ho : o.inserts = false) {c : Choice} {a : Except Thrown o.Ans}
    (h : o.answer bcrypt c t = (a, t')) : UsersKept t t' ∧ NoneNew t t' := by
  cases o with
  | insertUser => cases ho
  | insertTenant =>
    rcases writing_cases h with rfl | hw
    · exact kept_of_eq rfl
    · obtain ⟨-, -, -, hus, -⟩ := insertTenant_rows hw
      exact kept_of_eq hus
  | insertRole id =>
    rcases writing_cases h with rfl | hw
    · exact kept_of_eq rfl
    · obtain ⟨u, -, hw⟩ := Option.bind_eq_some_iff.1 hw
      obtain ⟨-, -, -, -, -, -, -, -, hus⟩ := insertRole_rows hw
      exact kept_of_eq hus
  | updateRole =>
    rcases writing_cases h with rfl | hw
    · exact kept_of_eq rfl
    · obtain ⟨-, -, -, -, -, -, hus⟩ := updateRole_rows hw
      exact kept_of_eq hus
  | assignRole =>
    rcases writing_cases h with rfl | hw
    · exact kept_of_eq rfl
    · exact assignRole_kept hw
  | _ =>
    cases h
    exact kept_of_eq rfl

end

/-! ## The passwords given -/

/-- The users that a call may insert, each with the password given for it. -/
def Job.accounts : Job → List (JsString × JsString)
  | .createUser _ username password => [(username, password)]
  | .seed env =>
    [(env.wanted.adminUsername, env.wanted.adminPassword),
      (env.wanted.approverUsername, env.wanted.approverPassword)]
  | _ => []

/-- The password given for the name; of two users of one name only the first is inserted. -/
def Job.password (job : Job) (n : Text) : Option JsString :=
  (job.accounts.find? fun a => Text.ofJs a.1 == some n).map (·.2)

/-- A user is inserted with a hash of the password given for its name, or there is one of the name. -/
def Hashed (bcrypt : Bcrypt) (job : Job) : AOp → Tables → Prop
  | .insertUser username passwordHash _ _, t => ∀ n, Text.ofJs username = some n →
    t.Has n ∨ ∃ p salt, job.password n = some p ∧ passwordHash = bcrypt.hash p SALT_ROUNDS salt
  | _, _ => True

abbrev Hashes (bcrypt : Bcrypt) (job : Job) {ρ : Type} (Q : ρ → Tables → Prop) (code : Service ρ)
    (t : Tables) : Prop :=
  Async.Safe (AOp.step bcrypt) UsersKept (fun o t _ => Hashed bcrypt job o t) Q code t

section
variable {bcrypt : Bcrypt} {job : Job} {t : Tables} {ρ : Type}

theorem hashed_of_inserts {o : AOp} (ho : o.inserts = false) (t : Tables) : Hashed bcrypt job o t := by
  cases o with
  | insertUser => cases ho
  | _ => trivial

/-- Awaiting an operation that makes no user. -/
theorem hashes_perform {o : AOp} (ho : o.inserts = false) {Q : o.Ans → Tables → Prop}
    (h : ∀ t₁, UsersKept t t₁ → ∀ c x t₂, o.answer bcrypt c t₁ = (.ok x, t₂) → Q x t₂) :
    Hashes bcrypt job Q (perform o) t := by
  refine Async.Safe.call fun t₁ ht c a t₂ ha => ⟨hashed_of_inserts ho t₁, ?_⟩
  rintro x rfl
  exact h t₁ ht c x t₂ (Option.some.inj ha)

/-- A program that makes no user. -/
theorem hashes_of_only {p : Service ρ} (h : p.Only fun o => o.inserts = false) (t : Tables) :
    Hashes bcrypt job (fun _ _ => True) p t :=
  Async.Safe.of_only (fun _ ho t _ _ _ _ => hashed_of_inserts ho t) h t

/-! ## Programs that make no user -/

theorem only_perform {o : AOp} (ho : o.inserts = false) : (perform o).Only fun o => o.inserts = false :=
  Async.Only.call ho

/-- What login may await. -/
theorem login_only {P : AOp → Prop} {username password : JsString} (hf : P (.findUser username))
    (hc : ∀ stored, P (.compare password stored)) (hs : ∀ sub name tenantId, P (.sign sub name tenantId)) :
    (login username password).Only P := by
  refine Async.Only.bind (Async.Only.call hf) fun user => ?_
  refine Async.Only.bind ?_ fun matched => ?_
  · cases user with
    | none => exact Async.Only.bind (Async.Only.call (hc _)) fun _ => trivial
    | some user => exact Async.Only.call (hc _)
  · cases user with
    | none => trivial
    | some user =>
      dsimp only
      split_ifs
      · exact Async.Only.call (hs _ _ _)
      · trivial

theorem only_guarded (tok : Token) (handler cls : Option JsString) :
    (guarded tok handler cls).Only fun o => o.inserts = false := by
  unfold guarded
  split
  · trivial
  unfold canActivate
  split
  · trivial
  split_ifs
  · trivial
  split
  · trivial
  split_ifs
  · trivial
  refine Async.Only.bind (only_perform rfl) fun user => ?_
  unfold checkRole
  split
  · trivial
  split_ifs
  · trivial
  refine Async.Only.bind (only_perform rfl) fun role => ?_
  unfold checkPermission
  split
  · trivial
  split_ifs <;> trivial

theorem only_ensureTenant (name : JsString) :
    (Seed.ensureTenant name).Only fun o => o.inserts = false := by
  refine Async.Only.bind (only_perform rfl) fun tenant => ?_
  cases tenant with
  | none => exact Async.Only.bind (only_perform rfl) fun _ => trivial
  | some tenant => trivial

theorem only_ensureRole (tenantId name : JsString) (permissions : List JsString) :
    (Seed.ensureRole tenantId name permissions).Only fun o => o.inserts = false := by
  refine Async.Only.bind (only_perform rfl) fun role => ?_
  cases role with
  | none => exact Async.Only.bind (only_perform rfl) fun _ => trivial
  | some role =>
    dsimp only
    split_ifs
    · trivial
    · refine Async.Only.bind (only_perform rfl) fun loaded => ?_
      cases loaded with
      | none => exact Async.Only.bind (only_perform rfl) fun _ => trivial
      | some db =>
        dsimp only
        split_ifs
        · trivial
        · exact Async.Only.bind (only_perform rfl) fun _ => trivial

/-! ## Programs that make users -/

/-- There is a user of the name, if the name is a text. -/
def Named (username : JsString) (t : Tables) : Prop := ∀ n, Text.ofJs username = some n → t.Has n

theorem hash_hashes (password : JsString) :
    Hashes bcrypt job (fun h t₁ => UsersKept t t₁ ∧ ∃ salt, h = bcrypt.hash password SALT_ROUNDS salt)
      (perform (.hash password SALT_ROUNDS)) t := by
  refine hashes_perform rfl fun t₁ ht c x t₂ ha => ?_
  obtain ⟨hx, rfl⟩ := Prod.mk.inj ha
  exact ⟨ht, c.salt, (Option.some.inj (reading_ok hx)).symm⟩

theorem insert_hashes {username passwordHash tenantId : JsString} {roleId : Option JsString}
    (h : Hashed bcrypt job (.insertUser username passwordHash tenantId roleId) t) :
    Hashes bcrypt job (fun _ => Named username)
      (perform (.insertUser username passwordHash tenantId roleId)) t := by
  refine Async.Safe.call fun t₁ ht c a t₂ ha => ⟨fun n hn => (h n hn).imp_left fun h => h.kept ht, ?_⟩
  rintro x rfl n hn
  obtain ⟨-, hw⟩ := writing_ok (Option.some.inj ha)
  obtain ⟨n', p, x, r, hn', -, -, -, hus, -, -⟩ := insertUser_rows hw
  exact ⟨_, hus ▸ List.mem_cons_self, Option.some.inj (hn'.symm.trans hn)⟩

theorem create_hashes (tenantId username password : JsString) :
    Hashes bcrypt (.createUser tenantId username password) (fun _ _ => True)
      (UsersService.create tenantId username password) t := by
  refine Async.Safe.bind (fun h t₁ hh => ?_) (hash_hashes password)
  obtain ⟨-, salt, rfl⟩ := hh
  refine Async.Safe.bind (fun id t₂ _ => ?_) (insert_hashes fun n hn => Or.inr ⟨password, salt, ?_, rfl⟩)
  · trivial
  · simp [Job.password, Job.accounts, hn]

/-- **`ensureUser` with the password given for the name**, or where there is a user of the name. -/
theorem ensureUser_hashes {tenantId username password roleId : JsString}
    (hp : ∀ n, Text.ofJs username = some n → t.Has n ∨ job.password n = some password) :
    Hashes bcrypt job (fun _ => Named username) (Seed.ensureUser tenantId username password roleId) t := by
  have found : Hashes bcrypt job
      (fun x t₁ => UsersKept t t₁ ∧ ∀ user, x = some user → Named username t₁)
      (perform (.findUser username)) t := by
    refine hashes_perform rfl fun t₁ ht c x t₂ ha => ?_
    obtain ⟨hx, rfl⟩ := Prod.mk.inj ha
    refine ⟨ht, ?_⟩
    rintro user rfl n hn
    obtain ⟨u, hu, -, hun⟩ := Tables.findUser_some (reading_ok hx)
    exact ⟨u, hu, Option.some.inj (hun.symm.trans hn)⟩
  refine Async.Safe.bind (fun x t₁ hx => ?_) found
  obtain ⟨ht₁, hx⟩ := hx
  cases x with
  | none =>
    refine Async.Safe.bind (fun h t₂ hh => ?_) (hash_hashes password)
    obtain ⟨ht₂, salt, rfl⟩ := hh
    refine Async.Safe.bind (fun _ _ h => h) (insert_hashes fun n hn => ?_)
    exact (hp n hn).imp (fun h => (h.kept ht₁).kept ht₂) fun h => ⟨password, salt, h, rfl⟩
  | some user =>
    dsimp only
    split_ifs
    · refine hashes_perform rfl fun t₂ ht₂ c y t₃ ha n hn => ?_
      exact ((hx user rfl n hn).kept ht₂).kept (answer_kept rfl ha).1
    · exact hx user rfl

theorem required_cases (a b : Option JsString) (m : JsString) :
    (∃ e, Seed.required a b m = .throw e) ∨ Seed.required a b m = .ret (a.getD [], b.getD []) := by
  unfold Seed.required
  split
  · split_ifs
    · exact Or.inl ⟨_, rfl⟩
    · exact Or.inr rfl
  · exact Or.inl ⟨_, rfl⟩

theorem seed_hashes (env : Env) :
    Hashes bcrypt (.seed env) (fun _ _ => True) (Seed.seed env) t := by
  unfold Seed.seed
  rcases required_cases env.ADMIN_USERNAME env.ADMIN_PASSWORD
    (js "ADMIN_USERNAME and ADMIN_PASSWORD must be set to seed the requester user") with ⟨e, h⟩ | h
  · rw [h]
    trivial
  rw [h, Async.ret_bind]
  rcases required_cases env.APPROVER_USERNAME env.APPROVER_PASSWORD
    (js "APPROVER_USERNAME and APPROVER_PASSWORD must be set to seed the approver user") with ⟨e, h'⟩ | h'
  · rw [h']
    trivial
  rw [h', Async.ret_bind]
  refine Async.Safe.bind (fun tenant t₁ _ => ?_) (hashes_of_only (only_ensureTenant _) t)
  refine Async.Safe.bind (fun adminRole t₂ _ => ?_) (hashes_of_only (only_ensureRole _ _ _) t₁)
  refine Async.Safe.bind (fun approverRole t₃ _ => ?_) (hashes_of_only (only_ensureRole _ _ _) t₂)
  refine Async.Safe.bind (Q := fun _ => Named (env.ADMIN_USERNAME.getD [])) (fun _ t₄ hadmin => ?_)
    (ensureUser_hashes fun n hn => Or.inr ?_)
  · refine Async.Safe.conseq (fun _ _ _ => trivial) (ensureUser_hashes fun n hn => ?_)
    -- where the names are one, the first user is there
    by_cases he : Text.ofJs (env.ADMIN_USERNAME.getD []) = some n
    · exact Or.inl (hadmin n he)
    · right
      simp [Job.password, Job.accounts, Env.wanted, he, hn]
  · simp [Job.password, Job.accounts, Env.wanted, hn]

/-- **Every job hashes the password given.** -/
theorem job_hashes (job : Job) (t : Tables) : Hashes bcrypt job (fun _ _ => True) job.code t := by
  cases job with
  | createUser tenantId username password =>
    refine Async.Safe.bind (fun x t _ => ?_) (create_hashes tenantId username password)
    trivial
  | createRole tenantId name ps =>
    refine hashes_of_only (Async.Only.bind (Async.Only.bind (only_perform rfl) fun id => ?_) fun x => ?_) t
    · trivial
    · trivial
  | seed env =>
    refine Async.Safe.bind (fun x t _ => ?_) (seed_hashes env)
    trivial
  | login username password =>
    have honly : (login username password).Only fun o => o.inserts = false :=
      login_only rfl (fun _ => rfl) fun _ _ _ => rfl
    refine hashes_of_only (Async.Only.bind honly fun tok => ?_) t
    trivial
  | request tok handler cls =>
    refine hashes_of_only (Async.Only.bind (only_guarded tok handler cls) fun x => ?_) t
    trivial

end

/-! ## Runs -/

section
variable {bcrypt : Bcrypt} {s₀ s s' : State} {as bs before : List Action} {n : Text} {job : Job}

/-- Every operation keeps the users. -/
theorem answer_keeps {o : AOp} {c : Choice} {t t' : Tables} {a : Except Thrown o.Ans}
    (h : o.answer bcrypt c t = (a, t')) : UsersKept t t' := by
  by_cases ho : o.inserts = false
  · exact (answer_kept ho h).1
  · cases o with
    | insertUser =>
      rcases writing_cases h with rfl | hw
      · exact .refl _
      · obtain ⟨_, _, _, _, -, -, -, -, hus, -, -⟩ := insertUser_rows hw
        exact fun v hv => ⟨v.roleId, hus ▸ List.mem_cons_of_mem _ hv⟩
    | _ => exact absurd rfl ho

theorem step_keeps {a : Action} (h : step bcrypt s a = some s') : UsersKept s.tables s'.tables := by
  cases step_cases h with
  | start => exact .refl _
  | step hi hp hc ho => exact answer_keeps ho
  | tick => exact .refl _

theorem run_keeps (h : run bcrypt s as = some s') : UsersKept s.tables s'.tables :=
  exec_rel (R := fun s s' : State => UsersKept s.tables s'.tables) (fun s => .refl s.tables)
    (fun _ _ _ => .trans) (fun _ _ _ h => step_keeps h) h

/-- After the actions `before`, the next action of the run is a step of a call of the job, and it
    inserts the user of the name. -/
inductive Inserts (bcrypt : Bcrypt) (s₀ : State) (as before : List Action) (n : Text) : Job → Prop
  | step {i c after s₁ s₂ call} (he : as = before ++ .step i c :: after)
    (h₁ : run bcrypt s₀ before = some s₁) (hi : s₁.calls[i]? = some call)
    (h₂ : step bcrypt s₁ (.step i c) = some s₂) (hno : ¬ s₁.tables.Has n) (hyes : s₂.tables.Has n) :
    Inserts bcrypt s₀ as before n call.job

theorem Inserts.extend (h : Inserts bcrypt s₀ as before n job) : Inserts bcrypt s₀ (as ++ bs) before n job := by
  obtain @⟨i, c, after, s₁, s₂, call, rfl, h₁, hi, h₂, hno, hyes⟩ := h
  exact .step (List.append_assoc _ _ bs) h₁ hi h₂ hno hyes

/-- A name that was inserted is not inserted again. -/
theorem Inserts.not_later {cs : List Action} {a : Action} {job' : Job} (h : Inserts bcrypt s₀ as before n job) :
    ¬ Inserts bcrypt s₀ as (before ++ a :: cs) n job' := by
  intro h'
  obtain @⟨i, c, after, s₁, s₂, call, rfl, h₁, hi, h₂, hno, hyes⟩ := h
  obtain @⟨i', c', after', s₁', s₂', call', he', h₁', hi', h₂', hno', hyes'⟩ := h'
  rw [List.append_assoc, List.append_cancel_left_eq, List.cons_append, List.cons.injEq] at he'
  obtain ⟨rfl, -⟩ := he'
  obtain ⟨x, hx, hrest⟩ := exec_append_iff.1 h₁'
  obtain rfl : s₁ = x := Option.some.inj (h₁.symm.trans hx)
  rw [exec_cons, h₂, Option.bind_some] at hrest
  exact hno' (hyes.kept (run_keeps hrest))

theorem Inserts.prefix (h : Inserts bcrypt s₀ as before n job) : before <+: as := by
  obtain ⟨he⟩ := h
  exact ⟨_, he.symm⟩

/-- **A user is inserted once**, by one call. -/
theorem Inserts.unique {before' : List Action} {job' : Job} (h : Inserts bcrypt s₀ as before n job)
    (h' : Inserts bcrypt s₀ as before' n job') : before = before' ∧ job = job' := by
  have hpre : before = before' := by
    rcases List.prefix_or_prefix_of_prefix h.prefix h'.prefix with ⟨cs, rfl⟩ | ⟨cs, rfl⟩
    · cases cs with
      | nil => exact (List.append_nil before).symm
      | cons a cs => exact absurd h' h.not_later
    · cases cs with
      | nil => exact List.append_nil before'
      | cons a cs => exact absurd h h'.not_later
  subst hpre
  obtain @⟨i, c, after, s₁, s₂, call, rfl, h₁, hi, h₂, hno, hyes⟩ := h
  obtain @⟨i', c', after', s₁', s₂', call', he', h₁', hi', h₂', hno', hyes'⟩ := h'
  obtain rfl : s₁ = s₁' := Option.some.inj (h₁.symm.trans h₁')
  rw [List.append_cancel_left_eq, List.cons.injEq, Action.step.injEq] at he'
  obtain ⟨⟨rfl, -⟩, -⟩ := he'
  rw [Option.some.inj (hi.symm.trans hi')]
  exact ⟨rfl, rfl⟩

/-- The row of a user has a hash of the password that was given where it was inserted. -/
def Recorded (bcrypt : Bcrypt) (s₀ : State) (as : List Action) (u : UserRow) : Prop :=
  ∃ before job p salt, Inserts bcrypt s₀ as before u.username job ∧ job.password u.username = some p ∧
    Text.ofJs (bcrypt.hash p SALT_ROUNDS salt) = some u.passwordHash

/-- Each call hashes the password given, and each user is recorded. -/
structure Ledger (bcrypt : Bcrypt) (s₀ : State) (as : List Action) (s : State) : Prop where
  calls : ∀ call ∈ s.calls, Hashes bcrypt call.job (fun _ _ => True) call.prog s.tables
  users : ∀ u ∈ s.tables.users, Recorded bcrypt s₀ as u

/-- A user of the tables after an operation is as before, or this operation inserted it. -/
theorem answer_users {o : AOp} {c : Choice} {t t' : Tables} {a : Except Thrown o.Ans}
    (h : o.answer bcrypt c t = (a, t')) (hh : Hashed bcrypt job o t) {u : UserRow} (hu : u ∈ t'.users) :
    (∃ id, { u with roleId := id } ∈ t.users) ∨ ¬ t.Has u.username ∧ ∃ p salt,
      job.password u.username = some p ∧ Text.ofJs (bcrypt.hash p SALT_ROUNDS salt) = some u.passwordHash := by
  by_cases ho : o.inserts = false
  · exact Or.inl ((answer_kept ho h).2 u hu)
  · cases o with
    | insertUser username passwordHash tenantId roleId =>
      rcases writing_cases h with rfl | hw
      · exact Or.inl ⟨u.roleId, hu⟩
      · obtain ⟨n, p, x, r, hn, hp, -, -, hus, -, -⟩ := insertUser_rows hw
        rw [hus] at hu
        rcases List.mem_cons.1 hu with rfl | hu
        · -- the name is new, by the unique column
          have hno : ¬ t.Has n := by
            rintro ⟨v, hv, he⟩
            have hnd := t'.valid.usernames
            rw [hus] at hnd
            exact (List.nodup_cons.1 hnd).1 (List.mem_map.2 ⟨v, hv, he⟩)
          obtain ⟨q, salt, hpw, rfl⟩ := (hh _ hn).resolve_left hno
          exact Or.inr ⟨hno, q, salt, hpw, hp⟩
        · exact Or.inl ⟨u.roleId, hu⟩
    | _ => exact absurd rfl ho

/-- **The step lemma.** -/
theorem ledger_step {a : Action} (hrun : run bcrypt s₀ as = some s) (h : Ledger bcrypt s₀ as s)
    (ha : step bcrypt s a = some s') : Ledger bcrypt s₀ (as ++ [a]) s' := by
  have old : ∀ {u : UserRow}, (∃ id, { u with roleId := id } ∈ s.tables.users) →
      Recorded bcrypt s₀ (as ++ [a]) u := by
    rintro u ⟨id, hid⟩
    obtain ⟨before, job, p, salt, hins, hp⟩ := h.users _ hid
    exact ⟨before, job, p, salt, hins.extend, hp⟩
  have ha' := ha
  cases step_cases ha with
  | @start job hadm =>
    refine ⟨fun call hc => ?_, fun u hu => old ⟨u.roleId, hu⟩⟩
    rcases List.mem_append.1 hc with hc | hc
    · exact h.calls call hc
    · rw [List.mem_singleton.1 hc]
      exact job_hashes job s.tables
  | @step i c call o k a t hi hp hc ho =>
    have hsafe := h.calls call (List.mem_of_getElem? hi)
    rw [hp] at hsafe
    obtain ⟨hh, hrest⟩ := hsafe.step (.refl _) (congrArg some ho)
    have hkept : UsersKept s.tables t := answer_keeps ho
    refine ⟨fun call' hc' => ?_, fun u hu => ?_⟩
    · rcases List.mem_or_eq_of_mem_set hc' with hc' | rfl
      · exact (h.calls call' hc').rely (fun _ _ _ => .trans) (fun _ _ _ hq _ => hq) hkept
      · exact hrest
    · rcases answer_users ho hh hu with hold | ⟨hno, p, salt, hpw, hhash⟩
      · exact old hold
      · exact ⟨as, call.job, p, salt, .step rfl hrun hi ha' hno ⟨u, hu, rfl⟩, hpw, hhash⟩
  | tick => exact ⟨h.calls, fun u hu => old ⟨u.roleId, hu⟩⟩

/-- **Every user of a reachable state is recorded.** -/
theorem run_ledger {id : Uuid} (h : run bcrypt (init id) as = some s) : Ledger bcrypt (init id) as s := by
  refine exec_hist (P := Ledger bcrypt (init id)) ?_ (fun _ _ _ _ hrun hl ha => ledger_step hrun hl ha) as s h
  exact ⟨fun call hc => absurd hc List.not_mem_nil, fun u hu => absurd hu List.not_mem_nil⟩

end

end SystemDesign.Accounts
