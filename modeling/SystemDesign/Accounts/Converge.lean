/-
  Seed runs converge.

  Any number of runs of the seed script with one environment, interleaved in any way, do the stages
  of `seedStages` once each and in order.  So once a run has returned, the tables are those that one
  undisturbed run leaves, and they stay so; and where no run is killed, the run that changed the
  tables last returns, if the names of the environment fit the indexes (`seed_converges`).
-/
import SystemDesign.Accounts.Btree

namespace SystemDesign.Accounts

open Lib

/-! ## How long a run takes -/

/-- The operations of a seed run: two for the tenant, three for each role and each user. -/
def SEED_OPERATIONS : ℕ := 14

theorem within_required (a b : Option JsString) (m : JsString) : (Seed.required a b m).Within 0 := by
  unfold Seed.required
  split
  · split_ifs <;> trivial
  · trivial

theorem within_ensureTenant (name : JsString) : (Seed.ensureTenant name).Within 2 := by
  refine Async.Within.bind (m := 1) (n := 1) (Async.Within.call _) fun tenant => ?_
  cases tenant with
  | some x => trivial
  | none => exact Async.Within.bind (m := 1) (n := 0) (Async.Within.call _) fun _ => trivial

theorem within_save (given : Role) : (Seed.save given).Within 2 := by
  refine Async.Within.bind (m := 1) (n := 1) (Async.Within.call _) fun loaded => ?_
  cases loaded with
  | none => exact Async.Within.bind (m := 1) (n := 0) (Async.Within.call _) fun _ => trivial
  | some db =>
    dsimp only
    split_ifs
    · trivial
    · exact Async.Within.bind (m := 1) (n := 0) (Async.Within.call _) fun _ => trivial

theorem within_ensureRole (tenantId name : JsString) (ps : List JsString) :
    (Seed.ensureRole tenantId name ps).Within 3 := by
  refine Async.Within.bind (m := 1) (n := 2) (Async.Within.call _) fun role => ?_
  cases role with
  | none => exact Async.Within.bind (m := 1) (n := 1) (Async.Within.call _) fun _ => trivial
  | some role =>
    dsimp only
    split_ifs
    · trivial
    · exact within_save _

theorem within_ensureUser (tenantId username password roleId : JsString) :
    (Seed.ensureUser tenantId username password roleId).Within 3 := by
  refine Async.Within.bind (m := 1) (n := 2) (Async.Within.call _) fun existing => ?_
  cases existing with
  | none =>
    refine Async.Within.bind (m := 1) (n := 1) (Async.Within.call _) fun _ => ?_
    exact Async.Within.bind (m := 1) (n := 0) (Async.Within.call _) fun _ => trivial
  | some u =>
    dsimp only
    split_ifs
    · exact (Async.Within.call _).mono (by omega)
    · trivial

/-- **A seed run ends.** -/
theorem within_seed (env : Env) : (Job.seed env).code.Within SEED_OPERATIONS := by
  refine Async.Within.bind (m := 14) (n := 0) ?_ fun _ => trivial
  refine Async.Within.bind (m := 0) (n := 14) (within_required _ _ _) fun admin => ?_
  refine Async.Within.bind (m := 0) (n := 14) (within_required _ _ _) fun approver => ?_
  refine Async.Within.bind (m := 2) (n := 12) (within_ensureTenant _) fun tenant => ?_
  refine Async.Within.bind (m := 3) (n := 9) (within_ensureRole _ _ _) fun adminRole => ?_
  refine Async.Within.bind (m := 3) (n := 6) (within_ensureRole _ _ _) fun approverRole => ?_
  exact Async.Within.bind (m := 3) (n := 3) (within_ensureUser _ _ _ _) fun _ => within_ensureUser _ _ _ _

/-! ## Runs of the system -/

/-- Only seed runs of the environment are started. -/
def Action.seeds (env : Env) : Action → Prop
  | .start job => job = .seed env
  | _ => True

/-- An index rejects what the call awaits. -/
def Call.oversized (btree : Btree) (call : Call) : Bool :=
  match call.prog with
  | .await o _ => btree.rejects o
  | _ => false

/-- No run is killed from outside: what it awaits succeeds, unless an index or the tables reject it. -/
def healthy (btree : Btree) (s : State) : Action → Prop
  | .step i c => if s.calls[i]?.any (Call.oversized btree) then c.outcome = .fail else Good c s.tables
  | _ => True

instance (btree : Btree) (s : State) : ∀ a, Decidable (healthy btree s a)
  | .step i c => inferInstanceAs
      (Decidable (if s.calls[i]?.any (Call.oversized btree) then c.outcome = .fail else Good c s.tables))
  | .start _ | .tick _ => isTrue trivial

instance (env : Env) : ∀ a : Action, Decidable (a.seeds env)
  | .start job => inferInstanceAs (Decidable (job = .seed env))
  | .step _ _ | .tick _ => isTrue trivial

/-- A step of the call `i`. -/
def Action.steps (i : ℕ) : Action → Bool
  | .step j _ => i == j
  | _ => false

/-- The call awaits nothing more. -/
def Call.ended (call : Call) : Prop := ∀ o k, call.prog ≠ .await o k

instance (call : Call) : Decidable call.ended :=
  match h : call.prog with
  | .await o k => isFalse fun he => he o k h
  | .ret _ => isTrue fun o k he => by rw [h] at he; cases he
  | .throw _ => isTrue fun o k he => by rw [h] at he; cases he

/-- What a seed run has done when it returns. -/
def Seeded (bcrypt : Bcrypt) (w : Wanted) (r : Result) (t : Tables) : Prop :=
  r = .seeded ∧ (seedStages bcrypt w).Past 5 t

section
variable {bcrypt : Bcrypt} {btree : Btree} {env : Env}

theorem job_ensures (he : env.Accepted) (hb : bcrypt.Storable) (t : Tables) :
    SeedEnsures bcrypt env.wanted (Seeded bcrypt env.wanted) (Job.seed env).code t := by
  refine Async.Ensures.bind (fun _ t₁ hp => ?_) (seed_ensures he hb t)
  have hret : Seeded bcrypt env.wanted .seeded t₁ := ⟨rfl, hp⟩
  exact ⟨hret, hret⟩

/-- What holds along the runs from `t₀`: stages were done in order, and each call goes on so. -/
structure Seeding (bcrypt : Bcrypt) (w : Wanted) (t₀ : Tables) (s : State) : Prop where
  later : (seedStages bcrypt w).Later t₀ s.tables
  calls : ∀ call ∈ s.calls, SeedLeads bcrypt w (Seeded bcrypt w) (Seeded bcrypt w) call.prog s.tables

theorem Seeded.later {w : Wanted} (r : Result) (t t' : Tables) (h : Seeded bcrypt w r t)
    (ht : (seedStages bcrypt w).Later t t') : Seeded bcrypt w r t' :=
  ⟨h.1, ht.past h.2⟩

/-- **Every step keeps to the stages.** -/
theorem seeding_step (he : env.Accepted) (hb : bcrypt.Storable) {t₀ : Tables} {s s' : State} {a : Action}
    (hs : a.seeds env) (hi : Seeding bcrypt env.wanted t₀ s) (h : step bcrypt s a = some s') :
    Seeding bcrypt env.wanted t₀ s' := by
  cases step_cases h with
  | start ha =>
    obtain rfl := hs
    refine ⟨hi.later, fun call hc => ?_⟩
    rcases List.mem_append.1 hc with hc | hc
    · exact hi.calls call hc
    · obtain rfl := List.mem_singleton.1 hc
      exact (job_ensures he hb s.tables).leads
  | tick => exact ⟨hi.later, hi.calls⟩
  | @step i c call o k a t hcall hp hc ho =>
    have hlead := hi.calls call (List.mem_of_getElem? hcall)
    rw [hp] at hlead
    obtain ⟨ht, -, hrest⟩ := hlead.step (.refl _) (congrArg some ho)
    refine ⟨hi.later.trans ht, fun call' hc' => ?_⟩
    rcases List.mem_or_eq_of_mem_set hc' with hc' | rfl
    · exact (hi.calls call' hc').rely (fun _ _ _ => .trans) Seeded.later ht
    · exact hrest

/-- No index rejects what a call will insert. -/
def AllFitting (btree : Btree) (bcrypt : Bcrypt) (s : State) : Prop :=
  ∀ call ∈ s.calls, Fitting btree bcrypt (fun _ => True) call.prog s.tables

theorem fitting_step (he : env.Accepted) (hf : btree.Admits env) {s s' : State} {a : Action} (hs : a.seeds env)
    (hi : AllFitting btree bcrypt s) (h : step bcrypt s a = some s') : AllFitting btree bcrypt s' := by
  cases step_cases h with
  | start ha =>
    obtain rfl := hs
    intro call hc
    rcases List.mem_append.1 hc with hc | hc
    · exact hi call hc
    · obtain rfl := List.mem_singleton.1 hc
      refine Async.Safe.bind (Q := fun _ _ => True) (fun _ _ _ => ?_) (fitting_seed he hf)
      trivial
  | tick => exact hi
  | @step i c call o k a t hcall hp hc ho =>
    intro call' hc'
    have hfit := hi call (List.mem_of_getElem? hcall)
    rw [hp] at hfit
    rcases List.mem_or_eq_of_mem_set hc' with hc' | rfl
    · exact Async.Safe.rely (fun _ _ _ _ _ => trivial) (fun _ _ _ _ _ => trivial) (hi call' hc') trivial
    · exact (hfit.step trivial (congrArg some ho)).2

/-- So the operations of the runs succeed. -/
theorem AllFitting.good {s : State} (hi : AllFitting btree bcrypt s) {i : ℕ} {c : Choice} {call : Call}
    {o : AOp} {k : Except Thrown o.Ans → Service Result} (hcall : s.calls[i]? = some call)
    (hp : call.prog = .await o k) (hc : healthy btree s (.step i c)) : Good c s.tables := by
  have hfit := hi call (List.mem_of_getElem? hcall)
  rw [hp] at hfit
  obtain ⟨hno, -⟩ := hfit.step (c := c) trivial rfl
  have hov : call.oversized btree = false := by
    rw [Call.oversized, hp]
    exact hno
  simpa [healthy, hcall, hov] using hc

/-- Where no run is killed, there is one that returns if it is left alone. -/
def Alive (bcrypt : Bcrypt) (w : Wanted) (s : State) : Prop :=
  s.calls ≠ [] → ∃ call ∈ s.calls, SeedAlone bcrypt (Seeded bcrypt w) call.prog s.tables

/-- **The run that changed the tables last returns if it is left alone.** -/
theorem alive_step (he : env.Accepted) (hb : bcrypt.Storable) {t₀ : Tables} {s s' : State} {a : Action}
    (hs : a.seeds env) (hc : healthy btree s a) (hf : AllFitting btree bcrypt s)
    (hi : Seeding bcrypt env.wanted t₀ s) (hal : Alive bcrypt env.wanted s)
    (h : step bcrypt s a = some s') : Alive bcrypt env.wanted s' := by
  cases step_cases h with
  | start ha =>
    obtain rfl := hs
    exact fun _ => ⟨_, List.mem_append_right _ (List.mem_singleton_self _), (job_ensures he hb s.tables).alone⟩
  | tick => exact hal
  | @step i c call o k a t hcall hp hnow ho =>
    intro _
    have hgood : Good c s.tables := hf.good hcall hp hc
    have hmem := List.mem_of_getElem? hcall
    have hlt := (List.getElem?_eq_some_iff.1 hcall).1
    have hlead := hi.calls call hmem
    rw [hp] at hlead
    obtain ⟨-, hlast, -⟩ := hlead.step (.refl _) (congrArg some ho)
    by_cases hne : t = s.tables
    · subst hne
      obtain ⟨call', hmem', halone⟩ := hal (List.ne_nil_of_mem hmem)
      obtain ⟨j, hj⟩ := List.mem_iff_getElem?.1 hmem'
      by_cases hij : j = i
      · subst hij
        obtain rfl : call = call' := Option.some.inj (hcall.symm.trans hj)
        rw [hp] at halone
        exact ⟨_, List.mem_set hlt _, halone.step hgood (congrArg some ho)⟩
      · refine ⟨call', List.mem_of_getElem? (i := j) ?_, halone⟩
        exact (List.getElem?_set_ne (Ne.symm hij)).trans hj
    · exact ⟨_, List.mem_set hlt _, hlast hgood hne⟩

theorem run_seeding (he : env.Accepted) (hb : bcrypt.Storable) {t₀ : Tables} {s s' : State}
    {as : List Action} (hs : ∀ a ∈ as, a.seeds env) (hi : Seeding bcrypt env.wanted t₀ s)
    (h : run bcrypt s as = some s') : Seeding bcrypt env.wanted t₀ s' := by
  refine exec_hist (P := fun bs x => (∀ a ∈ bs, a.seeds env) → Seeding bcrypt env.wanted t₀ x)
    (fun _ => hi) (fun bs x a x' _ ih ha hbs => ?_) as s' h hs
  exact seeding_step he hb (hbs a (by simp)) (ih fun b hb => hbs b (by simp [hb])) ha

theorem run_fitting (he : env.Accepted) (hf : btree.Admits env) {s s' : State} {as : List Action}
    (hs : ∀ a ∈ as, a.seeds env) (hi : AllFitting btree bcrypt s) (h : run bcrypt s as = some s') :
    AllFitting btree bcrypt s' := by
  refine exec_hist (P := fun bs x => (∀ a ∈ bs, a.seeds env) → AllFitting btree bcrypt x)
    (fun _ => hi) (fun bs x a x' _ ih ha hbs => ?_) as s' h hs
  exact fitting_step he hf (hbs a (by simp)) (ih fun b hb => hbs b (by simp [hb])) ha

theorem run_alive (he : env.Accepted) (hb : bcrypt.Storable) {t₀ : Tables} {s s' : State}
    {as : List Action} (hs : ∀ a ∈ as, a.seeds env) (hc : Along (step bcrypt) (healthy btree) s as)
    (hadm : btree.Admits env) (hf : AllFitting btree bcrypt s) (hi : Seeding bcrypt env.wanted t₀ s)
    (hal : Alive bcrypt env.wanted s)
    (h : run bcrypt s as = some s') : Alive bcrypt env.wanted s' := by
  refine exec_hist (P := fun bs x => (∀ a ∈ bs, a.seeds env) → Along (step bcrypt) (healthy btree) s bs →
    Alive bcrypt env.wanted x) (fun _ _ => hal) (fun bs x a x' hx ih ha hbs hcs => ?_) as s' h hs hc
  have hbs' : ∀ b ∈ bs, b.seeds env := fun b hb => hbs b (by simp [hb])
  exact alive_step he hb (hbs a (by simp)) (along_last hcs hx) (run_fitting he hadm hbs' hf hx)
    (run_seeding he hb hbs' hi hx) (ih hbs' (along_append_left hcs)) ha

/-- Calls that have not begun took no steps, and the others have some left. -/
def StepsLeft (as : List Action) (s : State) : Prop :=
  ∀ i, (s.calls[i]? = none → as.countP (Action.steps i) = 0) ∧
    ∀ call : Call, s.calls[i]? = some call →
      ∃ n, call.prog.Within n ∧ as.countP (Action.steps i) + n ≤ SEED_OPERATIONS

theorem stepsLeft_step {s s' : State} {as : List Action} {a : Action} (hs : a.seeds env)
    (hi : StepsLeft as s) (h : step bcrypt s a = some s') : StepsLeft (as ++ [a]) s' := by
  intro i
  obtain ⟨hnone, hsome⟩ := hi i
  rw [List.countP_append, List.countP_singleton]
  cases step_cases h with
  | @start job ha =>
    obtain rfl := hs
    refine ⟨fun hn => ?_, fun call hcall => ?_⟩
    · have hn' : s.calls[i]? = none := by
        rw [List.getElem?_eq_none_iff] at hn ⊢
        exact le_trans (by simp) hn
      simp [Action.steps, hnone hn']
    · rcases snoc_cases hcall with ⟨rfl, rfl⟩ | hcall
      · refine ⟨SEED_OPERATIONS, within_seed env, ?_⟩
        simp [Action.steps, hnone (List.getElem?_eq_none le_rfl)]
      · simpa [Action.steps] using hsome call hcall
  | tick => simpa [Action.steps] using hi i
  | @step j c call o k x t hcall hp hc ho =>
    refine ⟨fun hn => ?_, fun call' hcall' => ?_⟩
    · have hn' : s.calls[i]? = none := by
        rw [List.getElem?_eq_none_iff] at hn ⊢
        simpa using hn
      have hij : i ≠ j := fun he => by rw [he, hcall] at hn'; cases hn'
      simp [Action.steps, hnone hn', hij]
    · rcases set_cases hcall' with ⟨rfl, rfl⟩ | ⟨hne, hcall'⟩
      · obtain ⟨n, hw, hle⟩ := hsome call hcall
        rw [hp] at hw
        rcases n with _ | n
        · exact absurd hw id
        · exact ⟨n, hw x, by simp only [Action.steps, beq_self_eq_true, if_true]; omega⟩
      · simpa [Action.steps, hne] using hsome call' hcall'

theorem run_stepsLeft {t₀ : Tables} {now : ℕ} {s : State} {as : List Action}
    (hs : ∀ a ∈ as, a.seeds env) (h : run bcrypt ⟨t₀, [], now⟩ as = some s) : StepsLeft as s := by
  refine exec_hist (P := fun bs x => (∀ a ∈ bs, a.seeds env) → StepsLeft bs x)
    (fun _ i => ⟨fun _ => rfl, fun call h => by cases h⟩) (fun bs x a x' _ ih ha hbs => ?_) as s h hs
  exact stepsLeft_step (hbs a (by simp)) (ih fun b hb => hbs b (by simp [hb])) ha

/-- A run of the system takes at most so many steps of each seed run. -/
theorem StepsLeft.le {s : State} {as : List Action} (h : StepsLeft as s) (i : ℕ) :
    as.countP (Action.steps i) ≤ SEED_OPERATIONS := by
  cases hc : s.calls[i]? with
  | none => rw [(h i).1 hc]; exact Nat.zero_le _
  | some call =>
    obtain ⟨n, -, hle⟩ := (h i).2 call hc
    omega

theorem done_of_past {w : Wanted} {t : Tables} (h : (seedStages bcrypt w).Past 5 t) (j : ℕ) :
    (seedStages bcrypt w).done j t := by
  by_cases hj : j < 5
  · exact h j hj
  · obtain ⟨k, rfl⟩ : ∃ k, j = k + 5 := ⟨j - 5, by omega⟩
    trivial

/-- **Seed runs converge.**  From any tables, with any number of seed runs of one environment: where
    the names fit the indexes, no run is killed and all have ended, one has returned; each ends after a
    bounded number of its steps; and once one has returned, the tables are those that one undisturbed
    run leaves, and no step of a seed run changes them. -/
theorem seed_converges (bcrypt : Bcrypt) (hb : bcrypt.Storable) (btree : Btree) (env : Env)
    (he : env.Accepted) (t₀ : Tables) (now : ℕ) {s : State} {as : List Action} (hs : ∀ a ∈ as, a.seeds env)
    (h : run bcrypt ⟨t₀, [], now⟩ as = some s) :
    (btree.Admits env → Along (step bcrypt) (healthy btree) ⟨t₀, [], now⟩ as → s.calls ≠ [] →
        (∀ call ∈ s.calls, call.ended) → ∃ call ∈ s.calls, call.result = some .seeded) ∧
      (∀ i, as.countP (Action.steps i) ≤ SEED_OPERATIONS) ∧
      ∀ call ∈ s.calls, call.result = some .seeded →
        (∃ cs, Async.run (AOp.step bcrypt) (Seed.seed env) cs t₀ = some (.ok (), s.tables)) ∧
          ∀ bs s', (∀ a ∈ bs, a.seeds env) → run bcrypt s bs = some s' → s'.tables = s.tables := by
  have h0 : Seeding bcrypt env.wanted t₀ ⟨t₀, [], now⟩ := ⟨.refl _, fun _ hc => absurd hc List.not_mem_nil⟩
  have hi := run_seeding he hb hs h0 h
  refine ⟨fun hadm hc hne hend => ?_, (run_stepsLeft hs h).le, fun call hmem hr => ?_⟩
  · obtain ⟨call, hmem, halone⟩ := run_alive he hb hs hc hadm
      (fun _ hc => absurd hc List.not_mem_nil) h0 (fun hne => absurd rfl hne) h hne
    refine ⟨call, hmem, ?_⟩
    cases hp : call.prog with
    | ret r =>
      rw [hp] at halone
      rw [Call.result, hp, halone.1]
    | throw e => rw [hp] at halone; exact halone.elim
    | await o k => exact absurd hp (hend call hmem o k)
  · have hret := hi.calls call hmem
    rw [Call.prog_of_result hr] at hret
    have hpast : (seedStages bcrypt env.wanted).Past 5 s.tables := hret.2
    refine ⟨seed_runs he (hi.later.chain hpast fun j t hj => ?_), fun bs s' hbs h' => ?_⟩
    · obtain ⟨k, rfl⟩ : ∃ k, j = k + 5 := ⟨j - 5, by omega⟩
      trivial
    · have hi' := run_seeding he hb hbs ⟨.refl _, hi.calls⟩ h'
      exact hi'.later.eq (done_of_past hpast)

end

/-! ## Runs on fixed inputs -/

/-- Texts that are not compressed; the header is one byte, or four before a longer text. -/
def sampleBtree : Btree where
  stored s := if (toUtf8 s.units).length ≤ 126 then 1 + (toUtf8 s.units).length else 4 + (toUtf8 s.units).length
  stored_le s := by split_ifs <;> omega

/-- Two seed runs find no role `admin`; both insert it, and the second one fails. -/
def racedRun : List Action :=
  [.start (.seed (sampleEnv none)), .start (.seed (sampleEnv none)), .step 0 (sampleChoice 2),
    .step 1 (sampleChoice 2), .step 0 (sampleChoice 2), .step 1 (sampleChoice 2), .step 1 (sampleChoice 2),
    .step 0 (sampleChoice 3)] ++ (List.range 8).map fun n => .step 1 (sampleChoice (n + 4))

theorem seed_converges_raced :
    ∃ s, run sampleBcrypt ⟨migrated (Uuid.ofNat 1), [], 0⟩ racedRun = some s ∧
      (∃ call ∈ s.calls, call.result = some .seeded) ∧
      ∃ cs, Async.run (AOp.step sampleBcrypt) (Seed.seed (sampleEnv none)) cs (migrated (Uuid.ofNat 1)) =
        some (.ok (), s.tables) := by
  have hrun : (run sampleBcrypt ⟨migrated (Uuid.ofNat 1), [], 0⟩ racedRun).map
      (fun s => decide (s.calls ≠ [] ∧ ∀ call ∈ s.calls, call.ended)) = some true := by decide +kernel
  obtain ⟨s, h, hend⟩ := Option.map_eq_some_iff.1 hrun
  obtain ⟨hne, hend⟩ := of_decide_eq_true hend
  obtain ⟨hone, -, hthen⟩ := seed_converges sampleBcrypt sampleBcrypt_storable sampleBtree (sampleEnv none)
    sampleEnv_accepted (migrated (Uuid.ofNat 1)) 0 (by decide) h
  obtain ⟨call, hmem, hr⟩ := hone (by decide +kernel) (by decide +kernel) hne hend
  exact ⟨s, h, ⟨call, hmem, hr⟩, (hthen call hmem hr).1⟩

/-- A tenant name of 2700 bytes; no three of them repeat, so Postgres does not compress it. -/
def longName : JsString := (List.range 900).map fun n => UInt16.ofNat (0x4E00 + n)

def longEnv : Env := sampleEnv (some longName)

/-- The run finds no tenant, and its INSERT is rejected. -/
def longNameRun : List Action :=
  [.start (.seed longEnv), .step 0 (sampleChoice 2), .step 0 { sampleChoice 2 with outcome := .fail }]

/-- The script accepts the environment; nothing kills its run, which ends and has not returned. -/
theorem not_converges : longEnv.Accepted ∧ (∀ a ∈ longNameRun, a.seeds longEnv) ∧
    Along (step sampleBcrypt) (healthy sampleBtree) ⟨migrated (Uuid.ofNat 1), [], 0⟩ longNameRun ∧
    ∃ s, run sampleBcrypt ⟨migrated (Uuid.ofNat 1), [], 0⟩ longNameRun = some s ∧ s.calls ≠ [] ∧
      (∀ call ∈ s.calls, call.ended) ∧ ¬ ∃ call ∈ s.calls, call.result = some .seeded := by
  have haccepted : longEnv.Accepted := ⟨by decide, by decide +kernel⟩
  have hrun : (run sampleBcrypt ⟨migrated (Uuid.ofNat 1), [], 0⟩ longNameRun).map
      (fun s => decide (s.calls ≠ [] ∧ (∀ call ∈ s.calls, call.ended) ∧
        ¬ ∃ call ∈ s.calls, call.result = some .seeded)) = some true := by decide +kernel
  obtain ⟨s, h, hs⟩ := Option.map_eq_some_iff.1 hrun
  exact ⟨haccepted, by decide +kernel, by decide +kernel, s, h, of_decide_eq_true hs⟩

end SystemDesign.Accounts
