/-
  Users and the tenants of their roles.

  The seed script looks a user up by name alone and gives it the role of the run's tenant where
  it has none, so a user of another tenant can get that role (`not_consistent`).  Along runs
  whose lookups fit, `run_consistent`.
-/
import SystemDesign.Accounts.Secure

namespace SystemDesign.Accounts

open Lib

theorem consistent_migrated (id : Uuid) : Consistent (migrated id) :=
  fun _ h => absurd h List.not_mem_nil

/-- **Users keep to the roles of their tenant**, along runs in which no lookup of a seed run finds
    a user without a role outside of the tenant the run names. -/
theorem run_consistent (bcrypt : Bcrypt) (id : Uuid) {s : State} {as : List Action}
    (h : run bcrypt (init id) as = some s)
    (hc : Along (step bcrypt) (fun s a => fits s a = true) (init id) as) : Consistent s.tables := by
  obtain ⟨-, hev⟩ : AllSecure bcrypt true s ∧ Evolves true (migrated id) s.tables :=
    run_secure h fun _ => hc
  exact hev.consistent rfl (consistent_migrated id)

/-- `alice` is created in the tenant `default`; a seed run for the tenant finds her, gives her the
    first role and creates `bob`. -/
def seededRun : List Action :=
  [.start (.createUser (Uuid.ofNat 1).toText (js "alice") (js "pw1")), .step 0 (sampleChoice 2),
    .step 0 (sampleChoice 2), .start (.seed (sampleEnv none)), .step 1 (sampleChoice 3),
    .step 1 (sampleChoice 3), .step 1 (sampleChoice 4), .step 1 (sampleChoice 4),
    .step 1 (sampleChoice 5), .step 1 (sampleChoice 5), .step 1 (sampleChoice 6),
    .step 1 (sampleChoice 6), .step 1 (sampleChoice 6), .step 1 (sampleChoice 6)]

theorem run_consistent_seeded :
    ∃ s, run sampleBcrypt (init (Uuid.ofNat 1)) seededRun = some s ∧ Consistent s.tables := by
  have hrun : (run sampleBcrypt (init (Uuid.ofNat 1)) seededRun).isSome = true := by decide +kernel
  obtain ⟨s, h⟩ := Option.isSome_iff_exists.1 hrun
  exact ⟨s, h, run_consistent sampleBcrypt (Uuid.ofNat 1) h (by decide +kernel)⟩

/-- `alice` is created in the tenant `default`; a seed run for the tenant `acme` creates it with
    its roles, finds her and gives her the first one. -/
def acmeRun : List Action :=
  [.start (.createUser (Uuid.ofNat 1).toText (js "alice") (js "pw1")), .step 0 (sampleChoice 2),
    .step 0 (sampleChoice 2), .start (.seed (sampleEnv (some (js "acme")))),
    .step 1 (sampleChoice 3), .step 1 (sampleChoice 3), .step 1 (sampleChoice 4),
    .step 1 (sampleChoice 4), .step 1 (sampleChoice 5), .step 1 (sampleChoice 5),
    .step 1 (sampleChoice 6), .step 1 (sampleChoice 6)]

theorem not_consistent :
    ∃ s, run sampleBcrypt (init (Uuid.ofNat 1)) acmeRun = some s ∧ ¬ Consistent s.tables := by
  have hrun : (run sampleBcrypt (init (Uuid.ofNat 1)) acmeRun).map
      (fun s => decide (Consistent s.tables)) = some false := by decide +kernel
  obtain ⟨s, h, hs⟩ := Option.map_eq_some_iff.1 hrun
  exact ⟨s, h, of_decide_eq_false hs⟩

end SystemDesign.Accounts
