/-
  Services that start when what they depend on has come about.

  A dependency names a service and a condition on it: it was started, it is healthy, or it has completed.
  A service is started only while all its conditions are met; afterwards they may cease to be.  The
  services may be part of a larger system, each step of which is one of theirs or leaves them.

  `Requires`: what a service depends on, directly or through others;
  `met_before`: of a service that was started, every requirement was met at some time before.
-/
import SystemDesign.Lib.Run

namespace Lib.Startup

inductive Condition where
  | started
  | healthy
  | completed
deriving DecidableEq

inductive Status where
  | created
  | running (healthy : Bool)
  | exited (code : ℕ)
deriving DecidableEq

def Status.meets : Condition → Status → Bool
  | .started, .created => false
  | .started, _ => true
  | .healthy, .running true => true
  | .completed, .exited 0 => true
  | _, _ => false

inductive Event (ι : Type) where
  | start (i : ι)
  /-- A check of the health of a service. -/
  | probe (i : ι) (healthy : Bool)
  | exit (i : ι) (code : ℕ)

section
variable {ι : Type} [DecidableEq ι] (deps : ι → List (ι × Condition))

/-- **One step**; `none` where the event is not possible. -/
def step (s : ι → Status) : Event ι → Option (ι → Status)
  | .start i => match s i with
    | .running _ => none
    | _ =>
      if (deps i).all fun d => (s d.1).meets d.2 then some (Function.update s i (.running false)) else none
  | .probe i healthy => match s i with
    | .running _ => some (Function.update s i (.running healthy))
    | _ => none
  | .exit i code => match s i with
    | .running _ => some (Function.update s i (.exited code))
    | _ => none

/-- What a service depends on, directly or through others. -/
inductive Requires : ι → ι × Condition → Prop
  | direct {i d} (h : d ∈ deps i) : Requires i d
  | through {i j c d} (h : (j, c) ∈ deps i) (hr : Requires j d) : Requires i d

variable {deps} {s s' : ι → Status}

/-- What meets a condition was started. -/
theorem Status.started_of_meets {c : Condition} {x : Status} (h : x.meets c = true) :
    x.meets .started = true := by
  cases x with
  | created => cases c <;> cases h
  | running | exited => rfl

/-- What a step can do. -/
inductive Step (deps : ι → List (ι × Condition)) (s : ι → Status) : Event ι → (ι → Status) → Prop
  | start {i} (hall : ∀ d ∈ deps i, (s d.1).meets d.2 = true) :
    Step deps s (.start i) (Function.update s i (.running false))
  | probe {i b healthy} (hi : s i = .running b) :
    Step deps s (.probe i healthy) (Function.update s i (.running healthy))
  | exit {i b code} (hi : s i = .running b) : Step deps s (.exit i code) (Function.update s i (.exited code))

/-- **Inversion of a step.** -/
theorem step_cases {e : Event ι} (h : step deps s e = some s') : Step deps s e s' := by
  cases e with
  | start i =>
    simp only [step] at h
    split at h
    · cases h
    · split_ifs at h with hall
      obtain rfl := Option.some.inj h
      exact .start fun d hd => List.all_eq_true.1 hall d hd
  | probe i healthy =>
    simp only [step] at h
    split at h
    · obtain rfl := Option.some.inj h
      exact .probe ‹_›
    · cases h
  | exit i code =>
    simp only [step] at h
    split at h
    · obtain rfl := Option.some.inj h
      exact .exit ‹_›
    · cases h

/-- A service that was started meanwhile had its conditions met. -/
theorem step_started {e : Event ι} (h : step deps s e = some s') {i : ι}
    (hi : (s' i).meets .started = true) :
    (s i).meets .started = true ∨ ∀ d ∈ deps i, (s d.1).meets d.2 = true := by
  cases step_cases h with
  | @start j hall =>
    by_cases he : i = j
    · rw [he]
      exact Or.inr hall
    · rw [Function.update_of_ne he] at hi
      exact Or.inl hi
  | @probe j _ _ hj | @exit j _ _ hj =>
    by_cases he : i = j
    · rw [he, hj]
      exact Or.inl rfl
    · rw [Function.update_of_ne he] at hi
      exact Or.inl hi

/-- A service has exited before, or exits now. -/
theorem step_exited {e : Event ι} (h : step deps s e = some s') {i : ι} {code : ℕ} (hi : s' i = .exited code) :
    s i = .exited code ∨ e = .exit i code := by
  cases step_cases h with
  | @start j | @probe j =>
    by_cases he : i = j
    · rw [he, Function.update_self] at hi
      cases hi
    · rw [Function.update_of_ne he] at hi
      exact Or.inl hi
  | @exit j _ code' =>
    by_cases he : i = j
    · rw [he, Function.update_self] at hi
      exact Or.inr (by rw [he, Status.exited.inj hi])
    · rw [Function.update_of_ne he] at hi
      exact Or.inl hi

/-- What a service exits with is its status. -/
theorem step_exit {i : ι} {code : ℕ} (h : step deps s (.exit i code) = some s') : s' i = .exited code := by
  cases step_cases h with
  | exit => exact Function.update_self i _ s

end

/-! ## Services in a larger system -/

section
variable {ι σ α : Type} {services : σ → ι → Status} {sys : σ → α → Option σ} {s₀ s : σ} {as : List α}

/-- At some time the service met the condition. -/
def Met (services : σ → ι → Status) (sys : σ → α → Option σ) (s₀ s : σ) (d : ι × Condition) : Prop :=
  ∃ as₁ as₂ s₁, exec sys s₀ as₁ = some s₁ ∧ exec sys s₁ as₂ = some s ∧ (services s₁ d.1).meets d.2 = true

/-- What was met stays so. -/
theorem Met.step {d : ι × Condition} {s' : σ} {a : α} (h : Met services sys s₀ s d) (ha : sys s a = some s') :
    Met services sys s₀ s' d := by
  obtain ⟨as₁, as₂, s₁, h1, h2, hm⟩ := h
  exact ⟨as₁, as₂ ++ [a], s₁, h1, exec_snoc_iff.2 ⟨s, h2, ha⟩, hm⟩

variable [DecidableEq ι] {deps : ι → List (ι × Condition)}
  (hsys : ∀ s a s', sys s a = some s' →
  services s' = services s ∨ ∃ e, step deps (services s) e = some (services s'))
  (h0 : ∀ i, services s₀ i = .created)
include hsys h0

/-- The conditions of a service that was started. -/
theorem direct_met (h : exec sys s₀ as = some s) {i : ι} (hi : (services s i).meets .started = true)
    {d : ι × Condition} (hd : d ∈ deps i) : Met services sys s₀ s d := by
  refine exec_hist (P := fun _ s => ∀ i, (services s i).meets .started = true →
    ∀ d ∈ deps i, Met services sys s₀ s d) ?_ ?_ as s h i hi d hd
  · intro i hi
    rw [h0] at hi
    cases hi
  · intro as s a s' hrun ih ha i hi d hd
    have hold : (services s i).meets .started = true → Met services sys s₀ s' d := fun hi =>
      (ih i hi d hd).step ha
    rcases hsys s a s' ha with he | ⟨e, he⟩
    · rw [he] at hi
      exact hold hi
    · rcases step_started he hi with hi | hall
      · exact hold hi
      · have hlast : exec sys s [a] = some s' := by rw [exec_cons, ha, Option.bind_some, exec_nil]
        exact ⟨as, [a], s, hrun, hlast, hall d hd⟩

/-- **Every requirement of a service that was started was met before.** -/
theorem met_before (h : exec sys s₀ as = some s) {i : ι} (hi : (services s i).meets .started = true)
    {d : ι × Condition} (hd : Requires deps i d) : Met services sys s₀ s d := by
  induction hd generalizing as s with
  | direct hd => exact direct_met hsys h0 h hi hd
  | through hj _ ih =>
    obtain ⟨as₁, as₂, s₁, h1, h2, hm⟩ := direct_met hsys h0 h hi hj
    obtain ⟨bs₁, bs₂, s₂, h3, h4, hm'⟩ := ih h1 (Status.started_of_meets hm)
    exact ⟨bs₁, bs₂ ++ as₂, s₂, h3, exec_append_iff.2 ⟨s₁, h4, h2⟩, hm'⟩

end

end Lib.Startup
