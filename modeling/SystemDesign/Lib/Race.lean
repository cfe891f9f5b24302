/-
  Programs that race for the same changes.

  Others may be faster, and an operation then fails, with it the program.  What does not fail is
  the program that changed the state last, as long as all choices are good:

  * `Alone`: run alone with good choices, the program returns;
  * `Leads`: whatever others do within `R`, each operation of the program is within `R`, and after
    a good one that changes the state the rest would return if it was run alone;
  * `Ensures`: both.
-/
import SystemDesign.Lib.Async

namespace Lib

namespace Async

variable {ω : Type} {ans : ω → Type} {ε ρ ρ' σ κ : Type}

section
variable (perform : (o : ω) → κ → σ → Option (Except ε (ans o) × σ)) (good : κ → σ → Prop)
  (R : σ → σ → Prop)

/-- Run alone from `s` with good choices, the program returns, and `A` holds then. -/
def Alone (A : ρ → σ → Prop) : Async ω ans ε ρ → σ → Prop
  | .ret r, s => A r s
  | .throw _, _ => False
  | .await o k, s => ∀ c a s', good c s → perform o c s = some (a, s') → Alone A (k a) s'

/-- Whatever others do within `R`, each operation is within `R`, and `Q` holds where the program
    returns; after a good operation that changes the state, the rest would return alone. -/
def Leads (A Q : ρ → σ → Prop) : Async ω ans ε ρ → σ → Prop
  | .ret r, s => Q r s
  | .throw _, _ => True
  | .await o k, s => ∀ s', R s s' → ∀ c a s'', perform o c s' = some (a, s'') →
      R s' s'' ∧ (good c s' → s'' ≠ s' → Alone perform good A (k a) s'') ∧ Leads A Q (k a) s''

structure Ensures (Q : ρ → σ → Prop) (p : Async ω ans ε ρ) (s : σ) : Prop where
  leads : Leads perform good R Q Q p s
  alone : Alone perform good Q p s

end

variable {perform : (o : ω) → κ → σ → Option (Except ε (ans o) × σ)} {good : κ → σ → Prop}
  {R : σ → σ → Prop} {A Q : ρ → σ → Prop} {A' Q' : ρ' → σ → Prop}

theorem Alone.step {o : ω} {k : Except ε (ans o) → Async ω ans ε ρ} {s s' : σ} {c : κ}
    {a : Except ε (ans o)} (h : Alone perform good A (.await o k) s) (hc : good c s)
    (hp : perform o c s = some (a, s')) : Alone perform good A (k a) s' :=
  h c a s' hc hp

theorem Leads.step {o : ω} {k : Except ε (ans o) → Async ω ans ε ρ} {s s' : σ} {c : κ}
    {a : Except ε (ans o)} (h : Leads perform good R A Q (.await o k) s) (hR : R s s)
    (hp : perform o c s = some (a, s')) :
    R s s' ∧ (good c s → s' ≠ s → Alone perform good A (k a) s') ∧ Leads perform good R A Q (k a) s' :=
  h s hR c a s' hp

/-- Leading is stable under `R`. -/
theorem Leads.rely (ht : ∀ s s' s'', R s s' → R s' s'' → R s s'')
    (hQ : ∀ r s s', Q r s → R s s' → Q r s') {p : Async ω ans ε ρ} {s s' : σ}
    (h : Leads perform good R A Q p s) (hR : R s s') : Leads perform good R A Q p s' := by
  cases p with
  | ret r => exact hQ r s s' h hR
  | throw e => trivial
  | await o k => exact fun s'' hR' => h s'' (ht s s' s'' hR hR')

/-- Run without others, a leading program stays within `R`. -/
theorem Leads.run (hr : ∀ s, R s s) (ht : ∀ s s' s'', R s s' → R s' s'' → R s s'')
    {p : Async ω ans ε ρ} {cs : List κ} {s s' : σ} {r : ρ} (h : Leads perform good R A Q p s)
    (he : Async.run perform p cs s = some (.ok r, s')) : R s s' ∧ Q r s' := by
  induction p generalizing cs s with
  | ret x => cases he; exact ⟨hr _, h⟩
  | throw e => cases he
  | await o k ih =>
    rcases cs with _ | ⟨c, cs⟩
    · cases he
    · obtain ⟨⟨a, s₁⟩, h1, h2⟩ := Option.bind_eq_some_iff.1 he
      obtain ⟨hR, -, hrest⟩ := h.step (hr s) h1
      obtain ⟨hR', hQ⟩ := ih a hrest h2
      exact ⟨ht _ _ _ hR hR', hQ⟩

theorem Alone.bind {f : ρ → Async ω ans ε ρ'} (hf : ∀ r s, A r s → Alone perform good A' (f r) s)
    {p : Async ω ans ε ρ} {s : σ} (h : Alone perform good A p s) :
    Alone perform good A' (p >>= f) s := by
  induction p generalizing s with
  | ret r => exact hf r s h
  | throw e => exact h
  | await o k ih => exact fun c a s' hc hp => ih a (h.step hc hp)

theorem Leads.bind {f : ρ → Async ω ans ε ρ'} (ha : ∀ r s, A r s → Alone perform good A' (f r) s)
    (hf : ∀ r s, Q r s → Leads perform good R A' Q' (f r) s) {p : Async ω ans ε ρ} {s : σ}
    (h : Leads perform good R A Q p s) : Leads perform good R A' Q' (p >>= f) s := by
  induction p generalizing s with
  | ret r => exact hf r s h
  | throw e => trivial
  | await o k ih =>
    intro s' hR c a s'' hp
    obtain ⟨h1, h2, h3⟩ := h s' hR c a s'' hp
    exact ⟨h1, fun hc hne => (h2 hc hne).bind ha, ih a h3⟩

/-- One program after the other. -/
theorem Ensures.bind {f : ρ → Async ω ans ε ρ'} (hf : ∀ r s, Q r s → Ensures perform good R Q' (f r) s)
    {p : Async ω ans ε ρ} {s : σ} (h : Ensures perform good R Q p s) :
    Ensures perform good R Q' (p >>= f) s :=
  ⟨h.leads.bind (fun r s hq => (hf r s hq).alone) fun r s hq => (hf r s hq).leads,
    h.alone.bind fun r s hq => (hf r s hq).alone⟩

/-- What `R` keeps holds in the end. -/
theorem Leads.frame {F : σ → Prop} (hF : ∀ s s', F s → R s s' → F s') (hr : ∀ s, R s s)
    {p : Async ω ans ε ρ} {s : σ} (h : Leads perform good R A Q p s) (hf : F s) :
    Leads perform good R (fun r s => A r s ∧ F s) (fun r s => Q r s ∧ F s) p s ∧
      (Alone perform good A p s → Alone perform good (fun r s => A r s ∧ F s) p s) := by
  induction p generalizing s with
  | ret r => exact ⟨⟨h, hf⟩, fun ha => ⟨ha, hf⟩⟩
  | throw e => exact ⟨trivial, id⟩
  | await o k ih =>
    constructor
    · intro s' hR c a s'' hp
      obtain ⟨h1, h2, h3⟩ := h s' hR c a s'' hp
      obtain ⟨ih1, ih2⟩ := ih a h3 (hF _ _ (hF _ _ hf hR) h1)
      exact ⟨h1, fun hc hne => ih2 (h2 hc hne), ih1⟩
    · intro ha c a s' hc hp
      obtain ⟨h1, -, h3⟩ := h.step (hr s) hp
      exact (ih a h3 (hF _ _ hf h1)).2 (ha.step hc hp)

theorem Ensures.frame {F : σ → Prop} (hF : ∀ s s', F s → R s s' → F s') (hr : ∀ s, R s s)
    {p : Async ω ans ε ρ} {s : σ} (h : Ensures perform good R Q p s) (hf : F s) :
    Ensures perform good R (fun r s => Q r s ∧ F s) p s :=
  ⟨(h.leads.frame hF hr hf).1, (h.leads.frame hF hr hf).2 h.alone⟩

/-- Awaiting one operation, alone. -/
theorem Alone.call {o : ω} {A : ans o → σ → Prop} {s : σ}
    (h : ∀ c a s', good c s → perform o c s = some (a, s') → ∃ x, a = .ok x ∧ A x s') :
    Alone perform good A (call o) s := by
  intro c a s' hc hp
  obtain ⟨x, rfl, hx⟩ := h c a s' hc hp
  exact hx

/-- Awaiting one operation among others. -/
theorem Leads.call {o : ω} {A Q : ans o → σ → Prop} {s : σ}
    (h : ∀ s', R s s' → ∀ c a s'', perform o c s' = some (a, s'') →
      R s' s'' ∧ (good c s' → s'' ≠ s' → ∃ x, a = .ok x ∧ A x s'') ∧ ∀ x, a = .ok x → Q x s'') :
    Leads perform good R A Q (call o) s := by
  intro s' hR c a s'' hp
  obtain ⟨h1, h2, h3⟩ := h s' hR c a s'' hp
  refine ⟨h1, fun hc hne => ?_, ?_⟩
  · obtain ⟨x, rfl, hx⟩ := h2 hc hne
    exact hx
  · cases a with
    | ok x => exact h3 x rfl
    | error e => trivial

end Async

end Lib
