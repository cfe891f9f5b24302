/-
  Runs of a transition system given by a partial step function.

  A system is a function `step : σ → α → Option σ`: the action `a` is enabled in the state `s`
  iff `step s a` is `some`, so all nondeterminism sits in the actions.  A run is a list of
  actions and `exec` computes the state it ends in.

  * `exec_hist`: induction over runs, with the actions taken so far;
  * `exec_inv`: what every step preserves, every run preserves;
  * `Along`: a condition met by every step of a run, and `exec_inv_along`;
  * `Runs`: runs of a step relation, and their simulation by a step function and of it.
-/
import Mathlib

namespace Lib

universe u v
variable {σ : Type u} {α : Type v}

/-- The state after the actions `as`, or `none` where one of them is not enabled. -/
def exec (step : σ → α → Option σ) : σ → List α → Option σ
  | s, [] => some s
  | s, a :: as => (step s a).bind fun s' => exec step s' as

section
variable {step : σ → α → Option σ}

@[simp] theorem exec_nil (s : σ) : exec step s [] = some s := rfl

theorem exec_cons (s : σ) (a : α) (as : List α) :
    exec step s (a :: as) = (step s a).bind fun s' => exec step s' as := rfl

theorem exec_append (s : σ) (as bs : List α) :
    exec step s (as ++ bs) = (exec step s as).bind fun s' => exec step s' bs := by
  induction as generalizing s with
  | nil => rfl
  | cons a as ih =>
    simp only [List.cons_append, exec_cons, Option.bind_assoc]
    exact congrArg _ (funext fun s' => ih s')

theorem exec_append_iff {s s'' : σ} {as bs : List α} :
    exec step s (as ++ bs) = some s'' ↔
      ∃ s', exec step s as = some s' ∧ exec step s' bs = some s'' := by
  rw [exec_append, Option.bind_eq_some_iff]

theorem exec_snoc_iff {s s'' : σ} {as : List α} {a : α} :
    exec step s (as ++ [a]) = some s'' ↔ ∃ s', exec step s as = some s' ∧ step s' a = some s'' := by
  simp [exec_append_iff, exec_cons]

/-- **Induction over runs**, from the empty run, with the actions taken so far. -/
theorem exec_hist {P : List α → σ → Prop} {s₀ : σ} (h0 : P [] s₀)
    (hs : ∀ as s a s', exec step s₀ as = some s → P as s → step s a = some s' → P (as ++ [a]) s') :
    ∀ as s, exec step s₀ as = some s → P as s := by
  intro as
  induction as using List.reverseRecOn with
  | nil => intro s h; cases h; exact h0
  | append_singleton as a ih =>
    intro s h
    obtain ⟨s', h1, h2⟩ := exec_snoc_iff.1 h
    exact hs as s' a s h1 (ih s' h1) h2

/-- What every step preserves, every run preserves. -/
theorem exec_inv {I : σ → Prop} (hs : ∀ s a s', I s → step s a = some s' → I s') {s s' : σ}
    {as : List α} (h0 : I s) (h : exec step s as = some s') : I s' :=
  exec_hist (P := fun _ s => I s) h0 (fun _ s a s' _ hi h => hs s a s' hi h) as s' h

/-- A preorder that contains every step contains every run. -/
theorem exec_rel {R : σ → σ → Prop} (hr : ∀ s, R s s) (ht : ∀ s s' s'', R s s' → R s' s'' → R s s'')
    (hs : ∀ s a s', step s a = some s' → R s s') {s s' : σ} {as : List α}
    (h : exec step s as = some s') : R s s' :=
  exec_hist (P := fun _ x => R s x) (hr s) (fun _ _ a _ _ hi h => ht _ _ _ hi (hs _ a _ h)) as s' h

/-! ## Conditions along a run -/

/-- Every step of the run meets the condition `C` on the state before it and the action. -/
def Along (step : σ → α → Option σ) (C : σ → α → Prop) : σ → List α → Prop
  | _, [] => True
  | s, a :: as => C s a ∧ (step s a).elim True fun s' => Along step C s' as

/-- A condition on the next state, if there is one, can be decided. -/
def decidableElim (p : σ → Prop) (hp : ∀ s, Decidable (p s)) :
    ∀ o : Option σ, Decidable (o.elim True p)
  | none => isTrue trivial
  | some s => hp s

instance Along.decidable (C : σ → α → Prop) [∀ s a, Decidable (C s a)] :
    ∀ s as, Decidable (Along step C s as)
  | _, [] => isTrue trivial
  | s, a :: as =>
    have := decidableElim (fun s' => Along step C s' as) (fun s' => Along.decidable C s' as)
    inferInstanceAs (Decidable (C s a ∧ _))

/-- A condition holds along a run iff it holds after each of its prefixes. -/
theorem along_iff {C : σ → α → Prop} {s : σ} {as : List α} :
    Along step C s as ↔
      ∀ as₁ a as₂ s₁, as = as₁ ++ a :: as₂ → exec step s as₁ = some s₁ → C s₁ a := by
  induction as generalizing s with
  | nil => simp [Along]
  | cons b as ih =>
    constructor
    · rintro ⟨hb, hrest⟩ as₁ a as₂ s₁ he h1
      rcases as₁ with _ | ⟨b', as₁⟩
      · cases h1; cases he; exact hb
      · obtain ⟨rfl, rfl⟩ := List.cons_eq_cons.1 he
        rw [exec_cons, Option.bind_eq_some_iff] at h1
        obtain ⟨s', h2, h3⟩ := h1
        simp only [h2, Option.elim_some] at hrest
        exact ih.1 hrest as₁ a as₂ s₁ rfl h3
    · intro h
      refine ⟨h [] b as s rfl rfl, ?_⟩
      cases hs : step s b with
      | none => trivial
      | some s' =>
        refine ih.2 fun as₁ a as₂ s₁ he h1 => ?_
        exact h (b :: as₁) a as₂ s₁ (by rw [he]; rfl) (by rw [exec_cons, hs]; exact h1)

theorem along_append_left {C : σ → α → Prop} {s : σ} {as bs : List α}
    (h : Along step C s (as ++ bs)) : Along step C s as :=
  along_iff.2 fun as₁ a as₂ s₁ he h1 =>
    along_iff.1 h as₁ a (as₂ ++ bs) s₁ (by rw [he]; simp) h1

theorem along_last {C : σ → α → Prop} {s s' : σ} {as : List α} {a : α}
    (h : Along step C s (as ++ [a])) (h' : exec step s as = some s') : C s' a :=
  along_iff.1 h as a [] s' rfl h'

/-- What every step that meets `C` preserves, every run along which `C` holds preserves. -/
theorem exec_inv_along {C : σ → α → Prop} {I : σ → Prop}
    (hs : ∀ s a s', I s → C s a → step s a = some s' → I s') {s s' : σ} {as : List α} (h0 : I s)
    (hc : Along step C s as) (h : exec step s as = some s') : I s' := by
  refine exec_hist (P := fun bs x => Along step C s bs → I x) (fun _ => h0) ?_ as s' h hc
  intro bs x a x' hx ih ha hC
  exact hs x a x' (ih (along_append_left hC)) (along_last hC hx) ha

end

/-! ## Runs of a relation

A concrete system whose steps are a relation is compared, by a relation between the states, with an
abstract one that has a step function. -/

section
variable {τ : Type*}

inductive Runs (R : σ → α → σ → Prop) : σ → List α → σ → Prop
  | nil (s) : Runs R s [] s
  | cons {s a s' as s''} : R s a s' → Runs R s' as s'' → Runs R s (a :: as) s''

variable {R : σ → α → σ → Prop} (step : τ → α → Option τ) (sim : σ → τ → Prop)

/-- **Forward simulation**: each concrete run is an abstract one. -/
theorem Runs.simulated (hs : ∀ s t a s', sim s t → R s a s' → ∃ t', step t a = some t' ∧ sim s' t')
    {s s' : σ} {as : List α} (h : Runs R s as s') {t : τ} (h0 : sim s t) :
    ∃ t', exec step t as = some t' ∧ sim s' t' := by
  induction h generalizing t with
  | nil s => exact ⟨t, rfl, h0⟩
  | cons h1 _ ih =>
    obtain ⟨t₁, ht, hsim⟩ := hs _ _ _ _ h0 h1
    obtain ⟨t', he, hsim'⟩ := ih hsim
    exact ⟨t', by rw [exec_cons, ht]; exact he, hsim'⟩

/-- **Backward**: each abstract run is one of the concrete system. -/
theorem Runs.of_exec (hs : ∀ s t a t', sim s t → step t a = some t' → ∃ s', R s a s' ∧ sim s' t') {as : List α}
    {s : σ} {t t' : τ} (h0 : sim s t) (h : exec step t as = some t') : ∃ s', Runs R s as s' ∧ sim s' t' := by
  induction as generalizing s t with
  | nil =>
    cases h
    exact ⟨s, .nil s, h0⟩
  | cons a as ih =>
    obtain ⟨t₁, h1, h2⟩ := Option.bind_eq_some_iff.1 h
    obtain ⟨s₁, hR, hsim⟩ := hs s t a t₁ h0 h1
    obtain ⟨s', hruns, hsim'⟩ := ih hsim h2
    exact ⟨s', .cons hR hruns, hsim'⟩

end

/-! ## Components of a state

A state often has a list of components, such as calls, of which a step changes one or adds one. -/

theorem set_cases {l : List α} {i j : ℕ} {a b : α} (h : (l.set i a)[j]? = some b) :
    (j = i ∧ b = a) ∨ (j ≠ i ∧ l[j]? = some b) := by
  by_cases hj : j = i
  · subst hj
    obtain ⟨hlt, he⟩ := List.getElem?_eq_some_iff.1 h
    rw [List.getElem_set_self] at he
    exact Or.inl ⟨rfl, he.symm⟩
  · exact Or.inr ⟨hj, (List.getElem?_set_ne (Ne.symm hj)).symm.trans h⟩

theorem snoc_cases {l : List α} {j : ℕ} {a b : α} (h : (l ++ [a])[j]? = some b) :
    (j = l.length ∧ b = a) ∨ l[j]? = some b := by
  rw [List.getElem?_append] at h
  split_ifs at h with hlt
  · exact Or.inr h
  · obtain ⟨hj, he⟩ := List.getElem?_eq_some_iff.1 h
    simp only [List.length_singleton] at hj
    simp only [List.getElem_singleton] at he
    exact Or.inl ⟨by omega, he.symm⟩

/-- Changing a component keeps what `f` reads of each, if it keeps it of that one. -/
theorem map_set_eq {β : Type v} {f : α → β} {l : List α} {i : ℕ} {a b : α} (h : l[i]? = some a)
    (hf : f b = f a) : (l.set i b).map f = l.map f := by
  obtain ⟨hlt, rfl⟩ := List.getElem?_eq_some_iff.1 h
  have hlt' : i < (l.map f).length := by simpa
  have hk : f b = (l.map f)[i] := by rw [List.getElem_map, hf]
  rw [List.map_set, hk, List.set_getElem_self]

theorem getElem?_snoc {l : List α} {j : ℕ} {a b : α} (h : l[j]? = some b) :
    (l ++ [a])[j]? = some b := by
  rw [List.getElem?_append_left (List.getElem?_eq_some_iff.1 h).1, h]

end Lib
