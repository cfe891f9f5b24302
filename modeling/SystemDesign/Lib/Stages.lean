/-
  Stages that are done in order, each at most once.

  A stage that is done is idle: doing it again changes nothing.  `Later s s'` says that stages lead
  from `s` to `s'`, each of them done only after all before it.

  * `Later.past`: what is done stays done;
  * `later_cases`: where the stage `j` is the first not done, nothing changes until it is done;
  * `Later.chain`: each stage is done once, in order, with nothing in between.
-/
import Mathlib

namespace Lib

structure Stages (σ : Type) where
  stage : ℕ → σ → σ → Prop
  done : ℕ → σ → Prop
  does : ∀ {j s s'}, stage j s s' → done j s'
  idle : ∀ {j s s'}, done j s → (stage j s s' ↔ s' = s)
  keeps : ∀ {i j s s'}, stage j s s' → done i s → done i s'

namespace Stages

variable {σ : Type} (S : Stages σ)

/-- The first `n` stages are done. -/
def Past (n : ℕ) (s : σ) : Prop := ∀ i < n, S.done i s

/-- A stage is done, after all before it. -/
def Step (s s' : σ) : Prop := ∃ j, S.Past j s ∧ S.stage j s s'

def Later (s s' : σ) : Prop := Relation.ReflTransGen S.Step s s'

/-- The first `n` stages, one after the other. -/
def Chain : ℕ → σ → σ → Prop
  | 0, s, s' => s' = s
  | n + 1, s, s' => ∃ s₁, Chain n s s₁ ∧ S.stage n s₁ s'

variable {S} {n j : ℕ} {s s' s'' : σ}

theorem Later.refl (s : σ) : S.Later s s := Relation.ReflTransGen.refl

theorem Later.trans (h : S.Later s s') (h' : S.Later s' s'') : S.Later s s'' :=
  Relation.ReflTransGen.trans h h'

theorem Later.of_stage (hp : S.Past j s) (h : S.stage j s s') : S.Later s s' :=
  Relation.ReflTransGen.single ⟨j, hp, h⟩

/-- What every stage preserves, later states have. -/
theorem Later.inv {P : σ → Prop} (hP : ∀ {j s s'}, S.stage j s s' → P s → P s') (h : S.Later s s')
    (hs : P s) : P s' := by
  induction h with
  | refl => exact hs
  | tail _ h ih =>
    obtain ⟨j, -, hj⟩ := h
    exact hP hj ih

theorem Past.mono {m : ℕ} (h : S.Past n s) (hm : m ≤ n) : S.Past m s := fun i hi => h i (by omega)

theorem Past.succ (h : S.Past n s) (hd : S.done n s) : S.Past (n + 1) s := by
  intro i hi
  by_cases he : i = n
  · subst he
    exact hd
  · exact h i (by omega)

theorem Past.stage (h : S.Past j s) (hs : S.stage j s s') : S.Past (j + 1) s' :=
  Past.succ (fun i hi => S.keeps hs (h i hi)) (S.does hs)

theorem Later.past (h : S.Later s s') (hp : S.Past n s) : S.Past n s' :=
  h.inv (fun hj hp i hi => S.keeps hj (hp i hi)) hp

/-- **The first stage not done comes next**: nothing changes until it is done. -/
theorem later_cases (hp : S.Past j s) (hd : ¬ S.done j s) (h : S.Later s s') :
    s' = s ∨ ∃ s₁, S.stage j s s₁ ∧ S.Later s₁ s' := by
  induction h using Relation.ReflTransGen.head_induction_on with
  | refl => exact Or.inl rfl
  | @head s s₁ h h' ih =>
    obtain ⟨i, hi, hs⟩ := h
    rcases lt_trichotomy i j with hlt | rfl | hlt
    · obtain rfl := (S.idle (hp i hlt)).1 hs
      exact ih hp hd
    · exact Or.inr ⟨s₁, hs, h'⟩
    · exact absurd (hi j hlt) hd

/-- Where all stages are done, nothing changes. -/
theorem Later.eq (h : S.Later s s') (hd : ∀ j, S.done j s) : s' = s := by
  induction h with
  | refl => rfl
  | tail _ h ih =>
    obtain ⟨j, -, hj⟩ := h
    subst ih
    exact (S.idle (hd j)).1 hj

/-! ## One after the other -/

theorem Chain.past (h : S.Chain n s s') : S.Past n s' := by
  induction n generalizing s' with
  | zero => exact fun i hi => absurd hi (Nat.not_lt_zero i)
  | succ n ih =>
    obtain ⟨s₁, h1, h2⟩ := h
    exact (ih h1).stage h2

/-- Stages that are done may follow. -/
theorem Chain.extend {k : ℕ} (h : S.Chain k s s') (hk : k ≤ n) (hp : S.Past n s') : S.Chain n s s' := by
  induction n, hk using Nat.le_induction with
  | base => exact h
  | succ n _ ih => exact ⟨s', ih (hp.mono (Nat.le_succ n)), (S.idle (hp n (Nat.lt_succ_self n))).2 rfl⟩

/-- Stages that are always done need not follow. -/
theorem Chain.cut {k : ℕ} (h : S.Chain k s s') (hk : n ≤ k) (hd : ∀ j s, n ≤ j → S.done j s) :
    S.Chain n s s' := by
  induction k, hk using Nat.le_induction generalizing s' with
  | base => exact h
  | succ k hk ih =>
    obtain ⟨s₁, h1, h2⟩ := h
    obtain rfl := (S.idle (hd k s₁ hk)).1 h2
    exact ih h1

theorem Later.exists_chain (h : S.Later s s') : ∃ k, S.Chain k s s' := by
  induction h with
  | refl => exact ⟨0, rfl⟩
  | tail _ h ih =>
    obtain ⟨k, hk⟩ := ih
    obtain ⟨j, hp, hj⟩ := h
    by_cases hlt : j < k
    · obtain rfl := (S.idle (hk.past j hlt)).1 hj
      exact ⟨k, hk⟩
    · exact ⟨j + 1, _, hk.extend (by omega) hp, hj⟩

/-- **A later state in which the stages are done comes from doing them one after the other**, where
    there are only `n`. -/
theorem Later.chain (h : S.Later s s') (hp : S.Past n s') (hd : ∀ j s, n ≤ j → S.done j s) :
    S.Chain n s s' := by
  obtain ⟨k, hk⟩ := h.exists_chain
  by_cases hle : k ≤ n
  · exact hk.extend hle hp
  · exact hk.cut (by omega) hd

end Stages

end Lib
