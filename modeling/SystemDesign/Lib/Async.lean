/-
  Asynchronous programs and their rely-guarantee logic.

  `Async ω ans ε ρ` is the code of an `async` function: it returns a value, throws, or awaits
  one operation `o : ω` and goes on with the answer, which is a value of type `ans o` or an
  error.  Code between two awaits is not interrupted.  The same program is read in two ways:

  * `Async.run` runs it alone, each operation on the state left by the one before, and
    `Async.runToEnd` does so with choices for as long as it takes;
  * in a system of many such programs each operation is one atomic step, and other steps come
    between; `Async.Safe` says what then holds, by rely (what others may do to the state) and
    guarantee (what each of its operations does to it).
-/
import Mathlib

namespace Lib

/-- An `async` function awaiting the operations `ω`. -/
inductive Async (ω : Type) (ans : ω → Type) (ε ρ : Type) where
  | ret (r : ρ)
  | throw (e : ε)
  | await (o : ω) (k : Except ε (ans o) → Async ω ans ε ρ)

namespace Async

variable {ω : Type} {ans : ω → Type} {ε ρ ρ' : Type}

def bind : Async ω ans ε ρ → (ρ → Async ω ans ε ρ') → Async ω ans ε ρ'
  | .ret r, f => f r
  | .throw e, _ => .throw e
  | .await o k, f => .await o fun a => bind (k a) f

/-- `try { p } catch (e) { h e }` -/
def tryCatch : Async ω ans ε ρ → (ε → Async ω ans ε ρ) → Async ω ans ε ρ
  | .ret r, _ => .ret r
  | .throw e, h => h e
  | .await o k, h => .await o fun a => tryCatch (k a) h

instance : Monad (Async ω ans ε) where
  pure := .ret
  bind := bind

/-- `await o` -/
def call (o : ω) : Async ω ans ε (ans o) :=
  .await o fun a => match a with
    | .ok x => .ret x
    | .error e => .throw e

@[simp] theorem pure_eq (r : ρ) : (pure r : Async ω ans ε ρ) = .ret r := rfl

@[simp] theorem ret_bind (r : ρ) (f : ρ → Async ω ans ε ρ') : ((.ret r : Async ω ans ε ρ) >>= f) = f r := rfl

@[simp] theorem throw_bind (e : ε) (f : ρ → Async ω ans ε ρ') :
    ((.throw e : Async ω ans ε ρ) >>= f) = .throw e := rfl

@[simp] theorem await_bind (o : ω) (k : Except ε (ans o) → Async ω ans ε ρ)
    (f : ρ → Async ω ans ε ρ') : (.await o k >>= f) = .await o fun a => k a >>= f := rfl

/-- The operation awaited, if the program has not ended. -/
def next : Async ω ans ε ρ → Option ω
  | .await o _ => some o
  | _ => none

/-! ## Running a program alone -/

section
variable {σ κ : Type} (perform : (o : ω) → κ → σ → Option (Except ε (ans o) × σ))

/-- Run a program alone; each operation takes the next choice, `none` where they run out or an
    operation is not possible with its choice. -/
def run : Async ω ans ε ρ → List κ → σ → Option (Except ε ρ × σ)
  | .ret r, _, s => some (.ok r, s)
  | .throw e, _, s => some (.error e, s)
  | .await _ _, [], _ => none
  | .await o k, c :: cs, s => (perform o c s).bind fun x => run (k x.1) cs x.2

/-- Two programs run one after the other. -/
theorem run_bind {p : Async ω ans ε ρ} {f : ρ → Async ω ans ε ρ'} {cs cs' : List κ} {s s₁ : σ} {r : ρ}
    {x : Except ε ρ' × σ} (h : run perform p cs s = some (.ok r, s₁))
    (h' : run perform (f r) cs' s₁ = some x) : ∃ cs'', run perform (p >>= f) cs'' s = some x := by
  induction p generalizing cs s with
  | ret r' =>
    cases h
    exact ⟨cs', h'⟩
  | throw e => cases h
  | await o k ih =>
    rcases cs with _ | ⟨c, cs⟩
    · cases h
    · obtain ⟨⟨a, s₂⟩, h1, h2⟩ := Option.bind_eq_some_iff.1 h
      obtain ⟨cs'', h3⟩ := ih a h2
      exact ⟨c :: cs'', by rw [await_bind, run, h1]; exact h3⟩

/-- Run a program to its end, where each operation is possible with every choice: the operations
    done, and what the program returns or throws. -/
def runToEnd (perform : (o : ω) → κ → σ → Except ε (ans o) × σ) :
    Async ω ans ε ρ → (ℕ → κ) → σ → List ω × Except ε ρ
  | .ret r, _, _ => ([], .ok r)
  | .throw e, _, _ => ([], .error e)
  | .await o k, cs, s =>
    let x := perform o (cs 0) s
    let y := runToEnd perform (k x.1) (fun i => cs (i + 1)) x.2
    (o :: y.1, y.2)

/-- The state in which a program run to its end leaves the system. -/
def stateAtEnd (perform : (o : ω) → κ → σ → Except ε (ans o) × σ) : Async ω ans ε ρ → (ℕ → κ) → σ → σ
  | .ret _, _, s | .throw _, _, s => s
  | .await o k, cs, s =>
    let x := perform o (cs 0) s
    stateAtEnd perform (k x.1) (fun i => cs (i + 1)) x.2

/-! ## How long a program runs -/

/-- The program awaits at most `n` operations. -/
def Within : Async ω ans ε ρ → ℕ → Prop
  | .ret _, _ | .throw _, _ => True
  | .await _ _, 0 => False
  | .await _ k, n + 1 => ∀ a, Within (k a) n

theorem Within.mono {p : Async ω ans ε ρ} {m n : ℕ} (h : p.Within m) (hmn : m ≤ n) : p.Within n := by
  induction p generalizing m n with
  | ret | throw => trivial
  | await o k ih =>
    rcases m with _ | m
    · exact absurd h id
    · obtain ⟨n, rfl⟩ : ∃ n', n = n' + 1 := ⟨n - 1, by omega⟩
      exact fun a => ih a (h a) (by omega)

theorem Within.call (o : ω) : (call o : Async ω ans ε (ans o)).Within 1 := by
  intro a
  cases a <;> trivial

theorem Within.bind {p : Async ω ans ε ρ} {f : ρ → Async ω ans ε ρ'} {m n : ℕ} (h : p.Within m)
    (hf : ∀ r, (f r).Within n) : (p >>= f).Within (m + n) := by
  induction p generalizing m with
  | ret r => exact (hf r).mono (Nat.le_add_left n m)
  | throw e => trivial
  | await o k ih =>
    rcases m with _ | m
    · exact absurd h id
    · rw [Nat.add_right_comm]
      exact fun a => ih a (h a)

/-! ## What a program awaits -/

/-- Each operation that the program may await is one of `P`. -/
def Only (P : ω → Prop) : Async ω ans ε ρ → Prop
  | .ret _ | .throw _ => True
  | .await o k => P o ∧ ∀ a, Only P (k a)

theorem Only.call {P : ω → Prop} {o : ω} (h : P o) : (call o : Async ω ans ε (ans o)).Only P := by
  refine ⟨h, fun a => ?_⟩
  cases a <;> trivial

theorem Only.bind {P : ω → Prop} {p : Async ω ans ε ρ} {f : ρ → Async ω ans ε ρ'} (h : p.Only P)
    (hf : ∀ r, (f r).Only P) : (p >>= f).Only P := by
  induction p with
  | ret r => exact hf r
  | throw e => trivial
  | await o k ih => exact ⟨h.1, fun a => ih a (h.2 a)⟩

/-- A program that awaits only operations without effect leaves the state as it is. -/
theorem stateAtEnd_of_only {P : ω → Prop} {perform : (o : ω) → κ → σ → Except ε (ans o) × σ}
    (h : ∀ o, P o → ∀ c s, (perform o c s).2 = s) {p : Async ω ans ε ρ} (hp : p.Only P) (cs : ℕ → κ) (s : σ) :
    stateAtEnd perform p cs s = s := by
  induction p generalizing cs s with
  | ret | throw => rfl
  | await o k ih =>
    simp only [stateAtEnd]
    rw [ih _ (hp.2 _), h o hp.1]

/-! ## Rely and guarantee -/

/-- From `s`, whatever the environment does within the rely `R` between its operations, each
    operation of the program is within the guarantee `G`, and a value it returns satisfies `Q`. -/
def Safe (R : σ → σ → Prop) (G : ω → σ → σ → Prop) (Q : ρ → σ → Prop) : Async ω ans ε ρ → σ → Prop
  | .ret r, s => Q r s
  | .throw _, _ => True
  | .await o k, s => ∀ s', R s s' → ∀ c a s'', perform o c s' = some (a, s'') →
      G o s' s'' ∧ Safe R G Q (k a) s''

variable {perform} {R : σ → σ → Prop} {G : ω → σ → σ → Prop} {Q : ρ → σ → Prop}

/-- Safety is stable under the rely. -/
theorem Safe.rely (ht : ∀ s s' s'', R s s' → R s' s'' → R s s'')
    (hQ : ∀ r s s', Q r s → R s s' → Q r s') :
    ∀ {p : Async ω ans ε ρ} {s s' : σ}, Safe perform R G Q p s → R s s' → Safe perform R G Q p s'
  | .ret r, s, s', h, hR => hQ r s s' h hR
  | .throw _, _, _, _, _ => trivial
  | .await _ _, s, s', h, hR => fun s'' hR' => h s'' (ht s s' s'' hR hR')

/-- A step of a safe program is within the guarantee, and what is left is safe. -/
theorem Safe.step {o : ω} {k : Except ε (ans o) → Async ω ans ε ρ} {s s' : σ} {c : κ}
    {a : Except ε (ans o)} (h : Safe perform R G Q (.await o k) s) (hR : R s s)
    (hp : perform o c s = some (a, s')) : G o s s' ∧ Safe perform R G Q (k a) s' :=
  h s hR c a s' hp

theorem Safe.conseq {Q' : ρ → σ → Prop} (hQ : ∀ r s, Q r s → Q' r s) :
    ∀ {p : Async ω ans ε ρ} {s : σ}, Safe perform R G Q p s → Safe perform R G Q' p s
  | .ret r, s, h => hQ r s h
  | .throw _, _, _ => trivial
  | .await _ _, _, h => fun s' hR c a s'' hp =>
    ⟨(h s' hR c a s'' hp).1, Safe.conseq hQ (h s' hR c a s'' hp).2⟩

theorem Safe.bind {Q' : ρ' → σ → Prop} {f : ρ → Async ω ans ε ρ'}
    (hf : ∀ r s, Q r s → Safe perform R G Q' (f r) s) :
    ∀ {p : Async ω ans ε ρ} {s : σ}, Safe perform R G Q p s → Safe perform R G Q' (p >>= f) s
  | .ret r, s, h => hf r s h
  | .throw _, _, _ => trivial
  | .await _ _, _, h => fun s' hR c a s'' hp =>
    ⟨(h s' hR c a s'' hp).1, Safe.bind hf (h s' hR c a s'' hp).2⟩

/-- What the rely keeps holds after a safe program whose guarantee is within the rely. -/
theorem Safe.frame {F : σ → Prop} (hF : ∀ s s', F s → R s s' → F s')
    (hG : ∀ o s s', G o s s' → R s s') :
    ∀ {p : Async ω ans ε ρ} {s : σ}, Safe perform R G Q p s → F s →
      Safe perform R G (fun r s => Q r s ∧ F s) p s
  | .ret _, _, h, hf => ⟨h, hf⟩
  | .throw _, _, _, _ => trivial
  | .await _ _, _, h, hf => fun s' hR c a s'' hp =>
    ⟨(h s' hR c a s'' hp).1,
      Safe.frame hF hG (h s' hR c a s'' hp).2 (hF _ _ (hF _ _ hf hR) (hG _ _ _ (h s' hR c a s'' hp).1))⟩

/-- Awaiting one operation: its guarantee, and the postcondition where it succeeds. -/
theorem Safe.call {o : ω} {Q : ans o → σ → Prop} {s : σ}
    (h : ∀ s', R s s' → ∀ c a s'', perform o c s' = some (a, s'') →
      G o s' s'' ∧ ∀ x, a = .ok x → Q x s'') :
    Safe perform R G Q (call o) s := by
  intro s' hR c a s'' hp
  obtain ⟨hG, hQ⟩ := h s' hR c a s'' hp
  refine ⟨hG, ?_⟩
  cases a with
  | ok x => exact hQ x rfl
  | error e => trivial

/-- A program is safe if each operation it may await is within the guarantee by itself. -/
theorem Safe.of_only {P : ω → Prop}
    (hG : ∀ o, P o → ∀ s c a s', perform o c s = some (a, s') → G o s s') {p : Async ω ans ε ρ}
    (h : p.Only P) (s : σ) : Safe perform R G (fun _ _ => True) p s := by
  induction p generalizing s with
  | ret | throw => trivial
  | await o k ih => exact fun s' _ c a s'' hp => ⟨hG o h.1 s' c a s'' hp, ih a (h.2 a) s''⟩

/-- A safe program run alone returns what its postcondition says. -/
theorem Safe.run (hr : ∀ s, R s s) :
    ∀ {p : Async ω ans ε ρ} {cs : List κ} {s s' : σ} {r : ρ}, Safe perform R G Q p s →
      Async.run perform p cs s = some (.ok r, s') → Q r s'
  | .ret _, _, _, _, _, h, he => by cases he; exact h
  | .throw _, _, _, _, _, _, he => by cases he
  | .await _ _, [], _, _, _, _, he => by cases he
  | .await o k, c :: cs, s, s', r, h, he => by
    obtain ⟨⟨a, s''⟩, h1, h2⟩ := Option.bind_eq_some_iff.1 he
    exact Safe.run hr (h.step (hr s) h1).2 h2

/-! ## Running a program among others -/

section
variable (perform) (R) [∀ s s', Decidable (R s s')]

/-- Run a program among others, as far as the choices go.  A choice is that of the operation and
    the state the others make of its result within `R`; the operations done are returned with the
    states they found. -/
def runAmong : Async ω ans ε ρ → List (κ × σ) → σ → Option (List (ω × σ))
  | .ret _, _, _ | .throw _, _, _ | .await _ _, [], _ => some []
  | .await o k, (c, s₂) :: cs, s => (perform o c s).bind fun x =>
    if R x.2 s₂ then (runAmong (k x.1) cs s₂).map ((o, s) :: ·) else none

end

/-- An operation done is the first one, or one of what the answer to it leaves. -/
theorem mem_runAmong_await [∀ s s', Decidable (R s s')] {o : ω}
    {k : Except ε (ans o) → Async ω ans ε ρ} {cs : List (κ × σ)} {s : σ} {os : List (ω × σ)}
    (he : runAmong perform R (.await o k) cs s = some os) {x : ω × σ} (hx : x ∈ os) :
    x = (o, s) ∨ ∃ c a s' s₂ cs' os', perform o c s = some (a, s') ∧ R s' s₂ ∧
      runAmong perform R (k a) cs' s₂ = some os' ∧ x ∈ os' := by
  rcases cs with _ | ⟨⟨c, s₂⟩, cs⟩
  · cases he; simp at hx
  · obtain ⟨⟨a, s'⟩, h1, h2⟩ := Option.bind_eq_some_iff.1 he
    dsimp only at h2
    split_ifs at h2 with hR
    obtain ⟨os', h3, rfl⟩ := Option.map_eq_some_iff.1 h2
    rcases List.mem_cons.1 hx with rfl | hx
    · exact Or.inl rfl
    · exact Or.inr ⟨c, a, s', s₂, cs, os', h1, hR, h3, hx⟩

/-- Each operation a safe program does among others is within the guarantee. -/
theorem Safe.runAmong [∀ s s', Decidable (R s s')] (hr : ∀ s, R s s)
    (ht : ∀ s s' s'', R s s' → R s' s'' → R s s'') (hQ : ∀ r s s', Q r s → R s s' → Q r s')
    {p : Async ω ans ε ρ} {cs : List (κ × σ)} {s : σ}
    {os : List (ω × σ)} (h : Safe perform R G Q p s)
    (he : Async.runAmong perform R p cs s = some os) : ∀ x ∈ os, ∃ s', G x.1 x.2 s' := by
  induction p generalizing cs s os with
  | ret | throw => cases he; simp
  | await o k ih =>
    intro x hx
    rcases mem_runAmong_await he hx with rfl | ⟨c, a, s', s₂, cs', os', h1, hR, h3, hx⟩
    · rcases cs with _ | ⟨⟨c, s₂⟩, cs⟩
      · cases he; simp at hx
      · obtain ⟨⟨a, s'⟩, h1, -⟩ := Option.bind_eq_some_iff.1 he
        exact ⟨s', (h.step (hr s) h1).1⟩
    · exact ih a ((h.step (hr s) h1).2.rely ht hQ hR) h3 x hx

end

end Async

end Lib
