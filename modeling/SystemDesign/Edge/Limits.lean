/-
  How many logins of a client get through.

  Each instance counts for itself, so the limit of `AuthController.login` holds at each of them, and a
  client that nginx sends to both in turn gets twice as many through (`logins_bounded`).
-/
import SystemDesign.Edge.Path

namespace SystemDesign.Edge

open Lib

/-- A login at the API of nginx. -/
def Request.apiLogin (r : Request) : Bool :=
  match r.target with
  | .api .login _ _ => true
  | _ => false

/-- The API logins of a client, from the time `w` on for 60 seconds, for which an instance calls
    `AuthService.login`. -/
def reached (L : Limiter Key) (rs : List Request) (client w : ℕ) (i : Instance) : ℕ :=
  (outcomes L init rs).countP fun x =>
    x.1.client = client ∧ x.1.apiLogin = true ∧ w ≤ x.1.time ∧ x.1.time < w + 60000 ∧ x.2 = .passed i

/-- What an instance counts the API logins by, whoever sends them. -/
def loginKey : Key := ⟨.login, .nginx⟩

section
variable {L : Limiter Key} {s : State} {r : Request} {rs : List Request} {i : Instance} {w : ℕ}

theorem call_apiLogin {a : Address} {via : Via} {q : HttpRequest} (hr : r.apiLogin = true)
    (hc : r.target.call a = some (via, q)) : q.handler = .login ∧ q.remoteAddress = .nginx := by
  unfold Request.apiLogin at hr
  split at hr
  · next body forwardedFor ht =>
    rw [ht] at hc
    simp only [Target.call, Option.some.injEq, Prod.mk.injEq] at hc
    obtain ⟨-, rfl⟩ := hc
    exact ⟨rfl, rfl⟩
  · cases hr

/-- What is passed on was admitted. -/
theorem admitted_of_passed {q : HttpRequest} {u p : JsValue} {i j : Instance} {ok : Bool}
    (h : (if ok = true then validated q u p j else .throttled j) = .passed i) : ok = true ∧ j = i := by
  cases ok with
  | false => cases h
  | true =>
    rw [if_pos rfl, validated] at h
    split_ifs at h
    cases h
    exact ⟨rfl, rfl⟩

/-- **A login that gets through was admitted by the throttler of its instance.** -/
theorem reached_step :
    Limiter.countWithin loginKey w 60000 (L.admitted (s.hits i)) +
        (if r.apiLogin = true ∧ w ≤ r.time ∧ r.time < w + 60000 ∧ (step L s r).2 = .passed i then 1 else 0) ≤
      Limiter.countWithin loginKey w 60000 (L.admitted ((step L s r).1.hits i)) := by
  cases h : step L s r with
  | mk s' o =>
    have hs := step_cases L s r
    rw [h] at hs
    cases hs with
    | limited => simp
    | page => simp
    | malformed => simp
    | @counted b via q u p j hit hb hc hq hj hh =>
      by_cases hij : i = j
      · subst hij
        simp only [Function.update_self]
        rw [Limiter.countWithin_admitted]
        refine Nat.add_le_add_left ?_ _
        by_cases hp : r.apiLogin = true ∧ w ≤ r.time ∧ r.time < w + 60000 ∧
            (if L (s.hits i) hit = true then validated q u p i else .throttled i) = .passed i
        · rw [if_pos hp, if_pos]
          obtain ⟨hr, hw, hlt, hpass⟩ := hp
          obtain ⟨hhandler, hpeer⟩ := call_apiLogin hr hc
          refine ⟨(admitted_of_passed hpass).1, ?_, ?_, ?_⟩
          · rw [hh, hhandler, hpeer]
            rfl
          · rw [hh]
            exact hw
          · rw [hh]
            exact hlt
        · rw [if_neg hp]
          exact Nat.zero_le _
      · simp only [Function.update_of_ne hij]
        rw [if_neg]
        · exact le_rfl
        · rintro ⟨-, -, -, hpass⟩
          exact hij (admitted_of_passed hpass).2.symm

/-- The logins that got through are among the hits that were admitted. -/
theorem reached_le (L : Limiter Key) (rs : List Request) (client w : ℕ) (i : Instance) :
    reached L rs client w i ≤ Limiter.countWithin loginKey w 60000 (L.admitted ((after L init rs).hits i)) := by
  induction rs using List.reverseRecOn with
  | nil => simp [reached, outcomes]
  | append_singleton rs r ih =>
    have hstep := reached_step (L := L) (s := after L init rs) (r := r) (i := i) (w := w)
    rw [after_append]
    refine le_trans ?_ hstep
    rw [reached, outcomes_append, List.countP_append]
    refine Nat.add_le_add ih ?_
    simp only [outcomes, List.countP_cons, List.countP_nil, Nat.zero_add, decide_eq_true_eq]
    split_ifs with h1 h2
    · exact le_rfl
    · exact absurd h1.2 h2
    · exact Nat.zero_le _
    · exact le_rfl

end

/-- **Five logins of a client get through at each instance in 60 seconds**, and so ten at both. -/
theorem logins_bounded (L : Limiter Key) (hL : L.Keeps throttle) {rs : List Request} (hs : InOrder rs)
    (client w : ℕ) :
    (∀ i, reached L rs client w i ≤ 5) ∧
      reached L rs client w .app1 + reached L rs client w .app2 ≤ 10 := by
  have hle : ∀ i, reached L rs client w i ≤ 5 := by
    intro i
    obtain ⟨hord, -⟩ := hits_ordered L hs i
    exact (reached_le L rs client w i).trans (hL.bounded _ hord loginKey w)
  refine ⟨hle, ?_⟩
  have h1 := hle .app1
  have h2 := hle .app2
  omega

/-- Twelve logins of one client, a second apart. -/
def twelveLogins : List Request :=
  (List.range 12).map fun n =>
    ⟨1000 * n, 0, .api .login (.parsed (some (.str (js "alice"))) (some (.str (js "pw1")))) []⟩

theorem inOrder_twelveLogins : InOrder twelveLogins := by
  refine List.pairwise_map.2 (List.pairwise_lt_range.imp fun h => ?_)
  dsimp only
  omega

theorem logins_bounded_twelve :
    reached (Limiter.slidingWindow throttle) twelveLogins 0 0 .app1 = 5 ∧
      reached (Limiter.slidingWindow throttle) twelveLogins 0 0 .app1 +
        reached (Limiter.slidingWindow throttle) twelveLogins 0 0 .app2 ≤ 10 :=
  ⟨by decide +kernel,
    (logins_bounded _ (Limiter.slidingWindow_keeps throttle) inOrder_twelveLogins 0 0).2⟩

/-- A throttler that keeps the limits lets ten of them through. -/
theorem logins_exceed :
    ∃ L : Limiter Key, L.Keeps throttle ∧ ∃ rs, InOrder rs ∧
      5 < reached L rs 0 0 .app1 + reached L rs 0 0 .app2 := by
  refine ⟨_, Limiter.slidingWindow_keeps throttle, twelveLogins, inOrder_twelveLogins, ?_⟩
  decide +kernel

end SystemDesign.Edge
