/-
  What the logins of one client have to do with those of others.

  An instance sees every request of nginx, and every one of the frontend, at one address, so that all
  clients share the limit.  What happens to the logins of a client depends on nobody else only where
  no throttler counts one of them (`independent_iff`).
-/
import SystemDesign.Edge.Path

namespace SystemDesign.Edge

open Lib

/-! ## Independence -/

/-- A login: at the API, or by the form of the frontend. -/
def Request.login (r : Request) : Bool :=
  match r.target with
  | .api .login _ _ | .loginAction _ _ _ => true
  | _ => false

/-- What was requested and how it ended. -/
abbrev Trace := List (Request × Outcome)

def ofClient (a : ℕ) (t : Trace) : Trace := t.filter fun x => x.1.client = a

/-- The instances that the requests of a client came to. -/
def targets (a : ℕ) (t : Trace) : List (Option Instance) := (ofClient a t).map (·.2.instance?)

/-- How the logins of a client ended. -/
def decisions (a : ℕ) (t : Trace) : List Outcome := ((ofClient a t).filter (·.1.login)).map (·.2)

/-- In any two histories with the requests `as` of the client, where these come to the same instances,
    its logins end alike. -/
def Independent (L : Limiter Key) (a : ℕ) (as : List Request) : Prop :=
  ∀ rs rs', InOrder rs → InOrder rs' → rs.filter (fun r => r.client = a) = as →
    rs'.filter (fun r => r.client = a) = as →
    targets a (outcomes L init rs) = targets a (outcomes L init rs') →
    decisions a (outcomes L init rs) = decisions a (outcomes L init rs')

/-- The login passes `limit_req` and its body can be parsed, so that a throttler counts it. -/
def counts (b : Option Bucket) (r : Request) : Bool :=
  r.login && (limitReq b r.time).isSome &&
    match r.target.call (.remote r.client) with
    | some (_, ⟨_, .parsed _ _, _, _⟩) => true
    | _ => false

/-- One of the logins is counted.  Only the client's own requests matter to its `limit_req`. -/
def counted : Option Bucket → List Request → Bool
  | _, [] => false
  | b, r :: rs => counts b r || counted (nextBucket b r) rs

section
variable {L : Limiter Key} {s s' : State} {r : Request} {rs rs' as : List Request} {a b : ℕ}

theorem counts_iff {k : Option Bucket} : counts k r = true ↔ r.login = true ∧
    (∃ k', limitReq k r.time = some k') ∧
    ∃ via q u p, r.target.call (.remote r.client) = some (via, q) ∧ q.body = .parsed u p := by
  rw [counts, Bool.and_eq_true, Bool.and_eq_true, and_assoc, Option.isSome_iff_exists]
  refine and_congr_right fun _ => and_congr_right fun _ => ?_
  constructor
  · intro h
    split at h
    · next hc => exact ⟨_, _, _, _, hc, rfl⟩
    · cases h
  · rintro ⟨via, ⟨handler, body, peer, xff⟩, u, p, hc, rfl⟩
    rw [hc]

theorem ofClient_append (t t' : Trace) : ofClient a (t ++ t') = ofClient a t ++ ofClient a t' :=
  List.filter_append ..

theorem targets_append (t t' : Trace) : targets a (t ++ t') = targets a t ++ targets a t' := by
  simp [targets, ofClient_append]

theorem decisions_append (t t' : Trace) : decisions a (t ++ t') = decisions a t ++ decisions a t' := by
  simp [decisions, ofClient_append]

theorem ofClient_others (h : ∀ x ∈ rs, x.client ≠ a) : ofClient a (outcomes L s rs) = [] := by
  refine List.filter_eq_nil_iff.2 fun x hx => ?_
  have hm : x.1 ∈ (outcomes L s rs).map (·.1) := List.mem_map_of_mem hx
  rw [map_fst_outcomes] at hm
  simpa using h x.1 hm

/-! ## Logins that no throttler counts -/

/-- How a login that is not counted ends, by where it came to. -/
def verdict (k : Option Bucket) (r : Request) : Option Instance → Outcome
  | none => if (limitReq k r.time).isSome then .page else .limited
  | some i => .malformed i

def verdicts : Option Bucket → List Request → List (Option Instance) → List Outcome
  | k, r :: rs, t :: ts =>
    if r.login then verdict k r t :: verdicts (nextBucket k r) rs ts else verdicts (nextBucket k r) rs ts
  | _, _, _ => []

theorem step_uncounted (hr : r.login = true) (hc : counts (s.buckets r.client) r = false) :
    (step L s r).2 = verdict (s.buckets r.client) r (step L s r).2.instance? := by
  cases h : step L s r with
  | mk s' o =>
    have hs := step_cases L s r
    rw [h] at hs
    cases hs with
    | limited hb => simp [Outcome.instance?, verdict, hb]
    | page hb => simp [Outcome.instance?, verdict, hb]
    | malformed => rfl
    | counted hb hcall hq =>
      have hcount : counts (s.buckets r.client) r = true :=
        counts_iff.2 ⟨hr, ⟨_, hb⟩, _, _, _, _, hcall, hq⟩
      rw [hc] at hcount
      cases hcount

theorem decisions_uncounted (h : counted (s.buckets a) (rs.filter fun r => r.client = a) = false) :
    decisions a (outcomes L s rs) =
      verdicts (s.buckets a) (rs.filter fun r => r.client = a) (targets a (outcomes L s rs)) := by
  induction rs generalizing s with
  | nil => rfl
  | cons r rs ih =>
    have hbucket := step_buckets L s r a
    by_cases hr : r.client = a
    · subst hr
      rw [if_pos rfl] at hbucket
      simp only [List.filter_cons, decide_true, if_true, counted, Bool.or_eq_false_iff] at h ⊢
      have ih' := ih (s := (step L s r).1) (by rw [hbucket]; exact h.2)
      rw [hbucket] at ih'
      simp only [decisions, targets, ofClient] at ih' ⊢
      simp only [outcomes, List.filter_cons, decide_true, if_true, List.map_cons, verdicts]
      by_cases hl : r.login = true
      · simp only [hl, if_true, List.map_cons, ih', List.cons.injEq, and_true]
        exact step_uncounted hl h.1
      · simp only [hl, Bool.false_eq_true, if_false, ih']
    · rw [if_neg (Ne.symm hr)] at hbucket
      simp only [List.filter_cons, hr, decide_false, Bool.false_eq_true, if_false] at h ⊢
      have ih' := ih (s := (step L s r).1) (by rw [hbucket]; exact h)
      rw [hbucket] at ih'
      simpa only [decisions, targets, ofClient, outcomes, List.filter_cons, hr, decide_false,
        Bool.false_eq_true, if_false] using ih'

theorem independent_of_uncounted (h : counted none as = false) : Independent L a as := by
  intro rs rs' _ _ hrs hrs' htargets
  have h1 : decisions a (outcomes L init rs) = verdicts none as (targets a (outcomes L init rs)) := by
    rw [← hrs]
    exact decisions_uncounted (by rw [hrs]; exact h)
  have h2 : decisions a (outcomes L init rs') = verdicts none as (targets a (outcomes L init rs')) := by
    rw [← hrs']
    exact decisions_uncounted (by rw [hrs']; exact h)
  rw [h1, h2, htargets]

/-! ## Where a request comes to -/

/-- The instance that a request comes to, and the turn after it. -/
def routed (k : Option Bucket) (turn : ℕ) (r : Request) : Option Instance × ℕ :=
  match limitReq k r.time, r.target.call (.remote r.client) with
  | some _, some (via, _) => (some (via.route turn).1, (via.route turn).2)
  | _, _ => (none, turn)

theorem step_routed (L : Limiter Key) (s : State) (r : Request) :
    ((step L s r).2.instance?, (step L s r).1.turn) = routed (s.buckets r.client) s.turn r := by
  cases h : step L s r with
  | mk s' o =>
    have hs := step_cases L s r
    rw [h] at hs
    cases hs with
    | limited hb => simp [Outcome.instance?, routed, hb]
    | page hb hc => simp [Outcome.instance?, routed, hb, hc]
    | malformed hb hc => simp [Outcome.instance?, routed, hb, hc]
    | counted hb hc hq hi =>
      simp only [routed, hb, hc, hi]
      split_ifs
      · unfold validated
        split_ifs <;> rfl
      · rfl

/-- The states send the requests of the client to the same instances. -/
structure Alike (a : ℕ) (s s' : State) : Prop where
  bucket : s.buckets a = s'.buckets a
  turn : s.turn % 2 = s'.turn % 2

theorem Alike.step (h : Alike a s s') (hr : r.client = a) (L : Limiter Key) :
    (step L s r).2.instance? = (step L s' r).2.instance? ∧ Alike a (step L s r).1 (step L s' r).1 := by
  have h1 := step_routed L s r
  have h2 := step_routed L s' r
  have hroute : ∀ via : Via, (via.route s.turn).1 = (via.route s'.turn).1 ∧
      (via.route s.turn).2 % 2 = (via.route s'.turn).2 % 2 := by
    intro via
    have hturn := h.turn
    cases via with
    | upstream =>
      simp only [Via.route, upstream, hturn, true_and]
      omega
    | app i => exact ⟨rfl, hturn⟩
  have hboth : (routed (s.buckets r.client) s.turn r).1 = (routed (s'.buckets r.client) s'.turn r).1 ∧
      (routed (s.buckets r.client) s.turn r).2 % 2 = (routed (s'.buckets r.client) s'.turn r).2 % 2 := by
    rw [hr, ← h.bucket]
    unfold routed
    split
    · next via _ _ _ => exact ⟨congrArg some (hroute via).1, (hroute via).2⟩
    · exact ⟨rfl, h.turn⟩
  rw [← h1, ← h2] at hboth
  refine ⟨hboth.1, ?_, hboth.2⟩
  rw [step_buckets, step_buckets, if_pos hr.symm, if_pos hr.symm, h.bucket]

theorem Alike.targets (h : Alike a s s') (has : ∀ r ∈ as, r.client = a) (L : Limiter Key) :
    targets a (outcomes L s as) = targets a (outcomes L s' as) := by
  induction as generalizing s s' with
  | nil => rfl
  | cons r as ih =>
    have hr := has r List.mem_cons_self
    obtain ⟨h1, h2⟩ := h.step hr L
    have ih' := ih h2 fun x hx => has x (List.mem_cons_of_mem _ hx)
    simp only [Edge.targets, ofClient] at ih' ⊢
    simp only [outcomes, List.filter_cons, hr, decide_true, if_true, List.map_cons, h1, ih']

/-! ## What a run of requests leaves -/

theorem after_buckets (L : Limiter Key) (s : State) (hrs : ∀ r ∈ rs, r.client = b) (a : ℕ) :
    (after L s rs).buckets a = if a = b then rs.foldl nextBucket (s.buckets a) else s.buckets a := by
  induction rs generalizing s with
  | nil => simp [after]
  | cons r rs ih =>
    have hr := hrs r List.mem_cons_self
    have ih' := ih (step L s r).1 fun x hx => hrs x (List.mem_cons_of_mem _ hx)
    have hb := step_buckets L s r a
    rw [hr] at hb
    simp only [after, List.foldl_cons] at ih' ⊢
    rw [ih', hb]
    by_cases hab : a = b
    · simp [hab]
    · simp [hab]

/-- A call of the login handler is that of a login. -/
theorem login_of_call {c : Address} {via : Via} {q : HttpRequest} (hc : r.target.call c = some (via, q))
    (hq : q.handler = .login) : r.login = true := by
  unfold Request.login
  unfold Target.call at hc
  split at hc
  · obtain ⟨-, rfl⟩ := Prod.mk.inj (Option.some.inj hc)
    dsimp only at hq
    subst hq
    next ht => rw [ht]
  · obtain ⟨-, rfl⟩ := Prod.mk.inj (Option.some.inj hc)
    cases hq
  · obtain ⟨-, rfl⟩ := Prod.mk.inj (Option.some.inj hc)
    cases hq
  · next ht => rw [ht]
  · obtain ⟨i, -, hi⟩ := Option.map_eq_some_iff.1 hc
    obtain ⟨-, rfl⟩ := Prod.mk.inj hi
    cases hq

/-- The throttlers have not seen a login. -/
def NoLogin (s : State) : Prop := ∀ i, ∀ h ∈ s.hits i, h.key.handler ≠ .login

theorem noLogin_of_uncounted (L : Limiter Key) (has : ∀ r ∈ as, r.client = a)
    (hc : counted (s.buckets a) as = false) (hs : NoLogin s) : NoLogin (after L s as) := by
  induction as generalizing s with
  | nil => exact hs
  | cons r as ih =>
    obtain rfl : r.client = a := has r List.mem_cons_self
    have hb := step_buckets L s r r.client
    rw [if_pos rfl] at hb
    simp only [counted, Bool.or_eq_false_iff] at hc
    refine ih (s := (step L s r).1) (fun x hx => has x (List.mem_cons_of_mem _ hx)) ?_ ?_
    · rw [hb]
      exact hc.2
    · cases h : step L s r with
      | mk s' o =>
        have hst := step_cases L s r
        rw [h] at hst
        cases hst with
        | limited => exact hs
        | page => exact hs
        | malformed => exact hs
        | @counted k via q u p i hit hk hcall hq hi hh =>
          intro j x hx
          by_cases hij : j = i
          · subst hij
            simp only [Function.update_self, List.mem_cons] at hx
            rcases hx with rfl | hx
            · rw [hh]
              intro hlogin
              have hcount : counts (s.buckets r.client) r = true :=
                counts_iff.2 ⟨login_of_call hcall hlogin, ⟨k, hk⟩, via, q, u, p, hcall, hq⟩
              rw [hc.1] at hcount
              cases hcount
            · exact hs j x hx
          · simp only [Function.update_of_ne hij] at hx
            exact hs j x hx

/-- What a request does that a throttler counts. -/
theorem step_counted {k : Bucket} {via : Via} {q : HttpRequest} {u p : JsValue}
    (hk : limitReq (s.buckets r.client) r.time = some k)
    (hc : r.target.call (.remote r.client) = some (via, q)) (hq : q.body = .parsed u p) :
    step L s r =
      ({ s with
          buckets := Function.update s.buckets r.client (some k)
          turn := (via.route s.turn).2
          hits := Function.update s.hits (via.route s.turn).1
            (⟨⟨q.handler, q.remoteAddress⟩, r.time⟩ :: s.hits (via.route s.turn).1) },
        if L (s.hits (via.route s.turn).1) ⟨⟨q.handler, q.remoteAddress⟩, r.time⟩ then
          validated q u p (via.route s.turn).1 else .throttled (via.route s.turn).1) := by
  rw [step, hk]
  dsimp only
  rw [hc]
  dsimp only
  rw [arrive, hq, ip_eq]

/-! ## Logins of another client -/

/-- The bucket has room at the time `t`, after `n` requests at this time. -/
def Room (t n : ℕ) (k : Option Bucket) : Prop := k = none ∨ ∃ e ≤ 1000 * n, k = some ⟨e, t⟩

theorem Room.next {t n : ℕ} {k : Option Bucket} (h : Room t n k) (hn : n < BURST) :
    ∃ k', limitReq k t = some k' ∧ Room t (n + 1) (some k') := by
  simp only [BURST] at hn
  rcases h with rfl | ⟨e, he, rfl⟩
  · exact ⟨⟨0, t⟩, rfl, Or.inr ⟨0, by omega, rfl⟩⟩
  · have he' : e + 1000 - RATE * (t - t) = e + 1000 := by simp
    have hle : ¬ BURST * 1000 < e + 1000 - RATE * (t - t) := by
      rw [he']
      simp only [BURST]
      omega
    exact ⟨⟨e + 1000 - RATE * (t - t), t⟩, if_neg hle, Or.inr ⟨_, by rw [he']; omega, rfl⟩⟩

/-- A login at the API, or by the form. -/
def loginAt (t b : ℕ) : Via → Request
  | .upstream => ⟨t, b, .api .login (.parsed none none) []⟩
  | .app i => ⟨t, b, .loginAction (some (js "x")) (some (js "x")) i⟩

/-- The address at which an instance sees the logins of one way. -/
def Via.peer : Via → Address
  | .upstream => .nginx
  | .app _ => .frontend

/-- What one such login does. -/
theorem step_loginAt {t n : ℕ} (via : Via) (h : Room t n (s.buckets b)) (hn : n < BURST) (L : Limiter Key) :
    Room t (n + 1) ((step L s (loginAt t b via)).1.buckets b) ∧
      (step L s (loginAt t b via)).1.turn = (via.route s.turn).2 ∧
      (step L s (loginAt t b via)).1.hits = Function.update s.hits (via.route s.turn).1
        (⟨⟨.login, via.peer⟩, t⟩ :: s.hits (via.route s.turn).1) := by
  obtain ⟨k, hk, hroom⟩ := h.next hn
  obtain ⟨q, u, p, hc, hq, hh, hpeer⟩ : ∃ q u p, (loginAt t b via).target.call (.remote b) = some (via, q) ∧
      q.body = .parsed u p ∧ q.handler = .login ∧ q.remoteAddress = via.peer := by
    cases via with
    | upstream => exact ⟨_, none, none, rfl, rfl, rfl, rfl⟩
    | app i => exact ⟨_, some (.str (js "x")), some (.str (js "x")), rfl, rfl, rfl, rfl⟩
  have hclient : (loginAt t b via).client = b := by cases via <;> rfl
  have htime : (loginAt t b via).time = t := by cases via <;> rfl
  rw [step_counted (r := loginAt t b via) (by rw [hclient, htime]; exact hk) (by rw [hclient]; exact hc) hq]
  simp only [hclient, htime, hh, hpeer, Function.update_self]
  exact ⟨hroom, trivial, trivial⟩

/-- Logins by the form at one instance. -/
theorem after_form {t n : ℕ} (i : Instance) (hb : s.buckets b = none) (hn : n ≤ BURST) (L : Limiter Key) :
    let s' := after L s (List.replicate n (loginAt t b (.app i)))
    Room t n (s'.buckets b) ∧ s'.turn = s.turn ∧
      s'.hits i = List.replicate n ⟨⟨.login, .frontend⟩, t⟩ ++ s.hits i := by
  induction n with
  | zero => exact ⟨Or.inl hb, rfl, rfl⟩
  | succ n ih =>
    obtain ⟨h1, h2, h3⟩ := ih (by omega)
    rw [List.replicate_succ', after_append]
    obtain ⟨h4, h5, h6⟩ := step_loginAt (.app i) h1 (by omega) L
    refine ⟨h4, h5.trans h2, ?_⟩
    simp only [after, List.foldl_cons, List.foldl_nil] at h3 h6 ⊢
    rw [h6, Via.route, Function.update_self, h3, List.replicate_succ]
    rfl

/-- Two requests in turn come to both instances. -/
theorem upstream_pair (turn : ℕ) (i : Instance) :
    (i = upstream turn ∧ i ≠ upstream (turn + 1)) ∨ (i ≠ upstream turn ∧ i = upstream (turn + 1)) := by
  unfold upstream
  by_cases h : turn % 2 = 0
  · rw [if_pos h, if_neg (by omega)]
    cases i <;> simp
  · rw [if_neg h, if_pos (by omega)]
    cases i <;> simp

/-- Logins at the API, to both instances in turn. -/
theorem after_api {t n : ℕ} (hb : s.buckets b = none) (hn : 2 * n ≤ BURST) (L : Limiter Key) :
    let s' := after L s (List.replicate (2 * n) (loginAt t b .upstream))
    Room t (2 * n) (s'.buckets b) ∧ s'.turn = s.turn + 2 * n ∧
      ∀ i, s'.hits i = List.replicate n ⟨⟨.login, .nginx⟩, t⟩ ++ s.hits i := by
  induction n with
  | zero => exact ⟨Or.inl hb, rfl, fun _ => rfl⟩
  | succ n ih =>
    obtain ⟨h1, h2, h3⟩ := ih (by omega)
    rw [show 2 * (n + 1) = 2 * n + 1 + 1 by omega, List.replicate_succ', List.replicate_succ', after_append,
      after_append]
    generalize after L s (List.replicate (2 * n) (loginAt t b .upstream)) = s₁ at h1 h2 h3 ⊢
    obtain ⟨h4, h5, h6⟩ := step_loginAt .upstream h1 (by omega) L
    generalize hs₂ : (step L s₁ (loginAt t b .upstream)).1 = s₂ at h4 h5 h6
    obtain ⟨h7, h8, h9⟩ := step_loginAt .upstream h4 (by omega) L
    simp only [after, List.foldl_cons, List.foldl_nil, hs₂]
    refine ⟨h7, ?_, fun i => ?_⟩
    · simp only [Via.route] at h5 h8
      omega
    · rw [h9, h6, h5]
      simp only [Via.route, Via.peer]
      rw [List.replicate_succ, List.cons_append, ← h3 i]
      rcases upstream_pair s₁.turn i with ⟨rfl, hne⟩ | ⟨hne, rfl⟩
      · rw [Function.update_of_ne hne, Function.update_self]
      · rw [Function.update_self, Function.update_of_ne hne]

/-- **Another client can use up the limit** without anything else changing for this one. -/
theorem flood {t : ℕ} (via : Via) (hab : a ≠ b) (hb : s.buckets b = none) (L : Limiter Key) :
    ∃ bs : List Request, (∀ x ∈ bs, x.client = b ∧ x.time = t) ∧ Alike a s (after L s bs) ∧
      (after L s bs).hits (via.route s.turn).1 =
        List.replicate 5 ⟨⟨.login, via.peer⟩, t⟩ ++ s.hits (via.route s.turn).1 := by
  have hclient : ∀ via' : Via, (loginAt t b via').client = b ∧ (loginAt t b via').time = t := by
    intro via'
    cases via' <;> exact ⟨rfl, rfl⟩
  have hreq : ∀ n, ∀ x ∈ List.replicate n (loginAt t b via), x.client = b ∧ x.time = t := by
    intro n x hx
    rw [List.eq_of_mem_replicate hx]
    exact hclient via
  have hbucket : ∀ n, s.buckets a = (after L s (List.replicate n (loginAt t b via))).buckets a := by
    intro n
    rw [after_buckets L s (fun x hx => (hreq n x hx).1) a, if_neg hab]
  cases via with
  | upstream =>
    obtain ⟨-, h2, h3⟩ := after_api (t := t) (n := 5) hb (by decide) L
    refine ⟨_, hreq 10, ⟨hbucket 10, ?_⟩, h3 _⟩
    rw [h2]
    omega
  | app i =>
    obtain ⟨-, h2, h3⟩ := after_form (t := t) (n := 5) i hb (by decide) L
    exact ⟨_, hreq 5, ⟨hbucket 5, by rw [h2]⟩, h3⟩

/-! ## Logins that a throttler counts -/

/-- The first login that is counted. -/
theorem counted_split {k : Option Bucket} (h : counted k as = true) :
    ∃ as₁ r as₂, as = as₁ ++ r :: as₂ ∧ counted k as₁ = false ∧
      counts (as₁.foldl nextBucket k) r = true := by
  induction as generalizing k with
  | nil => cases h
  | cons r as ih =>
    by_cases hr : counts k r = true
    · exact ⟨[], r, as, rfl, rfl, hr⟩
    · simp only [counted, hr, Bool.false_or] at h
      obtain ⟨as₁, x, as₂, rfl, h1, h2⟩ := ih h
      refine ⟨r :: as₁, x, as₂, rfl, ?_, h2⟩
      simp only [counted, hr, h1, Bool.or_false]

/-- A call of a login comes from where all logins of its way come from. -/
theorem call_login {c : Address} {via : Via} {q : HttpRequest} (hr : r.login = true)
    (hc : r.target.call c = some (via, q)) : q.handler = .login ∧ q.remoteAddress = via.peer := by
  unfold Request.login at hr
  unfold Target.call at hc
  split at hc
  · next ht =>
    obtain ⟨rfl, rfl⟩ := Prod.mk.inj (Option.some.inj hc)
    rw [ht] at hr
    split at hr
    · next he =>
      cases he
      exact ⟨rfl, rfl⟩
    · next he => cases he
    · cases hr
  · next ht => rw [ht] at hr; cases hr
  · next ht => rw [ht] at hr; cases hr
  · obtain ⟨x, -, hx⟩ := Option.map_eq_some_iff.1 hc
    obtain ⟨rfl, rfl⟩ := Prod.mk.inj hx
    exact ⟨rfl, rfl⟩
  · next ht => rw [ht] at hr; cases hr

theorem validated_ne_throttled (q : HttpRequest) (u p : JsValue) (i j : Instance) :
    validated q u p i ≠ .throttled j := by
  unfold validated
  split_ifs <;> exact nofun

/-- **A login that is counted ends otherwise after logins of another client.** -/
theorem flood_changes (hL : L.Keeps throttle) (hno : NoLogin s)
    (hord : ∀ i, Limiter.Ordered (s.hits i) ∧ ∀ h ∈ s.hits i, h.time ≤ r.time) (hab : r.client ≠ b)
    (hb : s.buckets b = none) (hcount : counts (s.buckets r.client) r = true) :
    ∃ bs : List Request, (∀ x ∈ bs, x.client = b ∧ x.time = r.time) ∧ Alike r.client s (after L s bs) ∧
      (step L s r).2 ≠ (step L (after L s bs) r).2 := by
  obtain ⟨hlogin, ⟨k, hk⟩, via, q, u, p, hc, hq⟩ := counts_iff.1 hcount
  obtain ⟨hhandler, hpeer⟩ := call_login hlogin hc
  obtain ⟨bs, hbs, halike, hhits⟩ := flood (t := r.time) via hab hb L
  refine ⟨bs, hbs, halike, ?_⟩
  have hroute : (via.route (after L s bs).turn).1 = (via.route s.turn).1 := by
    have hturn := halike.turn
    cases via with
    | upstream => simp only [Via.route, upstream, hturn]
    | app i => rfl
  generalize hi : (via.route s.turn).1 = i at hhits hroute
  generalize hhit : (⟨⟨q.handler, q.remoteAddress⟩, r.time⟩ : Hit Key) = hit
  have hpolicy : throttle hit.key = ⟨5, 60000⟩ := by
    rw [← hhit, hhandler]
    rfl
  have hnone : (s.hits i).countP (fun x => x.key = hit.key) = 0 := by
    refine List.countP_eq_zero.2 fun x hx => ?_
    have hx' := hno i x hx
    rw [decide_eq_true_eq, ← hhit]
    intro he
    rw [he] at hx'
    exact hx' hhandler
  -- alone it is admitted, after the others it is not
  have hadmitted : L (s.hits i) hit = true := hL.fresh _ _ (by rw [hnone, hpolicy]; decide)
  have hexhausted : L ((after L s bs).hits i) hit = false := by
    have hordered : Limiter.Ordered (hit :: s.hits i) := by
      refine List.pairwise_cons.2 ⟨fun x hx => ?_, (hord i).1⟩
      rw [← hhit]
      exact (hord i).2 x hx
    have hex := hL.exhausted hordered (by rw [hpolicy]; decide) hnone
    rw [hpolicy] at hex
    rw [hhits, ← hpeer, ← hhandler, hhit]
    exact hex
  rw [step_counted hk hc hq, step_counted (by rw [← halike.bucket]; exact hk) hc hq, hroute, hi, hhit,
    if_pos hadmitted, hexhausted]
  exact validated_ne_throttled q u p i i

theorem decisions_cons {o : Outcome} {t : Trace} (hr : r.client = a) (hl : r.login = true) :
    decisions a ((r, o) :: t) = o :: decisions a t := by
  simp [decisions, ofClient, hr, hl]

/-- Requests may be put before one of the same time. -/
theorem inOrder_insert {as₁ as₂ bs : List Request} (h : InOrder (as₁ ++ r :: as₂))
    (hbs : ∀ x ∈ bs, x.time = r.time) : InOrder (as₁ ++ (bs ++ r :: as₂)) := by
  obtain ⟨h₁, hr, hle⟩ := List.pairwise_append.1 h
  refine List.pairwise_append.2 ⟨h₁, List.pairwise_append.2 ⟨?_, hr, ?_⟩, ?_⟩
  · refine List.pairwise_of_forall_mem_list fun x hx y hy => ?_
    rw [hbs x hx, hbs y hy]
  · intro x hx y hy
    rw [hbs x hx]
    rcases List.mem_cons.1 hy with rfl | hy
    · exact le_rfl
    · exact (List.pairwise_cons.1 hr).1 y hy
  · intro x hx y hy
    rcases List.mem_append.1 hy with hy | hy
    · rw [hbs y hy]
      exact hle x hx r List.mem_cons_self
    · exact hle x hx y hy

/-- The requests of other clients are left out again. -/
theorem filter_insert {as₁ as₂ bs : List Request} (h₁ : ∀ x ∈ as₁, x.client = a) (h₂ : ∀ x ∈ as₂, x.client = a)
    (hbs : ∀ x ∈ bs, x.client ≠ a) : (as₁ ++ (bs ++ as₂)).filter (fun x => x.client = a) = as₁ ++ as₂ := by
  have hall : ∀ {l : List Request}, (∀ x ∈ l, x.client = a) → l.filter (fun x => x.client = a) = l :=
    fun hl => List.filter_eq_self.2 fun x hx => decide_eq_true (hl x hx)
  rw [List.filter_append, List.filter_append, hall h₁, hall h₂,
    List.filter_eq_nil_iff.2 fun x hx => by simpa using hbs x hx, List.nil_append]

theorem not_independent_of_counted (hL : L.Keeps throttle) (has : ∀ r ∈ as, r.client = a)
    (hord : InOrder as) (h : counted none as = true) : ¬ Independent L a as := by
  intro hind
  obtain ⟨as₁, r, as₂, rfl, hun, hcount⟩ := counted_split h
  have has₁ : ∀ x ∈ as₁, x.client = a := fun x hx => has x (List.mem_append_left _ hx)
  have hasr : ∀ x ∈ r :: as₂, x.client = a := fun x hx => has x (List.mem_append_right _ hx)
  obtain rfl : r.client = a := hasr r List.mem_cons_self
  obtain ⟨hord₁, -, hle⟩ := List.pairwise_append.1 hord
  -- the state in which the login is requested
  have hbucket : (after L init as₁).buckets r.client = as₁.foldl nextBucket none := by
    rw [after_buckets L init has₁ r.client, if_pos rfl]
    rfl
  have hother : (after L init as₁).buckets (r.client + 1) = none := by
    rw [after_buckets L init has₁ (r.client + 1), if_neg (by omega)]
    rfl
  have hno : NoLogin (after L init as₁) :=
    noLogin_of_uncounted L has₁ hun fun _ _ hx => absurd hx List.not_mem_nil
  have hhits : ∀ i, Limiter.Ordered ((after L init as₁).hits i) ∧
      ∀ h ∈ (after L init as₁).hits i, h.time ≤ r.time := by
    intro i
    obtain ⟨h1, h2⟩ := hits_ordered L hord₁ i
    refine ⟨h1, fun x hx => ?_⟩
    obtain ⟨r', hr', ht⟩ := h2 x hx
    rw [ht]
    exact hle r' hr' r List.mem_cons_self
  obtain ⟨bs, hbs, halike, hne⟩ := flood_changes hL hno hhits (Nat.ne_of_lt (Nat.lt_succ_self r.client))
    hother (by rw [hbucket]; exact hcount)
  -- the two histories
  have hbs' : ∀ x ∈ bs, x.client ≠ r.client := by
    intro x hx
    rw [(hbs x hx).1]
    omega
  have hord' := inOrder_insert hord fun x hx => (hbs x hx).2
  have hfilter := filter_insert has₁ hasr hbs'
  have hothers : ofClient r.client (outcomes L (after L init as₁) bs) = [] := ofClient_others hbs'
  have htargets : targets r.client (outcomes L init (as₁ ++ r :: as₂)) =
      targets r.client (outcomes L init (as₁ ++ (bs ++ r :: as₂))) := by
    rw [outcomes_append, outcomes_append, outcomes_append, targets_append, targets_append, targets_append,
      halike.targets hasr L]
    simp [targets, hothers]
  have hlogin : r.login = true := (counts_iff.1 hcount).1
  have hsame : (as₁ ++ r :: as₂).filter (fun x => x.client = r.client) = as₁ ++ r :: as₂ :=
    List.filter_eq_self.2 fun x hx => decide_eq_true (has x hx)
  have hdecisions := hind _ _ hord hord' hsame hfilter htargets
  have hnil : decisions r.client (outcomes L (after L init as₁) bs) = [] := by
    rw [decisions, hothers]
    rfl
  rw [outcomes_append, outcomes_append, outcomes_append, decisions_append, decisions_append, decisions_append,
    hnil, List.nil_append, List.append_right_inj, outcomes, outcomes, decisions_cons rfl hlogin,
    decisions_cons rfl hlogin] at hdecisions
  exact hne (List.cons.inj hdecisions).1

end

/-- **The logins of a client are independent of other clients iff no throttler counts one of them.** -/
theorem independent_iff (L : Limiter Key) (hL : L.Keeps throttle) (a : ℕ) {as : List Request}
    (has : ∀ r ∈ as, r.client = a) (hord : InOrder as) : Independent L a as ↔ counted none as = false := by
  constructor
  · intro hind
    by_contra hne
    exact not_independent_of_counted hL has hord (by simpa using hne) hind
  · exact independent_of_uncounted

/-- A login whose body cannot be parsed. -/
theorem independent_iff_malformed :
    Independent (Limiter.slidingWindow throttle) 0 [⟨0, 0, .api .login .malformed []⟩] := by
  refine (independent_iff _ (Limiter.slidingWindow_keeps throttle) 0 ?_ (List.pairwise_singleton _ _)).2 rfl
  intro r hr
  rw [List.mem_singleton.1 hr]

/-- One login of the client `0` at the API. -/
def aliceLogin : Request := ⟨0, 0, .api .login (.parsed (some (.str (js "alice"))) (some (.str (js "pw1")))) []⟩

/-- Ten logins of the client `1` before it. -/
def bobLogins : List Request :=
  List.replicate 10 ⟨0, 1, .api .login (.parsed (some (.str (js "bob"))) (some (.str (js "pw1")))) []⟩

/-- The login passes alone, and is throttled after those of the other client. -/
theorem not_independent :
    (Limiter.slidingWindow throttle).Keeps throttle ∧
      ¬ Independent (Limiter.slidingWindow throttle) 0 [aliceLogin] := by
  refine ⟨Limiter.slidingWindow_keeps throttle, fun h => ?_⟩
  have hd := h [aliceLogin] (bobLogins ++ [aliceLogin]) (List.pairwise_singleton _ _)
    (by unfold InOrder bobLogins aliceLogin; decide) rfl rfl (by decide +kernel)
  revert hd
  decide +kernel

end SystemDesign.Edge
