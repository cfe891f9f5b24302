/-
  The way of a request: nginx, the frontend, two app instances.

  nginx limits the requests of each client address (`limit_req`) and passes those for the API on to
  the two instances in turn.  `loginAction` calls an instance from the frontend.  An instance asks
  its own throttler, by the address that Express takes for `req.ip`, then validates the body.  The
  throttler is a parameter: a limiter of the hits this process has seen.
-/
import SystemDesign.Lib.RateLimit
import SystemDesign.Client.Actions
import SystemDesign.Lib.Json

namespace SystemDesign.Edge

open Lib

/-! ## Requests -/

/-- `nestjs_backend` -/
inductive Instance where
  | app1
  | app2
deriving DecidableEq

inductive Address where
  | nginx
  | frontend
  | remote (n : ℕ)
deriving DecidableEq

/-- The route handlers of the app. -/
inductive Handler where
  | getInfo
  | login
  | createTask
  | findAllTasks
  | checkHealth
  | metrics
deriving DecidableEq

/-- What the body parser makes of a body: it rejects it, or these are the members of `LoginDto`. -/
inductive Body where
  | malformed
  | parsed (username password : JsValue)

/-- What a client requests from nginx. -/
inductive Target where
  /-- `location /api/`; the header `X-Forwarded-For` is the client's. -/
  | api (handler : Handler) (body : Body) (forwardedFor : List Address)
  | health (forwardedFor : List Address)
  | metrics (forwardedFor : List Address)
  /-- The form of `loginAction`, and the instance that `nestjs-backend` is resolved to. -/
  | loginAction (username password : Option JsString) (app : Instance)
  /-- Any other request to the frontend; it may post a task to an instance. -/
  | page (app : Option Instance)

/-- A request of the client `remote client`, in milliseconds. -/
structure Request where
  time : ℕ
  client : ℕ
  target : Target

/-! ## nginx -/

/-- `rate=20r/s` -/
def RATE : ℕ := 20

/-- `burst=40` -/
def BURST : ℕ := 40

/-- What `limit_req` keeps of an address: the excess in thousandths of a request, and its time. -/
structure Bucket where
  excess : ℕ
  last : ℕ
deriving DecidableEq

/-- `limit_req zone=edge_limit burst=40 nodelay`, as nginx documents it; `none` where the request is refused.
    What nginx drops from a full zone is left out. -/
def limitReq (b : Option Bucket) (now : ℕ) : Option Bucket :=
  match b with
  | none => some ⟨0, now⟩
  | some b =>
    let excess := b.excess + 1000 - RATE * (now - b.last)
    if BURST * 1000 < excess then none else some ⟨excess, now⟩

/-- `upstream nestjs_backend`: the servers in turn. -/
def upstream (turn : ℕ) : Instance := if turn % 2 = 0 then .app1 else .app2

/-- A request as it arrives at an instance. -/
structure HttpRequest where
  handler : Handler
  body : Body
  /-- The TCP peer. -/
  remoteAddress : Address
  /-- `X-Forwarded-For` -/
  forwardedFor : List Address

/-! ## The frontend -/

/-- The request of `loginRequest`: the fetch sends no header of the client. -/
def loginRequest (username password : JsString) : HttpRequest :=
  ⟨.login, .parsed (some (.str username)) (some (.str password)), .frontend, []⟩

/-- Where a call goes: to the upstream of nginx, or to an instance. -/
inductive Via where
  | upstream
  | app (i : Instance)

/-- The instance, and the turn after it. -/
def Via.route (turn : ℕ) : Via → Instance × ℕ
  | .upstream => (Edge.upstream turn, turn + 1)
  | .app i => (i, turn)

/-- What a request lets arrive at the backend.  Only `location /api/` adds the client's address. -/
def Target.call (client : Address) : Target → Option (Via × HttpRequest)
  | .api handler body forwardedFor => some (.upstream, ⟨handler, body, .nginx, forwardedFor ++ [client]⟩)
  | .health forwardedFor => some (.upstream, ⟨.checkHealth, .parsed none none, .nginx, forwardedFor⟩)
  | .metrics forwardedFor => some (.upstream, ⟨.metrics, .parsed none none, .nginx, forwardedFor⟩)
  | .loginAction username password app =>
    (Client.safeParse username password).toOption.map fun x => (.app app, loginRequest x.1 x.2)
  | .page app => app.map fun i => (.app i, ⟨.createTask, .parsed none none, .frontend, []⟩)

/-! ## The app -/

/-- The setting `trust proxy`; `bootstrap` sets nothing, and Express then trusts no address. -/
def trustProxy (_ : Address) (_ : ℕ) : Bool := false

/-- The first address, from the peer on, that is not trusted. -/
def proxyaddr (trust : Address → ℕ → Bool) : ℕ → Address → List Address → Address
  | _, a, [] => a
  | i, a, b :: rest => if trust a i then proxyaddr trust (i + 1) b rest else a

/-- `req.ip` -/
def HttpRequest.ip (q : HttpRequest) : Address := proxyaddr trustProxy 0 q.remoteAddress q.forwardedFor.reverse

/-- What the throttler counts by: the handler, and the tracker `req.ip`. -/
structure Key where
  handler : Handler
  tracker : Address
deriving DecidableEq

/-- `ThrottlerModule.forRoot`, and `@Throttle` on `AuthController.login`. -/
def throttle (k : Key) : Policy := if k.handler = .login then ⟨5, 60000⟩ else ⟨100, 60000⟩

/-- `@IsString() @IsNotEmpty()` -/
def isNonEmptyString : JsValue → Bool
  | some (.str s) => !s.isEmpty
  | _ => false

/-- How a request ends; `passed` is that the handler's service is called. -/
inductive Outcome where
  /-- nginx answers 503. -/
  | limited
  /-- The frontend answers without a call. -/
  | page
  /-- The body parser answers 400, before any guard. -/
  | malformed (i : Instance)
  /-- `ThrottlerGuard` answers 429. -/
  | throttled (i : Instance)
  /-- `ValidationPipe` answers 400. -/
  | invalid (i : Instance)
  | passed (i : Instance)
deriving DecidableEq

/-- The instance that the request came to. -/
def Outcome.instance? : Outcome → Option Instance
  | .limited | .page => none
  | .malformed i | .throttled i | .invalid i | .passed i => some i

structure State where
  buckets : ℕ → Option Bucket
  turn : ℕ
  /-- What the throttler of each instance has seen, latest first. -/
  hits : Instance → List (Hit Key)

def init : State := ⟨fun _ => none, 0, fun _ => []⟩

variable (L : Limiter Key) (s : State)

/-- What becomes of a hit that is admitted: the pipe validates the body of `login`. -/
def validated (q : HttpRequest) (username password : JsValue) (i : Instance) : Outcome :=
  if q.handler = .login ∧ !(isNonEmptyString username && isNonEmptyString password) then .invalid i
  else .passed i

/-- A request at an instance: body parser, `ThrottlerGuard`, `ValidationPipe`, handler. -/
def arrive (i : Instance) (time : ℕ) (q : HttpRequest) : State × Outcome :=
  match q.body with
  | .malformed => (s, .malformed i)
  | .parsed username password =>
    let h : Hit Key := ⟨⟨q.handler, q.ip⟩, time⟩
    ({ s with hits := Function.update s.hits i (h :: s.hits i) },
      if L (s.hits i) h then validated q username password i else .throttled i)

/-- One request, to its end. -/
def step (r : Request) : State × Outcome :=
  match limitReq (s.buckets r.client) r.time with
  | none => (s, .limited)
  | some b =>
    let s := { s with buckets := Function.update s.buckets r.client (some b) }
    match r.target.call (.remote r.client) with
    | none => (s, .page)
    | some (via, q) => arrive L { s with turn := (via.route s.turn).2 } (via.route s.turn).1 r.time q

/-- The state after some requests. -/
def after (rs : List Request) : State := rs.foldl (fun s r => (step L s r).1) s

/-- Each request and how it ended. -/
def outcomes : State → List Request → List (Request × Outcome)
  | _, [] => []
  | s, r :: rs => (r, (step L s r).2) :: outcomes (step L s r).1 rs

/-- The requests come in the order of their times. -/
def InOrder (rs : List Request) : Prop := rs.Pairwise fun r r' => r.time ≤ r'.time

section
variable {L : Limiter Key} {s : State} {r : Request} {rs rs' : List Request}

theorem after_append : after L s (rs ++ rs') = after L (after L s rs) rs' := by
  rw [after, List.foldl_append]
  rfl

theorem outcomes_append : outcomes L s (rs ++ rs') = outcomes L s rs ++ outcomes L (after L s rs) rs' := by
  induction rs generalizing s with
  | nil => rfl
  | cons r rs ih => simp only [List.cons_append, outcomes, ih]; rfl

theorem map_fst_outcomes : (outcomes L s rs).map (·.1) = rs := by
  induction rs generalizing s with
  | nil => rfl
  | cons r rs ih => simp [outcomes, ih]

/-- The peer is the address: no proxy is trusted. -/
theorem ip_eq (q : HttpRequest) : q.ip = q.remoteAddress := by
  unfold HttpRequest.ip
  cases q.forwardedFor.reverse <;> simp [proxyaddr, trustProxy]

/-! ## What a request does -/

/-- The ways a request goes, one constructor for each. -/
inductive Step (L : Limiter Key) (s : State) (r : Request) : State × Outcome → Prop
  | limited (hb : limitReq (s.buckets r.client) r.time = none) : Step L s r (s, .limited)
  | page {b} (hb : limitReq (s.buckets r.client) r.time = some b)
    (hc : r.target.call (.remote r.client) = none) :
    Step L s r ({ s with buckets := Function.update s.buckets r.client (some b) }, .page)
  | malformed {b via q} (hb : limitReq (s.buckets r.client) r.time = some b)
    (hc : r.target.call (.remote r.client) = some (via, q)) (hq : q.body = .malformed) :
    Step L s r ({ s with
      buckets := Function.update s.buckets r.client (some b)
      turn := (via.route s.turn).2 }, .malformed (via.route s.turn).1)
  | counted {b via q username password i h} (hb : limitReq (s.buckets r.client) r.time = some b)
    (hc : r.target.call (.remote r.client) = some (via, q)) (hq : q.body = .parsed username password)
    (hi : i = (via.route s.turn).1) (hh : h = ⟨⟨q.handler, q.remoteAddress⟩, r.time⟩) :
    Step L s r ({ s with
      buckets := Function.update s.buckets r.client (some b)
      turn := (via.route s.turn).2
      hits := Function.update s.hits i (h :: s.hits i) },
      if L (s.hits i) h then validated q username password i else .throttled i)

theorem step_cases (L : Limiter Key) (s : State) (r : Request) : Step L s r (step L s r) := by
  unfold step
  split
  · next hb => exact .limited hb
  · next b hb =>
    dsimp only
    split
    · next hc => exact .page hb hc
    · next via q hc =>
      unfold arrive
      split
      · next hq => exact .malformed hb hc hq
      · next username password hq =>
        rw [ip_eq]
        exact .counted hb hc hq rfl rfl

/-- The bucket of an address after a request of it. -/
def nextBucket (b : Option Bucket) (r : Request) : Option Bucket := (limitReq b r.time).or b

/-- A request moves on the bucket of its own client only. -/
theorem step_buckets (L : Limiter Key) (s : State) (r : Request) (c : ℕ) :
    (step L s r).1.buckets c = if c = r.client then nextBucket (s.buckets c) r else s.buckets c := by
  have key : ∀ b, limitReq (s.buckets r.client) r.time = some b →
      Function.update s.buckets r.client (some b) c =
        if c = r.client then nextBucket (s.buckets c) r else s.buckets c := by
    intro b hb
    by_cases hc : c = r.client
    · subst hc
      simp [nextBucket, hb]
    · simp [hc]
  cases h : step L s r with
  | mk s' o =>
    have hs := step_cases L s r
    rw [h] at hs
    cases hs with
    | limited hb =>
      by_cases hc : c = r.client
      · subst hc
        simp [nextBucket, hb]
      · simp [hc]
    | page hb => exact key _ hb
    | malformed hb => exact key _ hb
    | counted hb => exact key _ hb

/-- What the throttlers have seen are requests, in their order. -/
theorem hits_ordered (L : Limiter Key) {rs : List Request} (hs : InOrder rs) (i : Instance) :
    Limiter.Ordered ((after L init rs).hits i) ∧ ∀ h ∈ (after L init rs).hits i, ∃ r ∈ rs, h.time = r.time := by
  induction rs using List.reverseRecOn with
  | nil => exact ⟨List.Pairwise.nil, fun h hh => absurd hh List.not_mem_nil⟩
  | append_singleton rs r ih =>
    obtain ⟨hs', -, hle⟩ := List.pairwise_append.1 hs
    obtain ⟨ih1, ih2⟩ := ih hs'
    have ih2' : ∀ h ∈ (after L init rs).hits i, ∃ r' ∈ rs ++ [r], h.time = r'.time := by
      intro h hh
      obtain ⟨r', hr', ht⟩ := ih2 h hh
      exact ⟨r', List.mem_append_left _ hr', ht⟩
    rw [after_append]
    simp only [after, List.foldl_cons, List.foldl_nil]
    simp only [after] at ih1 ih2 ih2'
    generalize rs.foldl (fun s r => (step L s r).1) init = s at ih1 ih2 ih2' ⊢
    cases h : step L s r with
    | mk s' o =>
      have hst := step_cases L s r
      rw [h] at hst
      cases hst with
      | limited => exact ⟨ih1, ih2'⟩
      | page => exact ⟨ih1, ih2'⟩
      | malformed => exact ⟨ih1, ih2'⟩
      | @counted b via q u p j hit hb hc hq hj hh =>
        by_cases hij : i = j
        · subst hij
          simp only [Function.update_self]
          refine ⟨List.pairwise_cons.2 ⟨fun x hx => ?_, ih1⟩, fun x hx => ?_⟩
          · obtain ⟨r', hr', ht⟩ := ih2 x hx
            rw [ht, hh]
            exact hle r' hr' r (List.mem_singleton_self r)
          · rcases List.mem_cons.1 hx with rfl | hx
            · exact ⟨r, by simp, by rw [hh]⟩
            · exact ih2' x hx
        · simp only [Function.update_of_ne hij]
          exact ⟨ih1, ih2'⟩

end

end SystemDesign.Edge
