/-
  One browser and its session cookie.

  Any number of tabs send server actions and share a cookie jar: a request takes the cookie along, the
  server works on it, and its response changes the jar when it arrives.  An action that is told 401
  deletes the cookie by its name, whatever it holds by then (`session_kept`).
-/
import SystemDesign.Client.Actions
import SystemDesign.Lib.Run

namespace SystemDesign.Client

open Lib

/-! ## The browser -/

/-- What a tab sends. -/
inductive Job where
  | login (username password : Option JsString)
  | logout
  | createTask (title : Option JsString)

def Job.code : Job → Action Unit
  | login username password => do
    let _ ← loginAction username password
    return ()
  | logout => logoutAction
  | createTask title => do
    let _ ← createTaskAction title
    return ()

structure Cookie where
  value : JsString
  expires : ℕ

structure Call where
  job : Job
  exchange : Exchange
  /-- What the server has left to do. -/
  prog : Action Unit
  /-- The response has arrived. -/
  arrived : Bool

structure State where
  jar : Option Cookie
  calls : List Call
  now : ℕ

/-- The cookie that a request takes along: it is not expired. -/
def State.session (s : State) : Option JsString :=
  s.jar.bind fun c => if s.now < c.expires then some c.value else none

theorem State.session_eq_some {s : State} {t : JsString} :
    s.session = some t ↔ ∃ c, s.jar = some c ∧ s.now < c.expires ∧ c.value = t := by
  constructor
  · intro h
    obtain ⟨c, hc, h⟩ := Option.bind_eq_some_iff.1 h
    split_ifs at h with hlt
    exact ⟨c, hc, hlt, Option.some.inj h⟩
  · rintro ⟨c, hc, hlt, rfl⟩
    rw [State.session, hc, Option.bind_some, if_pos hlt]

inductive Act where
  | send (job : Job)
  /-- The operation that the call awaits is done. -/
  | serve (call : ℕ) (c : Choice)
  /-- The response of the call arrives. -/
  | receive (call : ℕ)
  | tick (seconds : ℕ)

-- `SESSION_COOKIE_MAX_AGE_SECONDS`
variable (maxAge : ℕ)

/-- What a response does to the jar. -/
def store (now : ℕ) (jar : Option Cookie) : Option SetCookie → Option Cookie
  | none => jar
  | some (.set token) => some ⟨token, now + maxAge⟩
  | some .delete => none

/-- The server is done with the call. -/
def Call.ended (call : Call) : Bool := call.prog.next.isNone

/-- **One atomic step**; `none` where the action is not possible. -/
def step (s : State) : Act → Option State
  | .send job => some { s with calls := s.calls ++ [⟨job, ⟨s.session, none, []⟩, job.code, false⟩] }
  | .serve i c => s.calls[i]?.bind fun call =>
    match call.prog with
    | .await o k => (o.step c call.exchange).map fun x =>
      { s with calls := s.calls.set i { call with exchange := x.2, prog := k x.1 } }
    | _ => none
  | .receive i => s.calls[i]?.bind fun call =>
    if call.ended && !call.arrived then
      some { s with
        jar := store maxAge s.now s.jar call.exchange.setCookie
        calls := s.calls.set i { call with arrived := true } }
    else none
  | .tick seconds => some { s with now := s.now + seconds }

abbrev run : State → List Act → Option State := exec (step maxAge)

/-- The steps, one constructor for each kind. -/
inductive Step (s : State) : Act → State → Prop
  | send {job} :
    Step s (.send job) { s with calls := s.calls ++ [⟨job, ⟨s.session, none, []⟩, job.code, false⟩] }
  | serve {i c call o k a e} (hi : s.calls[i]? = some call) (hp : call.prog = .await o k)
    (ho : o.step c call.exchange = some (a, e)) :
    Step s (.serve i c) { s with calls := s.calls.set i { call with exchange := e, prog := k a } }
  | receive {i call} (hi : s.calls[i]? = some call) (hend : call.ended = true) (ha : call.arrived = false) :
    Step s (.receive i) { s with
      jar := store maxAge s.now s.jar call.exchange.setCookie
      calls := s.calls.set i { call with arrived := true } }
  | tick {seconds} : Step s (.tick seconds) { s with now := s.now + seconds }

variable {maxAge}

theorem step_cases {s s' : State} {a : Act} (h : step maxAge s a = some s') : Step maxAge s a s' := by
  cases a with
  | send job => cases h; exact .send
  | serve i c =>
    obtain ⟨call, hi, h⟩ := Option.bind_eq_some_iff.1 h
    split at h
    · next o k hp =>
      obtain ⟨⟨a, e⟩, ho, rfl⟩ := Option.map_eq_some_iff.1 h
      exact .serve hi hp ho
    · cases h
  | receive i =>
    obtain ⟨call, hi, h⟩ := Option.bind_eq_some_iff.1 h
    split_ifs at h with hc
    simp only [Bool.and_eq_true, Bool.not_eq_true'] at hc
    cases h
    exact .receive hi hc.1 hc.2
  | tick seconds => cases h; exact .tick

/-! ## What a response may do -/

/-- A response sets the cookie only for a login.  It deletes it for a logout, or where the API replied
    401 to the token that came with the request. -/
structure Fits (job : Job) (cookie : Option JsString) (e : Exchange) : Prop where
  sent : e.cookie = cookie
  set : ∀ t, e.setCookie = some (.set t) → ∃ u p, job = .login u p
  delete : e.setCookie = some .delete →
    job = .logout ∨ (∃ title, job = .createTask title) ∧ ∃ t ∈ e.rejected, cookie = some t

abbrev CodeFits (job : Job) (cookie : Option JsString) {ρ : Type} (p : Action ρ) (e : Exchange) : Prop :=
  Async.Safe Op.step Eq (fun _ _ e' => Fits job cookie e') (fun _ _ => True) p e

section
variable {job : Job} {cookie : Option JsString} {e : Exchange} {ρ : Type}

theorem codeFits_await {o : Op} {k : Except Thrown o.Ans → Action ρ}
    (h : ∀ c a e', o.step c e = some (a, e') → Fits job cookie e' ∧ CodeFits job cookie (k a) e') :
    CodeFits job cookie (.await o k) e := by
  rintro _ rfl c a e' ha
  exact h c a e' ha

/-- An operation that the API has no part in. -/
theorem codeFits_own {o : Op} {k : Except Thrown o.Ans → Action ρ} {x : o.Ans} {e' : Exchange}
    (ho : ∀ c, o.step c e = some (.ok x, e')) (hf : Fits job cookie e')
    (h : CodeFits job cookie (k (.ok x)) e') : CodeFits job cookie (.await o k) e := by
  refine codeFits_await fun c a e'' ha => ?_
  rw [ho] at ha
  cases ha
  exact ⟨hf, h⟩

theorem fits_fresh (job : Job) (cookie : Option JsString) (ts : List JsString) :
    Fits job cookie ⟨cookie, none, ts⟩ :=
  ⟨rfl, nofun, nofun⟩

theorem logout_fits : CodeFits .logout cookie Job.logout.code ⟨cookie, none, []⟩ := by
  refine codeFits_own (fun _ => rfl) ⟨rfl, nofun, fun _ => Or.inl rfl⟩ ?_
  trivial

theorem readToken_cases (res : Reply JsString) :
    (∃ t, readToken res = .ret t) ∨ ∃ err, readToken res = .throw err := by
  unfold readToken
  split_ifs
  · exact Or.inr ⟨_, rfl⟩
  · exact Or.inr ⟨_, rfl⟩
  · cases res.body with
    | some t => exact Or.inl ⟨t, rfl⟩
    | none => exact Or.inr ⟨_, rfl⟩

theorem login_fits (u p : Option JsString) :
    CodeFits (.login u p) cookie (Job.login u p).code ⟨cookie, none, []⟩ := by
  simp only [Job.code, loginAction]
  cases safeParse u p with
  | error message => trivial
  | ok x =>
    refine codeFits_await fun c a e' ha => ?_
    simp only [Op.step] at ha
    split_ifs at ha with hfail
    · cases ha
      exact ⟨fits_fresh _ _ _, trivial⟩
    · cases ha
      refine ⟨fits_fresh _ _ _, ?_⟩
      change CodeFits _ _ (((readToken ⟨c.status, c.token⟩ >>= fun _ => _).tryCatch _ >>= _) >>= _) _
      rcases readToken_cases ⟨c.status, c.token⟩ with ⟨t, ht⟩ | ⟨err, herr⟩
      · rw [ht]
        refine codeFits_own (fun _ => rfl) ⟨rfl, fun _ _ => ⟨u, p, rfl⟩, nofun⟩ ?_
        trivial
      · rw [herr]
        cases err <;> trivial

/-- A reply is taken for a rejection only where its status is 401. -/
theorem readTask_cases (res : Reply Task) :
    (∃ task, readTask res = .ret task) ∨ (res.status = 401 ∧ readTask res = .throw .unauthorized) ∨
      ∃ err, err ≠ .unauthorized ∧ readTask res = .throw err := by
  unfold readTask
  split_ifs with h1
  · exact Or.inr (Or.inl ⟨h1, rfl⟩)
  · exact Or.inr (Or.inr ⟨_, by simp, rfl⟩)
  · cases res.body with
    | some task => exact Or.inl ⟨task, rfl⟩
    | none => exact Or.inr (Or.inr ⟨_, by simp, rfl⟩)

theorem createTask_fits (title : Option JsString) :
    CodeFits (.createTask title) cookie (Job.createTask title).code ⟨cookie, none, []⟩ := by
  simp only [Job.code, createTaskAction]
  refine codeFits_own (fun _ => rfl) (fits_fresh _ _ _) ?_
  cases cookie with
  | none => trivial
  | some token =>
    change CodeFits _ _ ((if token.isEmpty then _ else _ : Action Task) >>= _) _
    split_ifs
    · trivial
    · simp only [createTask]
      cases parseTitle title with
      | none => trivial
      | some t =>
        refine codeFits_await fun c a e' ha => ?_
        simp only [Op.step] at ha
        split_ifs at ha with hfail h401
        · cases ha
          exact ⟨fits_fresh _ _ _, trivial⟩
        · cases ha
          refine ⟨fits_fresh _ _ _, ?_⟩
          have hthrow : readTask ⟨c.status, c.task⟩ = .throw .unauthorized := if_pos h401
          change CodeFits _ _ (((readTask ⟨c.status, c.task⟩ >>= fun _ => _).tryCatch _ : Action Task) >>= _) _
          rw [hthrow]
          refine codeFits_own (fun _ => rfl) ⟨rfl, nofun, fun _ => ?_⟩ ?_
          · exact Or.inr ⟨⟨title, rfl⟩, token, List.mem_cons_self, rfl⟩
          · trivial
        · cases ha
          refine ⟨fits_fresh _ _ _, ?_⟩
          change CodeFits _ _ (((readTask ⟨c.status, c.task⟩ >>= fun _ => _).tryCatch _ : Action Task) >>= _) _
          rcases readTask_cases ⟨c.status, c.task⟩ with ⟨task, ht⟩ | ⟨hst, -⟩ | ⟨err, hne, herr⟩
          · rw [ht]
            refine codeFits_own (fun _ => rfl) (fits_fresh _ _ _) ?_
            trivial
          · exact absurd hst h401
          · rw [herr]
            cases err <;> trivial

theorem code_fits (job : Job) (cookie : Option JsString) : CodeFits job cookie job.code ⟨cookie, none, []⟩ := by
  cases job with
  | login u p => exact login_fits u p
  | logout => exact logout_fits
  | createTask title => exact createTask_fits title

end

/-! ## Runs -/

section
variable {s s' : State} {a : Act} {as : List Act} {i : ℕ} {call : Call} {t : JsString}

def Call.Fit (call : Call) : Prop :=
  Fits call.job call.exchange.cookie call.exchange ∧
    CodeFits call.job call.exchange.cookie call.prog call.exchange

/-- What the server may do with a call that fits. -/
theorem Call.Fit.serve {o : Op} {k : Except Thrown o.Ans → Action Unit} {c : Choice} {x : Except Thrown o.Ans}
    {e : Exchange} (h : call.Fit) (hp : call.prog = .await o k) (ho : o.step c call.exchange = some (x, e)) :
    e.cookie = call.exchange.cookie ∧ Call.Fit { call with exchange := e, prog := k x } := by
  obtain ⟨-, hcode⟩ := h
  rw [hp] at hcode
  obtain ⟨hf, hk⟩ := hcode _ rfl c x e ho
  have he : e.cookie = call.exchange.cookie := hf.sent
  exact ⟨he, he ▸ hf, he ▸ hk⟩

theorem step_fit (hI : ∀ call ∈ s.calls, call.Fit) (h : step maxAge s a = some s') :
    ∀ call ∈ s'.calls, call.Fit := by
  intro call hm
  cases step_cases h with
  | @send job =>
    rcases List.mem_append.1 hm with hm | hm
    · exact hI call hm
    · rw [List.mem_singleton.1 hm]
      exact ⟨fits_fresh _ _ _, code_fits job _⟩
  | serve hi hp ho =>
    rcases List.mem_or_eq_of_mem_set hm with hm | rfl
    · exact hI call hm
    · exact ((hI _ (List.mem_of_getElem? hi)).serve hp ho).2
  | @receive i sender hi =>
    rcases List.mem_or_eq_of_mem_set hm with hm | rfl
    · exact hI call hm
    · exact hI sender (List.mem_of_getElem? hi)
  | tick => exact hI call hm

theorem run_fit {jar : Option Cookie} {now : ℕ} (h : run maxAge ⟨jar, [], now⟩ as = some s) :
    ∀ call ∈ s.calls, call.Fit :=
  exec_inv (I := fun s => ∀ call ∈ s.calls, call.Fit) (fun _ _ _ => step_fit) nofun h

/-- A session after a response is one that it sets, or was there before. -/
theorem session_store {r : Option SetCookie} {calls : List Call}
    (h : State.session ⟨store maxAge s.now s.jar r, calls, s.now⟩ = some t) :
    r = some (.set t) ∨ (r = none ∧ s.session = some t) := by
  rcases r with _ | token | _
  · exact Or.inr ⟨rfl, h⟩
  · simp only [State.session, store, Option.bind_some] at h
    split_ifs at h
    exact Or.inl (congrArg _ (congrArg _ (Option.some.inj h)))
  · cases h

theorem session_tick {d : ℕ} (h : State.session { s with now := s.now + d } = some t) :
    s.session = some t := by
  obtain ⟨c, hc, hlt, hv⟩ := State.session_eq_some.1 h
  exact State.session_eq_some.2 ⟨c, hc, lt_of_le_of_lt (Nat.le_add_right _ d) hlt, hv⟩

variable (maxAge)

/-- Since the call `i` was sent, the response of a login has arrived that sets the token. -/
def LoginSince (s₀ : State) (as : List Act) (i : ℕ) (t : JsString) : Prop :=
  ∃ as₁ as₂ j s₁ call, as = as₁ ++ .receive j :: as₂ ∧ run maxAge s₀ as₁ = some s₁ ∧ i < s₁.calls.length ∧
    s₁.calls[j]? = some call ∧ (∃ u p, call.job = .login u p) ∧ call.exchange.setCookie = some (.set t)

variable {maxAge}

theorem LoginSince.snoc {s₀ : State} (h : LoginSince maxAge s₀ as i t) :
    LoginSince maxAge s₀ (as ++ [a]) i t := by
  obtain ⟨as₁, as₂, j, s₁, call, rfl, h⟩ := h
  exact ⟨as₁, as₂ ++ [a], j, s₁, call, by simp, h⟩

/-- A call was sent with the token that the jar holds now, unless a login stored it since. -/
def Recent (maxAge : ℕ) (s₀ : State) (as : List Act) (s : State) : Prop :=
  ∀ i call t, s.calls[i]? = some call → s.session = some t →
    call.exchange.cookie = some t ∨ LoginSince maxAge s₀ as i t

theorem step_recent {s₀ : State} (hr : run maxAge s₀ as = some s) (hfit : ∀ call ∈ s.calls, call.Fit)
    (hI : Recent maxAge s₀ as s) (h : step maxAge s a = some s') : Recent maxAge s₀ (as ++ [a]) s' := by
  intro i call t hi ht
  cases step_cases h with
  | send =>
    rcases snoc_cases hi with ⟨-, rfl⟩ | hi
    · exact Or.inl ht
    · exact (hI i call t hi ht).imp_right LoginSince.snoc
  | serve hj hp ho =>
    rcases set_cases hi with ⟨rfl, rfl⟩ | ⟨-, hi⟩
    · have hsame := ((hfit _ (List.mem_of_getElem? hj)).serve hp ho).1
      rw [hsame]
      exact (hI i _ t hj ht).imp_right LoginSince.snoc
    · exact (hI i call t hi ht).imp_right LoginSince.snoc
  | @receive j sender hj hend ha =>
    have hpos : ∃ call', s.calls[i]? = some call' ∧ call'.exchange = call.exchange := by
      rcases set_cases hi with ⟨rfl, rfl⟩ | ⟨-, hi⟩
      · exact ⟨_, hj, rfl⟩
      · exact ⟨_, hi, rfl⟩
    obtain ⟨call', hi', he⟩ := hpos
    rcases session_store ht with hset | ⟨-, hold⟩
    · refine Or.inr ⟨as, [], j, s, sender, rfl, hr, (List.getElem?_eq_some_iff.1 hi').1, hj, ?_, hset⟩
      exact (hfit _ (List.mem_of_getElem? hj)).1.set t hset
    · rw [← he]
      exact (hI i call' t hi' hold).imp_right LoginSince.snoc
  | tick => exact (hI i call t hi (session_tick ht)).imp_right LoginSince.snoc

theorem run_recent {jar : Option Cookie} {now : ℕ} (h : run maxAge ⟨jar, [], now⟩ as = some s) :
    Recent maxAge ⟨jar, [], now⟩ as s := by
  refine exec_hist (P := fun as s => Recent maxAge ⟨jar, [], now⟩ as s) ?_ ?_ as s h
  · intro i call t hi
    simp at hi
  · intro as s a s' hr hI hs
    exact step_recent hr (run_fit hr) hI hs

/-- What ends the session of the token `t`.  A rejected call had the token itself, or `since` holds of it. -/
inductive Cause (since : ℕ → Prop) (s : State) (t : JsString) : Act → Prop
  | login {k u p} {x : Call} (hi : s.calls[k]? = some x) (hj : x.job = .login u p) :
    Cause since s t (.receive k)
  | logout {k} {x : Call} (hi : s.calls[k]? = some x) (hj : x.job = .logout) : Cause since s t (.receive k)
  | rejected {k title token} {x : Call} (hi : s.calls[k]? = some x) (hj : x.job = .createTask title)
    (hc : x.exchange.cookie = some token) (hr : token ∈ x.exchange.rejected) (ht : token = t ∨ since k) :
    Cause since s t (.receive k)
  | expired {d c} (hc : s.jar = some c) (he : c.expires ≤ s.now + d) : Cause since s t (.tick d)

/-- **The session cookie is removed or replaced only by a login, by a logout, at the end of its age, or
    by a task creation whose own token was rejected**: that token is the one in the jar, or a login
    stored the one in the jar since the task creation was sent. -/
theorem session_kept {jar : Option Cookie} {now : ℕ} (hr : run maxAge ⟨jar, [], now⟩ as = some s)
    (hs : step maxAge s a = some s') (h : s.session = some t) (h' : s'.session ≠ some t) :
    Cause (fun i => LoginSince maxAge ⟨jar, [], now⟩ as i t) s t a := by
  cases step_cases hs with
  | send => exact absurd h h'
  | serve => exact absurd h h'
  | @receive i call hi =>
    have hf := (run_fit hr call (List.mem_of_getElem? hi)).1
    rcases hcall : call.exchange.setCookie with _ | token | _
    · rw [hcall] at h'
      exact absurd h h'
    · obtain ⟨u, p, hj⟩ := hf.set token hcall
      exact .login hi hj
    · rcases hf.delete hcall with hj | ⟨⟨title, hj⟩, token, htok, hc⟩
      · exact .logout hi hj
      · refine .rejected hi hj hc htok ?_
        exact (run_recent hr i call t hi h).imp_left fun hsame => Option.some.inj (hc.symm.trans hsame)
  | @tick d =>
    obtain ⟨c, hc, -, hv⟩ := State.session_eq_some.1 h
    refine .expired hc (not_lt.1 fun hlt => h' ?_)
    exact State.session_eq_some.2 ⟨c, hc, hlt, hv⟩

/-- A reply of the API with a status, and a token where it has one. -/
def reply (status : ℕ) (token : Option JsString) : Choice := ⟨false, status, token, none⟩

/-- A task creation is sent with an old token; a login stores a new one before the 401 arrives. -/
def staleRun : List Act :=
  [.send (.createTask (some (js "t"))), .serve 0 (reply 0 none), .serve 0 (reply 401 none),
    .serve 0 (reply 0 none), .send (.login (some (js "a")) (some (js "p"))),
    .serve 1 (reply 200 (some (js "new"))), .serve 1 (reply 0 none), .receive 1]

def oldJar : Option Cookie := some ⟨js "old", 3600⟩

theorem session_kept_stale : ∃ s s', run 3600 ⟨oldJar, [], 0⟩ staleRun = some s ∧
    step 3600 s (.receive 0) = some s' ∧ s.session = some (js "new") ∧ s'.session = none ∧
    Cause (fun i => LoginSince 3600 ⟨oldJar, [], 0⟩ staleRun i (js "new")) s (js "new") (.receive 0) := by
  refine ⟨_, _, rfl, rfl, rfl, rfl, ?_⟩
  exact session_kept rfl rfl rfl nofun

/-- The rejected token need not be the one that the jar holds. -/
theorem not_session_kept : ¬ ∀ (maxAge : ℕ) (jar : Option Cookie) (now : ℕ) (as : List Act) (s : State)
    (a : Act) (s' : State) (t : JsString), run maxAge ⟨jar, [], now⟩ as = some s → step maxAge s a = some s' →
      s.session = some t → s'.session ≠ some t → Cause (fun _ => False) s t a := by
  intro h
  have hc := h 3600 oldJar 0 staleRun _ (.receive 0) _ (js "new") rfl rfl rfl nofun
  cases hc with
  | login hi hj =>
    cases hi
    cases hj
  | logout hi hj =>
    cases hi
    cases hj
  | rejected hi hj hsent hr ht =>
    cases hi
    cases hsent
    rcases ht with ht | ht
    · exact absurd ht (by decide)
    · exact ht

end

end SystemDesign.Client
