/-
  A browser of the frontend and the accounts of the API.

  The browser of `Client.Session` and the accounts share a clock; other clients use the accounts
  meanwhile.  The API answers a login with a token that a call of login returned for these strings, and
  rejects the token of a task creation only where its guard does not take it.

  `Inv` says from which login each token came that the browser has or sent.  `session_agrees`: the session
  cookie is that of a user whose password was submitted; the API takes it for its hour, and within it the
  session ends by a login, by a logout or by a task creation that was sent with an older token.
-/
import SystemDesign.Accounts.SignIn
import SystemDesign.Client.Login
import SystemDesign.Client.Session

namespace SystemDesign.Site

open Lib

/-! ## The system -/

structure Web where
  browser : Client.State
  accounts : Accounts.State

/-- An empty cookie jar and the migrated database. -/
def Web.init (id : Uuid) : Web := ⟨⟨none, [], 0⟩, Accounts.init id⟩

inductive Web.Action where
  | browser (a : Client.Act)
  /-- A step of the API, for this browser or another client. -/
  | accounts (a : Accounts.Action)
  | tick (seconds : ℕ)

section
-- what a text is the token of, if the API signed it
variable (verify : JsString → Option Accounts.Token)

/-- `JwtAuthGuard` takes the token. -/
def accepts (accounts : Accounts.State) (token : JsString) : Bool :=
  (verify token).any fun tok => accounts.admits (.request tok none none) &&
    match Accounts.validate tok.payload with
    | .ok _ => true
    | .error _ => false

/-- Some call of login returned this token for the two strings. -/
def grants (accounts : Accounts.State) (username password token : JsString) : Bool :=
  accounts.calls.any fun call => call.job == .login username password &&
    match call.result with
    | some (.token tok) => verify token == some tok
    | _ => false

/-- The reply is one that the API may have sent by now. -/
def replies (accounts : Accounts.State) : Client.Op → Client.Choice → Bool
  | .fetchLogin username password, c =>
    c.failed || !Client.Reply.ok ⟨c.status, c.token⟩ || c.token.all (grants verify accounts username password)
  | .fetchTask _ token, c => c.failed || c.status != 401 || !accepts verify accounts token
  | _, _ => true

variable (bcrypt : Accounts.Bcrypt) (maxAge : ℕ) (w : Web)

def Web.allows : Client.Act → Bool
  | .serve i c => w.browser.calls[i]?.all fun call => call.prog.next.all fun o => replies verify w.accounts o c
  | .tick _ => false
  | _ => true

/-- **One step**; `none` where the action is not possible. -/
def Web.step : Web.Action → Option Web
  | .browser a =>
    if w.allows verify a then (Client.step maxAge w.browser a).map fun b => { w with browser := b } else none
  | .accounts (.tick _) => none
  | .accounts a => (Accounts.step bcrypt w.accounts a).map fun x => { w with accounts := x }
  | .tick d =>
    some ⟨{ w.browser with now := w.browser.now + d }, { w.accounts with now := w.accounts.now + d }⟩

abbrev Web.run : Web → List Web.Action → Option Web := exec (Web.step verify bcrypt maxAge)

/-- The steps, one constructor for each kind. -/
inductive Web.Step (w : Web) : Web.Action → Web → Prop
  | browser {a b} (ha : w.allows verify a = true) (h : Client.step maxAge w.browser a = some b) :
    Web.Step w (.browser a) { w with browser := b }
  | accounts {a x} (ht : ∀ d, a ≠ .tick d) (h : Accounts.step bcrypt w.accounts a = some x) :
    Web.Step w (.accounts a) { w with accounts := x }
  | tick {d} : Web.Step w (.tick d)
    ⟨{ w.browser with now := w.browser.now + d }, { w.accounts with now := w.accounts.now + d }⟩

end

variable {verify : JsString → Option Accounts.Token} {bcrypt : Accounts.Bcrypt} {maxAge : ℕ} {w w' : Web}

theorem Web.step_cases {a : Web.Action} (h : w.step verify bcrypt maxAge a = some w') :
    Web.Step verify bcrypt maxAge w a w' := by
  cases a with
  | browser a =>
    simp only [Web.step] at h
    split_ifs at h with ha
    obtain ⟨b, hb, rfl⟩ := Option.map_eq_some_iff.1 h
    exact .browser ha hb
  | accounts a =>
    cases a with
    | tick d => cases h
    | start | step =>
      obtain ⟨x, hx, rfl⟩ := Option.map_eq_some_iff.1 h
      exact .accounts (fun d hd => by cases hd) hx
  | tick d =>
    cases h
    exact .tick

/-! ## Where a token comes from -/

/-- The login of this job got the token. -/
def Signs (verify : JsString → Option Accounts.Token) (accounts : Accounts.State) (job : Client.Job)
    (token : JsString) (tok : Accounts.Token) : Prop :=
  verify token = some tok ∧ ∃ username password, job = .login (some username) (some password) ∧
    ∃ call ∈ accounts.calls, call.job = .login (trim username) password ∧ call.result = some (.token tok)

/-- What was returned stays. -/
def Later (accounts accounts' : Accounts.State) : Prop :=
  ∀ call ∈ accounts.calls, ∀ r, call.result = some r → call ∈ accounts'.calls

section
variable {accounts accounts' : Accounts.State} {job : Client.Job} {token : JsString} {tok : Accounts.Token}

theorem Signs.later (h : Signs verify accounts job token tok) (hl : Later accounts accounts') :
    Signs verify accounts' job token tok := by
  obtain ⟨hv, username, password, hj, call, hc, hjob, hr⟩ := h
  exact ⟨hv, username, password, hj, call, hl call hc _ hr, hjob, hr⟩

/-- The token that login returned is that of the user, and the guard takes it for its hour. -/
theorem Signs.signedIn (hs : Accounts.AllSigned bcrypt accounts) (h : Signs verify accounts job token tok) :
    ∃ username password, job = .login (some username) (some password) ∧
      Accounts.SignedIn bcrypt (trim username) password tok (accounts.tables, accounts.now) ∧
      (accepts verify accounts token = true ↔ accounts.now < tok.exp) := by
  obtain ⟨hv, username, password, hj, call, hc, hjob, hr⟩ := h
  obtain ⟨username', password', hjob', hin⟩ := hs.returned hc hr
  rw [hjob] at hjob'
  cases hjob'
  refine ⟨username, password, hj, hin, ?_⟩
  obtain ⟨-, u, -, -, -, htok⟩ := hin
  have htenant : tok.tenantId ≠ [] := by
    rw [htok]
    exact Uuid.toText_ne_nil u.tenantId
  have hany : (accounts.calls.any fun call => call.result == some (.token tok)) = true :=
    List.any_eq_true.2 ⟨call, hc, by rw [hr]; exact beq_self_eq_true _⟩
  simp [accepts, hv, Accounts.State.admits, hany, Accounts.validate_payload htenant]

theorem grants_signs {username password : JsString}
    (h : grants verify accounts (trim username) password token = true) :
    ∃ tok, Signs verify accounts (.login (some username) (some password)) token tok := by
  obtain ⟨call, hc, h⟩ := List.any_eq_true.1 h
  obtain ⟨hjob, hr⟩ := Bool.and_eq_true_iff.1 h
  split at hr
  · next tok htok =>
    exact ⟨tok, beq_iff_eq.1 hr, username, password, rfl, call, hc, beq_iff_eq.1 hjob, htok⟩
  · cases hr

end

/-! ## What the server does for a login -/

/-- An exchange, and the accounts at the time. -/
abbrev Served := Client.Exchange × Accounts.State

def served (verify : JsString → Option Accounts.Token) (o : Client.Op) (c : Client.Choice) (s : Served) :
    Option (Except Client.Thrown o.Ans × Served) :=
  if replies verify s.2 o c then (o.step c s.1).map fun x => (x.1, x.2, s.2) else none

/-- A cookie that the response sets has the token that the login got. -/
def Sets (verify : JsString → Option Accounts.Token) (job : Client.Job) (s : Served) : Prop :=
  ∀ token, s.1.setCookie = some (.set token) → ∃ tok, Signs verify s.2 job token tok

abbrev CodeSets (verify : JsString → Option Accounts.Token) (job : Client.Job) {ρ : Type} (p : Client.Action ρ)
    (s : Served) : Prop :=
  Async.Safe (served verify) (fun s s' => s'.1 = s.1 ∧ Later s.2 s'.2) (fun _ _ s' => Sets verify job s')
    (fun _ _ => True) p s

theorem served_cases {o : Client.Op} {c : Client.Choice} {s s' : Served} {a : Except Client.Thrown o.Ans}
    (h : served verify o c s = some (a, s')) :
    replies verify s.2 o c = true ∧ o.step c s.1 = some (a, s'.1) ∧ s'.2 = s.2 := by
  unfold served at h
  split_ifs at h with hr
  obtain ⟨x, hx, he⟩ := Option.map_eq_some_iff.1 h
  cases he
  exact ⟨hr, hx, rfl⟩

/-- The strings that are posted are those of the form, the username trimmed. -/
theorem safeParse_ok {u p : Option JsString} {x : JsString × JsString} (h : Client.safeParse u p = .ok x) :
    ∃ username password, u = some username ∧ p = some password ∧ x = (trim username, password) := by
  rcases u with _ | username
  · cases h
  · simp only [Client.safeParse] at h
    split_ifs at h
    rcases p with _ | password
    · cases h
    · dsimp only at h
      split_ifs at h
      cases h
      exact ⟨username, password, rfl, rfl, rfl⟩

theorem readToken_ret {res : Client.Reply JsString} {token : JsString}
    (h : Client.readToken res = .ret token) : res.ok = true ∧ res.body = some token := by
  unfold Client.readToken at h
  split_ifs at h with h401 hok
  cases hb : res.body with
  | none =>
    rw [hb] at h
    cases h
  | some t =>
    rw [hb] at h
    cases h
    exact ⟨by simpa using hok, rfl⟩

/-- **The cookie that a login sets has the token that the API returned for the form.** -/
theorem login_sets (u p : Option JsString) {s : Served} (h0 : s.1.setCookie = none) :
    CodeSets verify (.login u p) (Client.Job.login u p).code s := by
  simp only [Client.Job.code, Client.loginAction]
  cases hparse : Client.safeParse u p with
  | error message => trivial
  | ok x =>
    obtain ⟨username, password, rfl, rfl, rfl⟩ := safeParse_ok hparse
    rintro s₁ ⟨he, -⟩ c a s₂ ha
    obtain ⟨hr, hstep, hacc⟩ := served_cases ha
    simp only [Client.Op.step] at hstep
    have hkeep : s₂.1 = s₁.1 := by
      split_ifs at hstep with hfail
      · exact (Prod.mk.inj (Option.some.inj hstep)).2.symm
      · exact (Prod.mk.inj (Option.some.inj hstep)).2.symm
    have hnone : s₂.1.setCookie = none := by rw [hkeep, he, h0]
    have hsets : Sets verify (.login (some username) (some password)) s₂ := fun token ht => by
      rw [hnone] at ht
      cases ht
    refine ⟨hsets, ?_⟩
    split_ifs at hstep with hfail
    · obtain rfl := (Prod.mk.inj (Option.some.inj hstep)).1
      trivial
    · obtain rfl := (Prod.mk.inj (Option.some.inj hstep)).1
      change CodeSets _ _ (((Client.readToken ⟨c.status, c.token⟩ >>= fun _ => _).tryCatch _ >>= _) >>= _) _
      rcases Client.readToken_cases ⟨c.status, c.token⟩ with ⟨token, ht⟩ | ⟨err, herr⟩
      · obtain ⟨hok, hbody⟩ := readToken_ret ht
        rw [ht]
        have hbody' : c.token = some token := hbody
        rw [hbody'] at hok
        have hgrant : grants verify s₁.2 (trim username) password token = true := by
          simpa only [replies, hfail, hok, hbody', Bool.not_true, Bool.false_or, Option.all_some] using hr
        obtain ⟨tok, hsigns⟩ := grants_signs hgrant
        rintro s₃ ⟨-, hl⟩ c' a' s₄ ha'
        obtain ⟨-, hstep', hacc'⟩ := served_cases ha'
        obtain ⟨rfl, he'⟩ := Prod.mk.inj (Option.some.inj hstep')
        refine ⟨fun token' ht' => ?_, trivial⟩
        rw [← he'] at ht'
        cases ht'
        rw [hacc']
        exact ⟨tok, (hacc ▸ hsigns).later hl⟩
      · rw [herr]
        cases err <;> trivial

/-! ## The invariant -/

/-- What is known of a request of the browser. -/
structure CallSigned (verify : JsString → Option Accounts.Token) (accounts : Accounts.State)
    (call : Client.Call) : Prop where
  fit : call.Fit
  /-- It was sent with a token of a login. -/
  sent : ∀ token, call.exchange.cookie = some token → ∃ job tok, Signs verify accounts job token tok
  /-- Where the API rejected this token, its hour was over. -/
  rejected : ∀ token ∈ call.exchange.rejected, call.exchange.cookie = some token →
    ∃ tok, verify token = some tok ∧ tok.exp ≤ accounts.now
  sets : Sets verify call.job (call.exchange, accounts)
  code : ∀ u p, call.job = .login u p → CodeSets verify (.login u p) call.prog (call.exchange, accounts)

/-- The invariant of the browser and the accounts. -/
structure Web.Inv (verify : JsString → Option Accounts.Token) (bcrypt : Accounts.Bcrypt) (maxAge : ℕ)
    (w : Web) : Prop where
  clock : w.browser.now = w.accounts.now
  signed : Accounts.AllSigned bcrypt w.accounts
  calls : ∀ call ∈ w.browser.calls, CallSigned verify w.accounts call
  /-- The cookie is that of a login of this browser, stored after its token was issued. -/
  jar : ∀ c, w.browser.jar = some c → ∃ job ∈ w.browser.calls.map (·.job), ∃ tok,
    Signs verify w.accounts job c.value tok ∧ tok.iat + maxAge ≤ c.expires

section
variable {accounts accounts' : Accounts.State} {call : Client.Call}

/-- The accounts go on. -/
theorem CallSigned.later (h : CallSigned verify accounts call) (hl : Later accounts accounts')
    (hnow : accounts.now ≤ accounts'.now) : CallSigned verify accounts' call where
  fit := h.fit
  sent token hc := by
    obtain ⟨job, tok, hs⟩ := h.sent token hc
    exact ⟨job, tok, hs.later hl⟩
  rejected token hr hc := by
    obtain ⟨tok, hv, hexp⟩ := h.rejected token hr hc
    exact ⟨tok, hv, hexp.trans hnow⟩
  sets token ht := by
    obtain ⟨tok, hs⟩ := h.sets token ht
    exact ⟨tok, hs.later hl⟩
  code u p hj := by
    refine (h.code u p hj).rely ?_ (fun _ _ _ _ _ => trivial) ⟨rfl, hl⟩
    rintro s s' s'' ⟨he, hl⟩ ⟨he', hl'⟩
    exact ⟨he'.trans he, fun call hc r hr => hl' call (hl call hc r hr) r hr⟩

/-- A request is sent with the cookie of the jar. -/
theorem callSigned_send {job : Client.Job} {cookie : Option JsString}
    (hsent : ∀ token, cookie = some token → ∃ job tok, Signs verify accounts job token tok) :
    CallSigned verify accounts ⟨job, ⟨cookie, none, []⟩, job.code, false⟩ where
  fit := ⟨Client.fits_fresh _ _ _, Client.code_fits job _⟩
  sent := hsent
  rejected token hr := by cases hr
  sets token ht := by cases ht
  code u p hj := by
    obtain rfl : job = .login u p := hj
    exact login_sets u p rfl

/-- A token is rejected only after its hour. -/
theorem rejected_step {o : Client.Op} {c : Client.Choice} {e e' : Client.Exchange}
    {a : Except Client.Thrown o.Ans} (hr : replies verify accounts o c = true)
    (ho : o.step c e = some (a, e')) {token : JsString} (ht : token ∈ e'.rejected) :
    token ∈ e.rejected ∨ accepts verify accounts token = false := by
  cases o with
  | getCookie | setCookie | deleteCookie | revalidatePath =>
    cases ho
    exact Or.inl ht
  | fetchLogin username password =>
    simp only [Client.Op.step] at ho
    split_ifs at ho
    · cases ho
      exact Or.inl ht
    · cases ho
      exact Or.inl ht
  | fetchTask title sent =>
    simp only [Client.Op.step] at ho
    split_ifs at ho with hfail h401
    · cases ho
      exact Or.inl ht
    · cases ho
      rcases List.mem_cons.1 ht with rfl | ht
      · exact Or.inr (by simpa [replies, hfail, h401] using hr)
      · exact Or.inl ht
    · cases ho
      exact Or.inl ht

/-- The server does an operation of a request. -/
theorem CallSigned.serve (hs : Accounts.AllSigned bcrypt accounts) (h : CallSigned verify accounts call)
    {o : Client.Op} {k : Except Client.Thrown o.Ans → Client.Action Unit} {c : Client.Choice}
    {a : Except Client.Thrown o.Ans} {e : Client.Exchange} (hp : call.prog = .await o k)
    (hr : replies verify accounts o c = true) (ho : o.step c call.exchange = some (a, e)) :
    CallSigned verify accounts { call with exchange := e, prog := k a } := by
  obtain ⟨hcookie, hfit⟩ := h.fit.serve hp ho
  have hserved : served verify o c (call.exchange, accounts) = some (a, (e, accounts)) := by
    rw [served, if_pos hr, ho]
    rfl
  have hlogin : ∀ u p, call.job = .login u p → Sets verify (.login u p) (e, accounts) ∧
      CodeSets verify (.login u p) (k a) (e, accounts) := by
    intro u p hj
    have hcode := h.code u p hj
    rw [hp] at hcode
    exact hcode.step ⟨rfl, fun _ hc _ _ => hc⟩ hserved
  refine ⟨hfit, fun token hc => h.sent token (hcookie ▸ hc), fun token ht hc => ?_, fun token ht => ?_,
    fun u p hj => (hlogin u p hj).2⟩
  · have hc' : call.exchange.cookie = some token := hcookie ▸ hc
    rcases rejected_step hr ho ht with hold | hnew
    · exact h.rejected token hold hc'
    · obtain ⟨job, tok, hsigns⟩ := h.sent token hc'
      obtain ⟨-, -, -, -, htakes⟩ := hsigns.signedIn hs
      refine ⟨tok, hsigns.1, not_lt.1 fun hlt => ?_⟩
      rw [htakes.2 hlt] at hnew
      cases hnew
  · obtain ⟨u, p, hj⟩ := hfit.1.set token ht
    obtain ⟨tok, hsigns⟩ := (hlogin u p hj).1 token ht
    have hj' : call.job = .login u p := hj
    exact ⟨tok, hj' ▸ hsigns⟩

end

/-! ## Steps -/

theorem Web.inv_init (id : Uuid) : (Web.init id).Inv verify bcrypt maxAge where
  clock := rfl
  signed call hc := by cases hc
  calls call hc := by cases hc
  jar c hc := by cases hc

/-- The jar holds a token of a login. -/
theorem Web.Inv.session (h : w.Inv verify bcrypt maxAge) {token : JsString}
    (ht : w.browser.session = some token) : ∃ job tok, Signs verify w.accounts job token tok := by
  obtain ⟨c, hc, -, rfl⟩ := Client.State.session_eq_some.1 ht
  obtain ⟨job, -, tok, hs, -⟩ := h.jar c hc
  exact ⟨job, tok, hs⟩

/-- The accounts go on, and the time of both. -/
theorem Web.Inv.later (h : w.Inv verify bcrypt maxAge) {accounts : Accounts.State} {now : ℕ}
    (hs : Accounts.AllSigned bcrypt accounts) (hl : Later w.accounts accounts) (hnow : now = accounts.now)
    (hle : w.accounts.now ≤ accounts.now) :
    Web.Inv verify bcrypt maxAge ⟨{ w.browser with now := now }, accounts⟩ := by
  refine ⟨hnow, hs, fun call hc => (h.calls call hc).later hl hle, fun c hc => ?_⟩
  obtain ⟨job, hj, tok, hsigns, hexp⟩ := h.jar c hc
  exact ⟨job, hj, tok, hsigns.later hl, hexp⟩

/-- A request with the cookie of the jar. -/
theorem Web.Inv.send (h : w.Inv verify bcrypt maxAge) (job : Client.Job) :
    Web.Inv verify bcrypt maxAge ⟨{ w.browser with
      calls := w.browser.calls ++ [⟨job, ⟨w.browser.session, none, []⟩, job.code, false⟩] }, w.accounts⟩ := by
  refine ⟨h.clock, h.signed, fun call hc => ?_, fun c hc => ?_⟩
  · rcases List.mem_append.1 hc with hc | hc
    · exact h.calls call hc
    · rw [List.mem_singleton.1 hc]
      exact callSigned_send fun token ht => h.session ht
  · obtain ⟨job', hj, rest⟩ := h.jar c hc
    refine ⟨job', ?_, rest⟩
    rw [List.map_append]
    exact List.mem_append_left _ hj

/-- A call goes on, and the jar has the cookie of one of the jobs. -/
theorem Web.Inv.set (h : w.Inv verify bcrypt maxAge) {i : ℕ} {call call' : Client.Call}
    (hi : w.browser.calls[i]? = some call) (hcall : CallSigned verify w.accounts call')
    (hjob : call'.job = call.job) {jar : Option Client.Cookie}
    (hjar : ∀ c, jar = some c → ∃ job ∈ w.browser.calls.map (·.job), ∃ tok,
      Signs verify w.accounts job c.value tok ∧ tok.iat + maxAge ≤ c.expires) :
    Web.Inv verify bcrypt maxAge
      ⟨{ w.browser with jar := jar, calls := w.browser.calls.set i call' }, w.accounts⟩ := by
  refine ⟨h.clock, h.signed, fun x hx => ?_, fun c hc => ?_⟩
  · rcases List.mem_or_eq_of_mem_set hx with hx | rfl
    · exact h.calls x hx
    · exact hcall
  · have hjobs : (w.browser.calls.set i call').map (·.job) = w.browser.calls.map (·.job) := map_set_eq hi hjob
    dsimp only
    rw [hjobs]
    exact hjar c hc

/-- What a response puts into the jar. -/
theorem Web.Inv.store (h : w.Inv verify bcrypt maxAge) {i : ℕ} {call : Client.Call}
    (hi : w.browser.calls[i]? = some call) {c : Client.Cookie}
    (hc : Client.store maxAge w.browser.now w.browser.jar call.exchange.setCookie = some c) :
    ∃ job ∈ w.browser.calls.map (·.job), ∃ tok,
      Signs verify w.accounts job c.value tok ∧ tok.iat + maxAge ≤ c.expires := by
  rcases hset : call.exchange.setCookie with _ | token | _
  · rw [hset] at hc
    exact h.jar c hc
  · rw [hset] at hc
    cases hc
    obtain ⟨tok, hsigns⟩ := (h.calls call (List.mem_of_getElem? hi)).sets token hset
    obtain ⟨-, -, -, ⟨hiat, -⟩, -⟩ := hsigns.signedIn h.signed
    refine ⟨call.job, List.mem_map_of_mem (List.mem_of_getElem? hi), tok, hsigns, ?_⟩
    show tok.iat + maxAge ≤ w.browser.now + maxAge
    rw [h.clock]
    exact Nat.add_le_add_right hiat maxAge
  · rw [hset] at hc
    cases hc

/-- **The step lemma.** -/
theorem Web.step_inv {a : Web.Action} (h : w.Inv verify bcrypt maxAge)
    (hs : w.step verify bcrypt maxAge a = some w') : w'.Inv verify bcrypt maxAge := by
  cases Web.step_cases hs with
  | @accounts a x ht hx =>
    obtain ⟨hsigned, -, -⟩ := Accounts.step_signed h.signed hx
    have hnow : x.now = w.accounts.now := by
      cases Accounts.step_cases hx with
      | start | step => rfl
      | @tick d => exact absurd rfl (ht d)
    refine h.later hsigned (fun call hc r hr => Accounts.returned_kept hx hc hr) ?_ hnow.ge
    rw [hnow, h.clock]
  | @tick d =>
    have hx : Accounts.step bcrypt w.accounts (.tick d) =
        some { w.accounts with now := w.accounts.now + d } := rfl
    refine h.later (Accounts.step_signed h.signed hx).1 (fun call hc _ _ => hc) ?_ (Nat.le_add_right _ d)
    show w.browser.now + d = w.accounts.now + d
    rw [h.clock]
  | @browser a b hallow hb =>
    cases Client.step_cases hb with
    | @send job => exact h.send job
    | @serve i c call o k x e hi hp ho =>
      have hr : replies verify w.accounts o c = true := by
        simpa [Web.allows, hi, hp, Async.next] using hallow
      have hcall := (h.calls call (List.mem_of_getElem? hi)).serve h.signed hp hr ho
      exact h.set hi hcall rfl h.jar
    | @receive i call hi =>
      have hcall := h.calls call (List.mem_of_getElem? hi)
      have harrived : CallSigned verify w.accounts { call with arrived := true } :=
        ⟨hcall.fit, hcall.sent, hcall.rejected, hcall.sets, hcall.code⟩
      exact h.set hi harrived rfl fun c hc => h.store hi hc
    | tick => cases hallow

theorem Web.run_inv {id : Uuid} {as : List Web.Action}
    (h : (Web.init id).run verify bcrypt maxAge as = some w) : w.Inv verify bcrypt maxAge :=
  exec_inv (I := Web.Inv verify bcrypt maxAge) (fun _ _ _ hi ha => Web.step_inv hi ha) (Web.inv_init id) h

/-! ## The session -/

/-- How the session of the token `t` ends. -/
inductive Ends (verify : JsString → Option Accounts.Token) (maxAge : ℕ) (w : Web) (t : JsString) :
    Web.Action → Prop
  | login {i u p} {call : Client.Call} (hi : w.browser.calls[i]? = some call) (hj : call.job = .login u p) :
    Ends verify maxAge w t (.browser (.receive i))
  | logout {i} {call : Client.Call} (hi : w.browser.calls[i]? = some call) (hj : call.job = .logout) :
    Ends verify maxAge w t (.browser (.receive i))
  /-- A task creation was sent with a token whose hour is over. -/
  | rejected {i input token tok} {call : Client.Call} (hi : w.browser.calls[i]? = some call)
    (hj : call.job = .createTask input) (hc : call.exchange.cookie = some token) (hv : verify token = some tok)
    (hexp : tok.exp ≤ w.accounts.now) : Ends verify maxAge w t (.browser (.receive i))
  | expired {d tok} (hv : verify t = some tok) (hexp : tok.iat + maxAge ≤ w.accounts.now + d) :
    Ends verify maxAge w t (.tick d)

theorem Web.Inv.ends (h : w.Inv verify bcrypt maxAge) {a : Web.Action}
    (hs : w.step verify bcrypt maxAge a = some w') {t : JsString} (ht : w.browser.session = some t)
    (ht' : w'.browser.session ≠ some t) : Ends verify maxAge w t a := by
  cases Web.step_cases hs with
  | accounts => exact absurd ht ht'
  | @tick d =>
    obtain ⟨c, hc, -, rfl⟩ := Client.State.session_eq_some.1 ht
    obtain ⟨job, -, tok, hsigns, hexp⟩ := h.jar c hc
    refine .expired hsigns.1 (hexp.trans (not_lt.1 fun hlt => ht' ?_))
    refine Client.State.session_eq_some.2 ⟨c, hc, ?_, rfl⟩
    show w.browser.now + d < c.expires
    rw [h.clock]
    exact hlt
  | @browser a b hallow hb =>
    cases Client.step_cases hb with
    | send | serve => exact absurd ht ht'
    | tick => cases hallow
    | @receive i call hi =>
      have hcall := h.calls call (List.mem_of_getElem? hi)
      rcases hset : call.exchange.setCookie with _ | token | _
      · rw [hset] at ht'
        exact absurd ht ht'
      · obtain ⟨u, p, hj⟩ := hcall.fit.1.set token hset
        exact .login hi hj
      · rcases hcall.fit.1.delete hset with hj | ⟨⟨input, hj⟩, token, hrej, hc⟩
        · exact .logout hi hj
        · obtain ⟨tok, hv, hexp⟩ := hcall.rejected token hrej hc
          exact .rejected hi hj hc hv hexp

/-- How the browser and the API agree on who is signed in. -/
structure SessionAgrees (verify : JsString → Option Accounts.Token) (bcrypt : Accounts.Bcrypt) (maxAge : ℕ)
    (w : Web) : Prop where
  /-- The cookie has the token of a user whose name and password were submitted in this browser. -/
  login : ∀ c, w.browser.jar = some c → ∃ username password tok,
    .login (some username) (some password) ∈ w.browser.calls.map (·.job) ∧ verify c.value = some tok ∧
      Accounts.SignedIn bcrypt (trim username) password tok (w.accounts.tables, w.accounts.now)
  /-- The API takes it for the hour after its issue. -/
  taken : ∀ c tok, w.browser.jar = some c → verify c.value = some tok →
    (accepts verify w.accounts c.value = true ↔ w.accounts.now < tok.exp)
  /-- For this hour the browser sends it. -/
  sent : Accounts.expiresIn ≤ maxAge → ∀ c tok, w.browser.jar = some c → verify c.value = some tok →
    w.accounts.now < tok.exp → w.browser.session = some c.value
  ends : ∀ a w' t, w.step verify bcrypt maxAge a = some w' → w.browser.session = some t →
    w'.browser.session ≠ some t → Ends verify maxAge w t a

/-- **The browser and the API agree on who is signed in**, after every run. -/
theorem session_agrees (verify : JsString → Option Accounts.Token) (bcrypt : Accounts.Bcrypt) (maxAge : ℕ)
    (id : Uuid) {as : List Web.Action} (h : (Web.init id).run verify bcrypt maxAge as = some w) :
    SessionAgrees verify bcrypt maxAge w := by
  have hinv := Web.run_inv h
  refine ⟨fun c hc => ?_, fun c tok hc hv => ?_, fun hage c tok hc hv hlt => ?_,
    fun a w' t hs ht ht' => hinv.ends hs ht ht'⟩
  · obtain ⟨job, hj, tok, hsigns, -⟩ := hinv.jar c hc
    obtain ⟨username, password, rfl, hin, -⟩ := hsigns.signedIn hinv.signed
    exact ⟨username, password, tok, hj, hsigns.1, hin⟩
  · obtain ⟨job, -, tok', hsigns, -⟩ := hinv.jar c hc
    obtain rfl : tok' = tok := Option.some.inj (hsigns.1.symm.trans hv)
    obtain ⟨-, -, -, -, htakes⟩ := hsigns.signedIn hinv.signed
    exact htakes
  · obtain ⟨job, -, tok', hsigns, hexp⟩ := hinv.jar c hc
    obtain rfl : tok' = tok := Option.some.inj (hsigns.1.symm.trans hv)
    refine Client.State.session_eq_some.2 ⟨c, hc, ?_, rfl⟩
    have hexp' : tok'.exp = tok'.iat + Accounts.expiresIn := rfl
    have hclock := hinv.clock
    omega

/-! ## The last second of a session -/

def sampleVerify (token : JsString) : Option Accounts.Token :=
  if token = Client.sampleJwt Client.sampleToken then some Client.sampleToken else none

/-- `alice` is created and signs in, and 3599 seconds pass. -/
def signInRun : List Web.Action :=
  [.accounts (.start (.createUser (Uuid.ofNat 1).toText (js "alice") (js "pw1"))),
    .accounts (.step 0 (Accounts.sampleChoice 2)), .accounts (.step 0 (Accounts.sampleChoice 2)),
    .tick 1700000000, .browser (.send (.login (some (js " alice")) (some (js "pw1")))),
    .accounts (.start (.login (js "alice") (js "pw1"))), .accounts (.step 1 (Client.sampleChoices 0)),
    .accounts (.step 1 (Client.sampleChoices 1)), .accounts (.step 1 (Client.sampleChoices 2)),
    .browser (.serve 0 (Client.reply 200 (some (Client.sampleJwt Client.sampleToken)))),
    .browser (.serve 0 (Client.reply 200 none)), .browser (.receive 0), .tick 3599]

theorem session_agrees_alice : ∃ w,
    (Web.init (Uuid.ofNat 1)).run sampleVerify Accounts.sampleBcrypt 3600 signInRun = some w ∧
      w.browser.session = some (Client.sampleJwt Client.sampleToken) ∧
      accepts sampleVerify w.accounts (Client.sampleJwt Client.sampleToken) = true := by
  have hrun : ((Web.init (Uuid.ofNat 1)).run sampleVerify Accounts.sampleBcrypt 3600 signInRun).map
      (fun w => (w.browser.jar.map (·.value), w.accounts.now)) =
        some (some (Client.sampleJwt Client.sampleToken), 1700003599) := by decide +kernel
  have hverify : sampleVerify (Client.sampleJwt Client.sampleToken) = some Client.sampleToken := if_pos rfl
  obtain ⟨w, h, hw⟩ := Option.map_eq_some_iff.1 hrun
  obtain ⟨hjar, hnow⟩ := Prod.mk.inj hw
  obtain ⟨c, hc, hvalue⟩ := Option.map_eq_some_iff.1 hjar
  have hlt : w.accounts.now < Client.sampleToken.exp := by
    rw [hnow]
    decide
  have hagrees := session_agrees sampleVerify Accounts.sampleBcrypt 3600 (Uuid.ofNat 1) h
  rw [← hvalue] at hverify ⊢
  exact ⟨w, h, hagrees.sent le_rfl c _ hc hverify hlt, (hagrees.taken c _ hc hverify).2 hlt⟩

end SystemDesign.Site
