/-
  Who holds a token.

  Login returns a token after it has compared the password with the hash of the user; other calls run
  meanwhile, which may change the user's role but nothing else of it (`Onward`).

  `run_signed`: after every run a token that some login returned is that of a user of the name whose
  password was given, and was not issued later than now.
-/
import SystemDesign.Accounts.Duties
import SystemDesign.Accounts.Ledger

namespace SystemDesign.Accounts

open Lib

/-- The tables and the time. -/
abbrev Timed := Tables × ℕ

/-- An operation is done at the time of its choice. -/
def timed (bcrypt : Bcrypt) (o : AOp) (c : Choice) (s : Timed) : Option (Except Thrown o.Ans × Timed) :=
  if c.now = s.2 then some ((o.answer bcrypt c s.1).1, ((o.answer bcrypt c s.1).2, s.2)) else none

/-- The users stay and time passes. -/
structure Onward (s s' : Timed) : Prop where
  users : UsersKept s.1 s'.1
  now : s.2 ≤ s'.2

/-- The token was signed for the user of the name, whose password this is. -/
def SignedIn (bcrypt : Bcrypt) (username password : JsString) (tok : Token) (s : Timed) : Prop :=
  tok.iat ≤ s.2 ∧ ∃ u ∈ s.1.users, Text.ofJs username = some u.username ∧
    bcrypt.compare password u.load.passwordHash = true ∧ tok = u.token tok.iat

/-- What is known of the result of a job. -/
def Returned (bcrypt : Bcrypt) (job : Job) : Result → Timed → Prop
  | .token tok, s => ∃ username password, job = .login username password ∧
    SignedIn bcrypt username password tok s
  | _, _ => True

section
variable {bcrypt : Bcrypt} {s s' s'' : Timed} {ρ : Type}

theorem Onward.refl (s : Timed) : Onward s s := ⟨.refl s.1, le_rfl⟩

theorem Onward.trans (h : Onward s s') (h' : Onward s' s'') : Onward s s'' :=
  ⟨h.users.trans h'.users, h.now.trans h'.now⟩

theorem SignedIn.onward {username password : JsString} {tok : Token}
    (h : SignedIn bcrypt username password tok s) (hs : Onward s s') :
    SignedIn bcrypt username password tok s' := by
  obtain ⟨hiat, u, hu, hn, hc, ht⟩ := h
  obtain ⟨id, hid⟩ := hs.users u hu
  exact ⟨hiat.trans hs.now, _, hid, hn, hc, ht⟩

theorem Returned.onward {job : Job} {r : Result} (h : Returned bcrypt job r s) (hs : Onward s s') :
    Returned bcrypt job r s' := by
  cases r with
  | token tok =>
    obtain ⟨username, password, hj, h⟩ := h
    exact ⟨username, password, hj, h.onward hs⟩
  | user | role | seeded | allowed => trivial

/-- An operation is onward. -/
theorem timed_onward {o : AOp} {c : Choice} {a : Except Thrown o.Ans} (h : timed bcrypt o c s = some (a, s')) :
    Onward s s' ∧ c.now = s.2 ∧ o.answer bcrypt c s.1 = (a, s'.1) ∧ s'.2 = s.2 := by
  unfold timed at h
  split_ifs at h with hc
  cases h
  exact ⟨⟨answer_keeps rfl, le_rfl⟩, hc, rfl, rfl⟩

abbrev SignsIn (bcrypt : Bcrypt) (Q : ρ → Timed → Prop) (code : Service ρ) (s : Timed) : Prop :=
  Async.Safe (timed bcrypt) Onward (fun _ => Onward) Q code s

/-- Awaiting an operation without effect. -/
theorem signs_read {o : AOp} {v : Choice → Tables → Option o.Ans} {Q : o.Ans → Timed → Prop}
    (ho : ∀ c t, o.answer bcrypt c t = (reading c (v c t), t))
    (h : ∀ s₁, Onward s s₁ → ∀ c x, c.now = s₁.2 → v c s₁.1 = some x → Q x s₁) :
    SignsIn bcrypt Q (perform o) s := by
  refine Async.Safe.call fun s₁ hs c a s₂ ha => ?_
  obtain ⟨hon, hc, hans, hnow⟩ := timed_onward ha
  obtain ⟨ha', ht'⟩ := Prod.mk.inj ((ho c s₁.1).symm.trans hans)
  obtain rfl : s₁ = s₂ := Prod.ext ht' hnow.symm
  exact ⟨hon, fun x hx => h s₁ hs c x hc (reading_ok (ha'.trans hx))⟩

/-- **Login returns the token of a user whose password was given.** -/
theorem login_signs (username password : JsString) (s : Timed) :
    SignsIn bcrypt (SignedIn bcrypt username password) (login username password) s := by
  have found : SignsIn bcrypt (fun x s => ∀ user, x = some user → ∃ u ∈ s.1.users, user = u.load ∧
      Text.ofJs username = some u.username) (UsersService.findByUsername username) s := by
    refine signs_read (fun _ _ => rfl) fun s₁ _ c x _ hx user he => ?_
    subst he
    exact Tables.findUser_some hx
  refine Async.Safe.bind (fun user s₁ hu => ?_) found
  cases user with
  | none =>
    refine Async.Safe.bind (Q := fun _ _ => True) (fun matched s₂ _ => ?_) ?_
    · trivial
    · refine Async.Safe.bind (Q := fun _ _ => True) (fun _ _ _ => ?_)
        (signs_read (fun _ _ => rfl) fun _ _ _ _ _ _ => trivial)
      trivial
  | some user =>
    obtain ⟨u, hmem, rfl, hn⟩ := hu user rfl
    have compared : SignsIn bcrypt (fun b s => (∃ id, { u with roleId := id } ∈ s.1.users) ∧
        bcrypt.compare password u.load.passwordHash = b)
        (UsersService.validatePassword (some u.load) password) s₁ :=
      signs_read (fun _ _ => rfl) fun s₂ hs _ x _ hx => ⟨hs.users u hmem, Option.some.inj hx⟩
    refine Async.Safe.bind (fun matched s₂ h₂ => ?_) compared
    obtain ⟨⟨id, hid⟩, hb⟩ := h₂
    cases matched with
    | false => trivial
    | true =>
      refine signs_read (fun _ _ => rfl) fun s₃ hs c x hc hx => ?_
      obtain ⟨id', hid'⟩ := hs.users _ hid
      obtain rfl := Option.some.inj hx
      exact ⟨hc.le, _, hid', hn, hb, rfl⟩

/-- Whatever a program awaits, it is onward. -/
theorem signs_any (p : Service ρ) (s : Timed) : SignsIn bcrypt (fun _ _ => True) p s := by
  have honly : p.Only fun _ => True := by
    induction p with
    | ret | throw => trivial
    | await o k ih => exact ⟨trivial, ih⟩
  refine Async.Safe.of_only (P := fun _ => True) ?_ honly s
  intro o _ s c a s' h
  exact (timed_onward h).1

theorem job_signs (job : Job) (s : Timed) : SignsIn bcrypt (Returned bcrypt job) job.code s := by
  cases job with
  | login username password =>
    refine Async.Safe.bind (fun tok s h => ?_) (login_signs username password s)
    exact ⟨username, password, rfl, h⟩
  | createUser | createRole | seed | request =>
    refine Async.Safe.bind (fun _ _ _ => ?_) (signs_any _ s)
    trivial

end

/-! ## Runs -/

section
variable {bcrypt : Bcrypt} {s s' : State} {id : Uuid} {as : List Action}

/-- What each call may still return. -/
def AllSigned (bcrypt : Bcrypt) (s : State) : Prop :=
  ∀ call ∈ s.calls, SignsIn bcrypt (Returned bcrypt call.job) call.prog (s.tables, s.now)

/-- **The step lemma.** -/
theorem step_signed {a : Action} (h : AllSigned bcrypt s) (ha : step bcrypt s a = some s') :
    AllSigned bcrypt s' ∧ Onward (s.tables, s.now) (s'.tables, s'.now) := by
  have rely : ∀ {t n}, Onward (s.tables, s.now) (t, n) → ∀ call ∈ s.calls,
      SignsIn bcrypt (Returned bcrypt call.job) call.prog (t, n) := fun hon call hc =>
    (h call hc).rely (fun _ _ _ => .trans) (fun _ _ _ hq => hq.onward) hon
  cases step_cases ha with
  | @start job hadm =>
    refine ⟨fun call hc => ?_, .refl _⟩
    rcases List.mem_append.1 hc with hc | hc
    · exact h call hc
    · rw [List.mem_singleton.1 hc]
      exact job_signs job _
  | @step i c call o k a t hi hp hc ho =>
    have hsafe := h call (List.mem_of_getElem? hi)
    rw [hp] at hsafe
    have htimed : timed bcrypt o c (s.tables, s.now) = some (a, (t, s.now)) := by
      rw [timed, if_pos hc, ho]
    obtain ⟨hon, hrest⟩ := hsafe.step (.refl _) htimed
    refine ⟨fun call' hc' => ?_, hon⟩
    rcases List.mem_or_eq_of_mem_set hc' with hc' | rfl
    · exact rely hon call' hc'
    · exact hrest
  | @tick seconds =>
    have hon : Onward (s.tables, s.now) (s.tables, s.now + seconds) := ⟨.refl _, Nat.le_add_right _ _⟩
    exact ⟨rely hon, hon⟩

/-- **The run lemma.** -/
theorem run_signed (h : run bcrypt (init id) as = some s) : AllSigned bcrypt s := by
  refine exec_inv (I := AllSigned bcrypt) (fun _ _ _ hi ha => (step_signed hi ha).1) ?_ h
  intro call hc
  cases hc

/-- A call that returned stays. -/
theorem returned_kept {a : Action} (ha : step bcrypt s a = some s') {call : Call} (hc : call ∈ s.calls)
    {r : Result} (hr : call.result = some r) : call ∈ s'.calls := by
  cases step_cases ha with
  | start => exact List.mem_append_left _ hc
  | @step i c call' o k x t hi hp =>
    obtain ⟨j, hj⟩ := List.mem_iff_getElem?.1 hc
    have hne : j ≠ i := by
      rintro rfl
      obtain rfl : call = call' := Option.some.inj (hj.symm.trans hi)
      rw [Call.prog_of_result hr] at hp
      cases hp
    exact List.mem_of_getElem? ((List.getElem?_set_ne (Ne.symm hne)).trans hj)
  | tick => exact hc

/-- **What login returned is the token of a user whose password it was given.** -/
theorem AllSigned.returned {call : Call} {tok : Token} (h : AllSigned bcrypt s) (hc : call ∈ s.calls)
    (hr : call.result = some (.token tok)) : ∃ username password, call.job = .login username password ∧
      SignedIn bcrypt username password tok (s.tables, s.now) := by
  have hsafe := h call hc
  rw [Call.prog_of_result hr] at hsafe
  exact hsafe

/-- Some login returned the token, for the password of its user. -/
def Signed (bcrypt : Bcrypt) (s : State) (tok : Token) : Prop :=
  ∃ call ∈ s.calls, ∃ username password, call.job = .login username password ∧
    call.result = some (.token tok) ∧ SignedIn bcrypt username password tok (s.tables, s.now)

theorem Signed.iat_le {tok : Token} (h : Signed bcrypt s tok) : tok.iat ≤ s.now := by
  obtain ⟨-, -, -, -, -, -, hiat, -⟩ := h
  exact hiat

/-- Who has signed in stays signed in. -/
theorem Signed.step {a : Action} {tok : Token} (h : Signed bcrypt s tok) (hs : AllSigned bcrypt s)
    (ha : step bcrypt s a = some s') : Signed bcrypt s' tok := by
  obtain ⟨call, hc, username, password, hj, hr, hin⟩ := h
  obtain ⟨-, hon⟩ := step_signed hs ha
  exact ⟨call, returned_kept ha hc hr, username, password, hj, hr, hin.onward hon⟩

/-- **A token that is admitted is that of a user whose password some login was given.** -/
theorem AllSigned.admitted {tok : Token} {handler cls : Option JsString} (h : AllSigned bcrypt s)
    (ha : s.admits (.request tok handler cls) = true) : s.now < tok.exp ∧ Signed bcrypt s tok := by
  obtain ⟨hexp, hany⟩ := Bool.and_eq_true_iff.1 ha
  obtain ⟨call, hc, hr⟩ := List.any_eq_true.1 hany
  have hres := beq_iff_eq.1 hr
  obtain ⟨username, password, hj, hin⟩ := h.returned hc hres
  exact ⟨by simpa using hexp, call, hc, username, password, hj, hres, hin⟩

end

end SystemDesign.Accounts
