/-
  What failed logins reveal.

  An attacker sees the exception of an attempt, its operations, and what a comparison costs.  Every
  stored hash has the format and the cost of the hash that is compared where the user does not
  exist, although two modules declare the rounds; so a failed attempt looks the same in all states
  that runs reach (`failed_alike`).
-/
import SystemDesign.Accounts.Passwords

namespace SystemDesign.Accounts

open Lib

/-! ## The format of a hash -/

def isDigit (u : UInt16) : Bool := 0x30 ≤ u.toNat && u.toNat ≤ 0x39

/-- The characters of bcrypt's base 64: dot, slash, digits and letters. -/
def isBase64 (u : UInt16) : Bool :=
  (0x2E ≤ u.toNat && u.toNat ≤ 0x39) || (0x41 ≤ u.toNat && u.toNat ≤ 0x5A) ||
    (0x61 ≤ u.toNat && u.toNat ≤ 0x7A)

/-- The cost factor of a well-formed hash of 60 characters: `$2b$`, two digits, `$`, and the salt and
    the digest in 53 characters. -/
def bcryptCost : JsString → Option ℕ
  | d₁ :: two :: v :: d₂ :: a :: b :: d₃ :: digest =>
    if [d₁, two, d₂, d₃] = js "$2$$" ∧ v ∈ js "aby" ∧ isDigit a = true ∧ isDigit b = true ∧
        digest.length = 53 ∧ digest.all isBase64 = true then
      some ((a.toNat - 0x30) * 10 + (b.toNat - 0x30))
    else none
  | _ => none

/-- bcryptjs: a hash has the documented format, with the rounds as its cost. -/
def Bcrypt.Formats (bcrypt : Bcrypt) : Prop :=
  ∀ p rounds salt, 4 ≤ rounds → rounds ≤ 31 → bcryptCost (bcrypt.hash p rounds salt) = some rounds

theorem ascii_of_cost {h : JsString} {c : ℕ} (hc : bcryptCost h = some c) : Ascii h := by
  unfold bcryptCost at hc
  split at hc
  · next d₁ two v d₂ a b d₃ digest =>
    split_ifs at hc with hok
    obtain ⟨hfixed, hv, ha, hb, -, hall⟩ := hok
    have hfixed' : Ascii [d₁, two, d₂, d₃] := by
      rw [hfixed]
      simp [js, units]
    have hversions : Ascii (js "aby") := by simp [js, units]
    have hdigest : Ascii digest := by
      intro u hu
      have h64 := List.all_eq_true.1 hall u hu
      simp only [isBase64, Bool.or_eq_true, Bool.and_eq_true, decide_eq_true_eq] at h64
      omega
    simp only [isDigit, Bool.and_eq_true, decide_eq_true_eq] at ha hb
    simp only [ascii_cons, ascii_nil, and_true] at hfixed' ⊢
    obtain ⟨h1, h2, h3, h4⟩ := hfixed'
    exact ⟨h1, h2, hversions v hv, h3, by omega, by omega, h4, hdigest⟩
  · cases hc

theorem cost_dummy : bcryptCost DUMMY_HASH = some SALT_ROUNDS := by decide +kernel

section
variable {bcrypt : Bcrypt} {s : State} {as : List Action} {id : Uuid}

/-- **Every stored hash has the format and the cost of the dummy.** -/
theorem cost_stored (hb : bcrypt.Formats) (h : run bcrypt (init id) as = some s) {u : UserRow}
    (hu : u ∈ s.tables.users) : bcryptCost u.load.passwordHash = some SALT_ROUNDS := by
  obtain ⟨before, job, p, salt, -, -, hhash⟩ := (run_ledger h).users u hu
  have hcost := hb p SALT_ROUNDS salt (by decide) (by decide)
  have hwf := wellFormed_of_ascii (ascii_of_cost hcost)
  rw [UserRow.load, Text.units_ofJs hhash, toWellFormed_of_wellFormed hwf, hcost]

end

/-! ## What an attacker sees -/

/-- What the time of an operation tells: which one it is, and what a comparison costs. -/
inductive Seen where
  | lookup (username : JsString)
  | compare (password : JsString) (cost : Option ℕ)
  | other
deriving DecidableEq

def AOp.seen : AOp → Seen
  | .findUser username => .lookup username
  | .compare password stored => .compare password (bcryptCost stored)
  | _ => .other

/-- An attempt to log in, with what is not determined by its operations; a token can be signed. -/
structure Attempt where
  username : JsString
  password : JsString
  choices : ℕ → Choice
  signs : (choices 2).outcome = .ok

structure Observation where
  operations : List Seen
  result : Except Thrown Token

/-- The login throws. -/
def Observation.Failed (o : Observation) : Prop := ∃ e, o.result = .error e

/-- The attempt, as the attacker sees it. -/
def Attempt.observe (bcrypt : Bcrypt) (t : Tables) (a : Attempt) : Observation :=
  let x := Async.runToEnd (AOp.answer bcrypt) (login a.username a.password) a.choices t
  ⟨x.1.map AOp.seen, x.2⟩

/-- The attempts one after the other. -/
def observations (bcrypt : Bcrypt) : List Attempt → Tables → List Observation
  | [], _ => []
  | a :: as, t => a.observe bcrypt t ::
    observations bcrypt as (Async.stateAtEnd (AOp.answer bcrypt) (login a.username a.password) a.choices t)

/-- What is seen of an attempt that fails: a comparison of the cost of the rounds, unless the lookup
    fails or Postgres rejects the name. -/
def Attempt.failure (a : Attempt) : Observation :=
  if (a.choices 0).outcome.isOk && (Text.ofJs a.username).isSome then
    ⟨[.lookup a.username, .compare a.password (some SALT_ROUNDS)],
      .error (if (a.choices 1).outcome.isOk then .unauthorized (js "Invalid credentials") else .failed)⟩
  else ⟨[.lookup a.username], .error .failed⟩

section
variable {bcrypt : Bcrypt} {t : Tables} {a : Attempt}

/-- An operation without effect. -/
def AOp.reads : AOp → Bool
  | .findUser _ | .compare _ _ | .sign _ _ _ => true
  | _ => false

/-- A login leaves the tables as they are. -/
theorem login_reads (cs : ℕ → Choice) (username password : JsString) :
    Async.stateAtEnd (AOp.answer bcrypt) (login username password) cs t = t := by
  refine Async.stateAtEnd_of_only (P := fun o => o.reads = true) (fun o ho c t => ?_)
    (login_only rfl (fun _ => rfl) fun _ _ _ => rfl) cs t
  cases o with
  | findUser | compare | sign => rfl
  | _ => cases ho

theorem observations_eq (attempts : List Attempt) :
    observations bcrypt attempts t = attempts.map (Attempt.observe bcrypt t) := by
  induction attempts with
  | nil => rfl
  | cons a as ih => rw [observations, login_reads, ih, List.map_cons]

theorem reading_some {α : Type} {c : Choice} (x : α) :
    reading c (some x) = if c.outcome.isOk = true then .ok x else .error .failed := rfl

/-- A login after the comparison. -/
def afterCompare (user : Option User) (passwordMatches : Bool) : Service Token :=
  match user with
  | none => .throw (.unauthorized (js "Invalid credentials"))
  | some user =>
    if passwordMatches then perform (.sign user.id user.username user.tenantId)
    else .throw (.unauthorized (js "Invalid credentials"))

/-- Whether or not there is a user, a comparison follows the lookup. -/
theorem login_eq (username password : JsString) : login username password =
    perform (.findUser username) >>= fun user : Option User =>
      perform (.compare password (user.elim DUMMY_HASH (·.passwordHash))) >>= afterCompare user := by
  refine congrArg (perform (.findUser username) >>= ·) (funext fun user => ?_)
  cases user with
  | none =>
    refine congrArg (Async.await _) (funext fun x => ?_)
    cases x <;> rfl
  | some user => rfl

/-- What comes after a comparison fails without a further operation, or leads to a token. -/
theorem runToEnd_afterCompare (user : Option User) (matched : Bool) {cs : ℕ → Choice}
    (hs : (cs 0).outcome = .ok) :
    Async.runToEnd (AOp.answer bcrypt) (afterCompare user matched) cs t =
        ([], .error (.unauthorized (js "Invalid credentials"))) ∨
      ∃ tok, (Async.runToEnd (AOp.answer bcrypt) (afterCompare user matched) cs t).2 = .ok tok := by
  cases user with
  | none => exact Or.inl rfl
  | some user =>
    cases matched with
    | false => exact Or.inl rfl
    | true =>
      refine Or.inr ⟨⟨user.id, user.username, user.tenantId, (cs 0).now⟩, ?_⟩
      simp only [afterCompare, ↓reduceIte, perform, Async.call, Async.runToEnd, AOp.answer, reading_some, hs]
      rfl

/-- **An attempt that fails after its lookup** has compared the password with a hash of the cost. -/
theorem observe_compared {user : Option User} (hl : (a.choices 0).outcome.isOk = true)
    (hfind : t.findUser a.username = some user)
    (hcost : bcryptCost (user.elim DUMMY_HASH (·.passwordHash)) = some SALT_ROUNDS)
    (hf : (a.observe bcrypt t).Failed) : a.observe bcrypt t = a.failure := by
  have hname : (Text.ofJs a.username).isSome = true := by
    obtain ⟨n, hn, -⟩ := Option.map_eq_some_iff.1 hfind
    rw [hn]
    rfl
  have hread : (AOp.findUser a.username).answer bcrypt (a.choices 0) t = (.ok user, t) := by
    rw [AOp.answer, hfind, reading_some, if_pos hl]
  rw [Attempt.failure, hl, hname, Bool.true_and, if_pos rfl]
  cases hc : (a.choices 1).outcome.isOk with
  | false =>
    have hcompare : (AOp.compare a.password (user.elim DUMMY_HASH (·.passwordHash))).answer bcrypt
        (a.choices 1) t = (.error .failed, t) := by
      rw [AOp.answer, reading_some, hc, if_neg Bool.false_ne_true]
    rw [Attempt.observe, login_eq, runToEnd_ok hread, runToEnd_error hcompare]
    simp only [List.map_cons, List.map_nil, AOp.seen, hcost, if_neg Bool.false_ne_true]
  | true =>
    have hcompare : (AOp.compare a.password (user.elim DUMMY_HASH (·.passwordHash))).answer bcrypt
        (a.choices 1) t = (.ok (bcrypt.compare a.password (user.elim DUMMY_HASH (·.passwordHash))), t) := by
      rw [AOp.answer, reading_some, hc, if_pos rfl]
    rw [Attempt.observe, login_eq, runToEnd_ok hread, runToEnd_ok hcompare] at hf ⊢
    have hsigns : (a.choices (0 + 1 + 1)).outcome = .ok := a.signs
    have hafter : _ ∨ ∃ tok, (Async.runToEnd (AOp.answer bcrypt) (afterCompare user (bcrypt.compare a.password
        (user.elim DUMMY_HASH (·.passwordHash)))) (fun i => a.choices (i + 1 + 1)) t).2 = .ok tok :=
      runToEnd_afterCompare user _ hsigns
    rcases hafter with hno | ⟨tok, htok⟩
    · rw [hno]
      simp only [List.map_cons, List.map_nil, AOp.seen, hcost, if_pos]
    · obtain ⟨e, he⟩ := hf
      rw [htok] at he
      cases he

/-- **A failed attempt looks the same**, where every stored hash costs the same. -/
theorem observe_failed (hcost : ∀ u ∈ t.users, bcryptCost u.load.passwordHash = some SALT_ROUNDS)
    (hf : (a.observe bcrypt t).Failed) : a.observe bcrypt t = a.failure := by
  have lookup_error : (AOp.findUser a.username).answer bcrypt (a.choices 0) t = (.error .failed, t) →
      a.observe bcrypt t = ⟨[.lookup a.username], .error .failed⟩ := by
    intro h
    rw [Attempt.observe, login, UsersService.findByUsername, runToEnd_error h]
    rfl
  cases hl : (a.choices 0).outcome.isOk with
  | false =>
    rw [lookup_error, Attempt.failure, hl, Bool.false_and, if_neg Bool.false_ne_true]
    rw [AOp.answer]
    cases t.findUser a.username with
    | none => rfl
    | some user => rw [reading_some, hl, if_neg Bool.false_ne_true]
  | true =>
    cases hfind : t.findUser a.username with
    | none =>
      have hname : (Text.ofJs a.username).isSome = false := by
        rw [Tables.findUser, Option.map_eq_none_iff] at hfind
        rw [hfind]
        rfl
      rw [lookup_error (by rw [AOp.answer, hfind]; rfl), Attempt.failure, hname, Bool.and_false,
        if_neg Bool.false_ne_true]
    | some user =>
      refine observe_compared hl hfind ?_ hf
      cases user with
      | none => exact cost_dummy
      | some user =>
        obtain ⟨u, hu, rfl, -⟩ := Tables.findUser_some hfind
        exact hcost u hu

end

/-- **Failed logins do not reveal which users exist.**  Two states that runs reach look the same to
    attempts that fail in both; where no query fails and Postgres takes the name, each of them is one
    lookup and one full comparison. -/
theorem failed_alike (bcrypt : Bcrypt) (hb : bcrypt.Formats) {id id' : Uuid} {as as' : List Action}
    {s s' : State} (h : run bcrypt (init id) as = some s) (h' : run bcrypt (init id') as' = some s')
    {attempts : List Attempt} (hf : ∀ o ∈ observations bcrypt attempts s.tables, o.Failed)
    (hf' : ∀ o ∈ observations bcrypt attempts s'.tables, o.Failed) :
    observations bcrypt attempts s.tables = observations bcrypt attempts s'.tables ∧
      observations bcrypt attempts s.tables = attempts.map Attempt.failure ∧
      ∀ a ∈ attempts, (a.choices 0).outcome = .ok → (a.choices 1).outcome = .ok →
        (Text.ofJs a.username).isSome = true →
        a.failure = ⟨[.lookup a.username, .compare a.password (some SALT_ROUNDS)],
          .error (.unauthorized (js "Invalid credentials"))⟩ := by
  have all : ∀ {id : Uuid} {as : List Action} {s : State}, run bcrypt (init id) as = some s →
      (∀ o ∈ observations bcrypt attempts s.tables, o.Failed) →
      observations bcrypt attempts s.tables = attempts.map Attempt.failure := by
    intro id as s h hf
    rw [observations_eq] at hf ⊢
    refine List.map_congr_left fun a ha => ?_
    exact observe_failed (fun u hu => cost_stored hb h hu) (hf _ (List.mem_map_of_mem ha))
  refine ⟨(all h hf).trans (all h' hf').symm, all h hf, fun a _ h0 h1 hname => ?_⟩
  rw [Attempt.failure, h0, h1, hname]
  rfl

/-- A hash that no password has. -/
def emptyHash (rounds : ℕ) : JsString :=
  js "$2b$" ++ [UInt16.ofNat (0x30 + rounds / 10), UInt16.ofNat (0x30 + rounds % 10)] ++ js "$" ++
    List.replicate 53 0x2E

/-- bcrypt on the sample passwords; the other hashes have the format only. -/
def formattedBcrypt : Bcrypt where
  hash password rounds salt :=
    match sampleHashes.find? fun x => x.1 == password && x.2.1 == salt && rounds == 10 with
    | some x => x.2.2
    | none => emptyHash rounds
  compare := sampleBcrypt.compare

theorem formattedBcrypt_formats : formattedBcrypt.Formats := by
  have htable : ∀ x ∈ sampleHashes, bcryptCost x.2.2 = some 10 := by decide +kernel
  have hempty : ∀ rounds < 32, 4 ≤ rounds → bcryptCost (emptyHash rounds) = some rounds := by decide +kernel
  intro p rounds salt h4 h31
  simp only [formattedBcrypt]
  split
  · next x hx =>
    have hp := List.find?_some hx
    simp only [Bool.and_eq_true, beq_iff_eq] at hp
    rw [htable x (List.mem_of_find?_eq_some hx), hp.2]
  · exact hempty rounds (by omega) h4

/-- `alice` is created. -/
def aliceRun : List Action :=
  [.start (.createUser (Uuid.ofNat 1).toText (js "alice") (js "pw1")), .step 0 (sampleChoice 2),
    .step 0 (sampleChoice 2)]

/-- A wrong password for `alice`, and a user that is in neither state. -/
def sampleAttempts : List Attempt :=
  [⟨js "alice", js "pw2", fun _ => sampleChoice 3, rfl⟩, ⟨js "bob", js "pw1", fun _ => sampleChoice 3, rfl⟩]

theorem failed_of_all {os : List Observation} (h : (os.all fun o => !o.result.isOk) = true) :
    ∀ o ∈ os, o.Failed := by
  intro o ho
  have hno := List.all_eq_true.1 h o ho
  unfold Observation.Failed
  cases hr : o.result with
  | error e => exact ⟨e, rfl⟩
  | ok tok =>
    rw [hr] at hno
    cases hno

/-- The attempts do not tell whether `alice` exists. -/
theorem failed_alike_alice :
    ∃ s, run formattedBcrypt (init (Uuid.ofNat 1)) aliceRun = some s ∧ s.tables.users.length = 1 ∧
      observations formattedBcrypt sampleAttempts s.tables =
        observations formattedBcrypt sampleAttempts (init (Uuid.ofNat 1)).tables := by
  have hrun : (run formattedBcrypt (init (Uuid.ofNat 1)) aliceRun).map (fun s =>
      (s.tables.users.length, (observations formattedBcrypt sampleAttempts s.tables).all fun o =>
        !o.result.isOk)) = some (1, true) := by decide +kernel
  have hinit : ((observations formattedBcrypt sampleAttempts (init (Uuid.ofNat 1)).tables).all fun o =>
      !o.result.isOk) = true := by decide +kernel
  obtain ⟨s, h, hs⟩ := Option.map_eq_some_iff.1 hrun
  obtain ⟨hlen, hf⟩ := Prod.mk.inj hs
  have h' : run formattedBcrypt (init (Uuid.ofNat 1)) [] = some (init (Uuid.ofNat 1)) := rfl
  exact ⟨s, h, hlen, (failed_alike formattedBcrypt formattedBcrypt_formats h h' (failed_of_all hf)
    (failed_of_all hinit)).1⟩

/-- Each attempt that fails, where no query fails by itself, is a lookup and a full comparison. -/
def AlwaysCompares (bcrypt : Bcrypt) (t : Tables) : Prop :=
  ∀ a : Attempt, (∀ i, (a.choices i).outcome = .ok) → (a.observe bcrypt t).Failed →
    (a.observe bcrypt t).operations = [.lookup a.username, .compare a.password (some SALT_ROUNDS)]

/-- Nothing is compared for a name with U+0000, which Postgres rejects. -/
theorem not_alwaysCompares :
    ∃ s, run formattedBcrypt (init (Uuid.ofNat 1)) aliceRun = some s ∧
      ¬ AlwaysCompares formattedBcrypt s.tables := by
  have hrun : (run formattedBcrypt (init (Uuid.ofNat 1)) aliceRun).isSome = true := by decide +kernel
  obtain ⟨s, h⟩ := Option.isSome_iff_exists.1 hrun
  refine ⟨s, h, fun hall => ?_⟩
  have hops := hall ⟨[0], js "pw1", fun _ => sampleChoice 3, rfl⟩ (fun _ => rfl) ⟨.failed, rfl⟩
  have hops' : [Seen.lookup [0]] = [.lookup [0], .compare (js "pw1") (some SALT_ROUNDS)] := hops
  cases hops'

end SystemDesign.Accounts
