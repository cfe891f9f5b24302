/-
  Which passwords open an account.

  bcrypt looks at the first 72 bytes of a password only, and no layer bounds its length.  So login
  returns a token iff the user exists and the password agrees on these bytes with the one that was
  given where the user was inserted (`login_exact`); that is the same password, if both are
  well-formed and no longer than that (`sameKey_iff`).
-/
import SystemDesign.Accounts.Duties
import SystemDesign.Accounts.Ledger

namespace SystemDesign.Accounts

open Lib

/-! ## What login returns -/

section
variable {bcrypt : Bcrypt} {cs : ℕ → Choice} {t : Tables} {u : UserRow} {username password : JsString}

/-- The lookup is rejected where the name is no text. -/
theorem login_rejected (h : Text.ofJs username = none) :
    outcome bcrypt cs t (login username password) = .error .failed := by
  rw [login, UsersService.findByUsername, outcome_rejected]
  rw [AOp.answer, Tables.findUser, h]
  rfl

theorem login_unknown {n : Text} (h : Text.ofJs username = some n) (hno : ¬ t.Has n) :
    outcome bcrypt cs t (login username password) = .error (.unauthorized (js "Invalid credentials")) := by
  have hfind := (Tables.findUser_none h).2 fun u hu he => hno ⟨u, hu, he⟩
  rw [login, UsersService.findByUsername, outcome_perform (x := none) (by rw [AOp.answer, hfind]; rfl)]
  rfl

theorem login_wrong (hu : u ∈ t.users) (hn : Text.ofJs username = some u.username)
    (hp : bcrypt.compare password u.load.passwordHash = false) :
    outcome bcrypt cs t (login username password) = .error (.unauthorized (js "Invalid credentials")) := by
  have hfind := Tables.findUser_of_mem hu hn
  rw [login, UsersService.findByUsername, outcome_perform (x := some u.load) (by rw [AOp.answer, hfind]; rfl)]
  simp only [UsersService.validatePassword]
  rw [outcome_perform (x := false) (by rw [AOp.answer, hp]; rfl)]
  rfl

/-- **Login returns the token of the user of the name, if the password matches its hash.** -/
theorem login_ok_iff {tok : Token} :
    outcome bcrypt cs t (login username password) = .ok tok ↔
      ∃ u ∈ t.users, Text.ofJs username = some u.username ∧
        bcrypt.compare password u.load.passwordHash = true ∧ tok = u.token (cs 2).now := by
  constructor
  · intro h
    cases hn : Text.ofJs username with
    | none =>
      rw [login_rejected hn] at h
      cases h
    | some n =>
      by_cases hhas : t.Has n
      · obtain ⟨u, hu, rfl⟩ := hhas
        cases hp : bcrypt.compare password u.load.passwordHash with
        | false =>
          rw [login_wrong hu hn hp] at h
          cases h
        | true =>
          rw [login_token hu hn hp] at h
          exact ⟨u, hu, rfl, hp, (Except.ok.inj h).symm⟩
      · rw [login_unknown hn hhas] at h
        cases h
  · rintro ⟨u, hu, hn, hp, rfl⟩
    exact login_token hu hn hp

end

/-! ## bcrypt -/

/-- The bytes of a password that bcrypt looks at. -/
def key (encode : JsString → List UInt8) (password : JsString) : List UInt8 := (encode password).take 72

/-- What is assumed of bcryptjs: it hashes the first 72 bytes of the UTF-8 encoding, and tells any two such
    keys apart; what its encoder makes of a lone surrogate is left open.  This is an ideal.  Passwords with
    U+0000 fall outside it, since the key is repeated with the NUL after it.  A hash is a text. -/
structure Bcrypt.Truncates (bcrypt : Bcrypt) (encode : JsString → List UInt8) : Prop where
  utf8 : ∀ s, wellFormed s = true → encode s = toUtf8 s
  text : ∀ p rounds salt, wellFormed (bcrypt.hash p rounds salt) = true ∧ 0 ∉ bcrypt.hash p rounds salt
  compare : ∀ q p rounds salt,
    bcrypt.compare q (bcrypt.hash p rounds salt) = true ↔ key encode q = key encode p

/-- A well-formed password that bcrypt looks at as a whole. -/
def Short (password : JsString) : Prop := wellFormed password = true ∧ (toUtf8 password).length ≤ 72

section
variable {bcrypt : Bcrypt} {encode : JsString → List UInt8}

/-- **Short passwords are told apart.** -/
theorem sameKey_iff (hb : bcrypt.Truncates encode) {p q : JsString} (hp : Short p) (hq : Short q) :
    key encode q = key encode p ↔ q = p := by
  rw [key, key, hb.utf8 p hp.1, hb.utf8 q hq.1, List.take_of_length_le hp.2, List.take_of_length_le hq.2,
    toUtf8_inj hq.1 hp.1]

/-- A hash is stored as it is. -/
theorem load_hash (hb : bcrypt.Truncates encode) {p : JsString} {rounds : ℕ} {salt : List UInt8} {u : UserRow}
    (h : Text.ofJs (bcrypt.hash p rounds salt) = some u.passwordHash) :
    u.load.passwordHash = bcrypt.hash p rounds salt := by
  rw [UserRow.load, Text.units_ofJs h, toWellFormed_of_wellFormed (hb.text p rounds salt).1]

/-- A recorded user is opened by the passwords with the key of the one given. -/
theorem compare_recorded (hb : bcrypt.Truncates encode) {p q : JsString} {salt : List UInt8} {u : UserRow}
    (h : Text.ofJs (bcrypt.hash p SALT_ROUNDS salt) = some u.passwordHash) :
    bcrypt.compare q u.load.passwordHash = true ↔ key encode q = key encode p := by
  rw [load_hash hb h, hb.compare]

end

/-! ## The accounts of a run -/

/-- The actions `as` have led from `s₀` to these tables: which passwords open which accounts. -/
structure LoginExact (bcrypt : Bcrypt) (encode : JsString → List UInt8) (s₀ : State) (as : List Action)
    (t : Tables) : Prop where
  /-- A token is returned iff the user exists, and the password has the key of the one given where the
      user was inserted. -/
  accepts : ∀ cs username q, (∃ tok, outcome bcrypt cs t (login username q) = .ok tok) ↔
    ∃ n before job p, Text.ofJs username = some n ∧ t.Has n ∧ Inserts bcrypt s₀ as before n job ∧
      job.password n = some p ∧ key encode q = key encode p
  once : ∀ n before before' job job', Inserts bcrypt s₀ as before n job →
    Inserts bcrypt s₀ as before' n job' → before = before' ∧ job = job'
  /-- The token is that of the row of the name. -/
  token : ∀ cs username q tok, outcome bcrypt cs t (login username q) = .ok tok →
    ∃ u ∈ t.users, Text.ofJs username = some u.username ∧ tok.sub = u.load.id ∧
      tok.username = u.load.username ∧ tok.tenantId = u.load.tenantId
  /-- Two passwords of one account have one key. -/
  same : ∀ cs cs' username q q' tok tok', outcome bcrypt cs t (login username q) = .ok tok →
    outcome bcrypt cs' t (login username q') = .ok tok' → key encode q = key encode q'
  /-- One key is one password, among the short ones. -/
  short : ∀ p q, Short p → Short q → (key encode q = key encode p ↔ q = p)

/-- **Login accepts exactly the passwords with the key of the one given.** -/
theorem login_exact (bcrypt : Bcrypt) {encode : JsString → List UInt8} (hb : bcrypt.Truncates encode)
    (id : Uuid) {as : List Action} {s : State} (h : run bcrypt (init id) as = some s) :
    LoginExact bcrypt encode (init id) as s.tables where
  accepts cs username q := by
    constructor
    · rintro ⟨tok, htok⟩
      obtain ⟨u, hu, hn, hp, -⟩ := login_ok_iff.1 htok
      obtain ⟨before, job, p, salt, hins, hpw, hhash⟩ := (run_ledger h).users u hu
      exact ⟨u.username, before, job, p, hn, ⟨u, hu, rfl⟩, hins, hpw, (compare_recorded hb hhash).1 hp⟩
    · rintro ⟨n, before, job, p, hn, ⟨u, hu, rfl⟩, hins, hpw, hkey⟩
      obtain ⟨before', job', p', salt, hins', hpw', hhash⟩ := (run_ledger h).users u hu
      -- the call that inserted the user is the one of the ledger
      obtain ⟨-, rfl⟩ := hins.unique hins'
      obtain rfl : p = p' := Option.some.inj (hpw.symm.trans hpw')
      exact ⟨_, login_ok_iff.2 ⟨u, hu, hn, (compare_recorded hb hhash).2 hkey, rfl⟩⟩
  once n before before' job job' h h' := h.unique h'
  token cs username q tok htok := by
    obtain ⟨u, hu, hn, -, rfl⟩ := login_ok_iff.1 htok
    exact ⟨u, hu, hn, rfl, rfl, rfl⟩
  same cs cs' username q q' tok tok' htok htok' := by
    obtain ⟨u, hu, hn, hp, -⟩ := login_ok_iff.1 htok
    obtain ⟨u', hu', hn', hp', -⟩ := login_ok_iff.1 htok'
    obtain rfl := Tables.user_eq_of_named hu hu' hn hn'
    obtain ⟨before, job, p, salt, hins, hpw, hhash⟩ := (run_ledger h).users u hu
    exact ((compare_recorded hb hhash).1 hp).trans ((compare_recorded hb hhash).1 hp').symm
  short p q hp hq := sameKey_iff hb hp hq

/-! ## A password longer than its key -/

/-- 72 letters and one more. -/
def longPassword (c : UInt16) : JsString := List.replicate 72 0x61 ++ [c]

/-- Passwords with their salts and hashes, one of them longer than its key. -/
def keyHashes : List (JsString × List UInt8 × JsString) :=
  (longPassword 0x62, [113, 215, 159, 130, 24, 163, 146, 89, 167, 162, 154, 171, 178, 219, 175, 195],
    js "$2b$10$abcdefghijklmnopqrstuuiYfj.JCH/8Hff5KmeyaPABzfEqwvS.a") :: sampleHashes

/-- The key itself, above ASCII. -/
def keyText (password : JsString) : JsString :=
  (key toUtf8 password).map fun b => UInt16.ofNat (0x100 + b.toNat)

/-- bcrypt on these passwords; elsewhere the hash is the key. -/
def keyedBcrypt : Bcrypt where
  hash password rounds salt :=
    match keyHashes.find? fun x => key toUtf8 x.1 == key toUtf8 password && x.2.1 == salt && rounds == 10 with
    | some x => x.2.2
    | none => keyText password
  compare password stored :=
    match keyHashes.find? fun x => x.2.2 == stored with
    | some x => key toUtf8 password == key toUtf8 x.1
    | none => keyText password == stored

theorem toNat_keyText {p : JsString} {u : UInt16} (h : u ∈ keyText p) : 0x100 ≤ u.toNat ∧ u.toNat < 0x200 := by
  obtain ⟨b, -, rfl⟩ := List.mem_map.1 h
  have hb := b.toNat_lt
  rw [UInt16.toNat_ofNat']
  omega

theorem keyText_inj {p q : JsString} : keyText q = keyText p ↔ key toUtf8 q = key toUtf8 p := by
  have hinj : Function.Injective fun b : UInt8 => UInt16.ofNat (0x100 + b.toNat) := by
    intro a b h
    have ha := a.toNat_lt
    have hb := b.toNat_lt
    have hn := congrArg UInt16.toNat h
    simp only [UInt16.toNat_ofNat'] at hn
    exact UInt8.toNat_inj.1 (by omega)
  exact List.map_injective_iff.2 hinj |>.eq_iff

/-- The hashes of the table are not keys, and tell its passwords apart. -/
theorem keyHashes_spec : ∀ x ∈ keyHashes, (wellFormed x.2.2 = true ∧ 0 ∉ x.2.2) ∧
    (∃ u ∈ x.2.2, u.toNat < 0x100) ∧ ∀ y ∈ keyHashes, y.2.2 = x.2.2 → y.1 = x.1 := by
  decide +kernel

/-- A hash is one of the table, for a password of the key, or the key. -/
theorem keyedHash_cases (p : JsString) (rounds : ℕ) (salt : List UInt8) :
    (∃ x ∈ keyHashes, key toUtf8 x.1 = key toUtf8 p ∧ keyedBcrypt.hash p rounds salt = x.2.2) ∨
      keyedBcrypt.hash p rounds salt = keyText p := by
  simp only [keyedBcrypt]
  split
  · next x hx =>
    have hp := List.find?_some hx
    simp only [Bool.and_eq_true, beq_iff_eq] at hp
    exact Or.inl ⟨x, List.mem_of_find?_eq_some hx, hp.1.1, rfl⟩
  · exact Or.inr rfl

theorem keyedBcrypt_truncates : keyedBcrypt.Truncates toUtf8 where
  utf8 _ _ := rfl
  text p rounds salt := by
    rcases keyedHash_cases p rounds salt with ⟨x, hx, -, he⟩ | he
    · rw [he]
      exact (keyHashes_spec x hx).1
    · rw [he]
      refine ⟨wellFormed_of_units fun u hu => ?_, fun h0 => ?_⟩
      · have hlt := toNat_keyText hu
        simp only [isHigh, isLow, Bool.and_eq_false_iff, decide_eq_false_iff_not]
        omega
      · have hlt := toNat_keyText h0
        simp at hlt
  compare q p rounds salt := by
    rcases keyedHash_cases p rounds salt with ⟨x, hx, hkey, he⟩ | he
    · rw [he, ← hkey]
      simp only [keyedBcrypt]
      split
      · next y hy =>
        have hyx := List.find?_some hy
        rw [beq_iff_eq] at hyx
        rw [beq_iff_eq, (keyHashes_spec x hx).2.2 y (List.mem_of_find?_eq_some hy) hyx]
      · next hno => exact absurd (List.find?_eq_none.1 hno x hx) (by simp)
    · rw [he]
      simp only [keyedBcrypt]
      split
      · next y hy =>
        have hyp := List.find?_some hy
        rw [beq_iff_eq] at hyp
        obtain ⟨u, hu, hlt⟩ := (keyHashes_spec y (List.mem_of_find?_eq_some hy)).2.1
        have hge := toNat_keyText (hyp ▸ hu)
        omega
      · rw [beq_iff_eq, keyText_inj]

/-- `alice` is created with the long password. -/
def longRun : List Action :=
  [.start (.createUser (Uuid.ofNat 1).toText (js "alice") (longPassword 0x62)), .step 0 (sampleChoice 2),
    .step 0 (sampleChoice 2)]

/-- The run inserts her. -/
theorem login_exact_long :
    ∃ s, run keyedBcrypt (init (Uuid.ofNat 1)) longRun = some s ∧
      LoginExact keyedBcrypt toUtf8 (init (Uuid.ofNat 1)) longRun s.tables ∧ s.tables.users.length = 1 := by
  have hrun : (run keyedBcrypt (init (Uuid.ofNat 1)) longRun).map (·.tables.users.length) = some 1 := by
    decide +kernel
  obtain ⟨s, h, hs⟩ := Option.map_eq_some_iff.1 hrun
  exact ⟨s, h, login_exact keyedBcrypt keyedBcrypt_truncates (Uuid.ofNat 1) h, hs⟩

/-- A token is returned iff the user exists, and the password is the one given where it was inserted. -/
def ExactPassword (bcrypt : Bcrypt) (s₀ : State) (as : List Action) (t : Tables) : Prop :=
  ∀ cs username q, (∃ tok, outcome bcrypt cs t (login username q) = .ok tok) ↔
    ∃ n before job, Text.ofJs username = some n ∧ Inserts bcrypt s₀ as before n job ∧ job.password n = some q

/-- A second password opens `alice`. -/
theorem not_exactPassword :
    ∃ s, run keyedBcrypt (init (Uuid.ofNat 1)) longRun = some s ∧
      ¬ ExactPassword keyedBcrypt (init (Uuid.ofNat 1)) longRun s.tables := by
  have hrun : (run keyedBcrypt (init (Uuid.ofNat 1)) longRun).map (fun s =>
      [longPassword 0x62, longPassword 0x63].all fun q =>
        (outcome keyedBcrypt (fun _ => sampleChoice 3) s.tables (login (js "alice") q)).isOk) = some true := by
    decide +kernel
  obtain ⟨s, h, hs⟩ := Option.map_eq_some_iff.1 hrun
  refine ⟨s, h, fun hexact => ?_⟩
  have given : ∀ q ∈ [longPassword 0x62, longPassword 0x63], ∃ n before job, Text.ofJs (js "alice") = some n ∧
      Inserts keyedBcrypt (init (Uuid.ofNat 1)) longRun before n job ∧ job.password n = some q := by
    intro q hq
    refine (hexact (fun _ => sampleChoice 3) (js "alice") q).1 ?_
    have hok := List.all_eq_true.1 hs q hq
    cases ho : outcome keyedBcrypt (fun _ => sampleChoice 3) s.tables (login (js "alice") q) with
    | error e =>
      rw [ho] at hok
      cases hok
    | ok tok => exact ⟨tok, rfl⟩
  -- both would be the password of the one call that inserted her
  obtain ⟨n, before, job, hn, hins, hp⟩ := given _ List.mem_cons_self
  obtain ⟨n', before', job', hn', hins', hp'⟩ := given _ (List.mem_cons_of_mem _ List.mem_cons_self)
  obtain rfl : n = n' := Option.some.inj (hn.symm.trans hn')
  obtain ⟨-, rfl⟩ := hins.unique hins'
  exact absurd (Option.some.inj (hp.symm.trans hp')) (by decide)

end SystemDesign.Accounts
