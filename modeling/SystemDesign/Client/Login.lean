/-
  The login of the frontend against the API.

  `loginAction` trims the username and posts it to `POST /auth/login`, which takes a username as it
  is.  So the action stores the token that the API returns for the trimmed username (`webLogin_iff`);
  for a name with white space around it that is another account, or none.
-/
import SystemDesign.Client.Actions
import SystemDesign.Accounts.Attempts

namespace SystemDesign.Client

open Lib

/-! ## The API -/

/-- The text of a body; a byte order mark at its start is dropped. -/
def decodeBody : List UInt8 → JsString
  | 0xEF :: 0xBB :: 0xBF :: bytes => ofUtf8 bytes
  | bytes => ofUtf8 bytes

/-- The parser of bodies takes an object or an array, and an empty text for an object. -/
def readBody (body : List UInt8) : Option Json :=
  if (decodeBody body).isEmpty then some (.obj [])
  else (Json.parse (decodeBody body)).filter fun
    | .obj _ | .arr _ => true
    | _ => false

/-- `LoginDto`, as the validation lets it pass. -/
structure LoginDto where
  username : JsString
  password : JsString
  username_ne : username ≠ []
  password_ne : password ≠ []

/-- The validation of a body; `none` where it is rejected. -/
def LoginDto.ofBody (body : Json) : Option LoginDto :=
  match body.get (js "username"), body.get (js "password") with
  | .ok (some (.str username)), .ok (some (.str password)) =>
    if h : username ≠ [] ∧ password ≠ [] then some ⟨username, password, h.1, h.2⟩ else none
  | _, _ => none

section
-- the token as the text that `signAsync` makes of it
variable (bcrypt : Accounts.Bcrypt) (jwt : Accounts.Token → JsString) (cs : ℕ → Accounts.Choice)
  (t : Accounts.Tables)

/-- `POST /auth/login` with the bytes of a body. -/
def postLogin (body : List UInt8) : Reply JsString :=
  match (readBody body).bind LoginDto.ofBody with
  | none => ⟨400, none⟩
  | some dto =>
    match Accounts.outcome bcrypt cs t (Accounts.login dto.username dto.password) with
    | .ok tok => ⟨200, some (jwt tok)⟩
    | .error (.unauthorized _) => ⟨401, none⟩
    | .error _ => ⟨500, none⟩

/-- `JSON.stringify({ username, password })`, in the bytes that are sent. -/
def loginBody (username password : JsString) : List UInt8 :=
  toUtf8 (Json.stringifyObject [(js "username", username), (js "password", password)])

/-- `POST /auth/login` with two strings. -/
def apiLogin (username password : JsString) : Reply JsString :=
  postLogin bcrypt jwt cs t (loginBody username password)

/-! ## The action -/

/-- What the API replies to an operation. -/
def Op.reply : Op → Choice
  | .fetchLogin username password =>
    ⟨false, (apiLogin bcrypt jwt cs t username password).status,
      (apiLogin bcrypt jwt cs t username password).body, none⟩
  | _ => ⟨false, 200, none, none⟩

theorem Op.step_isSome (o : Op) (c : Choice) (e : Exchange) : (o.step c e).isSome = true := by
  cases o with
  | fetchLogin | fetchTask =>
    simp only [Op.step]
    split_ifs <;> rfl
  | _ => rfl

def Op.answer (o : Op) (_ : Unit) (e : Exchange) : Except Thrown o.Ans × Exchange :=
  (o.step (o.reply bcrypt jwt cs t) e).get (o.step_isSome _ e)

/-- What the response to the login form does to the session cookie; a form has strings without lone
    surrogates. -/
def webLogin (cookie : Option JsString) (username password : JsString) : Option SetCookie :=
  (Async.stateAtEnd (Op.answer bcrypt jwt cs t)
    (loginAction (some (toWellFormed username)) (some (toWellFormed password))) (fun _ => ())
    ⟨cookie, none, []⟩).setCookie

end

section
variable {bcrypt : Accounts.Bcrypt} {jwt : Accounts.Token → JsString} {cs : ℕ → Accounts.Choice}
  {t : Accounts.Tables} {username password token : JsString}

theorem decodeBody_cons {b : UInt8} (h : b ≠ 0xEF) (bytes : List UInt8) :
    decodeBody (b :: bytes) = ofUtf8 (b :: bytes) := by
  unfold decodeBody
  split
  · next he => exact absurd (List.cons.inj he).1 h
  · rfl

/-- **The object that is sent arrives as it is.** -/
theorem readBody_sent {ms : List (JsString × JsString)} (h : ms ≠ []) :
    readBody (toUtf8 (Json.stringifyObject ms)) = some (.obj (Json.ofStrings ms)) := by
  have hparse := Json.parse_sent h
  obtain ⟨bytes, hbytes⟩ : ∃ bytes, toUtf8 (Json.stringifyObject ms) = 0x7B :: bytes := by
    rw [Json.stringifyObject]
    cases Json.stringifyMembers ms ++ [0x7D] with
    | nil => exact ⟨_, rfl⟩
    | cons u rest => exact ⟨_, rfl⟩
  rw [hbytes] at hparse ⊢
  have hne : (ofUtf8 (0x7B :: bytes)).isEmpty = false := by
    cases htext : ofUtf8 (0x7B :: bytes) with
    | nil =>
      rw [htext] at hparse
      cases hparse
    | cons u rest => rfl
  rw [readBody, decodeBody_cons (by decide), hne, hparse]
  rfl

/-- The two strings arrive as they are. -/
theorem ofBody_loginBody (username password : JsString) :
    (readBody (loginBody username password)).bind LoginDto.ofBody =
      if h : username ≠ [] ∧ password ≠ [] then some ⟨username, password, h.1, h.2⟩ else none := by
  have hkey : (js "password" == js "username") = false := by decide
  have hu : (Json.obj (Json.ofStrings [(js "username", username), (js "password", password)])).get
      (js "username") = .ok (some (.str username)) := by
    simp [Json.get, Json.ofStrings, hkey]
  have hp : (Json.obj (Json.ofStrings [(js "username", username), (js "password", password)])).get
      (js "password") = .ok (some (.str password)) := by
    simp [Json.get, Json.ofStrings]
  rw [loginBody, readBody_sent (by simp), Option.bind_some, LoginDto.ofBody, hu, hp]

/-- The API replies with a token iff both strings are not empty and login returns it. -/
theorem apiLogin_ok_iff :
    apiLogin bcrypt jwt cs t username password = ⟨200, some token⟩ ↔
      username ≠ [] ∧ password ≠ [] ∧ ∃ tok, Accounts.outcome bcrypt cs t (Accounts.login username password) =
        .ok tok ∧ token = jwt tok := by
  rw [apiLogin, postLogin, ofBody_loginBody]
  by_cases h : username ≠ [] ∧ password ≠ []
  · rw [dif_pos h]
    dsimp only
    constructor
    · intro hr
      split at hr
      · next tok htok =>
        simp only [Reply.mk.injEq, Option.some.injEq, true_and] at hr
        exact ⟨h.1, h.2, tok, htok, hr.symm⟩
      · cases hr
      · cases hr
    · rintro ⟨-, -, tok, htok, rfl⟩
      rw [htok]
  · rw [dif_neg h]
    constructor
    · intro hr
      cases hr
    · rintro ⟨hu, hp, -⟩
      exact absurd ⟨hu, hp⟩ h

/-- The replies of the API. -/
theorem apiLogin_cases (username password : JsString) :
    (∃ token, apiLogin bcrypt jwt cs t username password = ⟨200, some token⟩) ∨
      ∃ status ∈ [400, 401, 500], apiLogin bcrypt jwt cs t username password = ⟨status, none⟩ := by
  unfold apiLogin postLogin
  split
  · exact Or.inr ⟨400, by simp, rfl⟩
  · split
    · exact Or.inl ⟨_, rfl⟩
    · exact Or.inr ⟨401, by simp, rfl⟩
    · exact Or.inr ⟨500, by simp, rfl⟩

theorem apiLogin_of_empty (h : username = [] ∨ password = []) :
    apiLogin bcrypt jwt cs t username password = ⟨400, none⟩ := by
  rw [apiLogin, postLogin, ofBody_loginBody, dif_neg]
  rcases h with rfl | rfl <;> simp

/-- What the action leaves, by the reply of the API to what it posts. -/
theorem stateAtEnd_login (e : Exchange) :
    (∃ token, apiLogin bcrypt jwt cs t (trim username) password = ⟨200, some token⟩ ∧
      Async.stateAtEnd (Op.answer bcrypt jwt cs t) (loginAction (some username) (some password))
        (fun _ => ()) e = { e with setCookie := some (.set token) }) ∨
      (∀ token, apiLogin bcrypt jwt cs t (trim username) password ≠ ⟨200, some token⟩) ∧
        Async.stateAtEnd (Op.answer bcrypt jwt cs t) (loginAction (some username) (some password))
          (fun _ => ()) e = e := by
  by_cases hu : (trim username).isEmpty = true
  · refine Or.inr ⟨fun token => ?_, ?_⟩
    · rw [apiLogin_of_empty (Or.inl (List.isEmpty_iff.1 hu))]
      nofun
    · simp [loginAction, safeParse, hu, Async.stateAtEnd]
  by_cases hp : password.isEmpty = true
  · refine Or.inr ⟨fun token => ?_, ?_⟩
    · rw [apiLogin_of_empty (Or.inr (List.isEmpty_iff.1 hp))]
      nofun
    · simp [loginAction, safeParse, hu, hp, Async.stateAtEnd]
  have hpost : ∀ {reply : Reply JsString}, apiLogin bcrypt jwt cs t (trim username) password = reply →
      ∀ k : Except Thrown (Reply JsString) → Async Op Op.Ans Thrown LoginState,
        Async.stateAtEnd (Op.answer bcrypt jwt cs t) (.await (.fetchLogin (trim username) password) k)
          (fun _ => ()) e = Async.stateAtEnd (Op.answer bcrypt jwt cs t) (k (.ok reply)) (fun _ => ()) e := by
    rintro reply rfl k
    rfl
  have hparse : safeParse (some username) (some password) = .ok (trim username, password) := by
    simp [safeParse, hu, hp]
  have hcases : (∃ token, apiLogin bcrypt jwt cs t (trim username) password = ⟨200, some token⟩) ∨ _ :=
    apiLogin_cases (trim username) password
  unfold loginAction
  rw [hparse]
  rcases hcases with ⟨token, hr⟩ | ⟨status, hs, hr⟩
  · exact Or.inl ⟨token, hr, hpost hr _⟩
  · refine Or.inr ⟨fun token h => ?_, ?_⟩
    · rw [hr] at h
      cases h
    · refine (hpost hr _).trans ?_
      simp only [List.mem_cons, List.not_mem_nil, or_false] at hs
      rcases hs with rfl | rfl | rfl
      · rfl
      · rfl
      · rfl

/-- **The action stores the token that the API returns for what it posts.** -/
theorem webLogin_iff {cookie : Option JsString} :
    webLogin bcrypt jwt cs t cookie username password = some (.set token) ↔
      apiLogin bcrypt jwt cs t (trim (toWellFormed username)) (toWellFormed password) = ⟨200, some token⟩ := by
  have hcases : (∃ token, apiLogin bcrypt jwt cs t (trim (toWellFormed username)) (toWellFormed password) =
      ⟨200, some token⟩ ∧ _) ∨ _ := stateAtEnd_login ⟨cookie, none, []⟩
  rw [webLogin]
  rcases hcases with ⟨token', hr, hs⟩ | ⟨hno, hs⟩
  · rw [hs, hr]
    simp
  · rw [hs]
    exact ⟨nofun, fun h => absurd h (hno token)⟩

end

/-- How the login of the frontend and that of the API agree. -/
structure LoginAgrees (bcrypt : Accounts.Bcrypt) (jwt : Accounts.Token → JsString) (cs : ℕ → Accounts.Choice)
    (t : Accounts.Tables) : Prop where
  /-- The action stores a token iff the API returns it for the trimmed username. -/
  trimmed : ∀ cookie username password token,
    webLogin bcrypt jwt cs t cookie username password = some (.set token) ↔
      apiLogin bcrypt jwt cs t (trim (toWellFormed username)) (toWellFormed password) = ⟨200, some token⟩
  /-- They agree on a username without white space around it, where a form can carry the strings. -/
  same : ∀ cookie username password token, wellFormed username = true → wellFormed password = true →
    trim username = username →
    (webLogin bcrypt jwt cs t cookie username password = some (.set token) ↔
      apiLogin bcrypt jwt cs t username password = ⟨200, some token⟩)
  /-- The token is that of the user of the name. -/
  user : ∀ username password token, apiLogin bcrypt jwt cs t username password = ⟨200, some token⟩ →
    ∃ u ∈ t.users, Text.ofJs username = some u.username ∧ token = jwt (u.token (cs 2).now)

/-- **The login of the frontend is that of the API with the username trimmed.** -/
theorem login_agrees (bcrypt : Accounts.Bcrypt) (jwt : Accounts.Token → JsString) (cs : ℕ → Accounts.Choice)
    (t : Accounts.Tables) : LoginAgrees bcrypt jwt cs t where
  trimmed cookie username password token := webLogin_iff
  same cookie username password token hu hp htrim := by
    rw [webLogin_iff, toWellFormed_of_wellFormed hu, toWellFormed_of_wellFormed hp, htrim]
  user username password token h := by
    obtain ⟨-, -, tok, htok, rfl⟩ := apiLogin_ok_iff.1 h
    obtain ⟨u, hu, hn, -, rfl⟩ := Accounts.login_ok_iff.1 htok
    exact ⟨u, hu, hn, rfl⟩

/-! ## A name with a space before it -/

def sampleToken : Accounts.Token := ⟨(Uuid.ofNat 2).toText, js "alice", (Uuid.ofNat 1).toText, 1700000000⟩

/-- The text of this token, signed with the key `secret`. -/
def sampleJwt (tok : Accounts.Token) : JsString :=
  if tok = sampleToken then
    js "eyJhbGciOiJIUzI1NiIsInR5cCI6IkpXVCJ9.eyJzdWIiOiIwMDAwMDAwMC0wMDAwLTAwMDAtMDAwMC0wMDAwMDAwM" ++
      js "DAwMDIiLCJ1c2VybmFtZSI6ImFsaWNlIiwidGVuYW50SWQiOiIwMDAwMDAwMC0wMDAwLTAwMDAtMDAwMC0wMDAwMDA" ++
      js "wMDAwMDEiLCJpYXQiOjE3MDAwMDAwMDAsImV4cCI6MTcwMDAwMzYwMH0.dooBMIu_DbngNhijZgMxT6DrZ0vKZjxCB" ++
      js "Nrg4AtERX8"
  else []

def sampleChoices (_ : ℕ) : Accounts.Choice := ⟨.ok, Uuid.ofNat 3, [], 1700000000⟩

/-- `alice` logs in by either way. -/
theorem login_agrees_alice :
    ∃ s, Accounts.run Accounts.sampleBcrypt (Accounts.init (Uuid.ofNat 1)) Accounts.aliceRun = some s ∧
      webLogin Accounts.sampleBcrypt sampleJwt sampleChoices s.tables none (js "alice") (js "pw1") =
        some (.set (sampleJwt sampleToken)) ∧
      apiLogin Accounts.sampleBcrypt sampleJwt sampleChoices s.tables (js "alice") (js "pw1") =
        ⟨200, some (sampleJwt sampleToken)⟩ := by
  have hrun : (Accounts.run Accounts.sampleBcrypt (Accounts.init (Uuid.ofNat 1)) Accounts.aliceRun).map
      (fun s => webLogin Accounts.sampleBcrypt sampleJwt sampleChoices s.tables none (js "alice")
        (js "pw1")) = some (some (.set (sampleJwt sampleToken))) := by decide +kernel
  obtain ⟨s, h, hs⟩ := Option.map_eq_some_iff.1 hrun
  exact ⟨s, h, hs, ((login_agrees Accounts.sampleBcrypt sampleJwt sampleChoices s.tables).same none _ _ _
    (by decide) (by decide) (by decide)).1 hs⟩

/-- The action stores a token iff the API returns it for the same two strings. -/
def LoginSame (bcrypt : Accounts.Bcrypt) (jwt : Accounts.Token → JsString) (cs : ℕ → Accounts.Choice)
    (t : Accounts.Tables) : Prop :=
  ∀ cookie username password token,
    webLogin bcrypt jwt cs t cookie username password = some (.set token) ↔
      apiLogin bcrypt jwt cs t username password = ⟨200, some token⟩

/-- The form opens `alice` for a name that the API does not know. -/
theorem not_loginSame :
    ∃ s, Accounts.run Accounts.sampleBcrypt (Accounts.init (Uuid.ofNat 1)) Accounts.aliceRun = some s ∧
      ¬ LoginSame Accounts.sampleBcrypt sampleJwt sampleChoices s.tables := by
  have hrun : (Accounts.run Accounts.sampleBcrypt (Accounts.init (Uuid.ofNat 1)) Accounts.aliceRun).map
      (fun s =>
        (webLogin Accounts.sampleBcrypt sampleJwt sampleChoices s.tables none (js " alice") (js "pw1"),
          (apiLogin Accounts.sampleBcrypt sampleJwt sampleChoices s.tables (js " alice") (js "pw1")).status)) =
        some (some (.set (sampleJwt sampleToken)), 401) := by decide +kernel
  obtain ⟨s, h, hs⟩ := Option.map_eq_some_iff.1 hrun
  obtain ⟨hweb, hapi⟩ := Prod.mk.inj hs
  refine ⟨s, h, fun hsame => ?_⟩
  rw [(hsame _ _ _ _).1 hweb] at hapi
  cases hapi

end SystemDesign.Client
