/-
  Tokens and the user of a request.

  A token is what was signed, so that verifying it gives back the claims of `Token.payload`.
  `validate` makes the user of a request from the claims, and rejects a token without a tenant.
-/
import SystemDesign.Lib.Json

namespace SystemDesign.Accounts

open Lib

/-- What the services and the guards throw. -/
inductive Thrown where
  /-- An operation failed. -/
  | failed
  | typeError
  | error (message : JsString)
  | unauthorized (message : JsString)
  | forbidden (message : JsString)
deriving DecidableEq

/-- The claims of a token: those `login` signs, and the time of issue in seconds. -/
structure Token where
  sub : JsString
  username : JsString
  tenantId : JsString
  iat : ℕ
deriving DecidableEq

/-- `expiresIn: '1h'` -/
def expiresIn : ℕ := 3600

def Token.exp (tok : Token) : ℕ := tok.iat + expiresIn

/-- What verifying the token returns. -/
def Token.payload (tok : Token) : Json :=
  .obj [(js "sub", .str tok.sub), (js "username", .str tok.username),
    (js "tenantId", .str tok.tenantId), (js "iat", .num false tok.iat 0),
    (js "exp", .num false tok.exp 0)]

/-- `req.user` -/
structure RequestUser where
  userId : JsValue
  username : JsValue
  tenantId : JsValue

/-- `v.key` -/
def member (v : Json) (key : JsString) : Except Thrown JsValue :=
  match v.get key with
  | .ok x => .ok x
  | .error _ => .error .typeError

/-- `JwtStrategy.validate` -/
def validate (payload : Json) : Except Thrown RequestUser := do
  let tenantId ← member payload (js "tenantId")
  if !Json.truthy tenantId then .error (.unauthorized (js "Token is missing a tenant claim"))
  else do
    let sub ← member payload (js "sub")
    let username ← member payload (js "username")
    return ⟨sub, username, tenantId⟩

/-- A login token passes with its own claims, where it names a tenant. -/
theorem validate_payload {tok : Token} (h : tok.tenantId ≠ []) :
    validate tok.payload = .ok ⟨some (.str tok.sub), some (.str tok.username), some (.str tok.tenantId)⟩ := by
  have ht : Json.truthy (some (.str tok.tenantId)) = true := by simpa [Json.truthy] using h
  have h1 : member tok.payload (js "tenantId") = .ok (some (.str tok.tenantId)) := rfl
  have h2 : member tok.payload (js "sub") = .ok (some (.str tok.sub)) := rfl
  have h3 : member tok.payload (js "username") = .ok (some (.str tok.username)) := rfl
  rw [validate, h1, h2, h3]
  exact if_neg (by rw [ht]; decide)

/-- `s !== v` of a string and a claim. -/
def differs (s : JsString) : JsValue → Bool
  | some (.str s') => s != s'
  | _ => true

/-- What `validate` lets pass has a truthy tenant claim, which it passes on. -/
theorem validate_ok {payload : Json} {user : RequestUser} (h : validate payload = .ok user) :
    payload.get (js "tenantId") = .ok user.tenantId ∧ Json.truthy user.tenantId = true := by
  unfold validate at h
  cases ht : payload.get (js "tenantId") with
  | error e => simp [member, ht, bind, Except.bind] at h
  | ok tenantId =>
    have hm : member payload (js "tenantId") = .ok tenantId := by simp [member, ht]
    rw [hm] at h
    change (if _ then _ else _) = _ at h
    split_ifs at h with hf
    cases hs : member payload (js "sub") with
    | error e => rw [hs] at h; cases h
    | ok sub =>
      rw [hs] at h
      cases hu : member payload (js "username") with
      | error e => rw [hu] at h; cases h
      | ok username =>
        rw [hu] at h
        cases h
        exact ⟨rfl, by simpa using hf⟩

end SystemDesign.Accounts
