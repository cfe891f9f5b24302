/-
  The server actions of the frontend.

  An action is a program of one request.  It reads the session cookie that came with the request,
  calls the API, and sets or deletes the cookie in the response; `Op.step` is what its operations do
  to this `Exchange`.  The replies of the API are choices.
-/
import SystemDesign.Lib.Async
import SystemDesign.Lib.Text

namespace SystemDesign.Client

open Lib

/-! ## Operations -/

structure Task where
  id : JsString
  title : JsString
  completed : Bool
  createdAt : JsString
deriving DecidableEq

/-- The reply to a fetch; `none` is a body that cannot be read as expected. -/
structure Reply (α : Type) where
  status : ℕ
  body : Option α

/-- `res.ok` -/
def Reply.ok {α : Type} (res : Reply α) : Bool := 200 ≤ res.status && res.status < 300

/-- What an action throws. -/
inductive Thrown where
  /-- A fetch fails, or a reply cannot be read. -/
  | failed
  | error (message : JsString)
  | invalidCredentials
  | unauthorized
  /-- The input does not fit its schema. -/
  | zod
  | redirect (path : JsString)
deriving DecidableEq

/-- What the actions await. -/
inductive Op where
  | getCookie
  | setCookie (token : JsString)
  | deleteCookie
  /-- `POST /auth/login` -/
  | fetchLogin (username password : JsString)
  /-- `POST /tasks` with a bearer token. -/
  | fetchTask (title token : JsString)
  | revalidatePath (path : JsString)

abbrev Op.Ans : Op → Type
  | .getCookie => Option JsString
  | .fetchLogin _ _ => Reply JsString
  | .fetchTask _ _ => Reply Task
  | _ => Unit

abbrev Action (ρ : Type) := Async Op Op.Ans Thrown ρ

def perform (o : Op) : Action o.Ans := Async.call o

inductive SetCookie where
  | set (token : JsString)
  | delete
deriving DecidableEq

/-- One request and its response. -/
structure Exchange where
  /-- The session cookie of the request. -/
  cookie : Option JsString
  /-- What the response does to it. -/
  setCookie : Option SetCookie
  /-- The tokens to which the API replied 401. -/
  rejected : List JsString

/-- The reply of the API, if the fetch does not fail. -/
structure Choice where
  failed : Bool
  status : ℕ
  /-- The `accessToken` of the body: `none` for a body that cannot be read, as the API sends none without it. -/
  token : Option JsString
  task : Option Task

def Op.step : (o : Op) → Choice → Exchange → Option (Except Thrown o.Ans × Exchange)
  | .getCookie, _, e => some (.ok e.cookie, e)
  | .setCookie token, _, e => some (.ok (), { e with setCookie := some (.set token) })
  | .deleteCookie, _, e => some (.ok (), { e with setCookie := some .delete })
  | .fetchLogin _ _, c, e =>
    if c.failed then some (.error .failed, e) else some (.ok ⟨c.status, c.token⟩, e)
  | .fetchTask _ token, c, e =>
    if c.failed then some (.error .failed, e)
    else some (.ok ⟨c.status, c.task⟩,
      if c.status = 401 then { e with rejected := token :: e.rejected } else e)
  | .revalidatePath _, _, e => some (.ok (), e)

/-! ## The session -/

def setSessionCookie (token : JsString) : Action Unit := perform (.setCookie token)

def clearSessionCookie : Action Unit := perform .deleteCookie

def getSessionToken : Action (Option JsString) := perform .getCookie

/-! ## Login and logout -/

/-- A message of a schema; zod has its own for a field that is no string. -/
inductive Message where
  | text (s : JsString)
  | notString

/-- `loginInputSchema.safeParse`, with the message of the first issue; a field that is no string is
    `none`. -/
def safeParse (username password : Option JsString) : Except Message (JsString × JsString) :=
  match username, password with
  | none, _ => .error .notString
  | some u, password =>
    if (trim u).isEmpty then .error (.text (js "Username is required"))
    else match password with
      | none => .error .notString
      | some p => if p.isEmpty then .error (.text (js "Password is required")) else .ok (trim u, p)

/-- The token of a reply. -/
def readToken (res : Reply JsString) : Action JsString :=
  if res.status = 401 then .throw .invalidCredentials
  else if !res.ok then .throw (.error (js ("Login failed with status " ++ toString res.status)))
  else match res.body with
    | some accessToken => return accessToken
    | none => .throw .failed

def loginRequest (username password : JsString) : Action JsString := do
  let res ← perform (.fetchLogin username password)
  readToken res

structure LoginState where
  error : Option Message

/-- The `try` around `loginRequest`: the token, or the message to show. -/
def tryLogin (username password : JsString) : Action (Except JsString JsString) :=
  Async.tryCatch
    (do
      let accessToken ← loginRequest username password
      return Except.ok accessToken)
    fun err => match err with
      | .invalidCredentials => return Except.error (js "Invalid username or password.")
      | _ => return Except.error (js "Login failed. Try again.")

def loginAction (username password : Option JsString) : Action LoginState :=
  match safeParse username password with
  | .error message => return ⟨some message⟩
  | .ok (username, password) => do
    let accessToken ← tryLogin username password
    match accessToken with
    | .error message => return ⟨some (.text message)⟩
    | .ok accessToken => do
      setSessionCookie accessToken
      .throw (.redirect (js "/tasks"))

def logoutAction : Action Unit := do
  clearSessionCookie
  .throw (.redirect (js "/login"))

/-! ## Creating a task -/

/-- `createTaskInputSchema.parse`; `none` is an input without a title that is a string. -/
def parseTitle (title : Option JsString) : Option JsString :=
  title.bind fun t => if (trim t).isEmpty then none else some (trim t)

/-- The task of a reply. -/
def readTask (res : Reply Task) : Action Task :=
  if res.status = 401 then .throw .unauthorized
  else if !res.ok then .throw (.error (js ("Failed to create task: " ++ toString res.status)))
  else match res.body with
    | some task => return task
    | none => .throw .failed

def postTask (title token : JsString) : Action Task := do
  let res ← perform (.fetchTask title token)
  readTask res

/-- `createTaskAction` with a session token. -/
def createTask (title : Option JsString) (token : JsString) : Action Task :=
  match parseTitle title with
  | none => .throw .zod
  | some title =>
    Async.tryCatch
      (do
        let task ← postTask title token
        perform (.revalidatePath (js "/tasks"))
        return task)
      fun err => match err with
        | .unauthorized => do
          clearSessionCookie
          .throw (.redirect (js "/login"))
        | err => .throw err

def createTaskAction (title : Option JsString) : Action Task := do
  let token ← getSessionToken
  match token with
  | none => .throw (.redirect (js "/login"))
  | some token => if token.isEmpty then .throw (.redirect (js "/login")) else createTask title token

end SystemDesign.Client
