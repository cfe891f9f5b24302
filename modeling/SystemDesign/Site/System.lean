/-
  The site: accounts, tasks and the read replica together.

  `POST /tasks` passes with a token that login returned and that has not expired; it begins a call of
  `TasksService.create`, whose INSERT goes to the primary.  The replica replays the INSERTs in order,
  and `GET /tasks` answers from it.  A state also keeps with which token each call was posted and what
  `fetchTasks` returned so far.

  `Step` lists the steps, and `Grown` says what stays of the write path.
-/
import SystemDesign.Accounts.SignIn
import SystemDesign.Site.Wire
import SystemDesign.Tasks.Agreement

namespace SystemDesign.Site

open Lib

/-- A request that begins a call of `create`: its token, and when it came. -/
structure Post where
  token : Accounts.Token
  time : ℕ

structure State where
  accounts : Accounts.State
  tasks : Tasks.State
  /-- The request of each call of `create`. -/
  posts : List Post
  /-- How many INSERTs the replica has replayed. -/
  replayed : ℕ
  /-- What `fetchTasks` returned, latest first. -/
  pages : List (List Client.Task)

/-- The migrated database, without tasks. -/
def init (id : Uuid) : State := ⟨Accounts.init id, Tasks.init, [], 0, []⟩

inductive Action where
  | accounts (a : Accounts.Action)
  /-- `POST /tasks` at an instance. -/
  | post (inst : ℕ) (tok : Accounts.Token) (body : Bytes)
  | tasks (a : Tasks.Action)
  /-- The replica has replayed so many INSERTs. -/
  | replay (n : ℕ)
  /-- `GET /tasks`, with the rows in the order of the query. -/
  | list (rows : List Task)

variable (bcrypt : Accounts.Bcrypt) (s : State)

/-- The rows that the primary has inserted, in order. -/
def State.inserted : List Task := s.tasks.tasks.reverse

/-- The rows of the replica. -/
def State.replica : List Task := s.inserted.take s.replayed

/-- `JwtAuthGuard` -/
def State.authenticates (tok : Accounts.Token) : Bool :=
  s.accounts.admits (.request tok none none) &&
    match Accounts.validate tok.payload with
    | .ok _ => true
    | .error _ => false

/-- The action is no request, and Postgres takes the title it inserts. -/
def State.allows : Tasks.Action → Bool
  | .post _ _ => false
  | .commit i _ _ => s.tasks.calls[i]?.all fun call => (Text.ofJs call.title).isSome
  | _ => true

/-- **One step**; `none` where the action is not possible, or the request is rejected. -/
def step : Action → Option State
  | .accounts a => (Accounts.step bcrypt s.accounts a).map fun accounts => { s with accounts := accounts }
  | .post inst tok body =>
    if s.authenticates tok then
      ((Json.parse (ofUtf8 body)).bind CreateTaskDto.ofBody).bind fun dto =>
        (Tasks.step s.tasks (.post inst dto.title)).map fun tasks =>
          { s with tasks := tasks, posts := s.posts ++ [⟨tok, s.accounts.now⟩] }
    else none
  | .tasks a =>
    if s.allows a then (Tasks.step s.tasks a).map fun tasks => { s with tasks := tasks } else none
  | .replay n => if n ≤ s.inserted.length then some { s with replayed := n } else none
  | .list rows =>
    if rows.Perm s.replica then
      match fetchTasks ⟨200, some (findAllBody rows)⟩ with
      | .ok page => some { s with pages := page :: s.pages }
      | .error _ => some s
    else none

abbrev run : State → List Action → Option State := exec (step bcrypt)

/-- The steps, one constructor for each kind. -/
inductive Step (s : State) : Action → State → Prop
  | accounts {a accounts} (h : Accounts.step bcrypt s.accounts a = some accounts) :
    Step s (.accounts a) { s with accounts := accounts }
  | post {inst tok body dto tasks} (ha : s.authenticates tok = true)
    (hb : (Json.parse (ofUtf8 body)).bind CreateTaskDto.ofBody = some dto)
    (h : Tasks.step s.tasks (.post inst dto.title) = some tasks) :
    Step s (.post inst tok body) { s with tasks := tasks, posts := s.posts ++ [⟨tok, s.accounts.now⟩] }
  | tasks {a tasks} (ha : s.allows a = true) (h : Tasks.step s.tasks a = some tasks) :
    Step s (.tasks a) { s with tasks := tasks }
  | replay {n} (hn : n ≤ s.inserted.length) : Step s (.replay n) { s with replayed := n }
  | list {rows} (h : rows.Perm s.replica) :
    Step s (.list rows) { s with pages := (rows.map fun t => shown (load t)) :: s.pages }

variable {bcrypt} {s}

theorem step_cases {a : Action} {s' : State} (h : step bcrypt s a = some s') : Step bcrypt s a s' := by
  cases a with
  | accounts a =>
    obtain ⟨accounts, ha, rfl⟩ := Option.map_eq_some_iff.1 h
    exact .accounts ha
  | post inst tok body =>
    simp only [step] at h
    split_ifs at h with ha
    obtain ⟨dto, hb, h⟩ := Option.bind_eq_some_iff.1 h
    obtain ⟨tasks, ht, rfl⟩ := Option.map_eq_some_iff.1 h
    exact .post ha hb ht
  | tasks a =>
    simp only [step] at h
    split_ifs at h with ha
    obtain ⟨tasks, ht, rfl⟩ := Option.map_eq_some_iff.1 h
    exact .tasks ha ht
  | replay n =>
    simp only [step] at h
    split_ifs at h with hn
    cases h
    exact .replay hn
  | list rows =>
    simp only [step, fetchTasks_findAll] at h
    split_ifs at h with hp
    cases h
    exact .list hp

/-! ## The write path -/

/-- What a step of the write path does to the tasks and to the calls. -/
structure Grown (t t' : Tasks.State) (new : List JsString) : Prop where
  /-- What is added was saved by a call. -/
  tasks : ∃ added, t'.tasks = added ++ t.tasks ∧ ∀ x ∈ added, ∃ (i : ℕ) (call : Tasks.Call),
    t'.calls[i]? = some call ∧ call.answer = some (.ok x) ∧ x.title = call.title ∧ x.completed = false
  titles : t'.calls.map (·.title) = t.calls.map (·.title) ++ new
  /-- A call keeps its task. -/
  answers : ∀ (i : ℕ) (call : Tasks.Call) (x : Task), t.calls[i]? = some call → call.answer = some (.ok x) →
    ∃ call' : Tasks.Call, t'.calls[i]? = some call' ∧ call'.answer = some (.ok x) ∧ call'.title = call.title

/-- The titles of the calls that an action begins. -/
def newTitles : Tasks.Action → List JsString
  | .post _ title => [title]
  | _ => []

section
variable {t t' : Tasks.State}

theorem grown_of_calls (h : t'.calls = t.calls) (ht : t'.tasks = t.tasks) : Grown t t' [] where
  tasks := ⟨[], ht, List.forall_mem_nil _⟩
  titles := by rw [h, List.append_nil]
  answers i call x hi hx := ⟨call, h ▸ hi, hx, rfl⟩

/-- A call changes in something else than its title and its task. -/
theorem grown_of_set {i : ℕ} {call call' : Tasks.Call} (hi : t.calls[i]? = some call)
    (hc : t'.calls = t.calls.set i call') (ht : t'.tasks = t.tasks) (htitle : call'.title = call.title)
    (hans : ∀ x, call.answer = some (.ok x) → call'.answer = some (.ok x)) : Grown t t' [] where
  tasks := ⟨[], ht, List.forall_mem_nil _⟩
  titles := by rw [hc, map_set_eq hi htitle, List.append_nil]
  answers j c x hj hx := by
    by_cases he : j = i
    · subst he
      obtain rfl : c = call := Option.some.inj (hj.symm.trans hi)
      exact ⟨call', hc ▸ List.getElem?_set_self (List.getElem?_eq_some_iff.1 hi).1, hans x hx, htitle⟩
    · exact ⟨c, hc ▸ (List.getElem?_set_ne (Ne.symm he)).trans hj, hx, rfl⟩

/-- A call that awaits its save has no answer yet, and saves its title. -/
theorem save_title {call : Tasks.Call} {title : JsString}
    {k : Except JsString Task → Tasks.Creating Task} (h : Tasks.Placed t call)
    (hp : call.prog = .await (.save title) k) : call.answer = none ∧ title = call.title := by
  refine ⟨(h.of_save hp).1, ?_⟩
  obtain ⟨st, hcode, -⟩ := h
  rw [hp] at hcode
  cases st with
  | saving =>
    rw [Tasks.saving_code] at hcode
    cases hcode
    rfl
  | publishing saved => rw [Tasks.publishing_code] at hcode; cases hcode
  | racing saved pub => rw [Tasks.racing_code] at hcode; cases hcode
  | returned | threw => cases hcode

/-- **The write path only grows.** -/
theorem step_grown {a : Tasks.Action} (hinv : Tasks.Inv t) (h : Tasks.step t a = some t') :
    Grown t t' (newTitles a) := by
  cases Tasks.step_cases h with
  | @post inst title hl =>
    refine ⟨⟨[], rfl, List.forall_mem_nil _⟩, by simp [newTitles], fun i call x hi hx => ?_⟩
    exact ⟨call, getElem?_snoc hi, hx, rfl⟩
  | @commit i call title k id createdAt hi hp hid =>
    obtain ⟨hnone, rfl⟩ := save_title (hinv.calls call (List.mem_of_getElem? hi)) hp
    have hlt := (List.getElem?_eq_some_iff.1 hi).1
    refine ⟨⟨[⟨id, call.title, false, createdAt⟩], rfl, ?_⟩, ?_, fun j c x hj hx => ?_⟩
    · intro x hx
      rw [List.mem_singleton.1 hx]
      exact ⟨i, _, List.getElem?_set_self hlt, rfl, rfl, rfl⟩
    · have htitles : (t.calls.set i { call with
          answer := some (.ok ⟨id, call.title, false, createdAt⟩)
          prog := k (.ok ⟨id, call.title, false, createdAt⟩) }).map (·.title) = t.calls.map (·.title) :=
        map_set_eq hi rfl
      exact htitles.trans (List.append_nil _).symm
    · by_cases he : j = i
      · subst he
        obtain rfl : c = call := Option.some.inj (hj.symm.trans hi)
        rw [hnone] at hx
        cases hx
      · exact ⟨c, (List.getElem?_set_ne (Ne.symm he)).trans hj, hx, rfl⟩
  | @rejectSave i call title k err hi hp =>
    obtain ⟨hnone, -⟩ := save_title (hinv.calls call (List.mem_of_getElem? hi)) hp
    refine grown_of_set hi rfl rfl rfl fun x hx => ?_
    rw [hnone] at hx
    cases hx
  | publish hi => exact grown_of_set hi rfl rfl rfl fun _ hx => hx
  | @settle a i call pub k n began x hi hp hr hl ha =>
    have hnew : newTitles a = [] := by
      cases a with
      | post => exact ha.elim
      | _ => rfl
    rw [hnew]
    exact grown_of_set hi rfl rfl rfl fun _ hx => hx
  | tick | shutdown | crash | queue => exact grown_of_calls rfl rfl

end

end SystemDesign.Site
