/-
  `TasksService.create`: the write path, on top of the event path.

  `create` saves the task and then awaits the race of the publish against a timer of two seconds.
  A state adds to that of the event path the table `tasks`, the calls of `create` and a clock.
  Time does not pass a timer that is due: where a call still races at its deadline, the clock
  waits for it.

  `Stage` lists where a call can stand, and `Step` what a step can do.
-/
import SystemDesign.Lib.Async
import SystemDesign.Queue.System

namespace SystemDesign.Tasks

open Lib

structure Task where
  id : Uuid
  title : JsString
  completed : Bool
  createdAt : Moment
deriving DecidableEq

/-! ## The program -/

/-- What `create` awaits, and the publish it starts. -/
inductive TOp where
  | save (title : JsString)
  /-- `channelWrapper.publish` with a new event of the task; the answer is its number. -/
  | publish (taskId : Uuid)
  /-- `Promise.race([publish, timeout])` -/
  | race (pub : ℕ)

abbrev TOp.Ans : TOp → Type
  | .save _ => Task
  | .publish _ => ℕ
  | .race _ => Unit

/-- Code of the write path; its errors have a message. -/
abbrev Creating (ρ : Type) := Async TOp TOp.Ans JsString ρ

def perform (o : TOp) : Creating o.Ans := Async.call o

/-- The timer of a publish, in milliseconds. -/
def publishTimeout : ℕ := 2000

def publishTaskCreated (taskId : Uuid) : Creating Unit := do
  let publish ← perform (.publish taskId)
  perform (.race publish)

def create (title : JsString) : Creating Task := do
  let saved ← perform (.save title)
  -- a failed publish is logged, not thrown
  Async.tryCatch (publishTaskCreated saved.id) (fun _ => .ret ())
  return saved

/-- Where a call of `create` stands. -/
inductive Stage where
  | saving
  | publishing (saved : Task)
  | racing (saved : Task) (pub : ℕ)
  | returned (saved : Task)
  | threw (err : JsString)

/-- What is left of the call. -/
def Stage.code (title : JsString) : Stage → Creating Task
  | saving => create title
  | publishing saved => Async.tryCatch (publishTaskCreated saved.id) (fun _ => .ret ()) >>= fun _ =>
    .ret saved
  | racing saved pub => Async.tryCatch (perform (.race pub)) (fun _ => .ret ()) >>= fun _ => .ret saved
  | returned saved => .ret saved
  | threw err => .throw err

theorem saving_code (title : JsString) :
    Stage.saving.code title = .await (.save title) fun a => match a with
      | .ok saved => (Stage.publishing saved).code title
      | .error err => (Stage.threw err).code title :=
  congrArg (Async.await (TOp.save title)) (funext fun a => by cases a <;> rfl)

theorem publishing_code (title : JsString) (saved : Task) :
    (Stage.publishing saved).code title = .await (.publish saved.id) fun a => match a with
      | .ok pub => (Stage.racing saved pub).code title
      | .error _ => (Stage.returned saved).code title :=
  congrArg (Async.await (TOp.publish saved.id)) (funext fun a => by cases a <;> rfl)

theorem racing_code (title : JsString) (saved : Task) (pub : ℕ) :
    (Stage.racing saved pub).code title = .await (.race pub) fun _ => (Stage.returned saved).code title :=
  congrArg (Async.await (TOp.race pub)) (funext fun a => by cases a <;> rfl)

/-! ## The system -/

/-- A call of `create`: how its save was answered, and the number of its publish with the time it
    began. -/
structure Call where
  inst : ℕ
  title : JsString
  answer : Option (Except JsString Task)
  race : Option (ℕ × ℕ)
  prog : Creating Task

structure State where
  queue : Queue.State
  /-- The rows, as the entities that were saved: Postgres has the text of their titles (`Site.load`). -/
  tasks : List Task
  calls : List Call
  now : ℕ

def init : State := ⟨Queue.init [], [], [], 0⟩

inductive Action where
  /-- A request reaches `create`. -/
  | post (inst : ℕ) (title : JsString)
  /-- The INSERT of the call commits. -/
  | commit (call : ℕ) (id : Uuid) (createdAt : Moment)
  | rejectSave (call : ℕ) (err : JsString)
  /-- The call starts its publish. -/
  | publish (call : ℕ) (eventId : Uuid) (timestamp : Moment)
  | confirmed (call : ℕ)
  | failed (call : ℕ) (err : JsString)
  | timeout (call : ℕ)
  | tick (ms : ℕ)
  /-- `onModuleDestroy` closes the channel wrapper; requests are still accepted. -/
  | shutdown (inst : ℕ)
  | crash (inst : ℕ)
  /-- A step of the event path. -/
  | queue (a : Queue.Action)

variable (s : State)

def State.live (inst : ℕ) : Bool := !s.queue.crashed.contains inst

/-- The status of a publish. -/
def State.status (pub : ℕ) : Option PublishStatus := (s.queue.pubs[pub]?).map (·.status)

/-- The race of the call `i` ends as `a`, provided `ok` holds of its publish and its begin. -/
def State.settleRace (i : ℕ) (a : Except JsString Unit) (ok : ℕ → ℕ → Bool) : Option State :=
  s.calls[i]?.bind fun call =>
    match call.prog, call.race with
    | .await (.race pub) k, some (_, began) =>
      if s.live call.inst = true ∧ ok pub began = true then
        some { s with calls := s.calls.set i { call with prog := k a } }
      else none
    | _, _ => none

/-- The call does not race, or is not past its deadline at the time `t`. -/
def State.inTime (t : ℕ) (call : Call) : Bool :=
  match call.prog, call.race with
  | .await (.race _) _, some (_, began) => !s.live call.inst || t ≤ began + publishTimeout
  | _, _ => true

/-- **One atomic step**; `none` where the action is not possible. -/
def step : Action → Option State
  | .post inst title =>
    if s.live inst then some { s with calls := s.calls ++ [⟨inst, title, none, none, create title⟩] }
    else none
  | .commit i id createdAt => s.calls[i]?.bind fun call =>
    match call.prog with
    | .await (.save title) k =>
      if id ∈ s.tasks.map (·.id) then none
      else some { s with
        tasks := ⟨id, title, false, createdAt⟩ :: s.tasks
        calls := s.calls.set i { call with
          answer := some (.ok ⟨id, title, false, createdAt⟩)
          prog := k (.ok ⟨id, title, false, createdAt⟩) } }
    | _ => none
  | .rejectSave i err => s.calls[i]?.bind fun call =>
    match call.prog with
    | .await (.save _) k =>
      some { s with calls := s.calls.set i { call with
        answer := some (.error err)
        prog := k (.error err) } }
    | _ => none
  | .publish i eventId timestamp => s.calls[i]?.bind fun call =>
    match call.prog with
    | .await (.publish taskId) k =>
      -- `randomUUID` does not repeat
      if s.live call.inst = true ∧ eventId ∉ s.queue.pubs.map (·.event.eventId) then
        (Queue.step s.queue (.publish call.inst ⟨eventId, taskId, timestamp⟩)).map fun q =>
          { s with
            queue := q
            calls := s.calls.set i { call with
              race := some (s.queue.pubs.length, s.now)
              prog := k (.ok s.queue.pubs.length) } }
      else none
    | _ => none
  | .confirmed i => s.settleRace i (.ok ()) fun pub _ => s.status pub == some .confirmed
  | .failed i err => s.settleRace i (.error err) fun pub _ => s.status pub == some .rejected
  | .timeout i => s.settleRace i (.error (js "RabbitMQ publish timed out")) fun _ began =>
    began + publishTimeout ≤ s.now
  | .tick ms => if s.calls.all (s.inTime (s.now + ms)) then some { s with now := s.now + ms } else none
  | .shutdown inst => (Queue.step s.queue (.close inst)).map fun q => { s with queue := q }
  | .crash inst => (Queue.step s.queue (.crash inst)).map fun q => { s with queue := q }
  | .queue a =>
    if a.isInternal then (Queue.step s.queue a).map fun q => { s with queue := q } else none

abbrev run : State → List Action → Option State := exec step

/-! ## What a step can do -/

/-- The action ends the race of the call `i`, whose publish is `pub`, as `x`. -/
def Settles (i pub began : ℕ) (x : Except JsString Unit) : Action → Prop
  | .confirmed i' => i' = i ∧ s.status pub = some .confirmed ∧ x = .ok ()
  | .failed i' err => i' = i ∧ s.status pub = some .rejected ∧ x = .error err
  | .timeout i' =>
    i' = i ∧ began + publishTimeout ≤ s.now ∧ x = .error (js "RabbitMQ publish timed out")
  | _ => False

/-- The steps, one constructor for each kind. -/
inductive Step (s : State) : Action → State → Prop
  | post {inst title} (hl : s.live inst = true) :
    Step s (.post inst title) { s with calls := s.calls ++ [⟨inst, title, none, none, create title⟩] }
  | commit {i call title k id createdAt} (hi : s.calls[i]? = some call)
    (hp : call.prog = .await (.save title) k) (hid : id ∉ s.tasks.map (·.id)) :
    Step s (.commit i id createdAt) { s with
      tasks := ⟨id, title, false, createdAt⟩ :: s.tasks
      calls := s.calls.set i { call with
        answer := some (.ok ⟨id, title, false, createdAt⟩)
        prog := k (.ok ⟨id, title, false, createdAt⟩) } }
  | rejectSave {i call title k err} (hi : s.calls[i]? = some call)
    (hp : call.prog = .await (.save title) k) :
    Step s (.rejectSave i err) { s with calls := s.calls.set i { call with
      answer := some (.error err)
      prog := k (.error err) } }
  | publish {i call taskId k eventId timestamp q} (hi : s.calls[i]? = some call)
    (hp : call.prog = .await (.publish taskId) k) (hl : s.live call.inst = true)
    (hf : eventId ∉ s.queue.pubs.map (·.event.eventId))
    (hq : Queue.step s.queue (.publish call.inst ⟨eventId, taskId, timestamp⟩) = some q) :
    Step s (.publish i eventId timestamp) { s with
      queue := q
      calls := s.calls.set i { call with
        race := some (s.queue.pubs.length, s.now)
        prog := k (.ok s.queue.pubs.length) } }
  | settle {a i call pub k n began x} (hi : s.calls[i]? = some call)
    (hp : call.prog = .await (.race pub) k) (hr : call.race = some (n, began))
    (hl : s.live call.inst = true) (ha : Settles s i pub began x a) :
    Step s a { s with calls := s.calls.set i { call with prog := k x } }
  | tick {ms} (ht : ∀ call ∈ s.calls, s.inTime (s.now + ms) call = true) :
    Step s (.tick ms) { s with now := s.now + ms }
  | shutdown {inst q} (hq : Queue.step s.queue (.close inst) = some q) :
    Step s (.shutdown inst) { s with queue := q }
  | crash {inst q} (hq : Queue.step s.queue (.crash inst) = some q) :
    Step s (.crash inst) { s with queue := q }
  | queue {a q} (hin : a.isInternal = true) (hq : Queue.step s.queue a = some q) :
    Step s (.queue a) { s with queue := q }

variable {s}

theorem settleRace_some {i : ℕ} {x : Except JsString Unit} {ok : ℕ → ℕ → Bool} {s' : State}
    (h : s.settleRace i x ok = some s') :
    ∃ call pub k n began, s.calls[i]? = some call ∧ call.prog = .await (.race pub) k ∧
      call.race = some (n, began) ∧ s.live call.inst = true ∧ ok pub began = true ∧
      s' = { s with calls := s.calls.set i { call with prog := k x } } := by
  obtain ⟨call, hi, h⟩ := Option.bind_eq_some_iff.1 h
  split at h
  · next pub k n began hp hr =>
    split_ifs at h with hc
    cases h
    exact ⟨call, pub, k, n, began, hi, hp, hr, hc.1, hc.2, rfl⟩
  · cases h

theorem step_cases {a : Action} {s' : State} (h : step s a = some s') : Step s a s' := by
  cases a with
  | post inst title =>
    simp only [step] at h
    split_ifs at h with hl
    cases h; exact .post hl
  | commit i id createdAt =>
    obtain ⟨call, hi, h⟩ := Option.bind_eq_some_iff.1 h
    split at h
    · next title k hp =>
      split_ifs at h with hid
      cases h; exact .commit hi hp hid
    · cases h
  | rejectSave i err =>
    obtain ⟨call, hi, h⟩ := Option.bind_eq_some_iff.1 h
    split at h
    · next title k hp => cases h; exact .rejectSave hi hp
    · cases h
  | publish i eventId timestamp =>
    obtain ⟨call, hi, h⟩ := Option.bind_eq_some_iff.1 h
    split at h
    · next taskId k hp =>
      split_ifs at h with hc
      obtain ⟨q, hq, rfl⟩ := Option.map_eq_some_iff.1 h
      exact .publish hi hp hc.1 hc.2 hq
    · cases h
  | confirmed i =>
    obtain ⟨call, pub, k, n, began, hi, hp, hr, hl, hok, rfl⟩ := settleRace_some h
    exact .settle hi hp hr hl ⟨rfl, by simpa using hok, rfl⟩
  | failed i err =>
    obtain ⟨call, pub, k, n, began, hi, hp, hr, hl, hok, rfl⟩ := settleRace_some h
    exact .settle hi hp hr hl ⟨rfl, by simpa using hok, rfl⟩
  | timeout i =>
    obtain ⟨call, pub, k, n, began, hi, hp, hr, hl, hok, rfl⟩ := settleRace_some h
    exact .settle hi hp hr hl ⟨rfl, by simpa using hok, rfl⟩
  | tick ms =>
    simp only [step] at h
    split_ifs at h with ht
    cases h; exact .tick (List.all_eq_true.1 ht)
  | shutdown inst =>
    simp only [step, Option.map_eq_some_iff] at h
    obtain ⟨q, hq, rfl⟩ := h
    exact .shutdown hq
  | crash inst =>
    simp only [step, Option.map_eq_some_iff] at h
    obtain ⟨q, hq, rfl⟩ := h
    exact .crash hq
  | queue a =>
    simp only [step] at h
    split_ifs at h with hin
    obtain ⟨q, hq, rfl⟩ := Option.map_eq_some_iff.1 h
    exact .queue hin hq

end SystemDesign.Tasks
