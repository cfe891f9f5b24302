/-
  The event path: publishers, the queue, consumers and the table, step by step.

  A state has the broker's queue, `processed_events`, what the channel wrappers of
  `QueueService` hold, the open consumer channels and the calls of `handleMessage`.  `step` is one
  atomic step; which step is taken, and how an operation ends, is in the `Action`.  Any number of
  instances run; an instance that starts again is a new one.

  `Step` lists what `step` can do, and `step_cases` says that this is all.
-/
import SystemDesign.Lib.QuorumQueue
import SystemDesign.Lib.Run
import SystemDesign.Queue.Consumer

namespace SystemDesign.Queue

open Lib

/-- A call of `channelWrapper.publish`. -/
structure Publish where
  inst : ℕ
  event : Event
  status : PublishStatus
deriving DecidableEq

/-- A call of `handleMessage` for a delivery. -/
structure Handling where
  inst : ℕ
  chan : ℕ
  cid : ℕ
  content : Bytes
  prog : Handler Unit

structure State where
  broker : QQueue Bytes
  rows : List ProcessedEvent
  pubs : List Publish
  /-- The instances whose channel wrapper is closed. -/
  closed : List ℕ
  crashed : List ℕ
  /-- The open consumer channels, with their instances. -/
  chans : List (ℕ × ℕ)
  nextChan : ℕ
  calls : List Handling
  /-- The payloads for which the side-effect block was entered, latest first. -/
  effects : List Json

/-- Nothing published or delivered yet; the table may have rows. -/
def init (rows : List ProcessedEvent) : State := ⟨.empty, rows, [], [], [], [], 0, [], []⟩

inductive Action where
  /-- `publishTaskCreated` hands its message to the wrapper. -/
  | publish (inst : ℕ) (e : Event)
  | send (p : ℕ)
  /-- The connection is lost before the confirm: the wrapper will send the message again. -/
  | unsend (p : ℕ)
  | confirm (p : ℕ)
  | reject (p : ℕ)
  /-- `channelWrapper.close()` -/
  | close (inst : ℕ)
  /-- Someone else puts a message into the queue. -/
  | inject (content : Bytes)
  | openChannel (inst : ℕ)
  | deliver (chan cid : ℕ)
  /-- The awaited operation of a call takes place. -/
  | run (call : ℕ) (c : Outcome)
  | loseChannel (chan : ℕ)
  | crash (inst : ℕ)
deriving DecidableEq

/-- The action is one of the broker, the network or a consumer. -/
def Action.isInternal : Action → Bool
  | .publish _ _ | .inject _ | .close _ | .crash _ => false
  | _ => true

/-- What closing the wrapper does to a publish: it is rejected where it was not confirmed. -/
def Publish.close (inst : ℕ) (p : Publish) : Publish :=
  if p.inst = inst ∧ (p.status = .waiting ∨ p.status = .sent) then { p with status := .rejected } else p

/-- What an operation of a call does to the queue. -/
def settle (chan cid : ℕ) : HOp → QQueue Bytes → QQueue Bytes
  | .ack, q => q.ack chan cid
  | .nack requeue, q => q.nack MAX_DELIVERY_ATTEMPTS chan cid requeue
  | _, q => q

/-- What an operation of a call adds to the effects. -/
def entered : HOp → List Json
  | .sideEffect payload => [payload]
  | _ => []

def settles : HOp → Bool
  | .ack | .nack _ => true
  | _ => false

variable (s : State)

/-- The wrapper of the instance can send. -/
def State.canSend (inst : ℕ) : Bool := !s.closed.contains inst && !s.crashed.contains inst

/-- The publish `p` has one of the given statuses, and gets another one. -/
def State.move (p : ℕ) (src : List PublishStatus) (dst : PublishStatus) : Option (Publish × State) :=
  s.pubs[p]?.bind fun pub =>
    if pub.status ∈ src then some (pub, { s with pubs := s.pubs.set p { pub with status := dst } })
    else none

/-- The operation `o` of the call number `i` is answered. -/
def State.perform (i : ℕ) (call : Handling) (o : HOp) (k : Except Unit o.Ans → Handler Unit)
    (c : Outcome) : State :=
  { s with
    broker := settle call.chan call.cid o s.broker
    rows := (o.answer c s.rows).2
    calls := s.calls.set i { call with prog := k (o.answer c s.rows).1 }
    effects := entered o ++ s.effects }

/-- **One atomic step**; `none` where the action is not possible. -/
def step : Action → Option State
  | .publish inst e =>
    if inst ∈ s.crashed then none else some { s with pubs := s.pubs ++ [⟨inst, e, .waiting⟩] }
  | .send p => (s.move p [.waiting] .sent).bind fun x =>
    if s.canSend x.1.inst then some { x.2 with broker := s.broker.enqueue x.1.event.content } else none
  | .unsend p => (s.move p [.sent] .waiting).bind fun x =>
    if s.canSend x.1.inst then some x.2 else none
  | .confirm p => (s.move p [.sent] .confirmed).map (·.2)
  | .reject p => (s.move p [.waiting, .sent] .rejected).map (·.2)
  | .close inst =>
    some { s with closed := inst :: s.closed, pubs := s.pubs.map (Publish.close inst) }
  | .inject content => some { s with broker := s.broker.enqueue content }
  | .openChannel inst =>
    if inst ∈ s.crashed then none
    else some { s with chans := (s.nextChan, inst) :: s.chans, nextChan := s.nextChan + 1 }
  | .deliver chan cid => (s.chans.find? (·.1 == chan)).bind fun ch =>
    (s.broker.deliver chan cid).map fun x =>
      -- a channel may outlive its instance for a while; no call is made then
      if ch.2 ∈ s.crashed then { s with broker := x.2 }
      else { s with broker := x.2,
                    calls := s.calls ++ [⟨ch.2, chan, cid, x.1.msg, handleMessage (some x.1.msg)⟩] }
  | .run i c => s.calls[i]?.bind fun call =>
    match call.prog with
    | .await o k =>
      -- settling a delivery throws only where the channel is closed
      if call.inst ∈ s.crashed ∨
        (settles o = true ∧ c ≠ .ok ∧ (s.chans.any (·.1 == call.chan)) = true) then none
      else some (s.perform i call o k c)
    | _ => none
  | .loseChannel chan =>
    some { s with
      chans := s.chans.filter (·.1 != chan)
      broker := s.broker.dropChannels MAX_DELIVERY_ATTEMPTS (· == chan) }
  | .crash inst => some { s with crashed := inst :: s.crashed }

abbrev run : State → List Action → Option State := exec step

/-! ## What a step can do -/

/-- The steps, one constructor for each way an action can go. -/
inductive Step (s : State) : Action → State → Prop
  | publish {inst e} (h : inst ∉ s.crashed) :
    Step s (.publish inst e) { s with pubs := s.pubs ++ [⟨inst, e, .waiting⟩] }
  | send {p pub} (hp : s.pubs[p]? = some pub) (hw : pub.status = .waiting)
    (hc : s.canSend pub.inst = true) :
    Step s (.send p) { s with
      broker := s.broker.enqueue pub.event.content
      pubs := s.pubs.set p { pub with status := .sent } }
  | unsend {p pub} (hp : s.pubs[p]? = some pub) (hw : pub.status = .sent)
    (hc : s.canSend pub.inst = true) :
    Step s (.unsend p) { s with pubs := s.pubs.set p { pub with status := .waiting } }
  | confirm {p pub} (hp : s.pubs[p]? = some pub) (hw : pub.status = .sent) :
    Step s (.confirm p) { s with pubs := s.pubs.set p { pub with status := .confirmed } }
  | reject {p pub} (hp : s.pubs[p]? = some pub) (hw : pub.status = .waiting ∨ pub.status = .sent) :
    Step s (.reject p) { s with pubs := s.pubs.set p { pub with status := .rejected } }
  | close {inst} :
    Step s (.close inst) { s with closed := inst :: s.closed, pubs := s.pubs.map (Publish.close inst) }
  | inject {content} : Step s (.inject content) { s with broker := s.broker.enqueue content }
  | openChannel {inst} (h : inst ∉ s.crashed) :
    Step s (.openChannel inst)
      { s with chans := (s.nextChan, inst) :: s.chans, nextChan := s.nextChan + 1 }
  | deliverDead {chan cid inst c b} (hch : (chan, inst) ∈ s.chans) (hi : inst ∈ s.crashed)
    (hd : s.broker.deliver chan cid = some (c, b)) : Step s (.deliver chan cid) { s with broker := b }
  | deliver {chan cid inst c b} (hch : (chan, inst) ∈ s.chans) (hi : inst ∉ s.crashed)
    (hd : s.broker.deliver chan cid = some (c, b)) :
    Step s (.deliver chan cid) { s with
      broker := b
      calls := s.calls ++ [⟨inst, chan, cid, c.msg, handleMessage (some c.msg)⟩] }
  | run {i call o k c} (hi : s.calls[i]? = some call) (hp : call.prog = .await o k)
    (hl : call.inst ∉ s.crashed)
    (hs : settles o = true → c ≠ .ok → ∀ x ∈ s.chans, x.1 ≠ call.chan) :
    Step s (.run i c) (s.perform i call o k c)
  | loseChannel {chan} :
    Step s (.loseChannel chan) { s with
      chans := s.chans.filter (·.1 != chan)
      broker := s.broker.dropChannels MAX_DELIVERY_ATTEMPTS (· == chan) }
  | crash {inst} : Step s (.crash inst) { s with crashed := inst :: s.crashed }

variable {s}

theorem move_some {p : ℕ} {src : List PublishStatus} {dst : PublishStatus} {x : Publish × State}
    (h : s.move p src dst = some x) :
    s.pubs[p]? = some x.1 ∧ x.1.status ∈ src ∧
      x.2 = { s with pubs := s.pubs.set p { x.1 with status := dst } } := by
  obtain ⟨pub, hp, h⟩ := Option.bind_eq_some_iff.1 h
  split_ifs at h with hs
  cases h
  exact ⟨hp, hs, rfl⟩

theorem step_cases {a : Action} {s' : State} (h : step s a = some s') : Step s a s' := by
  cases a with
  | publish inst e =>
    simp only [step] at h
    split_ifs at h with hc
    cases h; exact .publish hc
  | send p =>
    obtain ⟨x, hx, h⟩ := Option.bind_eq_some_iff.1 h
    obtain ⟨hp, hs, he⟩ := move_some hx
    split_ifs at h with hc
    cases h; rw [he]
    exact .send hp (by simpa using hs) hc
  | unsend p =>
    obtain ⟨x, hx, h⟩ := Option.bind_eq_some_iff.1 h
    obtain ⟨hp, hs, he⟩ := move_some hx
    split_ifs at h with hc
    cases h; rw [he]
    exact .unsend hp (by simpa using hs) hc
  | confirm p =>
    obtain ⟨x, hx, rfl⟩ := Option.map_eq_some_iff.1 h
    obtain ⟨hp, hs, he⟩ := move_some hx
    rw [he]
    exact .confirm hp (by simpa using hs)
  | reject p =>
    obtain ⟨x, hx, rfl⟩ := Option.map_eq_some_iff.1 h
    obtain ⟨hp, hs, he⟩ := move_some hx
    rw [he]
    exact .reject hp (by simpa using hs)
  | close inst => cases h; exact .close
  | inject content => cases h; exact .inject
  | openChannel inst =>
    simp only [step] at h
    split_ifs at h with hc
    cases h; exact .openChannel hc
  | deliver chan cid =>
    obtain ⟨⟨ch, inst⟩, hch, h⟩ := Option.bind_eq_some_iff.1 h
    obtain ⟨⟨c, b⟩, hd, h⟩ := Option.map_eq_some_iff.1 h
    obtain rfl : ch = chan := by simpa using List.find?_some hch
    have hm := List.mem_of_find?_eq_some hch
    split_ifs at h with hi
    · cases h; exact .deliverDead hm hi hd
    · cases h; exact .deliver hm hi hd
  | run i c =>
    obtain ⟨call, hi, h⟩ := Option.bind_eq_some_iff.1 h
    cases hp : call.prog with
    | ret | throw => rw [hp] at h; cases h
    | await o k =>
      rw [hp] at h
      dsimp only at h
      split_ifs at h with hc
      cases h
      refine .run hi hp (fun hl => hc (Or.inl hl)) fun hs hne x hx he => hc (Or.inr ⟨hs, hne, ?_⟩)
      exact List.any_eq_true.2 ⟨x, hx, by simp [he]⟩
  | loseChannel chan => cases h; exact .loseChannel
  | crash inst => cases h; exact .crash

end SystemDesign.Queue
