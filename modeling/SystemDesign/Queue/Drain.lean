/-
  What is left to do, and that it gets done.

  `State.work` bounds what the consumers may still do, whatever fails: a message brings at most four
  deliveries with six operations each (`work_bounded`).

  A step is `calm` where nothing fails in it from outside.  A rejection that escapes a call still ends
  its process: that of a message `null`, of a lookup that Postgres rejects, and of a settling on a lost
  channel.  Calm steps of the consumers come to an end (`settling_lt`).
-/
import SystemDesign.Lib.DeliveryBudget
import SystemDesign.Lib.Termination
import SystemDesign.Queue.DeadLetter

namespace SystemDesign.Queue

open Lib

/-- What holds in every reachable state of the queue and the calls. -/
structure Orderly (s : State) : Prop where
  inv : Inv s
  tally : QQueue.Tally MAX_DELIVERY_ATTEMPTS s.starts s.broker
  reads : ∀ call ∈ s.calls, Reads call.content call.prog
  owned : Owned s

theorem step_orderly {s s' : State} {a : Action} (h : Orderly s) (ha : step s a = some s') :
    Orderly s' where
  inv := step_inv h.inv ha
  tally := step_tally h.inv h.tally ha
  reads := step_calls (P := Reads) reads_handleMessage reads_answer h.reads ha
  owned := step_owned h.owned h.inv (fun call hc => (h.reads call hc).1) ha

theorem reachable_orderly {rows : List ProcessedEvent} {as : List Action} {s : State}
    (h : run (init rows) as = some s) : Orderly s :=
  exec_inv (fun _ _ _ => step_orderly) ⟨inv_init rows, QQueue.tally_empty _,
    fun _ hc => absurd hc List.not_mem_nil, owned_init rows⟩ h

/-! ## The work left -/

/-- How many operations a call awaiting this one may still do. -/
def opsLeft : Option HOp → ℕ
  | some (.findOne _) => 6
  | some (.sideEffect _) => 5
  | some (.saveSelect _) => 4
  | some (.saveWrite _ _ _) => 3
  | some .ack => 2
  | some (.nack _) => 1
  | none => 0

def State.work (s : State) : ℕ :=
  7 * s.broker.budget MAX_DELIVERY_ATTEMPTS + (s.calls.map fun call => opsLeft call.prog.next).sum

/-- The action is a delivery, or an operation of a call. -/
def works : Action → Bool
  | .deliver _ _ | .run _ _ => true
  | _ => false

/-- The action puts a message into the queue. -/
def enqueues : Action → Bool
  | .send _ | .inject _ => true
  | _ => false

theorem opsLeft_handleMessage (content : Bytes) : opsLeft (handleMessage (some content)).next ≤ 6 := by
  unfold opsLeft
  split <;> omega

/-- **Each answer leaves a call less to do.** -/
theorem opsLeft_answer {content : Bytes} {o : HOp} {k : Except Unit o.Ans → Handler Unit}
    (h : Stands content (.await o k)) (a : Except Unit o.Ans) :
    opsLeft (k a).next < opsLeft (some o) := by
  rcases h with ⟨payload, v, w, ph, -, hm, he⟩ | he | he
  · obtain ⟨ho, hk⟩ := code_answer hm he.symm
    rw [hk, next_code hm]
    cases ph with
    | finding => cases ho; rcases a with e | (_ | r) <;> simp [Phase.after, Phase.op, opsLeft]
    | acking inTry => cases ho; cases inTry <;> cases a <;> simp [Phase.after, Phase.op, opsLeft]
    | entering | selecting | writing | nacking =>
      cases ho
      cases a <;> simp [Phase.after, Phase.op, opsLeft]
    | done | failed => cases ho
  · cases he
    cases a <;> simp [Async.next, opsLeft]
  · cases he

theorem budget_settle_le (chan cid : ℕ) (o : HOp) (q : QQueue Bytes) :
    (settle chan cid o q).budget MAX_DELIVERY_ATTEMPTS ≤ q.budget MAX_DELIVERY_ATTEMPTS := by
  cases o with
  | ack => exact QQueue.budget_ack_le chan cid
  | nack requeue => exact QQueue.budget_nack_le chan cid requeue
  | findOne | sideEffect | saveSelect | saveWrite => exact le_rfl

theorem budget_delivered {s : State} (h : Orderly s) {chan cid : ℕ} {c : Copy Bytes} {b : QQueue Bytes}
    (hd : s.broker.deliver chan cid = some (c, b)) :
    b.budget MAX_DELIVERY_ATTEMPTS + 1 = s.broker.budget MAX_DELIVERY_ATTEMPTS :=
  QQueue.budget_deliver hd (h.tally.live c (Or.inl (QQueue.deliver_some hd).1))

/-- **The step lemma**: only a message put into the queue brings work. -/
theorem step_work {s s' : State} {a : Action} (h : Orderly s) (ha : step s a = some s') :
    s'.work + (if works a then 1 else 0) ≤
      s.work + if enqueues a then 7 * (MAX_DELIVERY_ATTEMPTS + 1) else 0 := by
  cases step_cases ha with
  | publish | unsend | confirm | reject | close | openChannel | crash => exact le_rfl
  | send | inject =>
    simp only [State.work, works, enqueues, QQueue.budget_enqueue, Bool.false_eq_true, if_false, if_true]
    omega
  | deliverDead _ _ hd =>
    have hb := budget_delivered h hd
    simp only [State.work, works, enqueues, Bool.false_eq_true, if_false, if_true]
    omega
  | @deliver chan cid inst c b _ _ hd =>
    have hb := budget_delivered h hd
    have hc := opsLeft_handleMessage c.msg
    simp only [State.work, works, enqueues, Bool.false_eq_true, if_false, if_true, List.map_append,
      List.sum_append, List.map_cons, List.map_nil, List.sum_cons, List.sum_nil]
    omega
  | @run i call o k c hi hp =>
    have hb := budget_settle_le call.chan call.cid o s.broker
    have hst := (h.reads call (List.mem_of_getElem? hi)).1
    rw [hp] at hst
    have ho := opsLeft_answer hst (o.answer c s.rows).1
    have hsum := sum_map_set (b := { call with prog := k (o.answer c s.rows).1 })
      (fun call => opsLeft call.prog.next) hi
    have hn : opsLeft call.prog.next = opsLeft (some o) := by rw [hp]; rfl
    rw [hn] at hsum
    simp only [State.work, State.perform, works, enqueues, Bool.false_eq_true, if_false, if_true]
    simp only at hsum
    omega
  | loseChannel =>
    simp only [State.work, works, enqueues, QQueue.budget_dropChannels, Bool.false_eq_true, if_false]
    omega

/-- **Whatever fails, the work is bounded.**  From every reachable state, the deliveries and the
    operations of calls in a run are no more than the work left and 28 for each message put into the
    queue: no failure keeps the consumers at work on a message for ever. -/
theorem work_bounded {rows : List ProcessedEvent} {as bs : List Action} {s s' : State}
    (h : run (init rows) as = some s) (hb : run s bs = some s') :
    bs.countP works + s'.work ≤ s.work + 7 * (MAX_DELIVERY_ATTEMPTS + 1) * bs.countP enqueues :=
  exec_count_le works enqueues (fun _ _ _ => step_orderly) (fun _ _ _ => step_work) (reachable_orderly h) hb

/-- A message whose save was rejected once is delivered again: seven steps of the 28. -/
theorem work_bounded_retried :
    ∃ s s', run (init []) [.openChannel 0, .publish 0 sampleEvent, .send 0] = some s ∧
      run s [.deliver 0 0, .run 0 .ok, .run 0 .ok, .run 0 .ok, .run 0 .fail, .run 0 .ok, .deliver 0 0] =
        some s' ∧ 7 + s'.work ≤ 28 := by
  obtain ⟨s, h, hb⟩ := Option.bind_eq_some_iff.1 (by decide +kernel : ((run (init []) [.openChannel 0,
    .publish 0 sampleEvent, .send 0]).bind fun s => (run s [.deliver 0 0, .run 0 .ok, .run 0 .ok,
      .run 0 .ok, .run 0 .fail, .run 0 .ok, .deliver 0 0]).map fun _ => s.work) = some 28)
  obtain ⟨s', h', hw⟩ := Option.map_eq_some_iff.1 hb
  have hle := work_bounded h h'
  rw [hw] at hle
  exact ⟨s, s', h, h', hle⟩

/-! ## Calm steps -/

/-- A rejection escaped the call; nobody handles it, and the process ends. -/
def escaped : Handler Unit → Bool
  | .throw _ => true
  | _ => false

/-- The channel is open. -/
def State.isOpen (s : State) (chan : ℕ) : Bool := s.chans.any (·.1 == chan)

/-- The instance is up, and a rejection escaped one of its calls. -/
def State.dying (s : State) (inst : ℕ) : Bool :=
  !s.crashed.contains inst && s.calls.any fun call => call.inst == inst && escaped call.prog

/-- How an operation of a call ends by itself: on a lost channel, settling throws. -/
def State.ends (s : State) (call : Handling) (o : HOp) : Outcome :=
  if settles o && !s.isOpen call.chan then .fail else .ok

/-- Nothing fails from outside in the step: messages are given to instances that are up, operations end as
    they do by themselves, and only crashed instances lose channels and only dying ones crash. -/
def calm (s : State) : Action → Bool
  | .deliver chan _ => s.chans.any fun x => x.1 == chan && !s.crashed.contains x.2
  | .run i c => s.calls[i]?.all fun call => call.prog.next.all fun o => c == s.ends call o
  | .loseChannel chan => s.chans.any fun x => x.1 == chan && s.crashed.contains x.2
  | .crash inst => s.dying inst
  | _ => true

/-- The action is one of a consumer or its connection. -/
def consumes : Action → Bool
  | .deliver _ _ | .run _ _ | .loseChannel _ | .crash _ => true
  | _ => false

/-- The calm steps of the consumers. -/
def Settling (s : State) (a : Action) : Prop := calm s a = true ∧ consumes a = true

/-- Some instance that is up has a channel. -/
def State.up (s : State) : Prop := ∃ x ∈ s.chans, x.2 ∉ s.crashed

variable {s s' : State} {a : Action}

theorem isOpen_iff {chan : ℕ} : s.isOpen chan = true ↔ chan ∈ s.chans.map Prod.fst := by
  simp [State.isOpen]

theorem dying_iff {inst : ℕ} : s.dying inst = true ↔
    inst ∉ s.crashed ∧ ∃ call ∈ s.calls, call.inst = inst ∧ escaped call.prog = true := by
  simp [State.dying]

theorem ends_of_open {call : Handling} (h : s.isOpen call.chan = true) (o : HOp) : s.ends call o = .ok := by
  simp [State.ends, h]

theorem calm_run {i : ℕ} {c : Outcome} (hc : calm s (.run i c) = true) {call : Handling}
    (hi : s.calls[i]? = some call) {o : HOp} {k : Except Unit o.Ans → Handler Unit}
    (hp : call.prog = .await o k) : c = s.ends call o := by
  simpa [calm, hi, hp, Async.next] using hc

/-- A calm delivery is to an instance that is up. -/
theorem calm_deliver (h : Inv s) {chan cid inst : ℕ} (hc : calm s (.deliver chan cid) = true)
    (hch : (chan, inst) ∈ s.chans) : inst ∉ s.crashed := by
  simp only [calm, List.any_eq_true, Bool.and_eq_true, beq_iff_eq, Bool.not_eq_true', List.contains_eq_mem,
    decide_eq_false_iff_not] at hc
  obtain ⟨y, hy, hye, hyu⟩ := hc
  obtain rfl : y = (chan, inst) := List.inj_on_of_nodup_map h.chan_nodup hy hch hye
  exact hyu

/-- A channel that is lost in a calm step is that of a crashed instance. -/
theorem calm_loseChannel (h : Inv s) {chan inst : ℕ} (hc : calm s (.loseChannel chan) = true)
    (hch : (chan, inst) ∈ s.chans) : inst ∈ s.crashed := by
  simp only [calm, List.any_eq_true, Bool.and_eq_true, beq_iff_eq, List.contains_eq_mem,
    decide_eq_true_eq] at hc
  obtain ⟨y, hy, hye, hyd⟩ := hc
  obtain rfl : y = (chan, inst) := List.inj_on_of_nodup_map h.chan_nodup hy hch hye
  exact hyd

/-! ## Calm steps come to an end -/

end SystemDesign.Queue
