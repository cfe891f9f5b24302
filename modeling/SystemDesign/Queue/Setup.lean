/-
  Setting up exchanges and queues, and publishing meanwhile.

  `QueueService` declares the exchange only; the queue and its binding are declared by
  `QueueConsumerService`, over a connection of its own and in its own time.  The broker confirms
  a message that matches no binding and discards it.

  * `consumer_ready`: what a finished consumer setup leaves in place, for good;
  * `confirmed_enqueued`: along runs that send only where the queue is bound, a call that
    resolves has put its message into the queue;
  * `unbound_send_lost`: any other send loses a message that is then confirmed.
-/
import SystemDesign.Lib.Run
import SystemDesign.Queue.Message

namespace SystemDesign.Setup

open Lib

inductive ExchangeType where
  | direct
  | fanout
deriving DecidableEq

/-- The arguments of a queue. -/
structure QueueArgs where
  quorum : Bool
  deliveryLimit : Option ℕ
  deadLetterExchange : Option JsString
deriving DecidableEq

inductive Command where
  | assertExchange (name : JsString) (type : ExchangeType)
  | assertQueue (name : JsString) (args : QueueArgs)
  | bindQueue (queue exchange key : JsString)
  | consume (queue : JsString)
deriving DecidableEq

/-- The `setup` of the producer's channel. -/
def producerSetup : List Command := [.assertExchange EXCHANGE .direct]

/-- The `setup` of the consumer's channel.  A channel sends one command at a time, in the order in
    which they are issued; the last two wait for the answers to those before. -/
def consumerSetup : List Command :=
  [.assertExchange EXCHANGE .direct,
    .assertExchange DEAD_LETTER_EXCHANGE .fanout,
    .assertQueue DEAD_LETTER_QUEUE ⟨false, none, none⟩,
    .bindQueue DEAD_LETTER_QUEUE DEAD_LETTER_EXCHANGE [],
    .assertQueue QUEUE ⟨true, some MAX_DELIVERY_ATTEMPTS, some DEAD_LETTER_EXCHANGE⟩,
    .bindQueue QUEUE EXCHANGE ROUTING_KEY,
    .consume QUEUE]

/-! ## The broker -/

structure Binding where
  queue : JsString
  exchange : JsString
  key : JsString
deriving DecidableEq

structure Topology where
  exchanges : List (JsString × ExchangeType)
  queues : List (JsString × QueueArgs)
  bindings : List Binding

def Topology.empty : Topology := ⟨[], [], []⟩

/-- Declare `x` under a name; `none` where something else has it. -/
def declare {α : Type} [DecidableEq α] (name : JsString) (x : α) (l : List (JsString × α)) :
    Option (List (JsString × α)) :=
  match l.lookup name with
  | none => some ((name, x) :: l)
  | some y => if y = x then some l else none

/-- The broker executes a command; `none` where it closes the channel instead. -/
def Topology.execute (t : Topology) : Command → Option Topology
  | .assertExchange name type => (declare name type t.exchanges).map fun l => { t with exchanges := l }
  | .assertQueue name args => (declare name args t.queues).map fun l => { t with queues := l }
  | .bindQueue queue exchange key =>
    if (t.queues.lookup queue).isSome && (t.exchanges.lookup exchange).isSome then
      some { t with bindings := ⟨queue, exchange, key⟩ :: t.bindings }
    else none
  | .consume queue => if (t.queues.lookup queue).isSome then some t else none

/-- The queues a message is routed to. -/
def Topology.routes (t : Topology) (exchange key : JsString) : List JsString :=
  match t.exchanges.lookup exchange with
  | none => []
  | some .direct => ((t.bindings.filter fun b => b.exchange == exchange && b.key == key).map (·.queue)).dedup
  | some .fanout => ((t.bindings.filter fun b => b.exchange == exchange).map (·.queue)).dedup

/-! ## Setups and publishes, step by step -/

inductive Result where
  | pending
  | resolved
  | threw
deriving DecidableEq

/-- A call of `publishTaskCreated` on the instance of the producer `inst`. -/
structure Call where
  inst : ℕ
  event : Event
  status : PublishStatus
  result : Result
deriving DecidableEq

/-- The broker confirms the message; after the timeout the race is settled. -/
def Call.confirm (call : Call) : Call :=
  { call with
    status := .confirmed
    result := if call.result = .pending then .resolved else call.result }

/-- A copy of the message of a call in a queue. -/
structure Queued where
  queue : JsString
  call : ℕ
  content : Bytes

/-- `producers` and `consumers` have the commands each channel still has to do. -/
structure State where
  topology : Topology
  queued : List Queued
  producers : List (List Command)
  consumers : List (List Command)
  calls : List Call

/-- A broker without exchanges and queues. -/
def init : State := ⟨.empty, [], [], [], []⟩

inductive Action where
  /-- `QueueService.onModuleInit` -/
  | startProducer
  /-- `QueueConsumerService.onModuleInit` -/
  | startConsumer
  | setupProducer (i : ℕ)
  | setupConsumer (i : ℕ)
  /-- The channel is created anew after a lost connection. -/
  | restartProducer (i : ℕ)
  | restartConsumer (i : ℕ)
  /-- `publishTaskCreated` is called on the instance of the producer `i`. -/
  | publish (i : ℕ) (e : Event)
  | send (p : ℕ)
  /-- The connection is lost before the confirm: the message will be sent again. -/
  | unsend (p : ℕ)
  | confirm (p : ℕ)
  | timeout (p : ℕ)
deriving DecidableEq

/-- The channel number `i` does its next command, and starts over where that fails. -/
def setup (full : List Command) (t : Topology) (chans : List (List Command)) (i : ℕ) :
    Option (Topology × List (List Command)) :=
  match chans[i]? with
  | some (cmd :: rest) => match t.execute cmd with
    | some t' => some (t', chans.set i rest)
    | none => some (t, chans.set i full)
  | _ => none

variable (s : State)

def step : Action → Option State
  | .startProducer => some { s with producers := s.producers ++ [producerSetup] }
  | .startConsumer => some { s with consumers := s.consumers ++ [consumerSetup] }
  | .setupProducer i => (setup producerSetup s.topology s.producers i).map fun x =>
    { s with topology := x.1, producers := x.2 }
  | .setupConsumer i => (setup consumerSetup s.topology s.consumers i).map fun x =>
    { s with topology := x.1, consumers := x.2 }
  | .restartProducer i => some { s with producers := s.producers.set i producerSetup }
  | .restartConsumer i => some { s with consumers := s.consumers.set i consumerSetup }
  | .publish i e =>
    if i < s.producers.length then some { s with calls := s.calls ++ [⟨i, e, .waiting, .pending⟩] }
    else none
  | .send p => s.calls[p]?.bind fun call =>
    if call.status = .waiting ∧ s.producers[call.inst]? = some [] then
      some { s with
        calls := s.calls.set p { call with status := .sent }
        queued := (s.topology.routes EXCHANGE ROUTING_KEY).map
          (fun q => ⟨q, p, call.event.content⟩) ++ s.queued }
    else none
  | .unsend p => s.calls[p]?.bind fun call =>
    if call.status = .sent then some { s with calls := s.calls.set p { call with status := .waiting } }
    else none
  | .confirm p => s.calls[p]?.bind fun call =>
    if call.status = .sent then some { s with calls := s.calls.set p call.confirm } else none
  | .timeout p => s.calls[p]?.bind fun call =>
    if call.result = .pending then some { s with calls := s.calls.set p { call with result := .threw } }
    else none

abbrev run : State → List Action → Option State := exec step

/-- The queue gets what is published. -/
def State.bound : Bool := (s.topology.routes EXCHANGE ROUTING_KEY).contains QUEUE

/-- The message of the call `p` was put into the queue. -/
def State.enqueued (p : ℕ) (e : Event) : Prop :=
  ∃ x ∈ s.queued, x.queue = QUEUE ∧ x.call = p ∧ x.content = e.content

/-! ## What a setup leaves in place -/

/-- What a command asks for is there. -/
def Topology.Has (t : Topology) : Command → Prop
  | .assertExchange name type => t.exchanges.lookup name = some type
  | .assertQueue name args => t.queues.lookup name = some args
  | .bindQueue queue exchange key => ⟨queue, exchange, key⟩ ∈ t.bindings
  | .consume _ => True

/-- Declaring adds its name, and changes nothing that is there. -/
theorem declare_some {α : Type} [DecidableEq α] {name : JsString} {x : α}
    {l l' : List (JsString × α)} (h : declare name x l = some l') :
    l'.lookup name = some x ∧ ∀ n y, l.lookup n = some y → l'.lookup n = some y := by
  unfold declare at h
  split at h
  · next hn =>
    cases h
    refine ⟨by simp [List.lookup], fun n y hy => ?_⟩
    have hne : (n == name) = false := by
      rw [beq_eq_false_iff_ne]
      rintro rfl
      rw [hn] at hy
      cases hy
    rw [List.lookup_cons, hne]
    exact hy
  · next y hy =>
    split_ifs at h with he
    cases h
    exact ⟨he ▸ hy, fun _ _ h => h⟩

/-- A command leaves what it asks for, and all that was there. -/
theorem execute_has {t t' : Topology} {cmd : Command} (h : t.execute cmd = some t') :
    t'.Has cmd ∧ ∀ c, t.Has c → t'.Has c := by
  cases cmd with
  | assertExchange name type =>
    obtain ⟨l, hl, rfl⟩ := Option.map_eq_some_iff.1 h
    obtain ⟨h1, h2⟩ := declare_some hl
    refine ⟨h1, fun c hc => ?_⟩
    cases c with
    | assertExchange n y => exact h2 n y hc
    | assertQueue | bindQueue | consume => exact hc
  | assertQueue name args =>
    obtain ⟨l, hl, rfl⟩ := Option.map_eq_some_iff.1 h
    obtain ⟨h1, h2⟩ := declare_some hl
    refine ⟨h1, fun c hc => ?_⟩
    cases c with
    | assertQueue n y => exact h2 n y hc
    | assertExchange | bindQueue | consume => exact hc
  | bindQueue queue exchange key =>
    simp only [Topology.execute] at h
    split_ifs at h
    cases h
    refine ⟨List.mem_cons_self, fun c hc => ?_⟩
    cases c with
    | bindQueue q e k => exact List.mem_cons_of_mem _ hc
    | assertExchange | assertQueue | consume => exact hc
  | consume queue =>
    simp only [Topology.execute] at h
    split_ifs at h
    cases h
    exact ⟨trivial, fun _ hc => hc⟩

/-- Of the commands `full`, those not in `rest` have taken effect. -/
def Progress (full : List Command) (t : Topology) (rest : List Command) : Prop :=
  ∃ done, full = done ++ rest ∧ ∀ c ∈ done, t.Has c

theorem progress_start (full : List Command) (t : Topology) : Progress full t full :=
  ⟨[], rfl, fun _ h => absurd h List.not_mem_nil⟩

theorem Progress.mono {full rest : List Command} {t t' : Topology} (h : Progress full t rest)
    (hg : ∀ c, t.Has c → t'.Has c) : Progress full t' rest := by
  obtain ⟨done, he, hd⟩ := h
  exact ⟨done, he, fun c hc => hg c (hd c hc)⟩

/-- **One command of a setup** keeps what is there, and makes progress on its own channel. -/
theorem setup_some {full : List Command} {t t' : Topology} {chans chans' : List (List Command)}
    {i : ℕ} (h : setup full t chans i = some (t', chans')) :
    (∀ c, t.Has c → t'.Has c) ∧
      ((∀ rest ∈ chans, Progress full t rest) → ∀ rest ∈ chans', Progress full t' rest) := by
  unfold setup at h
  split at h
  · next cmd rest hi =>
    have hmem := List.mem_of_getElem? hi
    split at h
    · next t₁ he =>
      obtain ⟨rfl, rfl⟩ := Prod.mk.inj (Option.some.inj h)
      obtain ⟨hcmd, hg⟩ := execute_has he
      refine ⟨hg, fun hp r hr => ?_⟩
      rcases List.mem_or_eq_of_mem_set hr with hr | rfl
      · exact (hp r hr).mono hg
      · obtain ⟨done, hfull, hd⟩ := (hp _ hmem).mono hg
        refine ⟨done ++ [cmd], by simpa using hfull, fun c hc => ?_⟩
        rcases List.mem_append.1 hc with hc | hc
        · exact hd c hc
        · rw [List.mem_singleton.1 hc]; exact hcmd
    · obtain ⟨rfl, rfl⟩ := Prod.mk.inj (Option.some.inj h)
      refine ⟨fun _ hc => hc, fun hp r hr => ?_⟩
      rcases List.mem_or_eq_of_mem_set hr with hr | rfl
      · exact hp r hr
      · exact progress_start _ _
  · cases h

/-- The consumers have done what they have not still to do. -/
def ConsumersProgress (s : State) : Prop :=
  ∀ rest ∈ s.consumers, Progress consumerSetup s.topology rest

/-- What a step does to the topology and the consumers. -/
theorem step_topology {s s' : State} {a : Action} (ha : step s a = some s') :
    (∀ c, s.topology.Has c → s'.topology.Has c) ∧ (ConsumersProgress s → ConsumersProgress s') := by
  cases a with
  | startProducer | restartProducer => cases ha; exact ⟨fun _ h => h, fun h => h⟩
  | startConsumer =>
    cases ha
    refine ⟨fun _ h => h, fun h rest hr => ?_⟩
    rcases List.mem_append.1 hr with hr | hr
    · exact h rest hr
    · rw [List.mem_singleton.1 hr]; exact progress_start _ _
  | restartConsumer i =>
    cases ha
    refine ⟨fun _ h => h, fun h rest hr => ?_⟩
    rcases List.mem_or_eq_of_mem_set hr with hr | rfl
    · exact h rest hr
    · exact progress_start _ _
  | setupProducer i =>
    obtain ⟨x, hx, rfl⟩ := Option.map_eq_some_iff.1 ha
    have hg := (setup_some hx).1
    exact ⟨hg, fun h rest hr => (h rest hr).mono hg⟩
  | setupConsumer i =>
    obtain ⟨x, hx, rfl⟩ := Option.map_eq_some_iff.1 ha
    exact setup_some hx
  | publish i e =>
    simp only [step] at ha
    split_ifs at ha
    cases ha; exact ⟨fun _ h => h, fun h => h⟩
  | send p | unsend p | confirm p | timeout p =>
    obtain ⟨call, -, ha⟩ := Option.bind_eq_some_iff.1 ha
    split_ifs at ha
    cases ha; exact ⟨fun _ h => h, fun h => h⟩

/-- What is declared and bound stays so. -/
theorem run_topology {s s' : State} {as : List Action} (h : run s as = some s') :
    ∀ c, s.topology.Has c → s'.topology.Has c :=
  exec_rel (R := fun s s' => ∀ c, s.topology.Has c → s'.topology.Has c) (fun _ _ h => h)
    (fun _ _ _ h1 h2 c hc => h2 c (h1 c hc)) (fun _ _ _ ha => (step_topology ha).1) h

theorem bound_of_has {s : State} (h1 : s.topology.Has (.assertExchange EXCHANGE .direct))
    (h2 : s.topology.Has (.bindQueue QUEUE EXCHANGE ROUTING_KEY)) : s.bound = true := by
  have he : s.topology.exchanges.lookup EXCHANGE = some .direct := h1
  simp only [State.bound, Topology.routes, he, List.contains_iff_mem, List.mem_dedup]
  exact List.mem_map.2 ⟨_, List.mem_filter.2 ⟨h2, by simp⟩, rfl⟩

/-- **What a finished consumer setup leaves in place**, in every later state: all that its
    commands ask for, so the queue gets what is published. -/
theorem consumer_ready {as bs : List Action} {s s' : State} (h : run init as = some s)
    (hready : [] ∈ s.consumers) (h' : run s bs = some s') :
    (∀ c ∈ consumerSetup, s'.topology.Has c) ∧ s'.bound = true := by
  have hp : ConsumersProgress s :=
    exec_inv (fun _ _ _ hi ha => (step_topology ha).2 hi) (fun _ h => absurd h List.not_mem_nil) h
  obtain ⟨done, he, hd⟩ := hp [] hready
  have hall : ∀ c ∈ consumerSetup, s'.topology.Has c := fun c hc =>
    run_topology h' c (hd c (by simpa [he] using hc))
  exact ⟨hall, bound_of_has (hall _ (by simp [consumerSetup])) (hall _ (by simp [consumerSetup]))⟩

/-! ## Confirmed messages -/

/-- The message of the call is or was with the broker. -/
def Call.wasSent (call : Call) : Prop :=
  call.status = .sent ∨ call.status = .confirmed ∨ call.result = .resolved

/-- The messages that were sent are in the queue. -/
def Delivered (s : State) : Prop :=
  ∀ p call, s.calls[p]? = some call → call.wasSent → s.enqueued p call.event

theorem Delivered.set {s : State} (h : Delivered s) {p : ℕ} {call : Call} (more : List Queued)
    (hc : call.wasSent → State.enqueued { s with queued := more ++ s.queued } p call.event) :
    Delivered { s with calls := s.calls.set p call, queued := more ++ s.queued } := by
  intro p' call' hp' hs
  rcases set_cases hp' with ⟨rfl, rfl⟩ | ⟨-, hp'⟩
  · exact hc hs
  · obtain ⟨x, hx, hq⟩ := h p' call' hp' hs
    exact ⟨x, List.mem_append_right _ hx, hq⟩

/-- **The step lemma**, for steps that send only where the queue is bound. -/
theorem step_delivered {s s' : State} {a : Action} (h : Delivered s)
    (hc : ∀ p, a = .send p → s.bound = true) (ha : step s a = some s') : Delivered s' := by
  cases a with
  | startProducer | restartProducer | startConsumer | restartConsumer => cases ha; exact h
  | setupProducer i | setupConsumer i =>
    obtain ⟨x, hx, rfl⟩ := Option.map_eq_some_iff.1 ha
    exact h
  | publish i e =>
    simp only [step] at ha
    split_ifs at ha
    cases ha
    intro p call hp hs
    rcases snoc_cases hp with ⟨-, rfl⟩ | hp
    · rcases hs with hs | hs | hs <;> cases hs
    · exact h p call hp hs
  | send p =>
    obtain ⟨call, hp, ha⟩ := Option.bind_eq_some_iff.1 ha
    split_ifs at ha
    cases ha
    refine h.set _ fun _ => ⟨⟨QUEUE, p, call.event.content⟩, List.mem_append_left _ ?_, rfl, rfl, rfl⟩
    exact List.mem_map.2 ⟨QUEUE, List.contains_iff_mem.1 (hc p rfl), rfl⟩
  | unsend p =>
    obtain ⟨call, hp, ha⟩ := Option.bind_eq_some_iff.1 ha
    split_ifs at ha with hs
    cases ha
    exact h.set [] fun _ => h p call hp (Or.inl hs)
  | confirm p =>
    obtain ⟨call, hp, ha⟩ := Option.bind_eq_some_iff.1 ha
    split_ifs at ha with hs
    cases ha
    exact h.set [] fun _ => h p call hp (Or.inl hs)
  | timeout p =>
    obtain ⟨call, hp, ha⟩ := Option.bind_eq_some_iff.1 ha
    split_ifs at ha
    cases ha
    refine h.set [] fun hw => h p call hp ?_
    rcases hw with hw | hw | hw
    · exact Or.inl hw
    · exact Or.inr (Or.inl hw)
    · cases hw

/-- The action sends nothing, or the queue is bound. -/
def sendsBound (s : State) : Action → Bool
  | .send _ => s.bound
  | _ => true

theorem bound_of_sends {s : State} {a : Action} {p : ℕ} (h : sendsBound s a = true)
    (ha : a = .send p) : s.bound = true := by
  subst ha; exact h

/-- **A confirmed publish is enqueued**, along runs that send only where the queue is bound: each
    call that resolves has put its message into the queue. -/
theorem confirmed_enqueued {as : List Action} {s : State} (h : run init as = some s)
    (hc : Along step (fun s a => sendsBound s a = true) init as) :
    ∀ p call, s.calls[p]? = some call → call.result = .resolved → s.enqueued p call.event := by
  have hinit : Delivered init := fun p call hp => by simp [init] at hp
  have hd : Delivered s :=
    exec_inv_along (fun _ _ _ hi hca ha => step_delivered hi (fun _ hp => bound_of_sends hca hp) ha)
      hinit hc h
  exact fun p call hp hr => hd p call hp (Or.inr (Or.inr hr))

/-- The consumer is set up before the request comes. -/
theorem confirmed_enqueued_after_setup :
    ∃ s, run init [.startProducer, .startConsumer, .setupProducer 0, .setupConsumer 0,
      .setupConsumer 0, .setupConsumer 0, .setupConsumer 0, .setupConsumer 0, .setupConsumer 0,
      .publish 0 sampleEvent, .send 0, .confirm 0] = some s ∧ s.enqueued 0 sampleEvent := by
  have hrun : (run init [.startProducer, .startConsumer, .setupProducer 0, .setupConsumer 0,
    .setupConsumer 0, .setupConsumer 0, .setupConsumer 0, .setupConsumer 0, .setupConsumer 0,
    .publish 0 sampleEvent, .send 0, .confirm 0]).map (·.calls) =
      some [⟨0, sampleEvent, .confirmed, .resolved⟩] := by decide +kernel
  obtain ⟨s, h, hcalls⟩ := Option.map_eq_some_iff.1 hrun
  have h0 : s.calls[0]? = some ⟨0, sampleEvent, .confirmed, .resolved⟩ := by rw [hcalls]; rfl
  have hq := confirmed_enqueued h (by decide +kernel) 0 ⟨0, sampleEvent, .confirmed, .resolved⟩ h0 rfl
  exact ⟨s, h, hq⟩

/-- The request comes before the consumer's setup: the call resolves, and nothing is queued. -/
theorem confirmed_not_enqueued :
    ∃ s, run init [.startProducer, .startConsumer, .setupProducer 0, .setupConsumer 0,
      .publish 0 sampleEvent, .send 0, .confirm 0] = some s ∧
      ¬ ∀ p call, s.calls[p]? = some call → call.result = .resolved → s.enqueued p call.event := by
  obtain ⟨s, h, hs⟩ := Option.map_eq_some_iff.1 (by decide +kernel : (run init [.startProducer,
    .startConsumer, .setupProducer 0, .setupConsumer 0, .publish 0 sampleEvent, .send 0,
    .confirm 0]).map (fun s => (s.calls, s.queued.length)) =
      some ([⟨0, sampleEvent, .confirmed, .resolved⟩], 0))
  obtain ⟨hcalls, hqueued⟩ := Prod.mk.inj hs
  refine ⟨s, h, fun hall => ?_⟩
  have h0 : s.calls[0]? = some ⟨0, sampleEvent, .confirmed, .resolved⟩ := by rw [hcalls]; rfl
  obtain ⟨x, hx, -⟩ := hall 0 _ h0 rfl
  rw [List.length_eq_zero_iff.1 hqueued] at hx
  cases hx

/-! ## Messages sent before the queue is bound -/

theorem routes_mono {t t' : Topology} (h : ∀ c, t.Has c → t'.Has c) {q exchange key : JsString}
    (hq : q ∈ t.routes exchange key) : q ∈ t'.routes exchange key := by
  have hb : ∀ b ∈ t.bindings, b ∈ t'.bindings := fun b => h (.bindQueue b.queue b.exchange b.key)
  cases he : t.exchanges.lookup exchange with
  | none => simp [Topology.routes, he] at hq
  | some type =>
    have he' : t'.exchanges.lookup exchange = some type := h (.assertExchange exchange type) he
    cases type with
    | direct | fanout =>
      simp only [Topology.routes, he, he', List.mem_dedup, List.mem_map, List.mem_filter] at hq ⊢
      obtain ⟨b, ⟨hmem, hk⟩, rfl⟩ := hq
      exact ⟨b, ⟨hb b hmem, hk⟩, rfl⟩

/-- What is in the queue was sent where the queue was bound, which it still is. -/
theorem step_queued {s s' : State} {a : Action} (h : ∀ x ∈ s.queued, x.queue = QUEUE → s.bound = true)
    (ha : step s a = some s') : ∀ x ∈ s'.queued, x.queue = QUEUE → s'.bound = true := by
  have hmono : s.bound = true → s'.bound = true := fun hb =>
    List.contains_iff_mem.2 (routes_mono (step_topology ha).1 (List.contains_iff_mem.1 hb))
  cases a with
  | startProducer | restartProducer | startConsumer | restartConsumer => cases ha; exact h
  | setupProducer i | setupConsumer i =>
    obtain ⟨x, hx, rfl⟩ := Option.map_eq_some_iff.1 ha
    exact fun x hx hq => hmono (h x hx hq)
  | publish i e =>
    simp only [step] at ha
    split_ifs at ha
    cases ha; exact h
  | send p =>
    obtain ⟨call, hp, ha⟩ := Option.bind_eq_some_iff.1 ha
    split_ifs at ha
    cases ha
    intro x hx hq
    rcases List.mem_append.1 hx with hx | hx
    · obtain ⟨q, hq', rfl⟩ := List.mem_map.1 hx
      exact List.contains_iff_mem.2 (hq ▸ hq')
    · exact h x hx hq
  | unsend p | confirm p | timeout p =>
    obtain ⟨call, hp, ha⟩ := Option.bind_eq_some_iff.1 ha
    split_ifs at ha
    cases ha; exact h

/-- **A send before the queue is bound** can be confirmed, and its message is in no queue. -/
theorem unbound_send_lost {as : List Action} {s : State} (h : run init as = some s) {p : ℕ}
    {call : Call} (hp : s.calls[p]? = some call) (hw : call.status = .waiting)
    (hr : call.result = .pending) (hready : s.producers[call.inst]? = some [])
    (hb : s.bound = false) :
    ∃ s' call', run s [.send p, .confirm p] = some s' ∧ s'.calls[p]? = some call' ∧
      call'.event = call.event ∧ call'.result = .resolved ∧ ¬ s'.enqueued p call.event := by
  have hq := exec_inv (I := fun s => ∀ x ∈ s.queued, x.queue = QUEUE → s.bound = true)
    (fun _ _ _ hi ha => step_queued hi ha) (fun _ hx => absurd hx List.not_mem_nil) h
  have hlt := (List.getElem?_eq_some_iff.1 hp).1
  let sent : Call := { call with status := .sent }
  let s₁ : State := { s with
    calls := s.calls.set p sent
    queued := (s.topology.routes EXCHANGE ROUTING_KEY).map (fun q => ⟨q, p, call.event.content⟩) ++
      s.queued }
  have hp₁ : s₁.calls[p]? = some sent := List.getElem?_set_self hlt
  have h1 : step s (.send p) = some s₁ := by
    simp only [step, hp, Option.bind_some]; exact if_pos ⟨hw, hready⟩
  have h2 : step s₁ (.confirm p) = some { s₁ with calls := s₁.calls.set p sent.confirm } := by
    simp only [step, hp₁, Option.bind_some]; exact if_pos rfl
  refine ⟨_, sent.confirm, by rw [run, exec_cons, h1, Option.bind_some, exec_cons, h2]; rfl,
    List.getElem?_set_self (List.getElem?_eq_some_iff.1 hp₁).1, rfl, if_pos hr, ?_⟩
  rintro ⟨x, hx, hxq, -⟩
  rcases List.mem_append.1 hx with hx | hx
  · obtain ⟨q, hq', rfl⟩ := List.mem_map.1 hx
    rw [State.bound, ← hxq, List.contains_iff_mem.2 hq'] at hb
    cases hb
  · rw [hq x hx hxq] at hb
    cases hb

end SystemDesign.Setup
