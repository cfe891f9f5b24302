/-
  What is dead-lettered.

  A call nacks after any failure inside its `try` block: also after a save that committed and whose
  reply was lost, and after an insert that another call's row made fail.  On the last try this
  dead-letters a message whose event is recorded.  `timely` says which steps lead there; along runs
  of timely steps, `dead_unprocessed`.

  `Owned` says that a call that has not ended, on an open channel, is the only one of its delivery.
-/
import SystemDesign.Queue.AtMostOnce
import SystemDesign.Queue.Retry

namespace SystemDesign.Queue

open Lib

/-- The event a message names. -/
def eventOfContent (content : Bytes) : Option Uuid := (eventIdValue content).bind uuidOf

/-- The event of the message is recorded. -/
def processed (content : Bytes) (rows : List ProcessedEvent) : Bool :=
  (eventOfContent content).any fun u => decide (Recorded u rows)

/-- The operation is in the `try` block, before its `ack`. -/
def inTry : HOp → Bool
  | .sideEffect _ | .saveSelect _ | .saveWrite _ _ _ => true
  | _ => false

/-- The call is about to give its message back. -/
def nacks (p : Handler Unit) : Bool :=
  match p.next with
  | some (.nack true) => true
  | _ => false

/-- The delivery of the call was given back so often that the next time dead-letters it. -/
def State.lastTry (s : State) (call : Handling) : Bool :=
  s.broker.unacked.any fun x =>
    QQueue.isDelivery call.chan call.cid x && decide (MAX_DELIVERY_ATTEMPTS ≤ x.2.count)

/-- The call is about to dead-letter its message. -/
def State.givesUp (s : State) (call : Handling) : Bool :=
  s.live call && s.lastTry call && nacks call.prog

/-- The steps after which no processed message is dead-lettered. -/
def timely (s : State) : Action → Bool
  | .run i c => s.calls[i]?.all fun call => call.prog.next.all fun o =>
    -- a last try does not fail with its event recorded
    !(inTry o && s.lastTry call && !(o.answer c s.rows).1.isOk &&
        processed call.content (o.answer c s.rows).2) &&
      -- and no event is recorded that a call is giving up
      s.calls.all fun call' => !s.givesUp call' || processed call'.content s.rows ||
        !processed call'.content (o.answer c s.rows).2
  | .loseChannel chan => s.broker.unacked.all fun x =>
    x.1 != chan || decide (x.2.count < MAX_DELIVERY_ATTEMPTS) || !processed x.2.msg s.rows
  | _ => true

/-! ## Where a call nacks -/

theorem next_code {payload : Json} {v w : JsValue} (hm : Members payload v w) (ph : Phase) :
    (ph.code payload v w).next = ph.op payload v w := by
  cases ho : ph.op payload v w with
  | some o => rw [code_of_op hm ho]; rfl
  | none =>
    cases ph with
    | done | failed => rfl
    | finding | entering | selecting | writing | acking | nacking => cases ho

/-- A call stands in its program, and rejects its message for good only where it does not parse. -/
def Reads (content : Bytes) (p : Handler Unit) : Prop :=
  Stands content p ∧ (p.next = some (.nack false) → Json.parse (ofUtf8 content) = none)

theorem reads_handleMessage (content : Bytes) : Reads content (handleMessage (some content)) := by
  refine ⟨stands_handleMessage content, fun hn => ?_⟩
  have hb := handleMessage_begins content
  generalize handleMessage (some content) = p at hb hn
  cases hb with
  | unparsed hp => exact hp
  | thrown | finding => cases hn

theorem reads_answer {content : Bytes} {o : HOp} {k : Except Unit o.Ans → Handler Unit}
    (h : Reads content (.await o k)) (a : Except Unit o.Ans) : Reads content (k a) := by
  refine ⟨stands_answer h.1 a, fun hn => ?_⟩
  rcases h.1 with ⟨payload, v, w, ph, -, hm, he⟩ | he | he
  · rw [(code_answer hm he.symm).2, next_code hm] at hn
    cases hph : ph.after o a <;> rw [hph] at hn <;> cases hn
  · cases he
    cases a <;> cases hn
  · cases he

/-- **A call comes to its `nack` by an error** of the `ack`, or in the `try` block before it. -/
theorem nacks_answer {content : Bytes} {o : HOp} {k : Except Unit o.Ans → Handler Unit}
    (h : Stands content (.await o k)) {a : Except Unit o.Ans} (hn : nacks (k a) = true) :
    a.isOk = false ∧ (o = .ack ∨ inTry o = true) := by
  rcases h with ⟨payload, v, w, ph, -, hm, he⟩ | he | he
  · obtain ⟨ho, hk⟩ := code_answer hm he.symm
    rw [hk, nacks, next_code hm] at hn
    cases ph with
    | finding =>
      cases ho
      rcases a with e | (_ | r)
      · cases hn
      · cases hn
      · cases hn
    | entering | selecting | writing =>
      cases ho
      rcases a with e | r
      · exact ⟨rfl, Or.inr rfl⟩
      · cases hn
    | acking inTry =>
      cases ho
      rcases a with e | r
      · exact ⟨rfl, Or.inl rfl⟩
      · cases inTry <;> cases hn
    | nacking => cases ho; cases a <;> cases hn
    | done | failed => cases ho
  · cases he
    cases a <;> cases hn
  · cases he

/-- What holds where a call begins and is kept by each answer holds of every call. -/
theorem step_calls {P : Bytes → Handler Unit → Prop}
    (h0 : ∀ content, P content (handleMessage (some content)))
    (hk : ∀ {content : Bytes} {o : HOp} {k : Except Unit o.Ans → Handler Unit},
      P content (.await o k) → ∀ a, P content (k a))
    {s s' : State} {a : Action} (h : ∀ call ∈ s.calls, P call.content call.prog)
    (ha : step s a = some s') : ∀ call ∈ s'.calls, P call.content call.prog := by
  cases step_cases ha with
  | publish | send | unsend | confirm | reject | close | inject | openChannel | deliverDead
  | loseChannel | crash => exact h
  | deliver =>
    intro call hc
    rcases List.mem_append.1 hc with hc | hc
    · exact h call hc
    · rw [List.mem_singleton.1 hc]
      exact h0 _
  | run hi hp =>
    intro call hc
    rcases List.mem_or_eq_of_mem_set hc with hc | rfl
    · exact h call hc
    · exact hk (hp ▸ h _ (List.mem_of_getElem? hi)) _

/-! ## Calls and their deliveries -/

/-- The call has not ended, and its channel is open. -/
def State.running (s : State) (call : Handling) : Prop :=
  call.prog.next ≠ none ∧ call.chan ∈ s.chans.map Prod.fst

/-- A running call is the only one of its delivery, which is outstanding. -/
structure Owned (s : State) : Prop where
  lt : ∀ call ∈ s.calls, call.chan < s.nextChan
  own : ∀ call ∈ s.calls, s.running call →
    ∃ x ∈ s.broker.unacked, QQueue.isDelivery call.chan call.cid x = true
  one : ∀ (i j : ℕ) (call call' : Handling), s.calls[i]? = some call → s.calls[j]? = some call' →
    s.running call → s.running call' → call.chan = call'.chan → call.cid = call'.cid → i = j

theorem owned_init (rows : List ProcessedEvent) : Owned (init rows) where
  lt _ hc := absurd hc List.not_mem_nil
  own _ hc := absurd hc List.not_mem_nil
  one i j call call' h := by simp [init] at h

/-- Ownership survives whatever keeps the calls and the deliveries of the open channels. -/
theorem Owned.mono {s s' : State} (h : Owned s) (h1 : s'.calls = s.calls)
    (h2 : s.nextChan ≤ s'.nextChan)
    (h3 : ∀ call ∈ s.calls, s'.running call → s.running call)
    (h4 : ∀ x ∈ s.broker.unacked, x.1 ∈ s'.chans.map Prod.fst → x ∈ s'.broker.unacked) : Owned s' where
  lt call hc := (h.lt call (h1 ▸ hc)).trans_le h2
  own call hc hr := by
    rw [h1] at hc
    obtain ⟨x, hx, hd⟩ := h.own call hc (h3 call hc hr)
    have hch : x.1 = call.chan := by
      simp only [QQueue.isDelivery, Bool.and_eq_true, beq_iff_eq] at hd
      exact hd.1
    exact ⟨x, h4 x hx (hch ▸ hr.2), hd⟩
  one i j call call' hi hj hr hr' := by
    rw [h1] at hi hj
    exact h.one i j call call' hi hj (h3 call (List.mem_of_getElem? hi) hr)
      (h3 call' (List.mem_of_getElem? hj) hr')

/-- A ready copy has no running call on any channel. -/
theorem Owned.not_running {s : State} (h : Owned s) (hs : s.broker.Sound) {c : Copy Bytes}
    (hc : c ∈ s.broker.ready) {call : Handling} (hcall : call ∈ s.calls) (he : call.cid = c.cid) :
    ¬ s.running call := by
  intro hr
  obtain ⟨x, hx, hd⟩ := h.own call hcall hr
  simp only [QQueue.isDelivery, Bool.and_eq_true, beq_iff_eq] at hd
  exact hs.ready_not_unacked hc hx (hd.2.trans he)

/-- **A delivery starts the only call of its copy.** -/
theorem Owned.deliver {s : State} (h : Owned s) (hinv : Inv s) {chan cid inst : ℕ} {c : Copy Bytes}
    {b : QQueue Bytes} {prog : Handler Unit} (hch : (chan, inst) ∈ s.chans)
    (hd : s.broker.deliver chan cid = some (c, b)) :
    Owned { s with broker := b, calls := s.calls ++ [⟨inst, chan, cid, c.msg, prog⟩] } := by
  obtain ⟨hc, hcid, hu, -⟩ := QQueue.deliver_some hd
  have idle : ∀ call ∈ s.calls, call.cid = cid → ¬ s.running call := fun call hm he =>
    h.not_running hinv.sound hc hm (he.trans hcid.symm)
  refine ⟨fun call hm => ?_, fun call hm hr => ?_, fun i j call call' hi hj hr hr' he1 he2 => ?_⟩
  · rcases List.mem_append.1 hm with hm | hm
    · exact h.lt call hm
    · rw [List.mem_singleton.1 hm]
      exact hinv.chan_lt _ hch
  · rcases List.mem_append.1 hm with hm | hm
    · obtain ⟨x, hx, hdel⟩ := h.own call hm hr
      exact ⟨x, hu ▸ List.mem_cons_of_mem _ hx, hdel⟩
    · rw [List.mem_singleton.1 hm]
      exact ⟨(chan, c), hu ▸ List.mem_cons_self, by simp [QQueue.isDelivery, hcid]⟩
  · rcases snoc_cases hi with ⟨rfl, rfl⟩ | hi <;> rcases snoc_cases hj with ⟨rfl, rfl⟩ | hj
    · rfl
    · exact absurd hr' (idle call' (List.mem_of_getElem? hj) he2.symm)
    · exact absurd hr (idle call (List.mem_of_getElem? hi) he2)
    · exact h.one i j call call' hi hj hr hr' he1 he2

/-- A delivery that is not that of the call stays where it is. -/
theorem mem_settle {s : State} (hs : s.broker.Sound) {chan cid : ℕ} {o : HOp} {x : ℕ × Copy Bytes}
    (hx : x ∈ s.broker.unacked) (hn : settles o = true → QQueue.isDelivery chan cid x = false) :
    x ∈ (settle chan cid o s.broker).unacked := by
  have hne : settles o = true → ¬ QQueue.isDelivery chan cid x = true := fun h => by simp [hn h]
  cases o with
  | findOne | sideEffect | saveSelect | saveWrite => exact hx
  | ack => exact ((hs.settles_ack chan cid).1.unacked x).2 ⟨hx, hne rfl⟩
  | nack requeue =>
    cases requeue with
    | true => exact ((hs.givesBack_nack _ chan cid).unacked x).2 ⟨hx, hne rfl⟩
    | false => exact ((hs.settles_nack _ chan cid).1.unacked x).2 ⟨hx, hne rfl⟩

/-- What an operation that settles leaves of its call, where the channel is open. -/
theorem next_of_settles {content : Bytes} {o : HOp} {k : Except Unit o.Ans → Handler Unit}
    (h : Stands content (.await o k)) (hs : settles o = true) (rows : List ProcessedEvent) :
    (k (o.answer .ok rows).1).next = none := by
  rcases h with ⟨payload, v, w, ph, -, hm, he⟩ | he | he
  · obtain ⟨ho, hk⟩ := code_answer hm he.symm
    rw [hk, next_code hm]
    cases ph with
    | acking inTry => cases ho; cases inTry <;> rfl
    | nacking => cases ho; rfl
    | finding | entering | selecting | writing => cases ho; cases hs
    | done | failed => cases ho
  · cases he; rfl
  · cases he

/-- **An operation of a call leaves every running call its delivery.** -/
theorem Owned.perform {s : State} (h : Owned s) (hinv : Inv s) {i : ℕ} {call : Handling} {o : HOp}
    {k : Except Unit o.Ans → Handler Unit} {c : Outcome} (hi : s.calls[i]? = some call)
    (hp : call.prog = .await o k) (hst : Stands call.content call.prog)
    (hs : settles o = true → c ≠ .ok → ∀ x ∈ s.chans, x.1 ≠ call.chan) :
    Owned (s.perform i call o k c) := by
  have hcall := List.mem_of_getElem? hi
  -- a call of the state after the operation is one of the state before, at the same number
  have old : ∀ {j : ℕ} {call' : Handling}, (s.perform i call o k c).calls[j]? = some call' →
      (s.perform i call o k c).running call' → ∃ call₀, s.calls[j]? = some call₀ ∧ s.running call₀ ∧
        call₀.chan = call'.chan ∧ call₀.cid = call'.cid := by
    intro j call' hj hr
    rcases set_cases hj with ⟨rfl, rfl⟩ | ⟨-, hj⟩
    · exact ⟨call, hi, ⟨by rw [hp]; nofun, hr.2⟩, rfl, rfl⟩
    · exact ⟨call', hj, hr, rfl, rfl⟩
  refine ⟨fun call' hm => ?_, fun call' hm hr => ?_, fun j₁ j₂ c₁ c₂ h₁ h₂ hr₁ hr₂ he1 he2 => ?_⟩
  · rcases List.mem_or_eq_of_mem_set hm with hm | rfl
    · exact h.lt call' hm
    · exact h.lt call hcall
  · obtain ⟨j, hlt, hj⟩ := List.mem_iff_getElem.1 hm
    have hj' := List.getElem?_eq_some_iff.2 ⟨hlt, hj⟩
    obtain ⟨call₀, hj₀, hr₀, hch, hcid⟩ := old hj' hr
    obtain ⟨x, hx, hd⟩ := h.own call₀ (List.mem_of_getElem? hj₀) hr₀
    refine ⟨x, mem_settle hinv.sound hx fun hset => ?_, hch ▸ hcid ▸ hd⟩
    by_contra hdel
    simp only [QQueue.isDelivery, Bool.not_eq_false, Bool.and_eq_true, beq_iff_eq] at hd hdel
    -- the delivery is that of the call itself, which has ended
    obtain rfl : j = i := h.one j i call₀ call hj₀ hi hr₀ ⟨by rw [hp]; nofun,
      hdel.1 ▸ hinv.unacked x hx⟩ (hd.1.symm.trans hdel.1) (hd.2.symm.trans hdel.2)
    rcases set_cases hj' with ⟨-, rfl⟩ | ⟨hne, -⟩
    · by_cases hc : c = .ok
      · subst hc
        exact hr.1 (next_of_settles (hp ▸ hst) hset s.rows)
      · obtain ⟨y, hy, hye⟩ := List.mem_map.1 hr.2
        exact hs hset hc y hy hye
    · exact hne rfl
  · obtain ⟨c₁', hj₁, hr₁', e₁, e₁'⟩ := old h₁ hr₁
    obtain ⟨c₂', hj₂, hr₂', e₂, e₂'⟩ := old h₂ hr₂
    exact h.one j₁ j₂ c₁' c₂' hj₁ hj₂ hr₁' hr₂' (by rw [e₁, e₂, he1]) (by rw [e₁', e₂', he2])

/-- **The step lemma.** -/
theorem step_owned {s s' : State} {a : Action} (h : Owned s) (hinv : Inv s)
    (hst : ∀ call ∈ s.calls, Stands call.content call.prog) (ha : step s a = some s') : Owned s' := by
  cases step_cases ha with
  | publish | send | unsend | confirm | reject | close | inject | crash =>
    exact h.mono rfl le_rfl (fun _ _ hr => hr) fun _ hx _ => hx
  | openChannel =>
    refine h.mono rfl (Nat.le_succ _) (fun call hc hr => ⟨hr.1, ?_⟩) fun _ hx _ => hx
    rcases List.mem_cons.1 hr.2 with he | hm
    · exact absurd (h.lt call hc) (by rw [he]; exact Nat.lt_irrefl _)
    · exact hm
  | deliverDead _ _ hd =>
    obtain ⟨-, -, hu, -⟩ := QQueue.deliver_some hd
    exact h.mono rfl le_rfl (fun _ _ hr => hr) fun _ hx _ => hu ▸ List.mem_cons_of_mem _ hx
  | deliver hch _ hd => exact h.deliver hinv hch hd
  | run hi hp _ hs => exact h.perform hinv hi hp (hst _ (List.mem_of_getElem? hi)) hs
  | @loseChannel chan =>
    refine h.mono rfl le_rfl (fun call _ hr => ⟨hr.1, ?_⟩) fun x hx hopen => ?_
    · exact (List.filter_sublist.map Prod.fst).subset hr.2
    · obtain ⟨y, hy, he⟩ := List.mem_map.1 hopen
      rw [QQueue.dropChannels_unacked, List.mem_filter]
      exact ⟨hx, he ▸ (List.mem_filter.1 hy).2⟩

/-! ## Last tries -/

/-- What dead-letters a message only when it is not processed. -/
structure Timely (s : State) : Prop where
  inv : Inv s
  reads : ∀ call ∈ s.calls, Reads call.content call.prog
  owned : Owned s
  fresh : ∀ call ∈ s.calls, s.givesUp call = true → processed call.content s.rows = false

theorem timely_init (rows : List ProcessedEvent) : Timely (init rows) where
  inv := inv_init rows
  reads _ hc := absurd hc List.not_mem_nil
  owned := owned_init rows
  fresh _ hc := absurd hc List.not_mem_nil

/-- Fewer deliveries and more crashes make no call give up. -/
theorem givesUp_mono {s s' : State} {call : Handling} (h : s'.givesUp call = true)
    (hu : ∀ x ∈ s'.broker.unacked, x ∈ s.broker.unacked)
    (hc : ∀ inst ∈ s.crashed, inst ∈ s'.crashed) : s.givesUp call = true := by
  simp only [State.givesUp, State.live, State.lastTry, Bool.and_eq_true, List.any_eq_true,
    Bool.not_eq_true', List.contains_eq_mem, decide_eq_false_iff_not] at h ⊢
  obtain ⟨⟨hl, x, hx, hlast⟩, hn⟩ := h
  exact ⟨⟨fun hm => hl (hc _ hm), x, hu x hx, hlast⟩, hn⟩

/-- A call that is starting is not about to give its message back. -/
theorem nacks_handleMessage (content : Bytes) : nacks (handleMessage (some content)) = false := by
  have hb := handleMessage_begins content
  generalize handleMessage (some content) = p at hb ⊢
  cases hb with
  | unparsed | thrown | finding => rfl

/-- A delivery makes no other call give up. -/
theorem Timely.fresh_deliver {s : State} (h : Timely s) {chan cid inst : ℕ} {c : Copy Bytes}
    {b : QQueue Bytes} (hch : (chan, inst) ∈ s.chans) (hd : s.broker.deliver chan cid = some (c, b))
    {call : Handling} (hcall : call ∈ s.calls)
    (hg : ({ s with broker := b } : State).givesUp call = true) : s.givesUp call = true := by
  obtain ⟨hc, hcid, hu, -⟩ := QQueue.deliver_some hd
  simp only [State.givesUp, State.live, State.lastTry, Bool.and_eq_true, List.any_eq_true, hu] at hg ⊢
  obtain ⟨⟨hl, x, hx, hdel, hlast⟩, hn⟩ := hg
  refine ⟨⟨hl, x, ?_, hdel, hlast⟩, hn⟩
  rcases List.mem_cons.1 hx with rfl | hx
  · -- the call would be running, and its copy not ready
    simp only [QQueue.isDelivery, Bool.and_eq_true, beq_iff_eq] at hdel
    have hrun : s.running call := by
      refine ⟨fun he => ?_, hdel.1 ▸ List.mem_map_of_mem (f := Prod.fst) hch⟩
      rw [nacks, he] at hn
      cases hn
    exact absurd hrun (h.owned.not_running h.inv.sound hc hcall hdel.2.symm)
  · exact hx

/-- **A timely operation of a call**: no call gives up a processed message after it. -/
theorem Timely.fresh_perform {s : State} (h : Timely s) {i : ℕ} {call : Handling} {o : HOp}
    {k : Except Unit o.Ans → Handler Unit} {c : Outcome} (ht : timely s (.run i c) = true)
    (hi : s.calls[i]? = some call) (hp : call.prog = .await o k)
    (hs : settles o = true → c ≠ .ok → ∀ x ∈ s.chans, x.1 ≠ call.chan) :
    ∀ call' ∈ (s.perform i call o k c).calls, (s.perform i call o k c).givesUp call' = true →
      processed call'.content (o.answer c s.rows).2 = false := by
  have hcall := List.mem_of_getElem? hi
  have hnext : call.prog.next = some o := by rw [hp]; rfl
  obtain ⟨hself, hothers⟩ : ¬ (inTry o = true ∧ s.lastTry call = true ∧
      (o.answer c s.rows).1.isOk = false ∧ processed call.content (o.answer c s.rows).2 = true) ∧
      ∀ call' ∈ s.calls, s.givesUp call' = true → processed call'.content s.rows = false →
        processed call'.content (o.answer c s.rows).2 = false := by
    simp only [timely, hi, hnext, Option.all_some, Bool.and_eq_true, List.all_eq_true] at ht
    refine ⟨fun hn => ?_, fun call' hc hg hn => ?_⟩
    · simp [hn] at ht
    · simpa [hg, hn] using ht.2 call' hc
  have old : ∀ {call' : Handling}, (s.perform i call o k c).givesUp call' = true →
      s.givesUp call' = true := fun hg =>
    givesUp_mono hg (fun x hx => (settle_unacked _ _ o _).subset hx) fun _ hm => hm
  intro call' hc' hg
  rcases List.mem_or_eq_of_mem_set hc' with hc' | rfl
  · exact hothers call' hc' (old hg) (h.fresh call' hc' (old hg))
  · have hg' := old hg
    simp only [State.givesUp, Bool.and_eq_true] at hg'
    obtain ⟨⟨-, hlast⟩, hn⟩ := hg'
    obtain ⟨herr, ho⟩ := nacks_answer (hp ▸ (h.reads call hcall).1) hn
    rcases ho with rfl | htry
    · -- a rejected `ack` has lost its channel, and with it the delivery
      obtain ⟨x, hx, hd⟩ := List.any_eq_true.1 hlast
      simp only [QQueue.isDelivery, Bool.and_eq_true, beq_iff_eq] at hd
      obtain ⟨y, hy, he⟩ := List.mem_map.1 (h.inv.unacked x hx)
      have hok : c ≠ .ok := by rintro rfl; cases herr
      exact absurd (he.trans hd.1.1) (hs rfl hok y hy)
    · by_contra hproc
      exact hself ⟨htry, hlast, herr, by simpa using hproc⟩

/-- **The step lemma.** -/
theorem step_timely {s s' : State} {a : Action} (h : Timely s) (ht : timely s a = true)
    (ha : step s a = some s') : Timely s' := by
  refine ⟨step_inv h.inv ha, step_calls (P := Reads) reads_handleMessage reads_answer h.reads ha,
    step_owned h.owned h.inv (fun call hc => (h.reads call hc).1) ha, ?_⟩
  cases step_cases ha with
  | publish | send | unsend | confirm | reject | close | inject | openChannel =>
    exact fun call hc hg => h.fresh call hc (givesUp_mono hg (fun _ hx => hx) fun _ hm => hm)
  | crash =>
    exact fun call hc hg =>
      h.fresh call hc (givesUp_mono hg (fun _ hx => hx) fun _ hm => List.mem_cons_of_mem _ hm)
  | loseChannel =>
    refine fun call hc hg => h.fresh call hc (givesUp_mono hg (fun x hx => ?_) fun _ hm => hm)
    rw [QQueue.dropChannels_unacked] at hx
    exact List.mem_of_mem_filter hx
  | deliverDead hch _ hd => exact fun call hc hg => h.fresh call hc (h.fresh_deliver hch hd hc hg)
  | deliver hch _ hd =>
    intro call hc hg
    rcases List.mem_append.1 hc with hc | hc
    · exact h.fresh call hc (h.fresh_deliver hch hd hc hg)
    · rw [List.mem_singleton.1 hc, State.givesUp, Bool.and_eq_true] at hg
      exact absurd hg.2 (by simp [nacks_handleMessage])
  | run hi hp _ hs => exact h.fresh_perform ht hi hp hs

/-! ## What a step dead-letters -/

/-- What the step dead-letters is not processed. -/
def Unprocessed (s s' : State) : Prop :=
  ∀ c ∈ s'.broker.dead, c ∉ s.broker.dead → processed c.msg s'.rows = false

theorem processed_unparsed {content : Bytes} (h : Json.parse (ofUtf8 content) = none)
    (rows : List ProcessedEvent) : processed content rows = false := by
  simp [processed, eventOfContent, eventIdValue, h]

/-- A call handles the content of the copy it was started on. -/
theorem Timely.content_eq {s : State} (h : Timely s) {call : Handling} (hcall : call ∈ s.calls)
    {c : Copy Bytes} (hc : (c.cid, c.msg) ∈ s.broker.placed) (he : c.cid = call.cid) :
    c.msg = call.content :=
  h.inv.sound.msg_eq (he ▸ hc) (h.inv.content call hcall)

/-- A delivery that is given back for the last time has an event that is not recorded. -/
theorem Timely.unprocessed_back {s s' : State} {a : Action} (h : Timely s) (ht : timely s a = true)
    (ha : step s a = some s') {x : ℕ × Copy Bytes} (hx : x ∈ s.broker.unacked)
    (hg : s.givesBack a x = true) (hlast : MAX_DELIVERY_ATTEMPTS ≤ x.2.count) :
    processed x.2.msg s'.rows = false := by
  cases step_cases ha with
  | publish | unsend | confirm | reject | close | openChannel | crash | send | inject | deliverDead
  | deliver => cases hg
  | @loseChannel chan =>
    have hall := List.all_eq_true.1 ht x hx
    have hch : x.1 = chan := by simpa [State.givesBack] using hg
    simpa [hch, Nat.not_lt.2 hlast] using hall
  | @run i call o k c hi hp hl _ =>
    have hnext : call.prog.next = some o := by rw [hp]; rfl
    have hcall := List.mem_of_getElem? hi
    simp only [State.givesBack, hi, Option.any_some, hnext] at hg
    cases o with
    | findOne | sideEffect | saveSelect | saveWrite | ack => cases hg
    | nack requeue =>
      cases requeue with
      | false => cases hg
      | true =>
        have hup : s.givesUp call = true := by
          have hlt : s.lastTry call = true :=
            List.any_eq_true.2 ⟨x, hx, by simpa [hlast] using hg⟩
          simp [State.givesUp, State.live, hl, hlt, nacks, hnext]
        have hcid : x.2.cid = call.cid := by
          simp only [QQueue.isDelivery, Bool.and_eq_true, beq_iff_eq] at hg
          exact hg.2
        rw [h.content_eq hcall (QQueue.mem_placed_unacked _ hx) hcid]
        exact h.fresh call hcall hup

/-- **What a timely step dead-letters is not processed.** -/
theorem Timely.unprocessed {s s' : State} {a : Action} (h : Timely s) (ht : timely s a = true)
    (ha : step s a = some s') : Unprocessed s s' := by
  intro c hc hnew
  cases step_moves h.inv.sound ha with
  | same hb => exact absurd (hb ▸ hc) hnew
  | enqueue hb => exact absurd (by rwa [hb] at hc) hnew
  | deliver hd =>
    obtain ⟨c', -, he⟩ := Option.map_eq_some_iff.1 hd
    have hdead : s.broker.dead = s'.broker.dead := congrArg (fun x => x.2.dead) he
    exact absurd (hdead ▸ hc) hnew
  | settle hcall ho hs hd hp =>
    obtain ⟨hno, hcid⟩ := (hd c hc).resolve_left hnew
    have hpl : (c.cid, c.msg) ∈ s.broker.placed :=
      hp.mem_iff.1 (List.mem_map_of_mem (f := Copy.key) ((QQueue.mem_all _).2 (Or.inr (Or.inr (Or.inl hc)))))
    rw [h.content_eq hcall hpl hcid]
    exact processed_unparsed ((h.reads _ hcall).2 hno) _
  | back hg =>
    obtain ⟨x, hx, hgx, hlast, rfl⟩ := ((hg.dead c).1 hc).resolve_left hnew
    exact h.unprocessed_back ht ha hx hgx hlast

/-- **The dead-letter queue gets unprocessed events only**, along runs of timely steps. -/
theorem dead_unprocessed {rows : List ProcessedEvent} {as : List Action} {a : Action} {s s' : State}
    (hc : Along step (fun s a => timely s a = true) (init rows) (as ++ [a]))
    (h : run (init rows) as = some s) (ha : step s a = some s') : Unprocessed s s' := by
  have ht : Timely s :=
    exec_inv_along (fun _ _ _ hi hca ha => step_timely hi hca ha) (timely_init rows)
      (along_append_left hc) h
  exact ht.unprocessed (along_last (C := fun s a => timely s a = true) hc h) ha

/-- Four saves are rejected: the message is dead-lettered, and its event has no row. -/
theorem dead_unprocessed_rejected :
    ∃ s s', run (init []) [.openChannel 0, .publish 0 sampleEvent, .send 0, .deliver 0 0, .run 0 .ok,
      .run 0 .ok, .run 0 .fail, .run 0 .ok, .deliver 0 0, .run 1 .ok, .run 1 .ok, .run 1 .fail,
      .run 1 .ok, .deliver 0 0, .run 2 .ok, .run 2 .ok, .run 2 .fail, .run 2 .ok, .deliver 0 0,
      .run 3 .ok, .run 3 .ok, .run 3 .fail] = some s ∧ step s (.run 3 .ok) = some s' ∧
      s'.broker.dead.length = 1 ∧ Unprocessed s s' := by
  obtain ⟨s, h, hs⟩ := Option.bind_eq_some_iff.1 (by decide +kernel : ((run (init []) [.openChannel 0,
    .publish 0 sampleEvent, .send 0, .deliver 0 0, .run 0 .ok, .run 0 .ok, .run 0 .fail, .run 0 .ok,
    .deliver 0 0, .run 1 .ok, .run 1 .ok, .run 1 .fail, .run 1 .ok, .deliver 0 0, .run 2 .ok,
    .run 2 .ok, .run 2 .fail, .run 2 .ok, .deliver 0 0, .run 3 .ok, .run 3 .ok, .run 3 .fail]).bind
    fun s => (step s (.run 3 .ok)).map fun s' => s'.broker.dead.length) = some 1)
  obtain ⟨s', ha, hd⟩ := Option.map_eq_some_iff.1 hs
  exact ⟨s, s', h, ha, hd, dead_unprocessed (by decide +kernel) h ha⟩

/-- Three saves are rejected; the fourth commits, but its reply is lost. -/
theorem dead_processed :
    ∃ s s', run (init []) [.openChannel 0, .publish 0 sampleEvent, .send 0, .deliver 0 0, .run 0 .ok,
      .run 0 .ok, .run 0 .fail, .run 0 .ok, .deliver 0 0, .run 1 .ok, .run 1 .ok, .run 1 .fail,
      .run 1 .ok, .deliver 0 0, .run 2 .ok, .run 2 .ok, .run 2 .fail, .run 2 .ok, .deliver 0 0,
      .run 3 .ok, .run 3 .ok, .run 3 .ok, .run 3 .lost] = some s ∧ step s (.run 3 .ok) = some s' ∧
      ¬ Unprocessed s s' := by
  obtain ⟨s, h, hs⟩ := Option.bind_eq_some_iff.1 (by decide +kernel : ((run (init []) [.openChannel 0,
    .publish 0 sampleEvent, .send 0, .deliver 0 0, .run 0 .ok, .run 0 .ok, .run 0 .fail, .run 0 .ok,
    .deliver 0 0, .run 1 .ok, .run 1 .ok, .run 1 .fail, .run 1 .ok, .deliver 0 0, .run 2 .ok,
    .run 2 .ok, .run 2 .fail, .run 2 .ok, .deliver 0 0, .run 3 .ok, .run 3 .ok, .run 3 .ok,
    .run 3 .lost]).bind fun s => (step s (.run 3 .ok)).map fun s' =>
      (s.broker.dead.length, s'.broker.dead.map fun c => processed c.msg s'.rows)) = some (0, [true]))
  obtain ⟨s', ha, hd⟩ := Option.map_eq_some_iff.1 hs
  obtain ⟨hd0, hd1⟩ := Prod.mk.inj hd
  refine ⟨s, s', h, ha, fun hu => ?_⟩
  have hm : true ∈ s'.broker.dead.map fun c => processed c.msg s'.rows := by rw [hd1]; simp
  obtain ⟨c, hc, hp⟩ := List.mem_map.1 hm
  have hnew : c ∉ s.broker.dead := by simp [List.eq_nil_of_length_eq_zero hd0]
  rw [hu c hc hnew] at hp
  cases hp

end SystemDesign.Queue
