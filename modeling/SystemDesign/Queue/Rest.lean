/-
  Where the consumers come to rest.

  At rest no calm step of a consumer is possible.  Then no delivery is outstanding, for each is `Held` by a
  call that has not settled it; and if an instance is up, nothing is ready: every message was acked or
  dead-lettered (`Drained`).

  `Fine` states keep their instances up as long as every lookup succeeds, and then each event on its way
  (`Tracked`) gets recorded (`drains`).
-/
import SystemDesign.Queue.Drain
import SystemDesign.Queue.Settle

namespace SystemDesign.Queue

open Lib

variable {s s' : State} {a : Action}

/-! ## Deliveries and their calls -/

/-- The call returned. -/
def returned : Handler Unit → Bool
  | .ret _ => true
  | _ => false

theorem returned_handleMessage (content : Bytes) : returned (handleMessage (some content)) = false := by
  have hb := handleMessage_begins content
  generalize handleMessage (some content) = p at hb ⊢
  cases hb with
  | unparsed | thrown | finding => rfl

theorem returned_code {payload : Json} {v w : JsValue} (hm : Members payload v w) {ph : Phase}
    (h : ph ≠ .done) : returned (ph.code payload v w) = false := by
  cases ho : ph.op payload v w with
  | some o => rw [code_of_op hm ho]; rfl
  | none =>
    cases ph with
    | done => exact absurd rfl h
    | failed => rfl
    | finding | entering | selecting | writing | acking | nacking => cases ho

/-- **A call does not return before it settles its message.** -/
theorem returned_answer {content : Bytes} {o : HOp} {k : Except Unit o.Ans → Handler Unit}
    (h : Stands content (.await o k)) (hs : settles o = false) (a : Except Unit o.Ans) :
    returned (k a) = false := by
  rcases h with ⟨payload, v, w, ph, -, hm, he⟩ | he | he
  · obtain ⟨ho, hk⟩ := code_answer hm he.symm
    rw [hk]
    refine returned_code hm ?_
    cases ph with
    | finding =>
      cases ho
      rcases a with e | (_ | r) <;> nofun
    | entering | selecting | writing =>
      cases ho
      rcases a with e | r <;> nofun
    | acking | nacking => cases ho; cases hs
    | done | failed => cases ho
  · cases he
    cases hs
  · cases he

/-- Every delivery to an instance that is up has a call that did not return. -/
def Held (s : State) : Prop :=
  ∀ x ∈ s.broker.unacked, ∀ inst, (x.1, inst) ∈ s.chans → inst ∉ s.crashed →
    ∃ (i : ℕ) (call : Handling), s.calls[i]? = some call ∧ call.inst = inst ∧ call.chan = x.1 ∧
      call.cid = x.2.cid ∧ returned call.prog = false

/-- Fewer deliveries, fewer channels and more crashes leave no delivery without its call. -/
theorem Held.mono (h : Held s) (h1 : ∀ x ∈ s'.broker.unacked, x ∈ s.broker.unacked)
    (h2 : ∀ x ∈ s'.broker.unacked, ∀ inst, (x.1, inst) ∈ s'.chans → (x.1, inst) ∈ s.chans)
    (h3 : s.crashed ⊆ s'.crashed) (h4 : s'.calls = s.calls) : Held s' := by
  intro x hx inst hch hup
  rw [h4]
  exact h x (h1 x hx) inst (h2 x hx inst hch) fun hi => hup (h3 hi)

/-- A settling that takes effect leaves no delivery of its call. -/
theorem not_isDelivery_settle {q : QQueue Bytes} (hs : q.Sound) {chan cid : ℕ} {o : HOp} (ho : settles o = true)
    {x : ℕ × Copy Bytes} (hx : x ∈ (settle chan cid o q).unacked) : ¬ QQueue.isDelivery chan cid x = true := by
  cases o with
  | findOne | sideEffect | saveSelect | saveWrite => cases ho
  | ack => exact (((hs.settles_ack chan cid).1.unacked x).1 hx).2
  | nack requeue =>
    cases requeue with
    | true => exact (((hs.givesBack_nack _ chan cid).unacked x).1 hx).2
    | false => exact (((hs.settles_nack _ chan cid).1.unacked x).1 hx).2

theorem Held.perform (h : Held s) (hinv : Inv s) {i : ℕ} {call : Handling} {o : HOp}
    {k : Except Unit o.Ans → Handler Unit} {c : Outcome} (hi : s.calls[i]? = some call)
    (hp : call.prog = .await o k) (hst : Stands call.content call.prog) : Held (s.perform i call o k c) := by
  intro x hx inst hch hup
  obtain ⟨j, call', hj, rfl, hchan, hcid, hret⟩ :=
    h x ((settle_unacked _ _ o _).subset hx) inst hch hup
  by_cases hji : j = i
  · subst hji
    obtain rfl : call = call' := Option.some.inj (hi.symm.trans hj)
    -- the delivery is outstanding, so its call did not settle it
    have hno : settles o = false := by
      by_contra hset
      refine not_isDelivery_settle hinv.sound (by simpa using hset) hx ?_
      simp [QQueue.isDelivery, hchan, hcid]
    have hlt := (List.getElem?_eq_some_iff.1 hi).1
    exact ⟨j, _, List.getElem?_set_self hlt, rfl, hchan, hcid, returned_answer (hp ▸ hst) hno _⟩
  · exact ⟨j, call', (List.getElem?_set_ne (Ne.symm hji)).trans hj, rfl, hchan, hcid, hret⟩

/-- **The step lemma.** -/
theorem step_held (h : Held s) (hi : Orderly s) (ha : step s a = some s') : Held s' := by
  have hinv := hi.inv
  cases step_cases ha with
  | publish | send | unsend | confirm | reject | close | inject =>
    exact h.mono (fun _ hx => hx) (fun _ _ _ hch => hch) (List.Subset.refl _) rfl
  | crash => exact h.mono (fun _ hx => hx) (fun _ _ _ hch => hch) (List.subset_cons_self _ _) rfl
  | openChannel =>
    refine h.mono (fun _ hx => hx) (fun x hx inst hch => ?_) (List.Subset.refl _) rfl
    rcases List.mem_cons.1 hch with he | hch
    · -- the new channel has no deliveries
      obtain ⟨y, hy, hye⟩ := List.mem_map.1 (hinv.unacked x hx)
      have hlt := hinv.chan_lt y hy
      rw [hye, congrArg Prod.fst he] at hlt
      exact absurd hlt (Nat.lt_irrefl _)
    · exact hch
  | @deliverDead chan cid inst c b hch hdead hd =>
    obtain ⟨-, -, hu, -⟩ := QQueue.deliver_some hd
    intro x hx inst' hch' hup
    rcases List.mem_cons.1 (hu ▸ hx) with rfl | hx
    · have hsame : (chan, inst') = (chan, inst) := List.inj_on_of_nodup_map hinv.chan_nodup hch' hch rfl
      exact absurd ((Prod.mk.inj hsame).2 ▸ hdead) hup
    · exact h x hx inst' hch' hup
  | @deliver chan cid inst c b hch hup' hd =>
    obtain ⟨-, hcid, hu, -⟩ := QQueue.deliver_some hd
    intro x hx inst' hch' hup
    rcases List.mem_cons.1 (hu ▸ hx) with rfl | hx
    · have hsame : (chan, inst') = (chan, inst) := List.inj_on_of_nodup_map hinv.chan_nodup hch' hch rfl
      obtain rfl := (Prod.mk.inj hsame).2
      refine ⟨s.calls.length, ⟨inst', chan, cid, c.msg, handleMessage (some c.msg)⟩, ?_, rfl, rfl,
        hcid.symm, returned_handleMessage _⟩
      simp
    · obtain ⟨j, call, hj, rest⟩ := h x hx inst' hch' hup
      exact ⟨j, call, getElem?_snoc hj, rest⟩
  | run hget hp => exact h.perform hinv hget hp (hi.reads _ (List.mem_of_getElem? hget)).1
  | @loseChannel chan =>
    refine h.mono (fun x hx => ?_) (fun x hx inst hch => (List.mem_filter.1 hch).1) (List.Subset.refl _) rfl
    rw [QQueue.dropChannels_unacked] at hx
    exact (List.mem_filter.1 hx).1

/-- What holds in every reachable state. -/
structure Steady (s : State) : Prop extends Orderly s where
  held : Held s

theorem step_steady (h : Steady s) (ha : step s a = some s') : Steady s' :=
  ⟨step_orderly h.toOrderly ha, step_held h.held h.toOrderly ha⟩

/-- No calm step of a consumer is possible. -/
abbrev AtRest : State → Prop := Quiet step Settling

/-- **At rest nothing is ready**, if some instance is up. -/
theorem AtRest.ready (h : AtRest s) (hup : s.up) : s.broker.ready = [] := by
  obtain ⟨x, hx, hi⟩ := hup
  by_contra hne
  obtain ⟨c, hc⟩ := List.exists_mem_of_ne_nil _ hne
  have hcalm : calm s (.deliver x.1 c.cid) = true := List.any_eq_true.2 ⟨x, hx, by simpa using hi⟩
  have hno := h (.deliver x.1 c.cid) ⟨hcalm, rfl⟩
  simp only [step, Option.bind_eq_none_iff, Option.map_eq_none_iff, QQueue.deliver,
    List.find?_eq_none] at hno
  have hfind : (s.chans.find? (·.1 == x.1)).isSome = true :=
    List.find?_isSome.2 ⟨x, hx, by simp⟩
  obtain ⟨y, hy⟩ := Option.isSome_iff_exists.1 hfind
  exact hno y hy c hc (beq_self_eq_true c.cid)

/-- At rest every channel is that of an instance that is up. -/
theorem AtRest.chans (h : AtRest s) {x : ℕ × ℕ} (hx : x ∈ s.chans) : x.2 ∉ s.crashed := by
  intro hd
  have hcalm : calm s (.loseChannel x.1) = true := List.any_eq_true.2 ⟨x, hx, by simpa using hd⟩
  exact absurd (h _ ⟨hcalm, rfl⟩) (Option.some_ne_none _)

/-- At rest every call on an instance that is up has ended. -/
theorem AtRest.ended (h : AtRest s) {i : ℕ} {call : Handling} (hi : s.calls[i]? = some call)
    (hup : call.inst ∉ s.crashed) : call.prog.next = none := by
  cases hp : call.prog with
  | ret | throw => rfl
  | await o k =>
    have hcalm : calm s (.run i (s.ends call o)) = true := by simp [calm, hi, hp, Async.next]
    have hno := h _ ⟨hcalm, rfl⟩
    rw [step, hi, Option.bind_some, hp] at hno
    dsimp only at hno
    split_ifs at hno with hfail
    -- an operation on an open channel does not fail
    obtain hdead | ⟨-, hne, hopen⟩ := hfail
    · exact absurd hdead hup
    · exact absurd (ends_of_open hopen o) hne

/-- **At rest every call on an instance that is up has returned.** -/
theorem AtRest.returned (h : AtRest s) {i : ℕ} {call : Handling} (hi : s.calls[i]? = some call)
    (hup : call.inst ∉ s.crashed) : returned call.prog = true := by
  have hend := h.ended hi hup
  cases hp : call.prog with
  | ret => rfl
  | await o k =>
    rw [hp] at hend
    cases hend
  | throw e =>
    have hdying : s.dying call.inst = true :=
      dying_iff.2 ⟨hup, call, List.mem_of_getElem? hi, rfl, by rw [hp]; rfl⟩
    exact absurd (h (.crash call.inst) ⟨hdying, rfl⟩) (Option.some_ne_none _)

/-- **At rest no delivery is outstanding.** -/
theorem AtRest.unacked (h : AtRest s) (hs : Steady s) : s.broker.unacked = [] := by
  refine List.eq_nil_iff_forall_not_mem.2 fun x hx => ?_
  obtain ⟨⟨chan, inst⟩, hch, hfst⟩ := List.mem_map.1 (hs.inv.unacked x hx)
  obtain rfl : chan = x.1 := hfst
  have hup := h.chans hch
  obtain ⟨i, call, hi, rfl, -, -, hret⟩ := hs.held x hx inst hch hup
  rw [h.returned hi hup] at hret
  cases hret

/-- What the consumers leave behind. -/
structure Drained (s : State) : Prop where
  /-- Every delivery was settled, or given back. -/
  unacked : s.broker.unacked = []
  ready : s.up → s.broker.ready = []
  /-- Every message that ever was in the queue is acked or dead-lettered. -/
  settled : s.up → ∀ x ∈ s.broker.placed, s.broker.Settled x.1
  recorded : s.up → ∀ (e : Event) (cid : ℕ), (cid, e.content) ∈ s.broker.placed →
    Recorded e.eventId s.rows ∨ ∃ c ∈ s.broker.dead, c.cid = cid

theorem AtRest.drained (h : AtRest s) (hs : Steady s) : Drained s where
  unacked := h.unacked hs
  ready := h.ready
  settled hup x hx := QQueue.settled_of_placed hx (h.ready hup) (h.unacked hs)
  recorded hup e cid hx := by
    obtain ⟨c, hc | hc, rfl⟩ := QQueue.settled_of_placed hx (h.ready hup) (h.unacked hs)
    · exact Or.inr ⟨c, hc, rfl⟩
    · have hmsg : c.msg = e.content :=
        hs.inv.sound.msg_eq (List.mem_map.2 ⟨c, by simp [hc], rfl⟩) hx
      exact Or.inl (recorded_of_justified (hmsg ▸ hs.inv.acked c hc (hmsg ▸ not_lacksId e)))

/-! ## Instances that stay up -/

/-- No rejection escaped a call on an instance that is up, and those that go on have their channel. -/
def Fine (s : State) : Prop :=
  ∀ call ∈ s.calls, call.inst ∉ s.crashed →
    escaped call.prog = false ∧ (call.prog.next ≠ none → (call.chan, call.inst) ∈ s.chans)

theorem Fine.not_dying (h : Fine s) (inst : ℕ) : s.dying inst = false := by
  by_contra hd
  obtain ⟨hup, call, hcall, rfl, he⟩ := dying_iff.1 (by simpa using hd)
  rw [(h call hcall hup).1] at he
  cases he

theorem not_escaped_of_next {p : Handler Unit} (h : p.next ≠ none) : escaped p = false := by
  cases p with
  | throw => exact absurd rfl h
  | ret | await => rfl

/-- Every call of a message whose lookup succeeds has something to do at first. -/
theorem next_handleMessage {content : Bytes} (hl : LooksUp content .ok) :
    (handleMessage (some content)).next ≠ none := by
  have hb := handleMessage_begins content
  generalize handleMessage (some content) = p at hb ⊢
  cases hb with
  | unparsed | finding => nofun
  | thrown hp hv =>
    rcases hl with hn | ⟨v, he, -⟩
    · rw [hp] at hn
      cases hn
    · rw [eventIdValue, hp, Option.bind_some, hv] at he
      cases he

/-- **Nothing escapes a call whose lookup and settling succeed.** -/
theorem escaped_answer {content : Bytes} (hl : LooksUp content .ok) {o : HOp}
    {k : Except Unit o.Ans → Handler Unit} (h : Stands content (.await o k)) (rows : List ProcessedEvent) :
    escaped (k (o.answer .ok rows).1) = false := by
  rcases h with ⟨payload, v, w, ph, hpar, hm, he⟩ | he | he
  · obtain ⟨ho, hk⟩ := code_answer hm he.symm
    rw [hk]
    cases ph with
    | acking inTry => cases ho; cases inTry <;> rfl
    | nacking => cases ho; rfl
    | done | failed => cases ho
    | entering =>
      cases ho
      refine not_escaped_of_next ?_
      rw [next_code hm]
      exact Option.some_ne_none _
    | selecting | writing =>
      cases ho
      refine not_escaped_of_next ?_
      rw [next_code hm]
      rcases (HOp.answer _ .ok rows).1 with e | r <;> exact Option.some_ne_none _
    | finding =>
      cases ho
      rcases hl with hn | ⟨v', hv, hw, -⟩
      · rw [hpar] at hn
        cases hn
      · obtain rfl : v = v' := Option.some.inj ((eventIdValue_eq hpar hm).symm.trans hv)
        obtain ⟨u, hu⟩ := Option.isSome_iff_exists.1 hw
        refine not_escaped_of_next ?_
        rw [next_code hm]
        simp only [HOp.answer, Outcome.isOk, if_true, findOne, hu]
        cases rows.find? fun r => u.holds r.eventId <;> exact Option.some_ne_none _
  · cases he
    rfl
  · cases he

/-- **A calm step keeps the instances up**, where every message has a lookup that succeeds. -/
theorem step_fine (h : Fine s) (hi : Orderly s) (hc : calm s a = true) (ha : step s a = some s')
    (hl : ∀ x ∈ s.broker.placed, LooksUp x.2 .ok) : Fine s' := by
  have hinv := hi.inv
  cases step_cases ha with
  | publish | send | unsend | confirm | reject | close | inject | deliverDead => exact h
  | openChannel =>
    intro call hcall hup
    obtain ⟨he, hch⟩ := h call hcall hup
    exact ⟨he, fun hn => List.mem_cons_of_mem _ (hch hn)⟩
  | crash =>
    rw [calm, h.not_dying] at hc
    cases hc
  | @deliver chan cid inst c b hch hup hd =>
    intro call hcall hup'
    rcases List.mem_append.1 hcall with hcall | hcall
    · exact h call hcall hup'
    · rw [List.mem_singleton.1 hcall]
      have hlook : LooksUp c.msg .ok := hl _ (QQueue.mem_placed_ready _ (QQueue.deliver_some hd).1)
      exact ⟨not_escaped_of_next (next_handleMessage hlook), fun _ => hch⟩
  | @run i call o k c hget hp hup =>
    intro call' hcall hup'
    rcases List.mem_or_eq_of_mem_set hcall with hcall | rfl
    · exact h call' hcall hup'
    · have hmem := List.mem_of_getElem? hget
      have hnext : call.prog.next ≠ none := by
        rw [hp]
        exact Option.some_ne_none _
      have hch : (call.chan, call.inst) ∈ s.chans := (h call hmem hup).2 hnext
      have hopen : s.isOpen call.chan = true := isOpen_iff.2 (List.mem_map_of_mem (f := Prod.fst) hch)
      obtain rfl : c = .ok := (calm_run hc hget hp).trans (ends_of_open hopen o)
      exact ⟨escaped_answer (hl _ (hinv.content call hmem)) (hp ▸ (hi.reads call hmem).1) s.rows, fun _ => hch⟩
  | @loseChannel chan =>
    intro call hcall hup
    obtain ⟨he, hch⟩ := h call hcall hup
    refine ⟨he, fun hn => List.mem_filter.2 ⟨hch hn, ?_⟩⟩
    have hne : call.chan ≠ chan := by
      rintro rfl
      exact hup (calm_loseChannel hinv hc (hch hn))
    simpa using hne

/-- Such a step takes no channel from an instance that is up. -/
theorem calm_chans (h : Inv s) (hf : Fine s) (hc : calm s a = true) (ha : step s a = some s') {x : ℕ × ℕ}
    (hx : x ∈ s.chans) (hup : x.2 ∉ s.crashed) : x ∈ s'.chans ∧ x.2 ∉ s'.crashed := by
  cases step_cases ha with
  | publish | unsend | confirm | reject | close | send | inject | deliverDead | deliver | run =>
    exact ⟨hx, hup⟩
  | openChannel => exact ⟨List.mem_cons_of_mem _ hx, hup⟩
  | crash =>
    rw [calm, hf.not_dying] at hc
    cases hc
  | @loseChannel chan =>
    refine ⟨List.mem_filter.2 ⟨hx, ?_⟩, hup⟩
    have hne : x.1 ≠ chan := by
      rintro rfl
      exact hup (calm_loseChannel h hc hx)
    simpa using hne

/-! ## Recording -/

theorem members_event (e : Event) :
    Members e.json (some (.str e.eventId.toText)) (some (.str (js "task.created"))) where
  eventId := e.get_eventId
  eventType := by simp [Event.json, Event.payload, Json.get, Json.ofStrings, js, units]

/-- The call for the event is in a phase before its record, where no row was loaded. -/
def Recording (e : Event) (p : Handler Unit) : Prop :=
  ∃ ph, (ph = .finding ∨ ph = .entering ∨ ph = .selecting ∨ ph = .writing false) ∧
    p = Phase.code e.json (some (.str e.eventId.toText)) (some (.str (js "task.created"))) ph

theorem recording_handleMessage (e : Event) : Recording e (handleMessage (some e.content)) := by
  refine ⟨.finding, Or.inl rfl, ?_⟩
  rw [handleMessage_parsed e.parse_content, handlePayload_eq (members_event e)]

theorem next_of_recording {e : Event} {p : Handler Unit} (h : Recording e p) : p.next ≠ none := by
  obtain ⟨ph, hph, rfl⟩ := h
  rw [next_code (members_event e)]
  rcases hph with rfl | rfl | rfl | rfl <;> exact Option.some_ne_none _

/-- **An operation that succeeds finds the event recorded, records it or goes on to its record.** -/
theorem recording_answer {e : Event} {o : HOp} {k : Except Unit o.Ans → Handler Unit}
    (h : Recording e (.await o k)) (rows : List ProcessedEvent) :
    Recorded e.eventId (o.answer .ok rows).2 ∨ Recording e (k (o.answer .ok rows).1) := by
  obtain ⟨ph, hph, hcode⟩ := h
  obtain ⟨ho, hk⟩ := code_answer (members_event e) hcode.symm
  have huuid : uuidOf (some (.str e.eventId.toText)) = some e.eventId := Uuid.ofText_toText _
  rcases hph with rfl | rfl | rfl | rfl
  · cases ho
    rw [hk]
    rcases hf : findOne (some (.str e.eventId.toText)) rows with err | (_ | r)
    · rw [findOne, whereUuid_of_not_nullish rfl, huuid] at hf
      cases hf
    · refine Or.inr ⟨.entering, Or.inr (Or.inl rfl), ?_⟩
      simp only [HOp.answer, Outcome.isOk, if_true, hf]
      rfl
    · obtain ⟨u, hu, hr⟩ := recorded_of_findOne rfl hf
      rw [huuid] at hu
      cases hu
      exact Or.inl hr
  · cases ho
    exact Or.inr ⟨.selecting, Or.inr (Or.inr (Or.inl rfl)), hk _⟩
  · cases ho
    rw [hk]
    obtain ⟨found, hs⟩ := saveSelect_ok huuid rows
    cases found with
    | true =>
      obtain ⟨u, hu, hr⟩ := recorded_of_select hs
      rw [huuid] at hu
      cases hu
      exact Or.inl hr
    | false =>
      refine Or.inr ⟨.writing false, Or.inr (Or.inr (Or.inr rfl)), ?_⟩
      simp only [HOp.answer, Outcome.isOk, if_true, hs]
      rfl
  · cases ho
    left
    by_cases hr : Recorded e.eventId rows
    · exact hr.keeps (answer_keeps _ _ rows)
    · have hno : rows.any (·.eventId == e.eventId) = false := by
        simpa [Recorded] using hr
      have htype : hasNul (.str (js "task.created")) = false := by decide
      simp only [HOp.answer, saveWrite, insertEvent, huuid, hno, htype, Bool.or_self, Bool.false_eq_true,
        if_false, Outcome.lands, if_true]
      exact ⟨_, List.mem_cons_self, rfl⟩

/-- The event is recorded, its copy `cid` waits, or a call on an instance that is up is about to record it. -/
def Tracked (e : Event) (cid : ℕ) (s : State) : Prop :=
  Recorded e.eventId s.rows ∨ s.broker.Waiting cid ∨
    ∃ (i : ℕ) (call : Handling), s.calls[i]? = some call ∧ call.inst ∉ s.crashed ∧ Recording e call.prog

variable {e : Event} {cid : ℕ}

/-- **A copy that waits goes on waiting, or is delivered to an instance that is up.** -/
theorem tracked_waiting (h : Inv s) (hf : Fine s) (hc : calm s a = true) (ha : step s a = some s')
    (hm : (cid, e.content) ∈ s.broker.placed) (hw : s.broker.Waiting cid) : Tracked e cid s' := by
  obtain ⟨x, hx, rfl⟩ := hw
  have stays : x ∈ s'.broker.ready → Tracked e x.cid s' := fun hx' => Or.inr (Or.inl ⟨x, hx', rfl⟩)
  cases step_cases ha with
  | publish | unsend | confirm | reject | close | openChannel => exact stays hx
  | crash =>
    rw [calm, hf.not_dying] at hc
    cases hc
  | send | inject => exact stays (List.mem_append_left _ hx)
  | deliverDead hch hi => exact absurd hi (calm_deliver h hc hch)
  | @deliver chan k inst c b hch hi hd =>
    by_cases hk : x.cid = k
    · subst hk
      obtain ⟨hcr, hcid, -⟩ := QQueue.deliver_some hd
      obtain rfl : c = x := h.sound.eq_of_cid ((QQueue.mem_all _).2 (Or.inl hcr))
        ((QQueue.mem_all _).2 (Or.inl hx)) hcid
      have hmsg : c.msg = e.content := h.sound.msg_eq (QQueue.mem_placed_ready _ hcr) hm
      refine Or.inr (Or.inr ⟨s.calls.length, ⟨inst, chan, c.cid, c.msg, handleMessage (some c.msg)⟩,
        ?_, hi, ?_⟩)
      · simp
      · rw [hmsg]
        exact recording_handleMessage e
    · refine stays ?_
      obtain ⟨c', -, he⟩ := Option.map_eq_some_iff.1 hd
      cases he
      exact (List.mem_eraseP_of_neg (by simpa using hk)).2 hx
  | @run i call o k c =>
    refine stays ?_
    cases o with
    | findOne | sideEffect | saveSelect | saveWrite => exact hx
    | ack => exact (h.sound.settles_ack call.chan call.cid).1.ready ▸ hx
    | nack requeue =>
      cases requeue with
      | false => exact (h.sound.settles_nack _ call.chan call.cid).1.ready ▸ hx
      | true => exact ((h.sound.givesBack_nack _ call.chan call.cid).ready x).2 (Or.inl hx)
  | loseChannel => exact stays (((QQueue.givesBack_dropChannels ..).ready x).2 (Or.inl hx))

/-- **A queued event stays on its way to be recorded.** -/
theorem step_tracked (ht : Tracked e cid s) (h : Inv s) (hf : Fine s) (hc : calm s a = true)
    (ha : step s a = some s') (hm : (cid, e.content) ∈ s.broker.placed) : Tracked e cid s' := by
  rcases ht with hr | hw | ⟨i, call, hget, hup, hrec⟩
  · exact Or.inl (hr.keeps (step_grows ha).2)
  · exact tracked_waiting h hf hc ha hm hw
  have stays : s'.calls[i]? = some call → call.inst ∉ s'.crashed → Tracked e cid s' :=
    fun hget' hup' => Or.inr (Or.inr ⟨i, call, hget', hup', hrec⟩)
  cases step_cases ha with
  | publish | unsend | confirm | reject | close | send | inject | openChannel | deliverDead | loseChannel =>
    exact stays hget hup
  | deliver => exact stays (getElem?_snoc hget) hup
  | crash =>
    rw [calm, hf.not_dying] at hc
    cases hc
  | @run j call' o k c hj hp =>
    by_cases hij : j = i
    · subst hij
      obtain rfl : call = call' := Option.some.inj (hget.symm.trans hj)
      have hch := (hf call (List.mem_of_getElem? hget) hup).2 (next_of_recording hrec)
      have hopen : s.isOpen call.chan = true := isOpen_iff.2 (List.mem_map_of_mem (f := Prod.fst) hch)
      obtain rfl : c = .ok := (calm_run hc hget hp).trans (ends_of_open hopen o)
      rcases recording_answer (hp ▸ hrec) s.rows with hr | hrec'
      · exact Or.inl hr
      · have hlt := (List.getElem?_eq_some_iff.1 hget).1
        exact Or.inr (Or.inr ⟨j, _, List.getElem?_set_self hlt, hup, hrec'⟩)
    · exact stays ((List.getElem?_set_ne hij).trans hget) hup

/-- At rest an event that was tracked is recorded. -/
theorem AtRest.recorded (h : AtRest s) (hup : s.up) (ht : Tracked e cid s) : Recorded e.eventId s.rows := by
  rcases ht with hr | ⟨c, hc, -⟩ | ⟨i, call, hget, hi, hrec⟩
  · exact hr
  · rw [h.ready hup] at hc
    cases hc
  · exact absurd (h.ended hget hi) (next_of_recording hrec)

/-! ## The queue drains -/

/-- What a calm run keeps where all lookups succeed: the instances, and the events that were ready. -/
structure Undisturbed (s₀ s : State) : Prop where
  steady : Steady s
  fine : Fine s
  up : s₀.up → s.up
  placed : ∀ c ∈ s₀.broker.ready, (c.cid, c.msg) ∈ s.broker.placed
  tracked : ∀ c ∈ s₀.broker.ready, ∀ e : Event, c.msg = e.content → Tracked e c.cid s

theorem Undisturbed.step {s₀ : State} (h : Undisturbed s₀ s) (hc : calm s a = true) (ha : step s a = some s')
    (hl : ∀ x ∈ s.broker.placed, LooksUp x.2 .ok) : Undisturbed s₀ s' where
  steady := step_steady h.steady ha
  fine := step_fine h.fine h.steady.toOrderly hc ha hl
  up hup := by
    obtain ⟨x, hx, hi⟩ := h.up hup
    exact ⟨x, calm_chans h.steady.inv h.fine hc ha hx hi⟩
  placed c hmem := (step_grows ha).1 _ (h.placed c hmem)
  tracked c hmem e he :=
    step_tracked (h.tracked c hmem e he) h.steady.inv h.fine hc ha (he ▸ h.placed c hmem)

/-- The message `null` takes down one instance after the other, by calm steps alone, and stays. -/
example :
    let as : List Action := [.openChannel 0, .openChannel 1, .inject [0x6E, 0x75, 0x6C, 0x6C], .deliver 0 0,
      .crash 0, .loseChannel 0, .deliver 1 0, .crash 1, .loseChannel 1]
    Along step (fun s a => calm s a = true) (init []) as ∧
      (run (init []) as).map (fun s => (s.broker.ready.map Copy.cid, s.chans)) = some ([0], []) := by
  decide +kernel

end SystemDesign.Queue
