/-
  How often a message is tried.

  The broker dead-letters a copy when it is given back for the fourth time: `x-delivery-limit`
  counts redeliveries, so `handleMessage` can be started once more than `MAX_DELIVERY_ATTEMPTS`
  times (`starts_le`), and a copy whose third try failed is in the queue again.

  `Moves` lists what a step does to the copies; `bounded_iff` says along which runs three tries
  are the limit.
-/
import SystemDesign.Lib.Redelivery
import SystemDesign.Queue.NoLoss

namespace SystemDesign.Queue

open Lib

/-- How many times `handleMessage` was started on the copy. -/
def State.starts (s : State) (cid : ℕ) : ℕ := (s.calls.map (·.cid)).count cid

/-- The action gives the delivery `x` back to the queue. -/
def State.givesBack (s : State) : Action → ℕ × Copy Bytes → Bool
  | .run i _, x => s.calls[i]?.any fun call =>
    match call.prog.next with
    | some (.nack true) => QQueue.isDelivery call.chan call.cid x
    | _ => false
  | .loseChannel chan, x => x.1 == chan
  | _, _ => false

/-! ## What a step does to the copies -/

/-- The ways a step moves copies, and counts the starts of `handleMessage`. -/
inductive Moves (s : State) (a : Action) (s' : State) : Prop
  | same (hb : s'.broker = s.broker) (hn : s'.starts = s.starts)
  | enqueue {m} (hb : s'.broker = s.broker.enqueue m) (hn : s'.starts = s.starts)
  | deliver {chan cid c} (hd : s.broker.deliver chan cid = some (c, s'.broker))
    (hn : s'.starts = s.starts ∨ s'.starts = fun k => s.starts k + if k = cid then 1 else 0)
  | settle {call} (hc : call ∈ s.calls) (ho : call.prog.next = some .ack ∨ call.prog.next = some (.nack false))
    (hs : QQueue.Settles (fun x => QQueue.isDelivery call.chan call.cid x = true) s.broker s'.broker)
    (hd : ∀ c ∈ s'.broker.dead, c ∈ s.broker.dead ∨ call.prog.next = some (.nack false) ∧ c.cid = call.cid)
    (hp : s'.broker.placed.Perm s.broker.placed) (hn : s'.starts = s.starts)
  | back (hg : QQueue.GivesBack MAX_DELIVERY_ATTEMPTS (fun x => s.givesBack a x = true) s.broker s'.broker)
    (hp : s'.broker.placed.Perm s.broker.placed) (hn : s'.starts = s.starts)

theorem starts_perform (s : State) {i : ℕ} {call : Handling} {o : HOp}
    {k : Except Unit o.Ans → Handler Unit} (hi : s.calls[i]? = some call) (c : Outcome) :
    (s.perform i call o k c).starts = s.starts := by
  funext cid
  exact congrArg (List.count cid) (map_set_eq hi rfl)

/-- **The copies of a step.** -/
theorem step_moves {s s' : State} {a : Action} (hs : s.broker.Sound) (ha : step s a = some s') :
    Moves s a s' := by
  cases step_cases ha with
  | publish | unsend | confirm | reject | close | openChannel | crash => exact .same rfl rfl
  | send | inject => exact .enqueue rfl rfl
  | deliverDead _ _ hd => exact .deliver hd (Or.inl rfl)
  | @deliver chan cid inst c b _ _ hd =>
    refine .deliver hd (Or.inr (funext fun k => ?_))
    simp only [State.starts, List.map_append, List.count_append, List.map_cons, List.map_nil,
      List.count_singleton, beq_iff_eq, @eq_comm ℕ k cid]
  | @run i call o k c hi hp _ _ =>
    have hn := starts_perform s hi (k := k) c
    have hnext : call.prog.next = some o := by rw [hp]; rfl
    have hperm := placed_settle call.chan call.cid o s.broker
    cases o with
    | findOne | sideEffect | saveSelect | saveWrite => exact .same rfl hn
    | ack =>
      obtain ⟨h1, h2⟩ := hs.settles_ack call.chan call.cid
      exact .settle (List.mem_of_getElem? hi) (Or.inl hnext) h1 (fun c hc => Or.inl (h2 ▸ hc)) hperm hn
    | nack requeue =>
      cases requeue with
      | false =>
        obtain ⟨h1, h2⟩ := hs.settles_nack MAX_DELIVERY_ATTEMPTS call.chan call.cid
        exact .settle (List.mem_of_getElem? hi) (Or.inr hnext) h1
          (fun c hc => (h2 c hc).imp_right fun he => ⟨hnext, he⟩) hperm hn
      | true =>
        have hg := hs.givesBack_nack MAX_DELIVERY_ATTEMPTS call.chan call.cid
        have he : (fun x => s.givesBack (.run i c) x = true) =
            fun x => QQueue.isDelivery call.chan call.cid x = true := by
          funext x
          simp only [State.givesBack, hi, Option.any_some, hnext]
        exact .back (he ▸ hg) hperm hn
  | @loseChannel chan =>
    have hg := QQueue.givesBack_dropChannels s.broker MAX_DELIVERY_ATTEMPTS (· == chan)
    exact .back hg (QQueue.placed_dropChannels ..) rfl

/-- An action that gives a delivery back does so with each of its deliveries. -/
theorem step_back {s s' : State} {a : Action} {x : ℕ × Copy Bytes} (hs : s.broker.Sound)
    (ha : step s a = some s') (hx : s.givesBack a x = true) :
    QQueue.GivesBack MAX_DELIVERY_ATTEMPTS (fun x => s.givesBack a x = true) s.broker s'.broker := by
  cases step_cases ha with
  | publish | unsend | confirm | reject | close | openChannel | crash | send | inject | deliverDead
  | deliver => cases hx
  | @loseChannel chan =>
    exact QQueue.givesBack_dropChannels s.broker MAX_DELIVERY_ATTEMPTS (· == chan)
  | @run i call o k c hi hp _ _ =>
    have hnext : call.prog.next = some o := by rw [hp]; rfl
    have hgb : ∀ x, s.givesBack (.run i c) x =
        match some o with
        | some (.nack true) => QQueue.isDelivery call.chan call.cid x
        | _ => false := fun x => by
      simp only [State.givesBack, hi, Option.any_some, hnext]
    rw [hgb] at hx
    simp only [hgb]
    cases o with
    | findOne | sideEffect | saveSelect | saveWrite | ack => cases hx
    | nack requeue =>
      cases requeue with
      | false => cases hx
      | true => exact hs.givesBack_nack MAX_DELIVERY_ATTEMPTS call.chan call.cid

/-! ## The bound that holds -/

/-- **The step lemma.** -/
theorem step_tally {s s' : State} {a : Action} (hinv : Inv s)
    (h : QQueue.Tally MAX_DELIVERY_ATTEMPTS s.starts s.broker) (ha : step s a = some s') :
    QQueue.Tally MAX_DELIVERY_ATTEMPTS s'.starts s'.broker := by
  cases step_moves hinv.sound ha with
  | same hb hn => rwa [hb, hn]
  | enqueue hb hn =>
    rw [hb, hn]
    exact h.enqueue hinv.sound _
  | deliver hd hn =>
    rcases hn with hn | hn <;> rw [hn]
    · exact h.deliver hd
    · exact h.deliver_counted (step_inv hinv ha).sound hd
  | settle _ _ hs _ hp hn => rw [hn]; exact h.settles hp hs
  | back hg hp hn => rw [hn]; exact h.givesBack hp hg

theorem reachable_tally {rows : List ProcessedEvent} {as : List Action} {s : State}
    (h : run (init rows) as = some s) : QQueue.Tally MAX_DELIVERY_ATTEMPTS s.starts s.broker :=
  (exec_inv (I := fun s => Inv s ∧ QQueue.Tally MAX_DELIVERY_ATTEMPTS s.starts s.broker)
    (fun _ _ _ hi ha => ⟨step_inv hi.1 ha, step_tally hi.1 hi.2 ha⟩)
    ⟨inv_init rows, QQueue.tally_empty _⟩ h).2

/-- `handleMessage` is started at most four times on a copy. -/
theorem starts_le {rows : List ProcessedEvent} {as : List Action} {s : State}
    (h : run (init rows) as = some s) (cid : ℕ) : s.starts cid ≤ MAX_DELIVERY_ATTEMPTS + 1 :=
  (reachable_tally h).le cid

/-! ## The bound of three -/

/-- `handleMessage` is started at most `MAX_DELIVERY_ATTEMPTS` times on a copy, and a copy that was
    given back as often is dead-lettered and not delivered again. -/
structure Bounded (s : State) : Prop where
  starts : ∀ cid, s.starts cid ≤ MAX_DELIVERY_ATTEMPTS
  dead : ∀ c ∈ s.broker.all, MAX_DELIVERY_ATTEMPTS ≤ c.count → c ∈ s.broker.dead
  last : ∀ c ∈ s.broker.all, MAX_DELIVERY_ATTEMPTS ≤ c.count →
    ∀ as s', run s as = some s' → ∀ chan, step s' (.deliver chan c.cid) = none

/-- The action gives no copy back that was given back twice. -/
def spares (s : State) (a : Action) : Bool :=
  s.broker.unacked.all fun x => !s.givesBack a x || x.2.count + 1 < MAX_DELIVERY_ATTEMPTS

/-- No copy was given back three times. -/
def Few (s : State) : Prop := ∀ c ∈ s.broker.all, c.count < MAX_DELIVERY_ATTEMPTS

theorem step_few {s s' : State} {a : Action} (hinv : Inv s) (h : Few s) (hc : spares s a = true)
    (ha : step s a = some s') : Few s' := by
  intro c hmem
  cases step_moves hinv.sound ha with
  | same hb => exact h c (hb ▸ hmem)
  | enqueue hb =>
    rw [hb, QQueue.mem_all] at hmem
    rcases hmem with hmem | hmem
    · rcases List.mem_append.1 hmem with hmem | hmem
      · exact h c ((QQueue.mem_all _).2 (Or.inl hmem))
      · rw [List.mem_singleton.1 hmem]
        exact (by decide : 0 < MAX_DELIVERY_ATTEMPTS)
    · exact h c ((QQueue.mem_all _).2 (Or.inr hmem))
  | deliver hd => exact h c (QQueue.all_deliver hd c hmem)
  | settle _ _ hs => exact h c (hs.all c hmem)
  | back hg =>
    have again : ∀ x ∈ s.broker.unacked, s.givesBack a x = true →
        x.2.again.count < MAX_DELIVERY_ATTEMPTS := fun x hx hgx => by
      have hlt : x.2.count + 1 < MAX_DELIVERY_ATTEMPTS := by
        simpa only [hgx, Bool.not_true, Bool.false_or, decide_eq_true_eq] using
          List.all_eq_true.1 hc x hx
      exact hlt
    rcases (QQueue.mem_all _).1 hmem with hm | ⟨ch, hm⟩ | hm | hm
    · rcases (hg.ready c).1 hm with hm | ⟨x, hx, hgx, -, rfl⟩
      · exact h c ((QQueue.mem_all _).2 (Or.inl hm))
      · exact again x hx hgx
    · exact h c ((QQueue.mem_all _).2 (Or.inr (Or.inl ⟨ch, ((hg.unacked _).1 hm).1⟩)))
    · rcases (hg.dead c).1 hm with hm | ⟨x, hx, hgx, -, rfl⟩
      · exact h c ((QQueue.mem_all _).2 (Or.inr (Or.inr (Or.inl hm))))
      · exact again x hx hgx
    · exact h c ((QQueue.mem_all _).2 (Or.inr (Or.inr (Or.inr (hg.acked ▸ hm)))))

theorem bounded_of_few {rows : List ProcessedEvent} {as : List Action} {s : State}
    (h : run (init rows) as = some s) (hf : Few s) : Bounded s where
  starts := (reachable_tally h).le_of_count hf
  dead c hc hle := absurd (hf c hc) (Nat.not_lt.2 hle)
  last c hc hle := absurd (hf c hc) (Nat.not_lt.2 hle)

/-- A copy given back for the third time goes to the queue, and so is not dead-lettered. -/
theorem not_bounded_of_back {s s' : State} {a : Action} (hinv : Inv s) (ha : step s a = some s')
    (hb : Bounded s) {x : ℕ × Copy Bytes} (hx : x ∈ s.broker.unacked) (hg : s.givesBack a x = true)
    (hc : MAX_DELIVERY_ATTEMPTS ≤ x.2.count + 1) : ¬ Bounded s' := by
  intro hb'
  have hback := step_back hinv.sound ha hg
  rcases Nat.lt_or_ge x.2.count MAX_DELIVERY_ATTEMPTS with hlt | hge
  · have hready : x.2.again ∈ s'.broker.ready := (hback.ready _).2 (Or.inr ⟨x, hx, hg, hlt, rfl⟩)
    have hdead := hb'.dead _ ((QQueue.mem_all _).2 (Or.inl hready)) hc
    exact (step_inv hinv ha).sound.dead_not_live hdead (Or.inl hready) rfl
  · have hdead := hb.dead x.2 ((QQueue.mem_all _).2 (Or.inr (Or.inl ⟨x.1, hx⟩))) hge
    exact hinv.sound.dead_not_live hdead (Or.inr ⟨x.1, hx⟩) rfl

/-- **Which runs keep to three tries**: in every state of a run the bound holds iff no copy is
    given back for the third time. -/
theorem bounded_iff {rows : List ProcessedEvent} {as : List Action} {s : State}
    (h : run (init rows) as = some s) :
    (∀ as₁ as₂ s₁, as = as₁ ++ as₂ → run (init rows) as₁ = some s₁ → Bounded s₁) ↔
      Along step (fun s a => spares s a = true) (init rows) as := by
  constructor
  · intro hall
    refine along_iff.2 fun as₁ a as₂ s₁ he h1 => List.all_eq_true.2 fun x hx => ?_
    by_contra hn
    have hnot : s₁.givesBack a x = true ∧ MAX_DELIVERY_ATTEMPTS ≤ x.2.count + 1 := by
      simpa using hn
    obtain ⟨s₁', h1', h2⟩ := exec_append_iff.1 (he ▸ h)
    obtain rfl : s₁ = s₁' := Option.some.inj (h1.symm.trans h1')
    obtain ⟨s₂, ha, -⟩ := Option.bind_eq_some_iff.1 h2
    have hsnoc : run (init rows) (as₁ ++ [a]) = some s₂ := exec_snoc_iff.2 ⟨s₁, h1, ha⟩
    exact not_bounded_of_back (reachable_inv h1) ha (hall as₁ _ s₁ he h1) hx hnot.1 hnot.2
      (hall _ as₂ s₂ (by rw [he]; simp) hsnoc)
  · intro hc as₁ as₂ s₁ he h1
    have hfew : Inv s₁ ∧ Few s₁ :=
      exec_inv_along (I := fun s => Inv s ∧ Few s)
        (fun _ _ _ hi hca ha => ⟨step_inv hi.1 ha, step_few hi.1 hi.2 hca ha⟩)
        ⟨inv_init rows, fun _ hc => absurd hc List.not_mem_nil⟩ (along_append_left (he ▸ hc)) h1
    exact bounded_of_few h1 hfew.2

/-- Two saves are rejected, and the third try succeeds. -/
theorem bounded_iff_retried :
    ∃ s, run (init []) [.openChannel 0, .publish 0 sampleEvent, .send 0, .deliver 0 0, .run 0 .ok,
      .run 0 .ok, .run 0 .fail, .run 0 .ok, .deliver 0 0, .run 1 .ok, .run 1 .ok, .run 1 .fail,
      .run 1 .ok, .deliver 0 0, .run 2 .ok, .run 2 .ok, .run 2 .ok, .run 2 .ok, .run 2 .ok] = some s ∧
      Bounded s := by
  have hrun : (run (init []) [.openChannel 0, .publish 0 sampleEvent, .send 0, .deliver 0 0,
    .run 0 .ok, .run 0 .ok, .run 0 .fail, .run 0 .ok, .deliver 0 0, .run 1 .ok, .run 1 .ok,
    .run 1 .fail, .run 1 .ok, .deliver 0 0, .run 2 .ok, .run 2 .ok, .run 2 .ok, .run 2 .ok,
    .run 2 .ok]).isSome = true := by decide +kernel
  obtain ⟨s, h⟩ := Option.isSome_iff_exists.1 hrun
  exact ⟨s, h, (bounded_iff h).2 (by decide +kernel) _ [] s (List.append_nil _).symm h⟩

/-- Three saves are rejected, and `handleMessage` is started a fourth time. -/
theorem not_bounded :
    ∃ s, run (init []) [.openChannel 0, .publish 0 sampleEvent, .send 0, .deliver 0 0, .run 0 .ok,
      .run 0 .ok, .run 0 .fail, .run 0 .ok, .deliver 0 0, .run 1 .ok, .run 1 .ok, .run 1 .fail,
      .run 1 .ok, .deliver 0 0, .run 2 .ok, .run 2 .ok, .run 2 .fail, .run 2 .ok,
      .deliver 0 0] = some s ∧ ¬ Bounded s := by
  obtain ⟨s, h, hs⟩ := Option.map_eq_some_iff.1 (by decide +kernel : (run (init []) [.openChannel 0,
    .publish 0 sampleEvent, .send 0, .deliver 0 0, .run 0 .ok, .run 0 .ok, .run 0 .fail, .run 0 .ok,
    .deliver 0 0, .run 1 .ok, .run 1 .ok, .run 1 .fail, .run 1 .ok, .deliver 0 0, .run 2 .ok,
    .run 2 .ok, .run 2 .fail, .run 2 .ok, .deliver 0 0]).map (·.starts 0) = some 4)
  refine ⟨s, h, fun hb => ?_⟩
  have := hb.starts 0
  rw [hs] at this
  exact absurd this (by decide)

end SystemDesign.Queue
