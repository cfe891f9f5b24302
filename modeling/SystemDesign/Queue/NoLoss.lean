/-
  No copy of a message is lost.

  `Inv` ties the queue, the calls and the table together: every delivery is on an open channel,
  every call handles the content of its copy and is safe (`AcksSafely`), and what was acked is
  justified.  `step_inv` is the step lemma.
-/
import SystemDesign.Queue.Acknowledge
import SystemDesign.Queue.System

namespace SystemDesign.Queue

open Lib

structure Inv (s : State) : Prop where
  sound : s.broker.Sound
  chan_lt : ∀ x ∈ s.chans, x.1 < s.nextChan
  chan_nodup : (s.chans.map Prod.fst).Nodup
  unacked : ∀ x ∈ s.broker.unacked, x.1 ∈ s.chans.map Prod.fst
  content : ∀ c ∈ s.calls, (c.cid, c.content) ∈ s.broker.placed
  safe : ∀ c ∈ s.calls, ¬ LacksId c.content → AcksSafely c.content c.prog s.rows
  acked : ∀ c ∈ s.broker.acked, ¬ LacksId c.msg → Justified c.msg s.rows

theorem inv_init (rows : List ProcessedEvent) : Inv (init rows) where
  sound := QQueue.sound_empty
  chan_lt := by simp [init]
  chan_nodup := by simp [init]
  unacked := by simp [init, QQueue.empty]
  content := by simp [init]
  safe := by simp [init]
  acked := by simp [init, QQueue.empty]

/-! ## The queue under one operation of a call -/

theorem placed_settle (chan cid : ℕ) (o : HOp) (q : QQueue Bytes) :
    (settle chan cid o q).placed.Perm q.placed := by
  cases o with
  | ack => exact QQueue.placed_ack q chan cid
  | nack rq => exact QQueue.placed_nack q _ chan cid rq
  | findOne | sideEffect | saveSelect | saveWrite => exact List.Perm.refl _

theorem settle_nextId (chan cid : ℕ) (o : HOp) (q : QQueue Bytes) :
    (settle chan cid o q).nextId = q.nextId := by
  cases o <;> simp [settle]

theorem settle_unacked (chan cid : ℕ) (o : HOp) (q : QQueue Bytes) :
    (settle chan cid o q).unacked.Sublist q.unacked := by
  cases o with
  | ack => exact QQueue.ack_unacked q chan cid
  | nack rq => exact QQueue.nack_unacked q _ chan cid rq
  | findOne | sideEffect | saveSelect | saveWrite => exact List.Sublist.refl _

/-- Only an `ack` moves a copy to those acked, and only that of its delivery. -/
theorem settle_acked {chan cid : ℕ} {o : HOp} {q : QQueue Bytes} {c : Copy Bytes}
    (h : c ∈ (settle chan cid o q).acked) :
    c ∈ q.acked ∨ o = .ack ∧ (chan, c) ∈ q.unacked ∧ c.cid = cid := by
  cases o with
  | ack => exact (QQueue.mem_ack_acked q chan cid h).imp_right fun h => ⟨rfl, h⟩
  | nack rq => exact Or.inl (by simpa [settle] using h)
  | findOne | sideEffect | saveSelect | saveWrite => exact Or.inl h

/-! ## One step -/

/-- The part of the invariant about the queue survives whatever keeps the copies, the deliveries
    and the acked. -/
theorem Inv.broker {s : State} (h : Inv s) {q : QQueue Bytes} {chans : List (ℕ × ℕ)}
    (hsound : q.Sound) (hsub : chans.Sublist s.chans) (hplaced : ∀ x ∈ s.broker.placed, x ∈ q.placed)
    (hun : ∀ x ∈ q.unacked, x.1 ∈ chans.map Prod.fst) (hack : ∀ c ∈ q.acked, c ∈ s.broker.acked) :
    Inv { s with broker := q, chans := chans } where
  sound := hsound
  chan_lt := fun x hx => h.chan_lt x (hsub.subset hx)
  chan_nodup := h.chan_nodup.sublist (hsub.map Prod.fst)
  unacked := hun
  content := fun c hc => hplaced _ (h.content c hc)
  safe := h.safe
  acked := fun c hc => h.acked c (hack c hc)

theorem Inv.enqueue {s : State} (h : Inv s) (m : Bytes) :
    Inv { s with broker := s.broker.enqueue m } :=
  h.broker (h.sound.enqueue m) (List.Sublist.refl _)
    (fun _ hx => (QQueue.placed_enqueue _ m).mem_iff.2 (List.mem_cons_of_mem _ hx)) h.unacked
    fun _ hc => hc

/-- Only the part of the state the invariant reads matters. -/
theorem Inv.congr {s s' : State} (h : Inv s) (h1 : s'.broker = s.broker) (h2 : s'.rows = s.rows)
    (h3 : s'.chans = s.chans) (h4 : s'.nextChan = s.nextChan) (h5 : s'.calls = s.calls) : Inv s' := by
  obtain ⟨b, r, p, cl, cr, ch, n, ca, e⟩ := s'
  dsimp only at h1 h2 h3 h4 h5
  subst h1 h2 h3 h4 h5
  exact ⟨h.sound, h.chan_lt, h.chan_nodup, h.unacked, h.content, h.safe, h.acked⟩

theorem Inv.deliver {s : State} (h : Inv s) {chan cid inst : ℕ} {c : Copy Bytes} {b : QQueue Bytes}
    (hch : (chan, inst) ∈ s.chans) (hd : s.broker.deliver chan cid = some (c, b)) :
    Inv { s with broker := b } := by
  obtain ⟨-, -, hu, ha, hn⟩ := QQueue.deliver_some hd
  have hp := QQueue.placed_deliver hd
  refine h.broker (h.sound.of_perm hp hn) (List.Sublist.refl _) (fun x hx => hp.mem_iff.2 hx) ?_ ?_
  · intro x hx
    rw [hu] at hx
    rcases List.mem_cons.1 hx with rfl | hx
    · exact List.mem_map_of_mem (f := Prod.fst) hch
    · exact h.unacked x hx
  · exact fun c hc => ha ▸ hc

theorem Inv.perform {s : State} (h : Inv s) {i : ℕ} {call : Handling} {o : HOp}
    {k : Except Unit o.Ans → Handler Unit} (hi : s.calls[i]? = some call)
    (hp : call.prog = .await o k) (c : Outcome) : Inv (s.perform i call o k c) := by
  have hcall := List.mem_of_getElem? hi
  have hk := answer_keeps o c s.rows
  have hperm := placed_settle call.chan call.cid o s.broker
  refine ⟨h.sound.of_perm hperm (settle_nextId _ _ o _), h.chan_lt, h.chan_nodup, ?_, ?_, ?_, ?_⟩
  · exact fun x hx => h.unacked x ((settle_unacked _ _ o _).subset hx)
  · intro c' hc'
    rcases List.mem_or_eq_of_mem_set hc' with hc' | rfl
    · exact hperm.mem_iff.2 (h.content c' hc')
    · exact hperm.mem_iff.2 (h.content call hcall)
  · intro c' hc' hl
    rcases List.mem_or_eq_of_mem_set hc' with hc' | rfl
    · exact safe_keeps (h.safe c' hc' hl) hk
    · have hs := h.safe call hcall hl
      rw [hp] at hs
      exact (hs.step (Keeps.refl _) (c := c) rfl).2
  · intro c' hc' hl
    rcases settle_acked hc' with hc' | ⟨rfl, hun, hcid⟩
    · exact (h.acked c' hc' hl).keeps hk
    · -- the acked copy is the one the call handles
      have h1 : (call.cid, c'.msg) ∈ s.broker.placed := hcid ▸ QQueue.mem_placed_unacked _ hun
      have hm : c'.msg = call.content := h.sound.msg_eq h1 (h.content call hcall)
      have hs := h.safe call hcall (hm ▸ hl)
      rw [hp] at hs
      exact hm ▸ (hs.step (Keeps.refl _) (c := c) rfl).1.2 rfl

/-- **The step lemma.** -/
theorem step_inv {s s' : State} {a : Action} (h : Inv s) (ha : step s a = some s') : Inv s' := by
  cases step_cases ha with
  | publish | unsend | confirm | reject | close | crash => exact h.congr rfl rfl rfl rfl rfl
  | send => exact (h.enqueue _).congr rfl rfl rfl rfl rfl
  | inject => exact h.enqueue _
  | openChannel =>
    refine ⟨h.sound, ?_, ?_, ?_, h.content, h.safe, h.acked⟩
    · intro x hx
      rcases List.mem_cons.1 hx with rfl | hx
      · exact Nat.lt_succ_self _
      · exact (h.chan_lt x hx).trans (Nat.lt_succ_self _)
    · refine List.nodup_cons.2 ⟨fun hm => ?_, h.chan_nodup⟩
      obtain ⟨x, hx, he⟩ := List.mem_map.1 hm
      exact absurd (h.chan_lt x hx) (by rw [he]; exact Nat.lt_irrefl _)
    · exact fun x hx => List.mem_cons_of_mem _ (h.unacked x hx)
  | deliverDead hch _ hd => exact h.deliver hch hd
  | deliver hch _ hd =>
    have h' := h.deliver hch hd
    obtain ⟨hc, rfl, -⟩ := QQueue.deliver_some hd
    refine ⟨h'.sound, h'.chan_lt, h'.chan_nodup, h'.unacked, ?_, ?_, h'.acked⟩
    · intro x hx
      rcases List.mem_append.1 hx with hx | hx
      · exact h'.content x hx
      · obtain rfl := List.mem_singleton.1 hx
        exact (QQueue.placed_deliver hd).mem_iff.2 (QQueue.mem_placed_ready _ hc)
    · intro x hx hl
      rcases List.mem_append.1 hx with hx | hx
      · exact h'.safe x hx hl
      · obtain rfl := List.mem_singleton.1 hx
        exact handleMessage_safe hl _
  | run hi hp => exact h.perform hi hp _
  | @loseChannel chan =>
    have hp := QQueue.placed_dropChannels s.broker MAX_DELIVERY_ATTEMPTS (· == chan)
    refine h.broker (h.sound.of_perm hp (QQueue.dropChannels_nextId ..)) List.filter_sublist
      (fun x hx => hp.mem_iff.2 hx) ?_ ?_
    · intro x hx
      rw [QQueue.dropChannels_unacked, List.mem_filter] at hx
      obtain ⟨y, hy, he⟩ := List.mem_map.1 (h.unacked x hx.1)
      exact List.mem_map.2 ⟨y, List.mem_filter.2 ⟨hy, by simpa [he] using hx.2⟩, he⟩
    · exact fun c hc => by rwa [QQueue.dropChannels_acked] at hc

theorem reachable_inv {rows : List ProcessedEvent} {as : List Action} {s : State}
    (h : run (init rows) as = some s) : Inv s :=
  exec_inv (fun _ _ _ => step_inv) (inv_init rows) h

/-! ## What no step takes back -/

/-- The copies of one state are among those of the next, and its rows are kept. -/
def Grows (s s' : State) : Prop :=
  (∀ x ∈ s.broker.placed, x ∈ s'.broker.placed) ∧ Keeps s.rows s'.rows

theorem step_grows {s s' : State} {a : Action} (ha : step s a = some s') : Grows s s' := by
  have same : ∀ {q : QQueue Bytes}, q.placed.Perm s.broker.placed →
      ∀ x ∈ s.broker.placed, x ∈ q.placed := fun hp x hx => hp.mem_iff.2 hx
  have more : ∀ m, ∀ x ∈ s.broker.placed, x ∈ (s.broker.enqueue m).placed := fun m x hx =>
    (QQueue.placed_enqueue s.broker m).mem_iff.2 (List.mem_cons_of_mem _ hx)
  cases step_cases ha with
  | publish | unsend | confirm | reject | close | crash | openChannel =>
    exact ⟨fun _ hx => hx, Keeps.refl _⟩
  | send | inject => exact ⟨more _, Keeps.refl _⟩
  | deliverDead _ _ hd | deliver _ _ hd => exact ⟨same (QQueue.placed_deliver hd), Keeps.refl _⟩
  | run => exact ⟨same (placed_settle _ _ _ _), answer_keeps _ _ _⟩
  | loseChannel => exact ⟨same (QQueue.placed_dropChannels _ _ _), Keeps.refl _⟩

theorem run_grows {s s' : State} {as : List Action} (h : run s as = some s') : Grows s s' := by
  refine exec_rel (R := Grows) (fun s => ⟨fun _ hx => hx, Keeps.refl _⟩) ?_ (fun _ _ _ => step_grows) h
  exact fun _ _ _ h1 h2 => ⟨fun x hx => h2.1 x (h1.1 x hx), h1.2.trans h2.2⟩

/-! ## Published messages -/

theorem eventIdValue_content (e : Event) :
    eventIdValue e.content = some (some (.str e.eventId.toText)) := by
  rw [eventIdValue, e.parse_content, Option.bind_some, e.get_eventId]
  rfl

theorem not_lacksId (e : Event) : ¬ LacksId e.content := by
  rintro ⟨v, hv, hn⟩
  rw [eventIdValue_content] at hv
  cases hv
  cases hn

theorem recorded_of_justified {e : Event} {rows : List ProcessedEvent}
    (h : Justified e.content rows) : Recorded e.eventId rows := by
  obtain ⟨v, u, hv, hu, hr⟩ := h
  rw [eventIdValue_content] at hv
  cases hv
  simp only [uuidOf, Uuid.ofText_toText, Option.some.injEq] at hu
  exact hu ▸ hr

/-- How many times the copy `cid` is ready, delivered, dead-lettered or acked. -/
def State.places (s : State) (cid : ℕ) : ℕ :=
  QQueue.copies cid s.broker.ready + QQueue.copies cid (s.broker.unacked.map Prod.snd) +
    QQueue.copies cid s.broker.dead + QQueue.copies cid s.broker.acked

/-- **No loss of a queued event.**  Once a copy of a published message is in the queue, in every
    later state it is in exactly one place, with the same content; where it is delivered, then on
    the open channel of one instance; where it is acked, its event is recorded.  No row that was
    recorded is removed or gets another key. -/
theorem copy_not_lost {rows : List ProcessedEvent} {as bs : List Action} {s s' : State}
    {c : Copy Bytes} {e : Event} (h : run (init rows) as = some s) (hc : c ∈ s.broker.ready)
    (he : c.msg = e.content) (h' : run s bs = some s') :
    s'.places c.cid = 1 ∧
      (∀ x ∈ s'.broker.placed, x.1 = c.cid → x.2 = e.content) ∧
      (∀ x ∈ s'.broker.unacked, x.2.cid = c.cid → ∃! inst, (x.1, inst) ∈ s'.chans) ∧
      (∀ x ∈ s'.broker.acked, x.cid = c.cid → Recorded e.eventId s'.rows) ∧
      Keeps s.rows s'.rows := by
  have hinv : Inv s' := reachable_inv (exec_append_iff.2 ⟨s, h, h'⟩)
  obtain ⟨hgrow, hkeep⟩ := run_grows h'
  have hp : (c.cid, e.content) ∈ s'.broker.placed := he ▸ hgrow _ (QQueue.mem_placed_ready _ hc)
  refine ⟨QQueue.places_eq_one hinv.sound hp, ?_, ?_, ?_, hkeep⟩
  · rintro ⟨cid, m⟩ hx rfl
    exact hinv.sound.msg_eq hx hp
  · intro x hx _
    obtain ⟨⟨ch, inst⟩, hy, rfl⟩ := List.mem_map.1 (hinv.unacked x hx)
    refine ⟨inst, hy, fun inst' hy' => ?_⟩
    exact congrArg Prod.snd (List.inj_on_of_nodup_map hinv.chan_nodup hy' hy rfl)
  · intro x hx hcid
    have hx' : (c.cid, x.msg) ∈ s'.broker.placed := by
      refine List.mem_map.2 ⟨x, by simp [hx], ?_⟩
      rw [Copy.key, hcid]
    have hm : x.msg = e.content := hinv.sound.msg_eq hx' hp
    exact recorded_of_justified (hm ▸ hinv.acked x hx (hm ▸ not_lacksId e))

/-- The event is published, delivered, given back by a lost channel, redelivered and acked. -/
theorem copy_not_lost_redelivered :
    ∃ s s', run (init []) [.openChannel 0, .publish 0 sampleEvent, .send 0] = some s ∧
      run s [.openChannel 1, .deliver 0 0, .loseChannel 0, .deliver 1 0, .run 1 .ok, .run 1 .ok,
        .run 1 .ok, .run 1 .ok, .run 1 .ok] = some s' ∧
      s'.places 0 = 1 ∧ Recorded sampleEvent.eventId s'.rows := by
  obtain ⟨s, h1, hready⟩ := Option.map_eq_some_iff.1 (rfl : (run (init []) [.openChannel 0,
    .publish 0 sampleEvent, .send 0]).map (·.broker.ready) = some [⟨0, sampleEvent.content, 0⟩])
  obtain ⟨s', h2, hacked⟩ := Option.map_eq_some_iff.1 (by decide +kernel : (run (init [])
    ([.openChannel 0, .publish 0 sampleEvent, .send 0] ++ [.openChannel 1, .deliver 0 0,
      .loseChannel 0, .deliver 1 0, .run 1 .ok, .run 1 .ok, .run 1 .ok, .run 1 .ok,
      .run 1 .ok])).map (·.broker.acked.map Copy.cid) = some [0])
  obtain ⟨s₁, h3, h4⟩ := exec_append_iff.1 h2
  obtain rfl : s = s₁ := Option.some.inj (h1.symm.trans h3)
  have hc : ⟨0, sampleEvent.content, 0⟩ ∈ s.broker.ready := by rw [hready]; exact List.mem_singleton_self _
  obtain ⟨hplace, -, -, hrec, -⟩ := copy_not_lost h1 hc rfl h4
  obtain ⟨x, hx, hcid⟩ := List.mem_map.1 (by rw [hacked]; simp : 0 ∈ s'.broker.acked.map Copy.cid)
  exact ⟨s, s', h1, h4, hplace, hrec x hx hcid⟩

end SystemDesign.Queue
