/-
  Where messages and processed events come from.

  `step_pubs`: a step adds at most the publish it is, and changes none.  `Issued`: all that is in
  the queue, in `processed_events` and among the effects stems from some publish; `step_issued`
  is its step lemma, for steps that inject nothing.
-/
import SystemDesign.Queue.NoLoss

namespace SystemDesign.Queue

open Lib

/-- What no step changes of a publish. -/
def Publish.key (p : Publish) : ℕ × Event := (p.inst, p.event)

def State.keys (s : State) : List (ℕ × Event) := s.pubs.map Publish.key

theorem map_key_set {pubs : List Publish} {p : ℕ} {pub : Publish} (hp : pubs[p]? = some pub)
    (st : PublishStatus) :
    (pubs.set p { pub with status := st }).map Publish.key = pubs.map Publish.key :=
  map_set_eq hp rfl

/-- The publish an action is. -/
def Action.published : Action → List (ℕ × Event)
  | .publish inst e => [(inst, e)]
  | _ => []

theorem step_pubs {s s' : State} {a : Action} (ha : step s a = some s') :
    s'.keys = s.keys ++ a.published := by
  cases step_cases ha with
  | publish => simp [State.keys, Publish.key, Action.published]
  | send hp | unsend hp | confirm hp | reject hp =>
    exact (map_key_set hp _).trans (List.append_nil _).symm
  | close =>
    simp only [State.keys, Action.published, List.append_nil, List.map_map]
    refine List.map_congr_left fun p _ => ?_
    simp only [Function.comp, Publish.close]
    split_ifs <;> rfl
  | inject | openChannel | deliverDead | deliver | run | loseChannel | crash =>
    exact (List.append_nil _).symm

/-- Only a crash takes an instance down. -/
theorem step_crashed {s s' : State} {a : Action} (ha : step s a = some s') {inst : ℕ}
    (h : inst ∈ s.crashed) : inst ∈ s'.crashed := by
  cases step_cases ha with
  | crash => exact List.mem_cons_of_mem _ h
  | publish | send | unsend | confirm | reject | close | inject | openChannel | deliverDead | deliver
  | run | loseChannel => exact h

/-- The event was handed to a wrapper. -/
def State.issued (s : State) (e : Event) : Prop := e ∈ s.keys.map Prod.snd

theorem issued_mono {s s' : State} {a : Action} (ha : step s a = some s') {e : Event}
    (h : s.issued e) : s'.issued e := by
  rw [State.issued, step_pubs ha, List.map_append]
  exact List.mem_append_left _ h

theorem issued_of_getElem {s : State} {p : ℕ} {pub : Publish} (hp : s.pubs[p]? = some pub) :
    s.issued pub.event :=
  List.mem_map.2 ⟨pub.key, List.mem_map_of_mem (List.mem_of_getElem? hp), rfl⟩

/-! ## Rows and effects -/

/-- Each row after an operation was there before, or is of the event of the operation. -/
theorem answer_rows {o : HOp} {c : Outcome} {rows : List ProcessedEvent} {r : ProcessedEvent}
    (h : r ∈ (o.answer c rows).2) :
    (∃ r' ∈ rows, r'.eventId = r.eventId) ∨ opEvent o = some r.eventId := by
  have old : r ∈ rows → (∃ r' ∈ rows, r'.eventId = r.eventId) ∨ opEvent o = some r.eventId :=
    fun hr => Or.inl ⟨r, hr, rfl⟩
  cases o with
  | saveWrite v w found =>
    simp only [HOp.answer] at h
    split at h
    · exact old h
    · next rows' hw =>
      dsimp only at h
      split_ifs at h
      · cases found with
        | false =>
          obtain ⟨u, t, hu, -, rfl⟩ := insertEvent_some hw
          rcases List.mem_cons.1 h with rfl | h
          · exact Or.inr hu
          · exact old h
        | true =>
          simp only [saveWrite, updateEvent, if_true] at hw
          split at hw
          · cases hw; exact old h
          · cases hw
          · split_ifs at hw
            cases hw
            obtain ⟨r', hr', rfl⟩ := List.mem_map.1 h
            exact Or.inl ⟨r', hr', by split_ifs <;> rfl⟩
      · exact old h
  | findOne | sideEffect | saveSelect | ack | nack => exact old h

/-- A call that handles a published message is about its event only. -/
theorem op_of_stands {e : Event} {o : HOp} {k : Except Unit o.Ans → Handler Unit}
    (h : Stands e.content (.await o k)) :
    (∀ u, opEvent o = some u → u = e.eventId) ∧ ∀ p ∈ entered o, p = e.json := by
  rcases h with ⟨payload, v, w, ph, hp, hm, he⟩ | he | he
  · obtain rfl : payload = e.json := Option.some.inj (hp.symm.trans e.parse_content)
    obtain rfl : v = some (.str e.eventId.toText) := by
      have hv := hm.eventId
      rw [e.get_eventId] at hv
      cases hv; rfl
    have huuid : uuidOf (some (.str e.eventId.toText)) = some e.eventId := Uuid.ofText_toText _
    obtain ⟨ho, -⟩ := code_answer hm he.symm
    cases ph with
    | done | failed => cases ho
    | finding | selecting | writing =>
      cases ho
      exact ⟨fun u hu => Option.some.inj (hu.symm.trans huuid), nofun⟩
    | entering =>
      cases ho
      refine ⟨fun u hu => ?_, fun p hp => List.mem_singleton.1 hp⟩
      rw [opEvent, eventOf_members hm, huuid] at hu
      exact (Option.some.inj hu).symm
    | acking | nacking => cases ho; exact ⟨nofun, nofun⟩
  · cases he
    exact ⟨nofun, nofun⟩
  · cases he

/-! ## The invariant -/

structure Issued (s : State) : Prop where
  placed : ∀ x ∈ s.broker.placed, ∃ e, s.issued e ∧ x.2 = e.content
  calls : ∀ c ∈ s.calls, (∃ e, s.issued e ∧ c.content = e.content) ∧ Stands c.content c.prog
  rows : ∀ r ∈ s.rows, ∃ e, s.issued e ∧ r.eventId = e.eventId
  effects : ∀ p ∈ s.effects, ∃ e, s.issued e ∧ p = e.json

theorem issued_init : Issued (init []) :=
  ⟨nofun, nofun, nofun, nofun⟩

/-- Only the queue changes, and gets at most messages that were issued. -/
theorem Issued.broker {s s' : State} {a : Action} (h : Issued s) (ha : step s a = some s')
    (hb : ∀ x ∈ s'.broker.placed, x ∈ s.broker.placed ∨ ∃ e, s.issued e ∧ x.2 = e.content)
    (hc : s'.calls = s.calls) (hr : s'.rows = s.rows) (he : s'.effects = s.effects) : Issued s' where
  placed := fun x hx => by
    obtain ⟨e, hi, hm⟩ := (hb x hx).elim (h.placed x) id
    exact ⟨e, issued_mono ha hi, hm⟩
  calls := fun c hcc => by
    obtain ⟨⟨e, hi, hm⟩, hs⟩ := h.calls c (hc ▸ hcc)
    exact ⟨⟨e, issued_mono ha hi, hm⟩, hs⟩
  rows := fun r hrr => by
    obtain ⟨e, hi, hm⟩ := h.rows r (hr ▸ hrr)
    exact ⟨e, issued_mono ha hi, hm⟩
  effects := fun p hp => by
    obtain ⟨e, hi, hm⟩ := h.effects p (he ▸ hp)
    exact ⟨e, issued_mono ha hi, hm⟩

theorem Issued.deliver {s s' : State} {chan cid : ℕ} {c : Copy Bytes} {b : QQueue Bytes}
    (h : Issued s) (ha : step s (.deliver chan cid) = some s')
    (hd : s.broker.deliver chan cid = some (c, b)) {inst : ℕ}
    (he : s' = { s with broker := b, calls := s.calls ++
      [⟨inst, chan, cid, c.msg, handleMessage (some c.msg)⟩] }) : Issued s' := by
  have hready := (QQueue.deliver_some hd).1
  have hp := QQueue.placed_deliver hd
  subst he
  refine ⟨fun x hx => h.placed x (hp.mem_iff.1 hx), fun x hx => ?_, h.rows, h.effects⟩
  rcases List.mem_append.1 hx with hx | hx
  · exact h.calls x hx
  · obtain rfl := List.mem_singleton.1 hx
    exact ⟨h.placed _ (QQueue.mem_placed_ready _ hready), stands_handleMessage _⟩

theorem Issued.perform {s : State} {i : ℕ} {call : Handling} {o : HOp}
    {k : Except Unit o.Ans → Handler Unit} (h : Issued s) (hi : s.calls[i]? = some call)
    (hp : call.prog = .await o k) (c : Outcome) : Issued (s.perform i call o k c) := by
  obtain ⟨⟨e, hiss, hcont⟩, hstands⟩ := h.calls call (List.mem_of_getElem? hi)
  rw [hp] at hstands
  obtain ⟨hev, heff⟩ := op_of_stands (hcont ▸ hstands)
  refine ⟨fun x hx => ?_, fun x hx => ?_, fun r hr => ?_, fun p hpp => ?_⟩
  · exact h.placed x ((placed_settle _ _ o _).mem_iff.1 hx)
  · rcases List.mem_or_eq_of_mem_set hx with hx | rfl
    · exact h.calls x hx
    · exact ⟨⟨e, hiss, hcont⟩, stands_answer hstands _⟩
  · rcases answer_rows hr with ⟨r', hr', he⟩ | ho
    · rw [← he]; exact h.rows r' hr'
    · exact ⟨e, hiss, hev _ ho⟩
  · rcases List.mem_append.1 hpp with hpp | hpp
    · exact ⟨e, hiss, heff p hpp⟩
    · exact h.effects p hpp

/-- **The step lemma.** -/
theorem step_issued {s s' : State} {a : Action} (h : Issued s) (hn : ∀ content, a ≠ .inject content)
    (ha : step s a = some s') : Issued s' := by
  have same : ∀ {q : QQueue Bytes}, q.placed.Perm s.broker.placed → ∀ x ∈ q.placed,
      x ∈ s.broker.placed ∨ ∃ e, s.issued e ∧ x.2 = e.content :=
    fun hp x hx => Or.inl (hp.mem_iff.1 hx)
  cases step_cases ha with
  | inject => exact absurd rfl (hn _)
  | publish | unsend | confirm | reject | close | openChannel | crash =>
    exact h.broker ha (fun x hx => Or.inl hx) rfl rfl rfl
  | send hp =>
    refine h.broker ha (fun x hx => ?_) rfl rfl rfl
    rcases List.mem_cons.1 ((QQueue.placed_enqueue _ _).mem_iff.1 hx) with rfl | hx
    · exact Or.inr ⟨_, issued_of_getElem hp, rfl⟩
    · exact Or.inl hx
  | deliverDead _ _ hd => exact h.broker ha (same (QQueue.placed_deliver hd)) rfl rfl rfl
  | loseChannel => exact h.broker ha (same (QQueue.placed_dropChannels _ _ _)) rfl rfl rfl
  | deliver _ _ hd => exact h.deliver ha hd rfl
  | run hi hp => exact h.perform hi hp _

end SystemDesign.Queue
