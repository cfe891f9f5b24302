/-
  How often the side-effect block runs.

  The check (`findOne`), the block and the record (`save`) are separate steps, so the block of an
  event can run twice: a save is rejected after it, the instance crashes after it, or a second
  call passes the check before the first has saved.  `careful` says that a step does none of
  this; along runs of careful steps, `effect_at_most_once`.

  `place u p` is where the program `p` of a call stands with respect to the block of the event `u`;
  the invariant is `AtMost`.
-/
import SystemDesign.Queue.Acknowledge
import SystemDesign.Queue.NoLoss

namespace SystemDesign.Queue

open Lib

/-- How many times the block was entered for the event `u`. -/
def State.timesEntered (s : State) (u : Uuid) : ℕ := s.effects.countP fun p => eventOf p == some u

/-- Where a call stands: outside, about to enter the block, or past it with the event not saved. -/
inductive Place where
  | out
  | pending
  | unsaved
deriving DecidableEq

def opPlace (u : Uuid) : HOp → Place
  | .sideEffect payload => if eventOf payload = some u then .pending else .out
  | .saveSelect v | .saveWrite v _ _ => if uuidOf v = some u then .unsaved else .out
  | _ => .out

def place (u : Uuid) (p : Handler Unit) : Place := p.next.elim .out (opPlace u)

/-- The call runs on an instance that is up. -/
def State.live (s : State) (call : Handling) : Bool := !s.crashed.contains call.inst

/-- No call is between its check and its save of the event `u`. -/
def State.alone (s : State) (u : Uuid) : Bool :=
  s.calls.all fun call => !s.live call || place u call.prog == .out

/-- While `u` is not recorded: no call passes the check with another one between check and save,
    the block does not fail, and its save commits the row. -/
def State.allows (s : State) (u : Uuid) (c : Outcome) : HOp → Bool
  | .findOne _ => !c.isOk || s.alone u
  | .sideEffect _ | .saveSelect _ => c.isOk
  | .saveWrite v w found =>
    c.lands && (saveWrite v w found s.rows).any fun rows => decide (Recorded u rows)
  | _ => true

/-- The steps after which no block runs a second time. -/
def careful (s : State) : Action → Bool
  | .run i c => s.calls[i]?.all fun call => call.prog.next.all fun o => (opEvent o).all fun u =>
    decide (Recorded u s.rows) || s.allows u c o
  | .crash inst => s.calls.all fun call => call.inst != inst || !s.live call ||
    call.prog.next.all fun o => (opEvent o).all fun u =>
      decide (Recorded u s.rows) || place u call.prog != .unsaved
  | _ => true

/-! ## Places -/

theorem place_handleMessage (u : Uuid) (content : Bytes) :
    place u (handleMessage (some content)) = .out := by
  have hb := handleMessage_begins content
  generalize handleMessage (some content) = p at hb ⊢
  cases hb with
  | unparsed | thrown | finding => rfl

/-- The place of a phase. -/
def phasePlace (u : Uuid) (v : JsValue) (ph : Phase) : Place :=
  if uuidOf v = some u then
    match ph with
    | .entering => .pending
    | .selecting | .writing _ => .unsaved
    | _ => .out
  else .out

theorem place_code {payload : Json} {v w : JsValue} (hm : Members payload v w) (u : Uuid)
    (ph : Phase) : place u (ph.code payload v w) = phasePlace u v ph := by
  cases ho : ph.op payload v w with
  | none =>
    cases ph with
    | done | failed => simp [Phase.code, place, Async.next, phasePlace]
    | finding | entering | selecting | writing | acking | nacking => cases ho
  | some o =>
    rw [code_of_op hm ho]
    cases ph with
    | done | failed => cases ho
    | finding | entering | selecting | writing | acking | nacking =>
      cases ho
      simp [place, Async.next, opPlace, phasePlace, eventOf_members hm]

/-! ## One operation of a call -/

/-- What the answer to an operation does to the place of its call. -/
structure PlaceStep (s : State) (u : Uuid) (p p' : Place) (rows' : List ProcessedEvent) : Prop where
  pending : p' = .pending → p = .out ∧ ¬ Recorded u s.rows ∧ s.alone u = true
  unsaved : p' = .unsaved → p ≠ .out
  inside : p ≠ .out → p' = .unsaved ∨ Recorded u rows'

theorem placeStep_out (s : State) (u : Uuid) (rows' : List ProcessedEvent) :
    PlaceStep s u .out .out rows' :=
  ⟨nofun, nofun, fun h => absurd rfl h⟩

theorem not_recorded_of_findOne {v : JsValue} {u : Uuid} {rows : List ProcessedEvent}
    (hu : uuidOf v = some u) (h : findOne v rows = .ok none) : ¬ Recorded u rows := by
  have hv : isNullish v = false := by
    cases hb : isNullish v with
    | false => rfl
    | true => rw [uuidOf_nullish hb] at hu; cases hu
  rw [findOne, whereUuid_of_not_nullish hv, hu] at h
  simp only [Option.map_some, Except.ok.injEq, List.find?_eq_none] at h
  rintro ⟨r, hr, rfl⟩
  exact h r hr (by simp [UuidWhere.holds])

theorem saveSelect_ok {v : JsValue} {u : Uuid} (hu : uuidOf v = some u) (rows : List ProcessedEvent) :
    ∃ found, saveSelect v rows = .ok found := by
  unfold uuidOf at hu
  split at hu
  · next s => exact ⟨rows.any fun r => r.eventId.toText == s, by simp [saveSelect, hu]⟩
  · cases hu

/-- **The step lemma of a phase**, for the event of its payload. -/
theorem phase_step {s : State} {u : Uuid} {payload : Json} {v w : JsValue} (hu : uuidOf v = some u)
    {ph : Phase} {o : HOp} (ho : ph.op payload v w = some o) {c : Outcome}
    (hc : Recorded u s.rows ∨ s.allows u c o = true) :
    PlaceStep s u (phasePlace u v ph) (phasePlace u v (ph.after o (o.answer c s.rows).1))
      (o.answer c s.rows).2 := by
  simp only [phasePlace, if_pos hu]
  cases ph with
  | finding =>
    cases ho
    rcases ha : (HOp.answer (.findOne v) c s.rows).1 with e | (_ | r)
    · exact placeStep_out s u _
    · -- the check passes
      simp only [HOp.answer] at ha
      split_ifs at ha with hok
      have hr := not_recorded_of_findOne hu ha
      have halone : s.alone u = true := by
        simpa [State.allows, hok] using hc.resolve_left hr
      refine ⟨fun _ => ⟨rfl, hr, halone⟩, fun h => ?_, fun h => absurd rfl h⟩
      cases h
    · exact placeStep_out s u _
  | entering =>
    cases ho
    refine ⟨fun h => ?_, fun _ h => ?_, fun _ => ?_⟩
    · cases c <;> cases h
    · cases h
    · rcases hc with hr | hok
      · exact Or.inr hr
      · simp only [State.allows] at hok
        exact Or.inl (by simp [HOp.answer, hok, Phase.after])
  | selecting =>
    cases ho
    refine ⟨fun h => ?_, fun _ h => ?_, fun _ => ?_⟩
    · revert h
      rcases (HOp.answer (.saveSelect v) c s.rows).1 with e | f <;> intro h <;> cases h
    · cases h
    · rcases hc with hr | hok
      · exact Or.inr hr
      · simp only [State.allows] at hok
        obtain ⟨found, hf⟩ := saveSelect_ok hu s.rows
        exact Or.inl (by simp [HOp.answer, hok, hf, Phase.after])
  | writing found =>
    cases ho
    refine ⟨fun h => ?_, fun _ h => ?_, fun _ => Or.inr ?_⟩
    · revert h
      rcases (HOp.answer (.saveWrite v w found) c s.rows).1 with e | f <;> intro h <;> cases h
    · cases h
    · rcases hc with hr | hok
      · exact hr.keeps (answer_keeps _ c _)
      · simp only [State.allows, Bool.and_eq_true, Option.any_eq_true, decide_eq_true_eq] at hok
        obtain ⟨hl, rows', hw, hr⟩ := hok
        simpa [HOp.answer, hw, hl] using hr
  | acking inTry => cases ho; cases inTry <;> cases c <;> exact placeStep_out s u _
  | nacking => cases ho; cases c <;> exact placeStep_out s u _
  | done | failed => cases ho

/-- An operation of a call in any place. -/
theorem place_step {s : State} {u : Uuid} {content : Bytes} {o : HOp}
    {k : Except Unit o.Ans → Handler Unit} (hs : Stands content (.await o k)) {c : Outcome}
    (hc : opEvent o = some u → Recorded u s.rows ∨ s.allows u c o = true) :
    PlaceStep s u (opPlace u o) (place u (k (o.answer c s.rows).1)) (o.answer c s.rows).2 := by
  rcases hs with ⟨payload, v, w, ph, -, hm, he⟩ | he | he
  · obtain ⟨ho, hk⟩ := code_answer hm he.symm
    have hp : opPlace u o = phasePlace u v ph := by
      rw [← place_code hm, ← he]; rfl
    rw [hk, place_code hm, hp]
    by_cases hu : uuidOf v = some u
    · refine phase_step hu ho ?_
      cases ph with
      | done | failed => cases ho
      | acking | nacking => cases ho; exact Or.inr rfl
      | finding | selecting | writing => cases ho; exact hc hu
      | entering => cases ho; exact hc (by rw [opEvent, eventOf_members hm, hu])
    · simp only [phasePlace, if_neg hu]
      exact placeStep_out s u _
  · cases he
    cases c <;> exact placeStep_out s u _
  · cases he

theorem entered_count (u : Uuid) (o : HOp) :
    (entered o).countP (fun p => eventOf p == some u) = if opPlace u o = .pending then 1 else 0 := by
  cases o with
  | sideEffect payload => by_cases h : eventOf payload = some u <;> simp [entered, opPlace, h]
  | saveSelect v | saveWrite v => by_cases h : uuidOf v = some u <;> simp [entered, opPlace, h]
  | findOne | ack | nack => simp [entered, opPlace]

/-! ## The invariant -/

/-- The call `i` is on an instance that is up, in the place `pl` for the event `u`. -/
def State.callAt (s : State) (u : Uuid) (i : ℕ) (pl : Place) : Prop :=
  ∃ call, s.calls[i]? = some call ∧ s.live call = true ∧ place u call.prog = pl

/-- At most one call is between check and save of `u`; a call about to enter the block is the
    first; the block was entered at most once, and then its call is not done or `u` is recorded. -/
structure AtMost (u : Uuid) (s : State) : Prop where
  stands : ∀ call ∈ s.calls, Stands call.content call.prog
  one : ∀ i j pl pl', s.callAt u i pl → s.callAt u j pl' → pl ≠ .out → pl' ≠ .out → i = j
  fresh : ∀ i, s.callAt u i .pending → s.timesEntered u = 0
  le : s.timesEntered u ≤ 1
  saved : s.timesEntered u ≠ 0 → Recorded u s.rows ∨ ∃ i, s.callAt u i .unsaved

theorem atMost_init (u : Uuid) (rows : List ProcessedEvent) : AtMost u (init rows) where
  stands := by simp [init]
  one := by rintro i j pl pl' ⟨call, h, -⟩; simp [init] at h
  fresh := by rintro i ⟨call, h, -⟩; simp [init] at h
  le := Nat.zero_le 1
  saved := fun h => absurd rfl h

/-- The invariant reads the calls, the crashes, the effects and the table. -/
theorem AtMost.congr {u : Uuid} {s s' : State} (h : AtMost u s) (h1 : s'.calls = s.calls)
    (h2 : s'.crashed = s.crashed) (h3 : s'.effects = s.effects) (h4 : s'.rows = s.rows) :
    AtMost u s' := by
  obtain ⟨b, r, p, cl, cr, ch, n, ca, e⟩ := s'
  dsimp only at h1 h2 h3 h4
  subst h1 h2 h3 h4
  exact ⟨h.stands, h.one, h.fresh, h.le, h.saved⟩

/-- A new call is outside. -/
theorem AtMost.deliver {u : Uuid} {s : State} (h : AtMost u s) (call : Handling)
    (hs : Stands call.content call.prog) (hout : place u call.prog = .out) (b : QQueue Bytes) :
    AtMost u { s with broker := b, calls := s.calls ++ [call] } := by
  have old : ∀ {i pl}, pl ≠ Place.out →
      ({ s with broker := b, calls := s.calls ++ [call] } : State).callAt u i pl → s.callAt u i pl := by
    rintro i pl hpl ⟨c, hc, hl, hp⟩
    rcases snoc_cases hc with ⟨-, rfl⟩ | hc
    · exact absurd (hp.symm.trans hout) hpl
    · exact ⟨c, hc, hl, hp⟩
  have new : ∀ {i pl}, s.callAt u i pl →
      ({ s with broker := b, calls := s.calls ++ [call] } : State).callAt u i pl := by
    rintro i pl ⟨c, hc, hl, hp⟩
    exact ⟨c, getElem?_snoc hc, hl, hp⟩
  refine ⟨?_, ?_, ?_, h.le, ?_⟩
  · intro c hc
    rcases List.mem_append.1 hc with hc | hc
    · exact h.stands c hc
    · obtain rfl := List.mem_singleton.1 hc
      exact hs
  · exact fun i j pl pl' hi hj hpl hpl' => h.one i j pl pl' (old hpl hi) (old hpl' hj) hpl hpl'
  · exact fun i hi => h.fresh i (old nofun hi)
  · exact fun hn => (h.saved hn).imp_right fun ⟨i, hi⟩ => ⟨i, new hi⟩

/-- A crash takes calls away; none of them had entered the block without `u` being recorded. -/
theorem AtMost.crash {u : Uuid} {s : State} (h : AtMost u s) {inst : ℕ}
    (hc : ∀ (i : ℕ) (call : Handling), s.calls[i]? = some call → call.inst = inst → s.live call = true →
      place u call.prog = .unsaved → Recorded u s.rows) :
    AtMost u { s with crashed := inst :: s.crashed } := by
  have old : ∀ {i pl}, ({ s with crashed := inst :: s.crashed } : State).callAt u i pl →
      s.callAt u i pl := by
    rintro i pl ⟨call, hi, hl, hp⟩
    exact ⟨call, hi, by simp [State.live] at hl ⊢; exact hl.2, hp⟩
  refine ⟨h.stands, fun i j pl pl' hi hj => h.one i j pl pl' (old hi) (old hj),
    fun i hi => h.fresh i (old hi), h.le, fun hn => ?_⟩
  rcases h.saved hn with hr | ⟨i, call, hi, hl, hp⟩
  · exact Or.inl hr
  · by_cases he : call.inst = inst
    · exact Or.inl (hc i call hi he hl hp)
    · exact Or.inr ⟨i, call, hi, by simp [State.live] at hl ⊢; exact ⟨he, hl⟩, hp⟩

section
variable {u : Uuid} {s : State} {i : ℕ} {call : Handling} {o : HOp}
  {k : Except Unit o.Ans → Handler Unit} {c : Outcome}

/-- After an operation of the call `i`, that call is where its answer leads, the others where they
    were. -/
theorem callAt_perform (hi : s.calls[i]? = some call) (hl : s.live call = true) {j : ℕ} {pl : Place} :
    (s.perform i call o k c).callAt u j pl ↔
      (j = i ∧ place u (k (o.answer c s.rows).1) = pl) ∨ (j ≠ i ∧ s.callAt u j pl) := by
  have hlen := (List.getElem?_eq_some_iff.1 hi).1
  by_cases hj : j = i
  · subst hj
    constructor
    · rintro ⟨c', hc', -, hp⟩
      simp only [State.perform, List.getElem?_set_self hlen, Option.some.injEq] at hc'
      subst hc'
      exact Or.inl ⟨rfl, hp⟩
    · rintro (⟨-, hp⟩ | ⟨hne, -⟩)
      · exact ⟨_, List.getElem?_set_self hlen, hl, hp⟩
      · exact absurd rfl hne
  · constructor
    · rintro ⟨c', hc', hl', hp⟩
      exact Or.inr ⟨hj, c', (List.getElem?_set_ne (Ne.symm hj)).symm.trans hc', hl', hp⟩
    · rintro (⟨rfl, -⟩ | ⟨-, c', hc', hl', hp⟩)
      · exact absurd rfl hj
      · exact ⟨c', (List.getElem?_set_ne (Ne.symm hj)).trans hc', hl', hp⟩

theorem State.callAt.eq {pl : Place} (h : s.callAt u i pl) (hi : s.calls[i]? = some call)
    (hp : call.prog = .await o k) : opPlace u o = pl := by
  obtain ⟨call', hi', -, he⟩ := h
  obtain rfl : call' = call := Option.some.inj (hi'.symm.trans hi)
  rw [hp] at he
  exact he

theorem State.alone_out (h : s.alone u = true) {j : ℕ} {pl : Place} (hj : s.callAt u j pl) :
    pl = .out := by
  obtain ⟨call, hj, hl, rfl⟩ := hj
  simpa [hl] using List.all_eq_true.1 h call (List.mem_of_getElem? hj)

/-- Where a call is inside, or gets inside, all others are outside. -/
theorem AtMost.others (h : AtMost u s) (here : s.callAt u i (opPlace u o)) {p' : Place}
    {rows' : List ProcessedEvent} (hst : PlaceStep s u (opPlace u o) p' rows')
    (hin : opPlace u o ≠ .out ∨ p' ≠ .out) {j : ℕ} {pl : Place} (hj : j ≠ i) (hat : s.callAt u j pl) :
    pl = .out := by
  by_contra hpl
  by_cases hout : opPlace u o = .out
  · have hnew := hin.resolve_left fun h => h hout
    cases p' with
    | out => exact hnew rfl
    | pending => exact hpl (State.alone_out (hst.pending rfl).2.2 hat)
    | unsaved => exact hst.unsaved rfl hout
  · exact hj (h.one j i pl _ hat here hpl hout)

theorem timesEntered_perform : (s.perform i call o k c).timesEntered u =
    (if opPlace u o = .pending then 1 else 0) + s.timesEntered u := by
  simp only [State.timesEntered, State.perform, List.countP_append, entered_count]

/-- **An operation of a call keeps the invariant.** -/
theorem AtMost.perform (h : AtMost u s) (hi : s.calls[i]? = some call) (hp : call.prog = .await o k)
    (hl : s.live call = true)
    (hc : opEvent o = some u → Recorded u s.rows ∨ s.allows u c o = true) :
    AtMost u (s.perform i call o k c) := by
  have hstands : Stands call.content (.await o k) := hp ▸ h.stands call (List.mem_of_getElem? hi)
  have hst := place_step hstands hc
  have here : s.callAt u i (opPlace u o) := ⟨call, hi, hl, by rw [hp]; rfl⟩
  have hat : ∀ {j pl}, (s.perform i call o k c).callAt u j pl → _ := fun h => (callAt_perform hi hl).1 h
  have others : ∀ {j pl}, opPlace u o ≠ .out ∨ place u (k (o.answer c s.rows).1) ≠ .out → j ≠ i →
      s.callAt u j pl → pl = .out := fun hin => h.others here hst hin
  refine ⟨?_, ?_, ?_, ?_, ?_⟩
  · intro c' hc'
    rcases List.mem_or_eq_of_mem_set hc' with hc' | rfl
    · exact h.stands c' hc'
    · exact stands_answer hstands _
  · intro j₁ j₂ pl₁ pl₂ h₁ h₂ hpl₁ hpl₂
    rcases hat h₁ with ⟨e₁, rfl⟩ | ⟨hne₁, ho₁⟩ <;> rcases hat h₂ with ⟨e₂, rfl⟩ | ⟨hne₂, ho₂⟩
    · rw [e₁, e₂]
    · exact absurd (others (Or.inr hpl₁) hne₂ ho₂) hpl₂
    · exact absurd (others (Or.inr hpl₂) hne₁ ho₁) hpl₁
    · exact h.one j₁ j₂ pl₁ pl₂ ho₁ ho₂ hpl₁ hpl₂
  · intro j hj
    rw [timesEntered_perform]
    rcases hat hj with ⟨rfl, he⟩ | ⟨hne, hj⟩
    · -- this call has passed the check: the block was not entered before
      obtain ⟨hout, hnr, halone⟩ := hst.pending he
      rw [hout, if_neg nofun, Nat.zero_add]
      by_contra hn
      rcases h.saved hn with hr | ⟨j', hj'⟩
      · exact hnr hr
      · exact nomatch State.alone_out halone hj'
    · have hout : opPlace u o = .out := by
        by_contra hne'
        exact nomatch others (Or.inl hne') hne hj
      rw [hout, if_neg nofun, Nat.zero_add]
      exact h.fresh j hj
  · rw [timesEntered_perform]
    split_ifs with hpd
    · rw [h.fresh i (hpd ▸ here)]
    · simpa using h.le
  · intro hn
    by_cases hout : opPlace u o = .out
    · rw [timesEntered_perform, hout, if_neg nofun, Nat.zero_add] at hn
      refine (h.saved hn).imp (fun hr => hr.keeps (answer_keeps o c s.rows)) ?_
      rintro ⟨j, hj⟩
      refine ⟨j, (callAt_perform hi hl).2 (Or.inr ⟨?_, hj⟩)⟩
      rintro rfl
      exact nomatch hout.symm.trans (hj.eq hi hp)
    · exact (hst.inside hout).symm.imp_right fun he => ⟨i, (callAt_perform hi hl).2 (Or.inl ⟨rfl, he⟩)⟩

end

theorem allows_of_careful {s : State} {i : ℕ} {call : Handling} {o : HOp}
    {k : Except Unit o.Ans → Handler Unit} {c : Outcome} {u : Uuid} (h : careful s (.run i c) = true)
    (hi : s.calls[i]? = some call) (hp : call.prog = .await o k) (hu : opEvent o = some u) :
    Recorded u s.rows ∨ s.allows u c o = true := by
  simpa [careful, hi, hp, Async.next, hu] using h

theorem opEvent_of_unsaved {u : Uuid} {o : HOp} (h : opPlace u o = .unsaved) : opEvent o = some u := by
  cases o with
  | saveSelect v | saveWrite v => rw [opPlace] at h; split_ifs at h with hu; exact hu
  | sideEffect payload => rw [opPlace] at h; split_ifs at h
  | findOne | ack | nack => cases h

theorem recorded_of_careful {s : State} {inst i : ℕ} {call : Handling} {u : Uuid}
    (h : careful s (.crash inst) = true) (hi : s.calls[i]? = some call) (he : call.inst = inst)
    (hl : s.live call = true) (hp : place u call.prog = .unsaved) : Recorded u s.rows := by
  have hc := List.all_eq_true.1 h call (List.mem_of_getElem? hi)
  cases hn : call.prog.next with
  | none => rw [place, hn] at hp; cases hp
  | some o =>
    have hu : opEvent o = some u := opEvent_of_unsaved (by rwa [place, hn] at hp)
    simpa [he, hl, hn, hu, hp] using hc

/-- **The step lemma.** -/
theorem step_atMost {u : Uuid} {s s' : State} {a : Action} (h : AtMost u s)
    (hc : careful s a = true) (ha : step s a = some s') : AtMost u s' := by
  cases step_cases ha with
  | publish | send | unsend | confirm | reject | close | inject | openChannel | deliverDead
  | loseChannel => exact h.congr rfl rfl rfl rfl
  | deliver => exact h.deliver _ (stands_handleMessage _) (place_handleMessage u _) _
  | run hi hp hl =>
    exact h.perform hi hp (by simpa [State.live] using hl) (allows_of_careful hc hi hp)
  | crash => exact h.crash fun i call hi => recorded_of_careful hc hi

/-- **At-most-once effect.**  Along a run of careful steps, the side-effect block is entered at
    most once for each event. -/
theorem effect_at_most_once {rows : List ProcessedEvent} {as : List Action} {s : State}
    (h : run (init rows) as = some s)
    (hc : Along step (fun s a => careful s a = true) (init rows) as) (u : Uuid) :
    s.timesEntered u ≤ 1 :=
  (exec_inv_along (fun _ _ _ => step_atMost) (atMost_init u rows) hc h).le

/-- The message is delivered to two instances, the second of which finds the event recorded. -/
theorem effect_at_most_once_duplicate :
    ∃ s, run (init []) [.openChannel 0, .openChannel 1, .publish 0 sampleEvent, .send 0, .unsend 0,
      .send 0, .deliver 0 0, .run 0 .ok, .deliver 1 1, .run 0 .ok, .run 0 .ok, .run 0 .ok, .crash 0,
      .run 1 .ok, .run 1 .ok] = some s ∧ s.timesEntered sampleEvent.eventId ≤ 1 := by
  have hrun : (run (init []) [.openChannel 0, .openChannel 1, .publish 0 sampleEvent, .send 0,
    .unsend 0, .send 0, .deliver 0 0, .run 0 .ok, .deliver 1 1, .run 0 .ok, .run 0 .ok, .run 0 .ok,
    .crash 0, .run 1 .ok, .run 1 .ok]).isSome = true := by decide +kernel
  obtain ⟨s, h⟩ := Option.isSome_iff_exists.1 hrun
  exact ⟨s, h, effect_at_most_once h (by decide +kernel) _⟩

/-- The save is rejected after the block, the message goes back to the queue, and the block runs
    again. -/
theorem effect_twice :
    ∃ s, run (init []) [.openChannel 0, .publish 0 sampleEvent, .send 0, .deliver 0 0, .run 0 .ok,
      .run 0 .ok, .run 0 .fail, .run 0 .ok, .deliver 0 0, .run 1 .ok, .run 1 .ok] = some s ∧
      ¬ s.timesEntered sampleEvent.eventId ≤ 1 := by
  obtain ⟨s, h, he⟩ := Option.map_eq_some_iff.1 (by decide +kernel : (run (init []) [.openChannel 0,
    .publish 0 sampleEvent, .send 0, .deliver 0 0, .run 0 .ok, .run 0 .ok, .run 0 .fail, .run 0 .ok,
    .deliver 0 0, .run 1 .ok, .run 1 .ok]).map (·.timesEntered sampleEvent.eventId) = some 2)
  exact ⟨s, h, by omega⟩

end SystemDesign.Queue
