/-
  What an acknowledgement means.

  `code_safe`: in every phase, and whatever others do to the table, a call acks only when the
  event of its own payload is recorded, provided a message without an event id has not been taken
  for a duplicate.  `ackSound_iff` says for which contents and tables this goes wrong.
-/
import SystemDesign.Queue.Consumer

namespace SystemDesign

open Lib

/-- No row is removed, and none gets another key. -/
def Keeps (rows rows' : List ProcessedEvent) : Prop :=
  ∀ r ∈ rows, ∃ r' ∈ rows', r'.eventId = r.eventId

instance (rows rows' : List ProcessedEvent) : Decidable (Keeps rows rows') :=
  inferInstanceAs (Decidable (∀ r ∈ rows, ∃ r' ∈ rows', r'.eventId = r.eventId))

theorem Keeps.refl (rows : List ProcessedEvent) : Keeps rows rows := fun r hr => ⟨r, hr, rfl⟩

theorem Keeps.trans {r₁ r₂ r₃ : List ProcessedEvent} (h : Keeps r₁ r₂) (h' : Keeps r₂ r₃) :
    Keeps r₁ r₃ := by
  intro r hr
  obtain ⟨r', hr', he⟩ := h r hr
  obtain ⟨r'', hr'', he'⟩ := h' r' hr'
  exact ⟨r'', hr'', he'.trans he⟩

/-- The event `u` has a committed row. -/
def Recorded (u : Uuid) (rows : List ProcessedEvent) : Prop := ∃ r ∈ rows, r.eventId = u

instance (u : Uuid) (rows : List ProcessedEvent) : Decidable (Recorded u rows) :=
  inferInstanceAs (Decidable (∃ r ∈ rows, r.eventId = u))

theorem Recorded.keeps {u : Uuid} {rows rows' : List ProcessedEvent} (h : Recorded u rows)
    (hk : Keeps rows rows') : Recorded u rows' := by
  obtain ⟨r, hr, rfl⟩ := h
  exact hk r hr

/-! ## Operations on the table -/

theorem keeps_update {v w : JsValue} {rows rows' : List ProcessedEvent}
    (h : updateEvent v w rows = some rows') : Keeps rows rows' := by
  unfold updateEvent at h
  split at h
  · cases h; exact Keeps.refl _
  · cases h
  · split_ifs at h
    cases h
    exact fun r hr => ⟨_, List.mem_map_of_mem hr, by split_ifs <;> rfl⟩

/-- An insert adds the row of its key. -/
theorem insertEvent_some {v w : JsValue} {rows rows' : List ProcessedEvent}
    (h : insertEvent v w rows = some rows') :
    ∃ u t, uuidOf v = some u ∧ ¬ Recorded u rows ∧ rows' = ⟨u, t⟩ :: rows := by
  unfold insertEvent at h
  split at h
  · cases h
  · cases h
  · cases h
  · next u t _ hu =>
    split_ifs at h with hr
    cases h
    simp only [Bool.or_eq_true, not_or] at hr
    exact ⟨u, t, hu, by simpa [Recorded] using hr.2, rfl⟩

theorem keeps_write {v w : JsValue} {found : Bool} {rows rows' : List ProcessedEvent}
    (h : saveWrite v w found rows = some rows') : Keeps rows rows' := by
  unfold saveWrite at h
  split_ifs at h
  · exact keeps_update h
  · obtain ⟨u, t, -, -, rfl⟩ := insertEvent_some h
    exact fun r hr => ⟨r, List.mem_cons_of_mem _ hr, rfl⟩

theorem answer_keeps (o : HOp) (c : Outcome) (rows : List ProcessedEvent) :
    Keeps rows (o.answer c rows).2 := by
  cases o with
  | saveWrite v w found =>
    simp only [HOp.answer]
    split
    · exact Keeps.refl _
    · next h =>
      dsimp only
      split_ifs
      · exact keeps_write h
      · exact Keeps.refl _
  | findOne | sideEffect | saveSelect | ack | nack => exact Keeps.refl _

/-- A row found for a value that is not nullish is the row of that event. -/
theorem recorded_of_findOne {v : JsValue} {rows : List ProcessedEvent} {r : ProcessedEvent}
    (hv : isNullish v = false) (h : findOne v rows = .ok (some r)) :
    ∃ u, uuidOf v = some u ∧ Recorded u rows := by
  rw [findOne, whereUuid_of_not_nullish hv] at h
  cases hu : uuidOf v with
  | none => rw [hu] at h; cases h
  | some u =>
    rw [hu] at h
    simp only [Option.map_some, Except.ok.injEq] at h
    have he := List.find?_some h
    simp only [UuidWhere.holds, beq_iff_eq] at he
    exact ⟨u, rfl, r, List.mem_of_find?_eq_some h, he.symm⟩

theorem recorded_of_select {v : JsValue} {rows : List ProcessedEvent}
    (h : saveSelect v rows = .ok true) : ∃ u, uuidOf v = some u ∧ Recorded u rows := by
  unfold saveSelect at h
  split at h
  · cases h
  · cases h
  · next s =>
    split_ifs at h with hs
    simp only [Except.ok.injEq, List.any_eq_true, beq_iff_eq] at h
    obtain ⟨r, hr, rfl⟩ := h
    exact ⟨r.eventId, Uuid.ofText_toText _, r, hr, rfl⟩
  · cases h

/-! ## What holds in each phase -/

/-- The value that names the event of a message, where the handler reads one. -/
def eventIdValue (content : Bytes) : Option JsValue :=
  (Json.parse (ofUtf8 content)).bind fun payload => (payload.get (js "eventId")).toOption

/-- The message carries an event id, and its event is recorded. -/
def Justified (content : Bytes) (rows : List ProcessedEvent) : Prop :=
  ∃ v u, eventIdValue content = some v ∧ uuidOf v = some u ∧ Recorded u rows

theorem Justified.keeps {content : Bytes} {rows rows' : List ProcessedEvent}
    (h : Justified content rows) (hk : Keeps rows rows') : Justified content rows' := by
  obtain ⟨v, u, hv, hu, hr⟩ := h
  exact ⟨v, u, hv, hu, hr.keeps hk⟩

/-- What is known of the table in a phase: a call about to ack has its event recorded.  A message
    without an event id must find the table empty. -/
def Phase.Good (v : JsValue) (rows : List ProcessedEvent) : Phase → Prop
  | finding => isNullish v = true → rows = []
  | writing true | acking _ => ∃ u, uuidOf v = some u ∧ Recorded u rows
  | _ => True

theorem Phase.Good.keeps {v : JsValue} {rows rows' : List ProcessedEvent} {ph : Phase}
    (h : ph.Good v rows) (hk : Keeps rows rows') (hv : ph = finding → isNullish v = false) :
    ph.Good v rows' := by
  cases ph with
  | finding => exact fun hn => by rw [hv rfl] at hn; cases hn
  | acking => obtain ⟨u, hu, hr⟩ := h; exact ⟨u, hu, hr.keeps hk⟩
  | writing found =>
    cases found with
    | true => obtain ⟨u, hu, hr⟩ := h; exact ⟨u, hu, hr.keeps hk⟩
    | false => trivial
  | entering | selecting | nacking | done | failed => trivial

/-- A write that succeeds leaves the event recorded. -/
theorem recorded_of_write {v w : JsValue} {found : Bool} {rows rows' : List ProcessedEvent}
    (hg : (Phase.writing found).Good v rows) (h : saveWrite v w found rows = some rows') :
    ∃ u, uuidOf v = some u ∧ Recorded u rows' := by
  cases found with
  | true =>
    obtain ⟨u, hu, hr⟩ := hg
    exact ⟨u, hu, hr.keeps (keeps_write h)⟩
  | false =>
    obtain ⟨u, t, hu, -, rfl⟩ := insertEvent_some h
    exact ⟨u, hu, ⟨u, t⟩, List.mem_cons_self, rfl⟩

/-- **The step lemma**: an answer leads to a phase whose knowledge holds. -/
theorem good_after {payload : Json} {v w : JsValue} {rows : List ProcessedEvent} {ph : Phase}
    {o : HOp} (hg : ph.Good v rows) (ho : ph.op payload v w = some o) (c : Outcome) :
    (ph.after o (o.answer c rows).1).Good v (o.answer c rows).2 := by
  cases ph with
  | finding =>
    cases ho
    simp only [HOp.answer]
    cases hc : c.isOk with
    | false => trivial
    | true =>
      simp only [if_true]
      rcases hf : findOne v rows with e | (_ | r)
      · trivial
      · trivial
      · cases hv : isNullish v with
        | false => exact recorded_of_findOne hv hf
        | true => rw [hg hv, findOne, whereUuid_nullish hv] at hf; cases hf
  | selecting =>
    cases ho
    simp only [HOp.answer]
    cases hc : c.isOk with
    | false => trivial
    | true =>
      simp only [if_true]
      rcases hs : saveSelect v rows with e | (_ | _)
      · trivial
      · trivial
      · exact recorded_of_select hs
  | writing found =>
    cases ho
    simp only [HOp.answer]
    cases hw : saveWrite v w found rows with
    | none => trivial
    | some rows' =>
      cases c with
      | ok => exact recorded_of_write hg hw
      | fail | lost => trivial
  | entering | nacking => cases ho; cases c <;> trivial
  | acking inTry => cases ho; cases inTry <;> cases c <;> trivial
  | done | failed => cases ho

/-! ## Acknowledgements -/

/-- An operation on the table, for running a handler. -/
def onTable (o : HOp) (c : Outcome) (rows : List ProcessedEvent) :
    Option (Except Unit o.Ans × List ProcessedEvent) := some (o.answer c rows)

/-- What each operation of a handler of `content` guarantees. -/
def Acks (content : Bytes) (o : HOp) (rows rows' : List ProcessedEvent) : Prop :=
  Keeps rows rows' ∧ (o = .ack → Justified content rows)

/-- A handler that acks only recorded events, whatever others do. -/
abbrev AcksSafely (content : Bytes) : Handler Unit → List ProcessedEvent → Prop :=
  Async.Safe onTable Keeps (Acks content) fun _ _ => True

theorem safe_keeps {content : Bytes} {p : Handler Unit} {rows rows' : List ProcessedEvent}
    (h : AcksSafely content p rows) (hk : Keeps rows rows') : AcksSafely content p rows' :=
  Async.Safe.rely (R := Keeps) (fun _ _ _ => Keeps.trans) (fun _ _ _ _ _ => trivial) h hk

theorem eventIdValue_eq {content : Bytes} {payload : Json} {v w : JsValue}
    (hp : Json.parse (ofUtf8 content) = some payload) (hm : Members payload v w) :
    eventIdValue content = some v := by
  rw [eventIdValue, hp, Option.bind_some, hm.eventId]
  rfl

/-- An `ack` in a phase whose knowledge holds is justified. -/
theorem justified_of_ack {content : Bytes} {payload : Json} {v w : JsValue}
    (he : eventIdValue content = some v) {rows : List ProcessedEvent} {ph : Phase}
    (hg : ph.Good v rows) (ho : ph.op payload v w = some .ack) : Justified content rows := by
  cases ph with
  | acking => obtain ⟨u, hu, hr⟩ := hg; exact ⟨v, u, he, hu, hr⟩
  | finding | entering | selecting | writing | nacking | done | failed => cases ho

theorem after_ne_finding (ph : Phase) (o : HOp) (a : Except Unit o.Ans) : ph.after o a ≠ .finding := by
  unfold Phase.after
  split
  · split_ifs <;> simp
  all_goals simp

/-- **In every phase but the first, a call is safe whatever its event id is.** -/
theorem code_safe {content : Bytes} {payload : Json} {v w : JsValue} (hm : Members payload v w)
    (he : eventIdValue content = some v) {ph : Phase} {rows : List ProcessedEvent}
    (hg : ph.Good v rows) (hv : ph = .finding → isNullish v = false) :
    AcksSafely content (ph.code payload v w) rows := by
  generalize hp : ph.code payload v w = p
  induction p generalizing ph rows with
  | ret | throw => trivial
  | await o k ih =>
    intro rows' hk c a rows'' hs
    obtain ⟨rfl, rfl⟩ := Prod.mk.inj (Option.some.inj hs)
    obtain ⟨ho, hcode⟩ := code_answer hm hp
    have hg' := hg.keeps hk hv
    refine ⟨⟨answer_keeps o c rows', ?_⟩, ?_⟩
    · rintro rfl
      exact justified_of_ack he hg' ho
    · exact ih _ (good_after hg' ho c) (fun h => absurd h (after_ne_finding _ _ _)) (hcode _).symm

/-- The message carries no event id: the value is missing or `null`. -/
def LacksId (content : Bytes) : Prop := ∃ v, eventIdValue content = some v ∧ isNullish v = true

/-- A handler of a message that does not lack its event id acks only recorded events. -/
theorem handleMessage_safe {content : Bytes} (h : ¬ LacksId content) (rows : List ProcessedEvent) :
    AcksSafely content (handleMessage (some content)) rows := by
  have hb := handleMessage_begins content
  generalize handleMessage (some content) = p at hb ⊢
  cases hb with
  | unparsed =>
    intro rows' _ c a rows'' hs
    cases hs
    refine ⟨⟨Keeps.refl rows', fun h => nomatch h⟩, ?_⟩
    cases c <;> trivial
  | thrown => trivial
  | @finding payload v w hp hm =>
    have he := eventIdValue_eq hp hm
    have hn : isNullish v = false := by
      cases hb : isNullish v with
      | false => rfl
      | true => exact absurd ⟨v, he, hb⟩ h
    exact code_safe hm he (fun hb => by rw [hn] at hb; cases hb) fun _ => hn

/-! ## Which contents are acked soundly -/

/-- Whatever faults occur and whatever others commit meanwhile, a call for `content` whose first
    read finds the table `rows` acks only when the event of its message is recorded. -/
def AckSound (content : Bytes) (rows : List ProcessedEvent) : Prop :=
  ∀ cs os, Async.runAmong onTable Keeps (handleMessage (some content)) cs rows = some os →
    ∀ x ∈ os, x.1 = .ack → Justified content x.2

theorem AcksSafely.ackSound {content : Bytes} {p : Handler Unit} {rows : List ProcessedEvent}
    (h : AcksSafely content p rows) {cs : List (Outcome × List ProcessedEvent)}
    {os : List (HOp × List ProcessedEvent)} (he : Async.runAmong onTable Keeps p cs rows = some os)
    {x : HOp × List ProcessedEvent} (hx : x ∈ os) (hack : x.1 = .ack) : Justified content x.2 := by
  obtain ⟨rows', -, hG⟩ := h.runAmong Keeps.refl (fun _ _ _ => Keeps.trans) (fun _ _ _ _ _ => trivial)
    he x hx
  exact hG hack

/-- A message without an event id that finds the table empty is not acked. -/
theorem ackSound_of_empty {content : Bytes} {payload : Json} {v w : JsValue}
    (hp : Json.parse (ofUtf8 content) = some payload) (hm : Members payload v w) :
    AckSound content [] := by
  intro cs os he x hx hack
  have hev := eventIdValue_eq hp hm
  rw [handleMessage_parsed hp, handlePayload_eq hm, code_of_op hm rfl] at he
  rcases Async.mem_runAmong_await he hx with rfl | ⟨c, a, rows', rows₂, cs', os', hs, hk, he', hx⟩
  · cases hack
  · obtain ⟨rfl, rfl⟩ := Prod.mk.inj (Option.some.inj hs)
    have hne := after_ne_finding .finding (.findOne v) (HOp.answer (.findOne v) c []).1
    have hempty : Phase.finding.Good v [] := fun _ => rfl
    have ho : Phase.finding.op payload v w = some (.findOne v) := rfl
    have hg := good_after hempty ho c
    exact (code_safe hm hev (hg.keeps hk fun h => absurd h hne) fun h => absurd h hne).ackSound
      he' hx hack

/-- A message without an event id that finds a row is acked as a duplicate. -/
theorem not_ackSound {content : Bytes} (h : LacksId content) {r : ProcessedEvent}
    {rows : List ProcessedEvent} : ¬ AckSound content (r :: rows) := by
  obtain ⟨v, hv, hn⟩ := h
  obtain ⟨payload, hp, hg⟩ := Option.bind_eq_some_iff.1 hv
  cases hget : payload.get (js "eventId") with
  | error e => rw [hget] at hg; cases hg
  | ok v' =>
    obtain ⟨v'', w, hm⟩ := members_of_get hget
    obtain rfl : v'' = v := by rw [hm.eventId] at hg; cases hg; rfl
    have hf : findOne v'' (r :: rows) = .ok (some r) := by
      rw [findOne, whereUuid_nullish hn]; rfl
    intro hs
    have hrun : Async.runAmong onTable Keeps (handleMessage (some content))
        [(.ok, r :: rows), (.ok, r :: rows)] (r :: rows) =
        some [(.findOne v'', r :: rows), (.ack, r :: rows)] := by
      rw [handleMessage_parsed hp, handlePayload_eq hm, code_of_op hm rfl]
      simp [Async.runAmong, onTable, HOp.answer, Outcome.isOk, hf, Phase.after, Phase.code, Keeps.refl,
        perform, Async.call]
    obtain ⟨v, u, hv', hu, -⟩ := hs _ _ hrun (.ack, r :: rows) (by simp) rfl
    rw [hv] at hv'
    cases hv'
    rw [uuidOf_nullish hn] at hu
    cases hu

/-- **Which messages are acked soundly**: all, except those that lack an event id and find the
    table not empty. -/
theorem ackSound_iff (content : Bytes) (rows : List ProcessedEvent) :
    AckSound content rows ↔ ¬ (LacksId content ∧ rows ≠ []) := by
  constructor
  · rintro hs ⟨hl, hr⟩
    obtain ⟨r, rows, rfl⟩ := List.exists_cons_of_ne_nil hr
    exact not_ackSound hl hs
  · intro h
    by_cases hl : LacksId content
    · obtain rfl : rows = [] := by
        by_contra hr; exact h ⟨hl, hr⟩
      obtain ⟨v, hv, -⟩ := hl
      obtain ⟨payload, hp, hg⟩ := Option.bind_eq_some_iff.1 hv
      cases hget : payload.get (js "eventId") with
      | error e => rw [hget] at hg; cases hg
      | ok v' =>
        obtain ⟨_, _, hm⟩ := members_of_get hget
        exact ackSound_of_empty hp hm
    · exact fun cs os he x hx => (handleMessage_safe hl rows).ackSound he hx

/-- The message `{}` is acked as a duplicate of an event it has nothing to do with. -/
theorem ackSound_fails :
    ¬ AckSound [0x7B, 0x7D] [⟨Uuid.ofNat 1, .str (js "task.created")⟩] :=
  not_ackSound ⟨none, rfl, rfl⟩

end SystemDesign
