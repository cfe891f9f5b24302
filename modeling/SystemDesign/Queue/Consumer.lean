/-
  `QueueConsumerService.handleMessage` and the table `processed_events`.

  `handleMessage` is a program awaiting the operations `HOp`; `HOp.answer` is what each of them
  does to the table.  `Phase` lists where a call can stand.
-/
import SystemDesign.Database
import SystemDesign.Lib.Async
import SystemDesign.Queue.Message

namespace SystemDesign

open Lib

/-- A row of `processed_events`; `eventType` is the value that was sent for the column. -/
structure ProcessedEvent where
  eventId : Uuid
  eventType : Json

/-! ## The table -/

/-- `findOne({ where: { eventId: v } })`; an error where the query is rejected. -/
def findOne (v : JsValue) (rows : List ProcessedEvent) : Except Unit (Option ProcessedEvent) :=
  match whereUuid v with
  | none => .error ()
  | some w => .ok (rows.find? fun r => w.holds r.eventId)

/-- The SELECT of `save`: whether a row with the given primary key was loaded.  TypeORM compares
    the key it was given with the text of the row's. -/
def saveSelect (v : JsValue) (rows : List ProcessedEvent) : Except Unit Bool :=
  match v with
  | none | some .null => .ok false
  | some (.str s) =>
    if (Uuid.ofText s).isSome then .ok (rows.any fun r => r.eventId.toText == s) else .error ()
  | _ => .error ()

/-- The text that is sent for a value has U+0000: the driver writes the strings of an array as they are,
    and an object as JSON, where they are escaped. -/
def hasNul : Json → Bool
  | .str s => s.contains 0
  | .arr vs => anyNul vs
  | _ => false
where
  anyNul : List Json → Bool
    | [] => false
    | v :: vs => hasNul v || anyNul vs

/-- The INSERT of `save`; `none` where the primary key or a NOT NULL constraint is violated, or the text
    of the type is none. -/
def insertEvent (v w : JsValue) (rows : List ProcessedEvent) : Option (List ProcessedEvent) :=
  match uuidOf v, w with
  | none, _ | _, none | _, some .null => none
  | some u, some t =>
    if hasNul t || rows.any (·.eventId == u) then none else some (⟨u, t⟩ :: rows)

/-- The UPDATE of `save`, of the columns that are not `undefined`. -/
def updateEvent (v w : JsValue) (rows : List ProcessedEvent) : Option (List ProcessedEvent) :=
  match w with
  | none => some rows
  | some .null => none
  | some t =>
    if hasNul t then none
    else some (rows.map fun r => if uuidOf v = some r.eventId then { r with eventType := t } else r)

def saveWrite (v w : JsValue) (found : Bool) (rows : List ProcessedEvent) :
    Option (List ProcessedEvent) :=
  if found then updateEvent v w rows else insertEvent v w rows

/-! ## The handler -/

/-- What `handleMessage` awaits, or does outside of the process. -/
inductive HOp where
  | findOne (eventId : JsValue)
  /-- The block marked "Real side effects go here". -/
  | sideEffect (payload : Json)
  | saveSelect (eventId : JsValue)
  | saveWrite (eventId eventType : JsValue) (found : Bool)
  | ack
  | nack (requeue : Bool)

abbrev HOp.Ans : HOp → Type
  | .findOne _ => Option ProcessedEvent
  | .saveSelect _ => Bool
  | _ => Unit

abbrev Handler (ρ : Type) := Async HOp HOp.Ans Unit ρ

def perform (o : HOp) : Handler o.Ans := Async.call o

/-- `v.key` in a handler. -/
def member (v : Json) (key : JsString) : Handler JsValue :=
  match v.get key with
  | .ok x => .ret x
  | .error e => .throw e

/-- `processedEvents.save({ eventId, eventType })` -/
def save (eventId eventType : JsValue) : Handler Unit := do
  let found ← perform (.saveSelect eventId)
  perform (.saveWrite eventId eventType found)

/-- What the handler does with an event that was not found. -/
def process (payload : Json) : Handler Unit :=
  Async.tryCatch
    (do
      perform (.sideEffect payload)
      let eventId ← member payload (js "eventId")
      let eventType ← member payload (js "eventType")
      save eventId eventType
      perform .ack)
    (fun _ => perform (.nack true))

/-- The handler once the content is parsed. -/
def handlePayload (payload : Json) : Handler Unit := do
  let eventId ← member payload (js "eventId")
  let alreadyProcessed ← perform (.findOne eventId)
  if alreadyProcessed.isSome then perform .ack else process payload

/-- `handleMessage(channel, msg)`; `none` is a `null` message. -/
def handleMessage : Option Bytes → Handler Unit
  | none => .ret ()
  | some content =>
    match Json.parse (ofUtf8 content) with
    | none => perform (.nack false)
    | some payload => handlePayload payload

/-- One operation of a handler: its answer, and the table after it.  An answer is an error where
    the outcome is not `ok` or the database rejects the statement. -/
def HOp.answer : (o : HOp) → Outcome → List ProcessedEvent → Except Unit o.Ans × List ProcessedEvent
  | .findOne v, c, rows => (if c.isOk then SystemDesign.findOne v rows else .error (), rows)
  | .saveSelect v, c, rows => (if c.isOk then SystemDesign.saveSelect v rows else .error (), rows)
  | .saveWrite v w found, c, rows =>
    match SystemDesign.saveWrite v w found rows with
    | none => (.error (), rows)
    | some rows' => (if c.isOk then .ok () else .error (), if c.lands then rows' else rows)
  | .sideEffect _, c, rows | .ack, c, rows | .nack _, c, rows =>
    (if c.isOk then .ok () else .error (), rows)

/-- The event of a payload. -/
def eventOf (payload : Json) : Option Uuid := (payload.get (js "eventId")).toOption.bind uuidOf

/-- The event an operation is about. -/
def opEvent : HOp → Option Uuid
  | .findOne v | .saveSelect v | .saveWrite v _ _ => uuidOf v
  | .sideEffect payload => eventOf payload
  | _ => none

/-! ## Where a call can stand -/

/-- Where a call stands that has parsed its content. -/
inductive Phase where
  | finding
  | entering
  | selecting
  | writing (found : Bool)
  /-- At the `ack` of a duplicate, or at the one inside the `try` block. -/
  | acking (inTry : Bool)
  | nacking
  | done
  | failed

section
variable (payload : Json) (eventId eventType : JsValue)

/-- What is left of the call. -/
def Phase.code : Phase → Handler Unit
  | finding => perform (.findOne eventId) >>= fun r =>
    if r.isSome then perform .ack else process payload
  | entering => process payload
  | selecting => Async.tryCatch (save eventId eventType >>= fun _ => perform .ack)
    fun _ => perform (.nack true)
  | writing found => Async.tryCatch (perform (.saveWrite eventId eventType found) >>= fun _ =>
    perform .ack) fun _ => perform (.nack true)
  | acking false => perform .ack
  | acking true => Async.tryCatch (perform .ack) fun _ => perform (.nack true)
  | nacking => perform (.nack true)
  | done => .ret ()
  | failed => .throw ()

/-- Where the call goes on after an answer. -/
def Phase.after : Phase → (o : HOp) → Except Unit o.Ans → Phase
  | finding, .findOne _, .ok r => if r.isSome then acking false else entering
  | entering, .sideEffect _, .ok _ => selecting
  | selecting, .saveSelect _, .ok found => writing found
  | writing _, .saveWrite _ _ _, .ok _ => acking true
  | acking _, .ack, .ok _ => done
  | nacking, .nack _, .ok _ => done
  | entering, _, .error _ | selecting, _, .error _ | writing _, _, .error _
  | acking true, _, .error _ => nacking
  | _, _, _ => failed

/-- The operation a call awaits. -/
def Phase.op : Phase → Option HOp
  | finding => some (.findOne eventId)
  | entering => some (.sideEffect payload)
  | selecting => some (.saveSelect eventId)
  | writing found => some (.saveWrite eventId eventType found)
  | acking _ => some .ack
  | nacking => some (.nack true)
  | done | failed => none

end

/-- The members of a payload that is an object with these two. -/
structure Members (payload : Json) (eventId eventType : JsValue) : Prop where
  eventId : payload.get (js "eventId") = .ok eventId
  eventType : payload.get (js "eventType") = .ok eventType

/-- Only `null` has no members. -/
theorem members_of_get {payload : Json} {v : JsValue} {key : JsString}
    (h : payload.get key = .ok v) : ∃ x w, Members payload x w := by
  cases payload with
  | null => cases h
  | obj ms => exact ⟨_, _, rfl, rfl⟩
  | bool | num | str | arr => exact ⟨none, none, rfl, rfl⟩

theorem eventOf_members {payload : Json} {v w : JsValue} (h : Members payload v w) :
    eventOf payload = uuidOf v := by
  rw [eventOf, h.eventId]; rfl

theorem handlePayload_eq {payload : Json} {v w : JsValue} (h : Members payload v w) :
    handlePayload payload = Phase.finding.code payload v w := by
  simp only [handlePayload, member, h.eventId]
  rfl

theorem process_eq {payload : Json} {v w : JsValue} (h : Members payload v w) :
    process payload = .await (.sideEffect payload) fun a => match a with
      | .ok _ => Phase.selecting.code payload v w
      | .error _ => Phase.nacking.code payload v w := by
  simp only [process, member, h.eventId, h.eventType]
  exact congrArg (Async.await (HOp.sideEffect payload)) (funext fun a => by cases a <;> rfl)

/-- A phase that awaits an operation goes on in the phase after its answer. -/
theorem code_of_op {payload : Json} {v w : JsValue} (h : Members payload v w) {ph : Phase} {o : HOp}
    (ho : ph.op payload v w = some o) :
    ph.code payload v w = .await o fun a => (ph.after o a).code payload v w := by
  cases ph with
  | finding =>
    cases ho
    refine congrArg (Async.await (HOp.findOne v)) (funext fun a => ?_)
    rcases a with e | (_ | r) <;> rfl
  | entering =>
    cases ho
    rw [Phase.code, process_eq h]
    exact congrArg (Async.await (HOp.sideEffect payload)) (funext fun a => by cases a <;> rfl)
  | acking inTry =>
    cases ho
    cases inTry <;> exact congrArg (Async.await HOp.ack) (funext fun a => by cases a <;> rfl)
  | selecting | writing | nacking =>
    cases ho
    exact congrArg (Async.await _) (funext fun a => by cases a <;> rfl)
  | done | failed => cases ho

/-- **Each answer moves a call from one phase to the next.** -/
theorem code_answer {payload : Json} {v w : JsValue} (h : Members payload v w) {ph : Phase} {o : HOp}
    {k : Except Unit o.Ans → Handler Unit} (hk : ph.code payload v w = .await o k) :
    ph.op payload v w = some o ∧ ∀ a, k a = (ph.after o a).code payload v w := by
  cases ho : ph.op payload v w with
  | none =>
    cases ph with
    | done | failed => cases hk
    | finding | entering | selecting | writing | acking | nacking => cases ho
  | some o' =>
    rw [code_of_op h ho] at hk
    cases hk
    exact ⟨rfl, fun _ => rfl⟩

theorem handleMessage_unparsed {content : Bytes} (h : Json.parse (ofUtf8 content) = none) :
    handleMessage (some content) = perform (.nack false) := by
  rw [handleMessage, h]

theorem handleMessage_parsed {content : Bytes} {payload : Json}
    (h : Json.parse (ofUtf8 content) = some payload) :
    handleMessage (some content) = handlePayload payload := by
  rw [handleMessage, h]

theorem handlePayload_throw {payload : Json} {e : Unit}
    (h : payload.get (js "eventId") = .error e) : handlePayload payload = .throw () := by
  rw [handlePayload, member, h]
  rfl

/-- How a call begins, by its content. -/
inductive Begins (content : Bytes) : Handler Unit → Prop
  | unparsed (hp : Json.parse (ofUtf8 content) = none) : Begins content (perform (.nack false))
  | thrown {payload e} (hp : Json.parse (ofUtf8 content) = some payload)
    (hv : payload.get (js "eventId") = .error e) : Begins content (.throw ())
  | finding {payload v w} (hp : Json.parse (ofUtf8 content) = some payload) (hm : Members payload v w) :
    Begins content (Phase.finding.code payload v w)

theorem handleMessage_begins (content : Bytes) : Begins content (handleMessage (some content)) := by
  cases hp : Json.parse (ofUtf8 content) with
  | none =>
    rw [handleMessage_unparsed hp]
    exact .unparsed hp
  | some payload =>
    rw [handleMessage_parsed hp]
    cases hv : payload.get (js "eventId") with
    | error e =>
      rw [handlePayload_throw hv]
      exact .thrown hp hv
    | ok v =>
      obtain ⟨v, w, hm⟩ := members_of_get hv
      rw [handlePayload_eq hm]
      exact .finding hp hm

/-- The program of a call for this content, from its begin on. -/
def Stands (content : Bytes) (p : Handler Unit) : Prop :=
  (∃ payload v w ph, Json.parse (ofUtf8 content) = some payload ∧ Members payload v w ∧
    p = Phase.code payload v w ph) ∨ p = perform (.nack false) ∨ p.next = none

theorem stands_handleMessage (content : Bytes) : Stands content (handleMessage (some content)) := by
  have hb := handleMessage_begins content
  generalize handleMessage (some content) = p at hb ⊢
  cases hb with
  | unparsed => exact Or.inr (Or.inl rfl)
  | thrown => exact Or.inr (Or.inr rfl)
  | finding hp hm => exact Or.inl ⟨_, _, _, .finding, hp, hm, rfl⟩

theorem stands_answer {content : Bytes} {o : HOp} {k : Except Unit o.Ans → Handler Unit}
    (h : Stands content (.await o k)) (a : Except Unit o.Ans) : Stands content (k a) := by
  rcases h with ⟨payload, v, w, ph, hp, hm, he⟩ | he | he
  · exact Or.inl ⟨payload, v, w, _, hp, hm, (code_answer hm he.symm).2 a⟩
  · cases he
    exact Or.inr (Or.inr (by cases a <;> rfl))
  · cases he

end SystemDesign
