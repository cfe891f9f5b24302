/-
  The `task.created` message: the names of the exchanges and queues, and the bytes
  `publishTaskCreated` sends.

  `parse_content`: what it sends, `handleMessage` parses back to the same payload.
-/
import SystemDesign.Lib.Json
import SystemDesign.Lib.Uuid

namespace SystemDesign

open Lib

def EXCHANGE : JsString := js "tasks.exchange"
def ROUTING_KEY : JsString := js "task.created"
def QUEUE : JsString := js "tasks_queue"
def DEAD_LETTER_EXCHANGE : JsString := js "tasks.dlx"
def DEAD_LETTER_QUEUE : JsString := js "tasks_queue.dlq"

/-- The `x-delivery-limit` of `QUEUE`. -/
def MAX_DELIVERY_ATTEMPTS : ℕ := 3

/-- The content of a message. -/
abbrev Bytes := List UInt8

/-- Where a message handed to a channel wrapper is. -/
inductive PublishStatus where
  /-- Held by the wrapper. -/
  | waiting
  | sent
  | confirmed
  | rejected
deriving DecidableEq

/-! ## Timestamps -/

/-- A moment in UTC, up to the year 9999. -/
structure Moment where
  year : Fin 10000
  month : Fin 12
  day : Fin 31
  hour : Fin 24
  minute : Fin 60
  second : Fin 60
  ms : Fin 1000
deriving DecidableEq

/-- The last `n` decimal digits of `k`. -/
def decimals : ℕ → ℕ → JsString
  | 0, _ => []
  | n + 1, k => decimals n (k / 10) ++ [hexDigit (nibble (k % 10))]

/-- `toISOString()` -/
def Moment.toISOString (t : Moment) : JsString :=
  decimals 4 t.year ++ [0x2D] ++ decimals 2 (t.month + 1) ++ [0x2D] ++ decimals 2 (t.day + 1) ++
    [0x54] ++ decimals 2 t.hour ++ [0x3A] ++ decimals 2 t.minute ++ [0x3A] ++ decimals 2 t.second ++
    [0x2E] ++ decimals 3 t.ms ++ [0x5A]

/-! ## The message -/

/-- What one call of `publishTaskCreated` sends: the id it generates, its argument, the clock. -/
structure Event where
  eventId : Uuid
  taskId : Uuid
  timestamp : Moment
deriving DecidableEq

namespace Event

variable (e : Event)

/-- The members of `payload`. -/
def payload : List (JsString × JsString) :=
  [(js "eventId", e.eventId.toText), (js "eventType", js "task.created"),
    (js "taskId", e.taskId.toText), (js "timestamp", e.timestamp.toISOString)]

/-- `Buffer.from(JSON.stringify(payload))` -/
def content : Bytes := toUtf8 (Json.stringifyObject e.payload)

/-- The payload as the consumer reads it. -/
def json : Json := .obj (Json.ofStrings e.payload)

/-- **The consumer reads the payload that was sent.** -/
theorem parse_content : Json.parse (ofUtf8 e.content) = some e.json :=
  Json.parse_sent (by simp [payload])

@[simp] theorem get_eventId : e.json.get (js "eventId") = .ok (some (.str e.eventId.toText)) := by
  simp [json, payload, Json.get, Json.ofStrings, js, units]

end Event

/-- An event to run examples with. -/
def sampleEvent : Event := ⟨Uuid.ofNat 1, Uuid.ofNat 2, ⟨2026, 0, 0, 0, 0, 0, 0⟩⟩

end SystemDesign
