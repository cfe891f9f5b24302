/-
  What becomes of one delivery.

  A call settles its message exactly once and throws nothing, unless it throws before the `try`
  block: where the content is `null`, and where `findOne` rejects.  `settledOnce_iff` says for which
  contents and outcomes this is.
-/
import SystemDesign.Queue.Acknowledge
import SystemDesign.Queue.System

namespace SystemDesign.Queue

open Lib

/-- An operation while the channel is open: what settles the message does not fail.  Before it,
    others change the table. -/
def onOpenChannel (o : HOp) (c : Outcome × (List ProcessedEvent → List ProcessedEvent))
    (rows : List ProcessedEvent) : Except Unit o.Ans × List ProcessedEvent :=
  o.answer (if settles o then .ok else c.1) (c.2 rows)

/-- One operation settled the message, and nothing was thrown. -/
def SettledOnce (x : List HOp × Except Unit Unit) : Prop := x.1.countP settles = 1 ∧ x.2 = .ok ()

/-- The content does not parse, or its event is looked up and the lookup succeeds. -/
def LooksUp (content : Bytes) (c : Outcome) : Prop :=
  Json.parse (ofUtf8 content) = none ∨
    ∃ v, eventIdValue content = some v ∧ (whereUuid v).isSome = true ∧ c = .ok

abbrev handle (p : Handler Unit) (cs : ℕ → Outcome × (List ProcessedEvent → List ProcessedEvent))
    (rows : List ProcessedEvent) : List HOp × Except Unit Unit :=
  Async.runToEnd onOpenChannel p cs rows

section
variable {payload : Json} {v w : JsValue}
  {cs : ℕ → Outcome × (List ProcessedEvent → List ProcessedEvent)} {rows : List ProcessedEvent}

theorem settledOnce_nacking : SettledOnce (handle (Phase.nacking.code payload v w) cs rows) := ⟨rfl, rfl⟩

theorem settledOnce_acking (inTry : Bool) :
    SettledOnce (handle ((Phase.acking inTry).code payload v w) cs rows) := by
  cases inTry <;> exact ⟨rfl, rfl⟩

variable (hm : Members payload v w)
include hm

/-- A phase does its operation and goes on in the next. -/
theorem handle_code {ph : Phase} {o : HOp} (ho : ph.op payload v w = some o) :
    handle (ph.code payload v w) cs rows =
      let x := onOpenChannel o (cs 0) rows
      let y := handle ((ph.after o x.1).code payload v w) (fun i => cs (i + 1)) x.2
      (o :: y.1, y.2) := by
  rw [code_of_op hm ho]
  rfl

/-- An operation that does not settle leaves the matter to the next phase. -/
theorem settledOnce_code {ph : Phase} {o : HOp} (ho : ph.op payload v w = some o)
    (hs : settles o = false) :
    SettledOnce (handle (ph.code payload v w) cs rows) ↔
      SettledOnce (handle ((ph.after o (onOpenChannel o (cs 0) rows).1).code payload v w)
        (fun i => cs (i + 1)) (onOpenChannel o (cs 0) rows).2) := by
  rw [handle_code hm ho, SettledOnce, SettledOnce, List.countP_cons_of_neg (by simp [hs])]

theorem settledOnce_writing (found : Bool) :
    SettledOnce (handle ((Phase.writing found).code payload v w) cs rows) := by
  rw [settledOnce_code hm rfl rfl]
  generalize onOpenChannel (.saveWrite v w found) (cs 0) rows = x
  rcases x with ⟨e | u, rows'⟩
  · exact settledOnce_nacking
  · exact settledOnce_acking true

theorem settledOnce_selecting : SettledOnce (handle (Phase.selecting.code payload v w) cs rows) := by
  rw [settledOnce_code hm rfl rfl]
  generalize onOpenChannel (.saveSelect v) (cs 0) rows = x
  rcases x with ⟨e | found, rows'⟩
  · exact settledOnce_nacking
  · exact settledOnce_writing hm found

theorem settledOnce_entering : SettledOnce (handle (Phase.entering.code payload v w) cs rows) := by
  rw [settledOnce_code hm rfl rfl]
  generalize onOpenChannel (.sideEffect payload) (cs 0) rows = x
  rcases x with ⟨e | u, rows'⟩
  · exact settledOnce_nacking
  · exact settledOnce_selecting hm

/-- **The lookup decides**: only where it is rejected does the call throw. -/
theorem settledOnce_finding :
    SettledOnce (handle (Phase.finding.code payload v w) cs rows) ↔
      (whereUuid v).isSome = true ∧ (cs 0).1 = .ok := by
  rw [settledOnce_code hm rfl rfl]
  simp only [onOpenChannel, settles, HOp.answer, Bool.false_eq_true, if_false]
  cases hc : (cs 0).1 with
  | fail | lost => simp [Outcome.isOk, Phase.after, Phase.code, SettledOnce, Async.runToEnd]
  | ok =>
    cases hw : whereUuid v with
    | none => simp [Outcome.isOk, findOne, hw, Phase.after, Phase.code, SettledOnce, Async.runToEnd]
    | some u =>
      simp only [Outcome.isOk, if_true, findOne, hw, Option.isSome_some, and_self, iff_true]
      cases ((cs 0).2 rows).find? fun r => u.holds r.eventId with
      | none => exact settledOnce_entering hm
      | some r => exact settledOnce_acking false

end

/-- **Which deliveries are settled exactly once, without an escape**: whatever the table and the
    outcomes, those whose content does not parse, and those whose lookup succeeds. -/
theorem settledOnce_iff (content : Bytes)
    (cs : ℕ → Outcome × (List ProcessedEvent → List ProcessedEvent)) (rows : List ProcessedEvent) :
    SettledOnce (handle (handleMessage (some content)) cs rows) ↔ LooksUp content (cs 0).1 := by
  have hb := handleMessage_begins content
  generalize handleMessage (some content) = p at hb ⊢
  cases hb with
  | unparsed hp => exact ⟨fun _ => Or.inl hp, fun _ => ⟨rfl, rfl⟩⟩
  | thrown hp hv =>
    have hno : eventIdValue content = none := by
      rw [eventIdValue, hp, Option.bind_some, hv]
      rfl
    simp [LooksUp, hp, SettledOnce, Async.runToEnd, hno]
  | finding hp hm =>
    rw [settledOnce_finding hm]
    simp [LooksUp, hp, eventIdValue_eq hp hm]

/-- The message `null` is not settled. -/
theorem not_settledOnce :
    ¬ SettledOnce (handle (handleMessage (some [0x6E, 0x75, 0x6C, 0x6C])) (fun _ => (.ok, id)) []) :=
  fun h => absurd h.1 (by decide)

end SystemDesign.Queue
