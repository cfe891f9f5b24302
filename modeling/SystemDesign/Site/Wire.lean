/-
  Tasks on the wire.

  `GET /tasks` answers with the rows of the replica as JSON, `POST /tasks` with the entity that was saved;
  `fetchTasks` and `postTask` parse the answers by the schema of the frontend.

  `fetchTasks_findAll`: the frontend gets the rows as they are, whatever titles they have.
-/
import SystemDesign.Client.Actions
import SystemDesign.Lib.Stringify
import SystemDesign.Tasks.Create

namespace SystemDesign.Site

open Lib Json

abbrev Task := Tasks.Task

/-! ## The API -/

/-- `CreateTaskDto`, as the validation lets it pass. -/
structure CreateTaskDto where
  title : JsString
  title_ne : title ≠ []

/-- The validation of a body; `none` where it is rejected. -/
def CreateTaskDto.ofBody (body : Json) : Option CreateTaskDto :=
  match body.get (js "title") with
  | .ok (some (.str title)) => if h : title ≠ [] then some ⟨title, h⟩ else none
  | _ => none

/-- The entity of a row: the database has the text of the title. -/
def load (t : Task) : Task := { t with title := toWellFormed t.title }

/-- A task of the replica, as it is serialized. -/
def plain (t : Task) : Plain :=
  .obj [(js "id", .str t.id.toText), (js "title", .str t.title), (js "completed", .bool t.completed),
    (js "createdAt", .str t.createdAt.toISOString)]

/-- A task that was saved: the title was there before the columns that the database makes. -/
def savedPlain (t : Task) : Plain :=
  .obj [(js "title", .str t.title), (js "id", .str t.id.toText), (js "completed", .bool t.completed),
    (js "createdAt", .str t.createdAt.toISOString)]

/-- The answer of `GET /tasks` to these rows. -/
def findAllBody (rows : List Task) : Bytes := toUtf8 (Plain.arr (rows.map fun t => plain (load t))).stringify

/-- The answer of `POST /tasks` to the entity that was saved. -/
def createBody (saved : Task) : Bytes := toUtf8 (savedPlain saved).stringify

/-! ## The frontend -/

/-- A field that must be a string. -/
def string (v : Json) (key : JsString) : Option JsString :=
  match v.get key with
  | .ok (some (.str s)) => some s
  | _ => none

def boolean (v : Json) (key : JsString) : Option Bool :=
  match v.get key with
  | .ok (some (.bool b)) => some b
  | _ => none

/-- `taskSchema.parse`; `none` where it throws. -/
def taskSchema (v : Json) : Option Client.Task :=
  (string v (js "id")).bind fun id => (string v (js "title")).bind fun title =>
    (boolean v (js "completed")).bind fun completed => (string v (js "createdAt")).map fun createdAt =>
      ⟨id, title, completed, createdAt⟩

/-- `taskSchema.array().parse` -/
def tasksSchema : Json → Option (List Client.Task)
  | .arr vs => vs.mapM taskSchema
  | _ => none

/-- `await res.json()`; `none` where it throws. -/
def json (res : Client.Reply Bytes) : Option Json := res.body.bind fun body => Json.parse (ofUtf8 body)

def fetchTasks (res : Client.Reply Bytes) : Except Client.Thrown (List Client.Task) :=
  if !res.ok then .error (.error (js ("Failed to fetch tasks: " ++ toString res.status)))
  else match json res with
    | none => .error .failed
    | some v => match tasksSchema v with
      | none => .error .zod
      | some tasks => .ok tasks

/-- A task as the frontend shows it. -/
def shown (t : Task) : Client.Task := ⟨t.id.toText, t.title, t.completed, t.createdAt.toISOString⟩

/-! ## What is sent is what is shown -/

/-- The names of the members are different. -/
theorem task_keys : [js "id", js "title", js "completed", js "createdAt"].Nodup := by decide

theorem taskSchema_plain (t : Task) : taskSchema (plain t).toJson = some (shown t) := by
  have hjson : (plain t).toJson = .obj [(js "id", .str t.id.toText), (js "title", .str t.title),
      (js "completed", .bool t.completed), (js "createdAt", .str t.createdAt.toISOString)] := rfl
  have hkeys := task_keys
  simp only [List.nodup_cons, List.mem_cons, List.not_mem_nil, or_false, not_or] at hkeys
  rw [hjson]
  simp [taskSchema, string, boolean, Json.get, shown, hkeys, Ne.symm]

theorem mapM_plain (rows : List Task) : (rows.map fun t => (plain (load t)).toJson).mapM taskSchema =
    some (rows.map fun t => shown (load t)) := by
  induction rows with
  | nil => rfl
  | cons t rows ih =>
    rw [List.map_cons, List.mapM_cons, taskSchema_plain, ih]
    rfl

/-- **The frontend gets the rows as they are.** -/
theorem fetchTasks_findAll (rows : List Task) :
    fetchTasks ⟨200, some (findAllBody rows)⟩ = .ok (rows.map fun t => shown (load t)) := by
  have hjson : json ⟨200, some (findAllBody rows)⟩ =
      some (.arr (rows.map fun t => (plain (load t)).toJson)) := by
    rw [json, Option.bind_some, findAllBody, Plain.parse_stringify_sent, Plain.toJson, Plain.toJsonElems_eq,
      List.map_map]
    rfl
  have hschema : tasksSchema (.arr (rows.map fun t => (plain (load t)).toJson)) =
      some (rows.map fun t => shown (load t)) := mapM_plain rows
  have hok : (!(Client.Reply.ok ⟨200, some (findAllBody rows)⟩)) = false := rfl
  rw [fetchTasks, hok, hjson]
  simp only [hschema, Bool.false_eq_true, if_false]

end SystemDesign.Site
