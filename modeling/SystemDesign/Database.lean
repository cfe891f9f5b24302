/-
  What the services rely on of TypeORM and Postgres: how an operation may end, what a
  where-condition on a uuid column means and what a text column keeps of a string.
-/
import SystemDesign.Lib.Json
import SystemDesign.Lib.Uuid

namespace SystemDesign

open Lib

/-- How an operation ends: it succeeds, it is rejected without effect, or it takes effect and its
    answer is lost. -/
inductive Outcome where
  | ok
  | fail
  | lost
deriving DecidableEq

/-- The operation succeeds. -/
def Outcome.isOk : Outcome → Bool
  | ok => true
  | _ => false

/-- The operation takes effect. -/
def Outcome.lands : Outcome → Bool
  | fail => false
  | _ => true

/-- The condition `{ column: v }` on a uuid column. -/
inductive UuidWhere where
  | any
  | eq (u : Uuid)
deriving DecidableEq

/-- The meaning of `{ column: v }`: ignored where `v` is `undefined` or `null`; `none` where
    Postgres rejects the value. -/
def whereUuid : JsValue → Option UuidWhere
  | none | some .null => some .any
  | some (.str s) => (Uuid.ofText s).map .eq
  | _ => none

def UuidWhere.holds : UuidWhere → Uuid → Bool
  | any, _ => true
  | eq u, v => u == v

/-- The uuid a value denotes. -/
def uuidOf : JsValue → Option Uuid
  | some (.str s) => Uuid.ofText s
  | _ => none

/-- `undefined` or `null` -/
def isNullish : JsValue → Bool
  | none | some .null => true
  | _ => false

theorem whereUuid_nullish {v : JsValue} (h : isNullish v = true) : whereUuid v = some .any := by
  unfold isNullish at h
  split at h
  · rfl
  · rfl
  · cases h

theorem whereUuid_of_not_nullish {v : JsValue} (h : isNullish v = false) :
    whereUuid v = (uuidOf v).map .eq := by
  rcases v with _ | j
  · cases h
  · cases j <;> first | rfl | cases h

/-- A nullish value denotes no uuid. -/
theorem uuidOf_nullish {v : JsValue} (h : isNullish v = true) : uuidOf v = none := by
  unfold isNullish at h
  split at h
  · rfl
  · rfl
  · cases h

/-- A text in the database: well-formed, and without U+0000. -/
structure Text where
  units : JsString
  wellFormed : Lib.wellFormed units = true
  noNul : 0 ∉ units
deriving DecidableEq

/-- What a text column or parameter takes of a string; `none` where Postgres rejects it.  The
    driver sends U+FFFD for a lone surrogate. -/
def Text.ofJs (s : JsString) : Option Text :=
  if h : 0 ∈ toWellFormed s then none else some ⟨toWellFormed s, wellFormed_toWellFormed s, h⟩

theorem Text.units_ofJs {s : JsString} {t : Text} (h : Text.ofJs s = some t) :
    t.units = toWellFormed s := by
  unfold Text.ofJs at h
  split_ifs at h
  rw [← Option.some.inj h]

/-- A string without U+0000 is taken. -/
theorem Text.ofJs_some {s : JsString} (h : 0 ∉ s) : ∃ t, Text.ofJs s = some t := by
  have hno : 0 ∉ toWellFormed s := fun hm => (mem_toWellFormed hm).elim (by decide) h
  exact ⟨_, dif_neg hno⟩

/-- A text is taken as it is. -/
@[simp] theorem Text.ofJs_units (t : Text) : Text.ofJs t.units = some t := by
  simp only [Text.ofJs, toWellFormed_of_wellFormed t.wellFormed, t.noNul, ↓reduceDIte]

end SystemDesign
