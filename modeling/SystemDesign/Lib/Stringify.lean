/-
  `JSON.stringify` of values without numbers.

  A `Plain` value is nested from `null`, booleans, strings, arrays and objects; `stringify` writes it and
  `toJson` is what `JSON.parse` makes of the text.

  `parse_stringify`: what is written is read back, whatever strings and names the value has;
  `parse_stringify_sent`: also through the bytes that are sent.
-/
import SystemDesign.Lib.Json

namespace Lib.Json

/-- A JSON value without numbers. -/
inductive Plain where
  | null
  | bool (b : Bool)
  | str (s : JsString)
  | arr (elems : List Plain)
  | obj (members : List (JsString × Plain))

namespace Plain

/-! ## The value -/

mutual

/-- The value as it is read back. -/
def toJson : Plain → Json
  | null => .null
  | bool b => .bool b
  | str s => .str s
  | arr elems => .arr (toJsonElems elems)
  | obj members => .obj (toJsonMembers members)

def toJsonElems : List Plain → List Json
  | [] => []
  | v :: vs => v.toJson :: toJsonElems vs

def toJsonMembers : List (JsString × Plain) → List (JsString × Json)
  | [] => []
  | (k, v) :: ms => (k, v.toJson) :: toJsonMembers ms

end

theorem toJsonElems_eq (vs : List Plain) : toJsonElems vs = vs.map toJson := by
  induction vs with
  | nil => rfl
  | cons v vs ih => rw [toJsonElems, ih, List.map_cons]

/-! ## Writing -/

/-- `true` or `false` -/
def boolText (b : Bool) : JsString := if b then js "true" else js "false"

mutual

/-- `JSON.stringify(v)` -/
def stringify : Plain → JsString
  | null => js "null"
  | bool b => boolText b
  | str s => quote s
  | arr [] => [0x5B, 0x5D]
  | arr (v :: vs) => 0x5B :: (v.stringify ++ (stringifyRest vs ++ [0x5D]))
  | obj [] => [0x7B, 0x7D]
  | obj ((k, v) :: ms) => 0x7B :: (quote k ++ 0x3A :: (v.stringify ++ (stringifyMore ms ++ [0x7D])))

/-- The elements after the first, each after a comma. -/
def stringifyRest : List Plain → JsString
  | [] => []
  | v :: vs => 0x2C :: (v.stringify ++ stringifyRest vs)

/-- The members after the first. -/
def stringifyMore : List (JsString × Plain) → JsString
  | [] => []
  | (k, v) :: ms => 0x2C :: (quote k ++ 0x3A :: (v.stringify ++ stringifyMore ms))

end

/-! ## Reading back -/

theorem read_boolText (b close : Bool) (fs : List Frame) :
    (boolText b).foldlM read ⟨.value close, fs⟩ = some (complete (.bool b) fs) := by
  cases b <;> rfl

theorem read_null (close : Bool) (fs : List Frame) :
    (js "null").foldlM read ⟨.value close, fs⟩ = some (complete .null fs) := rfl

theorem read_comma_arr (acc : List Json) (fs : List Frame) :
    read ⟨.after, .arr acc :: fs⟩ 0x2C = some ⟨.value false, .arr acc :: fs⟩ := rfl

theorem read_comma_obj (acc : List (JsString × Json)) (k : JsString) (fs : List Frame) :
    read ⟨.after, .obj acc k :: fs⟩ 0x2C = some ⟨.key false, .obj acc k :: fs⟩ := rfl

theorem read_close_arr (acc : List Json) (fs : List Frame) :
    read ⟨.after, .arr acc :: fs⟩ 0x5D = some (complete (.arr acc.reverse) fs) := rfl

theorem read_close_obj (acc : List (JsString × Json)) (k : JsString) (fs : List Frame) :
    read ⟨.after, .obj acc k :: fs⟩ 0x7D = some (complete (.obj acc.reverse) fs) := rfl

theorem read_colon (acc : List (JsString × Json)) (k : JsString) (fs : List Frame) :
    read ⟨.colon, .obj acc k :: fs⟩ 0x3A = some ⟨.value false, .obj acc k :: fs⟩ := rfl

mutual

/-- A value is read up to its end, by induction on it. -/
theorem read_stringify (v : Plain) (close : Bool) (fs : List Frame) :
    v.stringify.foldlM read ⟨.value close, fs⟩ = some (complete v.toJson fs) := by
  match v with
  | null => rw [stringify, read_null, toJson]
  | bool b => rw [stringify, read_boolText, toJson]
  | str s => rw [stringify, read_value, toJson]
  | arr [] => rfl
  | arr (v :: vs) =>
    have hopen : read ⟨.value close, fs⟩ 0x5B = some ⟨.value true, .arr [] :: fs⟩ := rfl
    simp only [stringify, List.foldlM_cons, List.foldlM_append, List.foldlM_nil, hopen, Option.bind_eq_bind,
      Option.bind_some, read_stringify v true, complete, read_stringifyRest vs, read_close_arr]
    simp [toJson, toJsonElems]
  | obj [] => rfl
  | obj ((k, v) :: ms) =>
    have hopen : read ⟨.value close, fs⟩ 0x7B = some ⟨.key true, .obj [] [] :: fs⟩ := rfl
    obtain ⟨k', hmore⟩ := read_stringifyMore ms [(k, v.toJson)] k fs
    simp only [stringify, List.foldlM_cons, List.foldlM_append, List.foldlM_nil, hopen, Option.bind_eq_bind,
      Option.bind_some, read_key, read_colon, read_stringify v false, complete, hmore, read_close_obj]
    simp [toJson, toJsonMembers]

theorem read_stringifyRest (vs : List Plain) (acc : List Json) (fs : List Frame) :
    (stringifyRest vs).foldlM read ⟨.after, .arr acc :: fs⟩ =
      some ⟨.after, .arr ((toJsonElems vs).reverse ++ acc) :: fs⟩ := by
  match vs with
  | [] => rfl
  | v :: vs =>
    simp only [stringifyRest, List.foldlM_cons, List.foldlM_append, read_comma_arr, Option.bind_eq_bind,
      Option.bind_some, read_stringify v false, complete, read_stringifyRest vs]
    simp [toJsonElems]

theorem read_stringifyMore (ms : List (JsString × Plain)) (acc : List (JsString × Json)) (k : JsString)
    (fs : List Frame) : ∃ k', (stringifyMore ms).foldlM read ⟨.after, .obj acc k :: fs⟩ =
      some ⟨.after, .obj ((toJsonMembers ms).reverse ++ acc) k' :: fs⟩ := by
  match ms with
  | [] => exact ⟨k, rfl⟩
  | (k₁, v) :: ms =>
    obtain ⟨k', hmore⟩ := read_stringifyMore ms ((k₁, v.toJson) :: acc) k₁ fs
    refine ⟨k', ?_⟩
    simp only [stringifyMore, List.foldlM_cons, List.foldlM_append, read_comma_obj, Option.bind_eq_bind,
      Option.bind_some, read_key, read_colon, read_stringify v false, complete, hmore]
    simp [toJsonMembers]

end

/-- **What `JSON.stringify` writes, `JSON.parse` reads back.** -/
theorem parse_stringify (v : Plain) : parse v.stringify = some v.toJson := by
  rw [parse, read_stringify v false [], Option.bind_some]
  rfl

/-! ## Well-formed text -/

theorem wellFormed_boolText (b : Bool) : wellFormed (boolText b) = true := by
  cases b <;> decide

mutual

theorem wellFormed_stringify (v : Plain) : wellFormed v.stringify = true := by
  match v with
  | null => rw [stringify]; decide
  | bool b => rw [stringify, wellFormed_boolText]
  | str s => rw [stringify, wellFormed_quote]
  | arr [] => rfl
  | arr (v :: vs) =>
    rw [stringify, wellFormed_cons (by decide) (by decide)]
    refine wellFormed_append (wellFormed_stringify v) ?_
    exact wellFormed_append (wellFormed_stringifyRest vs) (by decide)
  | obj [] => rfl
  | obj ((k, v) :: ms) =>
    rw [stringify, wellFormed_cons (by decide) (by decide)]
    refine wellFormed_append (wellFormed_quote k) ?_
    rw [wellFormed_cons (by decide) (by decide)]
    refine wellFormed_append (wellFormed_stringify v) ?_
    exact wellFormed_append (wellFormed_stringifyMore ms) (by decide)

theorem wellFormed_stringifyRest (vs : List Plain) : wellFormed (stringifyRest vs) = true := by
  match vs with
  | [] => rfl
  | v :: vs =>
    rw [stringifyRest, wellFormed_cons (by decide) (by decide)]
    exact wellFormed_append (wellFormed_stringify v) (wellFormed_stringifyRest vs)

theorem wellFormed_stringifyMore (ms : List (JsString × Plain)) : wellFormed (stringifyMore ms) = true := by
  match ms with
  | [] => rfl
  | (k, v) :: ms =>
    rw [stringifyMore, wellFormed_cons (by decide) (by decide)]
    refine wellFormed_append (wellFormed_quote k) ?_
    rw [wellFormed_cons (by decide) (by decide)]
    exact wellFormed_append (wellFormed_stringify v) (wellFormed_stringifyMore ms)

end

/-- **What is sent is read back**, through its bytes. -/
theorem parse_stringify_sent (v : Plain) : parse (ofUtf8 (toUtf8 v.stringify)) = some v.toJson := by
  rw [ofUtf8_toUtf8 (wellFormed_stringify v), parse_stringify]

end Plain

end Lib.Json
