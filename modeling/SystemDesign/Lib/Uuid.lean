/-
  UUIDs and their text.

  `Uuid.toText` is the canonical form, which `randomUUID()` and a uuid column of Postgres write;
  `Uuid.ofText` is what Postgres accepts as a uuid.
-/
import SystemDesign.Lib.Text

namespace Lib

/-- A UUID, as its 32 hexadecimal digits. -/
structure Uuid where
  digits : List (Fin 16)
  length_digits : digits.length = 32
  deriving DecidableEq

namespace Uuid

def ofNat (n : ℕ) : Uuid := ⟨(List.range 32).reverse.map fun i => nibble (n / 16 ^ i), by simp⟩

/-- The digits with a hyphen before the last 24, 20, 16 and 12 of them. -/
def writeDigits : List (Fin 16) → JsString
  | [] => []
  | d :: ds =>
    hexDigit d :: if ds.length ∈ [24, 20, 16, 12] then 0x2D :: writeDigits ds else writeDigits ds

/-- The canonical text, in groups of 8, 4, 4, 4 and 12 digits. -/
def toText (u : Uuid) : JsString := writeDigits u.digits

def dropHyphen : JsString → JsString
  | [] => []
  | c :: s => if c = 0x2D then s else c :: s

/-- `n` digits of either case, and the text after them.  One hyphen may follow each group of four
    but the last. -/
def readDigits : ℕ → JsString → Option (List (Fin 16) × JsString)
  | 0, s => some ([], s)
  | _ + 1, [] => none
  | n + 1, c :: s =>
    (hexDigit? c).bind fun d =>
      (readDigits n (if n % 4 = 0 ∧ n ≠ 0 then dropHyphen s else s)).map fun x => (d :: x.1, x.2)

theorem readDigits_length {n : ℕ} {s : JsString} {x : List (Fin 16) × JsString}
    (h : readDigits n s = some x) : x.1.length = n := by
  induction n generalizing s x with
  | zero => cases h; rfl
  | succ n ih =>
    cases s with
    | nil => cases h
    | cons c s =>
      obtain ⟨d, -, hx⟩ := Option.bind_eq_some_iff.1 h
      obtain ⟨y, hy, rfl⟩ := Option.map_eq_some_iff.1 hx
      simp [ih hy]

/-- The input of a uuid in Postgres, which may stand in braces; `none` where it is an error. -/
def ofText (s : JsString) : Option Uuid :=
  let braces := s.head? = some 0x7B
  match h : readDigits 32 (if braces then s.tail else s) with
  | some x => if x.2 = (if braces then [0x7D] else []) then some ⟨x.1, readDigits_length h⟩ else none
  | none => none

/-! ## Reading back the canonical text -/

theorem hexDigit_ne : ∀ d, hexDigit d ≠ 0x2D ∧ hexDigit d ≠ 0x7B := by decide

theorem dropHyphen_writeDigits (d : Fin 16) (ds : List (Fin 16)) (s : JsString) :
    dropHyphen (writeDigits (d :: ds) ++ s) = writeDigits (d :: ds) ++ s := by
  simp [dropHyphen, writeDigits, (hexDigit_ne d).1]

theorem readDigits_writeDigits (s : JsString) :
    ∀ ds : List (Fin 16), readDigits ds.length (writeDigits ds ++ s) = some (ds, s)
  | [] => rfl
  | d :: ds => by
    have hd : (if ds.length % 4 = 0 ∧ ds.length ≠ 0 then
        dropHyphen ((if ds.length ∈ [24, 20, 16, 12] then 0x2D :: writeDigits ds else writeDigits ds) ++ s)
        else (if ds.length ∈ [24, 20, 16, 12] then 0x2D :: writeDigits ds else writeDigits ds) ++ s) =
          writeDigits ds ++ s := by
      by_cases hm : ds.length ∈ [24, 20, 16, 12]
      · have h4 : ds.length % 4 = 0 ∧ ds.length ≠ 0 := by simp at hm; omega
        rw [if_pos hm, if_pos h4]
        rfl
      · rw [if_neg hm]
        cases ds with
        | nil => rfl
        | cons d' ds => rw [dropHyphen_writeDigits, ite_self]
    simp only [writeDigits, List.length_cons, List.cons_append, readDigits, hexDigit?_hexDigit,
      Option.bind_some, hd, readDigits_writeDigits s ds]
    rfl

/-- **The canonical text denotes its uuid.** -/
@[simp] theorem ofText_toText (u : Uuid) : ofText u.toText = some u := by
  obtain ⟨ds, hds⟩ := u
  have h := readDigits_writeDigits [] ds
  rw [List.append_nil, hds] at h
  have hb : (writeDigits ds).head? ≠ some 0x7B := by
    cases ds with
    | nil => simp [writeDigits]
    | cons d ds => simpa [writeDigits] using (hexDigit_ne d).2
  unfold ofText toText
  simp only [hb, ↓reduceIte]
  split
  · rename_i x hx
    simp only [hb, ↓reduceIte, h, Option.some.injEq] at hx
    subst hx
    rfl
  · rename_i hx
    simp [hb, h] at hx

/-- The text of a uuid denotes no other. -/
theorem eq_of_ofText_toText {u v : Uuid} (h : ofText u.toText = some v) : u = v :=
  Option.some.inj ((ofText_toText u).symm.trans h)

theorem toText_injective {u v : Uuid} (h : u.toText = v.toText) : u = v := by
  have := congrArg ofText h
  simpa using this

theorem toText_ne_nil (u : Uuid) : u.toText ≠ [] := by
  intro h
  have := ofText_toText u
  rw [h] at this
  cases this

end Uuid

end Lib
