/-
  JSON values and their text.

  `parse` is `JSON.parse`, as an automaton that reads the text one code unit at a time and keeps
  the open arrays and objects on a stack.  `quote` is `JSON.stringify` of a string,
  `stringifyStrings` that of an array of strings and `stringifyObject` that of an object whose
  values are strings; `parse_stringifyStrings` and `parse_stringifyObject` read them back.
-/
import SystemDesign.Lib.Text

namespace Lib

/-- A JSON value.  The number `num neg m e` is `± m · 10 ^ e`; of two members of an object with
    one name the later one counts. -/
inductive Json where
  | null
  | bool (b : Bool)
  | num (neg : Bool) (mant : ℕ) (exp : ℤ)
  | str (s : JsString)
  | arr (elems : List Json)
  | obj (members : List (JsString × Json))

/-- A value of the program that came from JSON: `none` is `undefined`. -/
abbrev JsValue := Option Json

namespace Json

/-- `!!v`.  A number is falsy iff its double is zero, that is up to half the least positive one,
    `2 ^ (-1075)`. -/
def truthy : JsValue → Bool
  | none => false
  | some .null => false
  | some (.bool b) => b
  | some (.num _ m e) => (10 : ℕ) ^ (-e).toNat < m * 2 ^ 1075 * 10 ^ e.toNat
  | some (.str s) => !s.isEmpty
  | some (.arr _) => true
  | some (.obj _) => true

/-- `v.key`, which throws a TypeError on `null`.  Only objects have members of their own. -/
def get (v : Json) (key : JsString) : Except Unit JsValue :=
  match v with
  | .null => .error ()
  | .obj ms => .ok ((ms.reverse.find? fun m => m.1 == key).map (·.2))
  | _ => .ok none

/-! ## Writing -/

/-- A code unit inside a string literal, outside a surrogate pair. -/
def quoteUnit (u : UInt16) : JsString :=
  if u = 0x08 then [0x5C, 0x62]
  else if u = 0x09 then [0x5C, 0x74]
  else if u = 0x0A then [0x5C, 0x6E]
  else if u = 0x0C then [0x5C, 0x66]
  else if u = 0x0D then [0x5C, 0x72]
  else if u = 0x22 then [0x5C, 0x22]
  else if u = 0x5C then [0x5C, 0x5C]
  else if u.toNat < 0x20 ∨ isHigh u = true ∨ isLow u = true then
    [0x5C, 0x75, hexDigit (nibble (u.toNat / 0x1000)), hexDigit (nibble (u.toNat / 0x100)),
      hexDigit (nibble (u.toNat / 0x10)), hexDigit (nibble u.toNat)]
  else [u]

def quoteUnits : JsString → JsString
  | [] => []
  | [u] => quoteUnit u
  | u :: v :: rest =>
    if isHigh u && isLow v then u :: v :: quoteUnits rest else quoteUnit u ++ quoteUnits (v :: rest)

/-- `JSON.stringify(s)` of a string. -/
def quote (s : JsString) : JsString := 0x22 :: (quoteUnits s ++ [0x22])

/-- The elements of an array of strings, without its brackets. -/
def stringifyElems : List JsString → JsString
  | [] => []
  | [s] => quote s
  | s :: s' :: ss => quote s ++ 0x2C :: stringifyElems (s' :: ss)

/-- `JSON.stringify(a)` of an array of strings. -/
def stringifyStrings (ss : List JsString) : JsString := 0x5B :: (stringifyElems ss ++ [0x5D])

/-- The members of an object, without its braces. -/
def stringifyMembers : List (JsString × JsString) → JsString
  | [] => []
  | [m] => quote m.1 ++ 0x3A :: quote m.2
  | m :: m' :: ms => quote m.1 ++ 0x3A :: (quote m.2 ++ 0x2C :: stringifyMembers (m' :: ms))

/-- `JSON.stringify(o)` of an object with string values. -/
def stringifyObject (ms : List (JsString × JsString)) : JsString :=
  0x7B :: (stringifyMembers ms ++ [0x7D])

/-! ## Reading -/

/-- An open array with its elements, or an open object with its members and the name of the
    member being read; both latest first. -/
inductive Frame where
  | arr (elems : List Json)
  | obj (members : List (JsString × Json)) (key : JsString)

/-- Where the text of a number stands. -/
inductive NumPhase where
  | minus | zero | int | dot | frac | e | sign | exp
  deriving DecidableEq

/-- The number read so far: its sign, its digits, how many of them follow the point, and the
    sign and digits of its exponent. -/
structure NumState where
  phase : NumPhase
  neg : Bool
  mant : ℕ
  fracs : ℕ
  expNeg : Bool
  exp : ℕ

/-- What the next code unit may be. -/
inductive Mode where
  /-- a value, or `]` right after `[` -/
  | value (close : Bool)
  /-- `,` or the end of the innermost array or object -/
  | after
  /-- the name of a member, or `}` right after `{` -/
  | key (close : Bool)
  | colon
  /-- the rest of a string, a name if `isKey`, with its units so far latest first -/
  | str (isKey : Bool) (acc : JsString)
  | esc (isKey : Bool) (acc : JsString)
  /-- `n + 1` more digits of a `\u` escape with value `v` so far -/
  | hex (isKey : Bool) (acc : JsString) (n v : ℕ)
  /-- the rest of `true`, `false` or `null` -/
  | lit (rest : JsString) (v : Json)
  | num (n : NumState)
  /-- nothing but whitespace after the whole value -/
  | done (v : Json)

/-- The reader: what it expects, and the open arrays and objects, innermost first. -/
structure Reader where
  mode : Mode
  stack : List Frame

/-- A value is complete. -/
def complete (v : Json) : List Frame → Reader
  | [] => ⟨.done v, []⟩
  | .arr vs :: fs => ⟨.after, .arr (v :: vs) :: fs⟩
  | .obj ms k :: fs => ⟨.after, .obj ((k, v) :: ms) k :: fs⟩

/-- A string is complete: a value, or the name of the next member. -/
def completeString (isKey : Bool) (s : JsString) (fs : List Frame) : Option Reader :=
  if isKey then
    match fs with
    | .obj ms _ :: fs => some ⟨.colon, .obj ms s :: fs⟩
    | _ => none
  else some (complete (.str s) fs)

def isSpace (c : UInt16) : Bool := c == 0x20 || c == 0x09 || c == 0x0A || c == 0x0D

def digit? (c : UInt16) : Option ℕ :=
  if 0x30 ≤ c.toNat ∧ c.toNat ≤ 0x39 then some (c.toNat - 0x30) else none

/-- The code unit a one-letter escape stands for. -/
def unescape (c : UInt16) : Option UInt16 :=
  if c = 0x22 ∨ c = 0x5C ∨ c = 0x2F then some c
  else if c = 0x62 then some 0x08
  else if c = 0x66 then some 0x0C
  else if c = 0x6E then some 0x0A
  else if c = 0x72 then some 0x0D
  else if c = 0x74 then some 0x09
  else none

/-- The number goes on with `c`, or does not. -/
def NumState.push (n : NumState) (c : UInt16) : Option NumState :=
  match n.phase, digit? c with
  | .minus, some d => some { n with phase := if d = 0 then .zero else .int, mant := d }
  | .int, some d => some { n with mant := n.mant * 10 + d }
  | .dot, some d => some { n with phase := .frac, mant := n.mant * 10 + d, fracs := n.fracs + 1 }
  | .frac, some d => some { n with mant := n.mant * 10 + d, fracs := n.fracs + 1 }
  | .e, some d => some { n with phase := .exp, exp := d }
  | .sign, some d => some { n with phase := .exp, exp := d }
  | .exp, some d => some { n with exp := n.exp * 10 + d }
  | .zero, none | .int, none =>
    if c = 0x2E then some { n with phase := .dot }
    else if c = 0x65 ∨ c = 0x45 then some { n with phase := .e }
    else none
  | .frac, none => if c = 0x65 ∨ c = 0x45 then some { n with phase := .e } else none
  | .e, none =>
    if c = 0x2B ∨ c = 0x2D then some { n with phase := .sign, expNeg := c = 0x2D } else none
  | _, _ => none

/-- The value of a number that may end here. -/
def NumState.value (n : NumState) : Option Json :=
  match n.phase with
  | .zero | .int | .frac | .exp =>
    some (.num n.neg n.mant ((if n.expNeg then -(n.exp : ℤ) else n.exp) - n.fracs))
  | _ => none

/-- A value starts with `c`. -/
def startValue (close : Bool) (fs : List Frame) (c : UInt16) : Option Reader :=
  if isSpace c then some ⟨.value close, fs⟩
  else if c = 0x22 then some ⟨.str false [], fs⟩
  else if c = 0x7B then some ⟨.key true, .obj [] [] :: fs⟩
  else if c = 0x5B then some ⟨.value true, .arr [] :: fs⟩
  else if c = 0x5D ∧ close then
    match fs with
    | .arr vs :: fs => some (complete (.arr vs.reverse) fs)
    | _ => none
  else if c = 0x74 then some ⟨.lit (js "rue") (.bool true), fs⟩
  else if c = 0x66 then some ⟨.lit (js "alse") (.bool false), fs⟩
  else if c = 0x6E then some ⟨.lit (js "ull") .null, fs⟩
  else if c = 0x2D then some ⟨.num ⟨.minus, true, 0, 0, false, 0⟩, fs⟩
  else (NumState.push ⟨.minus, false, 0, 0, false, 0⟩ c).map fun n => ⟨.num n, fs⟩

/-- One code unit, outside numbers. -/
def readPlain (r : Reader) (c : UInt16) : Option Reader :=
  match r.mode with
  | .value close => startValue close r.stack c
  | .after =>
    if isSpace c then some r
    else match r.stack with
      | .arr vs :: fs =>
        if c = 0x2C then some ⟨.value false, r.stack⟩
        else if c = 0x5D then some (complete (.arr vs.reverse) fs)
        else none
      | .obj ms _ :: fs =>
        if c = 0x2C then some ⟨.key false, r.stack⟩
        else if c = 0x7D then some (complete (.obj ms.reverse) fs)
        else none
      | [] => none
  | .key close =>
    if isSpace c then some r
    else if c = 0x22 then some ⟨.str true [], r.stack⟩
    else if c = 0x7D ∧ close then
      match r.stack with
      | .obj ms _ :: fs => some (complete (.obj ms.reverse) fs)
      | _ => none
    else none
  | .colon =>
    if isSpace c then some r else if c = 0x3A then some ⟨.value false, r.stack⟩ else none
  | .str isKey acc =>
    if c = 0x22 then completeString isKey acc.reverse r.stack
    else if c = 0x5C then some ⟨.esc isKey acc, r.stack⟩
    else if c.toNat < 0x20 then none
    else some ⟨.str isKey (c :: acc), r.stack⟩
  | .esc isKey acc =>
    if c = 0x75 then some ⟨.hex isKey acc 3 0, r.stack⟩
    else (unescape c).map fun u => ⟨.str isKey (u :: acc), r.stack⟩
  | .hex isKey acc n v =>
    (hexDigit? c).map fun d : Fin 16 =>
      match n with
      | 0 => ⟨.str isKey (UInt16.ofNat (v * 16 + d.val) :: acc), r.stack⟩
      | n + 1 => ⟨.hex isKey acc n (v * 16 + d.val), r.stack⟩
  | .lit rest v =>
    match rest with
    | [] => none
    | [u] => if c = u then some (complete v r.stack) else none
    | u :: rest => if c = u then some ⟨.lit rest v, r.stack⟩ else none
  | .num _ => none
  | .done _ => if isSpace c then some r else none

/-- One code unit; one that does not continue a number ends it. -/
def read (r : Reader) (c : UInt16) : Option Reader :=
  match r.mode with
  | .num n =>
    match n.push c with
    | some n' => some ⟨.num n', r.stack⟩
    | none => n.value.bind fun v => readPlain (complete v r.stack) c
  | _ => readPlain r c

/-- The value read, if the text may end here. -/
def finish (r : Reader) : Option Json :=
  match r.mode, r.stack with
  | .done v, _ => some v
  | .num n, [] => n.value
  | _, _ => none

/-- `JSON.parse(s)`; `none` where it throws a SyntaxError. -/
def parse (s : JsString) : Option Json := (s.foldlM read ⟨.value false, []⟩).bind finish

/-! ## Reading back what was written -/

/-- A digit of a `\u` escape that is not the last. -/
theorem read_hex (b : Bool) (acc : JsString) (fs : List Frame) (n v : ℕ) (d : Fin 16) :
    read ⟨.hex b acc (n + 1) v, fs⟩ (hexDigit d) = some ⟨.hex b acc n (v * 16 + d), fs⟩ := by
  simp only [read, readPlain, hexDigit?_hexDigit, Option.map_some]

theorem read_hex_last (b : Bool) (acc : JsString) (fs : List Frame) (v : ℕ) (d : Fin 16) :
    read ⟨.hex b acc 0 v, fs⟩ (hexDigit d) = some ⟨.str b (UInt16.ofNat (v * 16 + d) :: acc), fs⟩ := by
  simp only [read, readPlain, hexDigit?_hexDigit, Option.map_some]

/-- A code unit is read back from its literal. -/
theorem read_quoteUnit (b : Bool) (acc : JsString) (fs : List Frame) (u : UInt16) :
    (quoteUnit u).foldlM read ⟨.str b acc, fs⟩ = some ⟨.str b (u :: acc), fs⟩ := by
  unfold quoteUnit
  split_ifs with h1 h2 h3 h4 h5 h6 h7 h8
  · subst h1; rfl
  · subst h2; rfl
  · subst h3; rfl
  · subst h4; rfl
  · subst h5; rfl
  · subst h6; rfl
  · subst h7; rfl
  · have hlt : u.toNat < 0x10000 := u.toNat_lt
    have hv : (((0 * 16 + u.toNat / 0x1000 % 16) * 16 + u.toNat / 0x100 % 16) * 16 +
        u.toNat / 0x10 % 16) * 16 + u.toNat % 16 = u.toNat := by omega
    have he : read ⟨.str b acc, fs⟩ 0x5C = some ⟨.esc b acc, fs⟩ := rfl
    have hx : read ⟨.esc b acc, fs⟩ 0x75 = some ⟨.hex b acc 3 0, fs⟩ := rfl
    simp only [List.foldlM_cons, List.foldlM_nil, he, hx, read_hex, read_hex_last, nibble,
      Option.bind_eq_bind, Option.bind_some, hv, UInt16.ofNat_toNat]
    rfl
  · have h9 : ¬ u.toNat < 0x20 := fun h => h8 (Or.inl h)
    simp only [List.foldlM_cons, List.foldlM_nil, read, readPlain, h6, h7, h9, ↓reduceIte]
    rfl

/-- A surrogate is read as it stands. -/
theorem read_surrogate (b : Bool) (acc : JsString) (fs : List Frame) {u : UInt16}
    (hu : isHigh u = true ∨ isLow u = true) : read ⟨.str b acc, fs⟩ u = some ⟨.str b (u :: acc), fs⟩ := by
  have hge : 0xD800 ≤ u.toNat := by
    simp only [isHigh, isLow, Bool.and_eq_true, decide_eq_true_eq] at hu
    omega
  have h1 : u ≠ 0x22 := fun h => absurd (h ▸ hge) (by decide)
  have h2 : u ≠ 0x5C := fun h => absurd (h ▸ hge) (by decide)
  simp [read, readPlain, h1, h2, show ¬ u.toNat < 0x20 by omega]

theorem read_quoteUnits (b : Bool) (fs : List Frame) (s acc : JsString) :
    (quoteUnits s).foldlM read ⟨.str b acc, fs⟩ = some ⟨.str b (s.reverse ++ acc), fs⟩ := by
  fun_induction quoteUnits s generalizing acc with
  | case1 => rfl
  | case2 u => exact read_quoteUnit b acc fs u
  | case3 u v rest h ih =>
    simp only [Bool.and_eq_true] at h
    simp only [List.foldlM_cons, read_surrogate b _ fs (Or.inl h.1),
      read_surrogate b _ fs (Or.inr h.2), Option.bind_eq_bind, Option.bind_some, ih]
    simp
  | case4 u v rest h ih =>
    simp only [List.foldlM_append, read_quoteUnit, Option.bind_eq_bind, Option.bind_some, ih]
    simp

/-- A string literal is read up to its closing quote. -/
theorem read_quote (b : Bool) (fs : List Frame) (s : JsString) :
    (quoteUnits s ++ [0x22]).foldlM read ⟨.str b [], fs⟩ = completeString b s fs := by
  simp [List.foldlM_append, read_quoteUnits, read, readPlain]

theorem read_value (close : Bool) (fs : List Frame) (s : JsString) :
    (quote s).foldlM read ⟨.value close, fs⟩ = some (complete (.str s) fs) := by
  have h1 : read ⟨.value close, fs⟩ 0x22 = some ⟨.str false [], fs⟩ := rfl
  rw [quote, List.foldlM_cons, h1]
  exact read_quote false fs s

theorem read_key (close : Bool) (ms : List (JsString × Json)) (k : JsString) (fs : List Frame)
    (s : JsString) :
    (quote s).foldlM read ⟨.key close, .obj ms k :: fs⟩ = some ⟨.colon, .obj ms s :: fs⟩ := by
  have h1 : read ⟨.key close, .obj ms k :: fs⟩ 0x22 = some ⟨.str true [], .obj ms k :: fs⟩ := rfl
  rw [quote, List.foldlM_cons, h1]
  exact read_quote true _ s

/-- A member with a string value is read into the open object. -/
theorem read_member (close : Bool) (ms : List (JsString × Json)) (k : JsString) (fs : List Frame)
    (m : JsString × JsString) :
    (quote m.1 ++ 0x3A :: quote m.2).foldlM read ⟨.key close, .obj ms k :: fs⟩ =
      some ⟨.after, .obj ((m.1, .str m.2) :: ms) m.1 :: fs⟩ := by
  have h1 : read ⟨.colon, .obj ms m.1 :: fs⟩ 0x3A = some ⟨.value false, .obj ms m.1 :: fs⟩ := rfl
  simp only [List.foldlM_append, List.foldlM_cons, read_key, Option.bind_eq_bind, Option.bind_some,
    h1, read_value]
  rfl

/-- The members as they are read back. -/
def ofStrings (ms : List (JsString × JsString)) : List (JsString × Json) :=
  ms.map fun m => (m.1, .str m.2)

theorem read_members (fs : List Frame) (ms : List (JsString × JsString)) :
    ∀ (close : Bool) (acc : List (JsString × Json)) (k : JsString), ms ≠ [] →
      ∃ k', (stringifyMembers ms).foldlM read ⟨.key close, .obj acc k :: fs⟩ =
        some ⟨.after, .obj ((ofStrings ms).reverse ++ acc) k' :: fs⟩ := by
  fun_induction stringifyMembers ms with
  | case1 => intro _ _ _ h; exact absurd rfl h
  | case2 m => intro close acc k _; exact ⟨m.1, by rw [read_member]; rfl⟩
  | case3 m m' ms ih =>
    intro close acc k _
    obtain ⟨k', hk'⟩ := ih false ((m.1, .str m.2) :: acc) m.1 (by simp)
    refine ⟨k', ?_⟩
    have hm := read_member close acc k fs m
    have h1 : read ⟨.after, .obj ((m.1, .str m.2) :: acc) m.1 :: fs⟩ 0x2C =
        some ⟨.key false, .obj ((m.1, .str m.2) :: acc) m.1 :: fs⟩ := rfl
    rw [show quote m.1 ++ 0x3A :: (quote m.2 ++ 0x2C :: stringifyMembers (m' :: ms)) =
      (quote m.1 ++ 0x3A :: quote m.2) ++ 0x2C :: stringifyMembers (m' :: ms) by simp,
      List.foldlM_append, hm]
    simp only [Option.bind_eq_bind, Option.bind_some, List.foldlM_cons, h1, hk']
    simp [ofStrings]

/-- **What `JSON.stringify` writes of an object with string values, `JSON.parse` reads back.** -/
theorem parse_stringifyObject {ms : List (JsString × JsString)} (h : ms ≠ []) :
    parse (stringifyObject ms) = some (.obj (ofStrings ms)) := by
  obtain ⟨k', hk'⟩ := read_members [] ms true [] [] h
  have h1 : read ⟨.value false, []⟩ 0x7B = some ⟨.key true, [.obj [] []]⟩ := rfl
  have h2 : read ⟨.after, [.obj ((ofStrings ms).reverse ++ []) k']⟩ 0x7D =
      some ⟨.done (.obj (ofStrings ms)), []⟩ := by
    simp [read, readPlain, isSpace, complete]
  simp only [parse, stringifyObject, List.foldlM_cons, h1, List.foldlM_append, Option.bind_eq_bind,
    Option.bind_some, hk', h2, List.foldlM_nil]
  rfl

theorem read_elems (fs : List Frame) (ss : List JsString) :
    ∀ (close : Bool) (acc : List Json), ss ≠ [] →
      (stringifyElems ss).foldlM read ⟨.value close, .arr acc :: fs⟩ =
        some ⟨.after, .arr ((ss.map Json.str).reverse ++ acc) :: fs⟩ := by
  fun_induction stringifyElems ss with
  | case1 => intro _ _ h; exact absurd rfl h
  | case2 s => intro close acc _; rw [read_value]; rfl
  | case3 s s' ss ih =>
    intro close acc _
    have h1 : read ⟨.after, .arr (.str s :: acc) :: fs⟩ 0x2C =
        some ⟨.value false, .arr (.str s :: acc) :: fs⟩ := rfl
    rw [List.foldlM_append, read_value]
    simp only [complete, Option.bind_eq_bind, Option.bind_some, List.foldlM_cons, h1,
      ih false (.str s :: acc) (List.cons_ne_nil _ _)]
    simp

/-- **What `JSON.stringify` writes of an array of strings, `JSON.parse` reads back.** -/
theorem parse_stringifyStrings (ss : List JsString) :
    parse (stringifyStrings ss) = some (.arr (ss.map .str)) := by
  have h1 : read ⟨.value false, []⟩ 0x5B = some ⟨.value true, [.arr []]⟩ := rfl
  rcases eq_or_ne ss [] with rfl | hss
  · rfl
  have h2 : read ⟨.after, [.arr ((ss.map Json.str).reverse ++ [])]⟩ 0x5D =
      some ⟨.done (.arr (ss.map .str)), []⟩ := by
    simp [read, readPlain, isSpace, complete]
  simp only [parse, stringifyStrings, List.foldlM_cons, h1, List.foldlM_append, Option.bind_eq_bind,
    Option.bind_some, read_elems [] ss true [] hss, h2, List.foldlM_nil]
  rfl

theorem stringifyStrings_injective {ss ts : List JsString}
    (h : stringifyStrings ss = stringifyStrings ts) : ss = ts := by
  have hp := (parse_stringifyStrings ss).symm.trans ((congrArg parse h).trans (parse_stringifyStrings ts))
  have hm : ss.map Json.str = ts.map Json.str := Json.arr.inj (Option.some.inj hp)
  exact List.map_injective_iff.2 (fun _ _ he => Json.str.inj he) hm

/-! ## Well-formed text -/

theorem wellFormed_quoteUnit (u : UInt16) : wellFormed (quoteUnit u) = true := by
  unfold quoteUnit
  split_ifs with h1 h2 h3 h4 h5 h6 h7 h8
  · decide
  · decide
  · decide
  · decide
  · decide
  · decide
  · decide
  · refine wellFormed_of_ascii ?_
    simp [ascii_hexDigit]
  · simp only [not_or, Bool.not_eq_true] at h8
    simp [wellFormed, h8]

theorem wellFormed_quoteUnits (s : JsString) : wellFormed (quoteUnits s) = true := by
  fun_induction quoteUnits s with
  | case1 => rfl
  | case2 u => exact wellFormed_quoteUnit u
  | case3 u v rest h ih => rw [wellFormed, if_pos h, ih]
  | case4 u v rest h ih => exact wellFormed_append (wellFormed_quoteUnit u) ih

/-- **A literal is well-formed text**, whatever the string is. -/
theorem wellFormed_quote (s : JsString) : wellFormed (quote s) = true := by
  rw [quote, wellFormed_cons (by decide) (by decide)]
  exact wellFormed_append (wellFormed_quoteUnits s) (by decide)

theorem wellFormed_stringifyMembers (ms : List (JsString × JsString)) :
    wellFormed (stringifyMembers ms) = true := by
  have member : ∀ m : JsString × JsString, wellFormed (quote m.1 ++ 0x3A :: quote m.2) = true := by
    intro m
    refine wellFormed_append (wellFormed_quote m.1) ?_
    rw [wellFormed_cons (by decide) (by decide), wellFormed_quote]
  fun_induction stringifyMembers ms with
  | case1 => rfl
  | case2 m => exact member m
  | case3 m m' ms ih =>
    rw [← List.cons_append, ← List.append_assoc]
    refine wellFormed_append (member m) ?_
    rw [wellFormed_cons (by decide) (by decide), ih]

theorem wellFormed_stringifyObject (ms : List (JsString × JsString)) :
    wellFormed (stringifyObject ms) = true := by
  rw [stringifyObject, wellFormed_cons (by decide) (by decide)]
  exact wellFormed_append (wellFormed_stringifyMembers ms) (by decide)

/-- **What is sent of an object with string values is read back**, through its bytes. -/
theorem parse_sent {ms : List (JsString × JsString)} (h : ms ≠ []) :
    parse (ofUtf8 (toUtf8 (stringifyObject ms))) = some (.obj (ofStrings ms)) := by
  rw [ofUtf8_toUtf8 (wellFormed_stringifyObject ms), parse_stringifyObject h]

end Json

end Lib
