/-
  JavaScript strings and their UTF-8 bytes.

  A string is a list of UTF-16 code units, lone surrogates included.  `toUtf8` is
  `Buffer.from(s)` and `ofUtf8` is `buffer.toString()`; both replace what has no encoding by
  U+FFFD, the decoder once for every maximal ill-formed subsequence.  Well-formed text survives
  (`ofUtf8_toUtf8`).
-/
import Mathlib

namespace Lib

/-- A string, as its UTF-16 code units. -/
abbrev JsString := List UInt16

/-- The code units of one code point. -/
def units (cp : ℕ) : JsString :=
  if cp < 0x10000 then [UInt16.ofNat cp]
  else [UInt16.ofNat (0xD800 + (cp - 0x10000) / 0x400), UInt16.ofNat (0xDC00 + (cp - 0x10000) % 0x400)]

/-- A string constant. -/
def js (s : String) : JsString := s.toList.flatMap fun c => units c.toNat

def isHigh (u : UInt16) : Bool := 0xD800 ≤ u.toNat && u.toNat < 0xDC00

def isLow (u : UInt16) : Bool := 0xDC00 ≤ u.toNat && u.toNat < 0xE000

/-- The last hexadecimal digit of a number. -/
def nibble (n : ℕ) : Fin 16 := ⟨n % 16, Nat.mod_lt n (by decide)⟩

/-- A hexadecimal digit, in lower case. -/
def hexDigit (d : Fin 16) : UInt16 := UInt16.ofNat (if d.val < 10 then 0x30 + d.val else 0x57 + d.val)

/-- The value of a hexadecimal digit of either case. -/
def hexDigit? (c : UInt16) : Option (Fin 16) :=
  if 0x30 ≤ c.toNat ∧ c.toNat ≤ 0x39 then some (nibble (c.toNat - 0x30))
  else if 0x61 ≤ c.toNat ∧ c.toNat ≤ 0x66 then some (nibble (c.toNat - 0x57))
  else if 0x41 ≤ c.toNat ∧ c.toNat ≤ 0x46 then some (nibble (c.toNat - 0x37))
  else none

@[simp] theorem hexDigit?_hexDigit : ∀ d, hexDigit? (hexDigit d) = some d := by decide

/-- Every code unit is an ASCII character. -/
def Ascii (s : JsString) : Prop := ∀ u ∈ s, u.toNat < 0x80

@[simp] theorem ascii_nil : Ascii [] := by simp [Ascii]

@[simp] theorem ascii_cons {u : UInt16} {s : JsString} : Ascii (u :: s) ↔ u.toNat < 0x80 ∧ Ascii s := by
  simp [Ascii]

@[simp] theorem ascii_hexDigit : ∀ d, (hexDigit d).toNat < 0x80 := by decide

/-- White space and line terminators. -/
def isSpace (u : UInt16) : Bool :=
  (0x09 ≤ u.toNat && u.toNat ≤ 0x0D) || (0x2000 ≤ u.toNat && u.toNat ≤ 0x200A) ||
    [0x20, 0xA0, 0x1680, 0x2028, 0x2029, 0x202F, 0x205F, 0x3000, 0xFEFF].contains u.toNat

/-- `s.trim()` -/
def trim (s : JsString) : JsString := (s.dropWhile isSpace).rdropWhile isSpace

/-! ## Encoding -/

/-- The bytes of one code point. -/
def utf8Bytes (cp : ℕ) : List UInt8 :=
  if cp < 0x80 then [UInt8.ofNat cp]
  else if cp < 0x800 then [UInt8.ofNat (0xC0 + cp / 0x40), UInt8.ofNat (0x80 + cp % 0x40)]
  else if cp < 0x10000 then
    [UInt8.ofNat (0xE0 + cp / 0x1000), UInt8.ofNat (0x80 + cp / 0x40 % 0x40),
      UInt8.ofNat (0x80 + cp % 0x40)]
  else
    [UInt8.ofNat (0xF0 + cp / 0x40000), UInt8.ofNat (0x80 + cp / 0x1000 % 0x40),
      UInt8.ofNat (0x80 + cp / 0x40 % 0x40), UInt8.ofNat (0x80 + cp % 0x40)]

/-- The bytes of a code unit outside a surrogate pair. -/
def unitBytes (u : UInt16) : List UInt8 :=
  if isHigh u || isLow u then utf8Bytes 0xFFFD else utf8Bytes u.toNat

/-- `Buffer.from(s)` -/
def toUtf8 : JsString → List UInt8
  | [] => []
  | [u] => unitBytes u
  | u :: v :: rest =>
    if isHigh u && isLow v then
      utf8Bytes (0x10000 + (u.toNat - 0xD800) * 0x400 + (v.toNat - 0xDC00)) ++ toUtf8 rest
    else unitBytes u ++ toUtf8 (v :: rest)

/-! ## Decoding -/

/-- The decoder inside a sequence: the continuation bytes it still needs, the bits read so far
    and the bounds of the next byte. -/
structure Utf8State where
  needed : ℕ
  cp : ℕ
  lower : ℕ
  upper : ℕ

/-- The decoder between code points. -/
def Utf8State.idle : Utf8State := ⟨0, 0, 0x80, 0xBF⟩

/-- The first byte of a code point: what it emits and the state after it. -/
def utf8First (b : ℕ) : JsString × Utf8State :=
  if b < 0x80 then ([UInt16.ofNat b], .idle)
  else if 0xC2 ≤ b ∧ b ≤ 0xDF then ([], ⟨1, b - 0xC0, 0x80, 0xBF⟩)
  else if 0xE0 ≤ b ∧ b ≤ 0xEF then
    ([], ⟨2, b - 0xE0, if b = 0xE0 then 0xA0 else 0x80, if b = 0xED then 0x9F else 0xBF⟩)
  else if 0xF0 ≤ b ∧ b ≤ 0xF4 then
    ([], ⟨3, b - 0xF0, if b = 0xF0 then 0x90 else 0x80, if b = 0xF4 then 0x8F else 0xBF⟩)
  else ([0xFFFD], .idle)

/-- One byte: what it emits and the state after it. -/
def utf8Next (st : Utf8State) (b : ℕ) : JsString × Utf8State :=
  if st.needed = 0 then utf8First b
  else if st.lower ≤ b ∧ b ≤ st.upper then
    let cp := st.cp * 0x40 + (b - 0x80)
    if st.needed = 1 then (units cp, .idle) else ([], ⟨st.needed - 1, cp, 0x80, 0xBF⟩)
  else
    -- the sequence is cut short here, and the byte is read again as a first one
    (0xFFFD :: (utf8First b).1, (utf8First b).2)

def ofUtf8From : Utf8State → List UInt8 → JsString
  | st, [] => if st.needed = 0 then [] else [0xFFFD]
  | st, b :: bs => (utf8Next st b.toNat).1 ++ ofUtf8From (utf8Next st b.toNat).2 bs

/-- `buffer.toString()` -/
def ofUtf8 (bs : List UInt8) : JsString := ofUtf8From .idle bs

/-! ## Well-formed text -/

/-- Every surrogate is in a pair. -/
def wellFormed : JsString → Bool
  | [] => true
  | [u] => !(isHigh u || isLow u)
  | u :: v :: rest =>
    if isHigh u && isLow v then wellFormed rest
    else !(isHigh u || isLow u) && wellFormed (v :: rest)

/-- `s.toWellFormed()`: U+FFFD for each lone surrogate. -/
def toWellFormed : JsString → JsString
  | [] => []
  | [u] => if isHigh u || isLow u then [0xFFFD] else [u]
  | u :: v :: rest =>
    if isHigh u && isLow v then u :: v :: toWellFormed rest
    else (if isHigh u || isLow u then 0xFFFD else u) :: toWellFormed (v :: rest)

/-- A code unit that is no surrogate may stand anywhere. -/
theorem wellFormed_cons {u : UInt16} (hh : isHigh u = false) (hl : isLow u = false) (s : JsString) :
    wellFormed (u :: s) = wellFormed s := by
  cases s <;> simp [wellFormed, hh, hl]

theorem wellFormed_of_units {s : JsString} (h : ∀ u ∈ s, isHigh u = false ∧ isLow u = false) :
    wellFormed s = true := by
  induction s with
  | nil => rfl
  | cons u s ih =>
    obtain ⟨hh, hl⟩ := h u List.mem_cons_self
    rw [wellFormed_cons hh hl, ih fun v hv => h v (List.mem_cons_of_mem _ hv)]

theorem wellFormed_append {s t : JsString} (hs : wellFormed s = true) (ht : wellFormed t = true) :
    wellFormed (s ++ t) = true := by
  fun_induction wellFormed s with
  | case1 => exact ht
  | case2 u =>
    simp only [Bool.not_eq_true', Bool.or_eq_false_iff] at hs
    rw [List.singleton_append, wellFormed_cons hs.1 hs.2, ht]
  | case3 u v rest h ih =>
    rw [List.cons_append, List.cons_append, wellFormed, if_pos h, ih hs]
  | case4 u v rest h ih =>
    simp only [Bool.and_eq_true, Bool.not_eq_true', Bool.or_eq_false_iff] at hs
    rw [List.cons_append, wellFormed_cons hs.1.1 hs.1.2, ih hs.2]

theorem wellFormed_toWellFormed (s : JsString) : wellFormed (toWellFormed s) = true := by
  fun_induction toWellFormed s with
  | case1 => rfl
  | case2 u h => rfl
  | case3 u h => simpa [wellFormed] using h
  | case4 u v rest h ih => simpa [wellFormed, h] using ih
  | case5 u v rest h ih =>
    by_cases hu : (isHigh u || isLow u) = true
    · rw [if_pos hu, wellFormed_cons (by decide) (by decide), ih]
    · rw [if_neg hu]
      simp only [Bool.not_eq_true, Bool.or_eq_false_iff] at hu
      rw [wellFormed_cons hu.1 hu.2, ih]

theorem toWellFormed_of_wellFormed {s : JsString} (h : wellFormed s = true) : toWellFormed s = s := by
  fun_induction wellFormed s with
  | case1 => rfl
  | case2 u =>
    simp only [Bool.not_eq_true', Bool.or_eq_false_iff] at h
    simp [toWellFormed, h]
  | case3 u v rest hp ih => simp [toWellFormed, hp, ih h]
  | case4 u v rest hp ih =>
    simp only [Bool.and_eq_true, Bool.not_eq_true', Bool.or_eq_false_iff] at h
    simp [toWellFormed, h.1, ih h.2]

/-- Only U+FFFD is new. -/
theorem mem_toWellFormed {u : UInt16} {s : JsString} (h : u ∈ toWellFormed s) : u = 0xFFFD ∨ u ∈ s := by
  fun_induction toWellFormed s with
  | case1 => exact Or.inr h
  | case2 v _ => exact Or.inl (List.mem_singleton.1 h)
  | case3 v _ => exact Or.inr h
  | case4 v v' rest _ ih =>
    rcases List.mem_cons.1 h with rfl | h
    · exact Or.inr List.mem_cons_self
    · rcases List.mem_cons.1 h with rfl | h
      · exact Or.inr (List.mem_cons_of_mem _ List.mem_cons_self)
      · exact (ih h).imp_right fun h => List.mem_cons_of_mem _ (List.mem_cons_of_mem _ h)
  | case5 v v' rest _ ih =>
    rcases List.mem_cons.1 h with he | h
    · split_ifs at he
      · exact Or.inl he
      · exact Or.inr (he ▸ List.mem_cons_self)
    · exact (ih h).imp_right fun h => List.mem_cons_of_mem _ h

/-- Cutting a text at a code unit that is no surrogate leaves two texts. -/
theorem wellFormed_cut {c : UInt16} (hh : isHigh c = false) (hl : isLow c = false) (s t : JsString) :
    wellFormed (s ++ c :: t) = (wellFormed s && wellFormed t) := by
  fun_induction wellFormed s with
  | case1 => rw [List.nil_append, wellFormed_cons hh hl, Bool.true_and]
  | case2 u => simp [wellFormed, hl, wellFormed_cons hh hl]
  | case3 u v rest h ih => simpa [wellFormed, h] using ih
  | case4 u v rest h ih =>
    rw [List.cons_append, List.cons_append] at *
    simp [wellFormed, h, ih, Bool.and_assoc]

/-- A text joined by a separator that is no surrogate is well-formed iff its pieces are. -/
theorem wellFormed_intercalate {c : UInt16} (hh : isHigh c = false) (hl : isLow c = false)
    (ps : List JsString) : wellFormed ([c].intercalate ps) = ps.all wellFormed := by
  induction ps with
  | nil => rfl
  | cons p ps ih =>
    cases ps with
    | nil => simp
    | cons q qs =>
      rw [List.intercalate_cons_cons, List.append_assoc, List.singleton_append,
        wellFormed_cut hh hl, ih, List.all_cons, List.all_cons, List.all_cons]

/-! ## Decoding what was encoded -/

theorem toNat_byte {n : ℕ} (h : n < 0x100) : (UInt8.ofNat n).toNat = n := by
  simp only [UInt8.toNat_ofNat']
  omega

theorem ofUtf8From_cons (st : Utf8State) {n : ℕ} (h : n < 0x100) (bs : List UInt8) :
    ofUtf8From st (UInt8.ofNat n :: bs) = (utf8Next st n).1 ++ ofUtf8From (utf8Next st n).2 bs := by
  rw [ofUtf8From, toNat_byte h]

/-- The last byte of a code point. -/
theorem ofUtf8From_last {cp lower upper n : ℕ} (hl : lower ≤ n) (hu : n ≤ upper) (h : n < 0x100)
    (bs : List UInt8) : ofUtf8From ⟨1, cp, lower, upper⟩ (UInt8.ofNat n :: bs) =
      units (cp * 0x40 + (n - 0x80)) ++ ofUtf8 bs := by
  rw [ofUtf8From_cons _ h]
  simp only [utf8Next, one_ne_zero, ↓reduceIte, hl, hu, and_self]
  rfl

/-- A byte that is not the last. -/
theorem ofUtf8From_more {k cp lower upper n : ℕ} (hl : lower ≤ n) (hu : n ≤ upper) (h : n < 0x100)
    (bs : List UInt8) : ofUtf8From ⟨k + 2, cp, lower, upper⟩ (UInt8.ofNat n :: bs) =
      ofUtf8From ⟨k + 1, cp * 0x40 + (n - 0x80), 0x80, 0xBF⟩ bs := by
  rw [ofUtf8From_cons _ h]
  simp [utf8Next, hl, hu]

/-- A first byte. -/
theorem ofUtf8_first {n : ℕ} (h : n < 0x100) (bs : List UInt8) :
    ofUtf8 (UInt8.ofNat n :: bs) = (utf8First n).1 ++ ofUtf8From (utf8First n).2 bs := by
  rw [ofUtf8, ofUtf8From_cons _ h]
  simp [utf8Next, Utf8State.idle]

/-- The bytes of a code point are read back. -/
theorem ofUtf8_utf8Bytes {cp : ℕ} (h : cp < 0x110000) (hs : cp < 0xD800 ∨ 0xE000 ≤ cp) (bs : List UInt8) :
    ofUtf8 (utf8Bytes cp ++ bs) = units cp ++ ofUtf8 bs := by
  unfold utf8Bytes
  split_ifs with h1 h2 h3
  · rw [List.singleton_append, ofUtf8_first (by omega), utf8First, if_pos h1, units, if_pos (by omega)]
    rfl
  · have hf : utf8First (0xC0 + cp / 0x40) = ([], ⟨1, cp / 0x40, 0x80, 0xBF⟩) := by
      rw [utf8First, if_neg (by omega), if_pos (by omega), Nat.add_sub_cancel_left]
    simp only [List.cons_append, List.nil_append]
    rw [ofUtf8_first (by omega), hf, ofUtf8From_last (by omega) (by omega) (by omega)]
    have hcp : cp / 0x40 * 0x40 + (0x80 + cp % 0x40 - 0x80) = cp := by omega
    rw [hcp, List.nil_append]
  · have hf : utf8First (0xE0 + cp / 0x1000) = ([], ⟨2, cp / 0x1000,
        if 0xE0 + cp / 0x1000 = 0xE0 then 0xA0 else 0x80,
        if 0xE0 + cp / 0x1000 = 0xED then 0x9F else 0xBF⟩) := by
      rw [utf8First, if_neg (by omega), if_neg (by omega), if_pos (by omega), Nat.add_sub_cancel_left]
    simp only [List.cons_append, List.nil_append]
    rw [ofUtf8_first (by omega), hf,
      ofUtf8From_more (by split_ifs <;> omega) (by split_ifs <;> omega) (by omega),
      ofUtf8From_last (by omega) (by omega) (by omega)]
    have hcp : (cp / 0x1000 * 0x40 + (0x80 + cp / 0x40 % 0x40 - 0x80)) * 0x40 +
        (0x80 + cp % 0x40 - 0x80) = cp := by
      omega
    rw [hcp, List.nil_append]
  · have hf : utf8First (0xF0 + cp / 0x40000) = ([], ⟨3, cp / 0x40000,
        if 0xF0 + cp / 0x40000 = 0xF0 then 0x90 else 0x80,
        if 0xF0 + cp / 0x40000 = 0xF4 then 0x8F else 0xBF⟩) := by
      rw [utf8First, if_neg (by omega), if_neg (by omega), if_neg (by omega), if_pos (by omega),
        Nat.add_sub_cancel_left]
    simp only [List.cons_append, List.nil_append]
    rw [ofUtf8_first (by omega), hf,
      ofUtf8From_more (by split_ifs <;> omega) (by split_ifs <;> omega) (by omega),
      ofUtf8From_more (by omega) (by omega) (by omega), ofUtf8From_last (by omega) (by omega) (by omega)]
    have hcp : ((cp / 0x40000 * 0x40 + (0x80 + cp / 0x1000 % 0x40 - 0x80)) * 0x40 +
        (0x80 + cp / 0x40 % 0x40 - 0x80)) * 0x40 + (0x80 + cp % 0x40 - 0x80) = cp := by
      omega
    rw [hcp, List.nil_append]

theorem units_of_unit (u : UInt16) : units u.toNat = [u] := by
  have hlt : u.toNat < 0x10000 := u.toNat_lt
  rw [units, if_pos hlt, UInt16.ofNat_toNat]

/-- A surrogate pair is the text of its code point. -/
theorem units_of_pair {u v : UInt16} (hu : isHigh u = true) (hv : isLow v = true) :
    units (0x10000 + (u.toNat - 0xD800) * 0x400 + (v.toNat - 0xDC00)) = [u, v] := by
  simp only [isHigh, isLow, Bool.and_eq_true, decide_eq_true_eq] at hu hv
  generalize hcp : 0x10000 + (u.toNat - 0xD800) * 0x400 + (v.toNat - 0xDC00) = cp
  have h1 : 0xD800 + (cp - 0x10000) / 0x400 = u.toNat := by omega
  have h2 : 0xDC00 + (cp - 0x10000) % 0x400 = v.toNat := by omega
  rw [units, if_neg (by omega), h1, h2, UInt16.ofNat_toNat, UInt16.ofNat_toNat]

/-- A code unit outside a pair is read back, if it is no surrogate. -/
theorem ofUtf8_unitBytes {u : UInt16} (h : (isHigh u || isLow u) = false) (bs : List UInt8) :
    ofUtf8 (unitBytes u ++ bs) = u :: ofUtf8 bs := by
  have hlt : u.toNat < 0x10000 := u.toNat_lt
  have hs : u.toNat < 0xD800 ∨ 0xE000 ≤ u.toNat := by
    simp only [isHigh, isLow, Bool.or_eq_false_iff, Bool.and_eq_false_iff, decide_eq_false_iff_not] at h
    omega
  rw [unitBytes, h, if_neg Bool.false_ne_true, ofUtf8_utf8Bytes (by omega) hs, units_of_unit]
  rfl

/-- **Well-formed text survives its encoding.** -/
theorem ofUtf8_toUtf8 {s : JsString} (h : wellFormed s = true) : ofUtf8 (toUtf8 s) = s := by
  fun_induction wellFormed s with
  | case1 => rfl
  | case2 u =>
    have hb := ofUtf8_unitBytes (by simpa using h) []
    rwa [List.append_nil] at hb
  | case3 u v rest hp ih =>
    obtain ⟨hu, hv⟩ := Bool.and_eq_true_iff.1 hp
    have hu' := hu
    have hv' := hv
    simp only [isHigh, isLow, Bool.and_eq_true, decide_eq_true_eq] at hu' hv'
    rw [toUtf8, if_pos hp, ofUtf8_utf8Bytes (by omega) (Or.inr (by omega)), units_of_pair hu hv, ih h]
    rfl
  | case4 u v rest hp ih =>
    obtain ⟨hu, hr⟩ := Bool.and_eq_true_iff.1 h
    rw [toUtf8, if_neg hp, ofUtf8_unitBytes (by simpa using hu), ih hr]

theorem toUtf8_inj {s t : JsString} (hs : wellFormed s = true) (ht : wellFormed t = true) :
    toUtf8 s = toUtf8 t ↔ s = t := by
  constructor
  · intro h
    rw [← ofUtf8_toUtf8 hs, h, ofUtf8_toUtf8 ht]
  · rintro rfl
    rfl

/-! ## ASCII text -/

theorem not_surrogate {u : UInt16} (h : u.toNat < 0x80) : isHigh u = false ∧ isLow u = false := by
  simp only [isHigh, isLow, Bool.and_eq_false_iff, decide_eq_false_iff_not]
  omega

theorem wellFormed_of_ascii {s : JsString} (h : Ascii s) : wellFormed s = true :=
  wellFormed_of_units fun u hu => not_surrogate (h u hu)

end Lib
