import Mathlib.Data.List.Basic
import Mathlib.Data.List.TakeWhile
import Mathlib.Tactic.Common

set_option autoImplicit false

/-!
# Hex decoders

The four decoders for keys, chat ids and addresses. Two of them read a pair of characters with
`strtol`, which takes more than hex digits.
-/
namespace Tim2Tox.HexDecoders

abbrev Bytes : Type := List UInt8

/-! ## strtol -/

/-- The blanks of the C locale. -/
def isSpace (c : UInt8) : Bool := c = 32 || (9 ≤ c && c ≤ 13)

def hexValue (c : UInt8) : Option ℕ :=
  if 48 ≤ c ∧ c ≤ 57 then some (c.toNat - 48)
  else if 65 ≤ c ∧ c ≤ 70 then some (c.toNat - 55)
  else if 97 ≤ c ∧ c ≤ 102 then some (c.toNat - 87)
  else none

def isHexDigit (c : UInt8) : Bool := (hexValue c).isSome

def isSign (c : UInt8) : Bool := c = 43 || c = 45

/-- Up to the terminating zero. -/
def cString (buffer : Bytes) : Bytes := buffer.takeWhile (· ≠ 0)

/-- `0x` counts for nothing in front of a digit. -/
def dropRadix : Bytes → Bytes
  | zero :: x :: digit :: rest =>
    if zero = 48 ∧ (x = 120 ∨ x = 88) ∧ isHexDigit digit then digit :: rest
    else zero :: x :: digit :: rest
  | text => text

/-- `strtol` with base 16: the number and the text from `endptr` on. -/
def strtol (text : Bytes) : ℤ × Bytes :=
  let body := text.dropWhile isSpace
  let negative := body.head? == some 45
  let digits := dropRadix (if body.head?.any isSign then body.tail else body)
  if (digits.takeWhile isHexDigit).isEmpty then (0, text)
  else
    let number : ℤ :=
      (digits.takeWhile isHexDigit).foldl (fun number c => number * 16 + ((hexValue c).getD 0 : ℤ)) 0
    (if negative then -number else number, digits.dropWhile isHexDigit)

/-- Both characters and the zero behind them go to `strtol`, which has to read all. -/
def strtolPair (a b : UInt8) : Option UInt8 :=
  match strtol (cString [a, b, 0]) with
  | (number, []) => some (UInt8.ofNat (number % 256).toNat)
  | _ => none

/-! ## The decoders -/

/-- The loop over the pairs of characters. -/
def decodePairs (pair : UInt8 → UInt8 → Option UInt8) : Bytes → Option Bytes
  | a :: b :: rest =>
    match pair a b with
    | none => none
    | some byte => (decodePairs pair rest).map fun bytes => byte :: bytes
  | [] => some []
  | [_] => none

/-- ToxUtil.h; `bytesSize` is the room for the output. -/
def toxHexToBytes (hexString : Bytes) (bytesSize : ℕ) : Option Bytes :=
  if hexString.length % 2 ≠ 0 ∨ hexString.length / 2 > bytesSize then none
  else decodePairs strtolPair hexString

def hexStringToBin (hexString : Bytes) (binSize : ℕ) : Option Bytes :=
  if (cString hexString).length ≠ binSize * 2 then none
  else decodePairs strtolPair (cString hexString)

def hexCharToByte (c : UInt8) : UInt8 :=
  if 48 ≤ c ∧ c ≤ 57 then c - 48
  else if 65 ≤ c ∧ c ≤ 70 then c - 65 + 10
  else if 97 ≤ c ∧ c ≤ 102 then c - 97 + 10
  else 0xFF

def addressPair (h l : UInt8) : Option UInt8 :=
  if hexCharToByte h > 0x0F ∨ hexCharToByte l > 0x0F then none
  else some ((hexCharToByte h <<< 4) ||| hexCharToByte l)

def toxPublicKeySize : ℕ := 32

def toxAddressStringToBytes (address : Bytes) : Option Bytes :=
  if (cString address).length ≠ toxPublicKeySize * 2 then none
  else
    decodePairs addressPair (cString address)

def nibble (c : UInt8) : ℤ :=
  if 48 ≤ c ∧ c ≤ 57 then c.toNat - 48
  else if 97 ≤ c ∧ c ≤ 102 then c.toNat - 97 + 10
  else if 65 ≤ c ∧ c ≤ 70 then c.toNat - 65 + 10
  else -1

def nibblePair (a b : UInt8) : Option UInt8 :=
  if nibble a < 0 ∨ nibble b < 0 then none
  else some (UInt8.ofNat ((nibble a).toNat <<< 4 ||| (nibble b).toNat))

def unhex (hex : Bytes) (length : ℕ) : Option Bytes :=
  if hex.length ≠ length * 2 then none
  else
    decodePairs nibblePair hex

def hexChars : Bytes := "0123456789ABCDEF".toList.map fun c => UInt8.ofNat c.toNat

def toxBytesToHex (bytes : Bytes) : Bytes :=
  bytes.flatMap fun byte =>
    [hexChars.getD (byte.toNat >>> 4 &&& 0xF) 0, hexChars.getD (byte.toNat &&& 0xF) 0]

/-! ## Pairs -/

def hexPair (a b : UInt8) : Option UInt8 :=
  match hexValue a, hexValue b with
  | some high, some low => some (UInt8.ofNat (high * 16 + low))
  | _, _ => none

/-- What `strtol` takes besides two digits: white space or a sign before a digit, a digit before
    a zero byte, and a pair that begins with one. -/
def isLoose (a b : UInt8) : Bool :=
  a = 0 || (isHexDigit a && b = 0) || ((isSpace a || isSign a) && isHexDigit b)

/-- A fact about single characters is checked for all of them. -/
theorem of_all_bytes {p : UInt8 → Bool}
    (h : (List.range 256).all (fun n => p (UInt8.ofNat n)) = true) (c : UInt8) : p c = true := by
  have hc := List.all_eq_true.mp h c.toNat (List.mem_range.mpr c.toNat_lt)
  rw [UInt8.ofNat_toNat] at hc
  exact hc

theorem isHexDigit_apart (c : UInt8) (h : isHexDigit c = true) :
    isSpace c = false ∧ isSign c = false ∧ (c == 45) = false ∧ c ≠ 0 := by
  have hall := of_all_bytes (p := fun c =>
    !isHexDigit c || (!isSpace c && !isSign c && !(c == 45) && c != 0)) (by decide +kernel) c
  simpa [h, and_assoc] using hall

/-- The text of a single character. -/
theorem strtol_one (c : UInt8) : (strtol [c]).2 = [] ↔ isHexDigit c = true := by
  by_cases hhex : isHexDigit c = true
  · obtain ⟨hspace, hsign, -, -⟩ := isHexDigit_apart c hhex
    simp [strtol, hspace, hsign, dropRadix, hhex]
  · have hother : isHexDigit c = false := Bool.eq_false_iff.mpr hhex
    by_cases hspace : isSpace c = true
    · simp [strtol, hspace, dropRadix, hother]
    · by_cases hsign : isSign c = true
      · simp [strtol, hspace, hsign, dropRadix, hother]
      · simp [strtol, hspace, hsign, dropRadix, hother]

/-- The text of two characters. -/
theorem strtol_two (a b : UInt8) : (strtol [a, b]).2 = [] ↔
    isHexDigit b = true ∧ (isHexDigit a = true ∨ isSpace a = true ∨ isSign a = true) := by
  by_cases hhex : isHexDigit a = true
  · obtain ⟨hspace, hsign, -, -⟩ := isHexDigit_apart a hhex
    by_cases hb : isHexDigit b = true <;> simp [strtol, hspace, hsign, dropRadix, hhex, hb]
  · have hother : isHexDigit a = false := Bool.eq_false_iff.mpr hhex
    by_cases hspace : isSpace a = true
    · by_cases hb : isHexDigit b = true
      · obtain ⟨hbspace, hbsign, -, -⟩ := isHexDigit_apart b hb
        simp [strtol, hspace, hother, dropRadix, hb, hbspace, hbsign]
      · by_cases hbspace : isSpace b = true
        · simp [strtol, hspace, hother, dropRadix, hb, hbspace]
        · by_cases hbsign : isSign b = true
          · simp [strtol, hspace, hother, dropRadix, hb, hbspace, hbsign]
          · simp [strtol, hspace, hother, dropRadix, hb, hbspace, hbsign]
    · by_cases hsign : isSign a = true
      · by_cases hb : isHexDigit b = true <;>
          simp [strtol, hspace, hsign, hother, dropRadix, hb]
      · simp [strtol, hspace, hsign, hother, dropRadix]

theorem strtolPair_isSome (a b : UInt8) :
    (strtolPair a b).isSome = true ↔ (strtol (cString [a, b, 0])).2 = [] := by
  rw [strtolPair]
  generalize strtol (cString [a, b, 0]) = out
  obtain ⟨number, rest⟩ := out
  cases rest with
  | nil => simp
  | cons c rest => simp

theorem hexPair_isSome (a b : UInt8) :
    (hexPair a b).isSome = true ↔ isHexDigit a = true ∧ isHexDigit b = true := by
  rw [hexPair, isHexDigit, isHexDigit]
  cases hexValue a <;> cases hexValue b <;> simp

/-- `strtol` takes pairs of digits and the loose pairs. -/
theorem strtolPair_takes (a b : UInt8) :
    (strtolPair a b).isSome = true ↔ (hexPair a b).isSome = true ∨ isLoose a b = true := by
  rw [strtolPair_isSome, hexPair_isSome, isLoose]
  by_cases ha : a = 0
  · rw [ha]
    simp [cString, strtol, dropRadix]
  · by_cases hb : b = 0
    · have hzero : isHexDigit 0 = false := by decide
      have hstring : cString [a, b, 0] = [a] := by simp [cString, ha, hb]
      rw [hstring, strtol_one]
      simp [ha, hb, hzero]
    · have hstring : cString [a, b, 0] = [a, b] := by simp [cString, ha, hb]
      rw [hstring, strtol_two]
      simp only [ha, hb, decide_false, Bool.and_false, Bool.or_false, Bool.false_or, Bool.and_eq_true,
        Bool.or_eq_true]
      tauto

/-- Of two digits it makes the byte. -/
theorem strtolPair_eq {a b : UInt8} (h : (hexPair a b).isSome = true) : strtolPair a b = hexPair a b := by
  obtain ⟨ha, hb⟩ := (hexPair_isSome a b).mp h
  obtain ⟨hspace, hsign, hminus, hzero⟩ := isHexDigit_apart a ha
  have hbzero := (isHexDigit_apart b hb).2.2.2
  obtain ⟨high, hhigh⟩ := Option.isSome_iff_exists.mp ha
  obtain ⟨low, hlow⟩ := Option.isSome_iff_exists.mp hb
  have hstring : cString [a, b, 0] = [a, b] := by simp [cString, hzero, hbzero]
  have hnumber : strtol [a, b] = (((high * 16 + low : ℕ) : ℤ), []) := by
    simp [strtol, hspace, hsign, hminus, dropRadix, ha, hb, hhigh, hlow]
  rw [strtolPair, hstring, hnumber, hexPair, hhigh, hlow]
  have hmod : (((high * 16 + low : ℕ) : ℤ) % 256).toNat = (high * 16 + low) % 2 ^ 8 := by omega
  dsimp only
  rw [hmod, UInt8.ofNat_mod_size]

/-! ## The digit tests of the other two -/

/-- The three tests of a digit give the same values, and only values below sixteen. -/
theorem digit_tests (c : UInt8) : (∀ v ∈ hexValue c, v < 16) ∧
    hexCharToByte c = ((hexValue c).map UInt8.ofNat).getD 0xFF ∧
    nibble c = ((hexValue c).map Int.ofNat).getD (-1) := by
  have hall := of_all_bytes (p := fun c => decide ((∀ v ∈ hexValue c, v < 16) ∧
    hexCharToByte c = ((hexValue c).map UInt8.ofNat).getD 0xFF ∧
    nibble c = ((hexValue c).map Int.ofNat).getD (-1))) (by decide +kernel) c
  exact of_decide_eq_true hall

theorem hexValue_lt {c : UInt8} {v : ℕ} (h : hexValue c = some v) : v < 16 :=
  (digit_tests c).1 v h

theorem hexCharToByte_eq (c : UInt8) : hexCharToByte c = ((hexValue c).map UInt8.ofNat).getD 0xFF :=
  (digit_tests c).2.1

theorem nibble_eq (c : UInt8) : nibble c = ((hexValue c).map Int.ofNat).getD (-1) :=
  (digit_tests c).2.2

/-- The halves of a byte, put together. -/
theorem halves_eq {high low : ℕ} (hhigh : high < 16) (hlow : low < 16) :
    (UInt8.ofNat high <<< 4) ||| UInt8.ofNat low = UInt8.ofNat (high * 16 + low) ∧
      high <<< 4 ||| low = high * 16 + low ∧ UInt8.ofNat high ≤ 0x0F := by
  have hall : (List.range 16).all (fun high => (List.range 16).all fun low =>
      ((UInt8.ofNat high <<< 4) ||| UInt8.ofNat low) == UInt8.ofNat (high * 16 + low) &&
        ((high <<< 4 ||| low) == high * 16 + low && decide (UInt8.ofNat high ≤ 0x0F))) = true := by
    decide
  have hrow := List.all_eq_true.mp hall high (List.mem_range.mpr hhigh)
  have hpair := List.all_eq_true.mp hrow low (List.mem_range.mpr hlow)
  simpa using hpair

theorem addressPair_eq (a b : UInt8) : addressPair a b = hexPair a b := by
  rw [addressPair, hexPair, hexCharToByte_eq, hexCharToByte_eq]
  cases ha : hexValue a with
  | none => exact if_pos (.inl (by decide))
  | some high =>
    cases hb : hexValue b with
    | none => exact if_pos (.inr (by decide))
    | some low =>
      obtain ⟨hbyte, -, hsmall⟩ := halves_eq (hexValue_lt ha) (hexValue_lt hb)
      have hsmall' := (halves_eq (hexValue_lt hb) (hexValue_lt ha)).2.2
      have hnot : ¬ (UInt8.ofNat high > 0x0F ∨ UInt8.ofNat low > 0x0F) := by
        intro h
        cases h with
        | inl h => exact absurd h (UInt8.not_lt.mpr hsmall)
        | inr h => exact absurd h (UInt8.not_lt.mpr hsmall')
      simp only [Option.map_some, Option.getD_some]
      rw [if_neg hnot, hbyte]

theorem nibblePair_eq (a b : UInt8) : nibblePair a b = hexPair a b := by
  rw [nibblePair, hexPair, nibble_eq, nibble_eq]
  cases ha : hexValue a with
  | none => exact if_pos (.inl (by decide))
  | some high =>
    cases hb : hexValue b with
    | none => exact if_pos (.inr (by decide))
    | some low =>
      have hhalves := (halves_eq (hexValue_lt ha) (hexValue_lt hb)).2.1
      simp only [Option.map_some, Option.getD_some, Int.ofNat_eq_natCast, Int.toNat_natCast]
      rw [if_neg (by omega), hhalves]

/-! ## Whole strings -/

/-- The characters two by two. -/
def pairs : Bytes → List (UInt8 × UInt8)
  | a :: b :: rest => (a, b) :: pairs rest
  | _ => []

theorem decodePairs_isSome (pair : UInt8 → UInt8 → Option UInt8) : ∀ s : Bytes, s.length % 2 = 0 →
    ((decodePairs pair s).isSome = true ↔ ∀ p ∈ pairs s, (pair p.1 p.2).isSome = true)
  | [], _ => by simp [decodePairs, pairs]
  | [_], h => by simp at h
  | a :: b :: rest, h => by
    have ih := decodePairs_isSome pair rest (by
      simp only [List.length_cons] at h
      omega)
    rw [decodePairs, pairs, List.forall_mem_cons, ← ih]
    cases pair a b with
    | none => simp
    | some byte => simp

theorem decodePairs_congr {pair pair' : UInt8 → UInt8 → Option UInt8} : ∀ {s : Bytes},
    (∀ p ∈ pairs s, pair p.1 p.2 = pair' p.1 p.2) → decodePairs pair s = decodePairs pair' s
  | [], _ => rfl
  | [_], _ => rfl
  | a :: b :: rest, h => by
    have hhead : pair a b = pair' a b := h (a, b) List.mem_cons_self
    have ih := decodePairs_congr fun p hp => h p (List.mem_cons_of_mem _ hp)
    rw [decodePairs, decodePairs, hhead, ih]

def IsHex (s : Bytes) : Prop := ∀ c ∈ s, isHexDigit c = true

theorem isHex_iff : ∀ s : Bytes, s.length % 2 = 0 →
    (IsHex s ↔ ∀ p ∈ pairs s, (hexPair p.1 p.2).isSome = true)
  | [], _ => by simp [IsHex, pairs]
  | [_], h => by simp at h
  | a :: b :: rest, h => by
    have ih := isHex_iff rest (by
      simp only [List.length_cons] at h
      omega)
    rw [pairs, List.forall_mem_cons, ← ih, hexPair_isSome, IsHex, List.forall_mem_cons,
      List.forall_mem_cons, and_assoc]
    rfl

/-! ## What is claimed of a string and of bytes -/

/-- What the decoders make of a string: the first is given twice the size of its output, the last two
    are given C strings. -/
def results (s : Bytes) (n : ℕ) : List (Option Bytes) :=
  (if s.length = 2 * n then [toxHexToBytes s n] else []) ++ unhex s n ::
    if 0 ∈ s then [] else [hexStringToBin s n, toxAddressStringToBytes s]

/-- For output of `n` bytes, hex is taken and nothing else, and all give the same bytes. -/
structure Agree (s : Bytes) (n : ℕ) : Prop where
  toxHexToBytes : s.length = 2 * n → ((toxHexToBytes s n).isSome = true ↔ IsHex s)
  hexStringToBin : 0 ∉ s → ((hexStringToBin s n).isSome = true ↔ s.length = 2 * n ∧ IsHex s)
  toxAddressStringToBytes : 0 ∉ s →
    ((toxAddressStringToBytes s).isSome = true ↔ s.length = 2 * toxPublicKeySize ∧ IsHex s)
  unhex : (unhex s n).isSome = true ↔ s.length = 2 * n ∧ IsHex s
  same : ∀ bytes bytes', some bytes ∈ results s n → some bytes' ∈ results s n → bytes = bytes'

/-- What was written is read back. -/
structure ReadBack (bytes : Bytes) : Prop where
  toxHexToBytes : toxHexToBytes (toxBytesToHex bytes) bytes.length = some bytes
  hexStringToBin : hexStringToBin (toxBytesToHex bytes) bytes.length = some bytes
  toxAddressStringToBytes : bytes.length = toxPublicKeySize →
    toxAddressStringToBytes (toxBytesToHex bytes) = some bytes
  unhex : unhex (toxBytesToHex bytes) bytes.length = some bytes

/-- A string of the right length, all of whose pairs `strtol` reads, has no loose pair. -/
def Strict (s : Bytes) (n : ℕ) : Prop :=
  s.length = 2 * n →
    (∀ p ∈ pairs s, (hexPair p.1 p.2).isSome = true ∨ isLoose p.1 p.2 = true) → IsHex s

section
variable {s : Bytes} {n : ℕ}

theorem cString_eq (h : 0 ∉ s) : cString s = s := by
  rw [cString, List.takeWhile_eq_self_iff]
  intro c hc
  rw [decide_eq_true_eq]
  rintro rfl
  exact h hc

theorem decode_strtol_isSome (h : s.length = 2 * n) : (decodePairs strtolPair s).isSome = true ↔
    ∀ p ∈ pairs s, (hexPair p.1 p.2).isSome = true ∨ isLoose p.1 p.2 = true := by
  rw [decodePairs_isSome _ s (by omega)]
  simp only [strtolPair_takes]

/-- On hex, reading with `strtol` is reading digits. -/
theorem decode_strtol_eq (hlength : s.length = 2 * n) (h : IsHex s) :
    decodePairs strtolPair s = decodePairs hexPair s := by
  apply decodePairs_congr
  intro p hp
  exact strtolPair_eq ((isHex_iff s (by omega)).mp h p hp)

theorem toxHexToBytes_eq (h : s.length = 2 * n) : toxHexToBytes s n = decodePairs strtolPair s :=
  if_neg (by omega)

theorem hexStringToBin_eq (hzero : 0 ∉ s) : hexStringToBin s n =
    if s.length = 2 * n then decodePairs strtolPair s else none := by
  rw [hexStringToBin, cString_eq hzero]
  by_cases hlength : s.length = 2 * n
  · rw [if_neg (by omega), if_pos hlength]
  · rw [if_pos (by omega), if_neg hlength]

theorem toxAddressStringToBytes_eq (hzero : 0 ∉ s) : toxAddressStringToBytes s =
    if s.length = 2 * toxPublicKeySize then decodePairs hexPair s else none := by
  rw [toxAddressStringToBytes, cString_eq hzero, decodePairs_congr fun p _ => addressPair_eq p.1 p.2]
  by_cases hlength : s.length = 2 * toxPublicKeySize
  · rw [if_neg (by omega), if_pos hlength]
  · rw [if_pos (by omega), if_neg hlength]

theorem unhex_eq : unhex s n = if s.length = 2 * n then decodePairs hexPair s else none := by
  rw [unhex, decodePairs_congr fun p _ => nibblePair_eq p.1 p.2]
  by_cases hlength : s.length = 2 * n
  · rw [if_neg (by omega), if_pos hlength]
  · rw [if_pos (by omega), if_neg hlength]

theorem decode_hex_isSome (h : s.length = 2 * n) :
    (decodePairs hexPair s).isSome = true ↔ IsHex s := by
  rw [decodePairs_isSome _ s (by omega), isHex_iff s (by omega)]

theorem Strict.decode_strtol (h : Strict s n) (hlength : s.length = 2 * n) :
    (decodePairs strtolPair s).isSome = true ↔ IsHex s := by
  rw [decode_strtol_isSome hlength]
  constructor
  · exact h hlength
  · intro hhex p hp
    exact .inl ((isHex_iff s (by omega)).mp hhex p hp)

theorem Strict.decode_eq (h : Strict s n) (hlength : s.length = 2 * n) {bytes : Bytes}
    (hsome : decodePairs strtolPair s = some bytes) : decodePairs hexPair s = some bytes := by
  have hhex : IsHex s := by
    rw [← h.decode_strtol hlength, hsome]
    rfl
  rw [← decode_strtol_eq hlength hhex]
  exact hsome

/-- Every decoder that takes the string reads its digits. -/
theorem Strict.results_eq (h : Strict s n) {bytes : Bytes} (hmem : some bytes ∈ results s n) :
    decodePairs hexPair s = some bytes := by
  rw [results, List.mem_append, List.mem_cons] at hmem
  rcases hmem with htox | hunhex | hrest
  · split_ifs at htox with hlength
    · rw [toxHexToBytes_eq hlength, List.mem_singleton] at htox
      exact h.decode_eq hlength htox.symm
    · cases htox
  · rw [unhex_eq] at hunhex
    split_ifs at hunhex
    exact hunhex.symm
  · split_ifs at hrest with hzero
    · cases hrest
    · rw [hexStringToBin_eq hzero, toxAddressStringToBytes_eq hzero, List.mem_pair] at hrest
      cases hrest with
      | inl hbin =>
        split_ifs at hbin with hlength
        exact h.decode_eq hlength hbin.symm
      | inr haddress =>
        split_ifs at haddress
        exact haddress.symm

theorem Strict.agree (h : Strict s n) : Agree s n where
  toxHexToBytes hlength := by
    rw [toxHexToBytes_eq hlength]
    exact h.decode_strtol hlength
  hexStringToBin hzero := by
    rw [hexStringToBin_eq hzero]
    split_ifs with hlength
    · simp [h.decode_strtol hlength, hlength]
    · simp [hlength]
  toxAddressStringToBytes hzero := by
    rw [toxAddressStringToBytes_eq hzero]
    split_ifs with hlength
    · simp [decode_hex_isSome hlength, hlength]
    · simp [hlength]
  unhex := by
    rw [unhex_eq]
    split_ifs with hlength
    · simp [decode_hex_isSome hlength, hlength]
    · simp [hlength]
  same bytes bytes' hmem hmem' := by
    have heq := (h.results_eq hmem).symm.trans (h.results_eq hmem')
    exact Option.some.inj heq

theorem Agree.strict (h : Agree s n) : Strict s n := by
  intro hlength hpairs
  apply (h.toxHexToBytes hlength).mp
  rw [toxHexToBytes_eq hlength, decode_strtol_isSome hlength]
  exact hpairs

end

/-! ## What was written -/

theorem hexPair_written (byte : UInt8) :
    hexPair (hexChars.getD (byte.toNat >>> 4 &&& 0xF) 0) (hexChars.getD (byte.toNat &&& 0xF) 0) =
      some byte := by
  have hall := of_all_bytes (p := fun byte =>
    hexPair (hexChars.getD (byte.toNat >>> 4 &&& 0xF) 0) (hexChars.getD (byte.toNat &&& 0xF) 0) ==
      some byte) (by decide +kernel) byte
  exact beq_iff_eq.mp hall

theorem toxBytesToHex_length (bytes : Bytes) : (toxBytesToHex bytes).length = 2 * bytes.length := by
  induction bytes with
  | nil => rfl
  | cons byte bytes ih =>
    rw [toxBytesToHex, List.flatMap_cons, List.length_append, ← toxBytesToHex, ih, List.length_cons]
    simp only [List.length_cons, List.length_nil]
    omega

theorem decode_written (bytes : Bytes) : decodePairs hexPair (toxBytesToHex bytes) = some bytes := by
  induction bytes with
  | nil => rfl
  | cons byte bytes ih =>
    rw [toxBytesToHex, List.flatMap_cons, ← toxBytesToHex]
    change decodePairs hexPair (_ :: _ :: toxBytesToHex bytes) = _
    rw [decodePairs, hexPair_written, ih]
    rfl

theorem isHex_written (bytes : Bytes) : IsHex (toxBytesToHex bytes) := by
  rw [← decode_hex_isSome (toxBytesToHex_length bytes), decode_written]
  rfl

theorem readBack (bytes : Bytes) : ReadBack bytes := by
  have hlength := toxBytesToHex_length bytes
  have hhex := isHex_written bytes
  have hzero : 0 ∉ toxBytesToHex bytes := fun hmem => absurd (hhex 0 hmem) (by decide)
  have hstrtol : decodePairs strtolPair (toxBytesToHex bytes) = some bytes := by
    rw [decode_strtol_eq hlength hhex, decode_written]
  constructor
  · rw [toxHexToBytes_eq hlength, hstrtol]
  · rw [hexStringToBin_eq hzero, if_pos hlength, hstrtol]
  · intro hsize
    rw [toxAddressStringToBytes_eq hzero, if_pos (by rw [hlength, hsize]), decode_written]
  · rw [unhex_eq, if_pos hlength, decode_written]

/-- The decoders take hex and nothing else, and agree: exactly for the strings in which `strtol`
    reads no pair that is no hex. What is written is always read back. -/
theorem decoders_agree (s : Bytes) (n : ℕ) (bytes : Bytes) : (Agree s n ↔ Strict s n) ∧ ReadBack bytes :=
  ⟨⟨Agree.strict, Strict.agree⟩, readBack bytes⟩

/-- A blank and a digit: `strtol` takes them for a byte, the others do not. -/
theorem blank_is_taken :
    ¬ ((∀ (s : Bytes) (n : ℕ), Agree s n) ∧ ∀ bytes : Bytes, ReadBack bytes) := by
  intro h
  have htaken := (h.1 [32, 53] 1).toxHexToBytes rfl
  revert htaken
  have hnot : ¬ IsHex [32, 53] := fun hhex => absurd (hhex 32 List.mem_cons_self) (by decide)
  rw [iff_false_right hnot]
  decide

end Tim2Tox.HexDecoders
