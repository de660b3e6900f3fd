import Mathlib.Data.Nat.Notation
import Mathlib.Data.Rat.Init
import Mathlib.Tactic.Common
import Mathlib.Tactic.Ring
import Mathlib.Data.List.TakeWhile

set_option autoImplicit false

/-!
# Numbers as texts

What the C library reads of a number at the beginning of a text and how it prints one, and the
numbers of JSON, which are whole texts.
-/
namespace Tim2Tox.NumberTexts

abbrev Bytes : Type := List UInt8

/-! ## Digits -/

def isDigit (b : UInt8) : Bool := 48 ≤ b && b ≤ 57

def digits (n : ℕ) : Bytes := (Nat.toDigits 10 n).map fun c => UInt8.ofNat c.toNat

def readDigits (s : Bytes) : ℕ := s.foldl (fun n b => 10 * n + (b.toNat - 48)) 0

/-- `std::to_string` of an integer. -/
def decimal (z : ℤ) : Bytes := if z < 0 then 45 :: digits z.natAbs else digits z.natAbs

/-! ## Reading -/

def isSpace (b : UInt8) : Bool := b = 32 || (9 ≤ b && b ≤ 13)

/-- Whether there is a minus, and what follows the sign. -/
def takeSign : Bytes → Bool × Bytes
  | 45 :: rest => (true, rest)
  | 43 :: rest => (false, rest)
  | rest => (false, rest)

def signed (negative : Bool) (n : ℕ) : ℤ := if negative then -n else n

/-- `std::stoll`, none where it throws. -/
def stoll (s : Bytes) : Option ℤ :=
  let (negative, rest) := takeSign (s.dropWhile isSpace)
  let found := rest.takeWhile isDigit
  let z := signed negative (readDigits found)
  if found = [] then none else if -2 ^ 63 ≤ z && z < 2 ^ 63 then some z else none

def lower (b : UInt8) : UInt8 := if 65 ≤ b && b ≤ 90 then b + 32 else b

def hexValue (b : UInt8) : Option ℕ :=
  if isDigit b then some (b.toNat - 48)
  else if 97 ≤ lower b && lower b ≤ 102 then some ((lower b).toNat - 87)
  else none

/-- The exponent behind its mark, 0 where there is none. -/
def scanExponent (mark : UInt8) : Bytes → ℤ
  | [] => 0
  | b :: rest =>
    if lower b = mark then
      let (negative, rest) := takeSign rest
      signed negative (readDigits (rest.takeWhile isDigit))
    else 0

/-- The digits before and after a point, and what follows them. -/
def scanPoint (test : UInt8 → Bool) (s : Bytes) : Bytes × Bytes × Bytes :=
  match s.dropWhile test with
  | 46 :: rest => (s.takeWhile test, rest.takeWhile test, rest.dropWhile test)
  | rest => (s.takeWhile test, [], rest)

/-- A number as a fraction. -/
structure Fraction where
  num : ℕ
  den : ℕ

def scaled (mantissa base : ℕ) (exponent : ℤ) : Fraction where
  num := mantissa * base ^ exponent.toNat
  den := base ^ (-exponent).toNat

def scanHex : Bytes → Option Fraction
  | 48 :: x :: rest =>
    if lower x = 120 then
      let (whole, part, rest) := scanPoint (fun b => (hexValue b).isSome) rest
      if whole ++ part = [] then none
      else
        let mantissa := (whole ++ part).foldl (fun n b => 16 * n + (hexValue b).getD 0) 0
        some (scaled mantissa 2 (scanExponent 112 rest - 4 * part.length))
    else none
  | _ => none

def scanDecimal (s : Bytes) : Option Fraction :=
  let (whole, part, rest) := scanPoint isDigit s
  if whole ++ part = [] then none
  else some (scaled (readDigits (whole ++ part)) 10 (scanExponent 101 rest - part.length))

/-! ## Doubles -/

/-- The nearest integer, the even one of two. -/
def roundHalfEven (num den : ℕ) : ℕ :=
  if 2 * (num % den) < den then num / den
  else if den < 2 * (num % den) then num / den + 1
  else if num / den % 2 = 0 then num / den
  else num / den + 1

def floorLog2 (q : Fraction) : ℤ :=
  let k : ℤ := q.num.log2 - q.den.log2
  if q.num * 2 ^ (-k).toNat < q.den * 2 ^ k.toNat then k - 1 else k

inductive Double where
  | finite (negative : Bool) (significand : ℕ) (exponent : ℤ)
  | infinite (negative : Bool)
  | nan
  deriving DecidableEq

/-- The nearest double with 53 bits, none where the C library reports a range error: beyond the
    largest one, or below the normal ones and not exact. -/
def nearest (negative : Bool) (q : Fraction) : Option Double :=
  if q.num = 0 then some (.finite negative 0 0)
  else
    let exponent := max (floorLog2 q - 52) (-1074)
    let num := q.num * 2 ^ (-exponent).toNat
    let den := q.den * 2 ^ exponent.toNat
    let significand := roundHalfEven num den
    if 2 ^ 1024 ≤ significand * 2 ^ exponent.toNat then none
    else if significand < 2 ^ 52 && significand * den ≠ num then none
    else some (.finite negative significand exponent)

/-- `std::stod`, none where it throws. -/
def stod (s : Bytes) : Option Double :=
  let (negative, rest) := takeSign (s.dropWhile isSpace)
  if (rest.take 3).map lower = [105, 110, 102] then some (.infinite negative)
  else if (rest.take 3).map lower = [110, 97, 110] then some .nan
  else ((scanHex rest).or (scanDecimal rest)).bind (nearest negative)

/-- The millionths that `%f` prints. -/
def millionths (significand : ℕ) (exponent : ℤ) : ℕ :=
  roundHalfEven (significand * 2 ^ exponent.toNat * 10 ^ 6) (2 ^ (-exponent).toNat)

/-- `std::to_string` of a double. -/
def fixed : Double → Bytes
  | .finite negative significand exponent =>
    let n := millionths significand exponent
    let part := digits (n % 10 ^ 6)
    (if negative then [45] else []) ++
      (digits (n / 10 ^ 6) ++ 46 :: (List.replicate (6 - part.length) 48 ++ part))
  | .infinite negative => (if negative then [45] else []) ++ [105, 110, 102]
  | .nan => [110, 97, 110]

/-! ## JSON -/

/-- The digits of an exponent that ends the text. -/
def jsonExponent : Bytes → Option ℤ
  | [] => some 0
  | b :: rest =>
    let (negative, found) := takeSign rest
    if lower b = 101 && found ≠ [] && found.all isDigit then some (signed negative (readDigits found))
    else none

/-- The number that the whole text is. -/
def jsonNumber (s : Bytes) : Option ℚ :=
  let negative := s.head? = some 45
  let s := if negative then s.drop 1 else s
  let (whole, part, rest) := scanPoint isDigit s
  let pointed := (s.dropWhile isDigit).head? = some 46
  if whole = [] || (whole.head? = some 48 && 1 < whole.length) || (pointed && part = []) then none
  else (jsonExponent rest).map fun exponent =>
    let q := scaled (readDigits (whole ++ part)) 10 (exponent - part.length)
    mkRat (signed negative q.num) q.den

/-! ## Digits read back -/

theorem toNat_digit {n : ℕ} {c : Char} (h : c ∈ Nat.toDigits 10 n) :
    (UInt8.ofNat c.toNat).toNat = c.toNat ∧ 48 ≤ c.toNat ∧ c.toNat ≤ 57 := by
  have hdigit := Nat.isDigit_of_mem_toDigits (by decide) (by decide) h
  rw [Char.isDigit, Bool.and_eq_true, decide_eq_true_eq, decide_eq_true_eq] at hdigit
  have hlow : 48 ≤ c.toNat := UInt32.le_iff_toNat_le.mp hdigit.1
  have hhigh : c.toNat ≤ 57 := UInt32.le_iff_toNat_le.mp hdigit.2
  refine ⟨?_, hlow, hhigh⟩
  rw [UInt8.toNat_ofNat']
  omega

theorem isDigit_iff (b : UInt8) : isDigit b = true ↔ 48 ≤ b.toNat ∧ b.toNat ≤ 57 := by
  rw [isDigit, Bool.and_eq_true, decide_eq_true_eq, decide_eq_true_eq, UInt8.le_iff_toNat_le,
    UInt8.le_iff_toNat_le]
  rfl

theorem isDigit_of_mem {n : ℕ} {b : UInt8} (h : b ∈ digits n) : isDigit b = true := by
  obtain ⟨c, hc, rfl⟩ := List.mem_map.mp h
  have hdigit := toNat_digit hc
  rw [isDigit_iff, hdigit.1]
  exact hdigit.2

theorem digits_ne_nil (n : ℕ) : digits n ≠ [] := by
  rw [digits, Ne, List.map_eq_nil_iff]
  exact Nat.toDigits_ne_nil

theorem foldl_digits (s : List Char) (h : ∀ c ∈ s, (UInt8.ofNat c.toNat).toNat = c.toNat) : ∀ n : ℕ,
    (s.map fun c => UInt8.ofNat c.toNat).foldl (fun n b => 10 * n + (b.toNat - 48)) n =
      Nat.ofDigitChars 10 s n := by
  induction s with
  | nil => exact fun n => rfl
  | cons c s ih =>
    intro n
    rw [List.map_cons, List.foldl_cons, ih fun d hd => h d (List.mem_cons_of_mem _ hd),
      Nat.ofDigitChars_cons, h c List.mem_cons_self]
    rfl

theorem readDigits_digits (n : ℕ) : readDigits (digits n) = n := by
  rw [readDigits, digits, foldl_digits _ fun c hc => (toNat_digit hc).1]
  exact Nat.ofDigitChars_toDigits (by decide) (by decide)

theorem foldl_read (s : Bytes) : ∀ n : ℕ,
    s.foldl (fun n b => 10 * n + (b.toNat - 48)) n = n * 10 ^ s.length + readDigits s := by
  induction s with
  | nil =>
    intro n
    rw [List.length_nil, Nat.pow_zero, Nat.mul_one]
    rfl
  | cons b s ih =>
    intro n
    have hzero := ih (10 * 0 + (b.toNat - 48))
    rw [readDigits, List.foldl_cons, List.foldl_cons, hzero, ih, List.length_cons, Nat.pow_succ]
    ring

theorem readDigits_append (s t : Bytes) :
    readDigits (s ++ t) = readDigits s * 10 ^ t.length + readDigits t := by
  rw [readDigits, List.foldl_append, foldl_read]
  rfl

theorem readDigits_zeros (n : ℕ) (s : Bytes) :
    readDigits (List.replicate n 48 ++ s) = readDigits s := by
  induction n with
  | zero => rfl
  | succ n ih =>
    rw [List.replicate_succ, List.cons_append]
    exact ih

theorem digits_length_le {n k : ℕ} (hk : 0 < k) (h : n < 10 ^ k) : (digits n).length ≤ k := by
  rw [digits, List.length_map]
  exact (Nat.length_toDigits_le_iff (by decide) hk).mpr h

theorem head_append {s t : Bytes} (h : s ≠ []) : (s ++ t).head? = s.head? := by
  cases s with
  | nil => contradiction
  | cons b s => rfl

/-- Only zero begins with a zero, and it has no other digit. -/
theorem digits_head (n : ℕ) : (digits n).head? = some 48 → (digits n).length = 1 := by
  induction n using Nat.strong_induction_on with
  | _ n ih =>
    intro hhead
    by_cases hsmall : n < 10
    · rw [digits, Nat.toDigits_of_lt_base hsmall]
      rfl
    · have hsplit : digits n = digits (n / 10) ++ digits (n % 10) := by
        rw [digits, Nat.toDigits_of_base_le (by decide) (by omega), List.map_append, digits, digits,
          Nat.toDigits_of_lt_base (Nat.mod_lt n (by decide))]
      have hpos : digits (n / 10) ≠ [] := digits_ne_nil _
      have hfirst : (digits (n / 10)).head? = some 48 := by
        rw [hsplit, head_append hpos] at hhead
        exact hhead
      have hone := ih (n / 10) (by omega) hfirst
      obtain ⟨b, hb⟩ := List.length_eq_one_iff.mp hone
      rw [hb, List.head?_cons, Option.some.injEq] at hfirst
      have hvalue := readDigits_digits (n / 10)
      rw [hb, hfirst] at hvalue
      have hzero : n / 10 = 0 := hvalue.symm
      omega

/-! ## Numbers printed and read -/

theorem takeWhile_digits {s : Bytes} (rest : Bytes) (hs : ∀ b ∈ s, isDigit b = true)
    (hrest : rest.head?.any isDigit = false) :
    (s ++ rest).takeWhile isDigit = s ∧ (s ++ rest).dropWhile isDigit = rest := by
  rw [List.takeWhile_append_of_pos hs, List.dropWhile_append_of_pos hs]
  cases rest with
  | nil => exact ⟨List.append_nil s, rfl⟩
  | cons b rest =>
    rw [List.head?_cons, Option.any_some] at hrest
    rw [List.takeWhile_cons_of_neg (by rw [hrest]; exact Bool.false_ne_true),
      List.dropWhile_cons_of_neg (by rw [hrest]; exact Bool.false_ne_true), List.append_nil]
    exact ⟨rfl, rfl⟩

theorem scanPoint_whole {s : Bytes} (hs : ∀ b ∈ s, isDigit b = true) :
    scanPoint isDigit s = (s, [], []) := by
  have hscan := takeWhile_digits [] hs rfl
  rw [List.append_nil] at hscan
  rw [scanPoint, hscan.1, hscan.2]

theorem scanPoint_point {s t : Bytes} (hs : ∀ b ∈ s, isDigit b = true) (ht : ∀ b ∈ t, isDigit b = true) :
    scanPoint isDigit (s ++ 46 :: t) = (s, t, []) := by
  have hwhole := takeWhile_digits (46 :: t) hs rfl
  have hpart := takeWhile_digits [] ht rfl
  rw [List.append_nil] at hpart
  rw [scanPoint, hwhole.1, hwhole.2]
  change (s, t.takeWhile isDigit, t.dropWhile isDigit) = _
  rw [hpart.1, hpart.2]

theorem head_digits (n : ℕ) (rest : Bytes) : (digits n ++ rest).head? ≠ some 45 := by
  rw [head_append (digits_ne_nil n)]
  intro hhead
  have hdigit := isDigit_of_mem (List.mem_of_mem_head? hhead)
  exact absurd hdigit (by decide)

/-- A sign before digits is read as one. -/
theorem jsonNumber_signed (negative : Bool) (n : ℕ) (rest : Bytes) :
    jsonNumber ((if negative then [45] else []) ++ (digits n ++ rest)) =
      let (whole, part, more) := scanPoint isDigit (digits n ++ rest)
      let pointed := ((digits n ++ rest).dropWhile isDigit).head? = some 46
      if whole = [] || (whole.head? = some 48 && 1 < whole.length) || (pointed && part = []) then none
      else (jsonExponent more).map fun exponent =>
        let q := scaled (readDigits (whole ++ part)) 10 (exponent - part.length)
        mkRat (signed negative q.num) q.den := by
  rw [jsonNumber]
  cases negative with
  | true => rfl
  | false =>
    have hhead := head_digits n rest
    simp only [Bool.false_eq_true, if_false, List.nil_append, hhead, decide_false]

theorem jsonNumber_decimal (z : ℤ) : jsonNumber (decimal z) = some (mkRat z 1) := by
  have hform : decimal z = (if decide (z < 0) then [45] else []) ++ (digits z.natAbs ++ []) := by
    rw [decimal, List.append_nil]
    by_cases hneg : z < 0
    · rw [if_pos hneg, if_pos (decide_eq_true hneg)]
      rfl
    · rw [if_neg hneg, if_neg (by rw [decide_eq_true_eq]; exact hneg), List.nil_append]
  have hvalue : signed (decide (z < 0)) z.natAbs = z := by
    rw [signed]
    by_cases hneg : z < 0
    · rw [if_pos (decide_eq_true hneg)]
      omega
    · rw [if_neg (by rw [decide_eq_true_eq]; exact hneg)]
      omega
  have hscan := scanPoint_whole fun b hb => isDigit_of_mem (n := z.natAbs) hb
  have hrest := (takeWhile_digits [] (fun b hb => isDigit_of_mem (n := z.natAbs) hb) rfl).2
  have hlength := digits_head z.natAbs
  rw [hform, jsonNumber_signed, hrest, List.append_nil, hscan]
  dsimp only
  rw [if_neg]
  · rw [List.append_nil, readDigits_digits]
    simp only [jsonExponent, Option.map_some, scaled, List.length_nil]
    rw [show ((0 : ℤ) - ((0 : ℕ) : ℤ)) = 0 from rfl]
    simp only [Int.toNat_zero, Int.neg_zero, Nat.pow_zero, Nat.mul_one, hvalue]
  · simp only [digits_ne_nil, decide_false, Bool.false_or, List.head?_nil, Bool.or_eq_true,
      Bool.and_eq_true, decide_eq_true_eq, not_or, not_and]
    refine ⟨fun hzero => ?_, fun hpoint => nomatch hpoint⟩
    have hone := hlength hzero
    omega

/-- What `%f` prints is a number of JSON, the millionths over a million. -/
theorem jsonNumber_fixed (negative : Bool) (significand : ℕ) (exponent : ℤ) :
    jsonNumber (fixed (.finite negative significand exponent)) =
      some (mkRat (signed negative (millionths significand exponent)) (10 ^ 6)) := by
  rw [fixed]
  generalize millionths significand exponent = n
  have hpad : (digits (n % 10 ^ 6)).length ≤ 6 :=
    digits_length_le (by decide) (Nat.mod_lt n (by decide))
  have hpart : ∀ b ∈ List.replicate (6 - (digits (n % 10 ^ 6)).length) 48 ++ digits (n % 10 ^ 6),
      isDigit b = true := by
    intro b hb
    cases List.mem_append.mp hb with
    | inl hzero =>
      rw [(List.mem_replicate.mp hzero).2]
      rfl
    | inr hdigit => exact isDigit_of_mem hdigit
  have hsix : (List.replicate (6 - (digits (n % 10 ^ 6)).length) 48 ++ digits (n % 10 ^ 6)).length = 6 := by
    rw [List.length_append, List.length_replicate]
    omega
  have hread : readDigits (digits (n / 10 ^ 6) ++
      (List.replicate (6 - (digits (n % 10 ^ 6)).length) 48 ++ digits (n % 10 ^ 6))) = n := by
    rw [readDigits_append, hsix, readDigits_zeros, readDigits_digits, readDigits_digits]
    exact Nat.div_add_mod' n (10 ^ 6)
  generalize List.replicate (6 - (digits (n % 10 ^ 6)).length) 48 ++ digits (n % 10 ^ 6) = part
    at hpart hsix hread
  have hwhole : ∀ b ∈ digits (n / 10 ^ 6), isDigit b = true := fun b => isDigit_of_mem
  have hrest := (takeWhile_digits (46 :: part) hwhole rfl).2
  have hlength := digits_head (n / 10 ^ 6)
  have hne : part ≠ [] := by
    intro hnil
    rw [hnil, List.length_nil] at hsix
    exact absurd hsix (by decide)
  rw [jsonNumber_signed, hrest, scanPoint_point hwhole hpart]
  dsimp only
  rw [if_neg]
  · rw [hread, hsix]
    simp only [jsonExponent, Option.map_some, scaled]
    rw [show ((0 : ℤ) - ((6 : ℕ) : ℤ)) = -6 from rfl]
    have hnum : (-6 : ℤ).toNat = 0 := rfl
    have hden : (- -6 : ℤ).toNat = 6 := rfl
    rw [hnum, hden, Nat.pow_zero, Nat.mul_one]
  · simp only [digits_ne_nil, hne, decide_false, Bool.false_or, Bool.and_false, Bool.or_false,
      Bool.and_eq_true, decide_eq_true_eq, not_and]
    intro hzero
    have hone := hlength hzero
    omega

end Tim2Tox.NumberTexts
