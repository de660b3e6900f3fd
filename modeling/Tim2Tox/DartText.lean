import Mathlib.Algebra.Ring.Int.Defs
import Mathlib.Data.List.DropRight
import Tim2Tox.Utf16

set_option autoImplicit false

/-!
# Dart strings

Strings as lists of UTF-16 code units, with the operations of the core library that take them
apart. An `int` has no bounds here.
-/
namespace Tim2Tox.DartText

abbrev Units := List ℕ

def ofString (s : String) : Units := Utf16.encode s.toList

/-- The characters `trim` takes away. -/
def isWhitespace (u : ℕ) : Bool :=
  (9 ≤ u && u ≤ 13) || (0x2000 ≤ u && u ≤ 0x200A) ||
    u ∈ [0x20, 0x85, 0xA0, 0x1680, 0x2028, 0x2029, 0x202F, 0x205F, 0x3000, 0xFEFF]

def trim (s : Units) : Units := (s.dropWhile isWhitespace).rdropWhile isWhitespace

theorem trim_eq_self {s : Units} (h : ∀ u ∈ s, isWhitespace u = false) : trim s = s := by
  have hdrop : s.dropWhile isWhitespace = s := by
    rw [List.dropWhile_eq_self_iff]
    intro hpos
    rw [h _ (List.getElem_mem hpos)]
    exact Bool.false_ne_true
  rw [trim, hdrop, List.rdropWhile_eq_self_iff]
  intro hne
  rw [h _ (List.getLast_mem hne)]
  exact Bool.false_ne_true

/-! ## Numbers -/

def digits (n : ℕ) : Units := (Nat.toDigits 10 n).map Char.toNat

/-- How an `int` is interpolated. -/
def decimal (n : ℤ) : Units := if n < 0 then 45 :: digits n.natAbs else digits n.natAbs

def isDigit (u : ℕ) : Bool := 48 ≤ u && u ≤ 57

def hexValue (u : ℕ) : Option ℕ :=
  if isDigit u then some (u - 48)
  else if 65 ≤ u ∧ u ≤ 70 then some (u - 55)
  else if 97 ≤ u ∧ u ≤ 102 then some (u - 87)
  else none

/-- Digits without a sign, decimal ones or hexadecimal ones behind their mark. -/
def magnitude : Units → Option ℕ
  | 48 :: x :: rest =>
    if x = 120 ∨ x = 88 then
      if rest = [] then none else rest.foldlM (fun n u => (hexValue u).map (16 * n + ·)) 0
    else decimals (48 :: x :: rest)
  | s => decimals s
where
  decimals (s : Units) : Option ℕ :=
    if s ≠ [] ∧ s.all isDigit then some (s.foldl (fun n u => 10 * n + (u - 48)) 0) else none

/-- `int.tryParse` -/
def tryParse (s : Units) : Option ℤ :=
  match trim s with
  | 45 :: rest => (magnitude rest).map Int.negOfNat
  | 43 :: rest => (magnitude rest).map Int.ofNat
  | rest => (magnitude rest).map Int.ofNat

theorem digits_ne_nil (n : ℕ) : digits n ≠ [] := by
  rw [digits, Ne, List.map_eq_nil_iff]
  exact Nat.toDigits_ne_nil

theorem isDigit_of_mem {n u : ℕ} (h : u ∈ digits n) : isDigit u = true := by
  obtain ⟨c, hc, rfl⟩ := List.mem_map.mp h
  have hdigit := Nat.isDigit_of_mem_toDigits (by decide) (by decide) hc
  rw [Char.isDigit, Bool.and_eq_true, decide_eq_true_eq, decide_eq_true_eq] at hdigit
  rw [isDigit, Bool.and_eq_true, decide_eq_true_eq, decide_eq_true_eq]
  exact ⟨UInt32.le_iff_toNat_le.mp hdigit.1, UInt32.le_iff_toNat_le.mp hdigit.2⟩

theorem decimals_digits (n : ℕ) : magnitude.decimals (digits n) = some n := by
  rw [magnitude.decimals, if_pos ⟨digits_ne_nil n, List.all_eq_true.mpr fun _ => isDigit_of_mem⟩]
  have hvalue := @Nat.ofDigitChars_toDigits 10 n (by decide) (by decide)
  rw [Nat.ofDigitChars] at hvalue
  rw [digits, List.foldl_map]
  exact congrArg some hvalue

theorem magnitude_digits (n : ℕ) : magnitude (digits n) = some n := by
  have hdecimals := decimals_digits n
  have hdigit : ∀ u ∈ digits n, isDigit u = true := fun _ => isDigit_of_mem
  generalize digits n = s at hdecimals hdigit
  rw [← hdecimals]
  rw [magnitude.eq_def]
  split
  · rename_i x rest
    have hx := hdigit x (List.mem_cons_of_mem _ List.mem_cons_self)
    have hmark : ¬(x = 120 ∨ x = 88) := by
      rintro (rfl | rfl)
      · exact absurd hx (by decide)
      · exact absurd hx (by decide)
    rw [if_neg hmark]
  · rfl

theorem not_whitespace_of_digit {u : ℕ} (h : isDigit u = true) : isWhitespace u = false := by
  rw [isDigit, Bool.and_eq_true, decide_eq_true_eq, decide_eq_true_eq] at h
  have hrange : u = 48 ∨ u = 49 ∨ u = 50 ∨ u = 51 ∨ u = 52 ∨ u = 53 ∨ u = 54 ∨ u = 55 ∨ u = 56 ∨
      u = 57 := by omega
  rcases hrange with rfl | rfl | rfl | rfl | rfl | rfl | rfl | rfl | rfl | rfl <;> decide

theorem trim_decimal (n : ℤ) : trim (decimal n) = decimal n := by
  apply trim_eq_self
  intro u hu
  rw [decimal] at hu
  split_ifs at hu
  · rcases List.mem_cons.mp hu with rfl | hu
    · decide
    · exact not_whitespace_of_digit (isDigit_of_mem hu)
  · exact not_whitespace_of_digit (isDigit_of_mem hu)

/-- An `int` is read back from its text. -/
theorem tryParse_decimal (n : ℤ) : tryParse (decimal n) = some n := by
  rw [tryParse, trim_decimal, decimal]
  by_cases hneg : n < 0
  · rw [if_pos hneg]
    change (magnitude (digits n.natAbs)).map Int.negOfNat = some n
    rw [magnitude_digits]
    exact congrArg some (by rw [Int.negOfNat_eq]; change -(n.natAbs : ℤ) = n; omega)
  · rw [if_neg hneg]
    have hvalue : (magnitude (digits n.natAbs)).map Int.ofNat = some n := by
      rw [magnitude_digits]
      exact congrArg some (by change (n.natAbs : ℤ) = n; omega)
    have hdigit : ∀ u ∈ digits n.natAbs, isDigit u = true := fun _ => isDigit_of_mem
    generalize digits n.natAbs = s at hvalue hdigit
    split
    · exact absurd (hdigit 45 List.mem_cons_self) (by decide)
    · exact absurd (hdigit 43 List.mem_cons_self) (by decide)
    · exact hvalue

/-- The text of an `int` has no underscore. -/
theorem decimal_no_separator (n : ℤ) : 95 ∉ decimal n := by
  have hdigits : 95 ∉ digits n.natAbs := by
    intro h
    exact absurd (isDigit_of_mem h) (by decide)
  rw [decimal]
  split_ifs
  · intro h
    rcases List.mem_cons.mp h with h | h
    · cases h
    · exact hdigits h
  · exact hdigits

end Tim2Tox.DartText
