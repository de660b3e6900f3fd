import Mathlib.Data.List.Basic
import Mathlib.Tactic.Common
import Mathlib.Tactic.Ring

set_option autoImplicit false

/-!
# Base64

The encoding of RFC 4648 with padding: three bytes make four characters, and what is missing in
the last group is padded.
-/
namespace Tim2Tox.Base64

def alphabet : List UInt8 :=
  "ABCDEFGHIJKLMNOPQRSTUVWXYZabcdefghijklmnopqrstuvwxyz0123456789+/".toList.map fun c =>
    UInt8.ofNat c.toNat

/-- The character `=`. -/
def pad : UInt8 := 61

def digit (value : ℕ) : UInt8 := alphabet.getD value 0

/-- Padding counts as zero bits. -/
def value (c : UInt8) : ℕ := if c = pad then 0 else alphabet.idxOf c

def encode : List UInt8 → List UInt8
  | [] => []
  | [a] =>
    let bits := a.toNat * 65536
    [digit (bits / 262144), digit (bits / 4096 % 64), pad, pad]
  | [a, b] =>
    let bits := a.toNat * 65536 + b.toNat * 256
    [digit (bits / 262144), digit (bits / 4096 % 64), digit (bits / 64 % 64), pad]
  | a :: b :: c :: rest =>
    let bits := a.toNat * 65536 + b.toNat * 256 + c.toNat
    digit (bits / 262144) :: digit (bits / 4096 % 64) :: digit (bits / 64 % 64) :: digit (bits % 64) ::
      encode rest

/-- The bytes of a group of four characters; what is padded gives none. -/
def group (a b c d : UInt8) : List UInt8 :=
  let bits := value a * 262144 + value b * 4096 + value c * 64 + value d
  let bytes := [UInt8.ofNat (bits / 65536), UInt8.ofNat (bits / 256 % 256), UInt8.ofNat (bits % 256)]
  if c = pad then bytes.take 1 else if d = pad then bytes.take 2 else bytes

def decode : List UInt8 → List UInt8
  | a :: b :: c :: d :: rest => group a b c d ++ decode rest
  | _ => []

/-! ## Digits -/

theorem value_digit {v : ℕ} (h : v < 64) : value (digit v) = v := by
  have hall : (List.range 64).all (fun v => value (digit v) == v) = true := by decide
  exact beq_iff_eq.mp (List.all_eq_true.mp hall v (List.mem_range.mpr h))

theorem digit_ne_pad {v : ℕ} (h : v < 64) : digit v ≠ pad := by
  have hall : (List.range 64).all (fun v => digit v != pad) = true := by decide
  exact bne_iff_ne.mp (List.all_eq_true.mp hall v (List.mem_range.mpr h))

theorem value_pad : value pad = 0 := if_pos rfl

/-! ## Reading what was written -/

theorem ofNat_eq {n : ℕ} {b : UInt8} (h : n = b.toNat) : UInt8.ofNat n = b := by
  rw [h, UInt8.ofNat_toNat]

theorem four_digits (bits : ℕ) :
    bits / 262144 * 262144 + bits / 4096 % 64 * 4096 + bits / 64 % 64 * 64 + bits % 64 = bits := by
  have hlow : bits / 64 * 64 + bits % 64 = bits := Nat.div_add_mod' bits 64
  have hmiddle : bits / 4096 * 64 + bits / 64 % 64 = bits / 64 := by omega
  have hhigh : bits / 262144 * 64 + bits / 4096 % 64 = bits / 4096 := by omega
  calc bits / 262144 * 262144 + bits / 4096 % 64 * 4096 + bits / 64 % 64 * 64 + bits % 64
      = (bits / 262144 * 64 + bits / 4096 % 64) * 4096 + bits / 64 % 64 * 64 + bits % 64 := by ring
    _ = (bits / 4096 * 64 + bits / 64 % 64) * 64 + bits % 64 := by rw [hhigh]; ring
    _ = bits := by rw [hmiddle, hlow]

theorem decode_nil : decode [] = [] := rfl

theorem decode_encode : ∀ bytes : List UInt8, decode (encode bytes) = bytes
  | [] => rfl
  | [a] => by
    have ha := a.toNat_lt
    rw [encode]
    generalize hbits : a.toNat * 65536 = bits
    have hfirst : bits / 262144 < 64 := by omega
    have hsecond : bits / 4096 % 64 < 64 := by omega
    rw [decode, decode_nil, group, if_pos rfl, value_digit hfirst, value_digit hsecond, value_pad]
    have hbyte : (bits / 262144 * 262144 + bits / 4096 % 64 * 4096 + 0 * 64 + 0) / 65536 = a.toNat := by
      omega
    rw [ofNat_eq hbyte]
    rfl
  | [a, b] => by
    have ha := a.toNat_lt
    have hb := b.toNat_lt
    rw [encode]
    generalize hbits : a.toNat * 65536 + b.toNat * 256 = bits
    have hfirst : bits / 262144 < 64 := by omega
    have hsecond : bits / 4096 % 64 < 64 := by omega
    have hthird : bits / 64 % 64 < 64 := by omega
    rw [decode, decode_nil, group, if_neg (digit_ne_pad hthird), if_pos rfl, value_digit hfirst,
      value_digit hsecond, value_digit hthird, value_pad]
    have hbyte : (bits / 262144 * 262144 + bits / 4096 % 64 * 4096 + bits / 64 % 64 * 64 + 0) / 65536 =
        a.toNat := by omega
    have hnext : (bits / 262144 * 262144 + bits / 4096 % 64 * 4096 + bits / 64 % 64 * 64 + 0) / 256 % 256 =
        b.toNat := by omega
    rw [ofNat_eq hbyte, ofNat_eq hnext]
    rfl
  | a :: b :: c :: rest => by
    have ha := a.toNat_lt
    have hb := b.toNat_lt
    have hc := c.toNat_lt
    rw [encode]
    generalize hbits : a.toNat * 65536 + b.toNat * 256 + c.toNat = bits
    have hfirst : bits / 262144 < 64 := by omega
    have hsecond : bits / 4096 % 64 < 64 := by omega
    have hthird : bits / 64 % 64 < 64 := by omega
    have hfourth : bits % 64 < 64 := by omega
    rw [decode, group, if_neg (digit_ne_pad hthird), if_neg (digit_ne_pad hfourth), value_digit hfirst,
      value_digit hsecond, value_digit hthird, value_digit hfourth, decode_encode rest]
    have hbyte : bits / 65536 = a.toNat := by omega
    have hnext : bits / 256 % 256 = b.toNat := by omega
    have hlast : bits % 256 = c.toNat := by omega
    rw [four_digits, ofNat_eq hbyte, ofNat_eq hnext, ofNat_eq hlast]
    rfl

theorem encode_injective {bytes bytes' : List UInt8} (h : encode bytes = encode bytes') :
    bytes = bytes' := by
  rw [← decode_encode bytes, h, decode_encode]

theorem digit_mem {v : ℕ} (h : v < 64) : digit v ∈ alphabet := by
  have hlength : v < alphabet.length := by
    have hsize : alphabet.length = 64 := by decide
    rw [hsize]
    exact h
  rw [digit, List.getD_eq_getElem?_getD, List.getElem?_eq_getElem hlength]
  exact List.getElem_mem hlength

/-- Only characters of the alphabet and padding are written. -/
theorem mem_encode : ∀ (bytes : List UInt8), ∀ c ∈ encode bytes, c ∈ alphabet ∨ c = pad
  | [], _, h => by cases h
  | [a], c, h => by
    have ha := a.toNat_lt
    simp only [encode, List.mem_cons, List.not_mem_nil, or_false] at h
    rcases h with rfl | rfl | rfl | rfl
    · exact .inl (digit_mem (by omega))
    · exact .inl (digit_mem (by omega))
    · exact .inr rfl
    · exact .inr rfl
  | [a, b], c, h => by
    have ha := a.toNat_lt
    have hb := b.toNat_lt
    simp only [encode, List.mem_cons, List.not_mem_nil, or_false] at h
    rcases h with rfl | rfl | rfl | rfl
    · exact .inl (digit_mem (by omega))
    · exact .inl (digit_mem (by omega))
    · exact .inl (digit_mem (by omega))
    · exact .inr rfl
  | a :: b :: c :: rest, found, h => by
    have ha := a.toNat_lt
    have hb := b.toNat_lt
    have hc := c.toNat_lt
    simp only [encode, List.mem_cons] at h
    rcases h with rfl | rfl | rfl | rfl | hrest
    · exact .inl (digit_mem (by omega))
    · exact .inl (digit_mem (by omega))
    · exact .inl (digit_mem (by omega))
    · exact .inl (digit_mem (by omega))
    · exact mem_encode rest found hrest

end Tim2Tox.Base64
