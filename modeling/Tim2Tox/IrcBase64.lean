import Mathlib.Data.Nat.Bitwise
import Tim2Tox.IrcSasl

set_option autoImplicit false

/-!
# Base64 of the IRC client

`base64Encode` of `IrcClientManager` on the `int` of the source: the shift to the left drops bits at
the top and the shift to the right copies the sign, but only the lowest six bits are looked at.
-/
namespace Tim2Tox.IrcBase64
open IrcClient IrcSasl Base64

/-! ## Six bits of an `int` -/

/-- Where six bits lie below the sign, an arithmetic shift reads them as division does. -/
theorem low_bits {v : BitVec 32} {n : ℕ} (h : n + 6 ≤ 32) :
    (v.sshiftRight n &&& 0x3F).toNat = v.toNat / 2 ^ n % 64 := by
  have hmask : (v.sshiftRight n &&& 0x3F).toNat = (v.sshiftRight n).toNat % 2 ^ 6 := by
    rw [BitVec.toNat_and, ← Nat.and_two_pow_sub_one_eq_mod]
    rfl
  rw [hmask]
  change _ = v.toNat / 2 ^ n % 2 ^ 6
  apply Nat.eq_of_testBit_eq
  intro i
  rw [Nat.testBit_mod_two_pow, Nat.testBit_mod_two_pow, Nat.testBit_div_two_pow]
  by_cases hi : i < 6
  · have hbit : (v.sshiftRight n).toNat.testBit i = v.toNat.testBit (i + n) := by
      rw [BitVec.testBit_toNat, BitVec.testBit_toNat, BitVec.getLsbD_sshiftRight, if_pos (by omega),
        Nat.add_comm n i, decide_eq_false (by omega), Bool.not_false, Bool.true_and]
    rw [hbit]
  · rw [decide_eq_false hi, Bool.false_and, Bool.false_and]

theorem shiftLeft_byte (v : BitVec 32) : (v <<< 8).toNat = v.toNat * 256 % 2 ^ 32 := by
  rw [BitVec.toNat_shiftLeft, Nat.shiftLeft_eq]

/-! ## The loops -/

/-- The locals of `base64Encode`. -/
structure IntEncoder where
  val : BitVec 32
  valb : ℤ
  encoded : Bytes

namespace IntEncoder

def drain (e : IntEncoder) : IntEncoder :=
  if 0 ≤ e.valb then
    drain { e with
      valb := e.valb - 6
      encoded := e.encoded ++
        [Session.base64Char (e.val.sshiftRight e.valb.toNat &&& 0x3F).toNat] }
  else e
  termination_by (e.valb + 6).toNat

def push (e : IntEncoder) (c : UInt8) : IntEncoder :=
  drain { e with val := (e.val <<< 8) + c.toBitVec.setWidth 32, valb := e.valb + 8 }

def flush (e : IntEncoder) : Bytes :=
  if -6 < e.valb then
    e.encoded ++
      [Session.base64Char ((e.val <<< 8).sshiftRight (e.valb + 8).toNat &&& 0x3F).toNat]
  else e.encoded

end IntEncoder

/-- The loop that fills up the last group. -/
def padLoop (encoded : Bytes) : Bytes :=
  if encoded.length % 4 ≠ 0 then padLoop (encoded ++ [61]) else encoded
  termination_by (4 - encoded.length % 4) % 4
  decreasing_by
    rw [List.length_append, List.length_singleton]
    omega

def base64Encode (data : Bytes) : Bytes :=
  padLoop (data.foldl IntEncoder.push ⟨0, -6, []⟩).flush

/-! ## The same on residues -/

/-- The encoder whose accumulator is the residue of the `int`. -/
def IntEncoder.residue (e : IntEncoder) : Encoder := ⟨e.val.toNat, e.valb, e.encoded⟩

theorem drain_residue (e : IntEncoder) (h : e.valb ≤ 26) : e.drain.residue = e.residue.drain := by
  induction e using IntEncoder.drain.induct with
  | case1 e hvalb ih =>
    rw [IntEncoder.drain, if_pos hvalb, ih (by dsimp only; omega), low_bits (by omega)]
    conv_rhs => rw [Encoder.drain, if_pos (show 0 ≤ e.residue.valb from hvalb)]
    rfl
  | case2 e hvalb =>
    rw [IntEncoder.drain, if_neg hvalb, Encoder.drain]
    exact (if_neg (show ¬ 0 ≤ e.residue.valb from hvalb)).symm

theorem drain_valb (e : IntEncoder) : e.drain.valb < 0 := by
  induction e using IntEncoder.drain.induct with
  | case1 e hvalb ih =>
    rw [IntEncoder.drain, if_pos hvalb]
    exact ih
  | case2 e hvalb =>
    rw [IntEncoder.drain, if_neg hvalb]
    omega

theorem push_residue {e : IntEncoder} (h : e.valb < 0) (c : UInt8) :
    (e.push c).residue = e.residue.push c := by
  have hval : ((e.val <<< 8) + c.toBitVec.setWidth 32).toNat =
      (e.val.toNat * 256 + c.toNat) % 2 ^ 32 := by
    rw [BitVec.toNat_add, shiftLeft_byte, BitVec.toNat_setWidth, UInt8.toNat_toBitVec]
    omega
  rw [IntEncoder.push, drain_residue _ (by dsimp only; omega), Encoder.push]
  unfold IntEncoder.residue
  rw [hval]

theorem flush_residue {e : IntEncoder} (h : e.valb < 0) : e.flush = e.residue.flush := by
  unfold IntEncoder.flush Encoder.flush
  change (if -6 < e.valb then _ else _) = if -6 < e.valb then _ else _
  split_ifs with hrest
  · rw [low_bits (by omega), shiftLeft_byte]
    rfl
  · rfl

/-- Between two bytes fewer than six bits wait, so the shifts stay below the sign. -/
theorem foldl_residue (data : Bytes) : ∀ e : IntEncoder, e.valb < 0 →
    (data.foldl IntEncoder.push e).valb < 0 ∧
      (data.foldl IntEncoder.push e).residue = data.foldl Encoder.push e.residue := by
  induction data with
  | nil => exact fun e h => ⟨h, rfl⟩
  | cons c data ih =>
    intro e h
    rw [List.foldl_cons, List.foldl_cons, ← push_residue h]
    exact ih (e.push c) (drain_valb _)

theorem padLoop_eq (encoded : Bytes) : padLoop encoded = padded encoded := by
  induction encoded using padLoop.induct with
  | case1 encoded h ih =>
    rw [padLoop, if_pos h, ih, padded, padded, List.length_append, List.length_singleton,
      List.append_assoc, List.singleton_append, ← List.replicate_succ]
    have hcount : (4 - (encoded.length + 1) % 4) % 4 + 1 = (4 - encoded.length % 4) % 4 := by omega
    rw [hcount]
  | case2 encoded h =>
    have hwhole : encoded.length % 4 = 0 := by omega
    rw [padLoop, if_neg h, padded, hwhole]
    exact (List.append_nil encoded).symm

/-- `base64Encode` writes the standard encoding, which is read back. -/
theorem base64Encode_standard (data : Bytes) :
    base64Encode data = encode data ∧ decode (base64Encode data) = data := by
  have hresidue := foldl_residue data ⟨0, -6, []⟩ (show (-6 : ℤ) < 0 by decide)
  have hencode : base64Encode data = encode data := by
    rw [base64Encode, padLoop_eq, flush_residue hresidue.1, hresidue.2]
    exact base64Encode_eq data
  rw [hencode]
  exact ⟨rfl, decode_encode data⟩

end Tim2Tox.IrcBase64
