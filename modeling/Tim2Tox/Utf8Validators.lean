import Tim2Tox.MessageFragmenter
import Tim2Tox.ReceiptText

set_option autoImplicit false

/-!
# The two checks of UTF-8

The check of the fragmenter with its reads checked against the end of the text, and that it is the
check of the receipt gate.
-/
namespace Tim2Tox.Utf8Validators
open GroupReceipts (Outcome read bind_accept)
open QToxMessageFragmenter (Text byteAt isContinuation isValidFrom)

/-! ## The check that reads -/

/-- The loop of `HasContinuationBytes`. -/
def continuationLoop (text : Text) : ℕ → ℕ → Outcome Bool
  | 0, _ => .accept true
  | count + 1, i => do
    let value ← read text i
    if isContinuation value then continuationLoop text count (i + 1) else .accept false

def hasContinuationBytes (text : Text) (offset count : ℕ) : Outcome Bool :=
  if offset + count > text.length then .accept false else continuationLoop text count offset

/-- The loop of the fragmenter's `IsValidUtf8`; `reject` is its `return false`. -/
def validFrom (text : Text) : ℕ → ℕ → Outcome Unit
  | 0, _ => .stuck
  | turns + 1, i =>
    if i < text.length then do
      let lead ← read text i
      if lead ≤ 0x7F then validFrom text turns (i + 1)
      else if 0xC2 ≤ lead ∧ lead ≤ 0xDF then do
        let continued ← hasContinuationBytes text (i + 1) 1
        if !continued then .reject else validFrom text turns (i + 2)
      else if 0xE0 ≤ lead ∧ lead ≤ 0xEF then do
        let continued ← hasContinuationBytes text (i + 1) 2
        if !continued then .reject
        else do
          let second ← read text (i + 1)
          if (lead = 0xE0 ∧ second < 0xA0) ∨ (lead = 0xED ∧ second > 0x9F) then .reject
          else validFrom text turns (i + 3)
      else if 0xF0 ≤ lead ∧ lead ≤ 0xF4 then do
        let continued ← hasContinuationBytes text (i + 1) 3
        if !continued then .reject
        else do
          let second ← read text (i + 1)
          if (lead = 0xF0 ∧ second < 0x90) ∨ (lead = 0xF4 ∧ second > 0x8F) then .reject
          else validFrom text turns (i + 4)
      else .reject
    else .accept ()

def isValidUtf8 (text : Text) : Outcome Unit := validFrom text (text.length + 1) 0

/-! ## No read leaves the text -/

theorem read_eq {text : Text} {i : ℕ} (h : i < text.length) :
    read text i = .accept (byteAt text i) := by
  rw [GroupReceipts.read, List.getElem?_eq_getElem h, byteAt, List.getD_eq_getElem _ _ h]

theorem continuationLoop_eq {text : Text} (count : ℕ) : ∀ i, i + count ≤ text.length →
    continuationLoop text count i =
      .accept ((List.range count).all fun k => isContinuation (byteAt text (i + k))) := by
  induction count with
  | zero => exact fun i _ => rfl
  | succ count ih =>
    intro i h
    rw [continuationLoop, read_eq (by omega), bind_accept, List.range_succ_eq_map, List.all_cons,
      List.all_map, Nat.add_zero]
    have hshift : (fun k => isContinuation (byteAt text (i + k))) ∘ Nat.succ =
        fun k => isContinuation (byteAt text (i + 1 + k)) := by
      funext k
      change isContinuation (byteAt text (i + (k + 1))) = _
      rw [Nat.add_comm k 1, Nat.add_assoc]
    rw [hshift]
    cases hvalue : isContinuation (byteAt text i) with
    | false => rw [if_neg Bool.false_ne_true, Bool.false_and]
    | true => rw [if_pos rfl, ih (i + 1) (by omega), Bool.true_and]

theorem hasContinuationBytes_eq (text : Text) (offset count : ℕ) :
    hasContinuationBytes text offset count =
      .accept (QToxMessageFragmenter.hasContinuationBytes text offset count) := by
  unfold hasContinuationBytes QToxMessageFragmenter.hasContinuationBytes
  by_cases h : offset + count ≤ text.length
  · rw [if_neg (by omega), continuationLoop_eq count offset h, decide_eq_true h, Bool.true_and]
  · rw [if_pos (by omega), decide_eq_false h, Bool.false_and]

/-- A verdict as the loop returns it. -/
def verdict (valid : Bool) : Outcome Unit := if valid then .accept () else .reject

/-- A turn at a first byte of three or four, with what the second byte must not be. -/
theorem long_turn {text : Text} {i count : ℕ} {bad : UInt8 → Prop} [DecidablePred bad]
    {next : Outcome Unit} {shape valid : Bool} (hcount : 0 < count)
    (hshape : bad (byteAt text (i + 1)) ↔ shape = true)
    (hnext : i + 1 + count ≤ text.length → next = verdict valid) :
    (do
      let continued ← hasContinuationBytes text (i + 1) count
      if !continued then .reject
      else do
        let second ← read text (i + 1)
        if bad second then .reject else next) =
      verdict (QToxMessageFragmenter.hasContinuationBytes text (i + 1) count && !shape && valid) := by
  rw [hasContinuationBytes_eq, bind_accept]
  cases hcontinued : QToxMessageFragmenter.hasContinuationBytes text (i + 1) count with
  | false => rfl
  | true =>
    have hinside := ((QToxMessageFragmenter.hasContinuationBytes_iff _ _ _).mp hcontinued).1
    rw [Bool.not_true, if_neg Bool.false_ne_true, read_eq (by omega), bind_accept, hnext hinside,
      Bool.true_and]
    cases shape with
    | false => rw [if_neg (by rw [hshape]; exact Bool.false_ne_true), Bool.not_false, Bool.true_and]
    | true => exact if_pos (hshape.mpr rfl)

theorem short_turn {text : Text} {i : ℕ} {next : Outcome Unit} {valid : Bool}
    (hnext : i + 1 + 1 ≤ text.length → next = verdict valid) :
    (do
      let continued ← hasContinuationBytes text (i + 1) 1
      if !continued then .reject else next) =
      verdict (QToxMessageFragmenter.hasContinuationBytes text (i + 1) 1 && valid) := by
  rw [hasContinuationBytes_eq, bind_accept]
  cases hcontinued : QToxMessageFragmenter.hasContinuationBytes text (i + 1) 1 with
  | false => rfl
  | true =>
    have hinside := ((QToxMessageFragmenter.hasContinuationBytes_iff _ _ _).mp hcontinued).1
    rw [Bool.not_true, if_neg Bool.false_ne_true, hnext hinside, Bool.true_and]

theorem validFrom_eq {text : Text} (turns : ℕ) : ∀ i, i ≤ text.length → text.length < i + turns →
    validFrom text turns i = verdict (isValidFrom text turns i) := by
  induction turns with
  | zero => exact fun i hi hturns => absurd hturns (by omega)
  | succ turns ih =>
    intro i hi hturns
    unfold validFrom isValidFrom
    by_cases hin : i < text.length
    · rw [if_pos hin, if_pos hin, read_eq hin, bind_accept]
      dsimp only
      generalize byteAt text i = lead
      have hfrom : ∀ low : UInt8, low ≤ lead ↔ low.toNat ≤ lead.toNat :=
        fun low => UInt8.le_iff_toNat_le
      have hto : ∀ high : UInt8, lead ≤ high ↔ lead.toNat ≤ high.toNat :=
        fun high => UInt8.le_iff_toNat_le
      have hone : lead ≤ 0x7F ↔ lead.toNat ≤ 0x7F := hto 0x7F
      have htwo : 0xC2 ≤ lead ∧ lead ≤ 0xDF ↔ 0xC2 ≤ lead.toNat ∧ lead.toNat ≤ 0xDF :=
        and_congr (hfrom 0xC2) (hto 0xDF)
      have hthree : 0xE0 ≤ lead ∧ lead ≤ 0xEF ↔ 0xE0 ≤ lead.toNat ∧ lead.toNat ≤ 0xEF :=
        and_congr (hfrom 0xE0) (hto 0xEF)
      have hfour : 0xF0 ≤ lead ∧ lead ≤ 0xF4 ↔ 0xF0 ≤ lead.toNat ∧ lead.toNat ≤ 0xF4 :=
        and_congr (hfrom 0xF0) (hto 0xF4)
      have heq : ∀ b : UInt8, lead = b ↔ lead.toNat = b.toNat := fun b => UInt8.toNat_inj.symm
      simp only [hone, htwo, hthree, hfour]
      split_ifs
      · exact ih (i + 1) (by omega) (by omega)
      · exact short_turn fun hinside => ih (i + 2) hinside (by omega)
      · refine long_turn (by decide) ?_ fun hinside => ih (i + 3) hinside (by omega)
        rw [decide_eq_true_eq]
        exact or_congr (and_congr (heq 0xE0) UInt8.lt_iff_toNat_lt)
          (and_congr (heq 0xED) UInt8.lt_iff_toNat_lt)
      · refine long_turn (by decide) ?_ fun hinside => ih (i + 4) hinside (by omega)
        rw [decide_eq_true_eq]
        exact or_congr (and_congr (heq 0xF0) UInt8.lt_iff_toNat_lt)
          (and_congr (heq 0xF4) UInt8.lt_iff_toNat_lt)
      · rfl
    · rw [if_neg hin, if_neg hin]
      rfl

theorem isValidUtf8_eq (text : Text) :
    isValidUtf8 text = verdict (QToxMessageFragmenter.isValidUtf8 text) :=
  validFrom_eq _ 0 (Nat.zero_le _) (by omega)

/-- Both checks say the same, take the well-formed byte strings only and read no byte behind them. -/
theorem validators_agree (text : List UInt8) :
    isValidUtf8 text = GroupReceipts.isValidUtf8 text ∧
      (isValidUtf8 text = .accept () ↔ Utf8.WellFormed text) ∧
      (isValidUtf8 text = .accept () ∨ isValidUtf8 text = .reject) := by
  have hiff := QToxMessageFragmenter.isValidUtf8_iff text
  rw [isValidUtf8_eq]
  cases GroupReceipts.isValidUtf8_spec text with
  | inl h =>
    rw [hiff.mpr h.2, h.1]
    exact ⟨rfl, iff_of_true rfl h.2, .inl rfl⟩
  | inr h =>
    have hbad := Bool.eq_false_iff.mpr fun hvalid => h.2 (hiff.mp hvalid)
    rw [hbad, h.1]
    exact ⟨rfl, iff_of_false nofun h.2, .inr rfl⟩

end Tim2Tox.Utf8Validators
