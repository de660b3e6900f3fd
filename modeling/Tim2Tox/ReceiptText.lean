import Mathlib.Data.List.Basic
import Tim2Tox.ReceiptScanner

set_option autoImplicit false

/-!
# Bytes and characters of a receipt

What the scanner does byte by byte, on the characters its position stands before: `IsValidUtf8`
accepts the well-formed strings, and a comparison with an ASCII literal compares characters.
-/
namespace Tim2Tox.GroupReceipts

@[simp] theorem bind_accept {α β : Type} (a : α) (f : α → Outcome β) :
    (Outcome.accept a >>= f) = f a := rfl

@[simp] theorem bind_reject {α β : Type} (f : α → Outcome β) :
    ((Outcome.reject : Outcome α) >>= f) = .reject := rfl

theorem bind_bind {α β γ : Type} (x : Outcome α) (f : α → Outcome β) (g : β → Outcome γ) :
    (x >>= f) >>= g = x >>= fun a => f a >>= g := by
  cases x <;> rfl

/-! ## Positions -/

/-- What is left of the data at a position. -/
def Left (data : Bytes) (i : ℕ) (bs : Bytes) : Prop := i ≤ data.length ∧ data.drop i = bs

theorem Left.length {data bs : Bytes} {i : ℕ} (h : Left data i bs) :
    data.length = i + bs.length := by
  have hle := h.1
  rw [← h.2, List.length_drop]
  omega

theorem Left.read {data bs : Bytes} {i : ℕ} {b : UInt8} (h : Left data i (b :: bs)) :
    read data i = .accept b := by
  have hget : data[i]? = some b := by
    rw [← Nat.add_zero i, ← List.getElem?_drop, h.2]
    rfl
  rw [GroupReceipts.read, hget]

theorem Left.append {data bs cs : Bytes} {i : ℕ} (h : Left data i (bs ++ cs)) :
    Left data (i + bs.length) cs := by
  have hlength := h.length
  rw [List.length_append] at hlength
  refine ⟨by omega, ?_⟩
  rw [← List.drop_drop, h.2, List.drop_left]

theorem Left.next {data bs : Bytes} {i : ℕ} {b : UInt8} (h : Left data i (b :: bs)) :
    Left data (i + 1) bs :=
  @Left.append data [b] bs i h

theorem Left.diff {data bs : Bytes} {i : ℕ} (h : Left data i bs) :
    diff data.length i = .accept bs.length := by
  have hlength := h.length
  rw [GroupReceipts.diff, if_pos h.1]
  congr 1
  omega

theorem left_start (data : Bytes) : Left data 0 data := ⟨Nat.zero_le _, List.drop_zero⟩

/-! ## Bits -/

/-- A fact about all bytes is a fact about 256 numbers. -/
theorem forall_byte {P : UInt8 → Prop} (h : ∀ n < 256, P (UInt8.ofNat n)) (b : UInt8) : P b := by
  have hb := h b.toNat b.toNat_lt
  rwa [UInt8.ofNat_toNat] at hb

/-- What the masks of the check pick out of a byte. -/
theorem masks (b : UInt8) : (b &&& 0xE0 = 0xC0 ↔ 0xC0 ≤ b.toNat ∧ b.toNat ≤ 0xDF) ∧
    (b &&& 0xF0 = 0xE0 ↔ 0xE0 ≤ b.toNat ∧ b.toNat ≤ 0xEF) ∧
    (b &&& 0xF8 = 0xF0 ↔ 0xF0 ≤ b.toNat ∧ b.toNat ≤ 0xF7) ∧
    (b &&& 0xC0 = 0x80 ↔ Utf8.Tail b) ∧
    (b &&& 0x1F).toNat = b.toNat % 32 ∧ (b &&& 0x0F).toNat = b.toNat % 16 ∧
    (b &&& 0x07).toNat = b.toNat % 8 ∧ (b &&& 0x3F).toNat = b.toNat % 64 := by
  revert b
  apply forall_byte
  decide +kernel

theorem lead_two (b : UInt8) : b &&& 0xE0 = 0xC0 ↔ 0xC0 ≤ b.toNat ∧ b.toNat ≤ 0xDF := (masks b).1

theorem lead_three (b : UInt8) : b &&& 0xF0 = 0xE0 ↔ 0xE0 ≤ b.toNat ∧ b.toNat ≤ 0xEF :=
  (masks b).2.1

theorem lead_four (b : UInt8) : b &&& 0xF8 = 0xF0 ↔ 0xF0 ≤ b.toNat ∧ b.toNat ≤ 0xF7 :=
  (masks b).2.2.1

theorem tail_iff (b : UInt8) : b &&& 0xC0 = 0x80 ↔ Utf8.Tail b := (masks b).2.2.2.1

theorem payloads (b : UInt8) : (b &&& 0x1F).toNat = b.toNat % 32 ∧
    (b &&& 0x0F).toNat = b.toNat % 16 ∧ (b &&& 0x07).toNat = b.toNat % 8 ∧
    (b &&& 0x3F).toNat = b.toNat % 64 := (masks b).2.2.2.2

/-- Shifting in `k` bits. -/
theorem shift_or {a b k : ℕ} (h : b < 2 ^ k) : (a <<< k) ||| b = a * 2 ^ k + b := by
  rw [← Nat.shiftLeft_add_eq_or_of_lt h, Nat.shiftLeft_eq]

/-! ## The check of the encoding -/

/-- The code point after the bytes that go on with it. -/
def payload (cp : ℕ) (ts : Bytes) : ℕ := ts.foldl (fun cp t => cp * 64 + t.toNat % 64) cp

/-- All of the bytes go on with a character. -/
def Tails (ts : Bytes) : Prop := ∀ t ∈ ts, Utf8.Tail t

instance (ts : Bytes) : Decidable (Tails ts) := List.decidableBAll Utf8.Tail ts

theorem tailBytes_eq {data ts rest : Bytes} {i cp : ℕ} (h : Left data i (ts ++ rest)) :
    tailBytes data ts.length i cp =
      if Tails ts then .accept (payload cp ts) else .reject := by
  induction ts generalizing i cp with
  | nil =>
    have hnil : Tails [] := fun t ht => absurd ht List.not_mem_nil
    rw [if_pos hnil]
    rfl
  | cons t ts ih =>
    rw [List.length_cons, tailBytes, h.read, bind_accept]
    by_cases htail : Utf8.Tail t
    · have hbits : (t &&& 0x3F).toNat = t.toNat % 64 := (payloads t).2.2.2
      have hsmall : t.toNat % 64 < 2 ^ 6 := Nat.mod_lt _ (by decide)
      have hcons : Tails (t :: ts) ↔ Tails ts := by
        rw [Tails, List.forall_mem_cons]
        exact and_iff_right htail
      rw [if_neg (by rw [not_not]; exact (tail_iff t).mpr htail), ih h.next, hbits,
        shift_or hsmall]
      simp only [hcons]
      rfl
    · rw [if_pos (fun heq => htail ((tail_iff t).mp heq)),
        if_neg (fun hall => htail (hall t (List.mem_cons_self)))]

/-- The code points `IsValidUtf8` turns down. -/
def Overlong (least cp : ℕ) : Prop :=
  cp < least ∨ cp > 0x10FFFF ∨ (cp ≥ 0xD800 ∧ cp ≤ 0xDFFF)

instance (least cp : ℕ) : Decidable (Overlong least cp) := inferInstanceAs (Decidable (_ ∨ _))

theorem nextChar_long {data bs : Bytes} {i extra cp least : ℕ} {a : UInt8}
    (h : Left data i (a :: bs)) (hhigh : ¬ a < 0x80) (hlead : leadByte a = some (extra, cp, least)) :
    nextChar data i =
      if extra ≤ bs.length ∧ Tails (bs.take extra) ∧
        ¬ Overlong least (payload cp (bs.take extra)) then .accept (i + (extra + 1))
      else .reject := by
  rw [nextChar, h.read, bind_accept, if_neg hhigh, hlead]
  dsimp only
  rw [h.diff, bind_accept, List.length_cons]
  by_cases hlong : extra ≤ bs.length
  · have hnext : Left data (i + 1) (bs.take extra ++ bs.drop extra) := by
      rw [List.take_append_drop]
      exact h.next
    have htails := @tailBytes_eq _ _ _ _ cp hnext
    rw [List.length_take, Nat.min_eq_left hlong] at htails
    rw [if_neg (by omega), htails]
    by_cases hall : Tails (bs.take extra)
    · rw [if_pos hall, bind_accept]
      by_cases hbad : Overlong least (payload cp (bs.take extra))
      · exact (if_pos hbad).trans (if_neg (fun hok => hok.2.2 hbad)).symm
      · exact (if_neg hbad).trans (if_pos ⟨hlong, hall, hbad⟩).symm
    · rw [if_neg hall, bind_reject, if_neg (fun hok => hall hok.2.1)]
  · rw [if_pos (by omega), if_neg (fun hok => hlong hok.1)]

theorem leadByte_eq (a : UInt8) : leadByte a =
    if 0xC0 ≤ a.toNat ∧ a.toNat ≤ 0xDF then some (1, a.toNat % 32, 0x80)
    else if 0xE0 ≤ a.toNat ∧ a.toNat ≤ 0xEF then some (2, a.toNat % 16, 0x800)
    else if 0xF0 ≤ a.toNat ∧ a.toNat ≤ 0xF7 then some (3, a.toNat % 8, 0x10000)
    else none := by
  simp only [leadByte, lead_two, lead_three, lead_four, payloads]

theorem unit_two_iff {a b : UInt8} (hlead : 0xC0 ≤ a.toNat ∧ a.toNat ≤ 0xDF) :
    Utf8.Unit [a, b] ↔
      Utf8.Tail b ∧ ¬ Overlong 0x80 (a.toNat % 32 * 64 + b.toNat % 64) := by
  rw [Overlong]
  constructor
  · intro hunit
    cases hunit with
    | two ha ha' hb =>
      have := hb.1
      exact ⟨hb, by omega⟩
  · intro ⟨hb, hok⟩
    have := hb.1
    exact Utf8.Unit.two (by omega) hlead.2 hb

theorem unit_three_iff {a b c : UInt8} (hlead : 0xE0 ≤ a.toNat ∧ a.toNat ≤ 0xEF) :
    Utf8.Unit [a, b, c] ↔ (Utf8.Tail b ∧ Utf8.Tail c) ∧
      ¬ Overlong 0x800 ((a.toNat % 16 * 64 + b.toNat % 64) * 64 + c.toNat % 64) := by
  rw [Overlong]
  constructor
  · intro hunit
    cases hunit with
    | three ha ha' hb hc hlow hhigh =>
      have := hb.1
      have := hb.2
      have := hc.1
      exact ⟨⟨hb, hc⟩, by omega⟩
  · intro ⟨⟨hb, hc⟩, hok⟩
    have := hb.1
    have := hb.2
    have := hc.1
    exact Utf8.Unit.three hlead.1 hlead.2 hb hc (by omega) (by omega)

theorem unit_four_iff {a b c d : UInt8} (hlead : 0xF0 ≤ a.toNat ∧ a.toNat ≤ 0xF7) :
    Utf8.Unit [a, b, c, d] ↔ (Utf8.Tail b ∧ Utf8.Tail c ∧ Utf8.Tail d) ∧
      ¬ Overlong 0x10000
        (((a.toNat % 8 * 64 + b.toNat % 64) * 64 + c.toNat % 64) * 64 + d.toNat % 64) := by
  rw [Overlong]
  constructor
  · intro hunit
    cases hunit with
    | four ha ha' hb hc hd hlow hhigh =>
      have := hb.1
      have := hb.2
      have := hc.1
      have := hd.1
      exact ⟨⟨hb, hc, hd⟩, by omega⟩
  · intro ⟨⟨hb, hc, hd⟩, hok⟩
    have := hb.1
    have := hb.2
    have := hc.1
    have := hd.1
    exact Utf8.Unit.four hlead.1 (by omega) hb hc hd (by omega) (by omega)

/-- What a lead byte says decides which bytes complete a character. -/
theorem unit_iff {a : UInt8} {ts : Bytes} {extra cp least : ℕ}
    (hlead : leadByte a = some (extra, cp, least)) (hlength : ts.length = extra) :
    Utf8.Unit (a :: ts) ↔ (∀ t ∈ ts, Utf8.Tail t) ∧ ¬ Overlong least (payload cp ts) := by
  rw [leadByte_eq] at hlead
  split_ifs at hlead with htwo hthree hfour
  all_goals
    simp only [Option.some.injEq, Prod.mk.injEq] at hlead
    obtain ⟨rfl, rfl, rfl⟩ := hlead
  · obtain ⟨b, rfl⟩ := List.length_eq_one_iff.mp hlength
    simpa [payload] using unit_two_iff htwo
  · obtain ⟨b, c, rfl⟩ := List.length_eq_two.mp hlength
    simpa [payload] using unit_three_iff hthree
  · obtain ⟨b, c, d, rfl⟩ := List.length_eq_three.mp hlength
    simpa [payload] using unit_four_iff hfour

theorem leadByte_none {a : UInt8} (hhigh : ¬ a < 0x80) (hlead : leadByte a = none) (ts : Bytes) :
    ¬ Utf8.Unit (a :: ts) := by
  intro hunit
  rw [UInt8.lt_iff_toNat_lt] at hhigh
  change ¬ a.toNat < 0x80 at hhigh
  rw [leadByte_eq] at hlead
  split_ifs at hlead with htwo hthree hfour
  cases hunit with
  | one ha => omega
  | two ha ha' => omega
  | three ha ha' => omega
  | four ha ha' => omega

theorem leadByte_width {a : UInt8} {ts : Bytes} {extra cp least : ℕ}
    (hlead : leadByte a = some (extra, cp, least)) (hunit : Utf8.Unit (a :: ts)) :
    ts.length = extra := by
  have hwidth := hunit.length_eq
  rw [List.getD_cons_zero, Utf8.width, List.length_cons] at hwidth
  rw [leadByte_eq] at hlead
  split_ifs at hlead hwidth
  all_goals
    simp only [Option.some.injEq, Prod.mk.injEq] at hlead
    omega

/-- One round steps over a character when one stands there. -/
theorem nextChar_spec {data bs : Bytes} {i : ℕ} {a : UInt8} (h : Left data i (a :: bs)) :
    (∃ u rest, a :: bs = u ++ rest ∧ Utf8.Unit u ∧ nextChar data i = .accept (i + u.length)) ∨
      (nextChar data i = .reject ∧ ∀ u rest, a :: bs = u ++ rest → ¬ Utf8.Unit u) := by
  by_cases hsmall : a < 0x80
  · refine Or.inl ⟨[a], bs, rfl, Utf8.Unit.one ?_, ?_⟩
    · have hlt := UInt8.lt_iff_toNat_lt.mp hsmall
      change a.toNat < 0x80 at hlt
      omega
    · rw [nextChar, h.read, bind_accept, if_pos hsmall]
      rfl
  have hhead : ∀ u rest, a :: bs = u ++ rest → Utf8.Unit u → ∃ ts, u = a :: ts ∧ bs = ts ++ rest := by
    intro u rest heq hunit
    cases u with
    | nil => cases hunit
    | cons b ts =>
      rw [List.cons_append, List.cons.injEq] at heq
      exact ⟨ts, by rw [heq.1], heq.2⟩
  cases hlead : leadByte a with
  | none =>
    refine Or.inr ⟨?_, ?_⟩
    · rw [nextChar, h.read, bind_accept, if_neg hsmall, hlead]
    · intro u rest heq hunit
      obtain ⟨ts, rfl, -⟩ := hhead u rest heq hunit
      exact leadByte_none hsmall hlead ts hunit
  | some said =>
    obtain ⟨extra, cp, least⟩ := said
    rw [nextChar_long h hsmall hlead]
    by_cases hok : extra ≤ bs.length ∧ Tails (bs.take extra) ∧
        ¬ Overlong least (payload cp (bs.take extra))
    · have hlength : (bs.take extra).length = extra := by
        rw [List.length_take, Nat.min_eq_left hok.1]
      refine Or.inl ⟨a :: bs.take extra, bs.drop extra, ?_, (unit_iff hlead hlength).mpr hok.2, ?_⟩
      · rw [List.cons_append, List.take_append_drop]
      · rw [if_pos hok, List.length_cons, hlength]
    · refine Or.inr ⟨if_neg hok, ?_⟩
      intro u rest heq hunit
      obtain ⟨ts, rfl, rfl⟩ := hhead u rest heq hunit
      have hlength := leadByte_width hlead hunit
      refine hok ⟨by rw [List.length_append]; omega, ?_⟩
      rw [← hlength, List.take_left]
      exact (unit_iff hlead hlength).mp hunit

theorem validUtf8From_spec (fuel : ℕ) {data bs : Bytes} {i : ℕ} (h : Left data i bs)
    (hfuel : bs.length < fuel) :
    (validUtf8From data fuel i = .accept () ∧ Utf8.WellFormed bs) ∨
      (validUtf8From data fuel i = .reject ∧ ¬ Utf8.WellFormed bs) := by
  induction fuel generalizing i bs with
  | zero => omega
  | succ fuel ih =>
    have hlength := h.length
    rw [validUtf8From]
    cases bs with
    | nil =>
      rw [List.length_nil] at hlength
      exact Or.inl ⟨if_neg (by omega), Utf8.WellFormed.nil⟩
    | cons a bs =>
      rw [List.length_cons] at hlength hfuel
      rw [if_pos (by omega)]
      rcases nextChar_spec h with ⟨u, rest, heq, hunit, hnext⟩ | ⟨hnext, hno⟩
      · rw [hnext, bind_accept]
        rw [heq] at h ⊢
        have hpos := hunit.length_pos
        have hshort : rest.length < fuel := by
          have hsum := congrArg List.length heq
          rw [List.length_cons, List.length_append] at hsum
          omega
        rcases ih h.append hshort with ⟨hrun, hwell⟩ | ⟨hrun, hbad⟩
        · exact Or.inl ⟨hrun, hunit.wellFormed.append hwell⟩
        · exact Or.inr ⟨hrun, fun hwell => hbad (hunit.wellFormed.of_append hwell)⟩
      · rw [hnext, bind_reject]
        refine Or.inr ⟨rfl, fun hwell => ?_⟩
        rcases Utf8.wellFormed_cases hwell with hnil | ⟨u, rest, heq, hunit, -⟩
        · cases hnil
        · exact hno u rest heq hunit

/-- `IsValidUtf8` accepts the encodings of texts. -/
theorem isValidUtf8_spec (data : Bytes) :
    (isValidUtf8 data = .accept () ∧ Utf8.WellFormed data) ∨
      (isValidUtf8 data = .reject ∧ ¬ Utf8.WellFormed data) :=
  validUtf8From_spec _ (left_start data) (Nat.lt_succ_self _)

/-! ## Writing a character -/

theorem or_small {a b k : ℕ} (hb : b < 2 ^ k) : (a * 2 ^ k) ||| b = a * 2 ^ k + b := by
  rw [← Nat.shiftLeft_eq, shift_or hb, Nat.shiftLeft_eq]

/-- `AppendUtf8` writes the encoding of a character. -/
theorem appendUtf8_char (c : Char) : appendUtf8 c.toNat = String.utf8EncodeChar c := by
  have hrange := Utf16.char_range c
  have htail : ∀ n, 0x80 ||| (n &&& 0x3F) = n % 64 + 0x80 := by
    intro n
    rw [@Nat.and_two_pow_sub_one_eq_mod n 6, Nat.add_comm]
    exact @or_small 2 (n % 64) 6 (Nat.mod_lt _ (by decide))
  have hlead : ∀ a k n : ℕ, n < 2 ^ k → a * 2 ^ k ||| n = n % 2 ^ k + a * 2 ^ k := by
    intro a k n hn
    rw [or_small hn, Nat.mod_eq_of_lt hn, Nat.add_comm]
  unfold appendUtf8 String.utf8EncodeChar
  rw [show c.val.toNat = c.toNat from rfl]
  generalize c.toNat = n at hrange
  simp only [htail, Nat.shiftRight_eq_div_pow]
  split_ifs
  all_goals first | omega | rfl | skip
  · have htwo : 0xC0 ||| n / 64 = n / 64 % 32 + 0xC0 := hlead 6 5 _ (by omega)
    exact congrArg (fun b => [UInt8.ofNat b, _]) htwo
  · have hthree : 0xE0 ||| n / 4096 = n / 4096 % 16 + 0xE0 := hlead 14 4 _ (by omega)
    exact congrArg (fun b => [UInt8.ofNat b, _, _]) hthree
  · have hfour : 0xF0 ||| n / 262144 = n / 262144 % 8 + 0xF0 := hlead 30 3 _ (by omega)
    exact congrArg (fun b => [UInt8.ofNat b, _, _, _]) hfour

/-! ## The first byte of a character -/

def lead (c : Char) : UInt8 := (String.utf8EncodeChar c).getD 0 0

theorem utf8EncodeChar_ascii {c : Char} (h : c.toNat < 0x80) :
    String.utf8EncodeChar c = [byte c] := by
  rw [← appendUtf8_char, appendUtf8, if_pos h]
  rfl

theorem utf8EncodeChar_high {c : Char} (h : ¬ c.toNat < 0x80) :
    ∀ b ∈ String.utf8EncodeChar c, 0x80 ≤ b.toNat := by
  have hunit := Utf8.unit_utf8EncodeChar c
  generalize hu : String.utf8EncodeChar c = u at hunit
  cases hunit with
  | one ha =>
    rw [← appendUtf8_char, appendUtf8, if_neg h] at hu
    split_ifs at hu <;> simp at hu
  | two ha ha' hb =>
    have := hb.1
    simp only [List.forall_mem_cons]
    exact ⟨by omega, by omega, by simp⟩
  | three ha ha' hb hc =>
    have := hb.1
    have := hc.1
    simp only [List.forall_mem_cons]
    exact ⟨by omega, by omega, by omega, by simp⟩
  | four ha ha' hb hc hd =>
    have := hb.1
    have := hc.1
    have := hd.1
    simp only [List.forall_mem_cons]
    exact ⟨by omega, by omega, by omega, by omega, by simp⟩

theorem utf8EncodeChar_lead (c : Char) : ∃ ts, String.utf8EncodeChar c = lead c :: ts := by
  have hunit := Utf8.unit_utf8EncodeChar c
  rw [lead]
  generalize String.utf8EncodeChar c = u at hunit
  cases u with
  | nil => cases hunit
  | cons a ts => exact ⟨ts, rfl⟩

theorem lead_ascii {c : Char} (h : c.toNat < 0x80) : lead c = byte c := by
  rw [lead, utf8EncodeChar_ascii h]
  rfl

theorem lead_high {c : Char} (h : ¬ c.toNat < 0x80) : 0x80 ≤ (lead c).toNat := by
  obtain ⟨ts, hts⟩ := utf8EncodeChar_lead c
  exact utf8EncodeChar_high h _ (by rw [hts]; exact List.mem_cons_self)

theorem byte_toNat {c : Char} (h : c.toNat < 0x80) : (byte c).toNat = c.toNat :=
  Utf8.toNat_ofNat_small (by omega)

/-- A fact about all ASCII characters is a fact about 128 numbers. -/
theorem forall_ascii {P : Char → Prop} (h : ∀ n < 128, P (Char.ofNat n)) {c : Char}
    (hc : c.toNat < 0x80) : P c := by
  have hn := h c.toNat hc
  rwa [Char.ofNat_toNat] at hn

theorem lead_eq {c q : Char} (hq : q.toNat < 0x80) : lead c = byte q ↔ c = q := by
  constructor
  · intro heq
    have hnat := congrArg UInt8.toNat heq
    rw [byte_toNat hq] at hnat
    by_cases hc : c.toNat < 0x80
    · rw [lead_ascii hc, byte_toNat hc] at hnat
      exact Utf16.char_ext hnat
    · have := lead_high hc
      omega
  · rintro rfl
    exact lead_ascii hq

theorem lead_control (c : Char) : lead c < 0x20 ↔ c.toNat < 0x20 := by
  rw [UInt8.lt_iff_toNat_lt]
  change (lead c).toNat < 0x20 ↔ _
  by_cases hc : c.toNat < 0x80
  · rw [lead_ascii hc, byte_toNat hc]
  · have := lead_high hc
    omega

theorem isSpace_lead (c : Char) : isSpace (lead c) = Json.isWs c := by
  simp only [isSpace, Json.isWs, lead_eq (show ' '.toNat < 0x80 by decide),
    lead_eq (show '\t'.toNat < 0x80 by decide), lead_eq (show '\n'.toNat < 0x80 by decide),
    lead_eq (show '\r'.toNat < 0x80 by decide)]

theorem hexDigit_lead (c : Char) : hexDigit (lead c) = Json.hexValue c := by
  by_cases hc : c.toNat < 0x80
  · rw [lead_ascii hc]
    exact forall_ascii (P := fun c => hexDigit (byte c) = Json.hexValue c) (by decide) hc
  · have hbyte : ∀ b : UInt8, 0x80 ≤ b.toNat → hexDigit b = none :=
      forall_byte (P := fun b => 0x80 ≤ b.toNat → hexDigit b = none) (by decide +kernel)
    have hle : ∀ q : Char, q.toNat < 0x80 → ¬ c ≤ q := by
      intro q hq hcq
      have hnat : c.toNat ≤ q.toNat := hcq
      omega
    rw [hbyte _ (lead_high hc), Json.hexValue, if_neg (fun h => hle '9' (by decide) h.2),
      if_neg (fun h => hle 'f' (by decide) h.2), if_neg (fun h => hle 'F' (by decide) h.2)]

theorem simpleEscape_lead (c : Char) :
    simpleEscape (lead c) = (Json.escaped c).map byte := by
  by_cases hc : c.toNat < 0x80
  · rw [lead_ascii hc]
    exact forall_ascii (P := fun c => simpleEscape (byte c) = (Json.escaped c).map byte)
      (by decide) hc
  · have hbyte : ∀ b : UInt8, 0x80 ≤ b.toNat → simpleEscape b = none :=
      forall_byte (P := fun b => 0x80 ≤ b.toNat → simpleEscape b = none) (by decide +kernel)
    rw [hbyte _ (lead_high hc), Json.escaped_high hc]
    rfl

end Tim2Tox.GroupReceipts
