import Mathlib.Algebra.Ring.Nat
import Mathlib.Data.List.GetD
import Mathlib.Data.Nat.Notation
import Mathlib.Tactic.Common

set_option autoImplicit false

/-!
# UTF-8 as lists of bytes

Well-formed byte strings are the encodings of lists of characters. The encodings of the characters
are described by their bytes; they are a prefix code, and the bytes that go on with a character
never begin one.
-/
namespace Tim2Tox.Utf8

def encode (cs : List Char) : List UInt8 := cs.flatMap String.utf8EncodeChar

def WellFormed (bytes : List UInt8) : Prop := ∃ cs, bytes = encode cs

theorem encode_nil : encode [] = [] := rfl

theorem encode_cons (c : Char) (cs : List Char) :
    encode (c :: cs) = String.utf8EncodeChar c ++ encode cs := List.flatMap_cons

theorem encode_append (cs ds : List Char) : encode (cs ++ ds) = encode cs ++ encode ds :=
  List.flatMap_append

theorem WellFormed.nil : WellFormed [] := ⟨[], rfl⟩

theorem WellFormed.append {a b : List UInt8} (ha : WellFormed a) (hb : WellFormed b) :
    WellFormed (a ++ b) := by
  obtain ⟨cs, rfl⟩ := ha
  obtain ⟨ds, rfl⟩ := hb
  exact ⟨cs ++ ds, (encode_append cs ds).symm⟩

/-! ## The bytes of a character -/

/-- A byte that goes on with a character. -/
def Tail (b : UInt8) : Prop := 0x80 ≤ b.toNat ∧ b.toNat ≤ 0xBF

instance (b : UInt8) : Decidable (Tail b) := inferInstanceAs (Decidable (_ ∧ _))

/-- The byte sequences that encode one character. -/
inductive Unit : List UInt8 → Prop where
  | one {a : UInt8} (ha : a.toNat ≤ 0x7F) : Unit [a]
  | two {a b : UInt8} (ha : 0xC2 ≤ a.toNat) (ha' : a.toNat ≤ 0xDF) (hb : Tail b) : Unit [a, b]
  | three {a b c : UInt8} (ha : 0xE0 ≤ a.toNat) (ha' : a.toNat ≤ 0xEF) (hb : Tail b) (hc : Tail c)
      (hlow : a.toNat = 0xE0 → 0xA0 ≤ b.toNat) (hhigh : a.toNat = 0xED → b.toNat ≤ 0x9F) :
      Unit [a, b, c]
  | four {a b c d : UInt8} (ha : 0xF0 ≤ a.toNat) (ha' : a.toNat ≤ 0xF4) (hb : Tail b)
      (hc : Tail c) (hd : Tail d) (hlow : a.toNat = 0xF0 → 0x90 ≤ b.toNat)
      (hhigh : a.toNat = 0xF4 → b.toNat ≤ 0x8F) : Unit [a, b, c, d]

theorem toNat_ofNat_small {n : ℕ} (h : n < 256) : (UInt8.ofNat n).toNat = n := by
  rw [UInt8.toNat_ofNat']
  omega

theorem unit_utf8EncodeChar (c : Char) : Unit (String.utf8EncodeChar c) := by
  have hvalid := c.valid
  have hrange : c.val.toNat < 0xD800 ∨ (0xDFFF < c.val.toNat ∧ c.val.toNat < 0x110000) := hvalid
  unfold String.utf8EncodeChar
  dsimp only
  split_ifs with hone htwo hthree
  · exact Unit.one (by rw [toNat_ofNat_small (by omega)]; omega)
  · refine Unit.two ?_ ?_ ⟨?_, ?_⟩
    all_goals rw [toNat_ofNat_small (by omega)]
    all_goals omega
  · refine Unit.three ?_ ?_ ⟨?_, ?_⟩ ⟨?_, ?_⟩ ?_ ?_
    all_goals rw [toNat_ofNat_small (by omega)]
    all_goals first | omega | (rw [toNat_ofNat_small (by omega)]; omega)
  · refine Unit.four ?_ ?_ ⟨?_, ?_⟩ ⟨?_, ?_⟩ ⟨?_, ?_⟩ ?_ ?_
    all_goals rw [toNat_ofNat_small (by omega)]
    all_goals first | omega | (rw [toNat_ofNat_small (by omega)]; omega)

/-- The character of a scalar value. -/
theorem char_of_scalar {n : ℕ} (h : n < 0xD800 ∨ (0xDFFF < n ∧ n < 0x110000)) :
    ∃ c : Char, c.val.toNat = n := by
  have hsmall : n < 2 ^ 32 := by omega
  refine ⟨⟨UInt32.ofNat n, ?_⟩, ?_⟩
  · have hnat : (UInt32.ofNat n).toNat = n := Nat.mod_eq_of_lt hsmall
    change (UInt32.ofNat n).toNat.isValidChar
    rw [hnat]
    exact h
  · exact Nat.mod_eq_of_lt hsmall

theorem ofNat_eq {n : ℕ} {b : UInt8} (h : n = b.toNat) : UInt8.ofNat n = b := by
  rw [h]
  exact UInt8.ofNat_toNat

theorem Unit.encoded {u : List UInt8} (h : Unit u) : ∃ c, String.utf8EncodeChar c = u := by
  cases h with
  | @one a ha =>
    obtain ⟨c, hc⟩ := char_of_scalar (n := a.toNat) (by omega)
    refine ⟨c, ?_⟩
    unfold String.utf8EncodeChar
    rw [hc]
    dsimp only
    rw [if_pos ha, UInt8.ofNat_toNat]
  | @two a b ha ha' hb =>
    obtain ⟨hb, hb'⟩ := hb
    obtain ⟨c, hc⟩ := char_of_scalar (n := (a.toNat - 0xC0) * 64 + (b.toNat - 0x80)) (by omega)
    refine ⟨c, ?_⟩
    unfold String.utf8EncodeChar
    rw [hc]
    dsimp only
    rw [if_neg (by omega), if_pos (by omega), ofNat_eq (b := a) (by omega),
      ofNat_eq (b := b) (by omega)]
  | @three a b d ha ha' hb hd hlow hhigh =>
    obtain ⟨hb, hb'⟩ := hb
    obtain ⟨hd, hd'⟩ := hd
    obtain ⟨c, hc⟩ := char_of_scalar
      (n := (a.toNat - 0xE0) * 4096 + (b.toNat - 0x80) * 64 + (d.toNat - 0x80)) (by omega)
    refine ⟨c, ?_⟩
    unfold String.utf8EncodeChar
    rw [hc]
    dsimp only
    rw [if_neg (by omega), if_neg (by omega), if_pos (by omega), ofNat_eq (b := a) (by omega),
      ofNat_eq (b := b) (by omega), ofNat_eq (b := d) (by omega)]
  | @four a b d e ha ha' hb hd he hlow hhigh =>
    obtain ⟨hb, hb'⟩ := hb
    obtain ⟨hd, hd'⟩ := hd
    obtain ⟨he, he'⟩ := he
    obtain ⟨c, hc⟩ := char_of_scalar (n := (a.toNat - 0xF0) * 262144 + (b.toNat - 0x80) * 4096 +
      (d.toNat - 0x80) * 64 + (e.toNat - 0x80)) (by omega)
    refine ⟨c, ?_⟩
    unfold String.utf8EncodeChar
    rw [hc]
    dsimp only
    rw [if_neg (by omega), if_neg (by omega), if_neg (by omega), ofNat_eq (b := a) (by omega),
      ofNat_eq (b := b) (by omega), ofNat_eq (b := d) (by omega), ofNat_eq (b := e) (by omega)]

theorem Unit.wellFormed {u : List UInt8} (h : Unit u) : WellFormed u := by
  obtain ⟨c, rfl⟩ := h.encoded
  exact ⟨[c], by rw [encode_cons, encode_nil, List.append_nil]⟩

/-- A well-formed string is empty or begins with a character. -/
theorem wellFormed_cases {bytes : List UInt8} (h : WellFormed bytes) :
    bytes = [] ∨ ∃ u rest, bytes = u ++ rest ∧ Unit u ∧ WellFormed rest := by
  obtain ⟨cs, rfl⟩ := h
  cases cs with
  | nil => exact Or.inl rfl
  | cons c cs =>
    rw [encode_cons]
    exact Or.inr ⟨_, _, rfl, unit_utf8EncodeChar c, cs, rfl⟩

/-- Induction over a well-formed string, character by character. -/
theorem WellFormed.induct {motive : (bytes : List UInt8) → WellFormed bytes → Prop}
    (hnil : motive [] WellFormed.nil)
    (hunit : ∀ u rest (hu : Unit u) (hrest : WellFormed rest), motive rest hrest →
      motive (u ++ rest) (hu.wellFormed.append hrest))
    {bytes : List UInt8} (h : WellFormed bytes) : motive bytes h := by
  obtain ⟨cs, rfl⟩ := h
  induction cs with
  | nil => exact hnil
  | cons c cs ih => exact hunit _ _ (unit_utf8EncodeChar c) ⟨cs, rfl⟩ (ih)

/-! ## Boundaries -/

theorem Unit.length_pos {u : List UInt8} (h : Unit u) : 0 < u.length := by
  cases h <;> exact Nat.succ_pos _

theorem Unit.length_le {u : List UInt8} (h : Unit u) : u.length ≤ 4 := by
  cases h <;> simp

theorem Unit.head_not_tail {u : List UInt8} (h : Unit u) : ¬ Tail (u.getD 0 0) := by
  cases h with
  | one ha => exact fun ht => absurd ht.1 (by simp only [List.getD_cons_zero]; omega)
  | two ha => exact fun ht => absurd ht.2 (by simp only [List.getD_cons_zero]; omega)
  | three ha => exact fun ht => absurd ht.2 (by simp only [List.getD_cons_zero]; omega)
  | four ha => exact fun ht => absurd ht.2 (by simp only [List.getD_cons_zero]; omega)

theorem Unit.tail {u : List UInt8} (h : Unit u) {i : ℕ} (hpos : 0 < i) (hi : i < u.length) :
    Tail (u.getD i 0) := by
  cases h with
  | one _ => simp only [List.length_cons, List.length_nil] at hi; omega
  | two _ _ hb =>
    simp only [List.length_cons, List.length_nil] at hi
    obtain rfl : i = 1 := by omega
    exact hb
  | three _ _ hb hc =>
    simp only [List.length_cons, List.length_nil] at hi
    obtain rfl | rfl : i = 1 ∨ i = 2 := by omega
    · exact hb
    · exact hc
  | four _ _ hb hc hd =>
    simp only [List.length_cons, List.length_nil] at hi
    obtain rfl | rfl | rfl : i = 1 ∨ i = 2 ∨ i = 3 := by omega
    · exact hb
    · exact hc
    · exact hd

theorem WellFormed.head_not_tail {bytes : List UInt8} (h : WellFormed bytes)
    (hne : bytes ≠ []) : ¬ Tail (bytes.getD 0 0) := by
  rcases wellFormed_cases h with rfl | ⟨u, rest, rfl, hu, -⟩
  · exact absurd rfl hne
  · rw [List.getD_append _ _ _ _ hu.length_pos]
    exact hu.head_not_tail

/-- A string is cut between characters before a byte that does not go on with one. -/
theorem WellFormed.split {bytes : List UInt8} (h : WellFormed bytes) {k : ℕ}
    (hlead : ¬ Tail (bytes.getD k 0)) (hk : k < bytes.length) :
    WellFormed (bytes.take k) ∧ WellFormed (bytes.drop k) := by
  induction h using WellFormed.induct generalizing k with
  | hnil => exact absurd hk (Nat.not_lt_zero _)
  | hunit u rest hu hrest ih =>
    by_cases hin : k < u.length
    · rw [List.getD_append _ _ _ _ hin] at hlead
      obtain rfl : k = 0 := by
        by_contra hpos
        exact hlead (hu.tail (by omega) hin)
      rw [List.take_zero, List.drop_zero]
      exact ⟨WellFormed.nil, hu.wellFormed.append hrest⟩
    · rw [List.getD_append_right _ _ _ _ (by omega)] at hlead
      rw [List.length_append] at hk
      have hcut := ih hlead (by omega)
      rw [List.take_append, List.drop_append, List.take_of_length_le (by omega),
        List.drop_of_length_le (by omega), List.nil_append]
      exact ⟨hu.wellFormed.append hcut.1, hcut.2⟩

/-- The length of a character by its first byte. -/
def width (a : UInt8) : ℕ :=
  if a.toNat ≤ 0x7F then 1 else if a.toNat ≤ 0xDF then 2 else if a.toNat ≤ 0xEF then 3 else 4

theorem Unit.length_eq {u : List UInt8} (h : Unit u) : u.length = width (u.getD 0 0) := by
  cases h with
  | one ha => rw [List.getD_cons_zero, width, if_pos ha]; rfl
  | two ha ha' => rw [List.getD_cons_zero, width, if_neg (by omega), if_pos ha']; rfl
  | three ha ha' =>
    rw [List.getD_cons_zero, width, if_neg (by omega), if_neg (by omega), if_pos ha']; rfl
  | four ha =>
    rw [List.getD_cons_zero, width, if_neg (by omega), if_neg (by omega), if_neg (by omega)]; rfl

theorem Unit.append_inj {u v x y : List UInt8} (hu : Unit u) (hv : Unit v)
    (h : u ++ x = v ++ y) : u = v ∧ x = y := by
  have hhead : u.getD 0 0 = v.getD 0 0 := by
    rw [← List.getD_append u x _ _ hu.length_pos, h, List.getD_append _ _ _ _ hv.length_pos]
  exact List.append_inj h (by rw [hu.length_eq, hv.length_eq, hhead])

theorem utf8EncodeChar_inj {c d : Char} (h : String.utf8EncodeChar c = String.utf8EncodeChar d) :
    c = d := by
  have hdecode : ∀ c : Char, ((String.utf8EncodeChar c).toByteArray ++ ByteArray.empty).utf8DecodeChar?
      0 = some c := fun _ => ByteArray.utf8DecodeChar?_utf8EncodeChar_append
  have hc := hdecode c
  rw [h, hdecode d] at hc
  exact (Option.some.inj hc).symm

theorem encode_ne_nil (c : Char) (cs : List Char) : encode (c :: cs) ≠ [] := by
  intro h
  have hpos := (unit_utf8EncodeChar c).length_pos
  rw [encode_cons, List.append_eq_nil_iff] at h
  rw [h.1] at hpos
  exact Nat.lt_irrefl 0 hpos

theorem encode_inj {cs ds : List Char} (h : encode cs = encode ds) : cs = ds := by
  induction cs generalizing ds with
  | nil =>
    cases ds with
    | nil => rfl
    | cons d ds => exact absurd h.symm (encode_ne_nil d ds)
  | cons c cs ih =>
    cases ds with
    | nil => exact absurd h (encode_ne_nil c cs)
    | cons d ds =>
      rw [encode_cons, encode_cons] at h
      obtain ⟨hchar, hrest⟩ :=
        (unit_utf8EncodeChar c).append_inj (unit_utf8EncodeChar d) h
      rw [utf8EncodeChar_inj hchar, ih hrest]

/-- A text whose bytes begin with those of characters begins with the characters. -/
theorem encode_append_inj {ms cs : List Char} {rest : List UInt8}
    (h : encode ms ++ rest = encode cs) : ∃ cs', cs = ms ++ cs' ∧ rest = encode cs' := by
  induction ms generalizing cs with
  | nil => exact ⟨cs, rfl, h⟩
  | cons m ms ih =>
    cases cs with
    | nil =>
      rw [encode_nil, List.append_eq_nil_iff] at h
      exact absurd h.1 (encode_ne_nil m ms)
    | cons c cs =>
      rw [encode_cons, encode_cons, List.append_assoc] at h
      obtain ⟨hchar, hrest⟩ :=
        (unit_utf8EncodeChar m).append_inj (unit_utf8EncodeChar c) h
      obtain ⟨cs', hcs, hrest⟩ := ih hrest
      rw [hcs, utf8EncodeChar_inj hchar]
      exact ⟨cs', rfl, hrest⟩

theorem WellFormed.of_append {a b : List UInt8} (ha : WellFormed a)
    (h : WellFormed (a ++ b)) : WellFormed b := by
  induction ha using WellFormed.induct with
  | hnil => exact h
  | hunit u rest hu hrest ih =>
    rw [List.append_assoc] at h
    rcases wellFormed_cases h with hnil | ⟨v, rest', heq, hv, hrest'⟩
    · have hlength := congrArg List.length hnil
      have hpos := hu.length_pos
      rw [List.length_append, List.length_nil] at hlength
      omega
    · obtain ⟨-, hsame⟩ := hu.append_inj hv heq
      rw [← hsame] at hrest'
      exact ih hrest'

/-- A prefix that is well-formed ends before a byte that does not go on with a character. -/
theorem WellFormed.not_tail_of_take {bytes : List UInt8} (h : WellFormed bytes) {k : ℕ}
    (htake : WellFormed (bytes.take k)) (hk : k < bytes.length) : ¬ Tail (bytes.getD k 0) := by
  have hdrop : WellFormed (bytes.drop k) :=
    htake.of_append (by rw [List.take_append_drop]; exact h)
  have hne : bytes.drop k ≠ [] := fun hnil => by
    have hlength := congrArg List.length hnil
    rw [List.length_drop, List.length_nil] at hlength
    omega
  have hhead := hdrop.head_not_tail hne
  rwa [List.getD_eq_getElem?_getD, List.getElem?_drop, ← List.getD_eq_getElem?_getD,
    Nat.add_zero] at hhead

/-- A string is cut after every byte of ASCII. -/
theorem WellFormed.split_ascii {bytes : List UInt8} (h : WellFormed bytes) {k : ℕ}
    (hascii : (bytes.getD k 0).toNat ≤ 0x7F) (hk : k < bytes.length) :
    WellFormed (bytes.take (k + 1)) ∧ WellFormed (bytes.drop (k + 1)) := by
  obtain ⟨htake, hdrop⟩ := h.split (k := k) (fun ht => by have := ht.1; omega) hk
  have hcut : bytes.drop k = bytes.getD k 0 :: bytes.drop (k + 1) := by
    rw [List.drop_eq_getElem_cons hk, List.getD_eq_getElem _ _ hk]
  have hunit : Unit [bytes.getD k 0] := Unit.one hascii
  refine ⟨?_, ?_⟩
  · rw [List.take_succ_eq_append_getElem hk, ← List.getD_eq_getElem _ 0 hk]
    exact htake.append hunit.wellFormed
  · rw [hcut] at hdrop
    exact hunit.wellFormed.of_append hdrop

/-- Among the first bytes of a longer string a character ends within four. -/
theorem WellFormed.first_boundary {bytes : List UInt8} (h : WellFormed bytes) {n : ℕ} (hn : 4 ≤ n)
    (hlong : n < bytes.length) : ∃ k, 0 < k ∧ k ≤ n ∧ ¬ Tail (bytes.getD k 0) := by
  rcases wellFormed_cases h with rfl | ⟨u, rest, rfl, hu, hrest⟩
  · exact absurd hlong (Nat.not_lt_zero _)
  · have hshort := hu.length_le
    refine ⟨u.length, hu.length_pos, by omega, ?_⟩
    rw [List.getD_append_right _ _ _ _ (Nat.le_refl _), Nat.sub_self]
    rw [List.length_append] at hlong
    exact hrest.head_not_tail (List.ne_nil_of_length_pos (by omega))

/-! ## Zero bytes -/

theorem zero_mem_utf8EncodeChar {c : Char} : 0 ∈ String.utf8EncodeChar c ↔ c = '\x00' := by
  constructor
  · intro h
    apply utf8EncodeChar_inj
    have hzero : String.utf8EncodeChar '\x00' = [0] := by decide
    have hunit := unit_utf8EncodeChar c
    generalize String.utf8EncodeChar c = u at h hunit
    rw [hzero]
    have hpos : ∀ {b : UInt8}, 0x80 ≤ b.toNat → b ≠ 0 := by
      intro b hb heq
      rw [heq] at hb
      cases hb
    cases hunit with
    | one ha => rw [List.mem_singleton.mp h]
    | two ha ha' hb =>
      simp only [List.mem_cons, List.not_mem_nil, or_false] at h
      rcases h with h | h
      · exact absurd h.symm (hpos (by omega))
      · exact absurd h.symm (hpos hb.1)
    | three ha ha' hb hc =>
      simp only [List.mem_cons, List.not_mem_nil, or_false] at h
      rcases h with h | h | h
      · exact absurd h.symm (hpos (by omega))
      · exact absurd h.symm (hpos hb.1)
      · exact absurd h.symm (hpos hc.1)
    | four ha ha' hb hc hd =>
      simp only [List.mem_cons, List.not_mem_nil, or_false] at h
      rcases h with h | h | h | h
      · exact absurd h.symm (hpos (by omega))
      · exact absurd h.symm (hpos hb.1)
      · exact absurd h.symm (hpos hc.1)
      · exact absurd h.symm (hpos hd.1)
  · intro h
    rw [h]
    decide

theorem zero_mem_encode {text : List Char} : 0 ∈ encode text ↔ '\x00' ∈ text := by
  rw [encode, List.mem_flatMap]
  constructor
  · intro h
    obtain ⟨c, hc, hzero⟩ := h
    rw [← zero_mem_utf8EncodeChar.mp hzero]
    exact hc
  · intro h
    exact ⟨_, h, zero_mem_utf8EncodeChar.mpr rfl⟩

end Tim2Tox.Utf8
