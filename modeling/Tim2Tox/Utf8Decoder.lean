import Tim2Tox.Utf8

set_option autoImplicit false

/-!
# Decoding UTF-8

The decoder reads a string character by character. Where the bytes go on with no character it notes
the longest beginning of one as one error and reads on behind it.
-/
namespace Tim2Tox.Utf8

/-- What the first byte of a character says: how many bytes go on, from where to where the first of
    them is, and the bits that it gives itself. -/
structure Lead where
  more : ℕ
  low : ℕ
  high : ℕ
  bits : ℕ

def lead (a : ℕ) : Option Lead :=
  if a ≤ 0x7F then some ⟨0, 0x80, 0xBF, a⟩
  else if 0xC2 ≤ a ∧ a ≤ 0xDF then some ⟨1, 0x80, 0xBF, a - 0xC0⟩
  else if 0xE0 ≤ a ∧ a ≤ 0xEF then
    some ⟨2, if a = 0xE0 then 0xA0 else 0x80, if a = 0xED then 0x9F else 0xBF, a - 0xE0⟩
  else if 0xF0 ≤ a ∧ a ≤ 0xF4 then
    some ⟨3, if a = 0xF0 then 0x90 else 0x80, if a = 0xF4 then 0x8F else 0xBF, a - 0xF0⟩
  else none

/-- Reads the bytes that go on, up to the first that does not. -/
def goOn : ℕ → ℕ → ℕ → ℕ → List UInt8 → Option Char × List UInt8
  | 0, _, _, value, rest => (some (Char.ofNat value), rest)
  | _ + 1, _, _, _, [] => (none, [])
  | more + 1, low, high, value, b :: rest =>
    if low ≤ b.toNat ∧ b.toNat ≤ high then goOn more 0x80 0xBF (value * 64 + (b.toNat - 0x80)) rest
    else (none, b :: rest)

/-- One character, or none, and the rest. -/
def next (a : UInt8) (rest : List UInt8) : Option Char × List UInt8 :=
  match lead a.toNat with
  | some l => goOn l.more l.low l.high l.bits rest
  | none => (none, rest)

def scanFuel : ℕ → List UInt8 → List (Option Char)
  | 0, _ => []
  | _ + 1, [] => []
  | fuel + 1, a :: rest => (next a rest).1 :: scanFuel fuel (next a rest).2

def scan (bytes : List UInt8) : List (Option Char) := scanFuel bytes.length bytes

/-- Strictly: none where there is an error. -/
def decode (bytes : List UInt8) : Option (List Char) := (scan bytes).mapM id

/-- Leniently: every error is a replacement character. -/
def decodeLossy (bytes : List UInt8) : List Char := (scan bytes).map (·.getD (Char.ofNat 0xFFFD))

/-! ## One character -/

theorem goOn_length (more : ℕ) : ∀ (low high value : ℕ) (rest : List UInt8),
    (goOn more low high value rest).2.length ≤ rest.length := by
  induction more with
  | zero => exact fun _ _ _ rest => Nat.le_refl _
  | succ more ih =>
    intro low high value rest
    cases rest with
    | nil => exact Nat.le_refl _
    | cons b rest =>
      rw [goOn]
      split_ifs
      · have hrest := ih 0x80 0xBF (value * 64 + (b.toNat - 0x80)) rest
        rw [List.length_cons]
        omega
      · exact Nat.le_refl _

theorem next_length (a : UInt8) (rest : List UInt8) : (next a rest).2.length ≤ rest.length := by
  rw [next]
  cases lead a.toNat with
  | none => exact Nat.le_refl _
  | some l => exact goOn_length l.more l.low l.high l.bits rest

theorem goOn_cons {more low high value : ℕ} {b : UInt8} {rest : List UInt8}
    (h : low ≤ b.toNat ∧ b.toNat ≤ high) : goOn (more + 1) low high value (b :: rest) =
      goOn more 0x80 0xBF (value * 64 + (b.toNat - 0x80)) rest := by
  rw [goOn, if_pos h]

/-- The bytes of a character are read as it. -/
theorem next_char (c : Char) (rest : List UInt8) : ∃ a tail, String.utf8EncodeChar c = a :: tail ∧
    next a (tail ++ rest) = (some c, rest) := by
  have hrange : c.val.toNat < 0xD800 ∨ (0xDFFF < c.val.toNat ∧ c.val.toNat < 0x110000) := c.valid
  have hchar : ∀ n, n = c.val.toNat → Char.ofNat n = c := by
    rintro n rfl
    exact Char.ofNat_toNat c
  unfold String.utf8EncodeChar
  dsimp only
  split_ifs with hone htwo hthree
  · refine ⟨_, _, rfl, ?_⟩
    rw [next, toNat_ofNat_small (by omega), lead, if_pos hone]
    exact congrArg (fun d => (some d, rest)) (hchar _ rfl)
  · refine ⟨_, _, rfl, ?_⟩
    rw [next, toNat_ofNat_small (by omega), lead, if_neg (by omega), if_pos (by omega)]
    dsimp only
    rw [List.singleton_append, goOn_cons (by rw [toNat_ofNat_small (by omega)]; omega),
      toNat_ofNat_small (by omega)]
    exact congrArg (fun d => (some d, rest)) (hchar _ (by omega))
  · refine ⟨_, _, rfl, ?_⟩
    rw [next, toNat_ofNat_small (by omega), lead, if_neg (by omega), if_neg (by omega),
      if_pos (by omega)]
    dsimp only
    rw [List.cons_append, List.singleton_append,
      goOn_cons (by rw [toNat_ofNat_small (by omega)]; split_ifs <;> omega),
      toNat_ofNat_small (by omega), goOn_cons (by rw [toNat_ofNat_small (by omega)]; omega),
      toNat_ofNat_small (by omega)]
    exact congrArg (fun d => (some d, rest)) (hchar _ (by omega))
  · refine ⟨_, _, rfl, ?_⟩
    rw [next, toNat_ofNat_small (by omega), lead, if_neg (by omega), if_neg (by omega),
      if_neg (by omega), if_pos (by omega)]
    dsimp only
    rw [List.cons_append, List.cons_append, List.singleton_append,
      goOn_cons (by rw [toNat_ofNat_small (by omega)]; split_ifs <;> omega),
      toNat_ofNat_small (by omega), goOn_cons (by rw [toNat_ofNat_small (by omega)]; omega),
      toNat_ofNat_small (by omega), goOn_cons (by rw [toNat_ofNat_small (by omega)]; omega),
      toNat_ofNat_small (by omega)]
    exact congrArg (fun d => (some d, rest)) (hchar _ (by omega))

theorem goOn_some {more low high value : ℕ} {rest rest' : List UInt8} {c : Char}
    (h : goOn (more + 1) low high value rest = (some c, rest')) :
    ∃ b tail, rest = b :: tail ∧ (low ≤ b.toNat ∧ b.toNat ≤ high) ∧
      goOn more 0x80 0xBF (value * 64 + (b.toNat - 0x80)) tail = (some c, rest') := by
  cases rest with
  | nil => cases h
  | cons b tail =>
    rw [goOn] at h
    split_ifs at h with hb
    · exact ⟨b, tail, rfl, hb, h⟩
    · cases h

theorem goOn_zero {low high value : ℕ} {rest rest' : List UInt8} {c : Char}
    (h : goOn 0 low high value rest = (some c, rest')) : rest = rest' := (Prod.mk.inj h).2

/-- What is read as a character are the bytes of one. -/
theorem next_some {a : UInt8} {rest rest' : List UInt8} {c : Char} (h : next a rest = (some c, rest')) :
    ∃ tail, Unit (a :: tail) ∧ rest = tail ++ rest' := by
  rw [next, lead] at h
  by_cases hone : a.toNat ≤ 0x7F
  · rw [if_pos hone] at h
    exact ⟨[], Unit.one hone, goOn_zero h⟩
  rw [if_neg hone] at h
  by_cases htwo : 0xC2 ≤ a.toNat ∧ a.toNat ≤ 0xDF
  · rw [if_pos htwo] at h
    dsimp only at h
    obtain ⟨b, r, rfl, hb, h⟩ := goOn_some h
    exact ⟨[b], Unit.two htwo.1 htwo.2 hb, congrArg (b :: ·) (goOn_zero h)⟩
  rw [if_neg htwo] at h
  by_cases hthree : 0xE0 ≤ a.toNat ∧ a.toNat ≤ 0xEF
  · rw [if_pos hthree] at h
    dsimp only at h
    obtain ⟨b, r, rfl, hb, h⟩ := goOn_some h
    obtain ⟨d, r, rfl, hd, h⟩ := goOn_some h
    have hlow : 0x80 ≤ b.toNat ∧ (a.toNat = 0xE0 → 0xA0 ≤ b.toNat) := by
      have := hb.1
      split_ifs at this <;> omega
    have hhigh : b.toNat ≤ 0xBF ∧ (a.toNat = 0xED → b.toNat ≤ 0x9F) := by
      have := hb.2
      split_ifs at this <;> omega
    exact ⟨[b, d], Unit.three hthree.1 hthree.2 ⟨hlow.1, hhigh.1⟩ hd hlow.2 hhigh.2,
      congrArg (fun r => b :: d :: r) (goOn_zero h)⟩
  rw [if_neg hthree] at h
  by_cases hfour : 0xF0 ≤ a.toNat ∧ a.toNat ≤ 0xF4
  · rw [if_pos hfour] at h
    dsimp only at h
    obtain ⟨b, r, rfl, hb, h⟩ := goOn_some h
    obtain ⟨d, r, rfl, hd, h⟩ := goOn_some h
    obtain ⟨e, r, rfl, he, h⟩ := goOn_some h
    have hlow : 0x80 ≤ b.toNat ∧ (a.toNat = 0xF0 → 0x90 ≤ b.toNat) := by
      have := hb.1
      split_ifs at this <;> omega
    have hhigh : b.toNat ≤ 0xBF ∧ (a.toNat = 0xF4 → b.toNat ≤ 0x8F) := by
      have := hb.2
      split_ifs at this <;> omega
    exact ⟨[b, d, e], Unit.four hfour.1 hfour.2 ⟨hlow.1, hhigh.1⟩ hd he hlow.2 hhigh.2,
      congrArg (fun r => b :: d :: e :: r) (goOn_zero h)⟩
  rw [if_neg hfour] at h
  cases h

/-! ## Whole strings -/

theorem scanFuel_eq : ∀ (fuel fuel' : ℕ) (bytes : List UInt8), bytes.length ≤ fuel →
    bytes.length ≤ fuel' → scanFuel fuel bytes = scanFuel fuel' bytes := by
  intro fuel
  induction fuel with
  | zero =>
    intro fuel' bytes hfuel _
    rw [List.length_eq_zero_iff.mp (Nat.le_zero.mp hfuel)]
    cases fuel' <;> rfl
  | succ fuel ih =>
    intro fuel' bytes hfuel hfuel'
    cases bytes with
    | nil => cases fuel' <;> rfl
    | cons a rest =>
      rw [List.length_cons] at hfuel hfuel'
      have hrest := next_length a rest
      cases fuel' with
      | zero => omega
      | succ fuel' =>
        rw [scanFuel, scanFuel, ih fuel' _ (by omega) (by omega)]

theorem scan_cons (a : UInt8) (rest : List UInt8) :
    scan (a :: rest) = (next a rest).1 :: scan (next a rest).2 := by
  rw [scan, List.length_cons, scanFuel, scan,
    scanFuel_eq rest.length _ _ (next_length a rest) (Nat.le_refl _)]

theorem scan_encode_append (cs : List Char) (rest : List UInt8) :
    scan (encode cs ++ rest) = cs.map some ++ scan rest := by
  induction cs with
  | nil => rfl
  | cons c cs ih =>
    obtain ⟨a, tail, hchar, hnext⟩ := next_char c (encode cs ++ rest)
    rw [encode_cons, List.append_assoc, hchar, List.cons_append, scan_cons, hnext, ih]
    rfl

theorem scan_encode (cs : List Char) : scan (encode cs) = cs.map some := by
  rw [← List.append_nil (encode cs), scan_encode_append]
  exact List.append_nil _

theorem decode_encode (cs : List Char) : decode (encode cs) = some cs := by
  rw [decode, scan_encode]
  induction cs with
  | nil => rfl
  | cons c cs ih =>
    rw [List.map_cons, List.mapM_cons, ih]
    rfl

theorem encode_of_scan : ∀ (fuel : ℕ) (bytes : List UInt8), bytes.length ≤ fuel → ∀ cs : List Char,
    scan bytes = cs.map some → bytes = encode cs := by
  intro fuel
  induction fuel with
  | zero =>
    intro bytes hfuel cs hscan
    rw [List.length_eq_zero_iff.mp (Nat.le_zero.mp hfuel)] at hscan ⊢
    rw [List.map_eq_nil_iff.mp hscan.symm]
    rfl
  | succ fuel ih =>
    intro bytes hfuel cs hscan
    cases bytes with
    | nil =>
      rw [List.map_eq_nil_iff.mp hscan.symm]
      rfl
    | cons a rest =>
      cases cs with
      | nil => cases (scan_cons a rest).symm.trans hscan
      | cons c cs =>
        rw [scan_cons, List.map_cons, List.cons.injEq] at hscan
        have hlength := next_length a rest
        rw [List.length_cons] at hfuel
        have hrest := ih (next a rest).2 (by omega) cs hscan.2
        obtain ⟨tail, hunit, htail⟩ := next_some (Prod.ext hscan.1 rfl : next a rest = (some c, _))
        obtain ⟨d, hd⟩ := hunit.encoded
        obtain ⟨a', tail', hchar, hnext⟩ := next_char d (next a rest).2
        rw [hd, List.cons.injEq] at hchar
        rw [← hchar.1, ← hchar.2, ← htail] at hnext
        have hcd : c = d := Option.some.inj (hscan.1.symm.trans (congrArg Prod.fst hnext))
        rw [encode_cons, hcd, hd, ← hrest, List.cons_append, ← htail]

theorem mapM_id_some {os : List (Option Char)} {cs : List Char} (h : os.mapM id = some cs) :
    os = cs.map some := by
  induction os generalizing cs with
  | nil =>
    cases h
    rfl
  | cons o os ih =>
    rw [List.mapM_cons] at h
    cases o with
    | none => cases h
    | some c =>
      cases hrest : os.mapM id with
      | none =>
        rw [hrest] at h
        cases h
      | some ds =>
        rw [hrest] at h
        cases h
        rw [List.map_cons, ih hrest]

/-- Only the encodings of texts are decoded. -/
theorem encode_of_decode {bytes : List UInt8} {cs : List Char} (h : decode bytes = some cs) :
    bytes = encode cs :=
  encode_of_scan _ bytes (Nat.le_refl _) cs (mapM_id_some h)

theorem decode_eq_none {bytes : List UInt8} (h : ¬ WellFormed bytes) : decode bytes = none := by
  cases hdecode : decode bytes with
  | none => rfl
  | some cs => exact absurd ⟨cs, encode_of_decode hdecode⟩ h

theorem decodeLossy_encode_append (cs : List Char) (rest : List UInt8) :
    decodeLossy (encode cs ++ rest) = cs ++ decodeLossy rest := by
  rw [decodeLossy, scan_encode_append, List.map_append, List.map_map]
  exact congrArg (· ++ _) (List.map_id cs)

theorem decodeLossy_encode (cs : List Char) : decodeLossy (encode cs) = cs := by
  rw [← List.append_nil (encode cs), decodeLossy_encode_append]
  exact List.append_nil _

end Tim2Tox.Utf8
