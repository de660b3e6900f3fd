import Tim2Tox.Utf16
import Tim2Tox.Utf8

set_option autoImplicit false

/-!
# Strings of code units

Strings as Dart has them: 16-bit units that need not pair up. Encoding replaces a surrogate without
its other half by U+FFFD.
-/
namespace Tim2Tox.CodeUnits

abbrev Units : Type := List UInt16

def isHigh (u : UInt16) : Bool := 0xD800 ≤ u && u ≤ 0xDBFF
def isLow (u : UInt16) : Bool := 0xDC00 ≤ u && u ≤ 0xDFFF

/-- The unit and the one behind it are the halves of a character. -/
def opensPair (u : UInt16) (rest : Units) : Bool := isHigh u && rest.head?.any isLow

def pairChar (h l : UInt16) : Char :=
  Char.ofNat (0x10000 + (h.toNat - 0xD800) * 0x400 + (l.toNat - 0xDC00))

def unitChar (u : UInt16) : Char :=
  if isHigh u || isLow u then Char.ofNat 0xFFFD else Char.ofNat u.toNat

def chars : Units → List Char
  | h :: l :: rest => if isHigh h && isLow l then pairChar h l :: chars rest else unitChar h :: chars (l :: rest)
  | [u] => [unitChar u]
  | [] => []

def utf8Encode (s : Units) : List UInt8 := Utf8.encode (chars s)

/-- No surrogate is without its other half. -/
def paired : Units → Bool
  | h :: l :: rest =>
    if isHigh h && isLow l then paired rest else !(isHigh h || isLow h) && paired (l :: rest)
  | [u] => !(isHigh u || isLow u)
  | [] => true

def WellFormed (s : Units) : Prop := ∃ cs, s.map UInt16.toNat = Utf16.encode cs

/-! ## Character by character -/

section
variable {h l u : UInt16} {rest : Units}

theorem chars_pair (hh : isHigh h = true) (hl : isLow l = true) :
    chars (h :: l :: rest) = pairChar h l :: chars rest := by
  rw [chars, hh, hl]
  rfl

theorem chars_unit (hu : opensPair u rest = false) : chars (u :: rest) = unitChar u :: chars rest := by
  cases rest with
  | nil => rfl
  | cons l rest =>
    change (isHigh u && isLow l) = false at hu
    rw [chars, hu]
    rfl

theorem paired_pair (hh : isHigh h = true) (hl : isLow l = true) :
    paired (h :: l :: rest) = paired rest := by
  rw [paired, hh, hl]
  rfl

theorem paired_unit (hu : opensPair u rest = false) :
    paired (u :: rest) = (!(isHigh u || isLow u) && paired rest) := by
  cases rest with
  | nil => exact (Bool.and_true _).symm
  | cons l rest =>
    change (isHigh u && isLow l) = false at hu
    rw [paired, hu]
    rfl

/-- A string is read by pairs and single units. -/
theorem units_induct {motive : Units → Prop} (nil : motive [])
    (pair : ∀ h l rest, isHigh h = true → isLow l = true → motive rest → motive (h :: l :: rest))
    (unit : ∀ u rest, opensPair u rest = false → motive rest → motive (u :: rest)) :
    ∀ s : Units, motive s
  | [] => nil
  | [u] => unit u [] (Bool.and_false _) nil
  | h :: l :: rest => by
    by_cases hpair : isHigh h = true ∧ isLow l = true
    · exact pair h l rest hpair.1 hpair.2 (units_induct nil pair unit rest)
    · apply unit h (l :: rest) _ (units_induct nil pair unit (l :: rest))
      change (isHigh h && isLow l) = false
      rw [← Bool.not_eq_true, Bool.and_eq_true]
      exact hpair

end

/-! ## Surrogates -/

theorem isHigh_iff (u : UInt16) : isHigh u = true ↔ Utf16.High u.toNat := by
  rw [isHigh, Bool.and_eq_true, decide_eq_true_eq, decide_eq_true_eq, UInt16.le_iff_toNat_le,
    UInt16.le_iff_toNat_le]
  rfl

theorem isLow_iff (u : UInt16) : isLow u = true ↔ Utf16.Low u.toNat := by
  rw [isLow, Bool.and_eq_true, decide_eq_true_eq, decide_eq_true_eq, UInt16.le_iff_toNat_le,
    UInt16.le_iff_toNat_le]
  rfl

theorem toNat_ofNat {n : ℕ} (h : n < 0xD800 ∨ (0xDFFF < n ∧ n < 0x110000)) :
    (Char.ofNat n).toNat = n := by
  have hvalid : n.isValidChar := h
  rw [Char.ofNat, dif_pos hvalid]
  rfl

theorem units_pairChar {h l : UInt16} (hh : isHigh h = true) (hl : isLow l = true) :
    Utf16.units (pairChar h l) = [h.toNat, l.toNat] := by
  rw [isHigh_iff] at hh
  rw [isLow_iff] at hl
  apply Utf16.units_of_pair hh hl
  have hh' := hh.2
  have hl' := hl.2
  rw [pairChar, toNat_ofNat]
  right
  omega

theorem units_unitChar {u : UInt16} (h : isHigh u = false) (hl : isLow u = false) :
    Utf16.units (unitChar u) = [u.toNat] := by
  have hrange : u.toNat < 0xD800 ∨ (0xDFFF < u.toNat ∧ u.toNat < 0x110000) := by
    have hlt := u.toNat_lt
    rw [← Bool.not_eq_true, isHigh_iff, Utf16.High] at h
    rw [← Bool.not_eq_true, isLow_iff, Utf16.Low] at hl
    omega
  have hchar : (unitChar u).toNat = u.toNat := by
    rw [unitChar, h, hl]
    exact toNat_ofNat hrange
  rw [Utf16.units_of_one, hchar]
  rw [hchar]
  exact u.toNat_lt

theorem wellFormed_of_paired (s : Units) : paired s = true → WellFormed s := by
  intro hpaired
  refine ⟨chars s, ?_⟩
  induction s using units_induct with
  | nil => rfl
  | pair h l rest hh hl ih =>
    rw [paired_pair hh hl] at hpaired
    rw [chars_pair hh hl, Utf16.encode_cons, units_pairChar hh hl, List.map_cons, List.map_cons,
      ih hpaired]
    rfl
  | unit u rest hu ih =>
    rw [paired_unit hu, Bool.and_eq_true, Bool.not_eq_true', Bool.or_eq_false_iff] at hpaired
    rw [chars_unit hu, Utf16.encode_cons, units_unitChar hpaired.1.1 hpaired.1.2, List.map_cons,
      ih hpaired.2]
    rfl

theorem paired_of_wellFormed {s : Units} (h : WellFormed s) : paired s = true := by
  obtain ⟨cs, hcs⟩ := h
  induction cs generalizing s with
  | nil =>
    rw [List.map_eq_nil_iff.mp hcs]
    rfl
  | cons c cs ih =>
    rw [Utf16.encode_cons] at hcs
    have hunits := Utf16.units_unitsOf c
    generalize Utf16.units c = units at hunits hcs
    cases hunits with
    | one hhigh hlow =>
      obtain ⟨u, rest, rfl, hu, hrest⟩ := List.map_eq_cons_iff.mp hcs
      rw [← hu, ← isHigh_iff, Bool.not_eq_true] at hhigh
      rw [← hu, ← isLow_iff, Bool.not_eq_true] at hlow
      have hopens : opensPair u rest = false := by
        rw [opensPair, hhigh]
        rfl
      rw [paired_unit hopens, hhigh, hlow, ih hrest]
      rfl
    | pair hhigh hlow hchar =>
      obtain ⟨u, rest, rfl, hu, hrest⟩ := List.map_eq_cons_iff.mp hcs
      obtain ⟨v, rest, rfl, hv, hrest⟩ := List.map_eq_cons_iff.mp hrest
      rw [← hu, ← isHigh_iff] at hhigh
      rw [← hv, ← isLow_iff] at hlow
      rw [paired_pair hhigh hlow]
      exact ih hrest

theorem wellFormed_iff (s : Units) : WellFormed s ↔ paired s = true :=
  ⟨paired_of_wellFormed, wellFormed_of_paired s⟩

/-! ## Lengths -/

def utf8Length (s : Units) : ℕ := (utf8Encode s).length

/-- The bytes of a unit that stands alone; a surrogate takes those of U+FFFD. -/
def unitSize (u : UInt16) : ℕ := (unitChar u).utf8Size

section
variable {h l u : UInt16} {rest : Units}

theorem utf8Length_nil : utf8Length [] = 0 := rfl

theorem utf8Length_unit (hu : opensPair u rest = false) :
    utf8Length (u :: rest) = unitSize u + utf8Length rest := by
  rw [utf8Length, utf8Encode, chars_unit hu, Utf8.encode_cons, List.length_append,
    String.length_utf8EncodeChar]
  rfl

theorem utf8Length_pair (hh : isHigh h = true) (hl : isLow l = true) :
    utf8Length (h :: l :: rest) = 4 + utf8Length rest := by
  have hsize : (pairChar h l).utf8Size = 4 := by
    rw [isHigh_iff] at hh
    rw [isLow_iff] at hl
    have hh' := hh.2
    have hl' := hl.2
    have hchar : (pairChar h l).toNat = 0x10000 + (h.toNat - 0xD800) * 0x400 + (l.toNat - 0xDC00) :=
      toNat_ofNat (.inr (by omega))
    have hval : 0x10000 ≤ (pairChar h l).val.toNat := by
      change 0x10000 ≤ (pairChar h l).toNat
      omega
    have hnot : ∀ bound : UInt32, bound.toNat ≤ 0xFFFF → ¬ (pairChar h l).val ≤ bound := by
      intro bound hbound hle
      have hnat := UInt32.le_iff_toNat_le.mp hle
      omega
    rw [Char.utf8Size, if_neg (hnot _ (by decide)), if_neg (hnot _ (by decide)), if_neg (hnot _ (by decide))]
  rw [utf8Length, utf8Encode, chars_pair hh hl, Utf8.encode_cons, List.length_append,
    String.length_utf8EncodeChar, hsize]
  rfl

theorem unitSize_high (hh : isHigh h = true) : unitSize h = 3 := by
  rw [unitSize, unitChar, hh, Bool.true_or, if_pos rfl]
  decide

theorem unitSize_pos (u : UInt16) : 0 < unitSize u := Char.utf8Size_pos _

theorem opensPair_take (hu : opensPair u rest = false) (k : ℕ) : opensPair u (rest.take k) = false := by
  cases k with
  | zero => exact Bool.and_false _
  | succ k =>
    cases rest with
    | nil => exact hu
    | cons l rest => exact hu

theorem opensPair_nil (u : UInt16) : opensPair u [] = false := Bool.and_false _

end

/-- One more unit is at least one more byte. -/
theorem utf8Length_take_lt (s : Units) : ∀ k, k < s.length →
    utf8Length (s.take k) < utf8Length (s.take (k + 1)) := by
  induction s using units_induct with
  | nil =>
    intro k hk
    cases hk
  | pair h l rest hh hl ih =>
    intro k hk
    match k, hk with
    | 0, _ =>
      rw [List.take_zero, List.take_succ_cons, List.take_zero, utf8Length_nil,
        utf8Length_unit (opensPair_nil h)]
      exact Nat.lt_of_lt_of_le (unitSize_pos h) (Nat.le_add_right _ _)
    | 1, _ =>
      rw [List.take_succ_cons, List.take_zero, utf8Length_unit (opensPair_nil h), unitSize_high hh,
        List.take_succ_cons, List.take_succ_cons, List.take_zero, utf8Length_pair hh hl]
      exact Nat.lt_succ_self _
    | k + 2, hk =>
      rw [List.take_succ_cons, List.take_succ_cons, List.take_succ_cons, List.take_succ_cons,
        utf8Length_pair hh hl, utf8Length_pair hh hl]
      have hrest := ih k (by
        simp only [List.length_cons] at hk
        omega)
      omega
  | unit u rest hu ih =>
    intro k hk
    cases k with
    | zero =>
      rw [List.take_zero, List.take_succ_cons, List.take_zero, utf8Length_nil,
        utf8Length_unit (opensPair_nil u)]
      exact Nat.lt_of_lt_of_le (unitSize_pos u) (Nat.le_add_right _ _)
    | succ k =>
      rw [List.take_succ_cons, List.take_succ_cons, utf8Length_unit (opensPair_take hu _),
        utf8Length_unit (opensPair_take hu _)]
      have hrest := ih k (Nat.lt_of_succ_lt_succ hk)
      omega

/-- A string joined to one that does not begin in the middle of a character. -/
theorem opensPair_append {u : UInt16} {rest after : Units} (hu : opensPair u rest = false)
    (hafter : after.head?.any isLow = false) : opensPair u (rest ++ after) = false := by
  cases rest with
  | nil =>
    rw [List.nil_append, opensPair, hafter]
    exact Bool.and_false _
  | cons l rest => exact hu

theorem chars_append {s after : Units} (hafter : after.head?.any isLow = false) :
    chars (s ++ after) = chars s ++ chars after := by
  induction s using units_induct with
  | nil => rfl
  | pair h l rest hh hl ih =>
    rw [List.cons_append, List.cons_append, chars_pair hh hl, chars_pair hh hl, ih]
    rfl
  | unit u rest hu ih =>
    rw [List.cons_append, chars_unit (opensPair_append hu hafter), chars_unit hu, ih]
    rfl

theorem paired_append {s after : Units} (hafter : after.head?.any isLow = false) :
    paired (s ++ after) = (paired s && paired after) := by
  induction s using units_induct with
  | nil => rfl
  | pair h l rest hh hl ih =>
    rw [List.cons_append, List.cons_append, paired_pair hh hl, paired_pair hh hl, ih]
  | unit u rest hu ih =>
    rw [List.cons_append, paired_unit (opensPair_append hu hafter), paired_unit hu, ih, Bool.and_assoc]

theorem utf8Length_append {s after : Units} (hafter : after.head?.any isLow = false) :
    utf8Length (s ++ after) = utf8Length s + utf8Length after := by
  rw [utf8Length, utf8Encode, chars_append hafter, Utf8.encode_append, List.length_append]
  rfl

end Tim2Tox.CodeUnits
