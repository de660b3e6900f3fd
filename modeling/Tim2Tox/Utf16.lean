import Mathlib.Algebra.Ring.Nat
import Mathlib.Data.Nat.Notation
import Mathlib.Tactic.Common

set_option autoImplicit false

/-!
# UTF-16 code units

The units of a character: one, or a high and a low surrogate. A list of units is the encoding of at
most one list of characters.
-/
namespace Tim2Tox.Utf16

def units (c : Char) : List ℕ :=
  if c.toNat < 0x10000 then [c.toNat]
  else [0xD800 + (c.toNat - 0x10000) / 0x400, 0xDC00 + (c.toNat - 0x10000) % 0x400]

def encode (cs : List Char) : List ℕ := cs.flatMap units

def High (n : ℕ) : Prop := 0xD800 ≤ n ∧ n ≤ 0xDBFF
def Low (n : ℕ) : Prop := 0xDC00 ≤ n ∧ n ≤ 0xDFFF

instance (n : ℕ) : Decidable (High n) := inferInstanceAs (Decidable (_ ∧ _))
instance (n : ℕ) : Decidable (Low n) := inferInstanceAs (Decidable (_ ∧ _))

theorem encode_nil : encode [] = [] := rfl

theorem encode_cons (c : Char) (cs : List Char) : encode (c :: cs) = units c ++ encode cs :=
  List.flatMap_cons

theorem encode_append (cs ds : List Char) : encode (cs ++ ds) = encode cs ++ encode ds :=
  List.flatMap_append

theorem char_range (c : Char) : c.toNat < 0xD800 ∨ (0xDFFF < c.toNat ∧ c.toNat < 0x110000) :=
  c.valid

theorem char_ext {c d : Char} (h : c.toNat = d.toNat) : c = d := by
  apply Char.ext
  exact UInt32.toNat_inj.mp h

/-- The units of a character, by their number. -/
inductive UnitsOf (c : Char) : List ℕ → Prop where
  | one (hhigh : ¬ High c.toNat) (hlow : ¬ Low c.toNat) : UnitsOf c [c.toNat]
  | pair {h l : ℕ} (hhigh : High h) (hlow : Low l)
      (hchar : c.toNat = 0x10000 + (h - 0xD800) * 0x400 + (l - 0xDC00)) : UnitsOf c [h, l]

theorem units_unitsOf (c : Char) : UnitsOf c (units c) := by
  have hrange := char_range c
  unfold units
  split_ifs with hsmall
  · exact UnitsOf.one (fun h => by have := h.1; have := h.2; omega)
      (fun h => by have := h.1; have := h.2; omega)
  · refine UnitsOf.pair ⟨?_, ?_⟩ ⟨?_, ?_⟩ ?_
    all_goals omega

theorem units_of_pair {c : Char} {h l : ℕ} (hhigh : High h) (hlow : Low l)
    (hchar : c.toNat = 0x10000 + (h - 0xD800) * 0x400 + (l - 0xDC00)) : units c = [h, l] := by
  obtain ⟨hh, hh'⟩ := hhigh
  obtain ⟨hl, hl'⟩ := hlow
  have hfirst : 0xD800 + (c.toNat - 0x10000) / 0x400 = h := by omega
  have hsecond : 0xDC00 + (c.toNat - 0x10000) % 0x400 = l := by omega
  rw [units, if_neg (by omega), hfirst, hsecond]

theorem units_append_inj {c d : Char} {x y : List ℕ} (h : units c ++ x = units d ++ y) :
    c = d ∧ x = y := by
  have hc := units_unitsOf c
  have hd := units_unitsOf d
  generalize units c = u at hc h
  generalize units d = v at hd h
  cases hc with
  | one hhigh hlow =>
    cases hd with
    | one =>
      rw [List.singleton_append, List.singleton_append, List.cons.injEq] at h
      exact ⟨char_ext h.1, h.2⟩
    | pair hhigh' =>
      rw [List.singleton_append, List.cons_append, List.cons.injEq] at h
      exact absurd (h.1 ▸ hhigh') hhigh
  | pair hhigh hlow hchar =>
    cases hd with
    | one hhigh' =>
      rw [List.singleton_append, List.cons_append, List.cons.injEq] at h
      exact absurd (h.1 ▸ hhigh) hhigh'
    | pair hhigh' hlow' hchar' =>
      simp only [List.cons_append, List.nil_append, List.cons.injEq] at h
      obtain ⟨rfl, rfl, hrest⟩ := h
      exact ⟨char_ext (hchar.trans hchar'.symm), hrest⟩

theorem units_ne_nil (c : Char) : units c ≠ [] := by
  unfold units
  split_ifs <;> exact List.cons_ne_nil _ _

/-- A text whose units begin with those of a character begins with it. -/
theorem encode_split {c : Char} {us : List ℕ} {ds : List Char} (h : units c ++ us = encode ds) :
    ∃ ds', ds = c :: ds' ∧ us = encode ds' := by
  cases ds with
  | nil => exact absurd (List.append_eq_nil_iff.mp h).1 (units_ne_nil c)
  | cons d ds =>
    rw [encode_cons] at h
    obtain ⟨rfl, rfl⟩ := units_append_inj h
    exact ⟨ds, rfl, rfl⟩

theorem encode_inj : ∀ {cs ds : List Char}, encode cs = encode ds → cs = ds := by
  intro cs
  induction cs with
  | nil =>
    intro ds h
    cases ds with
    | nil => rfl
    | cons d ds =>
      rw [encode_cons, encode_nil] at h
      exact absurd (List.append_eq_nil_iff.mp h.symm).1 (units_ne_nil d)
  | cons c cs ih =>
    intro ds h
    cases ds with
    | nil =>
      rw [encode_cons, encode_nil] at h
      exact absurd (List.append_eq_nil_iff.mp h).1 (units_ne_nil c)
    | cons d ds =>
      rw [encode_cons, encode_cons] at h
      obtain ⟨rfl, hrest⟩ := units_append_inj h
      rw [ih hrest]

/-- A text does not begin with a low surrogate, and one follows a high one. -/
theorem encode_head {n : ℕ} {us : List ℕ} {ds : List Char} (h : n :: us = encode ds) :
    ¬ Low n ∧ (High n → ∃ l us', us = l :: us' ∧ Low l) := by
  cases ds with
  | nil => cases h
  | cons d ds =>
    rw [encode_cons] at h
    have hd := units_unitsOf d
    generalize units d = v at hd h
    cases hd with
    | one hhigh hlow =>
      rw [List.singleton_append, List.cons.injEq] at h
      rw [h.1]
      exact ⟨hlow, fun hn => absurd hn hhigh⟩
    | @pair x l hhigh hlow =>
      simp only [List.cons_append, List.nil_append, List.cons.injEq] at h
      have hle := hhigh.2
      rw [h.1]
      exact ⟨fun hx => by have := hx.1; omega, fun _ => ⟨l, _, h.2, hlow⟩⟩

theorem units_of_one {c : Char} (h : c.toNat < 0x10000) : units c = [c.toNat] := if_pos h

end Tim2Tox.Utf16
