import Tim2Tox.CodeUnits

set_option autoImplicit false

/-!
# File names for tox

How a name that is too long is cut, by a binary search over its code units for a number of bytes.
-/
namespace Tim2Tox.TruncatedNames
open CodeUnits

/-! ## Searching -/

/-- The loop `while (lo < hi)` over the middle rounded up. -/
def search (fits : ℕ → Bool) (lo hi : ℕ) : ℕ :=
  if lo < hi then
    if fits ((lo + hi + 1) / 2) then search fits ((lo + hi + 1) / 2) hi
    else search fits lo ((lo + hi + 1) / 2 - 1)
  else lo
  termination_by hi - lo

/-- The last position that fits, where those that fit come first. -/
theorem search_spec {fits : ℕ → Bool} {top : ℕ}
    (hfirst : ∀ i j, i ≤ j → j ≤ top → fits j = true → fits i = true) (lo hi : ℕ)
    (hle : lo ≤ hi) (hlo : fits lo = true) (hhi : hi ≤ top) (hbeyond : ∀ j, hi < j → j ≤ top → fits j = false) :
    search fits lo hi ≤ top ∧ fits (search fits lo hi) = true ∧
      ∀ j, search fits lo hi < j → j ≤ top → fits j = false := by
  rw [search]
  split_ifs with hlt hmiddle
  · exact search_spec hfirst _ hi (by omega) hmiddle hhi hbeyond
  · apply search_spec hfirst lo _ (by omega) hlo (by omega)
    intro j hj htop
    rw [← Bool.not_eq_true]
    intro hfits
    exact hmiddle (hfirst _ j (by omega) htop hfits)
  · have heq : lo = hi := by omega
    rw [heq] at hlo ⊢
    exact ⟨hhi, hlo, hbeyond⟩
  termination_by hi - lo

/-! ## ffi_chat_service.dart -/

/-- What is used of package:path. -/
structure Path where
  extension : Units → Units
  basenameWithoutExtension : Units → Units

/-- The longest front of the base whose encoding has at most so many bytes. -/
def longestFront (base : Units) (budget : ℤ) : ℕ :=
  search (fun mid => decide ((utf8Length (base.take mid) : ℤ) ≤ budget)) 0 base.length

def truncateFileNameForTox (p : Path) (name : Units) (maxBytes : ℤ) : Units :=
  if (utf8Length name : ℤ) ≤ maxBytes then name
  else
    let ext := p.extension name
    let base := p.basenameWithoutExtension name
    let baseBudget := maxBytes - utf8Length ext
    if baseBudget ≤ 0 then base.take (longestFront base maxBytes)
    else base.take (longestFront base baseBudget) ++ ext

/-! ## What is claimed -/

/-- What is documented of package:path for a name without separators. -/
structure Path.Splits (p : Path) (name : Units) : Prop where
  whole : p.basenameWithoutExtension name ++ p.extension name = name
  dot : p.extension name = [] ∨ (p.extension name).head? = some 46

/-- The kept front of the base is the longest that is well-formed and fits with what follows it. -/
def Longest (base after : Units) (maxBytes : ℤ) (kept : Units) : Prop :=
  kept <+: base ∧ ∀ longer, longer <+: base → WellFormed (longer ++ after) →
    (utf8Length (longer ++ after) : ℤ) ≤ maxBytes → longer.length ≤ kept.length

structure Truncated (p : Path) (name : Units) (maxBytes : ℤ) (out : Units) : Prop where
  wellFormed : WellFormed out
  short : (utf8Length out : ℤ) ≤ maxBytes
  unchanged : (utf8Length name : ℤ) ≤ maxBytes → out = name
  extension : maxBytes < utf8Length name → (utf8Length (p.extension name) : ℤ) ≤ maxBytes →
    ∃ kept, out = kept ++ p.extension name ∧
      Longest (p.basenameWithoutExtension name) (p.extension name) maxBytes kept
  base : maxBytes < utf8Length (p.extension name) → maxBytes < utf8Length name →
    Longest (p.basenameWithoutExtension name) [] maxBytes out

/-- Character by character, no surrogate without its other half fits in the budget, and a character
    of two units that does not fit does not find just three bytes left. -/
def cutsClean : Units → ℕ → Bool
  | h :: l :: rest, budget =>
    if isHigh h && isLow l then if 4 ≤ budget then cutsClean rest (budget - 4) else budget != 3
    else if unitSize h ≤ budget then
      !(isHigh h || isLow h) && cutsClean (l :: rest) (budget - unitSize h)
    else true
  | [u], budget => if unitSize u ≤ budget then !(isHigh u || isLow u) else true
  | [], _ => true

/-- When the name is cut as claimed. -/
def CutsWell (p : Path) (name : Units) (maxBytes : ℤ) : Prop :=
  let ext := p.extension name
  let base := p.basenameWithoutExtension name
  if (utf8Length name : ℤ) ≤ maxBytes then WellFormed name
  else if (utf8Length ext : ℤ) < maxBytes then
    WellFormed ext ∧ cutsClean base (maxBytes - utf8Length ext).toNat = true
  else if (utf8Length ext : ℤ) = maxBytes then WellFormed ext ∧ ext <+: base
  else 0 ≤ maxBytes ∧ cutsClean base maxBytes.toNat = true

section
variable {h l u : UInt16} {rest : Units} {budget : ℕ}

theorem cutsClean_pair (hh : isHigh h = true) (hl : isLow l = true) :
    cutsClean (h :: l :: rest) budget =
      if 4 ≤ budget then cutsClean rest (budget - 4) else budget != 3 := by
  rw [cutsClean, hh, hl]
  rfl

theorem cutsClean_unit (hu : opensPair u rest = false) : cutsClean (u :: rest) budget =
    if unitSize u ≤ budget then !(isHigh u || isLow u) && cutsClean rest (budget - unitSize u)
    else true := by
  cases rest with
  | nil =>
    rw [cutsClean, cutsClean, Bool.and_true]
  | cons l rest =>
    change (isHigh u && isLow l) = false at hu
    rw [cutsClean, hu]
    rfl

end

/-! ## Where the name is cut -/

/-- The front ends at the last unit within the budget. -/
structure EndsAt (base : Units) (budget : ℕ) (k : ℕ) : Prop where
  le : k ≤ base.length
  fits : utf8Length (base.take k) ≤ budget
  beyond : ∀ j, k < j → j ≤ base.length → budget < utf8Length (base.take j)

/-- What is left behind the first character. -/
theorem EndsAt.rest (before : Units) {rest : Units} {budget k size : ℕ}
    (hsize : ∀ j, utf8Length ((before ++ rest).take (before.length + j)) = size + utf8Length (rest.take j))
    (h : EndsAt (before ++ rest) budget (before.length + k)) : EndsAt rest (budget - size) k := by
  obtain ⟨hle, hfits, hbeyond⟩ := h
  rw [List.length_append] at hle
  rw [hsize] at hfits
  refine ⟨by omega, by omega, ?_⟩
  intro j hj hjle
  have hmore := hbeyond (before.length + j) (by omega) (by
    rw [List.length_append]
    omega)
  rw [hsize] at hmore
  omega

theorem paired_take {base : Units} : ∀ {budget k : ℕ}, EndsAt base budget k →
    paired (base.take k) = cutsClean base budget := by
  induction base using units_induct with
  | nil =>
    intro budget k h
    rw [List.take_nil]
    rfl
  | pair h l rest hh hl ih =>
    intro budget k hends
    have htwo : ∀ j, utf8Length ((h :: l :: rest).take (2 + j)) = 4 + utf8Length (rest.take j) := by
      intro j
      rw [Nat.add_comm, List.take_succ_cons, List.take_succ_cons, utf8Length_pair hh hl]
    have hone : utf8Length ((h :: l :: rest).take 1) = 3 := by
      rw [List.take_succ_cons, List.take_zero, utf8Length_unit (opensPair_nil h), unitSize_high hh]
      rfl
    rw [cutsClean_pair hh hl]
    match k, hends with
    | 0, hends =>
      have hsmall := hends.beyond 1 (by decide) (by simp)
      rw [hone] at hsmall
      rw [if_neg (by omega), List.take_zero]
      have hne : budget ≠ 3 := by omega
      exact (bne_iff_ne.mpr hne).symm
    | 1, hends =>
      have hfits := hends.fits
      have hsmall := hends.beyond 2 (by decide) (by simp)
      rw [hone] at hfits
      rw [htwo 0] at hsmall
      have hbudget : budget = 3 := by
        have hzero : utf8Length (rest.take 0) = 0 := rfl
        omega
      rw [hbudget, List.take_succ_cons, List.take_zero, paired_unit (opensPair_nil h), hh]
      rfl
    | k + 2, hends =>
      have hfits := hends.fits
      rw [Nat.add_comm, htwo] at hfits
      rw [if_pos (by omega), List.take_succ_cons, List.take_succ_cons, paired_pair hh hl]
      apply ih
      rw [Nat.add_comm] at hends
      exact EndsAt.rest [h, l] htwo hends
  | unit u rest hu ih =>
    intro budget k hends
    have hfirst : ∀ j, utf8Length ((u :: rest).take (1 + j)) = unitSize u + utf8Length (rest.take j) := by
      intro j
      rw [Nat.add_comm, List.take_succ_cons, utf8Length_unit (opensPair_take hu j)]
    rw [cutsClean_unit hu]
    cases k with
    | zero =>
      have hsmall := hends.beyond 1 (by decide) (by simp)
      rw [hfirst 0] at hsmall
      have hzero : utf8Length (rest.take 0) = 0 := rfl
      rw [if_neg (by omega), List.take_zero]
      rfl
    | succ k =>
      have hfits := hends.fits
      rw [Nat.add_comm, hfirst] at hfits
      rw [if_pos (by omega), List.take_succ_cons, paired_unit (opensPair_take hu k)]
      rw [Nat.add_comm] at hends
      rw [ih (EndsAt.rest [u] hfirst hends)]

theorem utf8Length_take_mono (base : Units) {i j : ℕ} (hij : i ≤ j) (hj : j ≤ base.length) :
    utf8Length (base.take i) ≤ utf8Length (base.take j) := by
  induction j, hij using Nat.le_induction with
  | base => exact Nat.le_refl _
  | succ j hij ih => exact Nat.le_trans (ih (by omega)) (Nat.le_of_lt (utf8Length_take_lt base j (by omega)))

theorem longestFront_endsAt (base : Units) {budget : ℤ} (h : 0 ≤ budget) :
    EndsAt base budget.toNat (longestFront base budget) := by
  have hfirst : ∀ i j, i ≤ j → j ≤ base.length →
      decide ((utf8Length (base.take j) : ℤ) ≤ budget) = true →
      decide ((utf8Length (base.take i) : ℤ) ≤ budget) = true := by
    intro i j hij hj hfits
    have hmono := utf8Length_take_mono base hij hj
    rw [decide_eq_true_eq] at hfits ⊢
    omega
  have hzero : decide ((utf8Length (base.take 0) : ℤ) ≤ budget) = true := decide_eq_true h
  obtain ⟨hle, hfits, hbeyond⟩ := search_spec hfirst 0 base.length (Nat.zero_le _) hzero (Nat.le_refl _)
    fun j hj hle => absurd hle (Nat.not_le_of_lt hj)
  refine ⟨hle, ?_, ?_⟩
  · have hfits' := of_decide_eq_true hfits
    change ((utf8Length (base.take (longestFront base budget)) : ℕ) : ℤ) ≤ budget at hfits'
    omega
  · intro j hj hjle
    have hnot := of_decide_eq_false (hbeyond j hj hjle)
    omega

/-! ## What the cut keeps -/

section
variable {base after : Units} {k : ℕ} {maxBytes : ℤ}

/-- No longer front fits before what follows it. -/
theorem EndsAt.longest (hafter : after.head?.any isLow = false)
    (h : EndsAt base (maxBytes - utf8Length after).toNat k) (hroom : (utf8Length after : ℤ) ≤ maxBytes) :
    Longest base after maxBytes (base.take k) := by
  refine ⟨List.take_prefix k base, ?_⟩
  intro longer hprefix hformed hfits
  rw [List.length_take, Nat.min_eq_left h.le]
  by_contra hlong
  have hmore := h.beyond longer.length (by omega) hprefix.length_le
  rw [← List.prefix_iff_eq_take.mp hprefix] at hmore
  rw [utf8Length_append hafter] at hfits
  omega

theorem EndsAt.short (hafter : after.head?.any isLow = false)
    (h : EndsAt base (maxBytes - utf8Length after).toNat k) (hroom : (utf8Length after : ℤ) ≤ maxBytes) :
    (utf8Length (base.take k ++ after) : ℤ) ≤ maxBytes := by
  have hfits := h.fits
  rw [utf8Length_append hafter]
  omega

theorem wellFormed_append (hafter : after.head?.any isLow = false) :
    WellFormed (base ++ after) ↔ paired base = true ∧ WellFormed after := by
  rw [wellFormed_iff, wellFormed_iff, paired_append hafter, Bool.and_eq_true]

/-- A front that takes all of the budget is where the search ends. -/
theorem EndsAt.of_prefix {budget : ℕ} (hends : EndsAt base budget k) (hfront : after <+: base)
    (hall : utf8Length after = budget) : base.take k = after := by
  have heq := List.prefix_iff_eq_take.mp hfront
  have hle := hfront.length_le
  have hsame : k = after.length := by
    by_contra hne
    cases Nat.lt_or_gt_of_ne hne with
    | inl hlt =>
      have hmore := hends.beyond after.length hlt hle
      rw [← heq] at hmore
      omega
    | inr hgt =>
      have hnext := utf8Length_take_lt base after.length (by
        have := hends.le
        omega)
      have hmono := utf8Length_take_mono base (show after.length + 1 ≤ k from hgt) hends.le
      have hfits := hends.fits
      rw [← heq] at hnext
      omega
  rw [hsame, ← heq]

end

theorem Path.Splits.notLow {p : Path} {name : Units} (h : p.Splits name) :
    (p.extension name).head?.any isLow = false := by
  cases h.dot with
  | inl hnone =>
    rw [hnone]
    rfl
  | inr hdot =>
    rw [hdot]
    decide

theorem eq_nil_of_utf8Length {s : Units} (h : utf8Length s = 0) : s = [] := by
  by_contra hne
  have hpos := List.length_pos_iff.mpr hne
  have hfirst := utf8Length_take_lt s 0 hpos
  have hmono := utf8Length_take_mono s (show 0 + 1 ≤ s.length from hpos) (Nat.le_refl _)
  rw [List.take_length] at hmono
  omega

section
variable {p : Path} {name : Units} {maxBytes : ℤ} (h : p.Splits name)
  (hlong : maxBytes < utf8Length name)
include h hlong

theorem kept_extension (hroom : (utf8Length (p.extension name) : ℤ) < maxBytes) :
    Truncated p name maxBytes ((p.basenameWithoutExtension name).take
        (longestFront (p.basenameWithoutExtension name) (maxBytes - utf8Length (p.extension name))) ++
          p.extension name) ↔
      WellFormed (p.extension name) ∧ cutsClean (p.basenameWithoutExtension name)
        (maxBytes - utf8Length (p.extension name)).toNat = true := by
  have hbudget : 0 ≤ maxBytes - utf8Length (p.extension name) := by omega
  have hends := longestFront_endsAt (p.basenameWithoutExtension name) hbudget
  have hlow := h.notLow
  rw [← paired_take hends]
  constructor
  · intro htruncated
    exact ((wellFormed_append hlow).mp htruncated.wellFormed).symm
  · rintro ⟨hextension, hpaired⟩
    exact {
      wellFormed := (wellFormed_append hlow).mpr ⟨hpaired, hextension⟩
      short := hends.short hlow (by omega)
      unchanged := fun hshort => by omega
      extension := fun _ _ => ⟨_, rfl, hends.longest hlow (by omega)⟩
      base := fun hnone _ => by omega }

theorem full_extension (hall : (utf8Length (p.extension name) : ℤ) = maxBytes) :
    Truncated p name maxBytes ((p.basenameWithoutExtension name).take
        (longestFront (p.basenameWithoutExtension name) maxBytes)) ↔
      WellFormed (p.extension name) ∧ p.extension name <+: p.basenameWithoutExtension name := by
  have hpos : 0 ≤ maxBytes := by omega
  have hends := longestFront_endsAt (p.basenameWithoutExtension name) hpos
  have hlow := h.notLow
  constructor
  · intro htruncated
    obtain ⟨kept, hkept, -⟩ := htruncated.extension hlong (by omega)
    have hshort := htruncated.short
    have hformed := htruncated.wellFormed
    have hfront := List.take_prefix (longestFront (p.basenameWithoutExtension name) maxBytes)
      (p.basenameWithoutExtension name)
    rw [hkept, utf8Length_append hlow] at hshort
    have hnone : kept = [] := eq_nil_of_utf8Length (by omega)
    rw [hkept, hnone, List.nil_append] at hformed hfront
    exact ⟨hformed, hfront⟩
  · rintro ⟨hextension, hprefix⟩
    have heq := hends.of_prefix hprefix (by omega)
    rw [heq]
    exact {
      wellFormed := hextension
      short := by omega
      unchanged := fun hshort => by omega
      extension := fun _ _ => by
        refine ⟨[], rfl, List.nil_prefix, ?_⟩
        intro longer _ _ hfits
        rw [utf8Length_append hlow] at hfits
        have hempty : longer = [] := eq_nil_of_utf8Length (by omega)
        rw [hempty]
      base := fun hnone _ => by omega }

omit h in
theorem no_extension (hnone : maxBytes < utf8Length (p.extension name)) :
    Truncated p name maxBytes ((p.basenameWithoutExtension name).take
        (longestFront (p.basenameWithoutExtension name) maxBytes)) ↔
      0 ≤ maxBytes ∧ cutsClean (p.basenameWithoutExtension name) maxBytes.toNat = true := by
  constructor
  · intro htruncated
    have hshort := htruncated.short
    have hpos : 0 ≤ maxBytes := by omega
    have hformed := (wellFormed_iff _).mp htruncated.wellFormed
    rw [paired_take (longestFront_endsAt _ hpos)] at hformed
    exact ⟨hpos, hformed⟩
  · rintro ⟨hpos, hclean⟩
    have hends : EndsAt (p.basenameWithoutExtension name) (maxBytes - utf8Length []).toNat
        (longestFront (p.basenameWithoutExtension name) maxBytes) := by
      rw [show maxBytes - utf8Length [] = maxBytes from Int.sub_zero _]
      exact longestFront_endsAt _ hpos
    have hformed := paired_take (longestFront_endsAt (p.basenameWithoutExtension name) hpos)
    have hshort := hends.short rfl hpos
    rw [List.append_nil] at hshort
    exact {
      wellFormed := (wellFormed_iff _).mpr (hformed.trans hclean)
      short := hshort
      unchanged := fun hfits => by omega
      extension := fun _ hfits => by omega
      base := fun _ _ => hends.longest rfl hpos }

end

/-- Outgoing file names fit and stay readable: exactly when the cut does not leave half a character
    and the extension does not take up all the bytes. -/
theorem names_cut_well (p : Path) (name : Units) (maxBytes : ℤ) (h : p.Splits name) :
    Truncated p name maxBytes (truncateFileNameForTox p name maxBytes) ↔ CutsWell p name maxBytes := by
  rw [truncateFileNameForTox, CutsWell]
  dsimp only
  by_cases hshort : (utf8Length name : ℤ) ≤ maxBytes
  · rw [if_pos hshort, if_pos hshort]
    refine ⟨Truncated.wellFormed, fun hformed => ⟨hformed, hshort, fun _ => rfl, ?_, ?_⟩⟩
    · exact fun hlong => by omega
    · exact fun _ hlong => by omega
  · rw [if_neg hshort, if_neg hshort]
    have hlong : maxBytes < utf8Length name := Int.not_le.mp hshort
    by_cases hroom : (utf8Length (p.extension name) : ℤ) < maxBytes
    · rw [if_neg (by omega), if_pos hroom]
      exact kept_extension h hlong hroom
    · rw [if_pos (by omega), if_neg hroom]
      by_cases hall : (utf8Length (p.extension name) : ℤ) = maxBytes
      · rw [if_pos hall]
        exact full_extension h hlong hall
      · rw [if_neg hall]
        exact no_extension hlong (by omega)

/-! ## Names on POSIX -/

/-- Where the extension begins: at the last dot, unless that is the first character. -/
def extensionAt (file : Units) : ℕ :=
  if 46 ∈ file ∧ file.reverse.idxOf 46 + 1 < file.length ∧ file ≠ [46, 46] then
    file.length - 1 - file.reverse.idxOf 46
  else file.length

def posix : Path where
  extension file := file.drop (extensionAt file)
  basenameWithoutExtension file := file.take (extensionAt file)

theorem posix_splits (name : Units) : posix.Splits name := by
  refine ⟨List.take_append_drop _ _, ?_⟩
  change name.drop (extensionAt name) = [] ∨ (name.drop (extensionAt name)).head? = some 46
  rw [extensionAt]
  split_ifs with hdot
  · right
    have hmem : 46 ∈ name.reverse := List.mem_reverse.mpr hdot.1
    have hlt : name.reverse.idxOf 46 < name.length := by omega
    rw [List.head?_drop, ← List.getElem?_reverse hlt]
    rw [List.getElem?_eq_getElem (List.idxOf_lt_length_of_mem hmem), List.getElem_idxOf]
  · left
    exact List.drop_length

/-- A photo whose name is too long by its last letter. -/
theorem photo_shortened :
    posix.Splits [97, 98, 99, 46, 106] ∧
      (Truncated posix [97, 98, 99, 46, 106] 4 (truncateFileNameForTox posix [97, 98, 99, 46, 106] 4) ↔
        CutsWell posix [97, 98, 99, 46, 106] 4) :=
  ⟨posix_splits _, names_cut_well posix [97, 98, 99, 46, 106] 4 (posix_splits _)⟩

/-- Half an emoji is left at the end of the base. -/
theorem half_character_left : ¬ ∀ (p : Path) (name : Units) (maxBytes : ℤ), p.Splits name →
    Truncated p name maxBytes (truncateFileNameForTox p name maxBytes) := by
  intro hall
  have hformed := (hall posix [97, 0xD83D, 0xDE00, 46, 106] 6 (posix_splits _)).wellFormed
  rw [wellFormed_iff] at hformed
  exact absurd hformed (by decide +kernel)

end Tim2Tox.TruncatedNames
