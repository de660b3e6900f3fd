import Tim2Tox.Utf8

set_option autoImplicit false

/-!
# The message fragmenter

`QToxMessageFragmenter`: the check of a text, its `/me ` and the greedy loop that cuts it.
-/
namespace Tim2Tox.QToxMessageFragmenter
open Utf8

/-- The bytes of a `std::string_view`. -/
abbrev Text : Type := List UInt8

def toxMaxMessageLength : ℕ := 1372
def kMessagePayloadLimit : ℕ := toxMaxMessageLength - 50

def byteAt (text : Text) (i : ℕ) : UInt8 := text.getD i 0

def isContinuation (value : UInt8) : Bool := value &&& 0xC0 = 0x80

def hasContinuationBytes (text : Text) (offset count : ℕ) : Bool :=
  offset + count ≤ text.length &&
    (List.range count).all fun i => isContinuation (byteAt text (offset + i))

/-- The loop of `IsValidUtf8` from an index on; a turn moves at least one byte. -/
def isValidFrom (text : Text) : ℕ → ℕ → Bool
  | 0, _ => true
  | turns + 1, i =>
    if i < text.length then
      let lead := (byteAt text i).toNat
      let second := (byteAt text (i + 1)).toNat
      if lead ≤ 0x7F then isValidFrom text turns (i + 1)
      else if 0xC2 ≤ lead ∧ lead ≤ 0xDF then
        hasContinuationBytes text (i + 1) 1 && isValidFrom text turns (i + 2)
      else if 0xE0 ≤ lead ∧ lead ≤ 0xEF then
        hasContinuationBytes text (i + 1) 2 &&
          !((lead = 0xE0 ∧ second < 0xA0) ∨ (lead = 0xED ∧ second > 0x9F)) &&
            isValidFrom text turns (i + 3)
      else if 0xF0 ≤ lead ∧ lead ≤ 0xF4 then
        hasContinuationBytes text (i + 1) 3 &&
          !((lead = 0xF0 ∧ second < 0x90) ∨ (lead = 0xF4 ∧ second > 0x8F)) &&
            isValidFrom text turns (i + 4)
      else false
    else true

def isValidUtf8 (text : Text) : Bool := isValidFrom text (text.length + 1) 0

def isAsciiCaseEqual (value lowercase : UInt8) : Bool :=
  value = lowercase || value = lowercase - (97 - 65)

def hasMePrefix (text : Text) : Bool :=
  text.length ≥ 4 && byteAt text 0 = 47 && isAsciiCaseEqual (byteAt text 1) 109 &&
    isAsciiCaseEqual (byteAt text 2) 101 && byteAt text 3 = 32

/-- The loop from `i` down to the offset: the place after the last byte of the kind. -/
def scanBack (text : Text) (kind : UInt8 → Bool) (offset : ℕ) : ℕ → Option ℕ
  | 0 => none
  | i + 1 =>
    if i + 1 > offset then if kind (byteAt text i) then some (i + 1) else scanBack text kind offset i
    else none

def backToLead (text : Text) (offset : ℕ) : ℕ → ℕ
  | 0 => 0
  | split + 1 =>
    if split + 1 > offset && split + 1 < text.length && isContinuation (byteAt text (split + 1)) then
      backToLead text offset split
    else split + 1

def isNewline (value : UInt8) : Bool := value = 10
def isBlank (value : UInt8) : Bool := value = 32 || value = 9

def findPreferredSplit (text : Text) (offset budgetEnd : ℕ) : ℕ :=
  match scanBack text isNewline offset budgetEnd with
  | some i => i
  | none =>
    match scanBack text isBlank offset budgetEnd with
    | some i => i
    | none => backToLead text offset budgetEnd

def isValidInput (text : Text) : Bool := !text.isEmpty && !text.contains 0 && isValidUtf8 text

inductive MessageType where
  | normal
  | action
  deriving DecidableEq

structure PreparedTextMessage where
  type : MessageType
  body : Text
  deriving DecidableEq

def messageBody (text : Text) : Text := if hasMePrefix text then text.drop 4 else text

def prepareTextMessage (text : Text) (forceAction : Bool) : Option PreparedTextMessage :=
  if !isValidInput text then none
  else if (messageBody text).isEmpty then none
  else some { type := if forceAction || hasMePrefix text then .action else .normal,
              body := messageBody text }

/-- The loop of `FragmentMessage` from an offset on; every turn cuts at least one byte. -/
def fragmentFrom (text : Text) : ℕ → ℕ → Option (List Text)
  | 0, _ => none
  | turns + 1, offset =>
    if text.length - offset > kMessagePayloadLimit then
      let split := findPreferredSplit text offset (offset + kMessagePayloadLimit)
      if split ≤ offset then none
      else (fragmentFrom text turns split).map (((text.drop offset).take (split - offset)) :: ·)
    else if offset < text.length then some [text.drop offset]
    else some []

def fragmentMessage (text : Text) : Option (List Text) :=
  if !isValidInput text then none
  else (fragmentFrom text (text.length + 1) 0).bind fun fragments =>
    if fragments.isEmpty || fragments.any List.isEmpty then none else some fragments

/-! ## The check of the encoding -/

theorem isContinuation_iff (b : UInt8) : isContinuation b = true ↔ Tail b := by
  have hall : ∀ n < 256, isContinuation (UInt8.ofNat n) = true ↔ Tail (UInt8.ofNat n) := by
    decide +kernel
  have hb := hall b.toNat b.toNat_lt
  rwa [UInt8.ofNat_toNat] at hb

theorem drop_cons {text : Text} {i : ℕ} (h : i < text.length) :
    text.drop i = byteAt text i :: text.drop (i + 1) := by
  rw [List.drop_eq_getElem_cons h, byteAt, List.getD_eq_getElem _ _ h]

theorem byteAt_drop (text : Text) (offset i : ℕ) :
    (text.drop offset).getD i 0 = byteAt text (offset + i) := by
  rw [byteAt, List.getD_eq_getElem?_getD, List.getD_eq_getElem?_getD, List.getElem?_drop]

theorem hasContinuationBytes_iff (text : Text) (offset count : ℕ) :
    hasContinuationBytes text offset count = true ↔
      offset + count ≤ text.length ∧ ∀ i < count, Tail (byteAt text (offset + i)) := by
  rw [hasContinuationBytes, Bool.and_eq_true, decide_eq_true_eq, List.all_eq_true]
  refine and_congr_right fun _ => ?_
  constructor
  · exact fun h i hi => (isContinuation_iff _).mp (h i (List.mem_range.mpr hi))
  · exact fun h i hi => (isContinuation_iff _).mpr (h i (List.mem_range.mp hi))

/-- The check goes on behind a character. -/
theorem isValidFrom_unit {text : Text} {i turns : ℕ} {u rest : Text}
    (hdrop : text.drop i = u ++ rest) (hu : Unit u) :
    isValidFrom text (turns + 1) i = isValidFrom text turns (i + u.length) := by
  have hbyte : ∀ k < u.length, byteAt text (i + k) = u.getD k 0 := fun k hk => by
    rw [← byteAt_drop, hdrop, List.getD_append _ _ _ _ hk]
  have hlength : i + u.length ≤ text.length := by
    have hlengths := congrArg List.length hdrop
    have hpos := hu.length_pos
    rw [List.length_drop, List.length_append] at hlengths
    omega
  have hin : i < text.length := by
    have hpos := hu.length_pos
    omega
  have htails : ∀ count, count + 1 = u.length → hasContinuationBytes text (i + 1) count = true := by
    intro count hcount
    rw [hasContinuationBytes_iff]
    refine ⟨by omega, fun k hk => ?_⟩
    rw [Nat.add_assoc, hbyte _ (by omega)]
    exact hu.tail (by omega) (by omega)
  have hlead := hbyte 0 hu.length_pos
  rw [Nat.add_zero] at hlead
  rw [isValidFrom, if_pos hin, hlead]
  cases hu with
  | @one a ha => exact if_pos ha
  | @two a b ha ha' hb =>
    simp only [List.getD_cons_zero]
    rw [if_neg (by omega), if_pos ⟨ha, ha'⟩, htails 1 rfl, Bool.true_and]
    rfl
  | @three a b c ha ha' hb hc hmin hmax =>
    have hsecond : byteAt text (i + 1) = b := hbyte 1 (by simp)
    have hshape : ¬ ((a.toNat = 0xE0 ∧ b.toNat < 0xA0) ∨ (a.toNat = 0xED ∧ b.toNat > 0x9F)) := by
      omega
    simp only [List.getD_cons_zero]
    rw [if_neg (by omega), if_neg (by omega), if_pos ⟨ha, ha'⟩, htails 2 rfl, hsecond,
      decide_eq_false hshape]
    rfl
  | @four a b c d ha ha' hb hc hd hmin hmax =>
    have hsecond : byteAt text (i + 1) = b := hbyte 1 (by simp)
    have hshape : ¬ ((a.toNat = 0xF0 ∧ b.toNat < 0x90) ∨ (a.toNat = 0xF4 ∧ b.toNat > 0x8F)) := by
      omega
    simp only [List.getD_cons_zero]
    rw [if_neg (by omega), if_neg (by omega), if_neg (by omega), if_pos ⟨ha, ha'⟩, htails 3 rfl,
      hsecond, decide_eq_false hshape]
    rfl

/-- Where the check goes on it has seen a character. -/
theorem unit_of_isValidFrom {text : Text} {i turns : ℕ} (hin : i < text.length)
    (h : isValidFrom text (turns + 1) i = true) :
    ∃ u rest, text.drop i = u ++ rest ∧ Unit u := by
  rw [isValidFrom, if_pos hin] at h
  dsimp only at h
  split_ifs at h with hone htwo hthree hfour
  · exact ⟨[byteAt text i], _, drop_cons hin, Unit.one hone⟩
  · rw [Bool.and_eq_true, hasContinuationBytes_iff] at h
    obtain ⟨⟨hend, htails⟩, -⟩ := h
    have hb : Tail (byteAt text (i + 1)) := htails 0 (by omega)
    refine ⟨[byteAt text i, byteAt text (i + 1)], text.drop (i + 2), ?_,
      Unit.two htwo.1 htwo.2 hb⟩
    rw [drop_cons hin, drop_cons (i := i + 1) (by omega)]
    rfl
  · rw [Bool.and_eq_true, Bool.and_eq_true, hasContinuationBytes_iff, Bool.not_eq_true',
      decide_eq_false_iff_not] at h
    obtain ⟨⟨⟨hend, htails⟩, hshape⟩, -⟩ := h
    have hb : Tail (byteAt text (i + 1)) := htails 0 (by omega)
    have hc : Tail (byteAt text (i + 2)) := htails 1 (by omega)
    refine ⟨[byteAt text i, byteAt text (i + 1), byteAt text (i + 2)], text.drop (i + 3), ?_,
      Unit.three hthree.1 hthree.2 hb hc (by omega) (by omega)⟩
    rw [drop_cons hin, drop_cons (i := i + 1) (by omega), drop_cons (i := i + 2) (by omega)]
    rfl
  · rw [Bool.and_eq_true, Bool.and_eq_true, hasContinuationBytes_iff, Bool.not_eq_true',
      decide_eq_false_iff_not] at h
    obtain ⟨⟨⟨hend, htails⟩, hshape⟩, -⟩ := h
    have hb : Tail (byteAt text (i + 1)) := htails 0 (by omega)
    have hc : Tail (byteAt text (i + 2)) := htails 1 (by omega)
    have hd : Tail (byteAt text (i + 3)) := htails 2 (by omega)
    refine ⟨[byteAt text i, byteAt text (i + 1), byteAt text (i + 2), byteAt text (i + 3)],
      text.drop (i + 4), ?_, Unit.four hfour.1 hfour.2 hb hc hd (by omega) (by omega)⟩
    rw [drop_cons hin, drop_cons (i := i + 1) (by omega), drop_cons (i := i + 2) (by omega),
      drop_cons (i := i + 3) (by omega)]
    rfl

theorem isValidFrom_iff (text : Text) (turns : ℕ) : ∀ i, text.length < i + turns →
    (isValidFrom text turns i = true ↔ WellFormed (text.drop i)) := by
  induction turns with
  | zero =>
    intro i hturns
    rw [List.drop_of_length_le (by omega)]
    exact ⟨fun _ => WellFormed.nil, fun _ => rfl⟩
  | succ turns ih =>
    intro i hturns
    by_cases hin : i < text.length
    · have hbehind : ∀ u rest, text.drop i = u ++ rest → Unit u →
          (isValidFrom text (turns + 1) i = true ↔ WellFormed rest) := by
        intro u rest hdrop hu
        have hpos := hu.length_pos
        have hrest : text.drop (i + u.length) = rest := by
          rw [← List.drop_drop, hdrop]
          exact List.drop_left
        rw [isValidFrom_unit hdrop hu, ih _ (by omega), hrest]
      constructor
      · intro hvalid
        obtain ⟨u, rest, hdrop, hu⟩ := unit_of_isValidFrom hin hvalid
        rw [hdrop]
        exact hu.wellFormed.append ((hbehind u rest hdrop hu).mp hvalid)
      · intro hwell
        rcases wellFormed_cases hwell with hnil | ⟨u, rest, hdrop, hu, hrest⟩
        · have hlength := congrArg List.length hnil
          rw [List.length_drop, List.length_nil] at hlength
          omega
        · exact (hbehind u rest hdrop hu).mpr hrest
    · rw [List.drop_of_length_le (by omega), isValidFrom, if_neg hin]
      exact ⟨fun _ => WellFormed.nil, fun _ => rfl⟩

theorem isValidUtf8_iff (text : Text) : isValidUtf8 text = true ↔ WellFormed text :=
  isValidFrom_iff text (text.length + 1) 0 (by omega)

theorem isValidInput_iff (text : Text) :
    isValidInput text = true ↔ text ≠ [] ∧ 0 ∉ text ∧ WellFormed text := by
  rw [isValidInput, Bool.and_eq_true, Bool.and_eq_true, isValidUtf8_iff, Bool.not_eq_true',
    Bool.not_eq_true', and_assoc]
  refine and_congr ?_ (and_congr ?_ Iff.rfl)
  · rw [List.isEmpty_eq_false_iff]
  · rw [← Bool.not_eq_true, List.contains_iff_mem]

/-! ## Where a fragment ends -/

/-- A fragment of `n` bytes ends after the last byte of a kind in the budget. -/
structure EndsAfterLast (kind : UInt8 → Bool) (limit : ℕ) (rest : Text) (n : ℕ) : Prop where
  positive : 0 < n
  within : n ≤ limit
  ending : kind (byteAt rest (n - 1)) = true
  last : ∀ j, n ≤ j → j < limit → kind (byteAt rest j) = false

/-- A fragment of `n` bytes ends at the last boundary of characters in the budget. -/
structure EndsAtBoundary (limit : ℕ) (rest : Text) (n : ℕ) : Prop where
  within : n ≤ limit
  boundary : WellFormed (rest.take n)
  last : ∀ m, n < m → m ≤ limit → ¬ WellFormed (rest.take m)

def NoneOf (kind : UInt8 → Bool) (limit : ℕ) (rest : Text) : Prop :=
  ∀ j < limit, kind (byteAt rest j) = false

def PreferredEnd (limit : ℕ) (rest : Text) (n : ℕ) : Prop :=
  EndsAfterLast isNewline limit rest n ∨
    (NoneOf isNewline limit rest ∧ EndsAfterLast isBlank limit rest n) ∨
    (NoneOf isNewline limit rest ∧ NoneOf isBlank limit rest ∧ EndsAtBoundary limit rest n)

theorem scanBack_none {text : Text} {kind : UInt8 → Bool} {offset : ℕ} : ∀ {i : ℕ},
    scanBack text kind offset i = none →
      ∀ j, offset ≤ j → j < i → kind (byteAt text j) = false := by
  intro i
  induction i with
  | zero => exact fun _ j _ hj => absurd hj (Nat.not_lt_zero _)
  | succ i ih =>
    intro h j hlow hj
    unfold scanBack at h
    split_ifs at h with hin hkind
    · rcases Nat.lt_succ_iff_lt_or_eq.mp hj with hbefore | rfl
      · exact ih h j hlow hbefore
      · simpa using hkind
    · omega

theorem scanBack_some {text : Text} {kind : UInt8 → Bool} {offset k : ℕ} : ∀ {i : ℕ},
    scanBack text kind offset i = some k →
      offset < k ∧ k ≤ i ∧ kind (byteAt text (k - 1)) = true ∧
        ∀ j, k ≤ j → j < i → kind (byteAt text j) = false := by
  intro i
  induction i with
  | zero => exact fun h => by simp [scanBack] at h
  | succ i ih =>
    intro h
    unfold scanBack at h
    split_ifs at h with hin hkind
    · obtain rfl := Option.some.inj h
      exact ⟨hin, Nat.le_refl _, hkind, fun j hlow hj => by omega⟩
    · obtain ⟨hlow, hle, hending, hlast⟩ := ih h
      refine ⟨hlow, by omega, hending, fun j hk hj => ?_⟩
      rcases Nat.lt_succ_iff_lt_or_eq.mp hj with hbefore | rfl
      · exact hlast j hk hbefore
      · simpa using hkind

theorem scanBack_some_ends {text : Text} {kind : UInt8 → Bool} {offset limit k : ℕ}
    (h : scanBack text kind offset (offset + limit) = some k) :
    EndsAfterLast kind limit (text.drop offset) (k - offset) := by
  obtain ⟨hlow, hle, hending, hlast⟩ := scanBack_some h
  have hplace : offset + (k - offset - 1) = k - 1 := by omega
  refine ⟨by omega, by omega, ?_, fun j hk hj => ?_⟩
  · rw [byteAt, byteAt_drop, hplace]
    exact hending
  · rw [byteAt, byteAt_drop]
    exact hlast _ (by omega) (by omega)

theorem scanBack_none_noneOf {text : Text} {kind : UInt8 → Bool} {offset limit : ℕ}
    (h : scanBack text kind offset (offset + limit) = none) :
    NoneOf kind limit (text.drop offset) := by
  intro j hj
  rw [byteAt, byteAt_drop]
  exact scanBack_none h _ (by omega) (by omega)

theorem backToLead_spec {text : Text} {offset m : ℕ} (hlow : offset < m)
    (hlead : ¬ Tail (byteAt text m)) : ∀ {split : ℕ}, m ≤ split → split < text.length →
      offset < backToLead text offset split ∧ backToLead text offset split ≤ split ∧
        ¬ Tail (byteAt text (backToLead text offset split)) ∧
        ∀ j, backToLead text offset split < j → j ≤ split → Tail (byteAt text j) := by
  intro split
  induction split with
  | zero => exact fun hm _ => absurd hm (by omega)
  | succ split ih =>
    intro hm hin
    unfold backToLead
    by_cases htail : Tail (byteAt text (split + 1))
    · have hgo : (decide (split + 1 > offset) && decide (split + 1 < text.length) &&
          isContinuation (byteAt text (split + 1))) = true := by
        rw [Bool.and_eq_true, Bool.and_eq_true, decide_eq_true_eq, decide_eq_true_eq,
          isContinuation_iff]
        exact ⟨⟨by omega, hin⟩, htail⟩
      rw [if_pos hgo]
      have hbefore : m ≤ split := by
        rcases Nat.lt_or_eq_of_le hm with hlt | rfl
        · omega
        · exact absurd htail hlead
      obtain ⟨hback, hle, hnot, hlast⟩ := ih hbefore (by omega)
      refine ⟨hback, by omega, hnot, fun j hj hjs => ?_⟩
      rcases Nat.lt_or_eq_of_le hjs with hlt | rfl
      · exact hlast j hj (by omega)
      · exact htail
    · have hstop : ¬ (decide (split + 1 > offset) && decide (split + 1 < text.length) &&
          isContinuation (byteAt text (split + 1))) = true := by
        rw [Bool.and_eq_true, isContinuation_iff]
        exact fun h => htail h.2
      rw [if_neg hstop]
      exact ⟨by omega, Nat.le_refl _, htail, fun j hj hjs => by omega⟩

/-- One cut: it moves on, ends where the claim wants it and leaves well-formed text on both
    sides. -/
structure GoodCut (limit : ℕ) (rest : Text) (n : ℕ) : Prop where
  positive : 0 < n
  within : n ≤ limit
  preferred : PreferredEnd limit rest n
  before : WellFormed (rest.take n)
  behind : WellFormed (rest.drop n)

theorem EndsAfterLast.wellFormed {kind : UInt8 → Bool} {limit : ℕ} {rest : Text} {n : ℕ}
    (h : EndsAfterLast kind limit rest n) (hascii : ∀ b, kind b = true → b.toNat ≤ 0x7F)
    (hwell : WellFormed rest) (hlong : limit < rest.length) :
    WellFormed (rest.take n) ∧ WellFormed (rest.drop n) := by
  have hpos := h.positive
  have hwithin := h.within
  have hcut := hwell.split_ascii (k := n - 1) (hascii _ h.ending) (by omega)
  rwa [Nat.sub_add_cancel hpos] at hcut

theorem findPreferredSplit_good {text : Text} {offset limit : ℕ}
    (hwell : WellFormed (text.drop offset)) (hlimit : 4 ≤ limit)
    (hlong : text.length - offset > limit) :
    offset < findPreferredSplit text offset (offset + limit) ∧
      GoodCut limit (text.drop offset)
        (findPreferredSplit text offset (offset + limit) - offset) := by
  have hrest : limit < (text.drop offset).length := by
    rw [List.length_drop]
    exact hlong
  have hnewline : ∀ b, isNewline b = true → b.toNat ≤ 0x7F := by
    intro b hb
    obtain rfl : b = 10 := by simpa [isNewline] using hb
    decide
  have hblank : ∀ b, isBlank b = true → b.toNat ≤ 0x7F := by
    intro b hb
    rw [isBlank, Bool.or_eq_true, decide_eq_true_eq, decide_eq_true_eq] at hb
    rcases hb with rfl | rfl <;> decide
  unfold findPreferredSplit
  rcases hfirst : scanBack text isNewline offset (offset + limit) with _ | k
  · dsimp only
    have hnoNewline := scanBack_none_noneOf hfirst
    rcases hsecond : scanBack text isBlank offset (offset + limit) with _ | k
    · dsimp only
      have hnoBlank := scanBack_none_noneOf hsecond
      obtain ⟨m, hpos, hm, hlead⟩ := hwell.first_boundary hlimit hrest
      rw [byteAt_drop] at hlead
      obtain ⟨hlow, hle, hnot, hlast⟩ := @backToLead_spec _ offset (offset + m)
        (by omega) hlead (offset + limit) (by omega) (by omega)
      generalize backToLead text offset (offset + limit) = split at hlow hle hnot hlast ⊢
      have hplace : offset + (split - offset) = split := by omega
      have hcut := hwell.split (k := split - offset)
        (by rw [byteAt_drop, hplace]; exact hnot) (by omega)
      refine ⟨hlow, by omega, by omega, Or.inr (Or.inr ⟨hnoNewline, hnoBlank, by omega, hcut.1,
        fun j hj hjs htake => ?_⟩), hcut.1, hcut.2⟩
      have hlead' := hwell.not_tail_of_take htake (by omega)
      rw [byteAt_drop] at hlead'
      exact hlead' (hlast _ (by omega) (by omega))
    · have hends := scanBack_some_ends hsecond
      have hcut := hends.wellFormed hblank hwell hrest
      exact ⟨(scanBack_some hsecond).1, hends.positive, hends.within,
        Or.inr (Or.inl ⟨hnoNewline, hends⟩), hcut.1, hcut.2⟩
  · have hends := scanBack_some_ends hfirst
    have hcut := hends.wellFormed hnewline hwell hrest
    exact ⟨(scanBack_some hfirst).1, hends.positive, hends.within, Or.inl hends, hcut.1, hcut.2⟩

/-! ## The fragments -/

/-- The fragments of a text: nothing is lost, each is sendable and well-formed, and each but the
    last ends where its budget prefers. -/
structure Fragments (limit : ℕ) (text : Text) (fragments : List Text) : Prop where
  joined : fragments.flatten = text
  sendable : ∀ f ∈ fragments, f ≠ [] ∧ f.length ≤ limit ∧ WellFormed f
  preferred : ∀ before f behind, fragments = before ++ f :: behind → behind ≠ [] →
    PreferredEnd limit (f ++ behind.flatten) f.length
  single : text.length ≤ limit → fragments = [text]

theorem Fragments.last {limit : ℕ} {rest : Text} (hne : rest ≠ []) (hfits : rest.length ≤ limit)
    (hwell : WellFormed rest) : Fragments limit rest [rest] := by
  refine ⟨by simp, ?_, ?_, fun _ => rfl⟩
  · intro f hf
    obtain rfl := List.mem_singleton.mp hf
    exact ⟨hne, hfits, hwell⟩
  · intro before f behind hsplit hbehind
    have hlength := congrArg List.length hsplit
    have hpos := List.length_pos_iff.mpr hbehind
    rw [List.length_append] at hlength
    simp only [List.length_cons, List.length_nil] at hlength
    omega

theorem Fragments.cons {limit n : ℕ} {rest : Text} {fragments : List Text}
    (h : Fragments limit (rest.drop n) fragments) (hcut : GoodCut limit rest n)
    (hlong : limit < rest.length) : Fragments limit rest (rest.take n :: fragments) := by
  have hpos := hcut.positive
  have hwithin := hcut.within
  have hlength : (rest.take n).length = n := by
    rw [List.length_take]
    omega
  refine ⟨?_, ?_, ?_, fun hshort => by omega⟩
  · rw [List.flatten_cons, h.joined, List.take_append_drop]
  · intro f hf
    rcases List.mem_cons.mp hf with rfl | hlater
    · refine ⟨List.ne_nil_of_length_pos (by omega), by omega, hcut.before⟩
    · exact h.sendable f hlater
  · intro before f behind hsplit hbehind
    cases before with
    | nil =>
      rw [List.nil_append, List.cons.injEq] at hsplit
      obtain ⟨rfl, rfl⟩ := hsplit
      rw [h.joined, List.take_append_drop, hlength]
      exact hcut.preferred
    | cons first before =>
      rw [List.cons_append, List.cons.injEq] at hsplit
      exact h.preferred before f behind hsplit.2 hbehind

theorem four_le_limit : 4 ≤ kMessagePayloadLimit := by decide

theorem fragmentFrom_fragments (text : Text) (turns : ℕ) : ∀ offset,
    text.length - offset < turns → offset < text.length → WellFormed (text.drop offset) →
      ∃ fragments, fragmentFrom text turns offset = some fragments ∧
        Fragments kMessagePayloadLimit (text.drop offset) fragments := by
  induction turns with
  | zero => exact fun offset hturns => absurd hturns (Nat.not_lt_zero _)
  | succ turns ih =>
    intro offset hturns hin hwell
    have hlength : (text.drop offset).length = text.length - offset := List.length_drop
    unfold fragmentFrom
    by_cases hlong : text.length - offset > kMessagePayloadLimit
    · obtain ⟨hmoves, hcut⟩ := findPreferredSplit_good hwell four_le_limit hlong
      rw [if_pos hlong]
      dsimp only
      generalize findPreferredSplit text offset (offset + kMessagePayloadLimit) = split
        at hmoves hcut ⊢
      have hwithin := hcut.within
      have hbehind := hcut.behind
      have hdrop : (text.drop offset).drop (split - offset) = text.drop split := by
        rw [List.drop_drop]
        congr 1
        omega
      rw [hdrop] at hbehind
      obtain ⟨fragments, hsome, hfragments⟩ := ih split (by omega) (by omega) hbehind
      rw [if_neg (by omega), hsome]
      rw [← hdrop] at hfragments
      exact ⟨_, rfl, hfragments.cons hcut (by omega)⟩
    · rw [if_neg hlong, if_pos hin]
      exact ⟨_, rfl, Fragments.last (List.ne_nil_of_length_pos (by omega)) (by omega) hwell⟩

theorem fragmentMessage_valid {text : Text} (h : isValidInput text = true) :
    ∃ fragments, fragmentMessage text = some fragments ∧
      Fragments kMessagePayloadLimit text fragments := by
  obtain ⟨hne, -, hwell⟩ := (isValidInput_iff text).mp h
  have hpos := List.length_pos_iff.mpr hne
  obtain ⟨fragments, hsome, hfragments⟩ :=
    fragmentFrom_fragments text (text.length + 1) 0 (by omega) hpos hwell
  have hnonempty : fragments.isEmpty = false := by
    rw [List.isEmpty_eq_false_iff]
    intro hnil
    have hjoined := hfragments.joined
    rw [hnil] at hjoined
    exact hne hjoined.symm
  have hfull : fragments.any List.isEmpty = false := by
    rw [List.any_eq_false]
    intro f hf
    rw [List.isEmpty_iff]
    exact (hfragments.sendable f hf).1
  refine ⟨fragments, ?_, hfragments⟩
  rw [fragmentMessage, h, hsome, Option.bind_some, hnonempty, hfull]
  rfl

/-! ## The prepared text -/

/-- The spellings of `/me ` with either case of its letters. -/
def mePrefixes : List Text :=
  [[47, 109, 101, 32], [47, 109, 69, 32], [47, 77, 101, 32], [47, 77, 69, 32]]

theorem hasMePrefix_iff (text : Text) :
    hasMePrefix text = true ↔ ∃ me ∈ mePrefixes, text = me ++ text.drop 4 := by
  rcases text with _ | ⟨a, _ | ⟨b, _ | ⟨c, _ | ⟨d, rest⟩⟩⟩⟩
  · simp [hasMePrefix, mePrefixes]
  · simp [hasMePrefix, mePrefixes]
  · simp [hasMePrefix, mePrefixes]
  · simp [hasMePrefix, mePrefixes]
  · have hfour : (a :: b :: c :: d :: rest).length ≥ 4 := by simp
    have hm : (109 - (97 - 65) : UInt8) = 77 := by decide
    have he : (101 - (97 - 65) : UInt8) = 69 := by decide
    rw [hasMePrefix, decide_eq_true hfour, isAsciiCaseEqual, isAsciiCaseEqual, hm, he]
    simp only [byteAt, List.getD_cons_zero, List.getD_cons_succ, Bool.true_and, Bool.and_eq_true,
      Bool.or_eq_true, decide_eq_true_eq, mePrefixes, List.mem_cons, List.not_mem_nil, or_false,
      exists_eq_or_imp, exists_eq_left, List.cons_append, List.nil_append, List.cons.injEq,
      List.drop_succ_cons, List.drop_zero, and_true]
    tauto

/-- The body is all of the text, or all behind its one `/me `. -/
theorem messageBody_cases (text : Text) :
    messageBody text = text ∨ ∃ me ∈ mePrefixes, text = me ++ messageBody text := by
  unfold messageBody
  by_cases hme : hasMePrefix text = true
  · rw [if_pos hme]
    exact Or.inr ((hasMePrefix_iff text).mp hme)
  · rw [if_neg hme]
    exact Or.inl rfl

theorem messageBody_valid {text : Text} (h : isValidInput text = true)
    (hne : messageBody text ≠ []) : isValidInput (messageBody text) = true := by
  obtain ⟨-, hnul, hwell⟩ := (isValidInput_iff text).mp h
  rw [isValidInput_iff]
  rcases messageBody_cases text with hall | ⟨me, hme, htext⟩
  · rw [hall] at hne ⊢
    exact ⟨hne, hnul, hwell⟩
  · refine ⟨hne, fun hzero => hnul ?_, ?_⟩
    · rw [htext]
      exact List.mem_append_right _ hzero
    · have hprefixes : ∀ me ∈ mePrefixes, WellFormed me := by
        intro me hme
        rw [← isValidUtf8_iff]
        revert me
        decide
      rw [htext] at hwell
      exact (hprefixes me hme).of_append hwell

theorem prepareTextMessage_eq {text : Text} {forceAction : Bool} {message : PreparedTextMessage}
    (h : prepareTextMessage text forceAction = some message) :
    isValidInput text = true ∧ messageBody text ≠ [] ∧ message.body = messageBody text := by
  unfold prepareTextMessage at h
  split at h
  · contradiction
  · rename_i hvalid
    split at h
    · contradiction
    · rename_i hempty
      rw [List.isEmpty_iff] at hempty
      have hbody := congrArg PreparedTextMessage.body (Option.some.inj h)
      exact ⟨by simpa using hvalid, hempty, hbody.symm⟩

theorem prepareTextMessage_none {text : Text} {forceAction : Bool}
    (h : prepareTextMessage text forceAction = none) :
    isValidInput text = false ∨ text ∈ mePrefixes := by
  unfold prepareTextMessage at h
  split_ifs at h with hvalid hempty
  · exact Or.inl (by simpa using hvalid)
  · rw [List.isEmpty_iff] at hempty
    rcases messageBody_cases text with hall | ⟨me, hme, htext⟩
    · left
      rw [← hall, hempty]
      rfl
    · rw [hempty, List.append_nil] at htext
      rw [htext]
      exact Or.inr hme

/-- Fragmentation is total on the valid texts, loses nothing, and its fragments are sendable,
    well-formed and cut where preferred; preparing a text takes no more than one `/me ` from it. -/
theorem fragments_lossless (text : Text) :
    ((fragmentMessage text).isSome ↔ text ≠ [] ∧ 0 ∉ text ∧ WellFormed text) ∧
    (∀ fragments, fragmentMessage text = some fragments →
      Fragments kMessagePayloadLimit text fragments) ∧
    (∀ forceAction message, prepareTextMessage text forceAction = some message →
      ∃ fragments, fragmentMessage message.body = some fragments ∧
        (fragments.flatten = text ∨ ∃ me ∈ mePrefixes, text = me ++ fragments.flatten)) ∧
    ∀ forceAction, prepareTextMessage text forceAction = none →
      fragmentMessage text = none ∨ text ∈ mePrefixes := by
  have hnone : isValidInput text = false → fragmentMessage text = none := by
    intro hinvalid
    rw [fragmentMessage, hinvalid]
    rfl
  refine ⟨?_, ?_, ?_, ?_⟩
  · rw [← isValidInput_iff]
    constructor
    · intro hsome
      by_contra hinvalid
      rw [hnone (by simpa using hinvalid)] at hsome
      contradiction
    · intro hvalid
      obtain ⟨fragments, hsome, -⟩ := fragmentMessage_valid hvalid
      rw [hsome]
      rfl
  · intro fragments hsome
    by_cases hvalid : isValidInput text = true
    · obtain ⟨fragments', hsome', hfragments⟩ := fragmentMessage_valid hvalid
      obtain rfl := Option.some.inj (hsome.symm.trans hsome')
      exact hfragments
    · rw [hnone (by simpa using hvalid)] at hsome
      contradiction
  · intro forceAction message hmessage
    obtain ⟨hvalid, hne, hbody⟩ := prepareTextMessage_eq hmessage
    obtain ⟨fragments, hsome, hfragments⟩ := fragmentMessage_valid (messageBody_valid hvalid hne)
    rw [hbody]
    refine ⟨fragments, hsome, ?_⟩
    rw [hfragments.joined]
    exact messageBody_cases text
  · intro forceAction hmessage
    exact (prepareTextMessage_none hmessage).imp_left hnone

end Tim2Tox.QToxMessageFragmenter
