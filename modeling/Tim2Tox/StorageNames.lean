import Mathlib.Data.List.DropRight
import Tim2Tox.MessageFragmenter

set_option autoImplicit false

/-!
# Names of received files

A received file is stored under the sender, the friend and file numbers and the name the peer sent,
cut to what a file name may have. A marker beside it, the name with a dot before it and a suffix
behind, says that the file is not complete.
-/
namespace Tim2Tox.StorageNames
open Utf8 QToxMessageFragmenter

abbrev Bytes := List UInt8

def kMaxFilenameBytes : ℕ := 255

/-- `.t2t-receiving` -/
def kReceiveMarkerSuffix : Bytes := [46, 116, 50, 116, 45, 114, 101, 99, 101, 105, 118, 105, 110, 103]

/-- `find_last_of` -/
def findLastOf (p : UInt8 → Bool) (s : Bytes) : Option ℕ :=
  let upTo := s.rdropWhile fun c => !p c
  if upTo = [] then none else some (upTo.length - 1)

/-- The loop of `Utf8PrefixLength`. -/
def leadBefore (value : Bytes) : ℕ → ℕ
  | 0 => 0
  | last + 1 =>
    if isContinuation (byteAt value (last + 1)) then leadBefore value last else last + 1

def utf8PrefixLength (value : Bytes) (maxBytes : ℕ) : ℕ :=
  if value.length ≤ maxBytes then value.length else leadBefore value maxBytes

def truncateUtf8Filename (filename : Bytes) (maxBytes : ℕ) : Bytes :=
  let budget := min maxBytes kMaxFilenameBytes
  if filename.length ≤ budget then filename
  else if budget = 0 then []
  else
    let whole := filename.take (utf8PrefixLength filename budget)
    match findLastOf (· == 46) filename with
    | none => whole
    | some extensionStart =>
      let extension := filename.drop extensionStart
      if extension.length ≤ budget then
        let stem := filename.take extensionStart
        stem.take (utf8PrefixLength stem (budget - extension.length)) ++ extension
      else whole

def composeStorageBasename (storagePrefix filename : Bytes) (maxBytes : ℕ) : Bytes :=
  let budget := min maxBytes kMaxFilenameBytes
  if budget ≤ storagePrefix.length then storagePrefix.take budget
  else storagePrefix ++ truncateUtf8Filename filename (budget - storagePrefix.length)

def isSeparator (c : UInt8) : Bool := c == 47 || c == 92

def baseStart (path : Bytes) : ℕ :=
  match findLastOf isSeparator path with
  | none => 0
  | some slash => slash + 1

def basename (path : Bytes) : Bytes := path.drop (baseStart path)

def receiveMarkerPath (dataPath : Bytes) : Bytes :=
  dataPath.take (baseStart dataPath) ++ 46 :: (dataPath.drop (baseStart dataPath)) ++
    kReceiveMarkerSuffix

def dataNameForMarker (name : Bytes) : Bytes :=
  if name.length ≤ kReceiveMarkerSuffix.length + 1 || name.head? != some 46 ||
      name.drop (name.length - kReceiveMarkerSuffix.length) != kReceiveMarkerSuffix then []
  else (name.drop 1).take (name.length - kReceiveMarkerSuffix.length - 1)

/-! ## The name of an offer -/

def decimalBytes (n : ℕ) : Bytes := (Nat.toDigits 10 n).map fun c => UInt8.ofNat c.toNat

def unusable (c : UInt8) : Bool := c < 32 && c != 9 && c != 10 && c != 13

def defaultName (kind friendNumber fileNumber : UInt32) : Bytes :=
  let stem : Bytes := if kind = 1 then [97, 118, 97, 116, 97, 114] else [102, 105, 108, 101]
  stem ++ 95 :: decimalBytes friendNumber.toNat ++ 95 :: decimalBytes fileNumber.toNat

/-- The sanitised name; a separator becomes an underscore. -/
def offeredName (kind friendNumber fileNumber : UInt32) (name : Bytes) : Bytes :=
  if name.any unusable || name.isEmpty then defaultName kind friendNumber fileNumber
  else name.map fun c => if isSeparator c then 95 else c

def storagePrefixOf (senderHex : Bytes) (friendNumber fileNumber : UInt32) : Bytes :=
  senderHex ++ 95 :: decimalBytes friendNumber.toNat ++ 95 :: decimalBytes fileNumber.toNat ++ [95]

/-- A key as hex digits, or `unknown`. -/
def SenderHex (senderHex : Bytes) : Prop :=
  senderHex = [117, 110, 107, 110, 111, 119, 110] ∨ senderHex.length = 64 ∧
    senderHex.all (fun c => 48 ≤ c && c ≤ 57 || 65 ≤ c && c ≤ 70 || 97 ≤ c && c ≤ 102)

def storageName (senderHex : Bytes) (kind friendNumber fileNumber : UInt32) (name : Bytes) : Bytes :=
  composeStorageBasename (storagePrefixOf senderHex friendNumber fileNumber)
    (offeredName kind friendNumber fileNumber name) kMaxFilenameBytes

/-! ## The last of a kind -/

theorem upTo_append (p : UInt8 → Bool) (s : Bytes) :
    s.rdropWhile (fun c => !p c) ++ s.rtakeWhile (fun c => !p c) = s :=
  List.rdropWhile_append_rtakeWhile

theorem findLastOf_none {p : UInt8 → Bool} {s : Bytes} (h : findLastOf p s = none) :
    ∀ c ∈ s, p c = false := by
  rw [findLastOf] at h
  split_ifs at h with hnil
  intro c hc
  rw [List.rdropWhile_eq_nil_iff] at hnil
  have hnot := hnil c hc
  rwa [Bool.not_eq_true'] at hnot

theorem findLastOf_some {p : UInt8 → Bool} {s : Bytes} {i : ℕ} (h : findLastOf p s = some i) :
    ∃ c, p c = true ∧ s = s.take i ++ c :: s.drop (i + 1) ∧ i < s.length ∧
      ∀ x ∈ s.drop (i + 1), p x = false := by
  rw [findLastOf] at h
  split_ifs at h with hnil
  have hsplit := upTo_append p s
  have hlast := List.rdropWhile_last_not (fun c => !p c) s hnil
  have hrest : ∀ x ∈ s.rtakeWhile (fun c => !p c), p x = false := by
    intro x hx
    have hnot := List.mem_rtakeWhile_imp hx
    rwa [Bool.not_eq_true'] at hnot
  generalize s.rdropWhile (fun c => !p c) = upTo at h hsplit hnil hlast
  generalize s.rtakeWhile (fun c => !p c) = rest at hsplit hrest
  have hpos := List.length_pos_iff.mpr hnil
  have hi : i + 1 = upTo.length := by
    rw [← Option.some.inj h]
    omega
  have hfront := List.dropLast_append_getLast hnil
  have htake : s.take i = upTo.dropLast := by
    rw [← hsplit, List.take_append_of_le_length (by omega), List.dropLast_eq_take]
    congr 1
    omega
  have hdrop : s.drop (i + 1) = rest := by
    rw [← hsplit, hi, List.drop_left]
  refine ⟨upTo.getLast hnil, ?_, ?_, ?_, ?_⟩
  · rw [Bool.not_eq_true', ← Bool.not_eq_true, not_not] at hlast
    exact hlast
  · rw [htake, hdrop, List.append_cons, hfront]
    exact hsplit.symm
  · have hlength := congrArg List.length hsplit
    rw [List.length_append] at hlength
    omega
  · rw [hdrop]
    exact hrest

/-! ## Cutting -/

theorem wellFormed_of_ascii {s : Bytes} (h : ∀ b ∈ s, b.toNat ≤ 0x7F) : WellFormed s := by
  induction s with
  | nil => exact WellFormed.nil
  | cons b s ih =>
    have hunit : Unit [b] := Unit.one (h b List.mem_cons_self)
    exact hunit.wellFormed.append (ih fun c hc => h c (List.mem_cons_of_mem _ hc))

theorem leadBefore_spec {value : Bytes} (hwell : WellFormed value) {last : ℕ}
    (hin : last < value.length) : leadBefore value last ≤ last ∧
      ¬ Tail (value.getD (leadBefore value last) 0) ∧
      ∀ j, leadBefore value last < j → j ≤ last → Tail (value.getD j 0) := by
  induction last with
  | zero =>
    refine ⟨Nat.le_refl _, ?_, fun j hj hle => absurd hle (Nat.not_le.mpr hj)⟩
    exact hwell.head_not_tail (List.ne_nil_of_length_pos hin)
  | succ last ih =>
    rw [leadBefore]
    by_cases htail : Tail (byteAt value (last + 1))
    · rw [if_pos ((isContinuation_iff _).mpr htail)]
      obtain ⟨hle, hlead, htails⟩ := ih (by omega)
      refine ⟨by omega, hlead, fun j hj hjle => ?_⟩
      by_cases heq : j = last + 1
      · rw [heq]
        exact htail
      · exact htails j hj (by omega)
    · rw [if_neg (mt (isContinuation_iff _).mp htail)]
      exact ⟨Nat.le_refl _, htail, fun j hj hjle => absurd hjle (Nat.not_le.mpr hj)⟩

/-- A cut loses at most three bytes of the budget, and none in the middle of a character. -/
theorem utf8PrefixLength_spec {value : Bytes} (hwell : WellFormed value) (maxBytes : ℕ) :
    utf8PrefixLength value maxBytes ≤ maxBytes ∧
      WellFormed (value.take (utf8PrefixLength value maxBytes)) ∧
      (maxBytes < value.length → maxBytes ≤ utf8PrefixLength value maxBytes + 3) := by
  rw [utf8PrefixLength]
  by_cases hfits : value.length ≤ maxBytes
  · rw [if_pos hfits, List.take_length]
    exact ⟨hfits, hwell, fun h => absurd h (Nat.not_lt.mpr hfits)⟩
  · rw [if_neg hfits]
    obtain ⟨hle, hlead, htails⟩ := leadBefore_spec hwell (Nat.not_le.mp hfits)
    generalize leadBefore value maxBytes = lead at hle hlead htails
    have hcut := hwell.split hlead (by omega)
    refine ⟨hle, hcut.1, fun _ => ?_⟩
    by_contra hfar
    have hlong : 4 ≤ (value.drop lead).length - 1 := by
      rw [List.length_drop]
      omega
    obtain ⟨k, hpos, hk, hnot⟩ :=
      hcut.2.first_boundary (n := 4) (Nat.le_refl 4) (by omega)
    apply hnot
    rw [List.getD_eq_getElem?_getD, List.getElem?_drop, ← List.getD_eq_getElem?_getD]
    exact htails (lead + k) (by omega) (by omega)

/-- What truncation to a budget owes. -/
structure Truncated (budget : ℕ) (filename out : Bytes) : Prop where
  within : out.length ≤ budget
  same : filename.length ≤ budget → out = filename
  near : budget < filename.length → budget ≤ out.length + 3
  wellFormed : WellFormed out
  subset : ∀ b ∈ out, b ∈ filename
  extension : ∀ stem ext, filename = stem ++ 46 :: ext → 46 ∉ ext → ext.length + 1 ≤ budget →
    46 :: ext <:+ out

theorem truncated_whole {filename : Bytes} {budget : ℕ} (hwell : WellFormed filename)
    (hlong : budget < filename.length)
    (hext : ∀ stem ext, filename = stem ++ 46 :: ext → 46 ∉ ext → budget < ext.length + 1) :
    Truncated budget filename (filename.take (utf8PrefixLength filename budget)) := by
  obtain ⟨hle, hcut, hnear⟩ := utf8PrefixLength_spec hwell budget
  have hlength : (filename.take (utf8PrefixLength filename budget)).length =
      utf8PrefixLength filename budget := by
    rw [List.length_take]
    omega
  refine ⟨by omega, fun h => absurd h (by omega), fun h => ?_, hcut, ?_, ?_⟩
  · rw [hlength]
    exact hnear h
  · intro b hb
    exact List.mem_of_mem_take hb
  · intro stem ext hsplit hdot hfits
    exact absurd hfits (Nat.not_le.mpr (hext stem ext hsplit hdot))

/-- The last dot of a name is where its extension begins. -/
theorem last_dot_unique {stem ext stem' ext' : Bytes} (h : stem ++ 46 :: ext = stem' ++ 46 :: ext')
    (hext : 46 ∉ ext) (hext' : 46 ∉ ext') : ext = ext' := by
  rcases List.append_eq_append_iff.mp h with ⟨between, -, heq⟩ | ⟨between, -, heq⟩
  · cases between with
    | nil => exact (List.cons.inj heq).2
    | cons b between =>
      apply absurd _ hext
      rw [(List.cons.inj heq).2]
      exact List.mem_append_right _ List.mem_cons_self
  · cases between with
    | nil => exact (List.cons.inj heq).2.symm
    | cons b between =>
      apply absurd _ hext'
      rw [(List.cons.inj heq).2]
      exact List.mem_append_right _ List.mem_cons_self

theorem truncateUtf8Filename_truncated {filename : Bytes} {budget : ℕ}
    (hwell : WellFormed filename) (hmax : budget ≤ kMaxFilenameBytes) :
    Truncated budget filename (truncateUtf8Filename filename budget) := by
  rw [truncateUtf8Filename, Nat.min_eq_left hmax]
  dsimp only
  by_cases hfits : filename.length ≤ budget
  · rw [if_pos hfits]
    refine ⟨hfits, fun _ => rfl, fun h => absurd h (by omega), hwell, fun b hb => hb, ?_⟩
    intro stem ext hsplit _ _
    exact ⟨stem, hsplit.symm⟩
  · rw [if_neg hfits]
    by_cases hzero : budget = 0
    · rw [if_pos hzero, hzero]
      refine ⟨Nat.le_refl _, fun h => ?_, fun _ => Nat.zero_le _, WellFormed.nil, ?_, ?_⟩
      · exact (List.length_eq_zero_iff.mp (Nat.le_zero.mp h)).symm
      · intro b hb
        cases hb
      · intro stem ext _ _ hle
        omega
    · rw [if_neg hzero]
      cases hdot : findLastOf (· == 46) filename with
      | none =>
        apply truncated_whole hwell (by omega)
        intro stem ext hsplit _
        have hmem : 46 ∈ filename := by
          rw [hsplit]
          exact List.mem_append_right _ List.mem_cons_self
        cases findLastOf_none hdot 46 hmem
      | some i =>
        obtain ⟨c, hc, hsplit, hi, hrest⟩ := findLastOf_some hdot
        obtain rfl := beq_iff_eq.mp hc
        have hdrop : filename.drop i = 46 :: filename.drop (i + 1) := by
          apply @List.append_cancel_left _ (filename.take i)
          rw [List.take_append_drop]
          exact hsplit
        have hdotless : 46 ∉ filename.drop (i + 1) := by
          intro hmem
          cases hrest 46 hmem
        have hunique : ∀ stem ext, filename = stem ++ 46 :: ext → 46 ∉ ext →
            filename.drop i = 46 :: ext := by
          intro stem ext hother hext
          rw [hdrop, last_dot_unique (hsplit.symm.trans hother) hdotless hext]
        have hlead : ¬ Tail (filename.getD i 0) := by
          have hget : (filename.drop i)[0]? = filename[i + 0]? := List.getElem?_drop
          rw [hdrop] at hget
          rw [List.getD_eq_getElem?_getD, ← Nat.add_zero i, ← hget]
          change ¬ Tail (46 : UInt8)
          decide
        obtain ⟨hstem, hextension⟩ := hwell.split hlead hi
        dsimp only
        by_cases hroom : (filename.drop i).length ≤ budget
        · rw [if_pos hroom]
          obtain ⟨hle, hcut, hnear⟩ :=
            utf8PrefixLength_spec hstem (budget - (filename.drop i).length)
          have hstemLength : (filename.take i).length = i := List.length_take_of_le hi.le
          have hextLength : (filename.drop i).length = filename.length - i := List.length_drop
          rw [hstemLength] at hnear
          generalize utf8PrefixLength (filename.take i) (budget - (filename.drop i).length) = n
            at hle hcut hnear
          have hlength : ((filename.take i).take n ++ filename.drop i).length =
              min n i + (filename.drop i).length := by
            rw [List.length_append, List.length_take, hstemLength]
          refine ⟨by omega, fun h => absurd h hfits, fun _ => by omega, hcut.append hextension,
            ?_, ?_⟩
          · intro b hb
            rcases List.mem_append.mp hb with hfront | hback
            · exact List.mem_of_mem_take (List.mem_of_mem_take hfront)
            · exact List.mem_of_mem_drop hback
          · intro stem ext hother hext _
            rw [hunique stem ext hother hext]
            exact List.suffix_append _ _
        · rw [if_neg hroom]
          apply truncated_whole hwell (by omega)
          intro stem ext hother hext
          rw [hunique stem ext hother hext, List.length_cons] at hroom
          omega

/-! ## Markers -/

theorem baseStart_eq (path : Bytes) :
    baseStart path = (path.rdropWhile fun c => !isSeparator c).length := by
  rw [baseStart, findLastOf]
  split
  · rename_i h
    split_ifs at h with hnil
    rw [hnil]
    rfl
  · rename_i slash h
    split_ifs at h with hnil
    have hpos := List.length_pos_iff.mpr hnil
    rw [← Option.some.inj h]
    omega

theorem take_drop_of_append {a b s : Bytes} (h : a ++ b = s) :
    s.take a.length = a ∧ s.drop a.length = b := by
  rw [← h]
  exact ⟨List.take_left, List.drop_left⟩

theorem rdropWhile_append {q : UInt8 → Bool} {rest : Bytes} (h : ∀ c ∈ rest, q c = true)
    (s : Bytes) : (s ++ rest).rdropWhile q = s.rdropWhile q := by
  rw [List.rdropWhile, List.reverse_append, List.dropWhile_append_of_pos]
  · rfl
  · intro c hc
    exact h c (List.mem_reverse.mp hc)

/-- Behind its directory a path has no separator. -/
theorem path_parts (path : Bytes) : ∃ dir, path = dir ++ basename path ∧
    dir.rdropWhile (fun c => !isSeparator c) = dir ∧ path.take (baseStart path) = dir ∧
    ∀ c ∈ basename path, isSeparator c = false := by
  have hparts := take_drop_of_append (upTo_append isSeparator path)
  rw [← baseStart_eq] at hparts
  refine ⟨path.rdropWhile fun c => !isSeparator c, ?_, List.rdropWhile_idempotent _ _, hparts.1, ?_⟩
  · rw [basename, hparts.2]
    exact (upTo_append isSeparator path).symm
  · intro c hc
    rw [basename, hparts.2] at hc
    have hnot := List.mem_rtakeWhile_imp hc
    rwa [Bool.not_eq_true'] at hnot

theorem basename_append {dir name : Bytes} (hdir : dir.rdropWhile (fun c => !isSeparator c) = dir)
    (hname : ∀ c ∈ name, isSeparator c = false) : basename (dir ++ name) = name := by
  have hall : ∀ c ∈ name, (!isSeparator c) = true := by
    intro c hc
    rw [hname c hc]
    rfl
  rw [basename, baseStart_eq, rdropWhile_append hall, hdir, List.drop_left]

theorem suffix_plain {c : UInt8} (h : c ∈ kReceiveMarkerSuffix) : isSeparator c = false := by
  have hall : kReceiveMarkerSuffix.all (fun c => !isSeparator c) = true := by decide
  have hnot := List.all_eq_true.mp hall c h
  rwa [Bool.not_eq_true'] at hnot

theorem basename_receiveMarkerPath (path : Bytes) :
    basename (receiveMarkerPath path) = 46 :: basename path ++ kReceiveMarkerSuffix := by
  obtain ⟨dir, -, hdir, htake, hbase⟩ := path_parts path
  rw [receiveMarkerPath, htake, List.append_assoc]
  apply basename_append hdir
  intro c hc
  rcases List.mem_append.mp hc with hfront | hback
  · rcases List.mem_cons.mp hfront with rfl | hin
    · rfl
    · exact hbase c hin
  · exact suffix_plain hback

theorem dataNameForMarker_marker (name : Bytes) :
    dataNameForMarker (46 :: name ++ kReceiveMarkerSuffix) = name := by
  have hlength : (46 :: name ++ kReceiveMarkerSuffix).length =
      name.length + 1 + kReceiveMarkerSuffix.length := by
    rw [List.length_append, List.length_cons]
  have hback : (46 :: name ++ kReceiveMarkerSuffix).drop
      ((46 :: name ++ kReceiveMarkerSuffix).length - kReceiveMarkerSuffix.length) =
        kReceiveMarkerSuffix := by
    rw [hlength, Nat.add_sub_cancel, ← List.length_cons (a := 46), List.drop_left]
  rw [dataNameForMarker, hback, hlength]
  cases name with
  | nil => rfl
  | cons c rest =>
    have hlong : ¬ (c :: rest).length + 1 + kReceiveMarkerSuffix.length ≤
        kReceiveMarkerSuffix.length + 1 := by
      rw [List.length_cons]
      omega
    rw [decide_eq_false hlong, if_neg]
    · have htake : (c :: rest).length + 1 + kReceiveMarkerSuffix.length -
          kReceiveMarkerSuffix.length - 1 = (c :: rest).length := by omega
      rw [htake]
      exact List.take_left
    · rw [bne_self_eq_false]
      exact Bool.false_ne_true

theorem dataNameForMarker_data {name : Bytes} (h : name.head? ≠ some 46) :
    dataNameForMarker name = [] := by
  rw [dataNameForMarker, if_pos]
  rw [Bool.or_eq_true, Bool.or_eq_true, bne_iff_ne]
  exact Or.inl (Or.inr h)

/-! ## What an offer brings -/

theorem decimalBytes_digit {n : ℕ} {b : UInt8} (h : b ∈ decimalBytes n) :
    48 ≤ b.toNat ∧ b.toNat ≤ 57 := by
  obtain ⟨c, hc, rfl⟩ := List.mem_map.mp h
  have hdigit := Nat.isDigit_of_mem_toDigits (by decide) (by decide) hc
  rw [Char.isDigit, Bool.and_eq_true, decide_eq_true_eq, decide_eq_true_eq] at hdigit
  have hlow : 48 ≤ c.toNat := hdigit.1
  have hhigh : c.toNat ≤ 57 := hdigit.2
  rw [toNat_ofNat_small (by omega)]
  exact ⟨hlow, hhigh⟩

theorem decimalBytes_length (n : UInt32) : (decimalBytes n.toNat).length ≤ 10 := by
  rw [decimalBytes, List.length_map, Nat.length_toDigits_le_iff (by decide) (by decide)]
  exact Nat.lt_trans n.toNat_lt (by decide)

/-- A byte of ASCII that is no separator. -/
def Safe (b : UInt8) : Prop := b.toNat ≤ 0x7F ∧ isSeparator b = false

instance (b : UInt8) : Decidable (Safe b) := inferInstanceAs (Decidable (_ ∧ _))

theorem safe_of_toNat {b : UInt8} (hascii : b.toNat ≤ 0x7F) (hslash : b.toNat ≠ 47)
    (hback : b.toNat ≠ 92) : Safe b := by
  refine ⟨hascii, ?_⟩
  rw [isSeparator, Bool.or_eq_false_iff, beq_eq_false_iff_ne, beq_eq_false_iff_ne]
  constructor
  · intro heq
    exact hslash (congrArg UInt8.toNat heq)
  · intro heq
    exact hback (congrArg UInt8.toNat heq)

theorem safe_of_digit {b : UInt8} (h : 48 ≤ b.toNat ∧ b.toNat ≤ 57) : Safe b :=
  safe_of_toNat (by omega) (by omega) (by omega)

theorem senderHex_safe {senderHex : Bytes} (h : SenderHex senderHex) :
    senderHex.length ≤ 64 ∧ senderHex.head? ≠ some 46 ∧ senderHex ≠ [] ∧
      ∀ b ∈ senderHex, Safe b := by
  rcases h with rfl | ⟨hlength, hhex⟩
  · have hall : ([117, 110, 107, 110, 111, 119, 110] : Bytes).all (Safe ·) = true := by decide
    exact ⟨by decide, by decide, by decide,
      fun b hb => of_decide_eq_true (List.all_eq_true.mp hall b hb)⟩
  · have hbyte : ∀ b ∈ senderHex, Safe b ∧ b ≠ 46 := by
      intro b hb
      have hdigit := List.all_eq_true.mp hhex b hb
      simp only [Bool.or_eq_true, Bool.and_eq_true, decide_eq_true_eq, UInt8.le_iff_toNat_le]
        at hdigit
      have hrange : (48 ≤ b.toNat ∧ b.toNat ≤ 57 ∨ 65 ≤ b.toNat ∧ b.toNat ≤ 70) ∨
          97 ≤ b.toNat ∧ b.toNat ≤ 102 := hdigit
      refine ⟨safe_of_toNat (by omega) (by omega) (by omega), fun heq => ?_⟩
      have hdot : b.toNat = 46 := congrArg UInt8.toNat heq
      omega
    refine ⟨hlength.le, ?_, ?_, fun b hb => (hbyte b hb).1⟩
    · intro hhead
      exact (hbyte 46 (List.mem_of_mem_head? hhead)).2 rfl
    · intro hnil
      rw [hnil] at hlength
      cases hlength

theorem storagePrefixOf_spec {senderHex : Bytes} (h : SenderHex senderHex)
    (friendNumber fileNumber : UInt32) :
    (storagePrefixOf senderHex friendNumber fileNumber).length ≤ 87 ∧
      (∃ c rest, storagePrefixOf senderHex friendNumber fileNumber = c :: rest ∧ c ≠ 46) ∧
      ∀ b ∈ storagePrefixOf senderHex friendNumber fileNumber, Safe b := by
  obtain ⟨hlength, hhead, hne, hsafe⟩ := senderHex_safe h
  have hfriend := decimalBytes_length friendNumber
  have hfile := decimalBytes_length fileNumber
  refine ⟨?_, ?_, ?_⟩
  · simp only [storagePrefixOf, List.length_append, List.length_cons, List.length_nil]
    omega
  · obtain ⟨c, rest, rfl⟩ := List.exists_cons_of_ne_nil hne
    refine ⟨c, _, rfl, fun heq => ?_⟩
    rw [heq] at hhead
    exact hhead rfl
  · intro b hb
    have hunder : Safe 95 := by decide
    simp only [storagePrefixOf, List.mem_append, List.mem_cons, List.not_mem_nil, or_false] at hb
    rcases hb with ((hb | hb | hb) | hb | hb) | hb
    · exact hsafe b hb
    · rw [hb]
      exact hunder
    · exact safe_of_digit (decimalBytes_digit hb)
    · rw [hb]
      exact hunder
    · exact safe_of_digit (decimalBytes_digit hb)
    · rw [hb]
      exact hunder

theorem defaultName_safe (kind friendNumber fileNumber : UInt32) :
    ∀ b ∈ defaultName kind friendNumber fileNumber, Safe b := by
  intro b hb
  have hunder : Safe 95 := by decide
  rw [defaultName, List.mem_append, List.mem_append, List.mem_cons, List.mem_cons] at hb
  rcases hb with (hb | hb | hb) | hb | hb
  · split_ifs at hb
    · have hall : ([97, 118, 97, 116, 97, 114] : Bytes).all (Safe ·) = true := by decide
      exact of_decide_eq_true (List.all_eq_true.mp hall b hb)
    · have hall : ([102, 105, 108, 101] : Bytes).all (Safe ·) = true := by decide
      exact of_decide_eq_true (List.all_eq_true.mp hall b hb)
  · rw [hb]
    exact hunder
  · exact safe_of_digit (decimalBytes_digit hb)
  · rw [hb]
    exact hunder
  · exact safe_of_digit (decimalBytes_digit hb)

/-- Bytes of ASCII are exchanged for others, the rest of a text stays. -/
theorem wellFormed_map {f : UInt8 → UInt8} (hlow : ∀ b, b.toNat ≤ 0x7F → (f b).toNat ≤ 0x7F)
    (hhigh : ∀ b, 0x80 ≤ b.toNat → f b = b) {s : Bytes} (h : WellFormed s) :
    WellFormed (s.map f) := by
  induction h using WellFormed.induct with
  | hnil => exact WellFormed.nil
  | hunit u rest hu hrest ih =>
    rw [List.map_append]
    apply WellFormed.append _ ih
    have htail : ∀ {b}, Tail b → f b = b := fun ht => hhigh _ ht.1
    apply Unit.wellFormed
    cases hu with
    | one ha => exact Unit.one (hlow _ ha)
    | @two a _ ha ha' hb =>
      have hlead : f a = a := hhigh a (by omega)
      simp only [List.map_cons, List.map_nil, hlead, htail hb]
      exact Unit.two ha ha' hb
    | @three a _ _ ha ha' hb hc hl hr =>
      have hlead : f a = a := hhigh a (by omega)
      simp only [List.map_cons, List.map_nil, hlead, htail hb, htail hc]
      exact Unit.three ha ha' hb hc hl hr
    | @four a _ _ _ ha ha' hb hc hd hl hr =>
      have hlead : f a = a := hhigh a (by omega)
      simp only [List.map_cons, List.map_nil, hlead, htail hb, htail hc, htail hd]
      exact Unit.four ha ha' hb hc hd hl hr

theorem offeredName_spec (kind friendNumber fileNumber : UInt32) {name : Bytes}
    (h : WellFormed name) : WellFormed (offeredName kind friendNumber fileNumber name) ∧
      ∀ b ∈ offeredName kind friendNumber fileNumber name, isSeparator b = false := by
  rw [offeredName]
  split_ifs
  · have hsafe := defaultName_safe kind friendNumber fileNumber
    exact ⟨wellFormed_of_ascii fun b hb => (hsafe b hb).1, fun b hb => (hsafe b hb).2⟩
  · constructor
    · apply wellFormed_map _ _ h
      · intro b hb
        split_ifs
        · decide
        · exact hb
      · intro b hb
        rw [if_neg]
        intro hsep
        rw [isSeparator, Bool.or_eq_true, beq_iff_eq, beq_iff_eq] at hsep
        rcases hsep with rfl | rfl
        · exact absurd hb (by decide)
        · exact absurd hb (by decide)
    · intro b hb
      obtain ⟨c, -, rfl⟩ := List.mem_map.mp hb
      split_ifs with hsep
      · rfl
      · rw [← Bool.not_eq_true]
        exact hsep

/-! ## Usable names -/

/-- What a stored name owes to its offer. -/
structure Usable (storagePrefix name base : Bytes) : Prop where
  wellFormed : WellFormed base
  flat : ∀ c ∈ base, isSeparator c = false
  starts : storagePrefix <+: base
  short : base.length ≤ kMaxFilenameBytes
  extension : ∀ stem ext, name = stem ++ 46 :: ext → 46 ∉ ext →
    ext.length + 1 ≤ kMaxFilenameBytes - storagePrefix.length → 46 :: ext <:+ base
  markerShort : ∀ dir : Bytes,
    (basename (receiveMarkerPath (dir ++ 47 :: base))).length ≤ kMaxFilenameBytes
  guards : ∀ path, dataNameForMarker (basename (receiveMarkerPath path)) = basename path
  notMarker : dataNameForMarker base = []

theorem marker_length {base : Bytes} (hflat : ∀ c ∈ base, isSeparator c = false) (dir : Bytes) :
    (basename (receiveMarkerPath (dir ++ 47 :: base))).length = base.length + 15 := by
  have hdir : (dir ++ [47]).rdropWhile (fun c => !isSeparator c) = dir ++ [47] :=
    List.rdropWhile_concat_neg _ _ _ (by decide)
  rw [basename_receiveMarkerPath, List.append_cons, basename_append hdir hflat]
  rw [List.length_append, List.length_cons]
  rfl

theorem storage_names_usable_iff (senderHex name : Bytes) (kind friendNumber fileNumber : UInt32)
    (hsender : SenderHex senderHex) (hname : WellFormed name) :
    Usable (storagePrefixOf senderHex friendNumber fileNumber)
        (offeredName kind friendNumber fileNumber name)
        (storageName senderHex kind friendNumber fileNumber name) ↔
      (storagePrefixOf senderHex friendNumber fileNumber).length +
        (offeredName kind friendNumber fileNumber name).length ≤ 240 := by
  obtain ⟨hfront, ⟨first, rest, hhead, hnot⟩, hsafe⟩ :=
    storagePrefixOf_spec hsender friendNumber fileNumber
  obtain ⟨hwell, hflat⟩ := offeredName_spec kind friendNumber fileNumber hname
  rw [storageName]
  generalize storagePrefixOf senderHex friendNumber fileNumber = storagePrefix
    at hfront hhead hsafe
  generalize offeredName kind friendNumber fileNumber name = name' at hwell hflat
  have hroom : ¬ kMaxFilenameBytes ≤ storagePrefix.length := by
    rw [kMaxFilenameBytes]
    omega
  have hcut := @truncateUtf8Filename_truncated name' (kMaxFilenameBytes - storagePrefix.length)
    hwell (Nat.sub_le _ _)
  rw [composeStorageBasename, Nat.min_self, if_neg hroom]
  generalize truncateUtf8Filename name' (kMaxFilenameBytes - storagePrefix.length) = cut at hcut
  have hmax : kMaxFilenameBytes = 255 := rfl
  have hbaseFlat : ∀ c ∈ storagePrefix ++ cut, isSeparator c = false := by
    intro c hc
    rcases List.mem_append.mp hc with hfront | hback
    · exact (hsafe c hfront).2
    · exact hflat c (hcut.subset c hback)
  have hlength : (storagePrefix ++ cut).length = storagePrefix.length + cut.length :=
    List.length_append
  constructor
  · intro h
    have hmarker := h.markerShort []
    rw [marker_length hbaseFlat, hlength, hmax] at hmarker
    by_contra hlong
    by_cases hfits : name'.length ≤ kMaxFilenameBytes - storagePrefix.length
    · rw [hcut.same hfits] at hmarker
      omega
    · have hnear := hcut.near (by omega)
      omega
  · intro h
    have hsame := hcut.same (by omega)
    refine ⟨?_, hbaseFlat, List.prefix_append _ _, ?_, ?_, ?_, ?_, ?_⟩
    · exact (wellFormed_of_ascii fun b hb => (hsafe b hb).1).append hcut.wellFormed
    · rw [hlength, hsame]
      omega
    · intro stem ext hsplit hdot hfits
      obtain ⟨front, hfront⟩ := hcut.extension stem ext hsplit hdot hfits
      refine ⟨storagePrefix ++ front, ?_⟩
      rw [List.append_assoc, hfront]
    · intro dir
      rw [marker_length hbaseFlat, hlength, hsame]
      omega
    · intro path
      rw [basename_receiveMarkerPath, dataNameForMarker_marker]
    · apply dataNameForMarker_data
      rw [hhead]
      intro heq
      exact hnot (Option.some.inj heq)

/-- `A…A_3_65536_a.tar.gz` -/
theorem archive_usable :
    Usable (storagePrefixOf (List.replicate 64 65) 3 65536)
      (offeredName 0 3 65536 [97, 46, 116, 97, 114, 46, 103, 122])
      (storageName (List.replicate 64 65) 0 3 65536 [97, 46, 116, 97, 114, 46, 103, 122]) :=
  (storage_names_usable_iff _ _ _ _ _ (Or.inr ⟨rfl, rfl⟩) ((isValidUtf8_iff _).mp rfl)).mpr
    (by decide)

/-- A name that fills the budget leaves no room for the marker's dot and suffix. -/
theorem long_name_without_marker :
    ¬ Usable (storagePrefixOf (List.replicate 64 65) 3 4) (offeredName 0 3 4 (List.replicate 186 97))
      (storageName (List.replicate 64 65) 0 3 4 (List.replicate 186 97)) := by
  intro h
  have hshort := h.markerShort [47]
  revert hshort
  decide +kernel

end Tim2Tox.StorageNames
